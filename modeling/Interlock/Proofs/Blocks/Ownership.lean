import Interlock.Proofs.Blocks.RawControl
import Interlock.Proofs.Blocks.Refinement

/-!
# A block stays with its owner

A blocked path keeps its block, and the block its owner, until the owner asks for the block to be
deleted or for all its blocks to be removed. Whatever else is asked of the registry meanwhile, with
success or without, leaves the block alone: deleting it is refused with the name of its owner, and
blocking the path again because it is blocked.
-/

namespace Interlock.Blocks

variable {devel : Bool} {r : Registry} {request : Request} {s : Section} {op : ControlOp}
  {path : String} {blocker owner : Blocker}

/-! ### What is asked for -/

/-- A request for an operation on a path in a blocker's name, in any of its forms. -/
inductive Request.Attempts (devel : Bool) :
    ControlOp → String → Blocker → Request → Prop
  | add (path : String) (blocker : Blocker) : Attempts devel .add path blocker (.add path blocker)
  | delete (path : String) (blocker : Blocker) :
    Attempts devel .delete path blocker (.delete path blocker)
  | control (op : ControlOp) (path : String) (blocker : Blocker) :
    Attempts devel op path blocker (.control op path blocker)
  | raw {code : UInt32} {bytes : ByteArray} {op : ControlOp} {path : String} (blocker : Blocker) :
    Decodes devel code bytes op path →
      Attempts devel op path blocker (.controlRaw code bytes blocker)

/-- The requests by which a blocker gives up its block of a path. -/
def Request.Releases (devel : Bool) (path : String) (owner : Blocker) (request : Request) : Prop :=
  request.Attempts devel .delete path owner ∨ request = .removeAll owner

/-- In whose name a request is made. -/
def Request.blocker? : Request → Option Blocker
  | add _ blocker | delete _ blocker | removeAll blocker => some blocker
  | control _ _ blocker | controlRaw _ _ blocker => some blocker
  | isBlocked _ | list => none

theorem blocker?_of_releases (h : request.Releases devel path owner) :
    request.blocker? = some owner := by
  rcases h with ha | rfl
  · cases ha <;> rfl
  · rfl

theorem resolve_of_attempts (h : request.Attempts devel op path blocker) :
    request.resolve devel = Request.resolveControl op path blocker := by
  cases h with
  | add | delete | control => rfl
  | raw _ hd => simp only [Request.resolve, hd.ofCode, hd.fromUTF8?]

theorem section_of_resolveControl (h : Request.resolveControl op path blocker = .ok s) :
    s = op.section path blocker := by
  rcases resolveControl_cases op path blocker with ⟨reason, herror⟩ | hok
  · rw [herror] at h
    cases h
  · rw [hok] at h
    exact (Except.ok.inj h).symm

theorem attempts_of_resolve (h : request.resolve devel = .ok s) :
    (∃ op path blocker, request.Attempts devel op path blocker ∧ s = op.section path blocker) ∨
      (∃ blocker, request = .removeAll blocker ∧ s = .removeAll blocker) ∨
      (∃ path, s = .isBlocked path) ∨ s = .list := by
  cases request with
  | add path blocker => exact .inl ⟨_, _, _, .add _ _, section_of_resolveControl h⟩
  | delete path blocker => exact .inl ⟨_, _, _, .delete _ _, section_of_resolveControl h⟩
  | control op path blocker => exact .inl ⟨_, _, _, .control _ _ _, section_of_resolveControl h⟩
  | controlRaw code bytes blocker =>
    simp only [Request.resolve] at h
    split at h
    · cases h
    · rename_i op hop
      split at h
      · cases h
      · rename_i path htext
        have hd : Decodes devel code bytes op path :=
          ⟨(operation_eq_ofCode devel code).trans hop, Text.fromUTF8?_eq_some_iff.mp htext⟩
        exact .inl ⟨op, path, blocker, .raw blocker hd, section_of_resolveControl h⟩
  | removeAll blocker => exact .inr (.inl ⟨blocker, rfl, (Except.ok.inj h).symm⟩)
  | isBlocked path => exact .inr (.inr (.inl ⟨path, (Except.ok.inj h).symm⟩))
  | list => exact .inr (.inr (.inr (Except.ok.inj h).symm))

/-- A request releases a path that can be blocked by coming to one of two sections. -/
theorem releases_iff (hpath : PathMap.check path = .ok ()) :
    request.Releases devel path owner ↔
      request.resolve devel = .ok (.delete path owner) ∨
        request.resolve devel = .ok (.removeAll owner) := by
  constructor
  · rintro (ha | rfl)
    · exact .inl ((resolve_of_attempts ha).trans (resolveControl_of_check hpath))
    · exact .inr rfl
  · rintro (h | h)
    · rcases attempts_of_resolve h with ⟨op, p, b, ha, hs⟩ | ⟨b, -, hs⟩ | ⟨p, hs⟩ | hs
      · cases op <;> cases hs
        exact .inl ha
      all_goals cases hs
    · rcases attempts_of_resolve h with ⟨op, p, b, ha, hs⟩ | ⟨b, hr, hs⟩ | ⟨p, hs⟩ | hs
      · cases op <;> cases hs
      · cases hs
        exact .inr hr
      all_goals cases hs

/-! ### One request -/

theorem Registry.WellFormed.check_of_owner? (h : r.WellFormed)
    (howner : r.owner? path = some owner) : PathMap.check path = .ok () := by
  have hmem := h.owner?_eq_some_iff.mp howner
  exact check_eq_ok_iff.mpr ⟨h.nonempty _ hmem, h.short _ hmem⟩

theorem isBlocked_of_owner? (howner : r.owner? path = some owner) : r.isBlocked path = true := by
  rw [Registry.isBlocked, howner]
  rfl

theorem owner?_run_add (howner : r.owner? path = some owner) (added : String)
    (blocker : Blocker) :
    ((Section.add added blocker).run r).registry.owner? path = some owner := by
  rw [Section.run, Registry.add]
  by_cases hadded : r.isBlocked added = true
  · rw [if_pos hadded]
    exact howner
  · have hne : path ≠ added := by
      rintro rfl
      exact hadded (isBlocked_of_owner? howner)
    rw [if_neg hadded]
    simp only [Registry.owner?_cons, PathMap.insert, Function.update_of_ne hne, howner]

theorem owner?_run_delete (howner : r.owner? path = some owner) (deleted : String)
    (blocker : Blocker) :
    ((Section.delete deleted blocker).run r).registry.owner? path =
      if deleted = path ∧ blocker = owner then none else some owner := by
  rw [Section.run, Registry.delete]
  cases hdeleted : r.owner? deleted with
  | none =>
    have hne : ¬ (deleted = path ∧ blocker = owner) := by
      rintro ⟨rfl, -⟩
      rw [howner] at hdeleted
      cases hdeleted
    rw [if_neg hne]
    exact howner
  | some holder =>
    -- A blocker deletes only a block of its own, which is this one only if the paths agree.
    by_cases hholder : holder = blocker
    · simp only [if_pos hholder, Registry.owner?_filter_ne, PathMap.erase]
      by_cases hpath : path = deleted
      · subst hpath
        have hblocker : blocker = owner :=
          hholder.symm.trans (Option.some.inj (hdeleted.symm.trans howner))
        rw [Function.update_self, if_pos ⟨rfl, hblocker⟩]
      · rw [Function.update_of_ne hpath, if_neg fun hboth => hpath hboth.1.symm, howner]
    · have hne : ¬ (deleted = path ∧ blocker = owner) := by
        rintro ⟨rfl, rfl⟩
        exact hholder (Option.some.inj (hdeleted.symm.trans howner))
      rw [if_neg hne]
      simp only [if_neg hholder, howner]

theorem owner?_run_removeAll (h : r.WellFormed) (howner : r.owner? path = some owner)
    (blocker : Blocker) :
    ((Section.removeAll blocker).run r).registry.owner? path =
      if blocker = owner then none else some owner := by
  rw [(run_removeAll r blocker).2, h.owner?_removeAll, PathMap.removeAll, howner]
  simp only [Option.some.injEq, eq_comm]

/-- Two sections free a path that a blocker owns, and no other touches its block. -/
theorem owner?_run (h : r.WellFormed) (howner : r.owner? path = some owner) (s : Section) :
    (s.run r).registry.owner? path =
      if s = .delete path owner ∨ s = .removeAll owner then none else some owner := by
  cases s with
  | add added blocker => simp [owner?_run_add howner]
  | delete deleted blocker => simp [owner?_run_delete howner]
  | removeAll blocker => simp [owner?_run_removeAll h howner]
  | isBlocked | list | dump => simp [Section.run, howner]

theorem owner?_of_not_releases (h : r.WellFormed) (howner : r.owner? path = some owner)
    (hkeep : ¬ request.Releases devel path owner) :
    (r.handle devel request).2.owner? path = some owner := by
  rw [releases_iff (h.check_of_owner? howner)] at hkeep
  cases hs : request.resolve devel with
  | error reason => rwa [handle_of_error hs]
  | ok s =>
    rw [hs, Except.ok.injEq, Except.ok.injEq] at hkeep
    rw [handle_of_ok hs, owner?_run h howner, if_neg hkeep]

theorem owner?_of_releases (h : r.WellFormed) (howner : r.owner? path = some owner)
    (hrelease : request.Releases devel path owner) :
    (r.handle devel request).2.owner? path = none := by
  rw [releases_iff (h.check_of_owner? howner)] at hrelease
  rcases hrelease with hs | hs
  · rw [handle_of_ok hs, owner?_run h howner, if_pos (.inl rfl)]
  · rw [handle_of_ok hs, owner?_run h howner, if_pos (.inr rfl)]

theorem wellFormed_handle (h : r.WellFormed) (devel : Bool) (request : Request) :
    (r.handle devel request).2.WellFormed := by
  -- `handle_refines` leaves the list out: its answer has an order, which a map has not.
  by_cases hlist : request = .list
  · subst hlist
    exact h
  · exact (handle_refines h devel ⟨request, hlist⟩).2

theorem wellFormed_handleAll (h : r.WellFormed) (devel : Bool) (requests : List Request) :
    (r.handleAll devel requests).2.WellFormed := by
  induction requests generalizing r with
  | nil => exact h
  | cons request rest ih => exact ih (wellFormed_handle h devel request)

/-! ### Attempts that are refused -/

/-- A reply that a request is refused: a typed one with the reason, a raw one with a status of -1,
the reason in the log and the error number left behind. -/
def RefusedWith (errno : Nat) (reason : Refusal) (request : Request) (reply : Reply) : Prop :=
  reason.errno = errno ∧
    match request with
    | .controlRaw code _ blocker => reply = rawFailed code blocker reason errno
    | _ => reply = { answer := .refused reason }

theorem refusedWith_handle {reason : Refusal} (hs : request.resolve devel = .ok s)
    (hrun : s.run r = { registry := r, answer := .refused reason }) :
    RefusedWith reason.errno reason request (r.handle devel request).1 := by
  rw [handle_of_ok hs, hrun]
  cases request <;> exact ⟨rfl, rfl⟩

/-- How attempts on a path that a blocker owns are answered. -/
structure Refused (devel : Bool) (path : String) (owner : Blocker) (request : Request)
    (reply : Reply) : Prop where
  delete : ∀ other, request.Attempts devel .delete path other →
    RefusedWith Refusal.eperm (.notOwner path owner) request reply
  add : ∀ other, request.Attempts devel .add path other →
    RefusedWith Refusal.eexist (.alreadyBlocked path) request reply

theorem refused_handle (h : r.WellFormed) (howner : r.owner? path = some owner)
    (hkeep : ¬ request.Releases devel path owner) :
    Refused devel path owner request (r.handle devel request).1 := by
  have hpath := h.check_of_owner? howner
  constructor
  · intro other ha
    have hne : owner ≠ other := by
      rintro rfl
      exact hkeep (.inl ha)
    have hs := (resolve_of_attempts ha).trans (resolveControl_of_check hpath)
    refine refusedWith_handle hs ?_
    simp only [ControlOp.section, Section.run, Registry.delete, howner, if_neg hne]
  · intro other ha
    have hblocked := isBlocked_of_owner? howner
    have hs := (resolve_of_attempts ha).trans (resolveControl_of_check hpath)
    refine refusedWith_handle hs ?_
    simp only [ControlOp.section, Section.run, Registry.add, hblocked, if_true]

/-! ### Main result -/

/-- What requests do to a path that a blocker owned before them: the blocker owns it at every
point, and every attempt on it is refused. -/
structure Held (devel : Bool) (path : String) (owner : Blocker) (r : Registry)
    (requests : List Request) : Prop where
  owned : ∀ before, before <+: requests → (r.handleAll devel before).2.owner? path = some owner
  refused : List.Forall₂ (Refused devel path owner) requests (r.handleAll devel requests).1

theorem held_of_not_releases (h : r.WellFormed) (howner : r.owner? path = some owner)
    (requests : List Request) (hkeep : ∀ request ∈ requests, ¬ request.Releases devel path owner) :
    Held devel path owner r requests := by
  -- By induction on the requests: one of them keeps the registry well formed and the path owned,
  -- which is all that the rest need.
  induction requests generalizing r with
  | nil =>
    refine ⟨fun before hbefore => ?_, .nil⟩
    rw [List.prefix_nil.mp hbefore]
    exact howner
  | cons request rest ih =>
    obtain ⟨hfirst, hrest⟩ := List.forall_mem_cons.mp hkeep
    have hlater := ih (wellFormed_handle h devel request)
      (owner?_of_not_releases h howner hfirst) hrest
    refine ⟨fun before hbefore => ?_, .cons (refused_handle h howner hfirst) hlater.refused⟩
    rcases List.prefix_cons_iff.mp hbefore with rfl | ⟨between, rfl, hbetween⟩
    · exact howner
    · exact hlater.owned between hbetween

/-- After any requests of an empty registry, a block stays with its owner until a request of the
owner releases it, and only such a request frees the path. -/
theorem block_stays_with_owner (devel : Bool) (history : List Request) (path : String)
    (owner : Blocker)
    (howner : (Registry.handleAll devel history {}).2.owner? path = some owner) :
    let r := (Registry.handleAll devel history {}).2
    (∀ requests, (∀ request ∈ requests, ¬ request.Releases devel path owner) →
      Held devel path owner r requests) ∧
    ∀ request, (r.handle devel request).2.owner? path = none ↔
      request.Releases devel path owner := by
  intro r
  have h : r.WellFormed := wellFormed_handleAll Registry.wellFormed_empty devel history
  refine ⟨held_of_not_releases h howner, fun request => ⟨?_, owner?_of_releases h howner⟩⟩
  intro hfree
  by_contra hkeep
  rw [owner?_of_not_releases h howner hkeep] at hfree
  cases hfree

/-- Another blocker blocks the path again, deletes its block, removes all blocks of its own, and
deletes the block once more. The last two attempts are raw. -/
def contest : List Request :=
  [.add "/a" ⟨2⟩, .delete "/a" ⟨2⟩, .removeAll ⟨2⟩, .controlRaw 99 ⟨#[47, 97]⟩ ⟨2⟩,
    .controlRaw 98 ⟨#[47, 97]⟩ ⟨2⟩]

theorem block_stays_with_owner_contested :
    let r := (Registry.handleAll false [.add "/a" ⟨1⟩, .add "/b" ⟨2⟩] {}).2
    r.owner? "/a" = some ⟨1⟩ ∧ (∀ request ∈ contest, ¬ request.Releases false "/a" ⟨1⟩) ∧
      Held false "/a" ⟨1⟩ r contest := by
  intro r
  have howner : r.owner? "/a" = some ⟨1⟩ := by decide
  have hkeep : ∀ request ∈ contest, ¬ request.Releases false "/a" ⟨1⟩ := by
    have hother : ∀ request ∈ contest, request.blocker? ≠ some ⟨1⟩ := by decide
    exact fun request hmem hrelease => hother request hmem (blocker?_of_releases hrelease)
  exact ⟨howner, hkeep, (block_stays_with_owner false _ "/a" ⟨1⟩ howner).1 contest hkeep⟩

end Interlock.Blocks
