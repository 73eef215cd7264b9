import Interlock.Proofs.Blocks.Ownership

/-!
# Closing a blocker deletes its blocks

All blocks of a blocker may be removed at once, or deleted one by one in the blocker's name. Both
come to the same registry, whatever the order of the deletions: each of them succeeds, and none
touches a block of another blocker.
-/

namespace Interlock.Blocks

variable {devel : Bool} {r : Registry} {path : String} {paths : List String} {blocker : Blocker}

/-! ### The paths of a blocker -/

/-- The paths that a blocker owns, in some order. -/
structure Owns (r : Registry) (blocker : Blocker) (paths : List String) : Prop where
  nodup : paths.Nodup
  mem_iff : ∀ path, path ∈ paths ↔ r.owner? path = some blocker

theorem Owns.count_eq (h : Owns r blocker paths) :
    PathMap.count r.owner? blocker = paths.length := by
  have hset : {path | r.owner? path = some blocker} = ↑paths.toFinset := by
    ext path
    rw [List.coe_toFinset]
    exact (h.mem_iff path).symm
  rw [PathMap.count, hset, Set.ncard_coe_finset, List.toFinset_card_of_nodup h.nodup]

/-! ### One deletion -/

def Registry.erase (r : Registry) (path : String) : Registry :=
  ⟨r.blocks.filter fun b => b.1 != path⟩

theorem handle_delete (h : r.WellFormed) (howner : r.owner? path = some blocker) (devel : Bool) :
    r.handle devel (.delete path blocker) =
      ({ answer := .done, events := [.deleted path blocker] }, r.erase path) := by
  have hcontrol : Request.resolveControl .delete path blocker = .ok (.delete path blocker) :=
    resolveControl_of_check (h.check_of_owner? howner)
  have hresolve : (Request.delete path blocker).resolve devel = .ok (.delete path blocker) :=
    hcontrol
  have hrun : (Section.delete path blocker).run r =
      { registry := r.erase path, answer := .done, events := [.deleted path blocker],
        notify := true } := by
    simp only [Section.run, Registry.delete, howner, if_true, Registry.erase]
  rw [handle_of_ok hresolve, hrun]
  rfl

theorem Owns.erase (h : Owns r blocker (path :: paths)) : Owns (r.erase path) blocker paths := by
  obtain ⟨hnew, hrest⟩ := List.nodup_cons.mp h.nodup
  refine ⟨hrest, fun p => ?_⟩
  have howner : (r.erase path).owner? = PathMap.erase r.owner? path :=
    Registry.owner?_filter_ne r path
  rw [howner, PathMap.erase]
  by_cases hp : p = path
  · subst hp
    simp [hnew]
  · have hmem := h.mem_iff p
    rw [List.mem_cons, or_iff_right hp] at hmem
    rw [Function.update_of_ne hp, hmem]

theorem Registry.WellFormed.removeAll_erase (h : r.WellFormed)
    (howner : r.owner? path = some blocker) :
    (r.erase path).removeAll blocker = r.removeAll blocker := by
  -- The block that is deleted first is one of those that are removed.
  have hkeep : ∀ b ∈ r.blocks, (b.2 != blocker && b.1 != path) = (b.2 != blocker) := by
    intro b hmem
    by_cases hpath : b.1 = path
    · have hb : r.owner? path = some b.2 := h.owner?_eq_some_iff.mpr (hpath ▸ hmem)
      have hblocker : b.2 = blocker := Option.some.inj (hb.symm.trans howner)
      simp [hblocker]
    · simp [hpath]
  simp only [Registry.erase, Registry.removeAll, List.filter_filter]
  rw [List.filter_congr hkeep]

theorem removeAll_of_owns_nothing (h : r.WellFormed) (hnone : Owns r blocker []) :
    r.removeAll blocker = r := by
  refine congrArg Registry.mk (List.filter_eq_self.mpr fun b hmem => ?_)
  rw [bne_iff_ne]
  rintro rfl
  exact absurd ((hnone.mem_iff b.1).mpr (h.owner?_eq_some_iff.mpr hmem)) List.not_mem_nil

/-! ### All deletions -/

def deletionsOf (blocker : Blocker) (paths : List String) : List Request :=
  paths.map fun path => .delete path blocker

theorem handleAll_deletionsOf (h : r.WellFormed) (howns : Owns r blocker paths) (devel : Bool) :
    r.handleAll devel (deletionsOf blocker paths) =
      (paths.map fun path => { answer := .done, events := [.deleted path blocker] },
        r.removeAll blocker) := by
  -- The paths that are left are those that the blocker owns in what is left of the registry.
  induction paths generalizing r with
  | nil =>
    rw [removeAll_of_owns_nothing h howns]
    rfl
  | cons path rest ih =>
    have howner : r.owner? path = some blocker := (howns.mem_iff path).mp List.mem_cons_self
    have herased : (r.erase path).WellFormed := h.filter _
    have hrest := ih herased howns.erase
    rw [h.removeAll_erase howner] at hrest
    unfold deletionsOf at hrest ⊢
    simp only [List.map_cons, Registry.handleAll, handle_delete h howner, hrest]

theorem handle_removeAll (h : r.WellFormed) (howns : Owns r blocker paths) (devel : Bool) :
    (r.handle devel (.removeAll blocker)).1.answer = .count paths.length ∧
      (r.handle devel (.removeAll blocker)).2 = r.removeAll blocker := by
  obtain ⟨hanswer, hregistry⟩ := run_removeAll r blocker
  rw [h.size_sub_removeAll, howns.count_eq] at hanswer
  exact ⟨hanswer, hregistry⟩

theorem handle_removeAll_again (r : Registry) (blocker : Blocker) (devel : Bool) :
    (r.removeAll blocker).handle devel (.removeAll blocker) =
      ({ answer := .count 0 }, r.removeAll blocker) := by
  have hsame : (r.removeAll blocker).removeAll blocker = r.removeAll blocker := by
    simp only [Registry.removeAll, List.filter_filter, Bool.and_self]
  have hrun : (Section.removeAll blocker).run (r.removeAll blocker) =
      { registry := r.removeAll blocker, answer := .count 0 } := by
    simp only [Section.run, hsame, Nat.sub_self, gt_iff_lt, Nat.lt_irrefl, if_false]
  have hresolve : (Request.removeAll blocker).resolve devel = .ok (.removeAll blocker) := rfl
  rw [handle_of_ok hresolve, hrun]
  rfl

theorem owner?_removeAll_eq_some_iff (h : r.WellFormed) {owner : Blocker} :
    (r.removeAll blocker).owner? path = some owner ↔
      owner ≠ blocker ∧ r.owner? path = some owner := by
  rw [h.owner?_removeAll, PathMap.removeAll]
  grind

/-! ### Main result -/

/-- What closing a blocker comes to, beside the deletions of its paths one by one. -/
structure ClosesAlike (devel : Bool) (r : Registry) (blocker : Blocker) (paths : List String) :
    Prop where
  deleted : (r.handleAll devel (deletionsOf blocker paths)).1.map Reply.answer =
    List.replicate paths.length .done
  same : (r.handleAll devel (deletionsOf blocker paths)).2 =
    (r.handle devel (.removeAll blocker)).2
  count : (r.handle devel (.removeAll blocker)).1.answer = .count paths.length
  others : ∀ path owner, owner ≠ blocker →
    ((r.handle devel (.removeAll blocker)).2.owner? path = some owner ↔
      r.owner? path = some owner)
  gone : ∀ path, (r.handle devel (.removeAll blocker)).2.owner? path ≠ some blocker
  again : (r.handle devel (.removeAll blocker)).2.handle devel (.removeAll blocker) =
    ({ answer := .count 0 }, (r.handle devel (.removeAll blocker)).2)

/-- After any requests of an empty registry, closing a blocker does what deleting its paths in any
order does. -/
theorem closing_deletes_each (devel : Bool) (history : List Request) (blocker : Blocker)
    (paths : List String)
    (howns : Owns (Registry.handleAll devel history {}).2 blocker paths) :
    ClosesAlike devel (Registry.handleAll devel history {}).2 blocker paths := by
  have h : (Registry.handleAll devel history {}).2.WellFormed :=
    wellFormed_handleAll Registry.wellFormed_empty devel history
  have hdeletions := handleAll_deletionsOf h howns devel
  obtain ⟨hcount, hclosed⟩ := handle_removeAll h howns devel
  constructor
  · rw [hdeletions, List.map_map]
    exact List.map_const'
  · rw [hdeletions, hclosed]
  · exact hcount
  · intro path owner hne
    rw [hclosed, owner?_removeAll_eq_some_iff h, and_iff_right hne]
  · intro path hpath
    rw [hclosed, owner?_removeAll_eq_some_iff h] at hpath
    exact hpath.1 rfl
  · rw [hclosed]
    exact handle_removeAll_again _ blocker devel

/-- Two blockers take turns, and the paths of one are deleted neither in the order in which they
were blocked nor in the opposite one. -/
theorem closing_deletes_each_shuffled :
    let history : List Request :=
      [.add "/a" ⟨1⟩, .add "/x" ⟨2⟩, .add "/b" ⟨1⟩, .add "/a" ⟨2⟩, .add "/c" ⟨1⟩]
    let r := (Registry.handleAll false history {}).2
    Owns r ⟨1⟩ ["/b", "/c", "/a"] ∧ ClosesAlike false r ⟨1⟩ ["/b", "/c", "/a"] := by
  intro history r
  have hr : r = ⟨[("/c", ⟨1⟩), ("/b", ⟨1⟩), ("/x", ⟨2⟩), ("/a", ⟨1⟩)]⟩ := by decide
  have h : r.WellFormed := wellFormed_handleAll Registry.wellFormed_empty false history
  have howns : Owns r ⟨1⟩ ["/b", "/c", "/a"] := by
    refine ⟨by decide, fun path => ?_⟩
    rw [h.owner?_eq_some_iff, hr]
    simp [or_comm, or_left_comm]
  exact ⟨howns, closing_deletes_each false history ⟨1⟩ _ howns⟩

end Interlock.Blocks
