import Interlock.Proofs.Fence.Trace

/-!
# What happens when a policy has one user

A program that runs alone goes through instants: what happens, and the decision right after it. An
initialization finds the policy decided and returns at once. Otherwise its detector runs, in which
further calls may be made one within the other; then it installs what the detector found, or it is
overtaken by one of those calls. A `Conversation` is put together from calls that went one of these
ways. Every request is one, whatever its detectors do.
-/

namespace Interlock.Fence

open Program

variable {α β : Type}

/-- An element of two lists put together stands in the first or in the second. -/
theorem cases_of_append_eq {ι : Type} {early late past later : List ι} {x : ι}
    (h : early ++ late = past ++ x :: later) :
    (∃ rest, early = past ++ x :: rest ∧ later = rest ++ late) ∨
      ∃ rest, past = early ++ rest ∧ late = rest ++ x :: later := by
  rcases List.append_eq_append_iff.mp h with ⟨rest, hpast, hlate⟩ | ⟨rest, hearly, hlater⟩
  · exact .inr ⟨rest, hpast, hlate⟩
  · cases rest with
    | nil => exact .inr ⟨[], by rw [hearly, List.append_nil, List.append_nil], hlater.symm⟩
    | cons y rest =>
      obtain ⟨rfl, rfl⟩ := List.cons.inj hlater
      exact .inl ⟨rest, hearly, rfl⟩

/-! ### Instants of a run -/

/-- Something that happened, and the decision right after it. -/
structure Instant where
  happening : Happening
  state : State
  deriving DecidableEq, Repr

def Instant.note? : Instant → Option Note
  | ⟨.noted n, _⟩ => some n
  | _ => none

def Instant.event? : Instant → Option Event
  | ⟨.noted (.event e), _⟩ => some e
  | _ => none

/-- What the log saw during some instants. -/
def logged (instants : List Instant) : List Event := instants.filterMap Instant.event?

theorem logged_append (early late : List Instant) :
    logged (early ++ late) = logged early ++ logged late :=
  List.filterMap_append

/-- The instants of a program that runs alone. -/
def Program.instants : Program α → State → List Instant
  | .done _, _ => []
  | .load next, s => ⟨.loaded s, s⟩ :: (next s).instants s
  | .store s' next, _ => ⟨.stored s', s'⟩ :: next.instants s'
  | .compareExchange old new next, s =>
    ⟨.exchanged old new s, if s = old then new else s⟩ ::
      (next s).instants (if s = old then new else s)
  | .note n next, s => ⟨.noted n, s⟩ :: next.instants s

namespace Program

/-- A run alone has one instant for each of its steps. -/
theorem instants_of_step {p rest : Program α} {s s' : State} {happening : Happening}
    (h : p.step s = some (happening, rest, s')) :
    p.instants s = ⟨happening, s'⟩ :: rest.instants s' := by
  cases p <;> cases h <;> rfl

theorem notes_run (p : Program α) (s : State) :
    (p.run s).notes = (p.instants s).filterMap Instant.note? := by
  induction p generalizing s with
  | done a => rfl
  | load next ih => exact ih s s
  | store s' next ih => exact ih s'
  | compareExchange old new next ih => exact ih s _
  | note n next ih => exact congrArg (n :: ·) (ih s)

theorem events_run (p : Program α) (s : State) : (p.run s).events = logged (p.instants s) := by
  rw [Outcome.events, notes_run, List.filterMap_filterMap, logged]
  refine congrArg (List.filterMap · _) (funext fun i => ?_)
  obtain ⟨happening, s'⟩ := i
  cases happening with
  | noted n => cases n <;> rfl
  | _ => rfl

theorem run_bind (p : Program α) (f : α → Program β) (s : State) :
    ((p.bind f).run s).result = ((f (p.run s).result).run (p.run s).state).result ∧
      ((p.bind f).run s).state = ((f (p.run s).result).run (p.run s).state).state := by
  induction p generalizing s with
  | done a => exact ⟨rfl, rfl⟩
  | load next ih => exact ih s s
  | store s' next ih => exact ih s'
  | compareExchange old new next ih => exact ih s _
  | note n next ih => exact ih s

theorem instants_bind (p : Program α) (f : α → Program β) (s : State) :
    (p.bind f).instants s =
      p.instants s ++ (f (p.run s).result).instants (p.run s).state := by
  induction p generalizing s with
  | done a => rfl
  | load next ih => exact congrArg (_ :: ·) (ih s s)
  | store s' next ih => exact congrArg (_ :: ·) (ih s')
  | compareExchange old new next ih => exact congrArg (_ :: ·) (ih s _)
  | note n next ih => exact congrArg (_ :: ·) (ih s)

end Program

/-! ### Calls within calls -/

/-- How an initialization begins that finds the policy undecided. -/
def opening : List Instant :=
  [⟨.noted .began, .uninitialized⟩, ⟨.loaded .uninitialized, .uninitialized⟩,
    ⟨.noted .detecting, .uninitialized⟩]

/-- How it ends if the policy is still undecided when the detector has answered. -/
def install (needed : Bool) : List Instant :=
  [⟨.noted (.detected needed), .uninitialized⟩,
    ⟨.exchanged .uninitialized (.ofBool needed) .uninitialized, .ofBool needed⟩,
    ⟨.noted (.event (.initialized needed)), .ofBool needed⟩,
    ⟨.noted (.returned needed), .ofBool needed⟩]

/-- How it ends if the policy has been decided meanwhile. -/
def yieldTo (s : State) (needed : Bool) : List Instant :=
  [⟨.noted (.detected needed), s⟩, ⟨.exchanged .uninitialized (.ofBool needed) s, s⟩,
    ⟨.noted (.returned s.useFence), s⟩]

/-- The instants of calls that were made one after the other or one within the other, with the
decision before the first and after the last. -/
inductive Conversation : State → List Instant → State → Prop
  | nil {s} : Conversation s [] s
  | append {s t u early late} : Conversation s early t → Conversation t late u →
    Conversation s (early ++ late) u
  | looked {s} : Conversation s [⟨.loaded s, s⟩] s
  | set {s} (on : Bool) : Conversation s
    [⟨.noted (.event (.set on)), s⟩, ⟨.stored (.ofBool on), .ofBool on⟩] (.ofBool on)
  | decided {s} : s ≠ .uninitialized → Conversation s
    [⟨.noted .began, s⟩, ⟨.loaded s, s⟩, ⟨.loaded s, s⟩, ⟨.noted (.returned s.useFence), s⟩] s
  | installed {inside} (needed : Bool) : Conversation .uninitialized inside .uninitialized →
    Conversation .uninitialized (opening ++ (inside ++ install needed)) (.ofBool needed)
  | overtaken {inside s} (needed : Bool) : Conversation .uninitialized inside s →
    s ≠ .uninitialized →
    Conversation .uninitialized (opening ++ (inside ++ yieldTo s needed)) s

/-! ### The calls of requests -/

/-- What is left of an initialization when its detector has answered. -/
def conclusion (needed : Bool) : Program Bool :=
  .note (.detected needed) <| .compareExchange .uninitialized (.ofBool needed) fun seen =>
    if seen = .uninitialized then
      .note (.event (.initialized needed)) (.note (.returned needed) (.done needed))
    else .note (.returned seen.useFence) (.done seen.useFence)

theorem Request.program_initWith (detect : Detector) :
    (Request.initWith detect).program = .note .began (.load fun s =>
      if s = .uninitialized then .note .detecting (detect.program.bind conclusion)
      else .load fun s => .note (.returned s.useFence) (.done s.useFence)) := by
  rw [Request.program]
  rfl

theorem instants_conclusion_undecided (needed : Bool) :
    (conclusion needed).instants .uninitialized = install needed ∧
      (conclusion needed).run .uninitialized =
        ⟨needed, .ofBool needed,
          [.detected needed, .event (.initialized needed), .returned needed]⟩ :=
  ⟨rfl, rfl⟩

theorem instants_conclusion_decided (needed : Bool) {s : State} (h : s ≠ .uninitialized) :
    (conclusion needed).instants s = yieldTo s needed ∧
      (conclusion needed).run s =
        ⟨s.useFence, s, [.detected needed, .returned s.useFence]⟩ := by
  cases s with
  | uninitialized => exact absurd rfl h
  | disabled | enabled => exact ⟨rfl, rfl⟩

/-- An initialization of an undecided policy runs its detector, and concludes on whatever decision
that leaves. -/
theorem instants_initWith_undecided (detect : Detector) :
    (Request.initWith detect).program.instants .uninitialized =
      opening ++ (detect.program.instants .uninitialized ++
        (conclusion (detect.program.run .uninitialized).result).instants
          (detect.program.run .uninitialized).state) := by
  rw [Request.program_initWith, ← instants_bind]
  rfl

theorem run_initWith_undecided (detect : Detector) :
    ((Request.initWith detect).program.run .uninitialized).result =
        ((conclusion (detect.program.run .uninitialized).result).run
          (detect.program.run .uninitialized).state).result ∧
      ((Request.initWith detect).program.run .uninitialized).state =
        ((conclusion (detect.program.run .uninitialized).result).run
          (detect.program.run .uninitialized).state).state := by
  rw [Request.program_initWith]
  exact run_bind detect.program conclusion .uninitialized

theorem initWith_decided (detect : Detector) {s : State} (h : s ≠ .uninitialized) :
    (Request.initWith detect).program.instants s =
        [⟨.noted .began, s⟩, ⟨.loaded s, s⟩, ⟨.loaded s, s⟩, ⟨.noted (.returned s.useFence), s⟩] ∧
      (Request.initWith detect).program.run s =
        ⟨s.useFence, s, [.began, .returned s.useFence]⟩ := by
  rw [Request.program_initWith]
  cases s with
  | uninitialized => exact absurd rfl h
  | disabled | enabled => exact ⟨rfl, rfl⟩

mutual

theorem Detector.conversation (d : Detector) (s : State) :
    Conversation s (d.program.instants s) (d.program.run s).state := by
  cases d with
  | answer needed =>
    rw [Detector.program]
    exact .nil
  | look next =>
    rw [Detector.program]
    exact .append .looked ((next s).conversation s)
  | ask request next =>
    rw [Detector.program, instants_bind, (run_bind _ _ _).2]
    exact .append (request.conversation s).1 ((next _).conversation _)

/-- A request is a conversation, and what it answers is whether fences are on right after it. -/
theorem Request.conversation (r : Request) (s : State) :
    Conversation s (r.program.instants s) (r.program.run s).state ∧
      (r.program.run s).result = (r.program.run s).state.useFence := by
  cases r with
  | setFence enabled =>
    rw [Request.program]
    exact ⟨.set enabled, (State.useFence_ofBool enabled).symm⟩
  | initWith detect =>
    by_cases hs : s = .uninitialized
    · subst hs
      have hinside := detect.conversation .uninitialized
      obtain ⟨hresult, hstate⟩ := run_initWith_undecided detect
      rw [instants_initWith_undecided, hresult, hstate]
      generalize detect.program.run .uninitialized = o at hinside
      by_cases hnone : o.state = .uninitialized
      · obtain ⟨hend, hrun⟩ := instants_conclusion_undecided o.result
        rw [hnone] at hinside ⊢
        rw [hend, hrun]
        exact ⟨.installed o.result hinside, (State.useFence_ofBool o.result).symm⟩
      · obtain ⟨hend, hrun⟩ := instants_conclusion_decided o.result hnone
        rw [hend, hrun]
        exact ⟨.overtaken o.result hinside hnone, rfl⟩
    · obtain ⟨hinstants, hrun⟩ := initWith_decided detect hs
      rw [hinstants, hrun]
      exact ⟨.decided hs, rfl⟩

end

/-! ### Requests one after the other -/

theorem instants_programs_cons (r : Request) (rest : List Request) (s : State) :
    (Request.programs (r :: rest)).instants s =
      r.program.instants s ++ (Request.programs rest).instants (r.program.run s).state := by
  rw [Request.programs, instants_bind, instants_bind]
  exact congrArg (_ ++ ·) (List.append_nil _)

theorem run_programs_cons (r : Request) (rest : List Request) (s : State) :
    ((Request.programs (r :: rest)).run s).result =
        (r.program.run s).result :: ((Request.programs rest).run (r.program.run s).state).result ∧
      ((Request.programs (r :: rest)).run s).state =
        ((Request.programs rest).run (r.program.run s).state).state := by
  rw [Request.programs, (run_bind _ _ _).1, (run_bind _ _ _).2, (run_bind _ _ _).1,
    (run_bind _ _ _).2]
  exact ⟨rfl, rfl⟩

theorem conversation_programs (requests : List Request) (s : State) :
    Conversation s ((Request.programs requests).instants s)
      ((Request.programs requests).run s).state := by
  induction requests generalizing s with
  | nil => exact .nil
  | cons r rest ih =>
    rw [instants_programs_cons, (run_programs_cons r rest s).2]
    exact .append (r.conversation s).1 (ih _)

/-- Each answer is whether fences are on when the request has been carried out. -/
theorem answer_programs (requests : List Request) (s : State) (n : Nat)
    (h : n < requests.length) :
    ((Request.programs requests).run s).result[n]? =
      some ((Request.programs (requests.take (n + 1))).run s).state.useFence := by
  induction requests generalizing s n with
  | nil => exact absurd h (Nat.not_lt_zero n)
  | cons r rest ih =>
    rw [(run_programs_cons r rest s).1, List.take_succ_cons, (run_programs_cons r _ s).2]
    cases n with
    | zero => exact congrArg some (r.conversation s).2
    | succ n => exact ih _ n (Nat.lt_of_succ_lt_succ h)

end Interlock.Fence
