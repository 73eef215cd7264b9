import Interlock.Fence.Policy
import Interlock.Proofs.Word.Erasure
import Interlock.Proofs.Word.Retry

/-!
# Every locked access has its check

Others may store into the word and set the policy between any two instructions of a call, so a call
is followed here from moment to moment, each with contents and a policy of its own. A locked access
makes a check of the policy due, unless the operation leaves fences to its caller. The check is the
next thing that the call does, and nothing else makes it look at the policy.
-/

namespace Interlock

variable {w : Nat}

/-! ### What a call does amid others -/

/-- An instruction of a call, with the word and the policy as it found them. -/
structure Moment (w : Nat) where
  contents : BitVec w
  policy : Fence.State
  instruction : Instruction w

/-- What a call may do until another is left to do, whatever others make of the word and of the
policy before each of its instructions. -/
inductive Call.Does : Call w → List (Moment w) → Call w → Prop
  | nil (c : Call w) : Does c [] c
  | cons {c rest d : Call w} {i : Instruction w} {n : Cell w} {ms : List (Moment w)}
    (x : BitVec w) (policy : Fence.State) : c.step ⟨x, policy.useFence⟩ = .next i rest n →
    Does rest ms d → Does c (⟨x, policy, i⟩ :: ms) d

namespace Call.Does

theorem of_step {c rest : Call w} {i : Instruction w} {m n : Cell w}
    (hs : c.step m = .next i rest n) :
    c.Does [⟨m.contents, .ofBool m.fenced, i⟩] rest := by
  refine .cons (n := n) _ _ ?_ (.nil rest)
  rw [Fence.State.useFence_ofBool]
  exact hs

theorem append {c d e : Call w} {ms ns : List (Moment w)} (h : c.Does ms d) (h' : d.Does ns e) :
    c.Does (ms ++ ns) e := by
  induction h with
  | nil c => exact h'
  | cons x policy hs _ ih => exact .cons x policy hs (ih h')

end Call.Does

namespace Call

theorem fenced_of_step {c rest : Call w} {i : Instruction w} {m n : Cell w}
    (hs : c.step m = .next i rest n) : n.fenced = m.fenced := by
  cases c <;> cases hs <;> rfl

theorem check_of_step {c rest : Call w} {fence : Bool} {m n : Cell w}
    (hs : c.step m = .next (.check fence) rest n) : fence = m.fenced := by
  cases c with
  | check next =>
    cases hs
    rfl
  | _ => cases hs

theorem does_returned {c : Call w} {m : Cell w} {answer : Answer w}
    (hs : c.step m = .returned answer) : c.Does [] (.returned answer) := by
  cases c with
  | returned =>
    cases hs
    exact .nil _
  | _ => cases hs

theorem does_finish (c : Call w) (m : Cell w) :
    ∃ ms, c.Does ms (.returned (c.finish m).answer) ∧
      ms.map Moment.instruction = (c.finish m).instructions ∧
      ∀ k ∈ ms, k.policy = .ofBool m.fenced := by
  induction c, m using finish.induct with
  | case1 c m answer hs =>
    rw [finish_of_returned hs]
    exact ⟨[], does_returned hs, rfl, List.forall_mem_nil _⟩
  | case2 c m i rest n hs ih =>
    obtain ⟨ms, hdoes, hinstructions, hpolicy⟩ := ih
    rw [finish_of_next hs]
    refine ⟨_ :: ms, (Does.of_step hs).append hdoes, ?_, ?_⟩
    · rw [List.map_cons, hinstructions]
      rfl
    · rw [fenced_of_step hs] at hpolicy
      exact List.forall_mem_cons.mpr ⟨rfl, hpolicy⟩

theorem does_amid (script : List (List (Disturbance w))) (c : Call w) (m : Cell w) :
    ∃ ms, c.Does ms (.returned (c.amid script m).answer) ∧
      ms.map Moment.instruction = (c.amid script m).instructions := by
  induction script generalizing c m with
  | nil =>
    obtain ⟨ms, hdoes, hinstructions, -⟩ := c.does_finish m
    exact ⟨ms, hdoes, hinstructions⟩
  | cons others script ih =>
    cases hs : c.step (others.foldl Cell.disturb m) with
    | returned answer =>
      simp only [amid, hs]
      exact ⟨[], does_returned hs, rfl⟩
    | next i rest n =>
      obtain ⟨ms, hdoes, hinstructions⟩ := ih rest n
      simp only [amid, hs]
      refine ⟨_ :: ms, (Does.of_step hs).append hdoes, ?_⟩
      rw [List.map_cons, hinstructions]
      rfl

end Call

/-! ### Checks that are due -/

namespace Op

/-- Whether an operation sees to its fences itself. -/
def fenced : Op w → Bool
  | fetchAddUnfenced _ => false
  | _ => true

/-- The accesses that an operation is carried out with. -/
def Uses (op : Op w) (a : Access w) : Prop :=
  match op.method with
  | .single b _ _ => a = b
  | .retry f _ => a = .load ∨ ∃ x, a = .compareExchange x (f x)

theorem fenced_of_single {op : Op w} {a : Access w} {fenced : Bool} {answer : BitVec w → Answer w}
    (h : op.method = .single a fenced answer) : fenced = (a.locked && op.fenced) := by
  cases op <;> cases h <;> rfl

theorem fenced_of_retry {op : Op w} {f : BitVec w → BitVec w} {reload : Bool}
    (h : op.method = .retry f reload) : op.fenced = true := by
  cases op <;> cases h <;> rfl

end Op

namespace Call

/-- A call that carries out an operation, and whether a check is due. -/
inductive Due (op : Op w) : Bool → Call w → Prop
  | single {a fenced answer} : op.method = .single a fenced answer →
    Due op false (.single a fenced answer)
  | load {f reload} : op.method = .retry f reload → Due op false (.load f reload)
  | attempt {f reload} (current : BitVec w) : op.method = .retry f reload →
    Due op false (.attempt f reload current)
  | returned (answer : Answer w) : Due op false (.returned answer)
  | check {next} : Due op false next → Due op true (.check next)

theorem due_call (op : Op w) : Due op false op.call := by
  unfold Op.call Method.call
  split
  · exact .single (by assumption)
  · exact .load (by assumption)

theorem due_afterSingle (op : Op w) (fenced : Bool) (answer : Answer w) :
    Due op fenced (afterSingle fenced answer) := by
  cases fenced with
  | false => exact .returned answer
  | true => exact .check (.returned answer)

theorem due_afterAttempt {op : Op w} {f : BitVec w → BitVec w} {reload : Bool}
    (h : op.method = .retry f reload) (current seen : BitVec w) :
    Due op false (afterAttempt f reload current seen) := by
  unfold afterAttempt
  split
  · exact .returned _
  · split
    · exact .load h
    · exact .attempt seen h

/-- If no check is due a call carries out an access of its operation, and a check is due after it
iff the access is locked and the operation sees to its fences. If one is due it is the next
instruction, and then none is. -/
theorem step_of_due {op : Op w} {due : Bool} {c rest : Call w} {m n : Cell w} {i : Instruction w}
    (h : Due op due c) (hs : c.step m = .next i rest n) :
    (due = false ∧ ∃ a, i = .access a m.contents ∧ op.Uses a ∧
      Due op (a.locked && op.fenced) rest) ∨
    (due = true ∧ i = .check m.fenced ∧ Due op false rest) := by
  cases h with
  | @single a fenced answer hm =>
    cases hs
    refine .inl ⟨rfl, a, rfl, by rw [Op.Uses, hm], ?_⟩
    rw [← Op.fenced_of_single hm]
    exact due_afterSingle op fenced _
  | load hm =>
    cases hs
    exact .inl ⟨rfl, .load, rfl, by rw [Op.Uses, hm]; exact .inl rfl, .attempt _ hm⟩
  | @attempt f reload current hm =>
    cases hs
    refine .inl ⟨rfl, .compareExchange current (f current), rfl, ?_, ?_⟩
    · rw [Op.Uses, hm]
      exact .inr ⟨current, rfl⟩
    · rw [Op.fenced_of_retry hm]
      exact .check (due_afterAttempt hm current _)
  | returned answer => cases hs
  | check hnext =>
    cases hs
    exact .inr ⟨rfl, rfl, hnext⟩

end Call

/-! ### Checks in order -/

def Instruction.isCheck : Instruction w → Bool
  | .check _ => true
  | .access .. => false

def Instruction.isLocked : Instruction w → Bool
  | .check _ => false
  | .access a _ => a.locked

/-- What an operation does in order, with whether a check is due before it and after it. -/
inductive Checked (op : Op w) : Bool → List (Moment w) → Bool → Prop
  | nil (due : Bool) : Checked op due [] due
  | access {m a ms due} : m.instruction = .access a m.contents → op.Uses a →
    Checked op (a.locked && op.fenced) ms due → Checked op false (m :: ms) due
  | check {m ms due} : m.instruction = .check m.policy.useFence → Checked op false ms due →
    Checked op true (m :: ms) due

theorem checked_of_does {op : Op w} {due : Bool} {c d : Call w} {ms : List (Moment w)}
    (hc : c.Due op due) (h : c.Does ms d) : ∃ due', Checked op due ms due' ∧ d.Due op due' := by
  -- Whether a check is due is all that an instruction hands on to the next.
  induction h generalizing due with
  | nil c => exact ⟨due, .nil due, hc⟩
  | cons x policy hs _ ih =>
    rcases Call.step_of_due hc hs with ⟨rfl, a, rfl, huses, hrest⟩ | ⟨rfl, rfl, hrest⟩
    · obtain ⟨due', hchecked, hd⟩ := ih hrest
      exact ⟨due', .access rfl huses hchecked, hd⟩
    · obtain ⟨due', hchecked, hd⟩ := ih hrest
      exact ⟨due', .check rfl hchecked, hd⟩

/-- The checks that come before the next access. -/
def checksNext (ms : List (Moment w)) : List (Moment w) :=
  ms.takeWhile fun m => m.instruction.isCheck

theorem checksNext_of_access {m : Moment w} {a : Access w} {seen : BitVec w}
    (h : m.instruction = .access a seen) (ms : List (Moment w)) : checksNext (m :: ms) = [] :=
  List.takeWhile_cons_of_neg (by simp [h, Instruction.isCheck])

theorem checksNext_of_check {m : Moment w} {fence : Bool} (h : m.instruction = .check fence)
    (ms : List (Moment w)) : checksNext (m :: ms) = m :: checksNext ms :=
  List.takeWhile_cons_of_pos (by simp [h, Instruction.isCheck])

namespace Checked

variable {op : Op w} {due due' : Bool} {ms : List (Moment w)}

theorem checksNext_of_not_due (h : Checked op false ms due') : checksNext ms = [] := by
  cases h with
  | nil => rfl
  | access hm _ _ => exact checksNext_of_access hm _

theorem length_checksNext (h : Checked op due ms due')
    (hend : due' = false ∨ ∃ k ∈ ms, k.instruction.isCheck = false) :
    (checksNext ms).length = if due then 1 else 0 := by
  cases h with
  | nil =>
    rcases hend with rfl | ⟨k, hk, -⟩
    · rfl
    · cases hk
  | access hm _ _ =>
    rw [checksNext_of_access hm]
    rfl
  | check hm hrest =>
    rw [checksNext_of_check hm, hrest.checksNext_of_not_due]
    rfl

theorem after_access {before after : List (Moment w)} {m : Moment w} {a : Access w}
    {seen : BitVec w} (h : Checked op due (before ++ m :: after) due')
    (ha : m.instruction = .access a seen) : Checked op (a.locked && op.fenced) after due' := by
  induction before generalizing due with
  | nil =>
    cases h with
    | access hm _ hrest =>
      cases hm.symm.trans ha
      exact hrest
    | check hm _ => cases hm.symm.trans ha
  | cons b before ih =>
    cases h with
    | access _ _ hrest => exact ih hrest
    | check _ hrest => exact ih hrest

theorem instruction_of_mem (h : Checked op due ms due') {m : Moment w} (hm : m ∈ ms) :
    (∃ a, op.Uses a ∧ m.instruction = .access a m.contents) ∨
      m.instruction = .check m.policy.useFence := by
  induction h with
  | nil => cases hm
  | access hfirst huses _ ih =>
    rcases List.mem_cons.mp hm with rfl | hm
    · exact .inl ⟨_, huses, hfirst⟩
    · exact ih hm
  | check hfirst _ ih =>
    rcases List.mem_cons.mp hm with rfl | hm
    · exact .inr hfirst
    · exact ih hm

theorem policy (h : Checked op due ms due') {m : Moment w} (hm : m ∈ ms) {fence : Bool}
    (hcheck : m.instruction = .check fence) : fence = m.policy.useFence := by
  rcases h.instruction_of_mem hm with ⟨a, -, ha⟩ | hfence
  · cases ha.symm.trans hcheck
  · cases hfence.symm.trans hcheck
    rfl

theorem uses (h : Checked op due ms due') {m : Moment w} (hm : m ∈ ms) {a : Access w}
    {seen : BitVec w} (ha : m.instruction = .access a seen) : op.Uses a := by
  rcases h.instruction_of_mem hm with ⟨b, huses, hb⟩ | hfence
  · cases hb.symm.trans ha
    exact huses
  · cases hfence.symm.trans ha

theorem access_of_never_due (h : Checked op due ms due') (hdue : due = false)
    (hnever : ∀ a, op.Uses a → (a.locked && op.fenced) = false) {m : Moment w} (hm : m ∈ ms) :
    ∃ a, op.Uses a ∧ m.instruction = .access a m.contents := by
  induction h with
  | nil => cases hm
  | access hfirst huses _ ih =>
    rcases List.mem_cons.mp hm with rfl | hm
    · exact ⟨_, huses, hfirst⟩
    · exact ih (hnever _ huses) hm
  | check => cases hdue

theorem countP_isCheck (h : Checked op due ms due') :
    ms.countP (fun m => m.instruction.isCheck) + due'.toNat =
      ms.countP (fun m => m.instruction.isLocked && op.fenced) + due.toNat := by
  induction h with
  | nil => rw [List.countP_nil, List.countP_nil]
  | @access m a ms due hm _ _ ih =>
    have hcheck : m.instruction.isCheck = false := congrArg Instruction.isCheck hm
    have hlocked : m.instruction.isLocked = a.locked := congrArg Instruction.isLocked hm
    simp only [List.countP_cons, hcheck, hlocked]
    cases hdue : a.locked && op.fenced <;> simpa [hdue] using ih
  | @check m ms due hm _ ih =>
    have hcheck : m.instruction.isCheck = true := congrArg Instruction.isCheck hm
    have hlocked : m.instruction.isLocked = false := congrArg Instruction.isLocked hm
    simp only [List.countP_cons, hcheck, hlocked, Bool.false_and, if_true, Bool.false_eq_true,
      if_false, Bool.toNat_false, Bool.toNat_true] at ih ⊢
    omega

end Checked

/-! ### Threads -/

/-- What a thread did since it last began or returned, in order. -/
def since (t : Nat) : List (Mark w) → List (Instruction w)
  | [] => []
  | .setFence _ :: trace => since t trace
  | .step u event :: trace =>
    if u = t then
      match event with
      | .did i => since t trace ++ [i]
      | _ => []
    else since t trace

/-- The fence switch after a trace, the latest first. -/
def switch (start : Bool) : List (Mark w) → Bool
  | [] => start
  | .setFence b :: _ => b
  | .step .. :: trace => switch start trace

theorem since_of_ne {t u : Nat} (h : u ≠ t) (event : Event w) (trace : List (Mark w)) :
    since t (.step u event :: trace) = since t trace :=
  if_neg h

theorem since_began (t : Nat) (op : Op w) (trace : List (Mark w)) :
    since t (.step t (.began op) :: trace) = [] :=
  if_pos rfl

theorem since_did (t : Nat) (i : Instruction w) (trace : List (Mark w)) :
    since t (.step t (.did i) :: trace) = since t trace ++ [i] :=
  if_pos rfl

namespace Race

/-- Every thread that is in a call has come there by doing what its trace shows, from the operation
that it began last. -/
def Underway (r : Race w) : Prop :=
  ∀ t c, (r.runner t).call = some c → ∃ op ms, (begun t r.trace).head? = some op ∧
    op.call.Does ms c ∧ ms.map Moment.instruction = since t r.trace

theorem Underway.act {r : Race w} {t : Nat} {a b : Runner w} {event : Event w} {n : Cell w}
    (h : r.Underway) (ht : r.threads[t]? = some a)
    (hown : ∀ c, b.call = some c → ∃ op ms, (begun t (.step t event :: r.trace)).head? = some op ∧
      op.call.Does ms c ∧ ms.map Moment.instruction = since t (.step t event :: r.trace)) :
    Underway { cell := n, threads := r.threads.set t b, trace := .step t event :: r.trace } := by
  intro u c hc
  rw [runner_set ht] at hc
  by_cases hut : u = t
  · subst hut
    rw [if_pos rfl] at hc
    exact hown c hc
  · rw [if_neg hut] at hc
    rw [begun_of_ne (Ne.symm hut), since_of_ne (Ne.symm hut)]
    exact h u c hc

theorem underway_of_steps {r r' : Race w} (hs : Steps r r') (h : r.Underway) : r'.Underway := by
  cases hs with
  | idle => exact h
  | fence b => exact h
  | @begin t op todo ht =>
    refine h.act ht fun c hc => ?_
    cases hc
    exact ⟨op, [], by rw [begun_began]; rfl, .nil _, (since_began t op _).symm⟩
  | @instruct t c todo i rest n ht hstep =>
    obtain ⟨op, ms, hop, hdoes, hms⟩ := h t c (by rw [runner_eq ht])
    refine h.act ht fun d hd => ?_
    cases hd
    refine ⟨op, ms ++ [_], hop, hdoes.append (.of_step hstep), ?_⟩
    rw [List.map_append, hms, since_did]
    rfl
  | finish ht hstep => exact h.act ht nofun

/-- The switch stands as it was last thrown, and so it did at every check. -/
structure Sees (start : Bool) (r : Race w) : Prop where
  now : r.cell.fenced = switch start r.trace
  checks : ∀ later t fence early, r.trace = later ++ .step t (.did (.check fence)) :: early →
    fence = switch start early

theorem Sees.cons {start : Bool} {r : Race w} {mark : Mark w} {n : Cell w} (h : Sees start r)
    (threads : List (Runner w)) (hnow : n.fenced = switch start (mark :: r.trace))
    (hcheck : ∀ t fence, mark = .step t (.did (.check fence)) → fence = r.cell.fenced) :
    Sees start { cell := n, threads, trace := mark :: r.trace } := by
  refine ⟨hnow, fun later t fence early htrace => ?_⟩
  cases later with
  | nil =>
    obtain ⟨hmark, rfl⟩ := List.cons.inj htrace
    rw [hcheck t fence hmark, h.now]
  | cons _ later => exact h.checks later t fence early (List.cons.inj htrace).2

theorem sees_of_steps {start : Bool} {r r' : Race w} (hs : Steps r r') (h : Sees start r) :
    Sees start r' := by
  cases hs with
  | idle => exact h
  | fence b => exact h.cons _ rfl nofun
  | begin ht => exact h.cons _ h.now nofun
  | @instruct t c todo i rest n ht hstep =>
    refine h.cons _ ((Call.fenced_of_step hstep).trans h.now) fun u fence hmark => ?_
    cases hmark
    exact Call.check_of_step hstep
  | finish ht hstep => exact h.cons _ h.now nofun

theorem underway_run (cell : Cell w) (todo : List (List (Op w))) (schedule : List Move) :
    ((start cell todo).run schedule).Underway := by
  refine run_invariant (P := Underway) (fun _ _ => underway_of_steps) ?_ schedule
  intro t c hc
  rw [runner, start, List.getElem?_map] at hc
  cases ht : todo[t]? <;> simp [ht] at hc

theorem sees_run (cell : Cell w) (todo : List (List (Op w))) (schedule : List Move) :
    Sees cell.fenced ((start cell todo).run schedule) :=
  run_invariant (P := Sees cell.fenced) (fun _ _ => sees_of_steps) ⟨rfl, by simp [start]⟩ schedule

end Race

/-! ### Main result -/

/-- What an operation did, whatever it met with, until the call `d` was left to do. -/
structure Fenced (op : Op w) (ms : List (Moment w)) (d : Call w) : Prop where
  first : checksNext ms = []
  /-- Between an access and the next, or the return, there is one check if the access is locked and
  the operation sees to its fences, and none otherwise. -/
  next : ∀ before m after a seen, ms = before ++ m :: after → m.instruction = .access a seen →
    ((∃ answer, d = .returned answer) ∨ ∃ k ∈ after, k.instruction.isCheck = false) →
    (checksNext after).length = if a.locked && op.fenced then 1 else 0
  policy : ∀ m ∈ ms, ∀ fence, m.instruction = .check fence → (fence = true ↔ m.policy = .enabled)
  plain : (op = .read ∨ ∃ v, op = .write v) → ∀ m ∈ ms,
    m.instruction.isCheck = false ∧ m.instruction.isLocked = false
  unfenced : ∀ v, op = .fetchAddUnfenced v → ∀ m ∈ ms,
    m.instruction = .access (.exchangeAdd v) m.contents
  checks : (∃ answer, d = .returned answer) → op.fenced = true →
    ms.countP (fun m => m.instruction.isCheck) = ms.countP fun m => m.instruction.isLocked
  /-- A loop has as many checks as attempts to swap. -/
  swaps : (∃ answer, d = .returned answer) → (∃ f reload, op.method = .retry f reload) →
    ms.countP (fun m => m.instruction.isCheck) =
      (ms.filterMap fun m => m.instruction.swap?).length

theorem fenced_of_does {op : Op w} {ms : List (Moment w)} {d : Call w} (h : op.call.Does ms d) :
    Fenced op ms d := by
  obtain ⟨due, hchecked, hd⟩ := checked_of_does (Call.due_call op) h
  have hreturned : (∃ answer, d = .returned answer) → due = false := by
    rintro ⟨answer, rfl⟩
    cases hd
    rfl
  have hcount : (∃ answer, d = .returned answer) → op.fenced = true →
      ms.countP (fun m => m.instruction.isCheck) = ms.countP fun m => m.instruction.isLocked := by
    intro hend hop
    simpa [hreturned hend, hop] using hchecked.countP_isCheck
  constructor
  · exact hchecked.checksNext_of_not_due
  · rintro before m after a seen rfl ha hend
    exact (hchecked.after_access ha).length_checksNext (hend.imp_left hreturned)
  · intro m hm fence hfence
    rw [hchecked.policy hm hfence, Fence.State.useFence, decide_eq_true_iff]
  · intro hop m hm
    have hload : ∀ a, op.Uses a → a.locked = false := by
      rcases hop with rfl | ⟨v, rfl⟩ <;> exact fun a ha => ha ▸ rfl
    obtain ⟨a, huses, ha⟩ :=
      hchecked.access_of_never_due rfl (fun a ha => by rw [hload a ha]; rfl) hm
    rw [ha]
    exact ⟨rfl, hload a huses⟩
  · rintro v rfl m hm
    obtain ⟨a, huses, ha⟩ :=
      hchecked.access_of_never_due rfl (fun a _ => Bool.and_false a.locked) hm
    rw [ha, show a = .exchangeAdd v from huses]
  · exact hcount
  · rintro hend ⟨f, reload, hm⟩
    rw [hcount hend (Op.fenced_of_retry hm), List.length_filterMap_eq_countP]
    refine List.countP_congr fun m hmem => ?_
    cases hi : m.instruction with
    | check fence => simp [Instruction.isLocked, Instruction.swap?]
    | access a seen =>
      have huses := hchecked.uses hmem hi
      rw [Op.Uses, hm] at huses
      rcases huses with rfl | ⟨x, rfl⟩ <;> rfl

/-- Fences on words of one width, in calls, sessions and races. -/
structure Fencing (w : Nat) : Prop where
  calls : ∀ (op : Op w) ms d, op.call.Does ms d → Fenced op ms d
  /-- Calls run alone or amid a script are such calls, -/
  alone : ∀ (op : Op w) m, ∃ ms, op.call.Does ms (.returned (op.run m).answer) ∧
    ms.map Moment.instruction = (op.run m).instructions ∧ ∀ k ∈ ms, k.policy = .ofBool m.fenced
  amid : ∀ (op : Op w) script m, ∃ ms,
    op.call.Does ms (.returned (op.call.amid script m).answer) ∧
      ms.map Moment.instruction = (op.call.amid script m).instructions
  /-- and so is every call that a thread is in, at any time of a race. -/
  underway : ∀ (m : Cell w) todo schedule, ((Race.start m todo).run schedule).Underway
  sees : ∀ (m : Cell w) todo schedule, Race.Sees m.fenced ((Race.start m todo).run schedule)
  /-- A session comes to the same values without its throws of the switch, -/
  session : ∀ actions (m m' : Cell w), m.contents = m'.contents →
    List.Forall₂ Execution.Alike (Session.kept actions m)
        (Session.run (actions.filter fun a => !a.setsFence) m') ∧
      (Session.cell actions m).contents =
        (Session.cell (actions.filter fun a => !a.setsFence) m').contents
  /-- and so do a call amid a script and a race. -/
  script : ∀ (op : Op w) script script' m m', m.contents = m'.contents →
    script.map (List.filterMap Disturbance.store?) =
      script'.map (List.filterMap Disturbance.store?) →
    (op.call.amid script m).Alike (op.call.amid script' m')
  race : ∀ todo schedule (m m' : Cell w), m.contents = m'.contents →
    let r := (Race.start m todo).run schedule
    let r' := (Race.start m' todo).run (schedule.filter fun move => !move.setsFence)
    r.Alike r' ∧ r.answers = r'.answers

/-- Each locked access is followed by its check of the policy, whatever others do, and the policy
changes no value. -/
theorem locked_accesses_fenced (w : Nat) : Fencing w where
  calls _ _ _ h := fenced_of_does h
  alone op m := op.call.does_finish m
  amid op script m := op.call.does_amid script m
  underway := Race.underway_run
  sees := Race.sees_run
  session actions _ _ h := Session.run_alike actions h
  script op _ _ _ _ h hs := op.call.amid_alike hs h
  race todo schedule _ _ h :=
    have halike := (Race.alike_start h todo).run schedule
    ⟨halike, halike.answers⟩

/-- A store defeats the first swap, and the policy is set just before the first check. -/
example :
    ((Op.fetchOr 1).call.amid [[], [.store 4], [.setFence true]] ⟨6, false⟩).instructions =
      ([.access .load 6, .access (.compareExchange 6 7) 4, .check true,
        .access (.compareExchange 4 5) 4, .check true] : List (Instruction 32)) := by cbv

end Interlock
