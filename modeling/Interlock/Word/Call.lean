import Interlock.Word.Operation

/-!
# Calls: operations under way

A `Call` is what an operation has left to do. `Call.step` carries out its next instruction on a
`Cell`, the word together with the fence switch, and says which instruction it was. `Call.finish`
runs a call to its end while nobody else touches the cell, and `Call.amid` while others do: before
each instruction the next batch of their `Disturbance`s lands. Both report every instruction, so
that what a call did can be told apart from what it answered.
-/

namespace Interlock

variable {w : Nat}

/-- A word and the fence switch that its operations look at. -/
structure Cell (w : Nat) where
  contents : BitVec w
  fenced : Bool := false
  deriving DecidableEq, Repr

/-- The cell after one access to its word. -/
def Cell.access (m : Cell w) (a : Access w) : Cell w :=
  { m with contents := a.effect m.contents }

/-- One instruction of a call, with what it saw. -/
inductive Instruction (w : Nat) where
  | access (access : Access w) (seen : BitVec w)
  /-- A look at the fence switch; a fence is executed iff it was on. -/
  | check (fence : Bool)
  deriving DecidableEq, Repr

/-- What an operation has left to do. -/
inductive Call (w : Nat) where
  | single (access : Access w) (fenced : Bool) (answer : BitVec w → Answer w)
  /-- The loop is about to load. -/
  | load (update : BitVec w → BitVec w) (reload : Bool)
  /-- The loop is about to try to swap `update current` in for `current`. -/
  | attempt (update : BitVec w → BitVec w) (reload : Bool) (current : BitVec w)
  /-- About to look at the fence switch. -/
  | check (next : Call w)
  | returned (answer : Answer w)

/-- What one step of a call comes to: it had returned, or it carried out an instruction and has
the rest left to do on the cell as it is now. -/
inductive Progress (w : Nat) where
  | returned (answer : Answer w)
  | next (instruction : Instruction w) (rest : Call w) (cell : Cell w)

/-- An operation that has not begun. -/
def Method.call : Method w → Call w
  | .single a fenced answer => .single a fenced answer
  | .retry f reload => .load f reload

/-- An operation that has not begun. -/
def Op.call (op : Op w) : Call w := op.method.call

namespace Call

/-- What a single access is followed by. -/
def afterSingle (fenced : Bool) (answer : Answer w) : Call w :=
  if fenced then .check (.returned answer) else .returned answer

/-- What an attempt to swap `current` out is followed by when it saw `seen`. -/
def afterAttempt (f : BitVec w → BitVec w) (reload : Bool) (current seen : BitVec w) : Call w :=
  if seen = current then .returned (.value current)
  else if reload then .load f reload
  else .attempt f reload seen

/-- Carries out the next instruction of a call. -/
def step : Call w → Cell w → Progress w
  | .single a fenced answer, m =>
    .next (.access a m.contents) (afterSingle fenced (answer m.contents)) (m.access a)
  | .load f reload, m =>
    .next (.access .load m.contents) (.attempt f reload m.contents) m
  | .attempt f reload current, m =>
    let swap := Access.compareExchange current (f current)
    .next (.access swap m.contents) (.check (afterAttempt f reload current m.contents))
      (m.access swap)
  | .check next, m => .next (.check m.fenced) next m
  | .returned answer, _ => .returned answer

/-- How many instructions a call needs when nobody else touches the cell. -/
def budget : Call w → Cell w → Nat
  | .single .., _ => 2
  | .load .., _ => 3
  | .attempt _ reload current, m => if m.contents = current then 2 else if reload then 5 else 4
  | .check next, m => next.budget m + 1
  | .returned _, _ => 0

theorem budget_lt_of_step {c d : Call w} {m n : Cell w} {i : Instruction w}
    (h : c.step m = .next i d n) : d.budget n < c.budget m := by
  cases c with
  | single a fenced answer =>
    simp only [step, Progress.next.injEq] at h
    obtain ⟨-, rfl, rfl⟩ := h
    cases fenced <;> simp [afterSingle, budget]
  | load f reload =>
    simp only [step, Progress.next.injEq] at h
    obtain ⟨-, rfl, rfl⟩ := h
    simp [budget]
  | attempt f reload current =>
    simp only [step, Progress.next.injEq] at h
    obtain ⟨-, rfl, rfl⟩ := h
    by_cases hx : m.contents = current
    · simp [budget, afterAttempt, hx]
    · cases reload <;> simp [budget, afterAttempt, hx, Cell.access, Access.effect]
  | check next =>
    simp only [step, Progress.next.injEq] at h
    obtain ⟨-, rfl, rfl⟩ := h
    simp [budget]
  | returned a => simp [step] at h

end Call

/-- A call that ran to its end: what it answered, the cell it left, and its instructions in
order. -/
structure Execution (w : Nat) where
  answer : Answer w
  cell : Cell w
  instructions : List (Instruction w)
  deriving Repr

namespace Execution

/-- The same execution with one more instruction before it. -/
def after (i : Instruction w) (e : Execution w) : Execution w :=
  { e with instructions := i :: e.instructions }

/-- The values an execution tried to swap out, in order: each is the argument of one application
of the loop's update. -/
def arguments (e : Execution w) : List (BitVec w) :=
  e.instructions.filterMap fun
    | .access (.compareExchange old _) _ => some old
    | _ => none

end Execution

/-- What somebody else may do to a cell between two instructions of a call. -/
inductive Disturbance (w : Nat) where
  | store (value : BitVec w)
  | setFence (enabled : Bool)
  deriving DecidableEq, Repr

/-- The cell after somebody else's doing. -/
def Cell.disturb (m : Cell w) : Disturbance w → Cell w
  | .store v => { m with contents := v }
  | .setFence b => { m with fenced := b }

namespace Call

/-- Runs a call to its end while nobody else touches the cell. -/
def finish (c : Call w) (m : Cell w) : Execution w :=
  match _h : c.step m with
  | .returned answer => ⟨answer, m, []⟩
  | .next i rest n => (rest.finish n).after i
termination_by c.budget m
decreasing_by exact budget_lt_of_step (by assumption)

/-- Runs a call to its end while others touch the cell: each batch of disturbances lands just
before the next instruction, and once the batches are used up nobody interferes any more. Batches
that the call does not live to see never land. -/
def amid : List (List (Disturbance w)) → Call w → Cell w → Execution w
  | [], c, m => c.finish m
  | others :: script, c, m =>
    match c.step (others.foldl Cell.disturb m) with
    | .returned answer => ⟨answer, m, []⟩
    | .next i rest n => (amid script rest n).after i

end Call

/-- An operation on a cell that nobody else touches. -/
def Op.run (op : Op w) (m : Cell w) : Execution w := op.call.finish m

/-- An update loop into which other writers' stores fall: the `n`-th of them, if there is one,
lands between the `n`-th computation of the replacement and the attempt to swap it in. -/
def Op.updateAmid (update : BitVec w → BitVec w) (stores : List (Option (BitVec w)))
    (m : Cell w) : Execution w :=
  let script := stores.flatMap fun s => [s.toList.map .store, []]
  (Op.fetchUpdate update).call.amid ([] :: script) m

end Interlock
