import Interlock.Word.Call

/-!
# Threads that race on one word

A `Race` is one cell and any number of threads, each with a list of operations to carry out. A
`Move` lets one thread take one step: begin its next operation, carry out one instruction, or
return; or it throws the fence switch. A schedule is a list of moves, and `Race.run` follows it, so
that a statement about every interleaving is a statement about every schedule. The trace keeps what
happened, the latest first.
-/

namespace Interlock

variable {w : Nat}

/-- What one step of a thread shows. -/
inductive Event (w : Nat) where
  | began (op : Op w)
  | did (instruction : Instruction w)
  | returned (answer : Answer w)

/-- A thread: the call it is in, if any, and the operations it has not begun. -/
structure Runner (w : Nat) where
  call : Option (Call w) := none
  todo : List (Op w) := []

namespace Runner

/-- The next step of a thread; a thread that has nothing left to do has none. -/
def step : Runner w → Cell w → Option (Event w × Runner w × Cell w)
  | ⟨none, []⟩, _ => none
  | ⟨none, op :: todo⟩, m => some (.began op, ⟨some op.call, todo⟩, m)
  | ⟨some c, todo⟩, m =>
    match c.step m with
    | .returned answer => some (.returned answer, ⟨none, todo⟩, m)
    | .next i rest n => some (.did i, ⟨some rest, todo⟩, n)

/-- Whether a thread has carried out all its operations. -/
def finished : Runner w → Bool
  | ⟨none, []⟩ => true
  | _ => false

/-- Steps that see a thread to its end when nobody else moves: eight for each operation. -/
def bound (r : Runner w) : Nat := 8 * (r.todo.length + 1)

end Runner

/-- One entry of a trace: the step of a thread, or a throw of the fence switch. -/
inductive Mark (w : Nat) where
  | step (thread : Nat) (event : Event w)
  | setFence (enabled : Bool)

/-- One cell and the threads that use it, with what happened so far, the latest first. -/
structure Race (w : Nat) where
  cell : Cell w
  threads : List (Runner w)
  trace : List (Mark w) := []

/-- Who moves next. -/
inductive Move where
  | thread (t : Nat)
  | setFence (enabled : Bool)
  deriving DecidableEq, Repr

namespace Race

/-- Threads that have begun nothing yet. -/
def start (cell : Cell w) (todo : List (List (Op w))) : Race w :=
  { cell, threads := todo.map fun ops => { todo := ops } }

/-- One move. A thread that does not exist or has nothing left to do changes nothing. -/
def step (r : Race w) : Move → Race w
  | .setFence b => { r with cell := { r.cell with fenced := b }, trace := .setFence b :: r.trace }
  | .thread t =>
    match r.threads[t]? with
    | none => r
    | some runner =>
      match runner.step r.cell with
      | none => r
      | some (event, runner', cell) =>
        { cell, threads := r.threads.set t runner', trace := .step t event :: r.trace }

/-- Follows a schedule. -/
def run (r : Race w) (schedule : List Move) : Race w := schedule.foldl step r

@[simp] theorem run_nil (r : Race w) : r.run [] = r := rfl

@[simp] theorem run_cons (r : Race w) (m : Move) (s : List Move) :
    r.run (m :: s) = (r.step m).run s := rfl

theorem run_append (r : Race w) (s t : List Move) : r.run (s ++ t) = (r.run s).run t :=
  List.foldl_append

/-- Whether every thread has carried out all its operations. -/
def finished (r : Race w) : Bool := r.threads.all Runner.finished

/-- The answers of all operations that returned, the latest first. -/
def answers (r : Race w) : List (Answer w) :=
  r.trace.filterMap fun
    | .step _ (.returned answer) => some answer
    | _ => none

/-- A schedule in which the threads take turns. -/
def rotation (threads rounds : Nat) : List Move :=
  (List.replicate rounds ((List.range threads).map Move.thread)).flatten

/-- A schedule that sees the threads to their end one after the other. -/
def oneByOne (r : Race w) : List Move :=
  r.threads.zipIdx.flatMap fun (runner, t) => List.replicate runner.bound (.thread t)

/-- Lets the threads take turns for as many rounds as the busiest has operations, then sees them
to their end one after the other. -/
def settle (r : Race w) : Race w :=
  let rounds := (r.threads.map (·.todo.length)).foldl max 0
  let r := r.run (rotation r.threads.length rounds)
  r.run r.oneByOne

end Race
end Interlock
