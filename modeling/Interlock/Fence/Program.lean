/-!
# Programs on a decision

Whether fences are wanted is one small cell: undecided, off, or on. A `Program` is a piece of code
without loops that loads the cell, stores into it, or compares and exchanges it, one indivisible
access at a time, and notes down what it does. `Program.run` runs it alone; `Program.step` is its
next access or note, for running several side by side.
-/

namespace Interlock.Fence

/-- What has been decided about fences. -/
inductive State where
  | uninitialized
  | disabled
  | enabled
  deriving DecidableEq, Repr

/-- A decision. -/
def State.ofBool (enabled : Bool) : State := if enabled then .enabled else .disabled

/-- What a policy tells its log. -/
inductive Event where
  | initialized (fence : Bool)
  | set (fence : Bool)
  deriving DecidableEq, Repr

/-- What a program notes down. -/
inductive Note where
  /-- An initialization began. -/
  | began
  /-- The detector of an initialization began. -/
  | detecting
  /-- The detector of an initialization answered. -/
  | detected (needed : Bool)
  | event (e : Event)
  /-- An initialization returned. -/
  | returned (on : Bool)
  deriving DecidableEq, Repr

/-- Code without loops on a decision, which ends with a result. -/
inductive Program (α : Type) where
  | done (result : α)
  | load (next : State → Program α)
  | store (s : State) (next : Program α)
  /-- Stores `new` if the cell holds `old`, and goes on from what it held. -/
  | compareExchange (old new : State) (next : State → Program α)
  | note (n : Note) (next : Program α)

namespace Program

variable {α β : Type}

/-- A program followed by another. -/
def bind : Program α → (α → Program β) → Program β
  | done a, f => f a
  | load next, f => load fun s => (next s).bind f
  | store s next, f => store s (next.bind f)
  | compareExchange old new next, f => compareExchange old new fun s => (next s).bind f
  | note n next, f => note n (next.bind f)

/-- What a program came to when it ran alone: its result, the decision, and its notes in order. -/
structure Outcome (α : Type) where
  result : α
  state : State
  notes : List Note
  deriving Repr

/-- Runs a program alone. -/
def run : Program α → State → Outcome α
  | done a, s => ⟨a, s, []⟩
  | load next, s => (next s).run s
  | store s' next, _ => next.run s'
  | compareExchange old new next, s => (next s).run (if s = old then new else s)
  | note n next, s =>
    let o := next.run s
    { o with notes := n :: o.notes }

/-- One access to the cell, with what it saw, or one note. -/
inductive Happening where
  | loaded (seen : State)
  | stored (s : State)
  | exchanged (old new seen : State)
  | noted (n : Note)
  deriving DecidableEq, Repr

/-- The next access or note of a program, the rest of it, and the cell afterwards. -/
def step : Program α → State → Option (Happening × Program α × State)
  | done _, _ => none
  | load next, s => some (.loaded s, next s, s)
  | store s' next, _ => some (.stored s', next, s')
  | compareExchange old new next, s =>
    some (.exchanged old new s, next s, if s = old then new else s)
  | note n next, s => some (.noted n, next, s)

end Program

end Interlock.Fence
