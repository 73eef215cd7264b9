import Interlock.Word.Call

/-!
# One user of a word

An `Action` is what the only user of a word may do with it: carry out an operation, run an update
loop into which other writers' stores fall, replace the contents through exclusive access, or throw
the fence switch. `Session.run` carries out a list of actions one after the other.
-/

namespace Interlock

variable {w : Nat}

/-- What the only user of a word may do. -/
inductive Action (w : Nat) where
  | perform (op : Op w)
  | updateAmid (update : BitVec w → BitVec w) (stores : List (Option (BitVec w)))
  /-- Replaces the contents without an instruction on the word, and answers what was there. -/
  | replace (value : BitVec w)
  | setFence (enabled : Bool)

/-- Carries out one action. -/
def Action.run : Action w → Cell w → Execution w
  | .perform op, m => op.run m
  | .updateAmid f stores, m => Op.updateAmid f stores m
  | .replace v, m => ⟨.value m.contents, { m with contents := v }, []⟩
  | .setFence b, m => ⟨.done, { m with fenced := b }, []⟩

/-- Carries out actions one after the other, and gives all executions in order. -/
def Session.run : List (Action w) → Cell w → List (Execution w)
  | [], _ => []
  | a :: rest, m =>
    let e := a.run m
    e :: Session.run rest e.cell

end Interlock
