/-!
# Compare-and-swap from an exclusive exchange

Some machines have no compare-and-swap, only an exchange that stores if the word is unchanged and
that may also fail for no reason. Two loops are built on it here. Each round loads the word and may
then attempt one exchange; what others do meanwhile is a `Round`: a store after the load, a store
just before the attempt, and whether the attempt fails whatever the word holds. A script lists the
rounds in order, and nobody interferes after its end, so each loop ends within one round more than
the script has.
-/

namespace Interlock.Exchange

variable {w : Nat}

/-- What others do during one round of a loop. -/
structure Round (w : Nat) where
  /-- A store just after the load. -/
  afterLoad : Option (BitVec w) := none
  /-- A store just before the attempt. -/
  beforeAttempt : Option (BitVec w) := none
  /-- Whether the attempt fails whatever the word holds. -/
  spurious : Bool := false
  deriving DecidableEq, Repr

/-- A step of a loop: a load and what it saw, or an attempt, the word it met and whether it
committed. -/
inductive Step (w : Nat) where
  | loaded (value : BitVec w)
  | attempted (old new held : BitVec w) (committed : Bool)
  deriving DecidableEq, Repr

/-- A loop that ran to its end: the value it answered, the word it left, and its steps in order. -/
structure Outcome (w : Nat) where
  answer : BitVec w
  word : BitVec w
  steps : List (Step w)
  deriving DecidableEq, Repr

/-- The same outcome with more steps before it. -/
def Outcome.after (steps : List (Step w)) (o : Outcome w) : Outcome w :=
  { o with steps := steps ++ o.steps }

namespace Round

/-- The word after the load of a round. -/
def loaded (r : Round w) (word : BitVec w) : BitVec w := r.afterLoad.getD word

/-- The word that the attempt of a round meets. -/
def held (r : Round w) (word : BitVec w) : BitVec w := r.beforeAttempt.getD (r.loaded word)

/-- Whether the attempt of a round to replace `old` commits. -/
def commits (r : Round w) (old word : BitVec w) : Bool := !r.spurious && r.held word == old

/-- The attempt of a round, as a step. -/
def attempt (r : Round w) (old new word : BitVec w) : Step w :=
  .attempted old new (r.held word) (r.commits old word)

end Round

/-- Compare-and-swap: gives up on a mismatch, attempts the exchange otherwise, and starts over if
it did not commit. Answers the value observed, `old` iff the swap happened. -/
def compareSwap (old new : BitVec w) : List (Round w) → BitVec w → Outcome w
  | [], word =>
    if word = old then
      ⟨old, new, [.loaded word, Round.attempt {} old new word]⟩
    else ⟨word, word, [.loaded word]⟩
  | r :: script, word =>
    if word = old then
      let steps := [.loaded word, r.attempt old new word]
      if r.commits old word then ⟨old, new, steps⟩
      else (compareSwap old new script (r.held word)).after steps
    else ⟨word, r.loaded word, [.loaded word]⟩

/-- Replaces the word by `update` of it: attempts the exchange until one commits, and answers the
value that `update` was applied to. -/
def fetchUpdate (update : BitVec w → BitVec w) : List (Round w) → BitVec w → Outcome w
  | [], word => ⟨word, update word, [.loaded word, Round.attempt {} word (update word) word]⟩
  | r :: script, word =>
    let steps := [.loaded word, r.attempt word (update word) word]
    if r.commits word word then ⟨word, update word, steps⟩
    else (fetchUpdate update script (r.held word)).after steps

namespace Outcome

/-- The values loaded, in order. -/
def loads (o : Outcome w) : List (BitVec w) :=
  o.steps.filterMap fun
    | .loaded v => some v
    | .attempted .. => none

/-- The attempts in order, each with whether it committed. -/
def attempts (o : Outcome w) : List (BitVec w × BitVec w × Bool) :=
  o.steps.filterMap fun
    | .loaded _ => none
    | .attempted old new _ committed => some (old, new, committed)

end Outcome

/-- A script from two lists, of stores after loads and of attempts with their failures and the
stores before them. Where one list is shorter, nobody interferes. -/
def script (afterLoads : List (Option (BitVec w))) (tries : List (Bool × Option (BitVec w))) :
    List (Round w) :=
  (List.range (max afterLoads.length tries.length)).map fun n =>
    let (spurious, beforeAttempt) := tries[n]?.getD (false, none)
    { afterLoad := afterLoads[n]?.join, beforeAttempt, spurious }

end Interlock.Exchange
