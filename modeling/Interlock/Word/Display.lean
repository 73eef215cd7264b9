import Interlock.Text.Number
import Interlock.Text.Shown
import Interlock.Word.Call
import Interlock.Word.Halves

/-!
# The text of words

A cell is shown by its width and its contents in base sixteen, a pair of halves by its two numbers.
-/

namespace Interlock

/-- The text of a cell, such as `AtomicWord32(0xff)`. -/
def Cell.display {w : Nat} (m : Cell w) : String :=
  "AtomicWord" ++ toString w ++ "(" ++ Text.hex m.contents.toNat ++ ")"

/-- The text of two halves: their numbers in decimal, the low one first. -/
def Halves.shown (h : Halves) : Shown :=
  .record "DoubleWord"
    [.labelled "low" (.plain (toString h.low.toNat)),
      .labelled "high" (.plain (toString h.high.toNat))]

end Interlock
