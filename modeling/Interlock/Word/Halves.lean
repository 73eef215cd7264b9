/-!
# A 64-bit word as two halves

`Halves.split` and `Halves.join` go between a 64-bit value and its low and high 32 bits, each the
inverse of the other.
-/

namespace Interlock

/-- The two halves of a 64-bit value. -/
structure Halves where
  low : BitVec 32
  high : BitVec 32
  deriving DecidableEq, Repr, Inhabited

namespace Halves

/-- The halves of a 64-bit value. -/
def split (x : BitVec 64) : Halves where
  low := x.setWidth 32
  high := (x >>> 32).setWidth 32

/-- The 64-bit value with the given halves. -/
def join (h : Halves) : BitVec 64 :=
  h.high.setWidth 64 <<< 32 ||| h.low.setWidth 64

end Halves
end Interlock
