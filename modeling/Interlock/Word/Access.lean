/-!
# Single accesses to a word

A word of width `w` is a `BitVec w`. An `Access` is one indivisible step on it: it sees the
contents it finds (`seen` is always the contents before) and leaves `effect` behind. Arithmetic
wraps at the width. Two of the accesses, `load` and `store`, are plain; all others hold the word
exclusively for the step and are called locked.
-/

namespace Interlock

variable {w : Nat}

/-- One indivisible access to a word. -/
inductive Access (w : Nat) where
  | load
  | store (value : BitVec w)
  | exchange (value : BitVec w)
  | compareExchange (old new : BitVec w)
  | and (mask : BitVec w)
  | or (mask : BitVec w)
  | xor (mask : BitVec w)
  | add (value : BitVec w)
  | sub (value : BitVec w)
  | inc
  | dec
  | exchangeAdd (value : BitVec w)
  deriving DecidableEq, Repr

namespace Access

/-- The contents an access leaves behind, from the contents it found. -/
def effect : Access w → BitVec w → BitVec w
  | load, x => x
  | store v, _ => v
  | exchange v, _ => v
  | compareExchange old new, x => if x = old then new else x
  | and m, x => x &&& m
  | or m, x => x ||| m
  | xor m, x => x ^^^ m
  | add v, x => x + v
  | sub v, x => x - v
  | inc, x => x + 1#w
  | dec, x => x - 1#w
  | exchangeAdd v, x => x + v

/-- Whether the access holds the word exclusively for its step. -/
def locked : Access w → Bool
  | load | store _ => false
  | _ => true

end Access

end Interlock
