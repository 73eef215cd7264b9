import Interlock.Word.Access

/-!
# Operations on a word

An `Op` is what a caller may ask of a word. `Op.apply` is its meaning at one instant: the answer
and the contents after it. `Op.method` says how it is carried out: by one access, with or without
a look at the fence switch afterwards, or by a loop that computes a replacement and tries to swap
it in until nobody got in between.
-/

namespace Interlock

variable {w : Nat}

/-- What a caller may ask of a word. -/
inductive Op (w : Nat) where
  /-- Answers the contents. -/
  | read
  /-- Replaces the contents. -/
  | write (value : BitVec w)
  /-- Replaces the contents and answers what was there. -/
  | exchange (value : BitVec w)
  /-- Replaces `old` by `new`, and answers what was there: `old` iff the swap happened. -/
  | compareSwap (old new : BitVec w)
  /-- Replaces `old` by `new`, and answers whether the swap happened. -/
  | compareExchange (old new : BitVec w)
  | and (mask : BitVec w)
  | or (mask : BitVec w)
  | xor (mask : BitVec w)
  | add (value : BitVec w)
  | sub (value : BitVec w)
  | inc
  | dec
  | fetchOr (mask : BitVec w)
  | fetchAnd (mask : BitVec w)
  | fetchXor (mask : BitVec w)
  | fetchSub (value : BitVec w)
  | fetchAdd (value : BitVec w)
  /-- The same as `fetchAdd`, for callers that fence around a group of operations. -/
  | fetchAddUnfenced (value : BitVec w)
  | fetchInc
  | fetchDec
  /-- Replaces the contents by `update` of them and answers what was there. -/
  | fetchUpdate (update : BitVec w → BitVec w)
  /-- The client's own loop to the same end: read, try to swap, and read again after a failure. -/
  | advance (update : BitVec w → BitVec w)

/-- What an operation answers. -/
inductive Answer (w : Nat) where
  | done
  | value (contents : BitVec w)
  | swapped (yes : Bool)
  deriving DecidableEq, Repr

/-- The contents an operation reports, if it reports contents. -/
def Answer.value? : Answer w → Option (BitVec w)
  | .value v => some v
  | _ => none

/-- How an operation is carried out. -/
inductive Method (w : Nat) where
  /-- One access. The answer is computed from what it saw; `fenced` asks for a look at the fence
  switch after it. -/
  | single (access : Access w) (fenced : Bool) (answer : BitVec w → Answer w)
  /-- Load, then try to swap `update` of the value in. After a failed swap the loop goes on from
  what the swap saw or, with `reload`, from a new load. -/
  | retry (update : BitVec w → BitVec w) (reload : Bool)

namespace Op

/-- The answer of an operation carried out at one instant, and the contents after it. -/
def apply : Op w → BitVec w → Answer w × BitVec w
  | read, x => (.value x, x)
  | write v, _ => (.done, v)
  | exchange v, x => (.value x, v)
  | compareSwap old new, x => (.value x, if x = old then new else x)
  | compareExchange old new, x => (.swapped (x = old), if x = old then new else x)
  | and m, x => (.done, x &&& m)
  | or m, x => (.done, x ||| m)
  | xor m, x => (.done, x ^^^ m)
  | add v, x => (.done, x + v)
  | sub v, x => (.done, x - v)
  | inc, x => (.done, x + 1#w)
  | dec, x => (.done, x - 1#w)
  | fetchOr m, x => (.value x, x ||| m)
  | fetchAnd m, x => (.value x, x &&& m)
  | fetchXor m, x => (.value x, x ^^^ m)
  | fetchSub v, x => (.value x, x - v)
  | fetchAdd v, x => (.value x, x + v)
  | fetchAddUnfenced v, x => (.value x, x + v)
  | fetchInc, x => (.value x, x + 1#w)
  | fetchDec, x => (.value x, x - 1#w)
  | fetchUpdate f, x => (.value x, f x)
  | advance f, x => (.value x, f x)

/-- How each operation is carried out. Bit operations and subtraction that answer the previous
contents have no single access of their own and go through the loop; so does any other update.
Addition has one, and a decrement adds the word of all ones. -/
def method : Op w → Method w
  | read => .single .load false .value
  | write v => .single (.store v) false fun _ => .done
  | exchange v => .single (.exchange v) true .value
  | compareSwap old new => .single (.compareExchange old new) true .value
  | compareExchange old new => .single (.compareExchange old new) true fun x => .swapped (x = old)
  | and m => .single (.and m) true fun _ => .done
  | or m => .single (.or m) true fun _ => .done
  | xor m => .single (.xor m) true fun _ => .done
  | add v => .single (.add v) true fun _ => .done
  | sub v => .single (.sub v) true fun _ => .done
  | inc => .single .inc true fun _ => .done
  | dec => .single .dec true fun _ => .done
  | fetchOr m => .retry (· ||| m) false
  | fetchAnd m => .retry (· &&& m) false
  | fetchXor m => .retry (· ^^^ m) false
  | fetchSub v => .retry (· - v) false
  | fetchAdd v => .single (.exchangeAdd v) true .value
  | fetchAddUnfenced v => .single (.exchangeAdd v) false .value
  | fetchInc => .single (.exchangeAdd 1#w) true .value
  | fetchDec => .single (.exchangeAdd (0#w - 1#w)) true .value
  | fetchUpdate f => .retry f false
  | advance f => .retry f true

end Op

end Interlock
