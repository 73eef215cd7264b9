import Interlock.Text.Number
import Interlock.Text.Shown

/-!
# Values that fit in a word

An `Encoding` keeps values of a type in the words of one width: every value has its bits and every
word is a value. `LawfulEncoding` says that the two directions undo each other. The instances are
the numbers of 32 and 64 bits with and without sign, addresses, a number in a wrapper, and a pair
of numbers in the halves of a 64-bit word.
-/

namespace Interlock

/-- How values of a type are kept in words of width `w`. -/
class Encoding (α : Type) (w : outParam Nat) where
  toBits : α → BitVec w
  ofBits : BitVec w → α

/-- The two directions of an encoding undo each other. -/
class LawfulEncoding (α : Type) (w : outParam Nat) [Encoding α w] : Prop where
  ofBits_toBits (a : α) : Encoding.ofBits (Encoding.toBits a) = a
  toBits_ofBits (x : BitVec w) : Encoding.toBits (Encoding.ofBits x : α) = x

/-- Values that have a text. -/
class HasText (α : Type) where
  shown : α → Shown

/-! ### Numbers -/

instance : Encoding UInt32 32 := ⟨UInt32.toBitVec, UInt32.ofBitVec⟩

instance : LawfulEncoding UInt32 32 := ⟨fun _ => rfl, fun _ => rfl⟩

instance : HasText UInt32 := ⟨fun n => .plain (toString n.toNat)⟩

instance : Encoding Int32 32 := ⟨Int32.toBitVec, Int32.ofBitVec⟩

instance : LawfulEncoding Int32 32 := ⟨fun _ => rfl, fun _ => rfl⟩

instance : HasText Int32 := ⟨fun n => .plain (toString n.toInt)⟩

instance : Encoding UInt64 64 := ⟨UInt64.toBitVec, UInt64.ofBitVec⟩

instance : LawfulEncoding UInt64 64 := ⟨fun _ => rfl, fun _ => rfl⟩

instance : HasText UInt64 := ⟨fun n => .plain (toString n.toNat)⟩

instance : Encoding Int64 64 := ⟨Int64.toBitVec, Int64.ofBitVec⟩

instance : LawfulEncoding Int64 64 := ⟨fun _ => rfl, fun _ => rfl⟩

instance : HasText Int64 := ⟨fun n => .plain (toString n.toInt)⟩

/-! ### Addresses -/

/-- The address of an object. -/
structure Address where
  number : BitVec 64
  deriving DecidableEq, Repr

instance : Encoding Address 64 := ⟨Address.number, Address.mk⟩

instance : LawfulEncoding Address 64 := ⟨fun _ => rfl, fun _ => rfl⟩

/-- An address has leading zeros where parts stand one to a line. -/
instance : HasText Address :=
  ⟨fun a => .word (Text.hex a.number.toNat) (Text.hexPadded 16 a.number.toNat)⟩

/-! ### A number in a wrapper -/

/-- The number of a ticket. -/
structure Ticket where
  number : UInt32
  deriving DecidableEq, Repr

instance : Encoding Ticket 32 := ⟨fun t => t.number.toBitVec, fun x => ⟨.ofBitVec x⟩⟩

instance : LawfulEncoding Ticket 32 := ⟨fun _ => rfl, fun _ => rfl⟩

instance : HasText Ticket := ⟨fun t => .tuple "Ticket" [HasText.shown t.number]⟩

/-! ### A pair of numbers -/

/-- Two numbers kept in one word, `lo` in its low half. -/
structure Pair where
  lo : UInt32
  hi : Int32
  deriving DecidableEq, Repr

instance : Encoding Pair 64 where
  toBits p := p.hi.toBitVec ++ p.lo.toBitVec
  ofBits x := ⟨.ofBitVec (x.extractLsb' 0 32), .ofBitVec (x.extractLsb' 32 32)⟩

instance : LawfulEncoding Pair 64 where
  ofBits_toBits p := by
    simp only [Encoding.ofBits, Encoding.toBits]
    rw [BitVec.extractLsb'_append_eq_right, BitVec.extractLsb'_append_eq_left]
    rfl
  toBits_ofBits x := by
    change x.extractLsb' 32 32 ++ x.extractLsb' 0 32 = x
    rw [BitVec.extractLsb'_append_extractLsb'_eq_extractLsb' (by decide)]
    exact BitVec.extractLsb'_eq_self

instance : HasText Pair :=
  ⟨fun p => .record "Pair"
    [.labelled "lo" (HasText.shown p.lo), .labelled "hi" (HasText.shown p.hi)]⟩

end Interlock
