import Mathlib.Data.BitVec
import Interlock.Word.Halves
import Interlock.Proofs.Word.Calls

/-!
# A word and its two halves tell the same story

The halves of a 64-bit word change with every operation on the word as if they were kept apart:
masks and stores act on each by itself, a sum or a difference passes one carry or borrow from the
low half to the high one, and a swap happens if both halves are as expected. Splitting and joining
undo each other, so nothing of the word is lost.
-/

namespace Interlock
namespace Halves

/-! ### Splitting and joining -/

theorem toNat_low_split (x : BitVec 64) : (split x).low.toNat = x.toNat % 2 ^ 32 :=
  BitVec.toNat_setWidth ..

theorem toNat_high_split (x : BitVec 64) : (split x).high.toNat = x.toNat / 2 ^ 32 := by
  have hx := x.isLt
  have hlt : x.toNat / 2 ^ 32 < 2 ^ 32 := by omega
  rw [split, BitVec.toNat_setWidth, BitVec.toNat_ushiftRight, Nat.shiftRight_eq_div_pow,
    Nat.mod_eq_of_lt hlt]

theorem toNat_join (h : Halves) : h.join.toNat = h.high.toNat * 2 ^ 32 + h.low.toNat := by
  have hlow := h.low.isLt
  have hhigh := h.high.isLt
  have hshifted : (h.high.setWidth 64 <<< 32).toNat = h.high.toNat <<< 32 := by
    rw [BitVec.toNat_shiftLeft, BitVec.toNat_setWidth_of_le (by decide), Nat.shiftLeft_eq,
      Nat.mod_eq_of_lt (by omega)]
  rw [join, BitVec.toNat_or, hshifted, BitVec.toNat_setWidth_of_le (by decide),
    ← Nat.shiftLeft_add_eq_or_of_lt hlow, Nat.shiftLeft_eq]

theorem eq_of_toNat {a b : Halves} (hlow : a.low.toNat = b.low.toNat)
    (hhigh : a.high.toNat = b.high.toNat) : a = b := by
  obtain ⟨low, high⟩ := a
  obtain ⟨low', high'⟩ := b
  rw [mk.injEq]
  exact ⟨BitVec.eq_of_toNat_eq hlow, BitVec.eq_of_toNat_eq hhigh⟩

theorem join_split (x : BitVec 64) : (split x).join = x := by
  apply BitVec.eq_of_toNat_eq
  rw [toNat_join, toNat_low_split, toNat_high_split]
  omega

theorem split_join (h : Halves) : split h.join = h := by
  have hlow := h.low.isLt
  apply eq_of_toNat
  · rw [toNat_low_split, toNat_join]
    omega
  · rw [toNat_high_split, toNat_join]
    omega

theorem split_inj {x y : BitVec 64} : split x = split y ↔ x = y := by
  constructor
  · intro h
    rw [← join_split x, h, join_split]
  · rintro rfl
    rfl

/-! ### Operations on two halves -/

/-- Two pairs combined, each half by itself. -/
def zip (f : BitVec 32 → BitVec 32 → BitVec 32) (a b : Halves) : Halves where
  low := f a.low b.low
  high := f a.high b.high

/-- What the sum of the low halves passes on. -/
def carry (a b : Halves) : BitVec 32 := if 2 ^ 32 ≤ a.low.toNat + b.low.toNat then 1 else 0

/-- What the difference of the low halves takes from the high one. -/
def borrow (a b : Halves) : BitVec 32 := if a.low.toNat < b.low.toNat then 1 else 0

def add (a b : Halves) : Halves where
  low := a.low + b.low
  high := a.high + b.high + carry a b

def sub (a b : Halves) : Halves where
  low := a.low - b.low
  high := a.high - b.high - borrow a b

/-- Both halves are as expected. -/
def Matches (h old : Halves) : Prop := h.low = old.low ∧ h.high = old.high

instance (h old : Halves) : Decidable (h.Matches old) := inferInstanceAs (Decidable (_ ∧ _))

def swap (old new h : Halves) : Halves := if h.Matches old then new else h

theorem toNat_carry (a b : Halves) :
    (carry a b).toNat = (a.low.toNat + b.low.toNat) / 2 ^ 32 := by
  have ha := a.low.isLt
  have hb := b.low.isLt
  unfold carry
  split
  · simp only [BitVec.reduceToNat]
    omega
  · simp only [BitVec.reduceToNat]
    omega

theorem split_add (x y : BitVec 64) : split (x + y) = (split x).add (split y) := by
  have hx := x.isLt
  have hy := y.isLt
  apply eq_of_toNat
  · simp only [add, BitVec.toNat_add, toNat_low_split]
    omega
  · simp only [add, BitVec.toNat_add, toNat_carry, toNat_low_split, toNat_high_split]
    omega

theorem split_sub (x y : BitVec 64) : split (x - y) = (split x).sub (split y) := by
  have hx := x.isLt
  have hy := y.isLt
  apply eq_of_toNat
  · simp only [sub, BitVec.toNat_sub, toNat_low_split]
    omega
  · simp only [sub, borrow, BitVec.toNat_sub, toNat_low_split, toNat_high_split]
    split
    · simp only [BitVec.reduceToNat]
      omega
    · simp only [BitVec.reduceToNat]
      omega

theorem split_and (x y : BitVec 64) : split (x &&& y) = (split x).zip (· &&& ·) (split y) := by
  simp [split, zip, BitVec.ushiftRight_and_distrib]

theorem split_or (x y : BitVec 64) : split (x ||| y) = (split x).zip (· ||| ·) (split y) := by
  simp [split, zip, BitVec.ushiftRight_or_distrib]

theorem split_xor (x y : BitVec 64) : split (x ^^^ y) = (split x).zip (· ^^^ ·) (split y) := by
  simp [split, zip, BitVec.ushiftRight_xor_distrib]

theorem matches_split {x old : BitVec 64} : (split x).Matches (split old) ↔ x = old := by
  rw [← split_inj, Matches]
  constructor
  · rintro ⟨hlow, hhigh⟩
    exact eq_of_toNat (congrArg BitVec.toNat hlow) (congrArg BitVec.toNat hhigh)
  · intro h
    rw [h]
    exact ⟨rfl, rfl⟩

theorem split_swap (x old new : BitVec 64) :
    split (if x = old then new else x) = swap (split old) (split new) (split x) := by
  unfold swap
  simp only [matches_split]
  split <;> rfl

/-! ### The two halves of a word under its operations -/

/-- What an operation answers of two halves. -/
inductive Reply where
  | done
  | value (contents : Halves)
  | swapped (yes : Bool)
  deriving DecidableEq

/-- A word's answer, with the value that it holds in halves. -/
def Reply.ofAnswer : Answer 64 → Reply
  | .done => .done
  | .value x => .value (split x)
  | .swapped yes => .swapped yes

/-- What an operation answers when a word has the given halves. -/
def reply : Op 64 → Halves → Reply
  | .write _, _ | .and _, _ | .or _, _ | .xor _, _ | .add _, _ | .sub _, _ | .inc, _ | .dec, _ =>
    .done
  | .compareExchange old _, h => .swapped (h.Matches (split old))
  | _, h => .value h

/-- The halves that an operation leaves. An update of the whole word is the only one that needs
it joined. -/
def effect : Op 64 → Halves → Halves
  | .read, h => h
  | .write v, _ | .exchange v, _ => split v
  | .compareSwap old new, h | .compareExchange old new, h => swap (split old) (split new) h
  | .and m, h | .fetchAnd m, h => h.zip (· &&& ·) (split m)
  | .or m, h | .fetchOr m, h => h.zip (· ||| ·) (split m)
  | .xor m, h | .fetchXor m, h => h.zip (· ^^^ ·) (split m)
  | .add v, h | .fetchAdd v, h | .fetchAddUnfenced v, h => h.add (split v)
  | .sub v, h | .fetchSub v, h => h.sub (split v)
  | .inc, h | .fetchInc, h => h.add { low := 1, high := 0 }
  | .dec, h | .fetchDec, h => h.sub { low := 1, high := 0 }
  | .fetchUpdate f, h | .advance f, h => split (f h.join)

/-- What operations answer one after the other, each with the halves that it leaves. -/
def run : List (Op 64) → Halves → List (Reply × Halves)
  | [], _ => []
  | op :: rest, h => (reply op h, effect op h) :: run rest (effect op h)

theorem reply_split (op : Op 64) (x : BitVec 64) :
    Reply.ofAnswer (op.apply x).1 = reply op (split x) := by
  cases op with
  | compareExchange old new => simp [Op.apply, Reply.ofAnswer, reply, matches_split]
  | _ => rfl

theorem effect_split (op : Op 64) (x : BitVec 64) :
    split (op.apply x).2 = effect op (split x) := by
  cases op with
  | read | write v | exchange v => rfl
  | compareSwap old new | compareExchange old new => exact split_swap x old new
  | and m | fetchAnd m => exact split_and x m
  | or m | fetchOr m => exact split_or x m
  | xor m | fetchXor m => exact split_xor x m
  | add v | fetchAdd v | fetchAddUnfenced v => exact split_add x v
  | sub v | fetchSub v => exact split_sub x v
  | inc | fetchInc => exact split_add x 1
  | dec | fetchDec => exact split_sub x 1
  | fetchUpdate f | advance f => exact congrArg (split ∘ f) (join_split x).symm

/-- What an execution shows, in halves. -/
def seen (e : Execution 64) : Reply × Halves := (.ofAnswer e.answer, split e.cell.contents)

theorem seen_run (op : Op 64) (m : Cell 64) :
    seen (op.run m) = (reply op (split m.contents), effect op (split m.contents)) := by
  obtain ⟨hanswer, hcell⟩ := op.run_eq m
  rw [seen, hanswer, hcell, reply_split, effect_split]

theorem map_seen_run (ops : List (Op 64)) (m : Cell 64) :
    (Session.run (ops.map .perform) m).map seen = run ops (split m.contents) := by
  induction ops generalizing m with
  | nil => rfl
  | cons op rest ih =>
    have hop := seen_run op m
    have hleft : split (op.run m).cell.contents = effect op (split m.contents) :=
      congrArg Prod.snd hop
    rw [run, ← hop, ← hleft, ← ih]
    rfl

/-! ### Main result -/

/-- Splitting and joining are inverse, and whatever is done to a word, it answers as its halves do
that are kept apart, and leaves what they do. -/
theorem halves_follow_word :
    (∀ x : BitVec 64, (split x).join = x) ∧ (∀ h : Halves, split h.join = h) ∧
      (∀ op m, seen (op.run m) = (reply op (split m.contents), effect op (split m.contents))) ∧
      ∀ ops m, (Session.run (ops.map .perform) m).map seen = run ops (split m.contents) :=
  ⟨join_split, split_join, seen_run, map_seen_run⟩

/-- A carry out of the low half, and back; a swap that only one half speaks against. -/
example :
    run [.inc, .dec, .compareSwap 0x100000000 0, .sub 0x100000000] ⟨0xffffffff, 0⟩ =
      [(.done, ⟨0, 1⟩), (.done, ⟨0xffffffff, 0⟩), (.value ⟨0xffffffff, 0⟩, ⟨0xffffffff, 0⟩),
        (.done, ⟨0xffffffff, 0xffffffff⟩)] := by decide

end Halves
end Interlock
