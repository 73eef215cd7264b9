import Mathlib.Data.Int.ModEq
import Interlock.Proofs.Typed.View

/-!
# Atomics over signed numbers count modulo their width

An atomic over numbers of `w` bits with a sign adds and subtracts on bits. Read as numbers, it holds
what the first value and all changes since come to, reduced modulo `2 ^ w` into the range of the
numbers, however often the count ran over an end of the range; and an operation that answers a value
answers the one before its step.
-/

namespace Interlock

open Encoding LawfulEncoding

variable {α : Type} {w : Nat}

/-! ### Wrapped sums -/

/-- A number of `w` bits with a sign that stands for an integer modulo `2 ^ w`. -/
def StandsFor (w : Nat) (total z : Int) : Prop :=
  -2 ^ (w - 1) ≤ z ∧ z < 2 ^ (w - 1) ∧ z ≡ total [ZMOD 2 ^ w]

theorem standsFor_iff (hw : 0 < w) (total z : Int) :
    StandsFor w total z ↔ z = total.bmod (2 ^ w) := by
  obtain ⟨k, rfl⟩ : ∃ k, w = k + 1 := ⟨w - 1, by omega⟩
  have hcast : ((2 ^ (k + 1) : Nat) : Int) = 2 * 2 ^ k := by
    rw [Int.natCast_pow, Int.pow_succ, Int.mul_comm]
    rfl
  have hmod : z ≡ total [ZMOD 2 ^ (k + 1)] ↔ ((2 ^ (k + 1) : Nat) : Int) ∣ z - total := by
    rw [Int.modEq_comm, Int.modEq_iff_dvd, Int.natCast_pow]
    rfl
  have hlow : -(2 * 2 ^ k / 2 : Int) = -2 ^ k := by omega
  have hhigh : (2 * 2 ^ k + 1) / 2 = (2 ^ k : Int) := by omega
  rw [StandsFor, hmod, eq_comm, Int.bmod_eq_iff (Nat.two_pow_pos _), hcast, Nat.add_sub_cancel,
    hlow, hhigh]

/-! ### Operations that add -/

namespace TypedOp

/-- How much an operation adds, its operand read as a number, if it does no more than to add. -/
def change? (number : α → Int) : TypedOp α w → Option Int
  | add v | fetchAdd v => some (number v)
  | sub v => some (-number v)
  | inc | fetchInc => some 1
  | dec | fetchDec => some (-1)
  | _ => none

/-- What operations add one after the other. -/
def total (number : α → Int) (ops : List (TypedOp α w)) : Int :=
  (ops.filterMap (change? number)).sum

/-- Whether an operation that adds answers a value. -/
def fetches : TypedOp α w → Bool
  | fetchAdd _ | fetchInc | fetchDec => true
  | _ => false

section
variable [Encoding α w] [LawfulEncoding α w] {number : α → Int}
  (hnumber : ∀ a, number a = (toBits a).toInt)

include hnumber

theorem number_ofBits (x : BitVec w) : number (ofBits x) = x.toInt := by
  rw [hnumber, toBits_ofBits]

theorem number_add (a v : α) :
    number (combineBits (· + ·) a v) = (number a + number v).bmod (2 ^ w) := by
  rw [combineBits, number_ofBits hnumber, BitVec.toInt_add, hnumber a, hnumber v]

theorem number_sub (a v : α) :
    number (combineBits (· - ·) a v) = (number a + -number v).bmod (2 ^ w) := by
  rw [combineBits, number_ofBits hnumber, BitVec.toInt_sub, hnumber a, hnumber v,
    Int.sub_eq_add_neg]

theorem number_inc (a : α) :
    number (ofBits (toBits a + 1#w)) = (number a + 1).bmod (2 ^ w) := by
  rw [number_ofBits hnumber, BitVec.toInt_add, BitVec.toInt_ofNat', Int.add_bmod_bmod, hnumber a]
  rfl

theorem number_dec (a : α) :
    number (ofBits (toBits a - 1#w)) = (number a + -1).bmod (2 ^ w) := by
  rw [number_ofBits hnumber, BitVec.toInt_sub, BitVec.toInt_ofNat', Int.sub_bmod_bmod, hnumber a]
  rfl

variable [DecidableEq α]

theorem apply_of_change? {op : TypedOp α w} {d : Int} (h : op.change? number = some d) (a : α) :
    (op.apply a).1 = (if op.fetches then .value a else .done) ∧
      number (op.apply a).2 = (number a + d).bmod (2 ^ w) := by
  cases op with
  | add v | fetchAdd v =>
    cases h
    exact ⟨rfl, number_add hnumber a v⟩
  | sub v =>
    cases h
    exact ⟨rfl, number_sub hnumber a v⟩
  | inc | fetchInc =>
    cases h
    exact ⟨rfl, number_inc hnumber a⟩
  | dec | fetchDec =>
    cases h
    exact ⟨rfl, number_dec hnumber a⟩
  | _ => cases h

/-- However often the sum of the changes leaves the range, only the last sum matters. -/
theorem number_applyAll {ops : List (TypedOp α w)}
    (hops : ∀ op ∈ ops, (op.change? number).isSome = true) (a : α) :
    number (applyAll ops a).2 = (number a + total number ops).bmod (2 ^ w) := by
  induction ops generalizing a with
  | nil =>
    have hzero : total number ([] : List (TypedOp α w)) = 0 := rfl
    rw [hzero, Int.add_zero, hnumber a, BitVec.toInt_bmod_cancel, ← hnumber a]
    rfl
  | cons op rest ih =>
    obtain ⟨d, hd⟩ := Option.isSome_iff_exists.mp (hops op List.mem_cons_self)
    have hstep := (apply_of_change? hnumber hd a).2
    have hrest := ih (fun o ho => hops o (List.mem_cons_of_mem op ho)) (op.apply a).2
    have htotal : total number (op :: rest) = d + total number rest := by
      rw [total, List.filterMap_cons_some hd, List.sum_cons]
      rfl
    calc number (applyAll (op :: rest) a).2
        = (number (op.apply a).2 + total number rest).bmod (2 ^ w) := hrest
      _ = (number a + d + total number rest).bmod (2 ^ w) := by rw [hstep, Int.bmod_add_bmod]
      _ = (number a + total number (op :: rest)).bmod (2 ^ w) := by rw [htotal, Int.add_assoc]

end

theorem getElem?_applyAll [Encoding α w] [DecidableEq α] {ops : List (TypedOp α w)} {n : Nat}
    {op : TypedOp α w} (h : ops[n]? = some op) (a : α) :
    (applyAll ops a).1[n]? = some (op.apply (applyAll (ops.take n) a).2).1 := by
  induction ops generalizing n a with
  | nil => cases h
  | cons first rest ih =>
    cases n with
    | zero =>
      cases h
      rfl
    | succ n => exact ih h (first.apply a).2

end TypedOp

/-! ### Values read on the way -/

namespace Atomic

variable [Encoding α w]

/-- The atomic after the first operations of a list, as many as `n`. -/
def after (ops : List (TypedOp α w)) (n : Nat) (a : Atomic α w) : Atomic α w :=
  (performAll (ops.take n) a).2

variable [LawfulEncoding α w] [DecidableEq α]

theorem performAll_new (ops : List (TypedOp α w)) (start : α) (fenced : Bool) :
    ((performAll ops (.new start fenced)).1, (performAll ops (.new start fenced)).2.get) =
      TypedOp.applyAll ops start := by
  have hnew : (new start fenced : Atomic α w).get = start := ofBits_toBits start
  rw [performAll_eq, hnew]

theorem read_after (ops : List (TypedOp α w)) (n : Nat) (start : α) (fenced : Bool) :
    ((after ops n (.new start fenced)).perform .read).1 =
      .value (TypedOp.applyAll (ops.take n) start).2 := by
  have hread := (after ops n (.new start fenced)).perform_eq .read
  have hget := performAll_new (ops.take n) start fenced
  rw [← hget]
  exact congrArg Prod.fst hread

end Atomic

/-! ### Main result -/

/-- What operations that add come to, on an atomic over numbers with a sign. -/
structure Wraps [Encoding α w] (number : α → Int) (start : α) (fenced : Bool)
    (ops : List (TypedOp α w)) : Prop where
  /-- A value read after any number of steps is the single one in range for all changes so far. -/
  value : ∀ n, ∃ v, ((Atomic.after ops n (.new start fenced)).perform .read).1 = .value v ∧
    ∀ z, StandsFor w (number start + TypedOp.total number (ops.take n)) z ↔ z = number v
  answer : ∀ n op, ops[n]? = some op →
    (Atomic.performAll ops (.new start fenced)).1[n]? =
      some (if op.fetches then ((Atomic.after ops n (.new start fenced)).perform .read).1
        else .done)

theorem wraps_of_number [Encoding α w] [LawfulEncoding α w] [DecidableEq α] {number : α → Int}
    (hnumber : ∀ a, number a = (toBits a).toInt) (hw : 0 < w) (start : α) (fenced : Bool)
    {ops : List (TypedOp α w)} (hops : ∀ op ∈ ops, (op.change? number).isSome = true) :
    Wraps number start fenced ops := by
  constructor
  · intro n
    have hprefix : ∀ op ∈ ops.take n, (op.change? number).isSome = true :=
      fun op hop => hops op (List.mem_of_mem_take hop)
    refine ⟨_, Atomic.read_after ops n start fenced, fun z => ?_⟩
    rw [standsFor_iff hw, TypedOp.number_applyAll hnumber hprefix]
  · intro n op hn
    obtain ⟨d, hd⟩ := Option.isSome_iff_exists.mp (hops op (List.mem_of_getElem? hn))
    have hanswer := (TypedOp.apply_of_change? hnumber hd
      (TypedOp.applyAll (ops.take n) start).2).1
    have hanswers := congrArg Prod.fst (Atomic.performAll_new ops start fenced)
    rw [Atomic.read_after, ← hanswer, ← TypedOp.getElem?_applyAll hn]
    exact congrArg (·[n]?) hanswers

/-- Whatever the operands and however many steps, atomics over numbers of 32 and of 64 bits with a
sign hold the exact sum wrapped to their width. -/
theorem signed_arithmetic_wraps (fenced : Bool) :
    (∀ (start : Int32) (ops : List (TypedOp Int32 32)),
        (∀ op ∈ ops, (op.change? Int32.toInt).isSome = true) →
          Wraps Int32.toInt start fenced ops) ∧
      ∀ (start : Int64) (ops : List (TypedOp Int64 64)),
        (∀ op ∈ ops, (op.change? Int64.toInt).isSome = true) →
          Wraps Int64.toInt start fenced ops := by
  constructor
  · intro start ops hops
    exact wraps_of_number (fun _ => rfl) (by decide) start fenced hops
  · intro start ops hops
    exact wraps_of_number (fun _ => rfl) (by decide) start fenced hops

/-- Operations that run over the lower end and back, with the lowest number as an operand. -/
def overTheEnd (lowest : α) : List (TypedOp α w) :=
  [.dec, .fetchAdd lowest, .fetchInc, .sub lowest, .fetchDec, .add lowest, .inc]

/-- From the lowest number on, at both widths. -/
theorem signed_arithmetic_wraps_over_the_end :
    (∀ op ∈ (overTheEnd Int32.minValue : List (TypedOp Int32 32)),
        (op.change? Int32.toInt).isSome = true) ∧
      Wraps Int32.toInt Int32.minValue true (overTheEnd Int32.minValue) ∧
      (∀ op ∈ (overTheEnd Int64.minValue : List (TypedOp Int64 64)),
        (op.change? Int64.toInt).isSome = true) ∧
      Wraps Int64.toInt Int64.minValue true (overTheEnd Int64.minValue) := by
  have hint : ∀ op ∈ (overTheEnd Int32.minValue : List (TypedOp Int32 32)),
      (op.change? Int32.toInt).isSome = true := by decide
  have hlong : ∀ op ∈ (overTheEnd Int64.minValue : List (TypedOp Int64 64)),
      (op.change? Int64.toInt).isSome = true := by decide
  obtain ⟨hwraps, hwrapsLong⟩ := signed_arithmetic_wraps true
  exact ⟨hint, hwraps _ _ hint, hlong, hwrapsLong _ _ hlong⟩

example :
    TypedOp.applyAll (overTheEnd Int32.minValue : List (TypedOp Int32 32)) Int32.minValue =
      ([.done, .value 2147483647, .value (-1), .done, .value (-2147483648), .done, .done], 0) := by
  decide

end Interlock
