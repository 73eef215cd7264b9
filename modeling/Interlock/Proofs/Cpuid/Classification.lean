import Mathlib.Tactic.IntervalCases
import Interlock.Cpuid.Version
import Interlock.Proofs.Cpuid.Vendor

/-!
# Processors are classified by vendor, family and model

A version word has four fields that matter: a base and an extended part of the family, and two
nibbles of the model. No field reaches into another, so a family and a model that are written into
a word are read back from it, whatever the other bits are. Which processors need fences and which
let their machine checks be written then depends on the vendor name and on these two numbers alone.
-/

namespace Interlock.Cpuid

/-! ### Fields of a version word -/

/-- The number in `width` bits of a word, from bit `start` on. -/
def field (version : BitVec 32) (start width : Nat) : Nat :=
  (version.extractLsb' start width).toNat

theorem toNat_shifted_and (x : BitVec 32) (start width : Nat) (hw : width ≤ 32) :
    ((x >>> start) &&& BitVec.ofNat 32 (2 ^ width - 1)).toNat = field x start width := by
  have hpow : 2 ^ width ≤ 2 ^ 32 := Nat.pow_le_pow_right (by omega) hw
  have hpos : 0 < 2 ^ width := Nat.two_pow_pos width
  have hmask : (BitVec.ofNat 32 (2 ^ width - 1)).toNat = 2 ^ width - 1 := by
    rw [BitVec.toNat_ofNat]
    exact Nat.mod_eq_of_lt (by omega)
  rw [field, BitVec.toNat_and, hmask, Nat.and_two_pow_sub_one_eq_mod, BitVec.toNat_ushiftRight,
    BitVec.extractLsb'_toNat]

theorem family_eq (version : BitVec 32) :
    family version = field version 8 4 + field version 20 8 := by
  have hbase := toNat_shifted_and version 8 4 (by omega)
  have hextended := toNat_shifted_and version 20 8 (by omega)
  rw [family, ← hbase, ← hextended]
  rfl

theorem model_eq (version : BitVec 32) :
    model version = 16 * field version 16 4 + field version 4 4 := by
  have hnibble : (version >>> 12) &&& 0xf0#32 = ((version >>> 16) &&& 0xf#32) <<< 4 := by
    ext i hi
    interval_cases i <;> simp
  have hlow := toNat_shifted_and version 4 4 (by omega)
  have hhigh := toNat_shifted_and version 16 4 (by omega)
  have hlow_lt : field version 4 4 < 2 ^ 4 := (version.extractLsb' 4 4).isLt
  have hhigh_lt : field version 16 4 < 2 ^ 4 := (version.extractLsb' 16 4).isLt
  have hsum := Nat.shiftLeft_add_eq_or_of_lt hlow_lt (field version 16 4)
  simp only [Nat.shiftLeft_eq, Nat.reducePow, Nat.reduceSub] at hsum hlow hhigh
  show (((version >>> 4) &&& 0xf#32) ||| ((version >>> 12) &&& 0xf0#32)).toNat = _
  rw [hnibble, BitVec.toNat_or, BitVec.toNat_shiftLeft, hlow, hhigh, Nat.shiftLeft_eq,
    Nat.mod_eq_of_lt (by omega), Nat.or_comm, ← hsum, Nat.mul_comm]

/-! ### Numbers written into fields -/

theorem extract_own (x : Nat) {start width : Nat} (hw : start + width ≤ 32) :
    (BitVec.ofNat 32 (x <<< start)).extractLsb' start width = BitVec.ofNat width x := by
  apply BitVec.eq_of_getLsbD_eq
  intro i hi
  have hbit : start + i < 32 := by omega
  simp only [BitVec.getLsbD_extractLsb', BitVec.getLsbD_ofNat, Nat.testBit_shiftLeft, hi, hbit,
    ge_iff_le, Nat.le_add_right, Nat.add_sub_cancel_left, decide_true, Bool.true_and]

theorem extract_other {x start width a n : Nat} (hx : x < 2 ^ width)
    (happart : a + n ≤ start ∨ start + width ≤ a) :
    (BitVec.ofNat 32 (x <<< start)).extractLsb' a n = 0#n := by
  apply BitVec.eq_of_getLsbD_eq
  intro i hi
  rw [BitVec.getLsbD_extractLsb', BitVec.getLsbD_ofNat, Nat.testBit_shiftLeft,
    BitVec.getLsbD_zero]
  by_cases hstart : start ≤ a + i
  · have hpow : 2 ^ width ≤ 2 ^ (a + i - start) := Nat.pow_le_pow_right (by omega) (by omega)
    have hbit : x.testBit (a + i - start) = false := Nat.testBit_lt_two_pow (by omega)
    simp only [hbit, Bool.and_false]
  · simp only [ge_iff_le, hstart, decide_false, Bool.false_and, Bool.and_false]

/-- The stepping, the type and the reserved bits. -/
def otherBits : BitVec 32 := 0xf000f00f

/-- The fields of a version word are those of a family and a model. -/
structure Encodes (version : BitVec 32) (f m : Nat) : Prop where
  base : field version 8 4 = min f 0xf
  extended : field version 20 8 = f - min f 0xf
  low : field version 4 4 = m % 16
  high : field version 16 4 = m / 16

theorem encodes_encode {f m : Nat} (hf : f ≤ 0x10e) (hm : m ≤ 0xff) (rest : BitVec 32) :
    Encodes (encode f m rest) f m := by
  have hbase : min f 0xf < 2 ^ 4 := by omega
  have hextended : f - min f 0xf < 2 ^ 8 := by omega
  have hlow : m % 16 < 2 ^ 4 := by omega
  have hhigh : m / 16 < 2 ^ 4 := by omega
  -- Each field is the part that was written there: `rest` is masked off, and the other parts lie
  -- apart.
  constructor <;>
    simp (disch := omega) only [encode, field, BitVec.extractLsb'_or, BitVec.extractLsb'_and,
      extract_own, extract_other hbase, extract_other hextended, extract_other hlow,
      extract_other hhigh]
  · simp
  · simp
    omega
  · simp
  · simp
    omega

theorem written_and_otherBits (start : Nat) {x width : Nat} (hx : x < 2 ^ width)
    (hclear : ∀ i < start + width, start ≤ i → otherBits.getLsbD i = false) :
    BitVec.ofNat 32 (x <<< start) &&& otherBits = 0#32 := by
  apply BitVec.eq_of_getLsbD_eq
  intro i hi
  rw [BitVec.getLsbD_and, BitVec.getLsbD_ofNat, Nat.testBit_shiftLeft, BitVec.getLsbD_zero]
  by_cases hstart : start ≤ i
  · by_cases hend : i < start + width
    · rw [hclear i hend hstart, Bool.and_false]
    · have hpow : 2 ^ width ≤ 2 ^ (i - start) := Nat.pow_le_pow_right (by omega) (by omega)
      have hbit : x.testBit (i - start) = false := Nat.testBit_lt_two_pow (by omega)
      simp only [hbit, Bool.and_false, Bool.false_and]
  · simp only [ge_iff_le, hstart, decide_false, Bool.false_and, Bool.and_false]

theorem encode_and_otherBits {f m : Nat} (hf : f ≤ 0x10e) (hm : m ≤ 0xff) (rest : BitVec 32) :
    encode f m rest &&& otherBits = rest &&& otherBits := by
  have hbase : min f 0xf < 2 ^ 4 := by omega
  have hextended : f - min f 0xf < 2 ^ 8 := by omega
  have hlow : m % 16 < 2 ^ 4 := by omega
  have hhigh : m / 16 < 2 ^ 4 := by omega
  have hrest : rest &&& 0xf000f00f#32 &&& otherBits = rest &&& otherBits := by
    rw [BitVec.and_assoc]
    rfl
  simp only [encode, BitVec.and_or_distrib_right, written_and_otherBits 8 hbase (by decide),
    written_and_otherBits 20 hextended (by decide), written_and_otherBits 4 hlow (by decide),
    written_and_otherBits 16 hhigh (by decide), BitVec.or_zero]
  exact hrest

theorem Encodes.family_eq {version : BitVec 32} {f m : Nat} (h : Encodes version f m) :
    family version = f := by
  rw [Cpuid.family_eq, h.base, h.extended]
  omega

theorem Encodes.model_eq {version : BitVec 32} {f m : Nat} (h : Encodes version f m) :
    model version = m := by
  rw [Cpuid.model_eq, h.low, h.high]
  omega

/-! ### The checks on a processor -/

namespace Summary

theorem requiresLockFence_iff (s : Summary) :
    s.requiresLockFence = true ↔ s.identity.name = amd ∧
      family s.features.version = 0xf ∧ model s.features.version < 0x40 := by
  rw [requiresLockFence, Bool.and_eq_true, Bool.and_eq_true, isAmd, Identity.isAmd_iff, and_assoc,
    isK8, beq_iff_eq, decide_eq_true_iff]
  rfl

theorem isNehalem_iff (version : BitVec 32) :
    isNehalem version = true ↔ family version = 6 ∧
      (model version = 0x1a ∨ model version = 0x1e ∨ model version = 0x1f ∨
        model version = 0x2e) := by
  simp [isNehalem, familyP6, nehalemModels]

theorem machineCheckWritable_iff (s : Summary) :
    s.machineCheckWritable = true ↔ s.identity.name = amd ∨
      s.identity.name = intel ∧ (family s.features.version = 0xf ∨
        family s.features.version = 6 ∧ (model s.features.version = 0x1a ∨
          model s.features.version = 0x1e ∨ model s.features.version = 0x1f ∨
          model s.features.version = 0x2e)) := by
  rw [machineCheckWritable, Bool.or_eq_true, Bool.and_eq_true, Bool.or_eq_true, isAmd, isIntel,
    Identity.isAmd_iff, Identity.isIntel_iff, isNehalem_iff, isPentium4, beq_iff_eq]
  rfl

theorem machineCheckWritable_of_requiresLockFence {s : Summary}
    (h : s.requiresLockFence = true) : s.machineCheckWritable = true :=
  s.machineCheckWritable_iff.mpr (.inl (s.requiresLockFence_iff.mp h).1)

end Summary

/-! ### Main result -/

/-- What the version words of a family and a model say of processors that have one of them. -/
structure Classifies (f m : Nat) : Prop where
  /-- There is such a word for every setting of the other bits, -/
  encodes : ∀ rest, Encodes (encode f m rest) f m ∧
    encode f m rest &&& otherBits = rest &&& otherBits
  /-- and the family and the model are read back from each. -/
  decodes : ∀ version, Encodes version f m → family version = f ∧ model version = m
  lockFence : ∀ s : Summary, Encodes s.features.version f m →
    (s.requiresLockFence = true ↔ s.identity.name = amd ∧ f = 0xf ∧ m < 0x40)
  machineCheck : ∀ s : Summary, Encodes s.features.version f m →
    (s.machineCheckWritable = true ↔ s.identity.name = amd ∨
      s.identity.name = intel ∧ f = 0xf ∨
      s.identity.name = intel ∧ f = 6 ∧ (m = 0x1a ∨ m = 0x1e ∨ m = 0x1f ∨ m = 0x2e))
  safe : ∀ s : Summary, s.requiresLockFence = true → s.machineCheckWritable = true
  /-- Nothing but the vendor name tells two such processors apart. -/
  nothingElse : ∀ s t : Summary, Encodes s.features.version f m →
    Encodes t.features.version f m → s.identity.name = t.identity.name →
    s.requiresLockFence = t.requiresLockFence ∧ s.machineCheckWritable = t.machineCheckWritable

/-- Vendor, family and model decide which processors need fences and which let their machine checks
be written. -/
theorem classified_by_model {f m : Nat} (hf : f ≤ 0x10e) (hm : m ≤ 0xff) : Classifies f m where
  encodes rest := ⟨encodes_encode hf hm rest, encode_and_otherBits hf hm rest⟩
  decodes _ h := ⟨h.family_eq, h.model_eq⟩
  lockFence s h := by rw [s.requiresLockFence_iff, h.family_eq, h.model_eq]
  machineCheck s h := by
    rw [s.machineCheckWritable_iff, h.family_eq, h.model_eq]
    tauto
  safe _ := Summary.machineCheckWritable_of_requiresLockFence
  nothingElse s t hs ht hname := by
    constructor
    · rw [Bool.eq_iff_iff, s.requiresLockFence_iff, t.requiresLockFence_iff, hs.family_eq,
        ht.family_eq, hs.model_eq, ht.model_eq, hname]
    · rw [Bool.eq_iff_iff, s.machineCheckWritable_iff, t.machineCheckWritable_iff, hs.family_eq,
        ht.family_eq, hs.model_eq, ht.model_eq, hname]

/-- The last K8 model that needs fences. All bits beside the family and the model are set, also in
the leaves that do not matter. -/
def lastUnordered : Summary where
  identity := { maxLeaf := 1, name := amd }
  features := { version := encode 0xf 0x3f (BitVec.allOnes 32), ebx := BitVec.allOnes 32 }
  extended := { maxLeaf := BitVec.allOnes 32 }

theorem classified_by_model_last_unordered :
    0xf ≤ 0x10e ∧ 0x3f ≤ 0xff ∧ Classifies 0xf 0x3f ∧ lastUnordered.requiresLockFence = true := by
  have hclass := classified_by_model (f := 0xf) (m := 0x3f) (by decide) (by decide)
  have hversion := (hclass.encodes (BitVec.allOnes 32)).1
  refine ⟨by decide, by decide, hclass, ?_⟩
  exact (hclass.lockFence lastUnordered hversion).mpr ⟨rfl, rfl, by decide⟩

end Interlock.Cpuid
