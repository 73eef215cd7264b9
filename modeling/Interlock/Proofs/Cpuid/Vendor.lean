import Mathlib.Tactic.IntervalCases
import Interlock.Cpuid.Vendor

/-!
# Leaf 0 keeps the vendor name

A name that is packed into registers is read back from them, and registers whose name is read are
packed from it again. The checks of the vendor so read the stored name: of all contents of EBX, ECX
and EDX a single one passes for AMD, and another single one for Intel.
-/

namespace Interlock.Cpuid

/-! ### Bytes of a word -/

theorem bytes_pack (b0 b1 b2 b3 : BitVec 8) :
    byte (pack b0 b1 b2 b3) 0 = b0 ∧ byte (pack b0 b1 b2 b3) 1 = b1 ∧
      byte (pack b0 b1 b2 b3) 2 = b2 ∧ byte (pack b0 b1 b2 b3) 3 = b3 := by
  -- Each byte is on the right of an append, once those below it are taken off.
  unfold byte pack
  refine ⟨BitVec.extractLsb'_append_eq_right, ?_, ?_, ?_⟩
  · rw [BitVec.extractLsb'_append_eq_of_le (by decide)]
    exact BitVec.extractLsb'_append_eq_right
  · rw [BitVec.extractLsb'_append_eq_of_le (by decide),
      BitVec.extractLsb'_append_eq_of_le (by decide)]
    exact BitVec.extractLsb'_append_eq_right
  · rw [BitVec.extractLsb'_append_eq_of_le (by decide),
      BitVec.extractLsb'_append_eq_of_le (by decide)]
    exact BitVec.extractLsb'_append_eq_left

theorem pack_bytes (x : BitVec 32) : pack (byte x 0) (byte x 1) (byte x 2) (byte x 3) = x := by
  unfold pack byte
  rw [BitVec.extractLsb'_append_extractLsb'_eq_extractLsb' (by decide),
    BitVec.extractLsb'_append_extractLsb'_eq_extractLsb' (by decide),
    BitVec.extractLsb'_append_extractLsb'_eq_extractLsb' (by decide)]
  exact BitVec.extractLsb'_eq_self

/-! ### The name in the registers -/

theorem vendor_registers (id : Identity) : id.registers.vendor = id.name := by
  obtain ⟨h0, h1, h2, h3⟩ := bytes_pack id.name[0] id.name[1] id.name[2] id.name[3]
  obtain ⟨h4, h5, h6, h7⟩ := bytes_pack id.name[4] id.name[5] id.name[6] id.name[7]
  obtain ⟨h8, h9, h10, h11⟩ := bytes_pack id.name[8] id.name[9] id.name[10] id.name[11]
  simp only [Registers.vendor, Identity.registers, h0, h1, h2, h3, h4, h5, h6, h7, h8, h9, h10,
    h11]
  ext i hi
  interval_cases i <;> rfl

theorem registers_vendor (r : Registers) : Identity.registers ⟨r.eax, r.vendor⟩ = r := by
  simp [Identity.registers, Registers.vendor, pack_bytes]

/-- The registers that hold the name: EBX, ECX and EDX. -/
def Registers.nameWords (r : Registers) : BitVec 32 × BitVec 32 × BitVec 32 :=
  (r.ebx, r.ecx, r.edx)

theorem vendor_eq_iff (r : Registers) (name : Name) :
    r.vendor = name ↔ r.nameWords = (Identity.registers ⟨r.eax, name⟩).nameWords := by
  constructor
  · rintro rfl
    rw [registers_vendor]
  · intro h
    have hr : r = Identity.registers ⟨r.eax, name⟩ := by
      simp only [Registers.nameWords, Prod.mk.injEq] at h
      obtain ⟨hebx, hecx, hedx⟩ := h
      cases r
      simp_all [Identity.registers]
    rw [hr, vendor_registers]

theorem Registers.isAmd_iff (r : Registers) : r.isAmd = true ↔ r.vendor = amd := beq_iff_eq

theorem Registers.isIntel_iff (r : Registers) : r.isIntel = true ↔ r.vendor = intel := beq_iff_eq

theorem Identity.isAmd_iff (id : Identity) : id.registers.isAmd = true ↔ id.name = amd := by
  rw [Registers.isAmd_iff, vendor_registers]

theorem Identity.isIntel_iff (id : Identity) :
    id.registers.isIntel = true ↔ id.name = intel := by
  rw [Registers.isIntel_iff, vendor_registers]

theorem nameWords_amd (maxLeaf : BitVec 32) :
    (Identity.registers ⟨maxLeaf, amd⟩).nameWords = (0x68747541, 0x444d4163, 0x69746e65) := by
  simp [Registers.nameWords, Identity.registers, amd, ascii, pack]

theorem nameWords_intel (maxLeaf : BitVec 32) :
    (Identity.registers ⟨maxLeaf, intel⟩).nameWords = (0x756e6547, 0x6c65746e, 0x49656e69) := by
  simp [Registers.nameWords, Identity.registers, intel, ascii, pack]

theorem Registers.isAmd_iff_nameWords (r : Registers) :
    r.isAmd = true ↔ r.nameWords = (0x68747541, 0x444d4163, 0x69746e65) := by
  rw [r.isAmd_iff, vendor_eq_iff, nameWords_amd]

theorem Registers.isIntel_iff_nameWords (r : Registers) :
    r.isIntel = true ↔ r.nameWords = (0x756e6547, 0x6c65746e, 0x49656e69) := by
  rw [r.isIntel_iff, vendor_eq_iff, nameWords_intel]

/-! ### Main result -/

/-- Nothing is lost between leaf 0 and its registers, and the checks of the vendor read the stored
name. -/
structure LosslessLeaf : Prop where
  unpacked : ∀ id : Identity, id.registers.vendor = id.name ∧ id.registers.eax = id.maxLeaf
  packed : ∀ r : Registers, Identity.registers ⟨r.eax, r.vendor⟩ = r
  isAmd : ∀ id : Identity, id.registers.isAmd = true ↔ id.name = amd
  isIntel : ∀ id : Identity, id.registers.isIntel = true ↔ id.name = intel
  exclusive : ∀ r : Registers, ¬ (r.isAmd = true ∧ r.isIntel = true)
  amdWords : ∀ r : Registers, r.isAmd = true ↔ r.nameWords = (0x68747541, 0x444d4163, 0x69746e65)
  intelWords : ∀ r : Registers,
    r.isIntel = true ↔ r.nameWords = (0x756e6547, 0x6c65746e, 0x49656e69)

theorem leaf_zero_lossless : LosslessLeaf where
  unpacked id := ⟨vendor_registers id, rfl⟩
  packed := registers_vendor
  isAmd := Identity.isAmd_iff
  isIntel := Identity.isIntel_iff
  exclusive r := by
    rw [r.isAmd_iff_nameWords, r.isIntel_iff_nameWords]
    rintro ⟨hamd, hintel⟩
    rw [hamd] at hintel
    exact absurd hintel (by decide)
  amdWords := Registers.isAmd_iff_nameWords
  intelWords := Registers.isIntel_iff_nameWords

end Interlock.Cpuid
