import Interlock.Cpuid.Leaf

/-!
# The vendor

Leaf 0 spreads the twelve bytes of the vendor name over EBX, EDX and ECX, in that order, the first
byte of each register lowest. `Identity.registers` packs a name, `Registers.vendor` reads it back.
-/

namespace Interlock.Cpuid

/-- The word whose bytes are given, the lowest first. -/
def pack (b0 b1 b2 b3 : BitVec 8) : BitVec 32 := b3 ++ b2 ++ b1 ++ b0

/-- Byte `i` of a word, counted from the lowest. -/
def byte (x : BitVec 32) (i : Nat) : BitVec 8 := x.extractLsb' (8 * i) 8

/-- The registers of leaf 0. -/
def Identity.registers (id : Identity) : Registers where
  eax := id.maxLeaf
  ebx := pack id.name[0] id.name[1] id.name[2] id.name[3]
  edx := pack id.name[4] id.name[5] id.name[6] id.name[7]
  ecx := pack id.name[8] id.name[9] id.name[10] id.name[11]

/-- The vendor name in the registers of leaf 0. -/
def Registers.vendor (r : Registers) : Name :=
  #v[byte r.ebx 0, byte r.ebx 1, byte r.ebx 2, byte r.ebx 3,
    byte r.edx 0, byte r.edx 1, byte r.edx 2, byte r.edx 3,
    byte r.ecx 0, byte r.ecx 1, byte r.ecx 2, byte r.ecx 3]

/-- The bytes of an ASCII name. -/
def ascii (name : Vector Char 12) : Name := name.map fun c => BitVec.ofNat 8 c.toNat

/-- The name AuthenticAMD. -/
def amd : Name := ascii #v['A', 'u', 't', 'h', 'e', 'n', 't', 'i', 'c', 'A', 'M', 'D']

/-- The name GenuineIntel. -/
def intel : Name := ascii #v['G', 'e', 'n', 'u', 'i', 'n', 'e', 'I', 'n', 't', 'e', 'l']

/-- Whether the registers of leaf 0 name AMD. -/
def Registers.isAmd (r : Registers) : Bool := r.vendor == amd

/-- Whether the registers of leaf 0 name Intel. -/
def Registers.isIntel (r : Registers) : Bool := r.vendor == intel

/-- Whether a processor is by AMD. -/
def Summary.isAmd (s : Summary) : Bool := s.identity.registers.isAmd

/-- Whether a processor is by Intel. -/
def Summary.isIntel (s : Summary) : Bool := s.identity.registers.isIntel

end Interlock.Cpuid
