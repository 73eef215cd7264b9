import Interlock.Cpuid.Vendor

/-!
# The version word

The version word holds the family as a base and an extended part to be added, and the model as two
nibbles. `encode` writes a family and a model into a word whose other bits are given. The checks on
processors that depend on vendor, family and model alone stand here too.
-/

namespace Interlock.Cpuid

/-- Base family plus extended family. -/
def family (version : BitVec 32) : Nat :=
  ((version >>> 8) &&& 0xf).toNat + ((version >>> 20) &&& 0xff).toNat

/-- Extended model in the high nibble, base model in the low one. -/
def model (version : BitVec 32) : Nat :=
  (((version >>> 4) &&& 0xf) ||| ((version >>> 12) &&& 0xf0)).toNat

/-- The version word of a family and a model. The stepping, the type and the reserved bits are
those of `rest`; the base family is as large as it can be. -/
def encode (family model : Nat) (rest : BitVec 32) : BitVec 32 :=
  let base := min family 0xf
  (rest &&& 0xf000f00f) ||| BitVec.ofNat 32 (base <<< 8)
    ||| BitVec.ofNat 32 ((family - base) <<< 20)
    ||| BitVec.ofNat 32 ((model % 16) <<< 4) ||| BitVec.ofNat 32 ((model / 16) <<< 16)

/-- The family of P6 and its successors. -/
def familyP6 : Nat := 6

/-- The family of Pentium 4, and of K8. -/
def familyFifteen : Nat := 0xf

/-- The models of family P6 that are Nehalem. -/
def nehalemModels : List Nat := [0x1a, 0x1e, 0x1f, 0x2e]

/-- The first K8 model that keeps loads behind locked accesses. -/
def orderedModel : Nat := 0x40

def isPentium4 (version : BitVec 32) : Bool := family version == familyFifteen

def isK8 (version : BitVec 32) : Bool := family version == familyFifteen

/-- K8 and the families derived from it. -/
def isK8Derived (version : BitVec 32) : Bool :=
  [familyFifteen, 0x10, 0x11].contains (family version)

def isNehalem (version : BitVec 32) : Bool :=
  family version == familyP6 && nehalemModels.contains (model version)

namespace Summary

/-- Whether the first machine-check control register may be written: on all processors by AMD, and
on Pentium 4 and Nehalem by Intel. -/
def machineCheckWritable (s : Summary) : Bool :=
  s.isAmd || (s.isIntel && (isPentium4 s.features.version || isNehalem s.features.version))

/-- Whether a fence has to follow every locked access: on K8 before the models that mended it. -/
def requiresLockFence (s : Summary) : Bool :=
  s.isAmd && isK8 s.features.version && decide (model s.features.version < orderedModel)

end Summary

end Interlock.Cpuid
