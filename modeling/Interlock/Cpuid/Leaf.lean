/-!
# Captured identification leaves

A processor describes itself in numbered leaves of four 32-bit registers. A `Summary` holds the
leaves that were captured from one processor; leaves it does not have are zero. All checks are
functions of a summary, so they can be made anywhere.
-/

namespace Interlock.Cpuid

/-- The four registers of a leaf. -/
structure Registers where
  eax : BitVec 32 := 0
  ebx : BitVec 32 := 0
  ecx : BitVec 32 := 0
  edx : BitVec 32 := 0
  deriving DecidableEq, Repr

/-- The vendor name: twelve bytes. -/
abbrev Name : Type := Vector (BitVec 8) 12

/-- Leaf 0: the highest basic leaf and the vendor. -/
structure Identity where
  maxLeaf : BitVec 32 := 0
  name : Name := Vector.replicate 12 0
  deriving DecidableEq, Repr

/-- Leaf 1: the version word and the features. -/
structure Features where
  version : BitVec 32 := 0
  ebx : BitVec 32 := 0
  ecx : BitVec 32 := 0
  edx : BitVec 32 := 0
  deriving DecidableEq, Repr

/-- Leaf 0x80000000: the highest extended leaf. -/
structure Extended where
  maxLeaf : BitVec 32 := 0
  ebx : BitVec 32 := 0
  ecx : BitVec 32 := 0
  edx : BitVec 32 := 0
  deriving DecidableEq, Repr

/-- What was captured from one processor. -/
structure Summary where
  identity : Identity := {}
  features : Features := {}
  /-- Leaf 4, the first cache. -/
  cache : Registers := {}
  /-- Leaf 0xa. -/
  monitoring : Registers := {}
  extended : Extended := {}
  /-- Leaf 0x80000001. -/
  extendedFeatures : Registers := {}
  /-- Leaf 0x80000008. -/
  addressSizes : Registers := {}
  /-- Leaf 0x8000000a. -/
  virtualization : Registers := {}
  deriving DecidableEq, Repr

end Interlock.Cpuid
