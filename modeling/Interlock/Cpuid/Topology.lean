import Interlock.Cpuid.Version

/-!
# Cores and threads of a package

How many cores a package has and how many threads a core runs, by vendor. A leaf is consulted only
if the processor says that it has it.
-/

namespace Interlock.Cpuid

/-- Cores in a package and threads on a core. -/
structure Topology where
  cores : Nat := 1
  threads : Nat := 1
  deriving DecidableEq, Repr

/-- The feature bit that says that a package has several logical processors. -/
def multipleLogical : BitVec 32 := 1 <<< 28

namespace Summary

/-- AMD gives the number of cores, less one, in the leaf of address sizes. -/
def amdTopology (s : Summary) : Topology :=
  if isK8Derived s.features.version && s.extended.maxLeaf ≥ 0x80000008#32 then
    { cores := (s.addressSizes.ecx &&& 0xff).toNat + 1 }
  else {}

/-- Logical processors in a package, at least one. -/
def logical (s : Summary) : Nat := max ((s.features.ebx >>> 16) &&& 0xff).toNat 1

/-- Intel counts the logical processors of the whole package; the cores, less one, are in the leaf
of caches, and the threads of a core are what is left. -/
def intelTopology (s : Summary) : Topology :=
  if s.features.edx &&& multipleLogical = 0 then {}
  else if s.identity.maxLeaf < 4#32 then { threads := s.logical }
  else
    let cores := ((s.cache.eax >>> 26) &&& 0x3f).toNat + 1
    { cores, threads := max (s.logical / cores) 1 }

/-- The topology by the vendor's rule; one of each for other vendors. -/
def topology (s : Summary) : Topology :=
  if s.isAmd then s.amdTopology else if s.isIntel then s.intelTopology else {}

end Summary

end Interlock.Cpuid
