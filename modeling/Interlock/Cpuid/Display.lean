import Interlock.Cpuid.Topology
import Interlock.Text.Shown

/-!
# The text of captured leaves
-/

namespace Interlock.Cpuid

/-- A number of any width, in decimal. -/
def shownNumber {w : Nat} (label : String) (x : BitVec w) : Shown :=
  .labelled label (.plain (toString x.toNat))

/-- The text of a leaf's registers. -/
def Registers.shown (r : Registers) : Shown :=
  .record "CpuidRegs"
    [shownNumber "eax" r.eax, shownNumber "ebx" r.ebx, shownNumber "ecx" r.ecx,
      shownNumber "edx" r.edx]

/-- The text of a vendor name: its bytes in decimal. -/
def shownName (name : Name) : Shown :=
  .list (name.toList.map fun b => .plain (toString b.toNat))

/-- The text of a summary, leaf by leaf. -/
def Summary.shown (s : Summary) : Shown :=
  .record "CpuidSummary"
    [.labelled "id0" (.record "Cpuid0"
      [shownNumber "num_entries" s.identity.maxLeaf, .labelled "name" (shownName s.identity.name)]),
    .labelled "id1" (.record "Cpuid1"
      [shownNumber "version" s.features.version, shownNumber "ebx" s.features.ebx,
        shownNumber "ecx_features" s.features.ecx, shownNumber "edx_features" s.features.edx]),
    .labelled "id4" s.cache.shown,
    .labelled "ida" s.monitoring.shown,
    .labelled "id80" (.record "Cpuid80"
      [shownNumber "num_entries" s.extended.maxLeaf, shownNumber "ebx" s.extended.ebx,
        shownNumber "ecx" s.extended.ecx, shownNumber "edx" s.extended.edx]),
    .labelled "id81" (.record "Cpuid81"
      [shownNumber "eax" s.extendedFeatures.eax, shownNumber "ebx" s.extendedFeatures.ebx,
        shownNumber "ecx_features" s.extendedFeatures.ecx,
        shownNumber "edx_features" s.extendedFeatures.edx]),
    .labelled "id88" s.addressSizes.shown,
    .labelled "id8a" s.virtualization.shown]

/-- The text of a topology. -/
def Topology.shown (t : Topology) : Shown :=
  .record "PackageTopology"
    [.labelled "cores_per_package" (.plain (toString t.cores)),
      .labelled "threads_per_core" (.plain (toString t.threads))]

end Interlock.Cpuid
