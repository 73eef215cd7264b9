import Interlock.Cpuid.Topology
import Interlock.Proofs.Cpuid.Vendor

/-!
# The topology of a package can be relied on

Whatever the leaves of a summary hold, there is at least one core and one thread, and their numbers
are small. Computed in words of 32 bits, with a fault for a sum that does not fit and for a divisor
of zero, each topology is the same and no fault arises. A leaf that the processor says it does not
have, and one that no rule consults, changes nothing.
-/

namespace Interlock.Cpuid

/-! ### Arithmetic on words that can fail -/

/-- What can go wrong in arithmetic on words. -/
inductive Fault where
  | overflow
  | zeroDivisor

/-- The sum of two words, if it fits in one. -/
def checkedAdd (x y : BitVec 32) : Except Fault (BitVec 32) :=
  if x.uaddOverflow y then .error .overflow else .ok (x + y)

/-- The quotient of two words, if the divisor is not zero. -/
def checkedDiv (x y : BitVec 32) : Except Fault (BitVec 32) :=
  if y = 0 then .error .zeroDivisor else .ok (x / y)

theorem checkedAdd_of_lt {x y : BitVec 32} (h : x.toNat + y.toNat < 2 ^ 32) :
    checkedAdd x y = .ok (x + y) ∧ (x + y).toNat = x.toNat + y.toNat := by
  have hfits : ¬ x.uaddOverflow y = true := by
    simp only [BitVec.uaddOverflow, decide_eq_true_eq]
    omega
  exact ⟨if_neg hfits, BitVec.toNat_add_of_lt h⟩

theorem checkedDiv_of_pos {x y : BitVec 32} (h : 0 < y.toNat) :
    checkedDiv x y = .ok (x / y) ∧ (x / y).toNat = x.toNat / y.toNat := by
  have hy : ¬ y = 0 := by
    rintro rfl
    exact absurd h (by decide)
  exact ⟨if_neg hy, BitVec.toNat_udiv⟩

theorem toNat_and_le (x mask : BitVec 32) : (x &&& mask).toNat ≤ mask.toNat := by
  rw [BitVec.toNat_and]
  exact Nat.and_le_right

/-! ### The topology in words -/

/-- Cores in a package and threads on a core, each in a word. -/
structure TopologyWords where
  cores : BitVec 32 := 1
  threads : BitVec 32 := 1

def TopologyWords.topology (t : TopologyWords) : Topology where
  cores := t.cores.toNat
  threads := t.threads.toNat

/-- A word, or one in the place of zero. -/
def atLeastOne (x : BitVec 32) : BitVec 32 := if x < 1 then 1 else x

/-- Base family plus extended family. -/
def familyWord (version : BitVec 32) : Except Fault (BitVec 32) :=
  checkedAdd ((version >>> 8) &&& 0xf) ((version >>> 20) &&& 0xff)

namespace Summary

def amdWords (s : Summary) : Except Fault TopologyWords := do
  let family ← familyWord s.features.version
  if [0xf, 0x10, 0x11].contains family && s.extended.maxLeaf ≥ 0x80000008#32 then
    let cores ← checkedAdd (s.addressSizes.ecx &&& 0xff) 1
    return { cores }
  else return {}

def logicalWord (s : Summary) : BitVec 32 := atLeastOne ((s.features.ebx >>> 16) &&& 0xff)

def intelWords (s : Summary) : Except Fault TopologyWords :=
  if s.features.edx &&& multipleLogical = 0 then return {}
  else if s.identity.maxLeaf < 4#32 then return { threads := s.logicalWord }
  else do
    let cores ← checkedAdd ((s.cache.eax >>> 26) &&& 0x3f) 1
    let threads ← checkedDiv s.logicalWord cores
    return { cores, threads := atLeastOne threads }

def topologyWords (s : Summary) : Except Fault TopologyWords :=
  if s.isAmd then s.amdWords else if s.isIntel then s.intelWords else return {}

end Summary

theorem toNat_atLeastOne (x : BitVec 32) : (atLeastOne x).toNat = max x.toNat 1 := by
  have hiff : x < 1 ↔ x.toNat < 1 := BitVec.lt_def
  unfold atLeastOne
  split
  · next h =>
    have hx := hiff.mp h
    simp only [BitVec.reduceToNat]
    omega
  · next h =>
    have hx : ¬ x.toNat < 1 := fun hlt => h (hiff.mpr hlt)
    omega

theorem familyWord_eq (version : BitVec 32) :
    ∃ f, familyWord version = .ok f ∧ f.toNat = family version := by
  have hbase := toNat_and_le (version >>> 8) 0xf
  have hextended := toNat_and_le (version >>> 20) 0xff
  simp only [BitVec.reduceToNat] at hbase hextended
  obtain ⟨hok, hsum⟩ := checkedAdd_of_lt (x := (version >>> 8) &&& 0xf)
    (y := (version >>> 20) &&& 0xff) (by omega)
  exact ⟨_, hok, hsum⟩

/-- A count that is kept less one, in a few bits, has a successor in a word. -/
theorem checkedAdd_masked (x mask : BitVec 32) (h : mask.toNat ≤ 255) :
    checkedAdd (x &&& mask) 1 = .ok ((x &&& mask) + 1) ∧
      ((x &&& mask) + 1).toNat = (x &&& mask).toNat + 1 := by
  have hle := toNat_and_le x mask
  apply checkedAdd_of_lt
  simp only [BitVec.reduceToNat]
  omega

theorem isK8Derived_eq {version f : BitVec 32} (h : f.toNat = family version) :
    [0xf, 0x10, 0x11].contains f = isK8Derived version := by
  unfold isK8Derived
  rw [← h, Bool.eq_iff_iff]
  simp only [familyFifteen, List.contains_eq_mem, List.mem_cons, List.not_mem_nil, or_false,
    decide_eq_true_eq, ← BitVec.toNat_inj, BitVec.reduceToNat]

namespace Summary

theorem amdWords_eq (s : Summary) :
    s.amdWords.map TopologyWords.topology = .ok s.amdTopology := by
  obtain ⟨f, hf, hfamily⟩ := familyWord_eq s.features.version
  obtain ⟨hcores, htoNat⟩ := checkedAdd_masked s.addressSizes.ecx 0xff (by decide)
  simp only [amdWords, amdTopology, hf, hcores, isK8Derived_eq hfamily, bind, Except.bind]
  split
  · simp only [pure, Except.pure, Except.map, TopologyWords.topology, htoNat]
    rfl
  · rfl

theorem toNat_logicalWord (s : Summary) : s.logicalWord.toNat = s.logical :=
  toNat_atLeastOne _

theorem intelWords_eq (s : Summary) :
    s.intelWords.map TopologyWords.topology = .ok s.intelTopology := by
  obtain ⟨hcores, htoNat⟩ := checkedAdd_masked (s.cache.eax >>> 26) 0x3f (by decide)
  obtain ⟨hthreads, hquotient⟩ := checkedDiv_of_pos (x := s.logicalWord)
    (y := ((s.cache.eax >>> 26) &&& 0x3f) + 1) (by omega)
  simp only [intelWords, intelTopology, hcores, hthreads, bind, Except.bind]
  split
  · rfl
  split
  · simp only [pure, Except.pure, Except.map, TopologyWords.topology, toNat_logicalWord]
    rfl
  · simp only [pure, Except.pure, Except.map, TopologyWords.topology, toNat_atLeastOne, hquotient,
      htoNat, toNat_logicalWord]

theorem topologyWords_eq (s : Summary) :
    s.topologyWords.map TopologyWords.topology = .ok s.topology := by
  unfold topologyWords topology
  split
  · exact s.amdWords_eq
  split
  · exact s.intelWords_eq
  · rfl

end Summary

/-! ### Bounds -/

/-- At least one core and one thread, and no more than so many. -/
def Topology.Within (t : Topology) (cores threads : Nat) : Prop :=
  1 ≤ t.cores ∧ t.cores ≤ cores ∧ 1 ≤ t.threads ∧ t.threads ≤ threads

theorem Topology.Within.mono {t : Topology} {cores threads cores' threads' : Nat}
    (h : t.Within cores threads) (hc : cores ≤ cores') (ht : threads ≤ threads') :
    t.Within cores' threads' := by
  unfold Within at h ⊢
  omega

namespace Summary

theorem logical_le (s : Summary) : 1 ≤ s.logical ∧ s.logical ≤ 255 := by
  have hle := toNat_and_le (s.features.ebx >>> 16) 0xff
  simp only [BitVec.reduceToNat] at hle
  unfold logical
  omega

theorem logical_eq (s : Summary) :
    s.logical = max 1 (s.features.ebx.extractLsb' 16 8).toNat := by
  have hmask : (0xff : BitVec 32).toNat = 2 ^ 8 - 1 := rfl
  rw [logical, BitVec.toNat_and, BitVec.toNat_ushiftRight, hmask, Nat.and_two_pow_sub_one_eq_mod,
    BitVec.extractLsb'_toNat, max_comm]

theorem within_amdTopology (s : Summary) : s.amdTopology.Within 256 1 := by
  have hle := toNat_and_le s.addressSizes.ecx 0xff
  simp only [BitVec.reduceToNat] at hle
  unfold amdTopology Topology.Within
  split
  · dsimp only
    omega
  · decide

theorem within_intelTopology (s : Summary) : s.intelTopology.Within 64 255 := by
  have hle := toNat_and_le (s.cache.eax >>> 26) 0x3f
  simp only [BitVec.reduceToNat] at hle
  have hlogical := s.logical_le
  unfold intelTopology Topology.Within
  split
  · decide
  split
  · dsimp only
    omega
  · have hquotient := Nat.div_le_self s.logical (((s.cache.eax >>> 26) &&& 0x3f).toNat + 1)
    dsimp only
    omega

theorem within_topology (s : Summary) : s.topology.Within 256 255 := by
  unfold topology
  split
  · exact s.within_amdTopology.mono le_rfl (by decide)
  split
  · exact s.within_intelTopology.mono (by decide) le_rfl
  · unfold Topology.Within
    decide

theorem edx_and_multipleLogical (s : Summary) :
    s.features.edx &&& multipleLogical = 0 ↔ s.features.edx.getLsbD 28 = false := by
  have hbit : multipleLogical = BitVec.twoPow 32 28 := by decide
  rw [hbit, BitVec.and_twoPow]
  cases s.features.edx.getLsbD 28 <;> decide

/-- The logical processors of a package, shared out among its cores. -/
theorem logical_divided (s : Summary) (hmultiple : s.features.edx.getLsbD 28 = true)
    (hleaf : 4#32 ≤ s.identity.maxLeaf) :
    s.intelTopology.cores * s.intelTopology.threads ≤ max s.logical s.intelTopology.cores ∧
      s.logical < s.intelTopology.cores * (s.intelTopology.threads + 1) := by
  have hedx : ¬ s.features.edx &&& multipleLogical = 0 := by
    rw [edx_and_multipleLogical, hmultiple]
    decide
  have hmax : ¬ s.identity.maxLeaf < 4#32 := by
    rw [BitVec.not_lt]
    exact hleaf
  rw [intelTopology, if_neg hedx, if_neg hmax]
  dsimp only
  generalize ((s.cache.eax >>> 26) &&& 0x3f).toNat = n
  have hmul := Nat.mul_div_le s.logical (n + 1)
  have hlt := Nat.lt_mul_div_succ s.logical (Nat.succ_pos n)
  -- A package with more cores than logical processors has one thread on each.
  rcases Nat.eq_zero_or_pos (s.logical / (n + 1)) with hzero | hpos
  · rw [hzero] at hlt ⊢
    simp only [Nat.zero_max]
    omega
  · rw [max_eq_left hpos]
    exact ⟨le_max_of_le_left hmul, hlt⟩

end Summary

/-! ### Leaves that are not there -/

namespace Summary

/-- Two summaries agree on the leaves that a rule may consult, as far as the processor has them;
the leaves 0xa, 0x80000001 and 0x8000000a are free. -/
structure AgreeOnAvailable (s t : Summary) : Prop where
  identity : s.identity = t.identity
  features : s.features = t.features
  extended : s.extended = t.extended
  cache : 4#32 ≤ s.identity.maxLeaf → s.cache = t.cache
  addressSizes : 0x80000008#32 ≤ s.extended.maxLeaf → s.addressSizes = t.addressSizes

/-- The topologies by the rule of each vendor, and by the rule of the processor's own. -/
def topologies (s : Summary) : Topology × Topology × Topology :=
  (s.amdTopology, s.intelTopology, s.topology)

theorem AgreeOnAvailable.amdTopology_eq {s t : Summary} (h : AgreeOnAvailable s t) :
    s.amdTopology = t.amdTopology := by
  unfold amdTopology
  rw [← h.features, ← h.extended]
  by_cases hleaf : 0x80000008#32 ≤ s.extended.maxLeaf
  · rw [h.addressSizes hleaf]
  · simp [hleaf]

theorem AgreeOnAvailable.intelTopology_eq {s t : Summary} (h : AgreeOnAvailable s t) :
    s.intelTopology = t.intelTopology := by
  unfold intelTopology logical
  rw [← h.features, ← h.identity]
  by_cases hleaf : 4#32 ≤ s.identity.maxLeaf
  · rw [h.cache hleaf]
  · rw [BitVec.not_le] at hleaf
    simp only [hleaf, if_true]

theorem AgreeOnAvailable.topologies_eq {s t : Summary} (h : AgreeOnAvailable s t) :
    s.topologies = t.topologies := by
  unfold topologies topology isAmd isIntel
  rw [h.amdTopology_eq, h.intelTopology_eq, h.identity]

theorem topology_of_other_vendor {s : Summary} (hamd : s.identity.name ≠ amd)
    (hintel : s.identity.name ≠ intel) : s.topology = { cores := 1, threads := 1 } := by
  have hnotAmd : ¬ s.isAmd = true := fun h => hamd (s.identity.isAmd_iff.mp h)
  have hnotIntel : ¬ s.isIntel = true := fun h => hintel (s.identity.isIntel_iff.mp h)
  rw [topology, if_neg hnotAmd, if_neg hnotIntel]

end Summary

/-! ### Main result -/

/-- What the topologies of a summary come to. -/
structure Reliable (s : Summary) : Prop where
  /-- In words of 32 bits no sum overflows, no divisor is zero, and the numbers are the same. -/
  amdWords : s.amdWords.map TopologyWords.topology = .ok s.amdTopology
  intelWords : s.intelWords.map TopologyWords.topology = .ok s.intelTopology
  words : s.topologyWords.map TopologyWords.topology = .ok s.topology
  withinAmd : s.amdTopology.Within 256 1
  withinIntel : s.intelTopology.Within 64 255
  within : s.topology.Within 256 255
  divided : s.features.edx.getLsbD 28 = true → 4#32 ≤ s.identity.maxLeaf →
    let logical := max 1 (s.features.ebx.extractLsb' 16 8).toNat
    let t := s.intelTopology
    t.cores * t.threads ≤ max logical t.cores ∧ logical < t.cores * (t.threads + 1)
  unavailable : ∀ t, s.AgreeOnAvailable t → s.topologies = t.topologies
  otherVendor : s.identity.name ≠ amd → s.identity.name ≠ intel →
    s.topology = { cores := 1, threads := 1 }

theorem topology_reliable (s : Summary) : Reliable s where
  amdWords := s.amdWords_eq
  intelWords := s.intelWords_eq
  words := s.topologyWords_eq
  withinAmd := s.within_amdTopology
  withinIntel := s.within_intelTopology
  within := s.within_topology
  divided hmultiple hleaf := by
    rw [← s.logical_eq]
    exact s.logical_divided hmultiple hleaf
  unavailable _ h := h.topologies_eq
  otherVendor := Summary.topology_of_other_vendor

def sixCores : Summary where
  identity := { maxLeaf := 0xb, name := intel }
  features := { ebx := 20 <<< 16, edx := multipleLogical }
  cache := { eax := 5 <<< 26 }

/-- Twenty logical processors on six cores make three threads on each and leave two over. The leaf
of address sizes is none of theirs. -/
theorem topology_reliable_six_cores :
    sixCores.intelTopology = { cores := 6, threads := 3 } ∧
      6 * 3 ≤ max 20 6 ∧ 20 < 6 * (3 + 1) ∧
      sixCores.topologies = { sixCores with addressSizes := { ecx := 0xff } }.topologies := by
  have htopology : sixCores.intelTopology = { cores := 6, threads := 3 } := by decide
  have hreliable := topology_reliable sixCores
  have hdivided := hreliable.divided (by decide) (by decide)
  rw [htopology] at hdivided
  refine ⟨htopology, hdivided.1, hdivided.2, hreliable.unavailable _ ?_⟩
  exact ⟨rfl, rfl, rfl, fun _ => rfl, fun hleaf => absurd hleaf (by decide)⟩

end Interlock.Cpuid
