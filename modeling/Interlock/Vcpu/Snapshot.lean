import Interlock.Vcpu.Id

/-!
# Snapshots of sets of virtual CPUs

A `Snapshot` is the word of a set at one moment. Its members are listed in ascending order: the
next one is the position of the lowest bit, which subtracting one and taking the common bits clears.
-/

namespace Interlock

/-- The word of a set at one moment. -/
structure Snapshot where
  bits : BitVec 32
  deriving DecidableEq, Repr

namespace Snapshot

/-- Whether an id is valid and its bit is set. -/
def contains (s : Snapshot) (id : VcpuId) : Bool := id.isValid && s.bits &&& id.bit != 0

/-- How many bits are set: how many members are still to come. -/
def len (s : Snapshot) : Nat := s.bits.cpop.toNat

/-- Bounds on how many members are still to come; both are exact. -/
def sizeHint (s : Snapshot) : Nat × Option Nat := (s.len, some s.len)

/-- A word without its lowest set bit. -/
def clearLowest (x : BitVec 32) : BitVec 32 := x &&& (x - 1)

/-- The lowest member and the snapshot without it, unless the snapshot is empty. -/
def next (s : Snapshot) : Option (VcpuId × Snapshot) :=
  if s.bits = 0 then none else some (⟨s.bits.ctz⟩, ⟨clearLowest s.bits⟩)

theorem toNat_pred {x : BitVec 32} (h : x ≠ 0) : (x - 1).toNat = x.toNat - 1 := by
  have hx : x.toNat ≠ 0 := fun h0 => h (BitVec.eq_of_toNat_eq (by simpa using h0))
  have hlt := x.isLt
  rw [BitVec.toNat_sub]
  simp only [BitVec.reduceToNat]
  omega

theorem toNat_clearLowest_lt {x : BitVec 32} (h : x ≠ 0) : (clearLowest x).toNat < x.toNat := by
  have hx : x.toNat ≠ 0 := fun h0 => h (BitVec.eq_of_toNat_eq (by simpa using h0))
  have hle : (clearLowest x).toNat ≤ (x - 1).toNat := by
    simp only [clearLowest, BitVec.toNat_and]
    exact Nat.and_le_right
  rw [toNat_pred h] at hle
  omega

theorem toNat_lt_of_next {s t : Snapshot} {id : VcpuId} (h : s.next = some (id, t)) :
    t.bits.toNat < s.bits.toNat := by
  unfold next at h
  split at h
  · cases h
  · next hne =>
    cases h
    exact toNat_clearLowest_lt hne

/-- The members in ascending order. -/
def toList (s : Snapshot) : List VcpuId :=
  match _h : s.next with
  | none => []
  | some (id, rest) => id :: rest.toList
termination_by s.bits.toNat
decreasing_by exact toNat_lt_of_next (by assumption)

/-- The snapshots that listing passes through, each with the member that comes next, up to the
empty one. -/
def walk (s : Snapshot) : List (Snapshot × Option VcpuId) :=
  match _h : s.next with
  | none => [(s, none)]
  | some (id, rest) => (s, some id) :: rest.walk
termination_by s.bits.toNat
decreasing_by exact toNat_lt_of_next (by assumption)

/-- The text of a snapshot as a value. -/
def shown (s : Snapshot) : Shown := .tuple "Vcpus" [.plain (toString s.bits.toNat)]

end Snapshot

end Interlock
