import Interlock.Text.Shown

/-!
# Virtual CPU ids

A virtual CPU has a 32-bit id. The ids below `maxVcpus` are valid; each has a bit of its own in a
32-bit word.
-/

namespace Interlock

/-- How many virtual CPUs there may be. -/
def maxVcpus : Nat := 8

/-- The id of a virtual CPU. -/
structure VcpuId where
  number : BitVec 32
  deriving DecidableEq, Repr

/-- An id that names no virtual CPU, where a valid one is needed. -/
structure OutOfRange where
  id : VcpuId
  deriving DecidableEq, Repr

/-- What is said of an id out of range. -/
def OutOfRange.message (e : OutOfRange) : String :=
  "vcpu id " ++ toString e.id.number.toNat ++ " out of range"

namespace VcpuId

/-- An id that is never valid: all ones. -/
def invalid : VcpuId := ⟨BitVec.allOnes 32⟩

/-- The id of the first virtual CPU. -/
def boot : VcpuId := ⟨0⟩

/-- Ids are ordered by their numbers. -/
instance : LE VcpuId := ⟨fun a b => a.number ≤ b.number⟩

instance (a b : VcpuId) : Decidable (a ≤ b) := inferInstanceAs (Decidable (a.number ≤ b.number))

def isBoot (id : VcpuId) : Bool := id == boot

def isValid (id : VcpuId) : Bool := decide (id.number.toNat < maxVcpus)

/-- The word with the bit of an id, and no other. -/
def bit (id : VcpuId) : BitVec 32 := BitVec.twoPow 32 id.number.toNat

/-- The bit of a valid id. -/
def bit? (id : VcpuId) : Except OutOfRange (BitVec 32) :=
  if id.isValid then .ok id.bit else .error ⟨id⟩

/-- The name of a virtual CPU. -/
def name (id : VcpuId) : String := "vcpu" ++ toString id.number.toNat

/-- The text of an id as a value. -/
def shown (id : VcpuId) : Shown := .tuple "Vcpuid" [.plain (toString id.number.toNat)]

end VcpuId

end Interlock
