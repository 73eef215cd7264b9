import Interlock.Vcpu.Snapshot
import Interlock.Word.Call

/-!
# Sets of virtual CPUs

A `VcpuSet` is one bit for each virtual CPU in a 32-bit word. Every operation on it is one
operation on the word, whose answer is then read in terms of the set; inserting and removing look
at the bit of the id alone. Where an operation needs a valid id, another id is refused and nothing
is done.
-/

namespace Interlock

/-- What may be asked of a set. -/
inductive SetOp where
  /-- Answers whether the id was absent. -/
  | insert (id : VcpuId)
  /-- Answers whether the id was present. -/
  | remove (id : VcpuId)
  | contains (id : VcpuId)
  | isEmpty
  | len
  /-- Empties the set and answers what it held. -/
  | take
  | snapshot
  deriving DecidableEq, Repr

/-- What a set answers. -/
inductive SetAnswer where
  | yes (b : Bool)
  | count (n : Nat)
  | members (s : Snapshot)
  deriving DecidableEq, Repr

namespace SetOp

/-- The operation on the word that carries out an operation on the set. -/
def wordOp : SetOp → Except OutOfRange (Op 32)
  | insert id => .fetchOr <$> id.bit?
  | remove id => (fun b => .fetchAnd (~~~b)) <$> id.bit?
  | contains id => (fun _ => .read) <$> id.bit?
  | isEmpty | len | snapshot => .ok .read
  | take => .ok (.exchange 0)

/-- What the word operation's answer, the contents before it, says of the set. -/
def answer : SetOp → BitVec 32 → SetAnswer
  | insert id, x => .yes (x &&& id.bit = 0)
  | remove id, x => .yes (x &&& id.bit ≠ 0)
  | contains id, x => .yes (x &&& id.bit ≠ 0)
  | isEmpty, x => .yes (x = 0)
  | len, x => .count (Snapshot.len ⟨x⟩)
  | take, x | snapshot, x => .members ⟨x⟩

end SetOp

/-- A set of virtual CPUs. -/
structure VcpuSet where
  bits : BitVec 32 := 0
  deriving DecidableEq, Repr

namespace VcpuSet

/-- The word with the bits of all valid ids. -/
def allBits : BitVec 32 := BitVec.twoPow 32 maxVcpus - 1

/-- The set of the valid ids whose bits are given. -/
def ofBits (bits : BitVec 32) : VcpuSet := ⟨bits &&& allBits⟩

/-- Carries out an operation. -/
def perform (s : VcpuSet) (op : SetOp) : Except OutOfRange (SetAnswer × VcpuSet) := do
  let e := (← op.wordOp).run { contents := s.bits }
  return (op.answer (e.answer.value?.getD 0), ⟨e.cell.contents⟩)

/-- Carries out operations one after the other; one that is refused changes nothing. -/
def performAll : List SetOp → VcpuSet → List (Except OutOfRange SetAnswer) × VcpuSet
  | [], s => ([], s)
  | op :: rest, s =>
    match s.perform op with
    | .ok (a, t) =>
      let (as, u) := performAll rest t
      (.ok a :: as, u)
    | .error e =>
      let (as, u) := performAll rest s
      (.error e :: as, u)

/-- The set's word at this moment. -/
def snapshot (s : VcpuSet) : Snapshot := ⟨s.bits⟩

/-- The text of a set: its members. -/
def shown (s : VcpuSet) : Shown := .set (s.snapshot.toList.map VcpuId.shown)

end VcpuSet

end Interlock
