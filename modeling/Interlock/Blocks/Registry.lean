import Interlock.Blocks.Refusal
import Interlock.Text.Shown

/-!
# The registry of blocked paths

A registry holds the blocked paths, each with the blocker that placed the block. `owner?` is the
view through which everything else can be understood: the path's blocker, if it is blocked. `list`
gives the blocks in ascending order of the bytes of their paths, whatever their history.
-/

namespace Interlock.Blocks

/-- Blocked paths with their blockers. `add` is the only way in, and it puts no path in twice. -/
structure Registry where
  blocks : List (String × Blocker) := []
  deriving DecidableEq, Repr

/-- A path has to be shorter than this many bytes: the limit counts a byte at its end. -/
def pathMax : Nat := 4096

/-- Refuses paths that no block can have. -/
def checkPath (path : String) : Except Refusal Unit :=
  if path.isEmpty then .error .emptyPath
  else if path.utf8ByteSize ≥ pathMax then .error (.nameTooLong path.utf8ByteSize)
  else .ok ()

/-- Whether one sequence of bytes comes before another or is equal to it. -/
def bytesLE : List UInt8 → List UInt8 → Bool
  | [], _ => true
  | _ :: _, [] => false
  | a :: as, b :: bs => a < b || (a == b && bytesLE as bs)

/-- The bytes of a path. -/
def pathBytes (path : String) : List UInt8 := path.toUTF8.toList

namespace Registry

/-- The blocker of a path, if it is blocked. -/
def owner? (r : Registry) (path : String) : Option Blocker := r.blocks.lookup path

/-- Whether a path is blocked. -/
def isBlocked (r : Registry) (path : String) : Bool := (r.owner? path).isSome

/-- Places a block on a path that has none. -/
def add (r : Registry) (path : String) (blocker : Blocker) : Except Refusal Registry :=
  if r.isBlocked path then .error (.alreadyBlocked path) else .ok ⟨(path, blocker) :: r.blocks⟩

/-- Removes the block of a path. Only the blocker that placed it may. -/
def delete (r : Registry) (path : String) (blocker : Blocker) : Except Refusal Registry :=
  match r.owner? path with
  | none => .error (.notBlocked path)
  | some owner =>
    if owner = blocker then .ok ⟨r.blocks.filter fun b => b.1 != path⟩
    else .error (.notOwner path owner)

/-- The registry without the blocks of one blocker. -/
def removeAll (r : Registry) (blocker : Blocker) : Registry :=
  ⟨r.blocks.filter fun b => b.2 != blocker⟩

/-- How many paths are blocked. -/
def size (r : Registry) : Nat := r.blocks.length

theorem removeAll_eq_of_size {r : Registry} {blocker : Blocker}
    (h : r.size - (r.removeAll blocker).size = 0) : r.removeAll blocker = r := by
  have hle : (r.blocks.filter fun b => b.2 != blocker).length ≤ r.blocks.length :=
    List.length_filter_le _ _
  have heq : (r.blocks.filter fun b => b.2 != blocker).length = r.blocks.length := by
    simp only [size, removeAll] at h
    omega
  have hall := List.filter_eq_self.mpr (List.length_filter_eq_length_iff.mp heq)
  rw [removeAll, hall]

/-- The blocks in ascending order of the bytes of their paths. -/
def list (r : Registry) : List (String × Blocker) :=
  r.blocks.mergeSort fun a b => bytesLE (pathBytes a.1) (pathBytes b.1)

/-- The text of a registry: how many paths are blocked. -/
def shown (r : Registry) : Shown :=
  .record "BlockRegistry" [.labelled "blocks" (.plain (toString r.size))]

end Registry

end Interlock.Blocks
