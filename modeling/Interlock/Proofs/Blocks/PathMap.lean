import Interlock.Blocks.Control
import Interlock.Blocks.Registry
import Mathlib.Data.Set.Card

/-!
# A registry as a map of paths to owners

`PathMap` is what a registry stands for: which blocker owns which path. Its operations say in one
place what is checked and in which order, and what becomes of the map. A registry is well-formed
if it has no path twice and only paths that can be blocked; it then stands for the map `owner?`,
and its operations do to that map what the operations of `PathMap` say.
-/

namespace Interlock.Blocks

/-- The owners of the blocked paths. -/
abbrev PathMap := String → Option Blocker

namespace PathMap

/-- The map without blocked paths. -/
def empty : PathMap := fun _ => none

/-- Refuses the empty path, and paths of 4096 bytes or more in UTF-8. -/
def check (path : String) : Except Refusal Unit :=
  if path = "" then .error .emptyPath
  else if 4096 ≤ path.toUTF8.size then .error (.nameTooLong path.toUTF8.size)
  else .ok ()

/-- The map with a path given to a blocker. -/
def insert (m : PathMap) (path : String) (blocker : Blocker) : PathMap :=
  Function.update m path (some blocker)

/-- The map without a path. -/
def erase (m : PathMap) (path : String) : PathMap := Function.update m path none

/-- The map without the paths of a blocker. -/
def removeAll (m : PathMap) (blocker : Blocker) : PathMap := fun path =>
  if m path = some blocker then none else m path

/-- How many paths a blocker owns. -/
noncomputable def count (m : PathMap) (blocker : Blocker) : Nat :=
  {path | m path = some blocker}.ncard

/-- Gives a free path to a blocker. -/
def add (m : PathMap) (path : String) (blocker : Blocker) : Except Refusal PathMap := do
  check path
  if m path = none then .ok (m.insert path blocker) else .error (.alreadyBlocked path)

/-- Frees a path in its owner's name. -/
def delete (m : PathMap) (path : String) (blocker : Blocker) : Except Refusal PathMap := do
  check path
  match m path with
  | none => .error (.notBlocked path)
  | some owner => if owner = blocker then .ok (m.erase path) else .error (.notOwner path owner)

/-- A control request. Listing admits any path. -/
def control (m : PathMap) (op : ControlOp) (path : String) (blocker : Blocker) :
    Except Refusal PathMap :=
  match op with
  | .add => m.add path blocker
  | .delete => m.delete path blocker
  | .list => .ok m

/-- The operation with a number. -/
def operation (devel : Bool) (code : UInt32) : Option ControlOp :=
  if code = 98 then some .add
  else if code = 99 then some .delete
  else if devel ∧ code = 100 then some .list
  else none

/-- A control request as a number and bytes. -/
def controlRaw (devel : Bool) (m : PathMap) (code : UInt32) (bytes : ByteArray)
    (blocker : Blocker) : Except Refusal PathMap :=
  match operation devel code, String.fromUTF8? bytes with
  | none, _ => .error (.unknownOp code)
  | some _, none => .error .invalidPath
  | some op, some path => m.control op path blocker

end PathMap

theorem checkPath_eq_check (path : String) : checkPath path = PathMap.check path := by
  unfold checkPath PathMap.check
  simp only [String.isEmpty_iff]
  rfl

theorem check_eq_ok_iff {path : String} :
    PathMap.check path = .ok () ↔ path ≠ "" ∧ path.toUTF8.size < pathMax := by
  unfold PathMap.check pathMax
  by_cases hempty : path = ""
  · simp [hempty]
  · simp [hempty]

theorem operation_eq_ofCode (devel : Bool) (code : UInt32) :
    PathMap.operation devel code = ControlOp.ofCode devel code := by
  unfold PathMap.operation ControlOp.ofCode ControlOp.known
  cases devel <;> simp only [ControlOp.code, List.find?_cons, List.find?_nil, Bool.false_eq_true,
    if_true, if_false, true_and, false_and] <;> grind

namespace Registry

variable {r : Registry} {path : String} {blocker : Blocker}

theorem owner?_cons (block : String × Blocker) (blocks : List (String × Blocker)) :
    owner? ⟨block :: blocks⟩ = PathMap.insert (owner? ⟨blocks⟩) block.1 block.2 := by
  funext path
  obtain ⟨added, blocker⟩ := block
  by_cases h : path = added
  · simp [owner?, PathMap.insert, h]
  · have hne : (path == added) = false := beq_false_of_ne h
    simp [owner?, PathMap.insert, List.lookup_cons, hne, h]

/-- No path is in a registry twice, and every path in it can be blocked. -/
structure WellFormed (r : Registry) : Prop where
  nodup : (r.blocks.map Prod.fst).Nodup
  nonempty : ∀ block ∈ r.blocks, block.1 ≠ ""
  short : ∀ block ∈ r.blocks, block.1.toUTF8.size < pathMax

theorem wellFormed_empty : WellFormed {} where
  nodup := List.nodup_nil
  nonempty := nofun
  short := nofun

/-- Fewer blocks are as well-formed. -/
theorem WellFormed.filter (h : r.WellFormed) (keep : String × Blocker → Bool) :
    WellFormed ⟨r.blocks.filter keep⟩ where
  nodup := h.nodup.sublist (List.filter_sublist.map _)
  nonempty block hblock := h.nonempty block (List.mem_of_mem_filter hblock)
  short block hblock := h.short block (List.mem_of_mem_filter hblock)

theorem WellFormed.owner?_eq_some_iff (h : r.WellFormed) :
    r.owner? path = some blocker ↔ (path, blocker) ∈ r.blocks := by
  obtain ⟨blocks⟩ := r
  -- Of the invariant only the uniqueness of the paths carries the induction.
  have hnodup := h.nodup
  clear h
  induction blocks with
  | nil => simp [owner?]
  | cons block rest ih =>
    obtain ⟨hnew, hrest⟩ := List.nodup_cons.mp hnodup
    simp only [owner?_cons, PathMap.insert, Function.update_apply, List.mem_cons]
    split
    · rename_i heq
      subst heq
      have hmem : (block.1, blocker) ∉ rest := fun hin => hnew (List.mem_map.mpr ⟨_, hin, rfl⟩)
      simp [hmem, Prod.ext_iff, eq_comm]
    · rename_i hne
      have hhead : (path, blocker) ≠ block := fun heq => hne (heq ▸ rfl)
      simp [hhead, ih hrest]

theorem owner?_eq_none_iff : r.owner? path = none ↔ path ∉ r.blocks.map Prod.fst := by
  have hmem : path ∈ r.blocks.map Prod.fst ↔ ∃ block ∈ r.blocks, path = block.1 := by
    simp only [List.mem_map, eq_comm]
  rw [owner?, List.lookup_eq_none_iff, hmem]
  simp only [bne_iff_ne, ne_eq, not_exists, not_and]

theorem WellFormed.cons (h : r.WellFormed) (hpath : PathMap.check path = .ok ())
    (hfree : r.owner? path = none) : WellFormed ⟨(path, blocker) :: r.blocks⟩ := by
  obtain ⟨hne, hshort⟩ := check_eq_ok_iff.mp hpath
  constructor
  · exact List.nodup_cons.mpr ⟨owner?_eq_none_iff.mp hfree, h.nodup⟩
  · exact List.forall_mem_cons.mpr ⟨hne, h.nonempty⟩
  · exact List.forall_mem_cons.mpr ⟨hshort, h.short⟩

/-! ### The operations on the map -/

theorem owner?_filter_ne (r : Registry) (path : String) :
    owner? ⟨r.blocks.filter fun b => b.1 != path⟩ = PathMap.erase r.owner? path := by
  obtain ⟨blocks⟩ := r
  induction blocks with
  | nil => exact (Function.update_eq_self path (owner? {})).symm
  | cons block rest ih =>
    by_cases h : block.1 = path
    · rw [List.filter_cons_of_neg (by simp [h]), ih, owner?_cons, h]
      exact (Function.update_idem ..).symm
    · rw [List.filter_cons_of_pos (by simp [h]), owner?_cons, ih, owner?_cons]
      exact Function.update_comm (Ne.symm h) ..

theorem WellFormed.owner?_removeAll (h : r.WellFormed) (blocker : Blocker) :
    (r.removeAll blocker).owner? = PathMap.removeAll r.owner? blocker := by
  funext path
  have hremoved : (r.removeAll blocker).WellFormed := h.filter _
  apply Option.ext
  intro owner
  rw [hremoved.owner?_eq_some_iff]
  simp only [removeAll, PathMap.removeAll, List.mem_filter, ← h.owner?_eq_some_iff, bne_iff_ne]
  grind

/-- What a bulk removal takes off the number of blocks is the number of the blocker's paths. -/
theorem WellFormed.size_sub_removeAll (h : r.WellFormed) (blocker : Blocker) :
    r.size - (r.removeAll blocker).size = PathMap.count r.owner? blocker := by
  let mine := r.blocks.filter fun b => b.2 == blocker
  have hmine : {path | r.owner? path = some blocker} = ↑(mine.map Prod.fst).toFinset := by
    ext path
    simp [h.owner?_eq_some_iff, mine]
  have hnodup : (mine.map Prod.fst).Nodup := (h.filter _).nodup
  have hcount : PathMap.count r.owner? blocker = mine.length := by
    rw [PathMap.count, hmine, Set.ncard_coe_finset, List.toFinset_card_of_nodup hnodup,
      List.length_map]
  have hsplit := List.length_eq_length_filter_add (l := r.blocks) fun b => b.2 == blocker
  simp only [hcount, size, removeAll, mine, bne]
  omega

end Registry

end Interlock.Blocks
