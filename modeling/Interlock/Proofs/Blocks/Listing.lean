import Interlock.Proofs.Blocks.Ownership

/-!
# The list of blocks is a canonical form

Whatever requests led to a registry, its list has each blocked path once with its owner, in
strictly ascending order of the bytes of the paths. Only one list of the same blocks is in that
order, so two registries have the same list exactly when they have the same owners, and the order
in which the blocks were gathered does not show.
-/

namespace Interlock.Blocks

variable {r : Registry}

/-! ### The order of paths -/

theorem bytesLE_iff {as bs : List UInt8} : bytesLE as bs = true ↔ as ≤ bs := by
  induction as generalizing bs with
  | nil => simp [bytesLE]
  | cons a as ih =>
    cases bs with
    | nil => simp [bytesLE]
    | cons b bs => simp [bytesLE, List.cons_le_cons_iff, ih]

theorem toList_loop (bytes : ByteArray) (i : Nat) (before : List UInt8) :
    ByteArray.toList.loop bytes i before = before.reverse ++ bytes.data.toList.drop i := by
  induction i, before using ByteArray.toList.loop.induct bytes with
  | case1 i before hi ih =>
    have hlt : i < bytes.data.toList.length := hi
    have hget : bytes.get! i = bytes.data.toList[i] := by
      rw [Array.getElem_toList]
      exact getElem!_pos bytes.data i hi
    rw [ByteArray.toList.loop, if_pos hi, ih, List.drop_eq_getElem_cons hlt, hget]
    simp
  | case2 i before hi =>
    have hle : bytes.data.toList.length ≤ i := Nat.le_of_not_lt hi
    rw [ByteArray.toList.loop, if_neg hi, List.drop_eq_nil_of_le hle, List.append_nil]

theorem pathBytes_inj {a b : String} : pathBytes a = pathBytes b ↔ a = b := by
  constructor
  · intro h
    have hbytes : a.toUTF8.data.toList = b.toUTF8.data.toList := by
      simpa [pathBytes, ByteArray.toList, toList_loop] using h
    have hdata : a.toUTF8 = b.toUTF8 := ByteArray.ext (Array.toList_inj.mp hbytes)
    exact String.toByteArray_inj.mp hdata
  · rintro rfl
    rfl

def Before (a b : String × Blocker) : Prop := pathBytes a.1 < pathBytes b.1

theorem before_irrefl (a : String × Blocker) : ¬ Before a a := List.lt_irrefl _

theorem before_asymm {a b : String × Blocker} (h : Before a b) : ¬ Before b a := List.lt_asymm h

theorem before_of_le_of_ne {a b : String × Blocker}
    (hle : bytesLE (pathBytes a.1) (pathBytes b.1) = true) (hne : a.1 ≠ b.1) : Before a b := by
  rcases List.le_iff_lt_or_eq.mp (bytesLE_iff.mp hle) with hlt | heq
  · exact hlt
  · exact absurd (pathBytes_inj.mp heq) hne

/-! ### Lists in order -/

theorem nodup_of_ascending {blocks : List (String × Blocker)} (h : blocks.Pairwise Before) :
    blocks.Nodup := by
  refine h.imp fun {a b} hbefore heq => ?_
  rw [heq] at hbefore
  exact before_irrefl b hbefore

/-- Lists of the same blocks in ascending order are equal. -/
theorem eq_of_ascending {blocks blocks' : List (String × Blocker)} (h : blocks.Pairwise Before)
    (h' : blocks'.Pairwise Before) (hmem : ∀ block, block ∈ blocks ↔ block ∈ blocks') :
    blocks = blocks' := by
  have hperm : blocks.Perm blocks' :=
    (List.perm_ext_iff_of_nodup (nodup_of_ascending h) (nodup_of_ascending h')).mpr hmem
  have hanti : ∀ a b, a ∈ blocks → b ∈ blocks' → Before a b → Before b a → a = b :=
    fun a b _ _ hab hba => absurd hba (before_asymm hab)
  exact hperm.eq_of_pairwise hanti h h'

theorem list_perm (r : Registry) : r.list.Perm r.blocks := List.mergeSort_perm r.blocks _

theorem Registry.WellFormed.nodup_list (h : r.WellFormed) : (r.list.map Prod.fst).Nodup :=
  ((list_perm r).map Prod.fst).nodup_iff.mpr h.nodup

theorem Registry.WellFormed.ascending_list (h : r.WellFormed) : r.list.Pairwise Before := by
  have hsorted : r.list.Pairwise fun a b => bytesLE (pathBytes a.1) (pathBytes b.1) = true := by
    refine List.pairwise_mergeSort (fun a b c hab hbc => ?_) (fun a b => ?_) r.blocks
    · exact bytesLE_iff.mpr (List.le_trans (bytesLE_iff.mp hab) (bytesLE_iff.mp hbc))
    · rw [Bool.or_eq_true, bytesLE_iff, bytesLE_iff]
      exact List.le_total _ _
  have hdistinct : r.list.Pairwise fun a b => a.1 ≠ b.1 := List.pairwise_map.mp h.nodup_list
  exact hsorted.imp₂ (fun _ _ hle hne => before_of_le_of_ne hle hne) hdistinct

/-- A list has the paths of a map with their owners, ascending by the bytes of the paths. -/
structure Lists (m : PathMap) (blocks : List (String × Blocker)) : Prop where
  ascending : blocks.Pairwise Before
  mem_iff : ∀ path owner, (path, owner) ∈ blocks ↔ m path = some owner

theorem Lists.unique {m : PathMap} {blocks blocks' : List (String × Blocker)}
    (h : Lists m blocks) (h' : Lists m blocks') : blocks = blocks' :=
  eq_of_ascending h.ascending h'.ascending fun (path, owner) =>
    (h.mem_iff path owner).trans (h'.mem_iff path owner).symm

theorem Lists.map_eq {m m' : PathMap} {blocks : List (String × Blocker)} (h : Lists m blocks)
    (h' : Lists m' blocks) : m = m' := by
  funext path
  apply Option.ext
  intro owner
  rw [← h.mem_iff, ← h'.mem_iff]

theorem Registry.WellFormed.perm (h : r.WellFormed) {gathered : List (String × Blocker)}
    (hperm : gathered.Perm r.blocks) : WellFormed ⟨gathered⟩ where
  nodup := (hperm.map Prod.fst).nodup_iff.mpr h.nodup
  nonempty block hblock := h.nonempty block (hperm.mem_iff.mp hblock)
  short block hblock := h.short block (hperm.mem_iff.mp hblock)

/-- The order in which the blocks are gathered does not show in their list. -/
theorem Registry.WellFormed.lists_of_perm (h : r.WellFormed)
    {gathered : List (String × Blocker)} (hperm : gathered.Perm r.blocks) :
    Lists r.owner? (Registry.list ⟨gathered⟩) where
  ascending := (h.perm hperm).ascending_list
  mem_iff _ _ :=
    (list_perm ⟨gathered⟩).mem_iff.trans (hperm.mem_iff.trans h.owner?_eq_some_iff.symm)

theorem Registry.WellFormed.lists (h : r.WellFormed) : Lists r.owner? r.list :=
  h.lists_of_perm (.refl r.blocks)

/-! ### Main result -/

/-- What a dump of blocks leaves in the log: their number, and each of them in order. -/
def dumped (blocks : List (String × Blocker)) : List Event :=
  .counted blocks.length :: blocks.map fun (path, owner) => .listed path owner

/-- What the list of a registry is, and what the requests for it answer. -/
structure Canonical (devel : Bool) (r : Registry) : Prop where
  lists : Lists r.owner? r.list
  once : (r.list.map Prod.fst).Nodup
  only : ∀ blocks, Lists r.owner? blocks → blocks = r.list
  listing : r.handle devel .list = ({ answer := .listing r.list }, r)
  dump : ∀ path blocker, r.handle devel (.control .list path blocker) =
    ({ answer := .done, events := dumped r.list }, r)
  /-- A raw request for the list takes the bytes of any text as its path. -/
  rawDump : ∀ (path : String) blocker, r.handle true (.controlRaw 100 path.toUTF8 blocker) =
    ({ answer := .status 0, events := dumped r.list }, r)

theorem canonical (h : r.WellFormed) (devel : Bool) : Canonical devel r where
  lists := h.lists
  once := h.nodup_list
  only _ hblocks := hblocks.unique h.lists
  listing := rfl
  dump _ _ := rfl
  rawDump path blocker := by
    have hd : Decodes true 100 path.toUTF8 .list path := ⟨rfl, rfl⟩
    rw [handle_of_decodes hd]
    rfl

/-- After any requests, the list of blocks is in order and complete. The lists of two registries,
gathered in whatever order, are equal exactly when the registries have the same owners. -/
theorem list_canonical (devel devel' : Bool) (history history' : List Request) :
    let r := (Registry.handleAll devel history {}).2
    let r' := (Registry.handleAll devel' history' {}).2
    Canonical devel r ∧
      ∀ gathered gathered', gathered.Perm r.blocks → gathered'.Perm r'.blocks →
        (Registry.list ⟨gathered⟩ = Registry.list ⟨gathered'⟩ ↔ r.owner? = r'.owner?) := by
  intro r r'
  have h : r.WellFormed := wellFormed_handleAll Registry.wellFormed_empty devel history
  have h' : r'.WellFormed := wellFormed_handleAll Registry.wellFormed_empty devel' history'
  refine ⟨canonical h devel, fun gathered gathered' hperm hperm' => ?_⟩
  have hlists := h.lists_of_perm hperm
  have hlists' := h'.lists_of_perm hperm'
  constructor
  · intro heq
    rw [heq] at hlists
    exact hlists.map_eq hlists'
  · intro heq
    rw [heq] at hlists
    exact hlists.unique hlists'

/-- The order is that of the bytes: capitals come first and what is not ASCII comes last. -/
example :
    let r := (Registry.handleAll false
      [.add "/é" ⟨2⟩, .add "/za" ⟨1⟩, .add "/Z" ⟨3⟩, .add "/z" ⟨1⟩, .add "/Z" ⟨2⟩] {}).2
    r.list = [("/Z", ⟨3⟩), ("/z", ⟨1⟩), ("/za", ⟨1⟩), ("/é", ⟨2⟩)] := by cbv

end Interlock.Blocks
