import Mathlib.Data.Finset.Card
import Mathlib.Order.Interval.Finset.Nat
import Interlock.Proofs.Vcpu.Accounting

/-!
# A set of virtual CPUs is a finite set of numbers below eight

The members of a word are the positions of its set bits. Whatever is asked of a set, it answers and
changes as the finite set of its members does, and an id out of range is refused. No position from
eight on is ever a member.
-/

namespace Interlock

/-! ### Members of a word -/

namespace Snapshot

/-- The positions of the set bits. -/
def members (s : Snapshot) : Finset Nat := (Finset.range 32).filter fun n => s.bits.getLsbD n

theorem mem_members {s : Snapshot} {n : Nat} : n ∈ s.members ↔ s.bits.getLsbD n = true := by
  simp only [members, Finset.mem_filter, Finset.mem_range, and_iff_right_iff_imp]
  exact BitVec.lt_of_getLsbD

theorem card_filter_range (x : BitVec 32) (k : Nat) :
    ((Finset.range k).filter fun n => x.getLsbD n).card = x.cpopNatRec k 0 := by
  induction k with
  | zero => rfl
  | succ k ih =>
    rw [BitVec.cpopNatRec_succ, BitVec.cpopNatRec_add, ← ih, Finset.range_add_one,
      Finset.filter_insert]
    cases x.getLsbD k with
    | false => simp
    | true => simp

theorem len_eq_card (s : Snapshot) : s.len = s.members.card := by
  rw [len, BitVec.toNat_cpop, members, card_filter_range]

theorem contains_eq_mem {s : Snapshot} (h : s.members ⊆ Finset.range 8) (id : VcpuId) :
    s.contains id = decide (id.number.toNat ∈ s.members) := by
  rw [contains_eq]
  by_cases hid : id.number.toNat ∈ s.members
  · have hvalid : id.isValid = true := decide_eq_true (Finset.mem_range.mp (h hid))
    rw [hvalid, mem_members.mp hid, decide_eq_true hid]
    rfl
  · rw [mem_members, Bool.not_eq_true] at hid
    simp only [mem_members, hid, Bool.and_false, Bool.false_eq_true, decide_false]

theorem members_or_bit (x : BitVec 32) {id : VcpuId} (h : id.isValid = true) :
    members ⟨x ||| id.bit⟩ = insert id.number.toNat (members ⟨x⟩) := by
  have hlt := VcpuId.lt_of_isValid h
  ext n
  rw [Finset.mem_insert, mem_members, mem_members, BitVec.getLsbD_or, VcpuId.bit,
    BitVec.getLsbD_twoPow]
  by_cases hn : n = id.number.toNat
  · simp [hn, hlt]
  · simp [hn, Ne.symm hn]

theorem members_and_not_bit (x : BitVec 32) (id : VcpuId) :
    members ⟨x &&& ~~~id.bit⟩ = (members ⟨x⟩).erase id.number.toNat := by
  ext n
  rw [Finset.mem_erase, mem_members, mem_members, BitVec.getLsbD_and, BitVec.getLsbD_not,
    VcpuId.bit, BitVec.getLsbD_twoPow]
  by_cases hn : n = id.number.toNat
  · simp [hn]
  -- The complement has every other position of the word, and `n` is one as its bit is set.
  · simp only [Ne.symm hn, decide_false, Bool.and_false, Bool.not_false, Bool.and_true,
      Bool.and_eq_true, decide_eq_true_eq, ne_eq, hn, not_false_eq_true, true_and,
      and_iff_left_iff_imp]
    exact BitVec.lt_of_getLsbD

theorem members_zero : members ⟨0⟩ = ∅ := by
  ext n
  simp [mem_members]

theorem decide_and_bit_eq_zero (x : BitVec 32) {id : VcpuId} (h : id.isValid = true) :
    decide (x &&& id.bit = 0) = decide (id.number.toNat ∉ members ⟨x⟩) := by
  rw [decide_eq_decide, mem_members, Bool.not_eq_true]
  exact VcpuId.and_bit_eq_zero h x

theorem decide_and_bit_ne_zero (x : BitVec 32) {id : VcpuId} (h : id.isValid = true) :
    decide (x &&& id.bit ≠ 0) = decide (id.number.toNat ∈ members ⟨x⟩) := by
  have habsent := decide_eq_decide.mp (decide_and_bit_eq_zero x h)
  rw [decide_eq_decide, ne_eq, habsent, not_not]

theorem decide_eq_zero (x : BitVec 32) : decide (x = 0) = decide ((members ⟨x⟩).card = 0) := by
  rw [decide_eq_decide, Finset.card_eq_zero]
  constructor
  · rintro rfl
    exact members_zero
  · intro h
    apply BitVec.eq_of_getLsbD_eq
    intro n _
    have hn : n ∉ members ⟨x⟩ := by simp [h]
    simpa [mem_members] using hn

end Snapshot

/-! ### Operations on the members -/

/-- What an operation says of the members. -/
inductive Reading where
  | yes (b : Bool)
  | count (n : Nat)
  | members (ids : Finset Nat)
  deriving DecidableEq

/-- An answer with the members that it holds. -/
def SetAnswer.reading : SetAnswer → Reading
  | yes b => .yes b
  | count n => .count n
  | members s => .members s.members

namespace Members

/-- The number of an id below eight. -/
def check (id : VcpuId) : Except OutOfRange Nat :=
  if id.number.toNat < 8 then .ok id.number.toNat else .error ⟨id⟩

/-- Carries out an operation on a finite set. -/
def perform (m : Finset Nat) : SetOp → Except OutOfRange (Reading × Finset Nat)
  | .insert id => (check id).map fun n => (.yes (n ∉ m), insert n m)
  | .remove id => (check id).map fun n => (.yes (n ∈ m), m.erase n)
  | .contains id => (check id).map fun n => (.yes (n ∈ m), m)
  | .isEmpty => .ok (.yes (m.card = 0), m)
  | .len => .ok (.count m.card, m)
  | .take => .ok (.members m, ∅)
  | .snapshot => .ok (.members m, m)

/-- Carries out operations one after the other; one that is refused changes nothing. -/
def performAll : List SetOp → Finset Nat → List (Except OutOfRange Reading) × Finset Nat
  | [], m => ([], m)
  | op :: rest, m =>
    match perform m op with
    | .ok (a, n) =>
      let (as, k) := performAll rest n
      (.ok a :: as, k)
    | .error e =>
      let (as, k) := performAll rest m
      (.error e :: as, k)

/-- An id is in range for the set's word as it is for the finite set. -/
theorem check_cases (id : VcpuId) :
    (id.isValid = true ∧ check id = .ok id.number.toNat ∧ id.bit? = .ok id.bit) ∨
      (check id = .error ⟨id⟩ ∧ id.bit? = .error ⟨id⟩) := by
  by_cases h : id.number.toNat < 8
  · have hvalid : id.isValid = true := decide_eq_true h
    exact .inl ⟨hvalid, if_pos h, if_pos hvalid⟩
  · have hvalid : ¬ id.isValid = true := fun hv => h (of_decide_eq_true hv)
    exact .inr ⟨if_neg h, if_neg hvalid⟩

theorem of_map_check {α : Type} {id : VcpuId} {f : Nat → α} {a : α}
    (h : (check id).map f = .ok a) : ∃ n, n < 8 ∧ f n = a := by
  rw [check] at h
  split at h
  · cases h
    exact ⟨_, by assumption, rfl⟩
  · cases h

theorem perform_subset {m k : Finset Nat} {op : SetOp} {a : Reading} (hm : m ⊆ Finset.range 8)
    (h : perform m op = .ok (a, k)) : k ⊆ Finset.range 8 := by
  cases op with
  | insert id =>
    obtain ⟨n, hn, hdone⟩ := of_map_check h
    cases hdone
    exact Finset.insert_subset (Finset.mem_range.mpr hn) hm
  | remove id =>
    obtain ⟨n, -, hdone⟩ := of_map_check h
    cases hdone
    exact (Finset.erase_subset n m).trans hm
  | contains id =>
    obtain ⟨n, -, hdone⟩ := of_map_check h
    cases hdone
    exact hm
  | take =>
    cases h
    exact Finset.empty_subset _
  | isEmpty | len | snapshot =>
    cases h
    exact hm

theorem performAll_subset {m : Finset Nat} (hm : m ⊆ Finset.range 8) (ops : List SetOp) :
    (performAll ops m).2 ⊆ Finset.range 8 := by
  induction ops generalizing m with
  | nil => exact hm
  | cons op rest ih =>
    rw [performAll]
    cases h : perform m op with
    | error e => exact ih hm
    | ok done => exact ih (perform_subset hm h)

end Members

/-! ### One operation -/

namespace VcpuSet

variable {s : VcpuSet}

/-- The members of a set. -/
def members (s : VcpuSet) : Finset Nat := s.snapshot.members

theorem perform_of_ok {op : SetOp} {word : Op 32} (h : op.wordOp = .ok word) :
    s.perform op = .ok (op.answer s.bits, ⟨op.after s.bits⟩) := by
  have hrun := Op.run_eq word { contents := s.bits }
  rw [SetOp.apply_wordOp h] at hrun
  simp only [perform, h, bind, Except.bind, pure, Except.pure, hrun, Answer.value?,
    Option.getD_some]

theorem perform_of_error {op : SetOp} {e : OutOfRange} (h : op.wordOp = .error e) :
    s.perform op = .error e := by
  simp only [perform, h, bind, Except.bind]

/-- An operation that needs a valid id is refused for the set as it is for its members. -/
theorem map_perform_of_bit? {op : SetOp} {id : VcpuId} {f : BitVec 32 → Op 32}
    {g : Nat → Reading × Finset Nat} (hop : op.wordOp = f <$> id.bit?)
    (hg : id.isValid = true →
      ((op.answer s.bits).reading, Snapshot.members ⟨op.after s.bits⟩) = g id.number.toNat) :
    (s.perform op).map (fun done => (done.1.reading, done.2.members)) =
      (Members.check id).map g := by
  rcases Members.check_cases id with ⟨hid, hcheck, hbit⟩ | ⟨hcheck, hbit⟩
  · have hword : op.wordOp = .ok (f id.bit) := by
      rw [hop, hbit]
      rfl
    rw [perform_of_ok hword, hcheck]
    exact congrArg Except.ok (hg hid)
  · have hword : op.wordOp = .error ⟨id⟩ := by
      rw [hop, hbit]
      rfl
    rw [perform_of_error hword, hcheck]
    rfl

theorem perform_refines (s : VcpuSet) (op : SetOp) :
    (s.perform op).map (fun done => (done.1.reading, done.2.members)) =
      Members.perform s.members op := by
  cases op with
  | insert id =>
    refine map_perform_of_bit? rfl fun hid => Prod.ext (congrArg Reading.yes ?_) ?_
    · exact Snapshot.decide_and_bit_eq_zero s.bits hid
    · exact Snapshot.members_or_bit s.bits hid
  | remove id =>
    refine map_perform_of_bit? rfl fun hid => Prod.ext (congrArg Reading.yes ?_) ?_
    · exact Snapshot.decide_and_bit_ne_zero s.bits hid
    · exact Snapshot.members_and_not_bit s.bits id
  | contains id =>
    refine map_perform_of_bit? rfl fun hid => Prod.ext (congrArg Reading.yes ?_) rfl
    exact Snapshot.decide_and_bit_ne_zero s.bits hid
  | isEmpty =>
    rw [perform_of_ok rfl]
    exact congrArg (fun b => Except.ok (Reading.yes b, _)) (Snapshot.decide_eq_zero s.bits)
  | len =>
    rw [perform_of_ok rfl]
    exact congrArg (fun n => Except.ok (Reading.count n, _)) (Snapshot.len_eq_card s.snapshot)
  | take =>
    rw [perform_of_ok rfl]
    exact congrArg (fun m => Except.ok (_, m)) Snapshot.members_zero
  | snapshot =>
    rw [perform_of_ok rfl]
    rfl

/-! ### Main result -/

theorem performAll_refines (s : VcpuSet) (ops : List SetOp) :
    ((performAll ops s).1.map (Except.map SetAnswer.reading), (performAll ops s).2.members) =
      Members.performAll ops s.members := by
  -- By induction on the operations; a refused one leaves the rest to the set as it was.
  induction ops generalizing s with
  | nil => rfl
  | cons op rest ih =>
    have hop := perform_refines s op
    rw [performAll, Members.performAll, ← hop]
    cases s.perform op with
    | error e =>
      simp only [Except.map, ← ih s]
      rfl
    | ok done =>
      simp only [Except.map, ← ih done.2]
      rfl

/-- What operations on a set come to, beside the same operations on a finite set. -/
structure Refines (s : VcpuSet) (m : Finset Nat) (ops : List SetOp) : Prop where
  answers : (performAll ops s).1.map (Except.map SetAnswer.reading) =
    (Members.performAll ops m).1
  members : (performAll ops s).2.members = (Members.performAll ops m).2
  below : (Members.performAll ops m).2 ⊆ Finset.range 8
  contains : ∀ id, (performAll ops s).2.snapshot.contains id =
    decide (id.number.toNat ∈ (Members.performAll ops m).2)
  clear : ∀ n, 8 ≤ n → (performAll ops s).2.bits.getLsbD n = false

theorem refines_of_members {m : Finset Nat} (hs : s.members = m) (hm : m ⊆ Finset.range 8)
    (ops : List SetOp) : s.Refines m ops := by
  subst hs
  have hrun := performAll_refines s ops
  have hbelow := Members.performAll_subset hm ops
  have hmembers : (performAll ops s).2.members = (Members.performAll ops s.members).2 :=
    congrArg Prod.snd hrun
  rw [← hmembers] at hbelow
  refine ⟨congrArg Prod.fst hrun, hmembers, hmembers ▸ hbelow, fun id => ?_, fun n hn => ?_⟩
  · rw [← hmembers]
    exact Snapshot.contains_eq_mem hbelow id
  · by_contra hbit
    have hmem : n ∈ (performAll ops s).2.members :=
      Snapshot.mem_members.mpr (Bool.eq_true_of_not_eq_false hbit)
    have hlt := Finset.mem_range.mp (hbelow hmem)
    omega

theorem getLsbD_allBits (n : Nat) : allBits.getLsbD n = decide (n < 8) := by
  by_cases hn : n < 32
  · have hall : ∀ k < 32, allBits.getLsbD k = decide (k < 8) := by decide
    exact hall n hn
  · have hge : ¬ n < 8 := by omega
    rw [BitVec.getLsbD_of_ge _ _ (Nat.le_of_not_lt hn), decide_eq_false hge]

/-- Of the bits given, the set keeps those below eight. -/
theorem members_ofBits (bits : BitVec 32) :
    (ofBits bits).members = (Finset.range 8).filter fun n => bits.getLsbD n := by
  ext n
  rw [members, Snapshot.mem_members, Finset.mem_filter, Finset.mem_range, snapshot, ofBits,
    BitVec.getLsbD_and, getLsbD_allBits, Bool.and_eq_true, decide_eq_true_eq, and_comm]

/-- Whatever is asked of a set, new or made of any bits, it answers and changes as a finite set of
numbers below eight does. -/
theorem refines_finset (ops : List SetOp) :
    Refines {} ∅ ops ∧
      ∀ bits, (ofBits bits).Refines ((Finset.range 8).filter fun n => bits.getLsbD n) ops := by
  constructor
  · exact refines_of_members Snapshot.members_zero (Finset.empty_subset _) ops
  · intro bits
    exact refines_of_members (members_ofBits bits) (Finset.filter_subset _ _) ops

/-- An id far out of range is refused and changes nothing; a bit from eight on was never there. -/
example :
    performAll [.insert ⟨40⟩, .remove ⟨0⟩, .take, .isEmpty] (.ofBits 0x105) =
      ([.error ⟨⟨40⟩⟩, .ok (.yes true), .ok (.members ⟨4⟩), .ok (.yes true)], ⟨0⟩) := by cbv

end VcpuSet

end Interlock
