import Mathlib.Data.Nat.Bitwise
import Interlock.Proofs.Vcpu.Members

/-!
# A snapshot hands out its set bits in ascending order

Taking the common bits of a word and its predecessor clears the lowest set bit and no other. So one
call after the other hands out the positions of the set bits, the lowest first and each once, and
before each call the population count is the number of calls that will still hand one out.
-/

namespace Interlock

namespace Snapshot

/-! ### The lowest set bit -/

theorem toNat_eq_of_ctz {x : BitVec 32} (h : x ≠ 0#32) :
    x.toNat = 2 ^ (x.ctz.toNat + 1) * (x.toNat / 2 ^ (x.ctz.toNat + 1)) + 2 ^ x.ctz.toNat := by
  have hset : x.toNat.testBit x.ctz.toNat = true := BitVec.getLsbD_true_ctz_of_ne_zero h
  have hmod : x.toNat % 2 ^ (x.ctz.toNat + 1) = 2 ^ x.ctz.toNat := by
    apply Nat.eq_of_testBit_eq
    intro i
    rw [Nat.testBit_mod_two_pow, Nat.testBit_two_pow]
    by_cases hlow : i < x.ctz.toNat
    · have hclear : x.toNat.testBit i = false := BitVec.getLsbD_false_of_lt_ctz hlow
      simp only [hclear, Bool.and_false]
      exact (decide_eq_false (by omega)).symm
    · by_cases hi : i = x.ctz.toNat
      · simp [hi, hset]
      · have hhigh : ¬ i < x.ctz.toNat + 1 := by omega
        simp only [hhigh, decide_false, Bool.false_and]
        exact (decide_eq_false (Ne.symm hi)).symm
  have hdiv := Nat.div_add_mod x.toNat (2 ^ (x.ctz.toNat + 1))
  rw [hmod] at hdiv
  exact hdiv.symm

theorem getLsbD_clearLowest {x : BitVec 32} (h : x ≠ 0#32) (i : Nat) :
    (clearLowest x).getLsbD i = (x.getLsbD i && decide (i ≠ x.ctz.toNat)) := by
  have hx := toNat_eq_of_ctz h
  generalize x.toNat / 2 ^ (x.ctz.toNat + 1) = q at hx
  generalize x.ctz.toNat = c at hx ⊢
  have hpow : 2 ^ (c + 1) = 2 * 2 ^ c := by rw [Nat.pow_succ, Nat.mul_comm]
  have hpos : 0 < 2 ^ c := Nat.two_pow_pos c
  have hpred : x.toNat - 1 = 2 ^ (c + 1) * q + (2 ^ c - 1) := by omega
  have hbit : x.getLsbD i = (2 ^ (c + 1) * q + 2 ^ c).testBit i := by rw [BitVec.getLsbD, hx]
  rw [clearLowest, BitVec.getLsbD_and, hbit, BitVec.getLsbD, toNat_pred h, hpred,
    Nat.testBit_two_pow_mul_add q (by omega), Nat.testBit_two_pow_mul_add q (by omega)]
  -- Below the lowest bit the word has zeros, at it the predecessor has one, and above they agree.
  by_cases hlow : i < c + 1
  · simp only [hlow, if_true, Nat.testBit_two_pow, Nat.testBit_two_pow_sub_one]
    by_cases hi : c = i
    · simp [hi]
    · simp [hi]
  · have hne : i ≠ c := by omega
    simp only [hlow, if_false, Bool.and_self, hne, ne_eq, not_false_eq_true, decide_true,
      Bool.and_true]

/-! ### Positions of set bits -/

/-- The positions of the set bits, in ascending order. -/
def positions (s : Snapshot) : List Nat := (List.range 32).filter s.bits.getLsbD

theorem mem_positions {s : Snapshot} {n : Nat} :
    n ∈ s.positions ↔ s.bits.getLsbD n = true := by
  simp only [positions, List.mem_filter, List.mem_range, and_iff_right_iff_imp]
  exact BitVec.lt_of_getLsbD

theorem pairwise_positions (s : Snapshot) : s.positions.Pairwise (· < ·) :=
  List.pairwise_lt_range.filter _

theorem nodup_positions (s : Snapshot) : s.positions.Nodup :=
  s.pairwise_positions.imp Nat.ne_of_lt

theorem length_positions (s : Snapshot) : s.positions.length = s.len := by
  rw [len_eq_card, members, Finset.card_def, Finset.filter_val, Finset.range_val,
    ← Multiset.coe_range, Multiset.filter_coe, Multiset.coe_card, positions]
  simp only [Bool.decide_eq_true]

theorem positions_of_ne_zero {x : BitVec 32} (h : x ≠ 0#32) :
    positions ⟨x⟩ = x.ctz.toNat :: positions ⟨clearLowest x⟩ := by
  have hrest (n : Nat) : n ∈ positions ⟨clearLowest x⟩ ↔
      x.getLsbD n = true ∧ n ≠ x.ctz.toNat := by
    rw [mem_positions, getLsbD_clearLowest h, Bool.and_eq_true, decide_eq_true_iff]
  have hset : x.getLsbD x.ctz.toNat = true := BitVec.getLsbD_true_ctz_of_ne_zero h
  have hsorted : (x.ctz.toNat :: positions ⟨clearLowest x⟩).Pairwise (· < ·) := by
    refine List.pairwise_cons.mpr ⟨fun n hn => ?_, pairwise_positions _⟩
    obtain ⟨hbit, hne⟩ := (hrest n).mp hn
    by_contra hle
    have hclear : x.getLsbD n = false := BitVec.getLsbD_false_of_lt_ctz (by omega)
    rw [hclear] at hbit
    cases hbit
  -- Two ascending lists with the same members are one list.
  have hperm : (positions ⟨x⟩).Perm (x.ctz.toNat :: positions ⟨clearLowest x⟩) := by
    refine (List.perm_ext_iff_of_nodup (nodup_positions _)
      (hsorted.imp Nat.ne_of_lt)).mpr fun n => ?_
    rw [mem_positions, List.mem_cons, hrest]
    by_cases hn : n = x.ctz.toNat
    · simp [hn, hset]
    · simp [hn]
  refine hperm.eq_of_pairwise (fun a b _ _ hab hba => ?_) (pairwise_positions _) hsorted
  omega

/-! ### Calls -/

/-- The difference of two words, unless it would fall below zero. -/
def checkedSub (x y : BitVec 32) : Option (BitVec 32) :=
  if x.usubOverflow y then none else some (x - y)

/-- A call for the next member: what it answers, and what is left of the snapshot. It fails if its
subtraction falls below zero. -/
def call (s : Snapshot) : Option (Option VcpuId × Snapshot) :=
  if s.bits = 0#32 then some (none, s)
  else (checkedSub s.bits 1#32).map fun pred => (some ⟨s.bits.ctz⟩, ⟨s.bits &&& pred⟩)

/-- The answers of `k` calls, one after the other, and what is left then. -/
def calls : Nat → Snapshot → Option (List (Option VcpuId) × Snapshot)
  | 0, s => some ([], s)
  | k + 1, s =>
    s.call.bind fun first => (calls k first.2).map fun rest => (first.1 :: rest.1, rest.2)

theorem next_of_zero {s : Snapshot} (h : s.bits = 0#32) : s.next = none := if_pos h

theorem next_of_ne_zero {s : Snapshot} (h : s.bits ≠ 0#32) :
    s.next = some (⟨s.bits.ctz⟩, ⟨clearLowest s.bits⟩) := if_neg h

theorem bits_of_next_none {s : Snapshot} (h : s.next = none) : s.bits = 0#32 := by
  by_contra hne
  rw [next_of_ne_zero hne] at h
  cases h

theorem eq_of_next_some {s t : Snapshot} {id : VcpuId} (h : s.next = some (id, t)) :
    s.bits ≠ 0#32 ∧ id = ⟨s.bits.ctz⟩ ∧ t = ⟨clearLowest s.bits⟩ := by
  have hne : s.bits ≠ 0#32 := by
    intro hzero
    rw [next_of_zero hzero] at h
    cases h
  rw [next_of_ne_zero hne] at h
  cases h
  exact ⟨hne, rfl, rfl⟩

theorem checkedSub_one {x : BitVec 32} (h : x ≠ 0#32) : checkedSub x 1#32 = some (x - 1#32) := by
  have hx : x.toNat ≠ 0 := fun hzero => h (BitVec.eq_of_toNat_eq (by simpa using hzero))
  have hfits : ¬ x.usubOverflow 1#32 = true := by
    simp only [BitVec.usubOverflow, BitVec.reduceToNat, decide_eq_true_eq]
    omega
  exact if_neg hfits

/-- No subtraction falls below zero, and the answers are those of `next`. -/
theorem call_eq (s : Snapshot) :
    s.call = some (s.next.map Prod.fst, (s.next.map Prod.snd).getD s) := by
  by_cases h : s.bits = 0#32
  · simp [call, next_of_zero h, h]
  · simp [call, next_of_ne_zero h, h, checkedSub_one h, clearLowest]

/-! ### What is listed -/

theorem toList_of_none {s : Snapshot} (h : s.next = none) : s.toList = [] := by
  rw [toList]
  split <;> simp_all

theorem toList_of_some {s t : Snapshot} {id : VcpuId} (h : s.next = some (id, t)) :
    s.toList = id :: t.toList := by
  rw [toList]
  split <;> simp_all

theorem walk_of_none {s : Snapshot} (h : s.next = none) : s.walk = [(s, none)] := by
  rw [walk]
  split <;> simp_all

theorem walk_of_some {s t : Snapshot} {id : VcpuId} (h : s.next = some (id, t)) :
    s.walk = (s, some id) :: t.walk := by
  rw [walk]
  split <;> simp_all

theorem map_toList (s : Snapshot) : s.toList.map (·.number.toNat) = s.positions := by
  induction s using toList.induct with
  | case1 s h =>
    rw [toList_of_none h, positions, bits_of_next_none h]
    simp
  | case2 s id t h ih =>
    obtain ⟨hne, rfl, rfl⟩ := eq_of_next_some h
    have hpositions := positions_of_ne_zero hne
    rw [toList_of_some h, List.map_cons, ih, hpositions]

theorem length_toList (s : Snapshot) : s.toList.length = s.len := by
  rw [← length_positions, ← map_toList, List.length_map]

theorem bits_of_toList_nil {s : Snapshot} (h : s.toList = []) : s.bits = 0#32 := by
  by_contra hne
  rw [toList_of_some (next_of_ne_zero hne)] at h
  cases h

theorem call_eq_head (s : Snapshot) :
    ∃ t, s.call = some (s.toList.head?, t) ∧ t.toList = s.toList.tail := by
  rw [call_eq]
  cases h : s.next with
  | none =>
    rw [toList_of_none h]
    exact ⟨s, rfl, toList_of_none h⟩
  | some done =>
    rw [toList_of_some h]
    exact ⟨done.2, rfl, rfl⟩

/-- After `k` calls the first `k` members have been handed out, none for each call too many. -/
theorem calls_eq (k : Nat) (s : Snapshot) :
    ∃ t, s.calls k = some ((List.range k).map (s.toList[·]?), t) ∧ t.toList = s.toList.drop k := by
  induction k generalizing s with
  | zero => exact ⟨s, rfl, rfl⟩
  | succ k ih =>
    obtain ⟨t, hcall, htail⟩ := s.call_eq_head
    obtain ⟨u, hcalls, hdrop⟩ := ih t
    refine ⟨u, ?_, ?_⟩
    · have hshift : (List.range k).map (t.toList[·]?) =
          ((List.range k).map Nat.succ).map (s.toList[·]?) := by
        rw [htail, List.map_map]
        exact List.map_congr_left fun i _ => List.getElem?_tail
      rw [calls, hcall, Option.bind_some, hcalls, List.range_succ_eq_map, List.map_cons, ← hshift,
        List.head?_eq_getElem?]
      rfl
    · rw [hdrop, htail, List.drop_tail]

/-- The walk passes through what is left after each call, up to the empty snapshot. -/
theorem getElem?_walk {k : Nat} {s t : Snapshot} {answers : List (Option VcpuId)}
    (h : s.calls k = some (answers, t)) (hk : k ≤ s.toList.length) :
    s.walk[k]? = some (t, s.toList[k]?) := by
  induction k generalizing s answers with
  | zero =>
    cases h
    cases hnext : t.next with
    | none =>
      rw [walk_of_none hnext, toList_of_none hnext]
      rfl
    | some done =>
      rw [walk_of_some hnext, toList_of_some hnext]
      rfl
  | succ k ih =>
    cases hnext : s.next with
    | none =>
      rw [toList_of_none hnext] at hk
      exact absurd hk (by simp)
    | some done =>
      rw [toList_of_some hnext, List.length_cons] at hk
      rw [calls, call_eq, hnext] at h
      simp only [Option.map_some, Option.getD_some, Option.bind_some, Option.map_eq_some_iff] at h
      obtain ⟨rest, hrest, hdone⟩ := h
      cases hdone
      rw [walk_of_some hnext, toList_of_some hnext, List.getElem?_cons_succ,
        List.getElem?_cons_succ]
      exact ih hrest (by omega)

/-! ### Members and the word -/

theorem mem_toList {s : Snapshot} {id : VcpuId} :
    id ∈ s.toList ↔ s.bits.getLsbD id.number.toNat = true := by
  rw [← mem_positions, ← map_toList, List.mem_map]
  constructor
  · intro h
    exact ⟨id, h, rfl⟩
  · intro h
    obtain ⟨a, ha, hnumber⟩ := h
    have he : a = id := by
      cases a
      cases id
      exact congrArg VcpuId.mk (BitVec.eq_of_toNat_eq hnumber)
    exact he ▸ ha

theorem foldl_or_toList (s : Snapshot) (x : BitVec 32) :
    s.toList.foldl (fun y id => y ||| id.bit) x = x ||| s.bits := by
  induction s using toList.induct generalizing x with
  | case1 s h =>
    rw [toList_of_none h, bits_of_next_none h, BitVec.or_zero]
    rfl
  | case2 s id t h ih =>
    obtain ⟨hne, rfl, rfl⟩ := eq_of_next_some h
    rw [toList_of_some h, List.foldl_cons, ih]
    have hset : s.bits.getLsbD s.bits.ctz.toNat = true := BitVec.getLsbD_true_ctz_of_ne_zero hne
    apply BitVec.eq_of_getLsbD_eq
    intro i hi
    simp only [BitVec.getLsbD_or, VcpuId.bit, BitVec.getLsbD_twoPow, getLsbD_clearLowest hne]
    by_cases hc : s.bits.ctz.toNat = i
    · simp [← hc, hset, BitVec.lt_of_getLsbD hset]
    · simp [hc, Ne.symm hc]

end Snapshot

/-! ### Words that a set may hold -/

/-- No bit from eight on is set. -/
def Clear (x : BitVec 32) : Prop := ∀ n, 8 ≤ n → x.getLsbD n = false

theorem VcpuId.isValid_iff (id : VcpuId) : id.isValid = true ↔ id.number.toNat < 8 :=
  decide_eq_true_iff

theorem SetOp.clear_after {op : SetOp} {word : Op 32} (h : op.wordOp = .ok word) {x : BitVec 32}
    (hx : Clear x) : Clear (op.after x) := by
  intro n hn
  cases op with
  | insert id =>
    obtain ⟨hid, -⟩ := map_bit?_eq_ok h
    have hlt := id.isValid_iff.mp hid
    have hne : ¬ id.number.toNat = n := by omega
    simp only [after, BitVec.getLsbD_or, hx n hn, VcpuId.bit, BitVec.getLsbD_twoPow, hne,
      decide_false, Bool.and_false, Bool.or_false]
  | remove id => simp only [after, BitVec.getLsbD_and, hx n hn, Bool.false_and]
  | take => simp [after]
  | contains | isEmpty | len | snapshot => exact hx n hn

/-- Deeds that carry out operations on a set leave its word clear. -/
theorem Legal.clear {start x : BitVec 32} {deeds : List (Deed 32)} (h : Legal start deeds x)
    (hstart : Clear start) (hdeeds : ∀ d ∈ deeds, ∃ op : SetOp, op.wordOp = .ok d.op) :
    Clear x := by
  induction h with
  | nil => exact hstart
  | @cons deeds y t word _ ih =>
    obtain ⟨op, hop⟩ := hdeeds _ List.mem_cons_self
    rw [SetOp.apply_wordOp hop]
    exact op.clear_after hop (ih fun d hd => hdeeds d (List.mem_cons_of_mem _ hd))

namespace VcpuSet

/-- The words that a set may hold: one that nobody else uses, after any operations, and one that
threads share, at any moment of any schedule. -/
inductive Held : BitVec 32 → Prop
  | alone (bits : BitVec 32) (ops : List SetOp) : Held (performAll ops (ofBits bits)).2.bits
  | shared (bits : BitVec 32) (fenced : Bool) (words : List (List (Op 32)))
    (schedule : List Move) : (∀ word ∈ words.flatten, ∃ op : SetOp, op.wordOp = .ok word) →
    Held ((Race.start ⟨(ofBits bits).bits, fenced⟩ words).run schedule).cell.contents

theorem clear_ofBits (bits : BitVec 32) : Clear (ofBits bits).bits := by
  intro n hn
  have hout : ¬ n < 8 := by omega
  rw [ofBits, BitVec.getLsbD_and, getLsbD_allBits, decide_eq_false hout, Bool.and_false]

theorem Held.clear {x : BitVec 32} (h : Held x) : Clear x := by
  cases h with
  | alone bits ops =>
    exact (refines_of_members (members_ofBits bits) (Finset.filter_subset _ _) ops).clear
  | shared bits fenced words schedule hwords =>
    obtain ⟨deeds, h⟩ := linear_run ⟨(ofBits bits).bits, fenced⟩ words schedule
    exact h.legal.clear (clear_ofBits bits) fun d hd => hwords _ (h.mem_todo hd)

theorem isValid_of_mem {x : BitVec 32} (h : Held x) {id : VcpuId}
    (hid : id ∈ (Snapshot.mk x).toList) : id.isValid = true := by
  rw [Snapshot.mem_toList] at hid
  rw [id.isValid_iff]
  by_contra hge
  rw [h.clear _ (Nat.le_of_not_lt hge)] at hid
  cases hid

theorem contains_iff_mem {x : BitVec 32} (h : Held x) (id : VcpuId) :
    Snapshot.contains ⟨x⟩ id = true ↔ id ∈ (Snapshot.mk x).toList := by
  rw [Snapshot.contains_eq, Bool.and_eq_true]
  constructor
  · rintro ⟨-, hbit⟩
    exact Snapshot.mem_toList.mpr hbit
  · intro hid
    exact ⟨isValid_of_mem h hid, Snapshot.mem_toList.mp hid⟩

/-- An id that is not valid is refused, and it is no member either. -/
theorem perform_contains_iff_mem {x : BitVec 32} (h : Held x) (id : VcpuId) :
    perform ⟨x⟩ (.contains id) = .ok (.yes true, ⟨x⟩) ↔ id ∈ (Snapshot.mk x).toList := by
  by_cases hid : id.isValid = true
  · have hword : (SetOp.contains id).wordOp = .ok .read := by
      rw [SetOp.wordOp, VcpuId.bit?, if_pos hid]
      rfl
    rw [perform_of_ok hword, Snapshot.mem_toList, ← Snapshot.mem_members]
    show Except.ok (SetAnswer.yes (decide (x &&& id.bit ≠ 0)), (⟨x⟩ : VcpuSet)) = _ ↔ _
    rw [Snapshot.decide_and_bit_ne_zero x hid]
    simp
  · have hword : (SetOp.contains id).wordOp = .error ⟨id⟩ := by
      rw [SetOp.wordOp, VcpuId.bit?, if_neg hid]
      rfl
    rw [perform_of_error hword]
    constructor
    · intro hdone
      cases hdone
    · intro hmem
      exact absurd (isValid_of_mem h hmem) hid

end VcpuSet

/-! ### Main result -/

namespace Snapshot

/-- What `k` calls, one after the other, make of a snapshot. -/
structure AfterCalls (s : Snapshot) (k : Nat) (t : Snapshot) : Prop where
  /-- The members have been handed out in order, and none by a call too many. -/
  answers : s.calls k = some ((List.range k).map (s.toList[·]?), t)
  left : t.toList = s.toList.drop k
  sizeHint : t.sizeHint = ((s.toList.drop k).length, some (s.toList.drop k).length)
  spent : s.bits.cpop.toNat ≤ k → t.bits = 0
  walk : k ≤ s.bits.cpop.toNat → s.walk[k]? = some (t, s.toList[k]?)

/-- What listing a snapshot comes to. -/
structure Enumerates (s : Snapshot) : Prop where
  positions : s.toList.map (·.number.toNat) = (List.range 32).filter fun n => s.bits.getLsbD n
  ascending : (s.toList.map (·.number.toNat)).Pairwise (· < ·)
  length : s.toList.length = s.bits.cpop.toNat
  mem_iff : ∀ id, id ∈ s.toList ↔ s.bits.getLsbD id.number.toNat = true
  /-- A call whose subtraction is checked succeeds and does what `next` does. -/
  call : s.call = some (s.next.map Prod.fst, (s.next.map Prod.snd).getD s)
  calls : ∀ k, ∃ t, AfterCalls s k t
  held : VcpuSet.Held s.bits → ∀ id, (s.contains id = true ↔ id ∈ s.toList) ∧
    (VcpuSet.perform ⟨s.bits⟩ (.contains id) = .ok (.yes true, ⟨s.bits⟩) ↔ id ∈ s.toList)
  rebuilt : s.toList.foldl (fun x id => x ||| id.bit) 0 = s.bits

theorem afterCalls_of_calls {s t : Snapshot} {k : Nat}
    (hcalls : s.calls k = some ((List.range k).map (s.toList[·]?), t))
    (hleft : t.toList = s.toList.drop k) : AfterCalls s k t where
  answers := hcalls
  left := hleft
  sizeHint := by rw [Snapshot.sizeHint, ← length_toList, hleft]
  spent hk := by
    have hdrop : s.toList.drop k = [] := List.drop_of_length_le (by rw [length_toList]; exact hk)
    exact bits_of_toList_nil (hleft.trans hdrop)
  walk hk := getElem?_walk hcalls (by rw [length_toList]; exact hk)

/-- Every word is listed by the positions of its set bits, in as many calls as there are. -/
theorem snapshot_enumerates (s : Snapshot) : Enumerates s where
  positions := s.map_toList
  ascending := by
    rw [map_toList]
    exact s.pairwise_positions
  length := s.length_toList
  mem_iff _ := mem_toList
  call := s.call_eq
  calls k := by
    obtain ⟨t, hcalls, hleft⟩ := calls_eq k s
    exact ⟨t, afterCalls_of_calls hcalls hleft⟩
  held h id := ⟨VcpuSet.contains_iff_mem h id, VcpuSet.perform_contains_iff_mem h id⟩
  rebuilt := (s.foldl_or_toList 0).trans BitVec.zero_or

/-- Four members are handed out, then none any more. -/
example : (Snapshot.calls 6 ⟨0xa5⟩).map Prod.fst =
    some [some ⟨0⟩, some ⟨2⟩, some ⟨5⟩, some ⟨7⟩, none, none] := by cbv

end Snapshot

end Interlock
