import Mathlib.Algebra.BigOperators.Group.List.Basic
import Mathlib.Data.BitVec
import Interlock.Proofs.Word.History
import Interlock.Vcpu.Set

/-!
# Every member that went in came out once, or is still there

Threads share a set. Each operation changes the membership of an id by as much as its answer says:
an insertion that found the id absent adds it, a removal that found it present and a taking that
holds it take it away, and nothing else touches it. The operations take effect one after the other,
so what the answers say adds up to the difference between the first membership and the last.
-/

namespace Interlock

/-! ### Membership as a bit -/

theorem VcpuId.lt_of_isValid {id : VcpuId} (h : id.isValid = true) : id.number.toNat < 32 := by
  have hlt := of_decide_eq_true h
  rw [maxVcpus] at hlt
  omega

theorem VcpuId.and_bit_eq_zero {id : VcpuId} (h : id.isValid = true) (x : BitVec 32) :
    x &&& id.bit = 0#32 ↔ x.getLsbD id.number.toNat = false := by
  have hlt := VcpuId.lt_of_isValid h
  have hne : BitVec.twoPow 32 id.number.toNat ≠ 0#32 := by
    intro hzero
    have hbit := congrArg (BitVec.getLsbD · id.number.toNat) hzero
    simp [hlt] at hbit
  rw [VcpuId.bit, BitVec.and_twoPow]
  cases x.getLsbD id.number.toNat <;> simp [hne]

theorem VcpuId.getLsbD_bit {a id : VcpuId} (h : id.isValid = true) :
    a.bit.getLsbD id.number.toNat = decide (a = id) := by
  have hlt := VcpuId.lt_of_isValid h
  rw [VcpuId.bit, BitVec.getLsbD_twoPow]
  by_cases he : a = id
  · simp [he, hlt]
  · have hn : a.number.toNat ≠ id.number.toNat := by
      intro hn
      cases a
      cases id
      exact he (congrArg VcpuId.mk (BitVec.eq_of_toNat_eq hn))
    simp [he, hn]

theorem Snapshot.contains_eq (x : BitVec 32) (id : VcpuId) :
    Snapshot.contains ⟨x⟩ id = (id.isValid && x.getLsbD id.number.toNat) := by
  cases h : id.isValid with
  | false => simp [contains, h]
  | true =>
    have hbit := VcpuId.and_bit_eq_zero h x
    cases hx : x.getLsbD id.number.toNat <;> simp_all [contains]

theorem Snapshot.contains_or_bit (x : BitVec 32) {a id : VcpuId} (h : a.isValid = true) :
    Snapshot.contains ⟨x ||| a.bit⟩ id = (Snapshot.contains ⟨x⟩ id || decide (a = id)) := by
  rw [contains_eq, contains_eq, BitVec.getLsbD_or]
  cases hid : id.isValid with
  | false =>
    have hne : a ≠ id := by
      rintro rfl
      rw [h] at hid
      cases hid
    simp [hne]
  | true => rw [VcpuId.getLsbD_bit hid, Bool.true_and, Bool.true_and]

theorem Snapshot.contains_and_not_bit (x : BitVec 32) (a id : VcpuId) :
    Snapshot.contains ⟨x &&& ~~~a.bit⟩ id = (Snapshot.contains ⟨x⟩ id && !decide (a = id)) := by
  rw [contains_eq, contains_eq, BitVec.getLsbD_and, BitVec.getLsbD_not]
  cases hid : id.isValid with
  | false => rfl
  | true =>
    simp only [VcpuId.getLsbD_bit hid, VcpuId.lt_of_isValid hid, decide_true, Bool.true_and]

theorem Snapshot.and_bit_eq_zero (x : BitVec 32) {id : VcpuId} (h : id.isValid = true) :
    x &&& id.bit = 0#32 ↔ Snapshot.contains ⟨x⟩ id = false := by
  rw [contains_eq, h, Bool.true_and, VcpuId.and_bit_eq_zero h]

/-! ### What an operation does to one member -/

namespace SetOp

/-- The word that an operation leaves. -/
def after : SetOp → BitVec 32 → BitVec 32
  | insert id, x => x ||| id.bit
  | remove id, x => x &&& ~~~id.bit
  | take, _ => 0
  | _, x => x

theorem map_bit?_eq_ok {id : VcpuId} {f : BitVec 32 → Op 32} {word : Op 32}
    (h : f <$> id.bit? = .ok word) : id.isValid = true ∧ word = f id.bit := by
  rw [VcpuId.bit?] at h
  split at h
  · cases h
    exact ⟨by assumption, rfl⟩
  · cases h

theorem apply_wordOp {op : SetOp} {word : Op 32} (h : op.wordOp = .ok word) (x : BitVec 32) :
    word.apply x = (.value x, op.after x) := by
  cases op with
  | insert id | remove id | contains id =>
    obtain ⟨-, rfl⟩ := map_bit?_eq_ok h
    rfl
  | isEmpty | len | snapshot | take =>
    cases h
    rfl

/-- How the membership of an id changes by an operation, as its answer says. -/
def gain (id : VcpuId) : SetOp → SetAnswer → Int
  | insert a, .yes b => if a = id ∧ b = true then 1 else 0
  | remove a, .yes b => -(if a = id ∧ b = true then 1 else 0)
  | take, .members s => -(s.contains id).toInt
  | _, _ => 0

/-- Membership changes as the answer says. -/
theorem gain_answer {op : SetOp} {word : Op 32} (h : op.wordOp = .ok word) (id : VcpuId)
    (x : BitVec 32) :
    op.gain id (op.answer x) =
      (Snapshot.contains ⟨op.after x⟩ id).toInt - (Snapshot.contains ⟨x⟩ id).toInt := by
  cases op with
  | insert a =>
    obtain ⟨ha, -⟩ := map_bit?_eq_ok h
    simp only [gain, answer, after, decide_eq_true_eq, Snapshot.contains_or_bit x ha]
    by_cases he : a = id
    · subst he
      have hbit := Snapshot.and_bit_eq_zero x ha
      cases hx : Snapshot.contains ⟨x⟩ a <;> simp_all
    · simp [he]
  | remove a =>
    obtain ⟨ha, -⟩ := map_bit?_eq_ok h
    simp only [gain, answer, after, decide_eq_true_eq, Snapshot.contains_and_not_bit]
    by_cases he : a = id
    · subst he
      have hbit := Snapshot.and_bit_eq_zero x ha
      cases hx : Snapshot.contains ⟨x⟩ a <;> simp_all
    · simp [he]
  | take =>
    have hnone : Snapshot.contains ⟨0⟩ id = false := by
      simp [Snapshot.contains_eq]
    simp only [gain, answer, after, hnone]
    exact (Int.zero_sub _).symm
  | contains | isEmpty | len | snapshot => exact (Int.sub_self _).symm

end SetOp

/-! ### Calls and what they answered -/

/-- A call that returned: what was asked of the set, and what it answered. -/
abbrev SetCall : Type := SetOp × SetAnswer

namespace SetCall

/-- A call, from what the word answered. -/
def ofWord (a : SetOp × Answer 32) : SetCall := (a.1, a.1.answer (a.2.value?.getD 0))

/-- Whether a call took everything out, an id among it. -/
def took (id : VcpuId) : SetCall → Bool
  | (.take, .members s) => s.contains id
  | _ => false

theorem gain_eq (id : VcpuId) (c : SetCall) :
    c.1.gain id c.2 = (if c = (.insert id, .yes true) then 1 else 0) -
      (if c = (.remove id, .yes true) then 1 else 0) - (if took id c = true then 1 else 0) := by
  obtain ⟨op, a⟩ := c
  cases op with
  | take =>
    cases a with
    | members s => cases hs : s.contains id <;> simp [SetOp.gain, took, hs]
    | _ => simp [SetOp.gain, took]
  | _ => cases a <;> simp [SetOp.gain, took]

/-- What calls answered of an id, added up. -/
theorem sum_gain (id : VcpuId) (calls : List SetCall) :
    (calls.map fun c => c.1.gain id c.2).sum = (calls.count (.insert id, .yes true) : Int) -
      calls.count (.remove id, .yes true) - calls.countP (took id) := by
  induction calls with
  | nil => rfl
  | cons c calls ih =>
    have hc := gain_eq id c
    rw [List.map_cons, List.sum_cons, ih, List.count_cons, List.count_cons, List.countP_cons]
    simp only [beq_iff_eq]
    push_cast
    omega

end SetCall

/-- The calls of a thread, in order: what it was sent to do, each with what it returned. -/
def setCallsOf (ops : List (List SetOp)) (trace : List (Mark 32)) (t : Nat) : List SetCall :=
  ((ops[t]?.getD []).zip (returned t trace).reverse).map SetCall.ofWord

/-- The calls of all threads. -/
def setCalls (ops : List (List SetOp)) (trace : List (Mark 32)) : List SetCall :=
  (List.range ops.length).flatMap (setCallsOf ops trace)

/-! ### The word's history, read in terms of the set -/

/-- How the membership of an id changed by an operation that has taken effect. -/
def Deed.gain (id : VcpuId) (d : Deed 32) : Int :=
  let x := d.answer.value?.getD 0
  (Snapshot.contains ⟨(d.op.apply x).2⟩ id).toInt - (Snapshot.contains ⟨x⟩ id).toInt

theorem Legal.sum_gain {start x : BitVec 32} {deeds : List (Deed 32)} (h : Legal start deeds x)
    (hanswers : ∀ d ∈ deeds, ∀ y, (d.op.apply y).1 = .value y) (id : VcpuId) :
    (deeds.map (Deed.gain id)).sum =
      (Snapshot.contains ⟨x⟩ id).toInt - (Snapshot.contains ⟨start⟩ id).toInt := by
  induction h with
  | nil => exact (Int.sub_self _).symm
  | @cons deeds y t op _ ih =>
    have hop := hanswers _ List.mem_cons_self y
    have hrest := ih fun d hd => hanswers d (List.mem_cons_of_mem _ hd)
    rw [List.map_cons, List.sum_cons, hrest]
    simp only [Deed.gain, hop, Answer.value?, Option.getD_some]
    omega

/-- Word operations that carry out operations on a set, thread by thread. No id is out of range. -/
def CarryOut (ops : List (List SetOp)) (words : List (List (Op 32))) : Prop :=
  List.Forall₂ (List.Forall₂ fun op word => op.wordOp = .ok word) ops words

theorem CarryOut.thread {ops : List (List SetOp)} {words : List (List (Op 32))}
    (h : CarryOut ops words) (t : Nat) :
    List.Forall₂ (fun op word => op.wordOp = .ok word) (ops[t]?.getD []) (words[t]?.getD []) := by
  induction h generalizing t with
  | nil => exact .nil
  | cons hops _ ih =>
    cases t with
    | zero => exact hops
    | succ t => exact ih t

theorem CarryOut.answers {ops : List (List SetOp)} {words : List (List (Op 32))}
    (h : CarryOut ops words) {word : Op 32} (hw : word ∈ words.flatten) (x : BitVec 32) :
    (word.apply x).1 = .value x := by
  have hflat := List.rel_flatten h
  obtain ⟨k, hk, rfl⟩ := List.mem_iff_getElem.mp hw
  have hop := hflat.get (hflat.length_eq ▸ hk) hk
  exact congrArg Prod.fst (SetOp.apply_wordOp hop x)

/-- What the calls of a thread say of an id is how the membership changed by its operations. -/
theorem map_gain_ofWord {ops : List SetOp} {words : List (Op 32)}
    (hwords : List.Forall₂ (fun op word => op.wordOp = .ok word) ops words)
    {deeds : List (Deed 32)} (hdeeds : deeds.map Deed.op = words) (id : VcpuId) :
    ((ops.zip (deeds.map Deed.answer)).map SetCall.ofWord).map (fun c => c.1.gain id c.2) =
      deeds.map (Deed.gain id) := by
  induction hwords generalizing deeds with
  | nil =>
    cases List.map_eq_nil_iff.mp hdeeds
    rfl
  | @cons op word ops words hop _ ih =>
    obtain ⟨d, rest, rfl, rfl, hrest⟩ := List.map_eq_cons_iff.mp hdeeds
    have hd : op.gain id (op.answer (d.answer.value?.getD 0)) = d.gain id := by
      rw [SetOp.gain_answer hop, Deed.gain, SetOp.apply_wordOp hop]
    rw [List.map_cons, List.zip_cons_cons, List.map_cons, List.map_cons, List.map_cons, ih hrest,
      SetCall.ofWord, hd]

/-- The calls of a thread say of an id what the operations that took effect for it did. -/
theorem map_gain_setCallsOf {ops : List (List SetOp)} {words : List (List (Op 32))}
    {deeds : List (Deed 32)} {trace : List (Mark 32)} (hwords : CarryOut ops words) {t : Nat}
    (hops : (deedsOf t deeds).reverse.map Deed.op = words[t]?.getD [])
    (hanswers : (deedsOf t deeds).reverse.map Deed.answer = (returned t trace).reverse)
    (id : VcpuId) :
    ((setCallsOf ops trace t).map fun c => c.1.gain id c.2).Perm
      ((deedsOf t deeds).map (Deed.gain id)) := by
  have hcalls := map_gain_ofWord (hwords.thread t) hops id
  rw [hanswers, ← setCallsOf] at hcalls
  rw [hcalls, List.map_reverse]
  exact List.reverse_perm _

/-- Thread by thread or one after the other, it comes to the same changes of membership. -/
theorem perm_gains {ops : List (List SetOp)} {deeds : List (Deed 32)} {trace : List (Mark 32)}
    {id : VcpuId} (hthread : ∀ t, ((setCallsOf ops trace t).map fun c => c.1.gain id c.2).Perm
      ((deedsOf t deeds).map (Deed.gain id))) :
    (deeds.map (Deed.gain id)).Perm ((setCalls ops trace).map fun c => c.1.gain id c.2) := by
  have hparts := perm_flatten_of_filter (Deed.gain id) ((List.range ops.length).map fun t =>
    (setCallsOf ops trace t).map fun c => c.1.gain id c.2) Deed.thread deeds fun t => ?_
  · rwa [← List.flatMap_def, ← List.map_flatMap] at hparts
  · have hpart : ((List.range ops.length).map fun t =>
        (setCallsOf ops trace t).map fun c => c.1.gain id c.2)[t]?.getD [] =
        (setCallsOf ops trace t).map fun c => c.1.gain id c.2 := by
      by_cases ht : t < ops.length
      · simp [ht]
      · simp [ht, setCallsOf]
    rw [hpart]
    exact (hthread t).symm

/-! ### Main result -/

/-- What a race says of the members of the set that its threads shared: all operations returned,
and insertions that found an id absent, less removals that found it present and takings that held
it, make up the difference between its last and its first membership. -/
structure Accounted (set : VcpuSet) (ops : List (List SetOp)) (r : Race 32) : Prop where
  returned : ∀ t, (setCallsOf ops r.trace t).map Prod.fst = ops[t]?.getD []
  balance : ∀ id, ((setCalls ops r.trace).count (.insert id, .yes true) : Int) -
      (setCalls ops r.trace).count (.remove id, .yes true) -
      (setCalls ops r.trace).countP (SetCall.took id) =
    (Snapshot.contains ⟨r.cell.contents⟩ id).toInt - (set.snapshot.contains id).toInt

/-- Whatever the schedule, no member is lost, and none is handed out twice. -/
theorem members_accounted (set : VcpuSet) (fenced : Bool) (ops : List (List SetOp))
    (words : List (List (Op 32))) (hwords : CarryOut ops words) (schedule : List Move)
    (hf : ((Race.start { contents := set.bits, fenced } words).run schedule).finished = true) :
    Accounted set ops ((Race.start { contents := set.bits, fenced } words).run schedule) := by
  obtain ⟨deeds, h⟩ := linear_run { contents := set.bits, fenced } words schedule
  generalize (Race.start { contents := set.bits, fenced } words).run schedule = r at h hf ⊢
  have hops (t : Nat) : (deedsOf t deeds).reverse.map Deed.op = words[t]?.getD [] := by
    obtain ⟨hop, -, hprogram⟩ := h.of_finished hf t
    rw [List.map_reverse, hop, hprogram]
  have hanswers (t : Nat) :
      (deedsOf t deeds).reverse.map Deed.answer = (returned t r.trace).reverse := by
    rw [List.map_reverse, (h.of_finished hf t).2.1]
  constructor
  · intro t
    have hlen : (ops[t]?.getD []).length = (returned t r.trace).reverse.length := by
      rw [(hwords.thread t).length_eq, ← hops, ← hanswers, List.length_map, List.length_map]
    rw [setCallsOf, List.map_map]
    exact List.map_fst_zip (Nat.le_of_eq hlen)
  · intro id
    have hgains := perm_gains fun t => map_gain_setCallsOf hwords (hops t) (hanswers t) id
    have hvalues : ∀ d ∈ deeds, ∀ y, (d.op.apply y).1 = .value y := fun d hd =>
      hwords.answers ((h.perm_ops hf).mem_iff.mp (List.mem_map_of_mem hd))
    rw [← SetCall.sum_gain, ← hgains.sum_eq]
    exact h.legal.sum_gain hvalues id

/-- What two threads do to a set. -/
def sharing : List (List SetOp) :=
  [[.insert ⟨1⟩, .remove ⟨3⟩], [.take, .insert ⟨3⟩, .contains ⟨0⟩]]

/-- What they do to its word. -/
def sharingWords : List (List (Op 32)) :=
  [[.fetchOr 2, .fetchAnd (~~~8)], [.exchange 0, .fetchOr 8, .read]]

/-- The set held 0 and 3. Everything is taken while the first loop is between its load and its
swap; 3 comes back while the second loop is, and is then removed. -/
def shared : Race 32 :=
  (Race.start { contents := (VcpuSet.ofBits 9).bits, fenced := true } sharingWords).run
    (List.replicate 2 (.thread 0) ++ List.replicate 4 (.thread 1) ++ List.replicate 7 (.thread 0) ++
      List.replicate 8 (.thread 1) ++ List.replicate 6 (.thread 0))

theorem members_accounted_taken :
    CarryOut sharing sharingWords ∧ shared.finished = true ∧ shared.cell.contents = 2 ∧
      Accounted (.ofBits 9) sharing shared := by
  have hwords : CarryOut sharing sharingWords :=
    .cons (.cons rfl (.cons rfl .nil)) (.cons (.cons rfl (.cons rfl (.cons rfl .nil))) .nil)
  have hf : shared.finished = true := by cbv
  have hleft : shared.cell.contents = 2 := by cbv
  exact ⟨hwords, hf, hleft, members_accounted (.ofBits 9) true sharing sharingWords hwords _ hf⟩

end Interlock
