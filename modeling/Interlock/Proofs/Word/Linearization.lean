import Interlock.Proofs.Word.History

/-!
# Operations on a word are linearizable

The operations of a race that is over stand in one order, that in which they took effect, such that
running them one at a time in this order gives the same answers and the same contents. The pair
`(t, k)` is the number of the `k`-th operation of thread `t`, counted from zero.
-/

namespace Interlock

variable {w : Nat}

/-! ### Numbers of operations -/

/-- The operation with a number. -/
def opAt (todo : List (List (Op w))) (a : Nat × Nat) : Option (Op w) :=
  (todo[a.1]?.getD [])[a.2]?

/-- The answer that the operation with a number returned. -/
def answerAt (trace : List (Mark w)) (a : Nat × Nat) : Option (Answer w) :=
  (returned a.1 trace).reverse[a.2]?

/-- The operation `a` had returned when the operation `b` began. -/
def Precedes (trace : List (Mark w)) (a b : Nat × Nat) : Prop :=
  ∃ late op early, trace = late ++ .step b.1 (.began op) :: early ∧
    (begun b.1 early).length = b.2 ∧ a.2 < (returned a.1 early).length

/-- The numbers of the operations that took effect, the latest first. -/
def numbers : List (Deed w) → List (Nat × Nat)
  | [] => []
  | d :: deeds => (d.thread, (deedsOf d.thread deeds).length) :: numbers deeds

theorem mem_numbers {t k : Nat} {deeds : List (Deed w)} :
    (t, k) ∈ numbers deeds ↔ k < (deedsOf t deeds).length := by
  induction deeds with
  | nil => simp [numbers]
  | cons d deeds ih =>
    rw [numbers, List.mem_cons, ih, Prod.mk.injEq]
    by_cases h : d.thread = t
    · subst h
      rw [deedsOf_cons_self, List.length_cons]
      omega
    · rw [deedsOf_cons_of_ne h]
      have hne : t ≠ d.thread := Ne.symm h
      simp [hne]

theorem nodup_numbers (deeds : List (Deed w)) : (numbers deeds).Nodup := by
  induction deeds with
  | nil => exact List.nodup_nil
  | cons d deeds ih =>
    refine List.nodup_cons.mpr ⟨?_, ih⟩
    rw [mem_numbers]
    exact Nat.lt_irrefl _

theorem numbers_append (later deeds : List (Deed w)) :
    ∃ more, numbers (later ++ deeds) = more ++ numbers deeds := by
  induction later with
  | nil => exact ⟨[], rfl⟩
  | cons d later ih =>
    obtain ⟨more, hmore⟩ := ih
    refine ⟨(d.thread, (deedsOf d.thread (later ++ deeds)).length) :: more, ?_⟩
    rw [List.cons_append, numbers, hmore, List.cons_append]

/-- A number leads back to its deed. -/
theorem map_numbers (later deeds : List (Deed w)) :
    (numbers deeds).map (fun a => (deedsOf a.1 (later ++ deeds)).reverse[a.2]?) =
      deeds.map some := by
  induction deeds generalizing later with
  | nil => rfl
  | cons d deeds ih =>
    have hrest := ih (later ++ [d])
    rw [List.append_assoc, List.singleton_append] at hrest
    have hself : deedsOf d.thread (later ++ d :: deeds) =
        deedsOf d.thread later ++ d :: deedsOf d.thread deeds := by
      rw [← deedsOf_cons_self, deedsOf, List.filter_append, deedsOf, deedsOf]
    have hlen : (deedsOf d.thread deeds).reverse.length = (deedsOf d.thread deeds).length :=
      List.length_reverse
    rw [numbers, List.map_cons, List.map_cons, hrest, hself, List.reverse_append,
      List.reverse_cons, List.append_assoc, ← hlen, List.getElem?_append_right (Nat.le_refl _),
      Nat.sub_self]
    rfl

theorem map_numbers_reverse {β : Type} (f : Deed w → β) (deeds : List (Deed w)) :
    (numbers deeds).reverse.map (fun a => (deedsOf a.1 deeds).reverse[a.2]?.map f) =
      (deeds.map f).reverse.map some := by
  have hmap := congrArg (List.map (Option.map f)) (map_numbers [] deeds)
  rw [List.map_map, List.map_map] at hmap
  rw [List.map_reverse, List.map_reverse, List.map_map]
  exact congrArg List.reverse hmap

/-! ### Running operations one at a time -/

/-- The cell after actions carried out one after the other. -/
def Session.leaves (actions : List (Action w)) (m : Cell w) : Cell w :=
  actions.foldl (fun n a => (a.run n).cell) m

theorem Session.run_append (first second : List (Action w)) (m : Cell w) :
    Session.run (first ++ second) m =
      Session.run first m ++ Session.run second (Session.leaves first m) := by
  induction first generalizing m with
  | nil => rfl
  | cons a first ih => exact congrArg (List.cons _) (ih (a.run m).cell)

theorem Session.leaves_append (first second : List (Action w)) (m : Cell w) :
    Session.leaves (first ++ second) m = Session.leaves second (Session.leaves first m) :=
  List.foldl_append

theorem Legal.session {cell : Cell w} {deeds : List (Deed w)} {x : BitVec w}
    (h : Legal cell.contents deeds x) :
    (Session.run ((deeds.map Deed.op).reverse.map .perform) cell).map Execution.answer =
        (deeds.map Deed.answer).reverse ∧
      (Session.leaves ((deeds.map Deed.op).reverse.map .perform) cell).contents = x := by
  induction h with
  | nil => exact ⟨rfl, rfl⟩
  | @cons deeds x t op _ ih =>
    obtain ⟨hanswers, hleaves⟩ := ih
    rw [List.map_cons, List.map_cons, List.reverse_cons, List.reverse_cons, List.map_append,
      Session.run_append, Session.leaves_append, List.map_append, hanswers]
    have hrun := Op.run_eq op
      (Session.leaves ((deeds.map Deed.op).reverse.map .perform) cell)
    rw [hleaves] at hrun
    constructor
    · exact congrArg (_ ++ [·]) hrun.1
    · exact congrArg Cell.contents hrun.2

/-! ### Main result -/

/-- An order of the numbers of the operations `todo`, each once, that keeps every pair of which one
had returned when the other began, and the operations `ops` in this order: running them one at a
time gives each the answer that it returned in the race, and leaves the same contents. -/
structure Linearization (cell : Cell w) (todo : List (List (Op w))) (r : Race w)
    (order : List (Nat × Nat)) (ops : List (Op w)) : Prop where
  nodup : order.Nodup
  mem_iff : ∀ a, a ∈ order ↔ (opAt todo a).isSome
  realTime : ∀ a b, Precedes r.trace a b → [a, b].Sublist order
  ops_eq : order.map (opAt todo) = ops.map some
  answers : order.map (answerAt r.trace) =
    (Session.run (ops.map .perform) cell).map (some ·.answer)
  contents : (Session.leaves (ops.map .perform) cell).contents = r.cell.contents

theorem Linear.realTime {start : BitVec w} {todo : List (List (Op w))} {r : Race w}
    {deeds : List (Deed w)} (h : Linear start todo r deeds)
    (hdone : ∀ t, (begun t r.trace).length ≤ (deedsOf t deeds).length) {a b : Nat × Nat}
    (hp : Precedes r.trace a b) : [a, b].Sublist (numbers deeds).reverse := by
  -- When `b` began, `a` had taken effect and `b` had not.
  obtain ⟨late, op, early, htrace, hb, ha⟩ := hp
  have hearly : early <:+ r.trace := by
    rw [htrace]
    exact (List.suffix_cons _ early).trans (List.suffix_append late _)
  obtain ⟨past, ⟨later, rfl⟩, hbounds⟩ := h.cuts early hearly
  obtain ⟨more, hmore⟩ := numbers_append later past
  have hapast : a ∈ numbers past := mem_numbers.mpr (Nat.lt_of_lt_of_le ha (hbounds a.1).1)
  have hbpast : b ∉ numbers past := by
    intro hmem
    have hlt := mem_numbers.mp hmem
    have hle := (hbounds b.1).2
    omega
  have hball : b ∈ numbers (later ++ past) := by
    refine mem_numbers.mpr (Nat.lt_of_lt_of_le ?_ (hdone b.1))
    have hlong : (begun b.1 (.step b.1 (.began op) :: early)).length ≤
        (begun b.1 r.trace).length := by
      rw [htrace]
      exact ((List.sublist_append_right late _).filterMap _).length_le
    rw [begun_began, List.length_cons, hb] at hlong
    omega
  rw [hmore] at hball ⊢
  have hbmore : b ∈ more := (List.mem_append.mp hball).resolve_right hbpast
  have hsub : [b, a].Sublist (more ++ numbers past) :=
    (List.singleton_sublist.mpr hbmore).append (List.singleton_sublist.mpr hapast)
  exact hsub.reverse

theorem Linear.opAt_eq {start : BitVec w} {todo : List (List (Op w))} {r : Race w}
    {deeds : List (Deed w)} (h : Linear start todo r deeds) (hf : r.finished = true)
    (a : Nat × Nat) : opAt todo a = (deedsOf a.1 deeds).reverse[a.2]?.map Deed.op := by
  obtain ⟨hbegun, -, hprogram⟩ := h.of_finished hf a.1
  rw [opAt, hprogram, ← hbegun, ← List.map_reverse, List.getElem?_map]

theorem Linear.answerAt_eq {start : BitVec w} {todo : List (List (Op w))} {r : Race w}
    {deeds : List (Deed w)} (h : Linear start todo r deeds) (hf : r.finished = true)
    (a : Nat × Nat) :
    answerAt r.trace a = (deedsOf a.1 deeds).reverse[a.2]?.map Deed.answer := by
  obtain ⟨-, hreturned, -⟩ := h.of_finished hf a.1
  rw [answerAt, ← hreturned, ← List.map_reverse, List.getElem?_map]

/-- Whatever the schedule, the operations of a race that is over have a linearization. -/
theorem linearizable (cell : Cell w) (todo : List (List (Op w))) (schedule : List Move)
    (hf : ((Race.start cell todo).run schedule).finished = true) :
    ∃ order ops, Linearization cell todo ((Race.start cell todo).run schedule) order ops := by
  obtain ⟨deeds, h⟩ := linear_run cell todo schedule
  obtain ⟨hanswers, hleaves⟩ := h.legal.session
  refine ⟨(numbers deeds).reverse, (deeds.map Deed.op).reverse, ?_, ?_, ?_, ?_, ?_, hleaves⟩
  · exact (List.reverse_perm _).nodup_iff.mpr (nodup_numbers deeds)
  · intro a
    rw [List.mem_reverse, mem_numbers, h.opAt_eq hf, Option.isSome_map, Option.isSome_iff_ne_none,
      ne_eq, List.getElem?_eq_none_iff, List.length_reverse, Nat.not_le]
  · intro a b hp
    refine h.realTime (fun t => Nat.le_of_eq ?_) hp
    rw [← (h.of_finished hf t).1, List.length_map]
  · rw [funext (h.opAt_eq hf)]
    exact map_numbers_reverse Deed.op deeds
  · have hsession := congrArg (List.map some) hanswers
    rw [List.map_map] at hsession
    rw [funext (h.answerAt_eq hf), map_numbers_reverse Deed.answer deeds]
    exact hsession.symm

/-- Two threads' operations: an update loop and a read, against an exchange and two additions. -/
def loopAndWriter : List (List (Op 32)) := [[.fetchOr 1, .read], [.exchange 4, .add 1, .sub 1]]

/-- The loop is overtaken twice: by the exchange, after which its swap fails, and by two operations
that leave what it expects, after which its swap succeeds. -/
def overtaking : List Move :=
  List.replicate 2 (.thread 0) ++ List.replicate 4 (.thread 1) ++ List.replicate 2 (.thread 0) ++
    List.replicate 8 (.thread 1) ++ List.replicate 6 (.thread 0)

/-- The race of the two threads. -/
def overtaken : Race 32 := (Race.start { contents := 2 } loopAndWriter).run overtaking

/-- The exchange had returned when the read began, and so it stands before the read. -/
theorem linearizable_overtaken :
    overtaken.finished = true ∧ ∃ order ops,
      Linearization { contents := 2 } loopAndWriter overtaken order ops ∧
        [(1, 0), (0, 1)].Sublist order := by
  have hf : overtaken.finished = true := by cbv
  have hp : Precedes overtaken.trace (1, 0) (0, 1) := by
    refine ⟨overtaken.trace.take 2, .read, overtaken.trace.drop 3, ?_, ?_, ?_⟩
    · cbv
    · show (begun 0 (overtaken.trace.drop 3)).length = 1
      cbv
    · show 0 < (returned 1 (overtaken.trace.drop 3)).length
      cbv
  obtain ⟨order, ops, h⟩ := linearizable { contents := 2 } loopAndWriter overtaking hf
  exact ⟨hf, order, ops, h, h.realTime _ _ hp⟩

end Interlock
