import Mathlib.Data.BitVec
import Interlock.Proofs.Word.History

/-!
# Tickets

Operations that answer the contents and move them on by one and the same step deal out the terms of
a sequence. Whoever draws, and however the draws fall between each other, each term is dealt once
and none is left out.
-/

namespace Interlock

variable {w : Nat}

/-! ### Draws -/

/-- The first `n` tickets of a sequence, as answers. -/
def tickets (ticket : Nat → BitVec w) (n : Nat) : List (Answer w) :=
  (List.range n).map fun k => .value (ticket k)

theorem tickets_succ (ticket : Nat → BitVec w) (n : Nat) :
    tickets ticket (n + 1) = tickets ticket n ++ [.value (ticket n)] := by
  rw [tickets, List.range_succ, List.map_append]
  rfl

/-- An operation that answers the contents and moves them on. -/
def Op.Draws (next : BitVec w → BitVec w) (op : Op w) : Prop :=
  ∀ x, op.apply x = (.value x, next x)

theorem Legal.tickets {ticket : Nat → BitVec w} {next : BitVec w → BitVec w}
    {deeds : List (Deed w)} {x : BitVec w} (h : Legal (ticket 0) deeds x)
    (hnext : ∀ k, ticket (k + 1) = next (ticket k)) (hdraws : ∀ d ∈ deeds, d.op.Draws next) :
    (deeds.map Deed.answer).Perm (tickets ticket deeds.length) ∧ x = ticket deeds.length := by
  induction h with
  | nil => exact ⟨.refl _, rfl⟩
  | @cons deeds x t op _ ih =>
    obtain ⟨hperm, rfl⟩ := ih fun d hd => hdraws d (List.mem_cons_of_mem _ hd)
    have hop : op.Draws next := hdraws _ List.mem_cons_self
    rw [List.length_cons, tickets_succ, hnext, List.map_cons, hop]
    exact ⟨(hperm.cons _).trans (List.perm_append_singleton _ _).symm, rfl⟩

/-- A race dealt out the first `n` tickets of a sequence, and left the next one. As long as a word
has as many values, no two of them are the same. -/
structure DealsOut (r : Race w) (ticket : Nat → BitVec w) (n : Nat) : Prop where
  answers : r.answers.Perm (tickets ticket n)
  contents : r.cell.contents = ticket n
  nodup : n ≤ 2 ^ w → r.answers.Nodup

theorem nodup_tickets {ticket : Nat → BitVec w} {n : Nat}
    (hinj : ∀ j k, ticket j = ticket k → BitVec.ofNat w j = BitVec.ofNat w k) (hn : n ≤ 2 ^ w) :
    (tickets ticket n).Nodup := by
  refine List.pairwise_map.mpr (List.pairwise_lt_range.imp_of_mem ?_)
  intro j k hj hk hlt heq
  rw [List.mem_range] at hj hk
  have hnat := congrArg BitVec.toNat (hinj j k (Answer.value.inj heq))
  rw [BitVec.toNat_ofNat, BitVec.toNat_ofNat, Nat.mod_eq_of_lt (by omega),
    Nat.mod_eq_of_lt (by omega)] at hnat
  omega

theorem dealsOut_of_draws (cell : Cell w) (todo : List (List (Op w))) (schedule : List Move)
    (hf : ((Race.start cell todo).run schedule).finished = true) {ticket : Nat → BitVec w}
    (next : BitVec w → BitVec w) (hzero : ticket 0 = cell.contents)
    (hnext : ∀ k, ticket (k + 1) = next (ticket k))
    (hinj : ∀ j k, ticket j = ticket k → BitVec.ofNat w j = BitVec.ofNat w k)
    (hdraws : ∀ op ∈ todo.flatten, op.Draws next) :
    DealsOut ((Race.start cell todo).run schedule) ticket todo.flatten.length := by
  obtain ⟨deeds, h⟩ := linear_run cell todo schedule
  have hops := h.perm_ops hf
  have hlen : deeds.length = todo.flatten.length := by
    rw [← hops.length_eq, List.length_map]
  have hlegal := h.legal
  rw [← hzero] at hlegal
  obtain ⟨hperm, hcontents⟩ := hlegal.tickets hnext fun d hd =>
    hdraws d.op (hops.mem_iff.mp (List.mem_map_of_mem hd))
  rw [hlen] at hperm hcontents
  have hanswers := (h.perm_answers hf).symm.trans hperm
  exact ⟨hanswers, hcontents, fun hn => hanswers.nodup_iff.mpr (nodup_tickets hinj hn)⟩

/-! ### Main result -/

/-- Whatever the schedule, increments deal out the values from the start value on, and decrements
those from it down. -/
theorem tickets_gap_free (cell : Cell w) (todo : List (List (Op w))) (schedule : List Move)
    (hf : ((Race.start cell todo).run schedule).finished = true) :
    ((∀ op ∈ todo.flatten, op = .fetchInc ∨ op = .advance (· + 1#w)) →
      DealsOut ((Race.start cell todo).run schedule)
        (fun k => cell.contents + BitVec.ofNat w k) todo.flatten.length) ∧
      ((∀ op ∈ todo.flatten, op = .fetchDec) →
        DealsOut ((Race.start cell todo).run schedule)
          (fun k => cell.contents - BitVec.ofNat w k) todo.flatten.length) := by
  constructor
  · intro hall
    refine dealsOut_of_draws cell todo schedule hf (· + 1#w) (BitVec.add_zero _) ?_ ?_ ?_
    · intro k
      rw [BitVec.ofNat_add, BitVec.add_assoc]
    · exact fun j k heq => (BitVec.add_right_inj _).mp heq
    · intro op hop
      rcases hall op hop with rfl | rfl <;> exact fun x => rfl
  · intro hall
    refine dealsOut_of_draws cell todo schedule hf (· - 1#w) (BitVec.sub_zero _) ?_ ?_ ?_
    · intro k
      rw [BitVec.ofNat_add, BitVec.sub_sub]
    · exact fun j k heq => (BitVec.sub_right_inj _).mp heq
    · intro op hop
      rw [hall op hop]
      exact fun x => rfl

/-- Two threads that draw by increments of both kinds. -/
def drawers : List (List (Op 32)) :=
  [[.advance (· + 1#32), .fetchInc], [.fetchInc, .advance (· + 1#32)]]

/-- A loop has loaded when the other thread draws, and so its first swap fails. The contents wrap
before it draws. -/
def drawing : Race 32 :=
  (Race.start { contents := 0xfffffffe } drawers).run
    (List.replicate 2 (.thread 0) ++ List.replicate 8 (.thread 1) ++
      List.replicate 12 (.thread 0) ++ List.replicate 2 (.thread 1))

/-- Two threads that decrement in turn. -/
def drawingDown : Race 32 :=
  (Race.start { contents := 0 } [[.fetchDec], [.fetchDec]]).run
    (List.replicate 4 [Move.thread 0, .thread 1]).flatten

theorem tickets_gap_free_wrapped :
    (drawing.finished = true ∧ drawing.cell.contents = 2 ∧ drawing.answers.Nodup ∧
      drawing.answers.Perm [.value 0xfffffffe, .value 0xffffffff, .value 0, .value 1]) ∧
    (drawingDown.finished = true ∧ drawingDown.cell.contents = 0xfffffffe ∧
      drawingDown.answers.Nodup ∧ drawingDown.answers.Perm [.value 0, .value 0xffffffff]) := by
  have hup : drawing.finished = true := by cbv
  have hdown : drawingDown.finished = true := by cbv
  have hdealt := (tickets_gap_free _ _ _ hup).1 (by simp [drawers])
  have hdealtDown := (tickets_gap_free _ _ _ hdown).2 (by simp)
  refine ⟨⟨hup, hdealt.contents, hdealt.nodup (by decide), hdealt.answers⟩, hdown,
    hdealtDown.contents, hdealtDown.nodup (by decide), hdealtDown.answers⟩

end Interlock
