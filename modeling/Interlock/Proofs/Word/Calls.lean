import Interlock.Word.Session

/-!
# When an operation takes effect

A call is pending until the instruction at which its operation takes effect: its only access, or
the attempt that finds what the loop expects. Every instruction before leaves the word alone. The
one at which it takes effect changes the word as the operation does at one instant, and the call
has then decided on the operation's answer. What is left to do after it touches the word no more.
-/

namespace Interlock

variable {w : Nat}

/-! ### The method of an operation -/

theorem Op.apply_of_single {op : Op w} {a : Access w} {fenced : Bool}
    {answer : BitVec w → Answer w} (h : op.method = .single a fenced answer) (x : BitVec w) :
    op.apply x = (answer x, a.effect x) := by
  cases op with
  | fetchDec =>
    cases h
    rw [Op.apply, Access.effect, BitVec.zero_sub, BitVec.sub_eq_add_neg]
  | _ => cases h <;> rfl

theorem Op.apply_of_retry {op : Op w} {f : BitVec w → BitVec w} {reload : Bool}
    (h : op.method = .retry f reload) (x : BitVec w) : op.apply x = (.value x, f x) := by
  cases op <;> cases h <;> rfl

theorem Access.effect_compareExchange_of_ne {old new x : BitVec w} (h : x ≠ old) :
    (Access.compareExchange old new).effect x = x :=
  if_neg h

namespace Call

/-! ### Steps of a call -/

/-- The answer that a call has decided on. -/
def decided? : Call w → Option (Answer w)
  | .returned answer => some answer
  | .check next => next.decided?
  | _ => none

/-- A call that carries out an operation, and has not come to the instruction at which the
operation takes effect. -/
inductive Pending (op : Op w) : Call w → Prop
  | single {a fenced answer} : op.method = .single a fenced answer →
    Pending op (.single a fenced answer)
  | load {f reload} : op.method = .retry f reload → Pending op (.load f reload)
  | attempt {f reload} (current : BitVec w) : op.method = .retry f reload →
    Pending op (.attempt f reload current)
  | check {next} : Pending op next → Pending op (.check next)

theorem pending_call (op : Op w) : Pending op op.call := by
  unfold Op.call Method.call
  split
  · exact .single (by assumption)
  · exact .load (by assumption)

theorem decided?_afterSingle (fenced : Bool) (answer : Answer w) :
    (afterSingle fenced answer).decided? = some answer := by
  cases fenced <;> rfl

theorem pending_afterAttempt {op : Op w} {f : BitVec w → BitVec w} {reload : Bool}
    {current seen : BitVec w} (h : op.method = .retry f reload) (hne : seen ≠ current) :
    Pending op (afterAttempt f reload current seen) := by
  rw [afterAttempt, if_neg hne]
  cases reload
  · exact .attempt seen h
  · exact .load h

/-- A pending call carries out an instruction. It leaves the word alone and the call pending, or
the operation takes effect. -/
theorem step_of_pending {op : Op w} {c : Call w} (h : Pending op c) (m : Cell w) :
    ∃ i rest n, c.step m = .next i rest n ∧
      ((Pending op rest ∧ n = m) ∨
        (rest.decided? = some (op.apply m.contents).1 ∧
          n = { m with contents := (op.apply m.contents).2 })) := by
  cases h with
  | @single a fenced answer hm =>
    refine ⟨_, _, _, rfl, .inr ?_⟩
    rw [Op.apply_of_single hm]
    exact ⟨decided?_afterSingle fenced _, rfl⟩
  | load hm => exact ⟨_, _, _, rfl, .inl ⟨.attempt _ hm, rfl⟩⟩
  | @attempt f reload current hm =>
    refine ⟨_, _, _, rfl, ?_⟩
    by_cases hx : m.contents = current
    · right
      rw [Op.apply_of_retry hm]
      simp only [decided?, afterAttempt, hx, if_true, Cell.access, Access.effect, and_self]
    · left
      refine ⟨.check (pending_afterAttempt hm hx), ?_⟩
      rw [Cell.access, Access.effect_compareExchange_of_ne hx]
  | check hnext => exact ⟨_, _, _, rfl, .inl ⟨hnext, rfl⟩⟩

/-- A call that has decided returns, or looks at the fence switch and goes on having decided. -/
theorem step_of_decided {c : Call w} {answer : Answer w} (h : c.decided? = some answer)
    (m : Cell w) :
    c.step m = .returned answer ∨
      ∃ i rest, c.step m = .next i rest m ∧ rest.decided? = some answer := by
  cases c with
  | returned a =>
    cases h
    exact .inl rfl
  | check next => exact .inr ⟨_, next, rfl, h⟩
  | _ => cases h

/-! ### Operations run alone -/

theorem finish_of_returned {c : Call w} {m : Cell w} {answer : Answer w}
    (h : c.step m = .returned answer) : c.finish m = ⟨answer, m, []⟩ := by
  rw [finish]
  split <;> simp_all

theorem finish_of_next {c rest : Call w} {m n : Cell w} {i : Instruction w}
    (h : c.step m = .next i rest n) : c.finish m = (rest.finish n).after i := by
  rw [finish]
  split <;> simp_all

theorem finish_of_decided {c : Call w} {answer : Answer w} (m : Cell w)
    (h : c.decided? = some answer) : (c.finish m).answer = answer ∧ (c.finish m).cell = m := by
  induction c with
  | returned a =>
    cases h
    rw [finish_of_returned rfl]
    exact ⟨rfl, rfl⟩
  | check next ih =>
    rw [finish_of_next rfl]
    exact ih h
  | _ => cases h

theorem finish_of_pending {op : Op w} (c : Call w) (m : Cell w) (h : Pending op c) :
    (c.finish m).answer = (op.apply m.contents).1 ∧
      (c.finish m).cell = { m with contents := (op.apply m.contents).2 } := by
  induction c, m using finish.induct with
  | case1 c m answer hs =>
    obtain ⟨i, rest, n, hnext, -⟩ := step_of_pending h m
    rw [hs] at hnext
    cases hnext
  | case2 c m i rest n hs ih =>
    obtain ⟨i', rest', n', hnext, hrest⟩ := step_of_pending h m
    cases hs.symm.trans hnext
    rw [finish_of_next hs]
    rcases hrest with ⟨hp, rfl⟩ | ⟨hd, rfl⟩
    · exact ih hp
    · exact finish_of_decided _ hd

end Call

/-- An operation run alone does at once what it does at one instant. -/
theorem Op.run_eq (op : Op w) (m : Cell w) :
    (op.run m).answer = (op.apply m.contents).1 ∧
      (op.run m).cell = { m with contents := (op.apply m.contents).2 } :=
  Call.finish_of_pending op.call m (Call.pending_call op)

end Interlock
