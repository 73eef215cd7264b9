import Mathlib.Data.List.Forall2
import Interlock.Word.Session
import Interlock.Proofs.Word.History

/-!
# Throwing the fence switch changes no value

A call looks at the fence switch and goes on in the same way whatever it saw. So two calls that
begin on the same contents stay side by side however the switch stands, and a session, a script or
a race comes to the same values when all throws of the switch are taken out.
-/

namespace Interlock

variable {w : Nat}

/-! ### Calls -/

/-- An instruction, whatever it saw of the fence switch. -/
def Instruction.blind : Instruction w → Instruction w
  | .check _ => .check false
  | i => i

/-- A step on the same contents does the same, whatever a check sees. -/
theorem Call.step_of_contents (c : Call w) {m m' : Cell w} (h : m.contents = m'.contents) :
    (∃ answer, c.step m = .returned answer ∧ c.step m' = .returned answer) ∨
      ∃ i i' rest n n', c.step m = .next i rest n ∧ c.step m' = .next i' rest n' ∧
        i.blind = i'.blind ∧ n.contents = n'.contents := by
  obtain ⟨x, b⟩ := m
  obtain ⟨x', b'⟩ := m'
  obtain rfl : x = x' := h
  cases c with
  | returned answer => exact .inl ⟨answer, rfl, rfl⟩
  | _ => exact .inr ⟨_, _, _, _, _, rfl, rfl, rfl, rfl⟩

/-- Executions that differ in nothing but the fence switch. -/
structure Execution.Alike (e e' : Execution w) : Prop where
  answer : e.answer = e'.answer
  contents : e.cell.contents = e'.cell.contents
  instructions : e.instructions.map Instruction.blind = e'.instructions.map Instruction.blind

theorem Execution.Alike.after {e e' : Execution w} {i i' : Instruction w} (h : e.Alike e')
    (hi : i.blind = i'.blind) : (e.after i).Alike (e'.after i') := by
  refine ⟨h.answer, h.contents, ?_⟩
  simp only [Execution.after, List.map_cons, hi, h.instructions]

theorem Call.finish_alike (c : Call w) {m m' : Cell w} (h : m.contents = m'.contents) :
    (c.finish m).Alike (c.finish m') := by
  induction c, m using finish.induct generalizing m' with
  | case1 c m answer hs =>
    rcases c.step_of_contents h with ⟨answer', hm, hm'⟩ | ⟨i, i', rest, n, n', hm, -⟩
    · cases hs.symm.trans hm
      rw [finish_of_returned hm, finish_of_returned hm']
      exact ⟨rfl, h, rfl⟩
    · cases hs.symm.trans hm
  | case2 c m i rest n hs ih =>
    rcases c.step_of_contents h with ⟨answer, hm, -⟩ | ⟨i, i', rest, n, n', hm, hm', hi, hn⟩
    · cases hs.symm.trans hm
    · cases hs.symm.trans hm
      rw [finish_of_next hm, finish_of_next hm']
      exact (ih hn).after hi

/-! ### Scripts -/

def Disturbance.store? : Disturbance w → Option (BitVec w)
  | .store v => some v
  | .setFence _ => none

theorem contents_foldl_disturb (others : List (Disturbance w)) (m : Cell w) :
    (others.foldl Cell.disturb m).contents =
      (others.filterMap Disturbance.store?).getLastD m.contents := by
  induction others generalizing m with
  | nil => rfl
  | cons d others ih =>
    rw [List.foldl_cons, ih]
    cases d with
    | store v => exact List.getLastD_cons.symm
    | setFence b => rfl

/-- Scripts with the same stores come to the same values, wherever they throw the switch. -/
theorem Call.amid_alike {script script' : List (List (Disturbance w))}
    (hs : script.map (List.filterMap Disturbance.store?) =
      script'.map (List.filterMap Disturbance.store?)) (c : Call w) {m m' : Cell w}
    (h : m.contents = m'.contents) : (c.amid script m).Alike (c.amid script' m') := by
  induction script generalizing script' c m m' with
  | nil =>
    obtain rfl := List.map_eq_nil_iff.mp hs.symm
    exact c.finish_alike h
  | cons others script ih =>
    cases script' with
    | nil => cases hs
    | cons others' script' =>
      obtain ⟨hothers, hscript⟩ := List.cons.inj hs
      have hothers : (others.foldl Cell.disturb m).contents =
          (others'.foldl Cell.disturb m').contents := by
        rw [contents_foldl_disturb, contents_foldl_disturb, hothers, h]
      rcases c.step_of_contents hothers with
        ⟨answer, hm, hm'⟩ | ⟨i, i', rest, n, n', hm, hm', hi, hn⟩
      · simp only [amid, hm, hm']
        exact ⟨rfl, h, rfl⟩
      · simp only [amid, hm, hm']
        exact (ih hscript rest hn).after hi

/-! ### Sessions -/

def Action.setsFence : Action w → Bool
  | .setFence _ => true
  | _ => false

theorem Action.run_alike (a : Action w) {m m' : Cell w} (h : m.contents = m'.contents) :
    (a.run m).Alike (a.run m') := by
  cases a with
  | perform op => exact op.call.finish_alike h
  | updateAmid f stores => exact Call.amid_alike rfl _ h
  | replace v => exact ⟨congrArg Answer.value h, rfl, rfl⟩
  | setFence b => exact ⟨rfl, h, rfl⟩

theorem Action.contents_of_setsFence {a : Action w} (h : a.setsFence = true) (m : Cell w) :
    (a.run m).cell.contents = m.contents := by
  cases a with
  | setFence b => rfl
  | _ => cases h

namespace Session

/-- The executions of a session that are not throws of the switch. -/
def kept (actions : List (Action w)) (m : Cell w) : List (Execution w) :=
  ((actions.zip (run actions m)).filter fun p => !p.1.setsFence).map Prod.snd

/-- The cell that a session leaves. -/
def cell (actions : List (Action w)) (m : Cell w) : Cell w :=
  ((run actions m).map Execution.cell).getLastD m

theorem kept_cons_of_setsFence {a : Action w} (h : a.setsFence = true)
    (actions : List (Action w)) (m : Cell w) :
    kept (a :: actions) m = kept actions (a.run m).cell := by
  simp only [kept, run, List.zip_cons_cons, List.filter_cons, h]
  rfl

theorem kept_cons_of_not_setsFence {a : Action w} (h : a.setsFence = false)
    (actions : List (Action w)) (m : Cell w) :
    kept (a :: actions) m = a.run m :: kept actions (a.run m).cell := by
  simp only [kept, run, List.zip_cons_cons, List.filter_cons, h]
  rfl

theorem cell_cons (a : Action w) (actions : List (Action w)) (m : Cell w) :
    cell (a :: actions) m = cell actions (a.run m).cell := by
  rw [cell, run, List.map_cons, List.getLastD_cons, cell]

/-- A session comes to the same values, action by action and at its end, without its throws of the
switch. -/
theorem run_alike (actions : List (Action w)) {m m' : Cell w} (h : m.contents = m'.contents) :
    List.Forall₂ Execution.Alike (kept actions m)
        (run (actions.filter fun a => !a.setsFence) m') ∧
      (cell actions m).contents = (cell (actions.filter fun a => !a.setsFence) m').contents := by
  induction actions generalizing m m' with
  | nil => exact ⟨.nil, h⟩
  | cons a actions ih =>
    cases ha : a.setsFence with
    | true =>
      rw [kept_cons_of_setsFence ha, cell_cons, List.filter_cons_of_neg (by simp [ha])]
      exact ih ((Action.contents_of_setsFence ha m).trans h)
    | false =>
      rw [kept_cons_of_not_setsFence ha, cell_cons, List.filter_cons_of_pos (by simp [ha]), run,
        cell_cons]
      obtain ⟨hrest, hcell⟩ := ih (a.run_alike h).contents
      exact ⟨.cons (a.run_alike h) hrest, hcell⟩

end Session

/-! ### Races -/

def Event.blind : Event w → Event w
  | .did i => .did i.blind
  | e => e

/-- What a mark shows beside the fence switch. -/
def Mark.blind? : Mark w → Option (Nat × Event w)
  | .step t event => some (t, event.blind)
  | .setFence _ => none

def Move.setsFence : Move → Bool
  | .setFence _ => true
  | .thread _ => false

namespace Race

/-- Races that differ in nothing but the fence switch. -/
structure Alike (r r' : Race w) : Prop where
  contents : r.cell.contents = r'.cell.contents
  threads : r.threads = r'.threads
  trace : r.trace.filterMap Mark.blind? = r'.trace.filterMap Mark.blind?

theorem alike_start {m m' : Cell w} (h : m.contents = m'.contents) (todo : List (List (Op w))) :
    (start m todo).Alike (start m' todo) :=
  ⟨h, rfl, rfl⟩

/-- The answer that a step shows. -/
def answer? : Nat × Event w → Option (Answer w)
  | (_, .returned answer) => some answer
  | _ => none

theorem answers_eq (r : Race w) :
    r.answers = (r.trace.filterMap Mark.blind?).filterMap answer? := by
  rw [answers, List.filterMap_filterMap]
  refine List.filterMap_congr fun mark _ => ?_
  cases mark with
  | setFence b => rfl
  | step t event => cases event <;> rfl

theorem Alike.answers {r r' : Race w} (h : r.Alike r') : r.answers = r'.answers := by
  rw [answers_eq, answers_eq, h.trace]

theorem Alike.step {r r' : Race w} (h : r.Alike r') (t : Nat) :
    (r.step (.thread t)).Alike (r'.step (.thread t)) := by
  obtain ⟨cell, threads, trace⟩ := r
  obtain ⟨cell', threads', trace'⟩ := r'
  obtain ⟨hcontents, rfl, htrace⟩ := h
  simp only [Race.step]
  rcases threads[t]? with _ | ⟨call, todo⟩
  · exact ⟨hcontents, rfl, htrace⟩
  · rcases call with _ | c
    · rcases todo with _ | ⟨op, todo⟩
      · exact ⟨hcontents, rfl, htrace⟩
      · exact ⟨hcontents, rfl, congrArg (List.cons _) htrace⟩
    · simp only [Runner.step]
      rcases c.step_of_contents hcontents with
        ⟨answer, hm, hm'⟩ | ⟨i, i', rest, n, n', hm, hm', hi, hn⟩
      · simp only [hm, hm']
        exact ⟨hcontents, rfl, congrArg (List.cons _) htrace⟩
      · simp only [hm, hm']
        refine ⟨hn, rfl, ?_⟩
        show (t, Event.did i.blind) :: _ = (t, Event.did i'.blind) :: _
        rw [hi]
        exact congrArg (List.cons _) htrace

/-- A race comes to the same values without the throws of the switch in its schedule. -/
theorem Alike.run {r r' : Race w} (h : r.Alike r') (schedule : List Move) :
    (r.run schedule).Alike (r'.run (schedule.filter fun move => !move.setsFence)) := by
  induction schedule generalizing r r' with
  | nil => exact h
  | cons move rest ih =>
    cases move with
    | thread t => exact ih (h.step t)
    | setFence b => exact ih (r := r.step (.setFence b)) ⟨h.contents, h.threads, h.trace⟩

end Race

end Interlock
