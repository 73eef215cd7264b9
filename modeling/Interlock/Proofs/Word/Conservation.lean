import Mathlib.Data.List.Perm.Basic
import Interlock.Proofs.Word.History

/-!
# Exchanges neither lose a value nor hand one back twice

A thread that exchanges has a value with it: its operand until it swaps it in, and what it found in
the word from then on, until it hands that back. At each instant the word, the threads and what has
been handed back hold between them the start value and all operands, each as often as it was given.
-/

namespace Interlock

variable {w : Nat}

/-! ### What a thread holds -/

/-- The value that an exchange under way has with it. -/
def Call.held : Call w → List (BitVec w)
  | .single (.exchange v) _ _ => [v]
  | .check next => next.held
  | .returned (.value x) => [x]
  | _ => []

/-- The value that an exchange brings. -/
def Op.brought : Op w → List (BitVec w)
  | exchange v => [v]
  | _ => []

/-- The value that a thread has with it, and those that it has yet to bring. -/
def Runner.held (a : Runner w) : List (BitVec w) :=
  a.call.toList.flatMap Call.held ++ a.todo.flatMap Op.brought

/-- The values that are with the threads. -/
def Race.held (r : Race w) : List (BitVec w) := r.threads.flatMap Runner.held

/-- What has been handed back, what the word holds, and what the threads hold. -/
def Race.values (r : Race w) : List (Answer w) :=
  r.answers ++ (r.cell.contents :: r.held).map .value

theorem flatMap_brought (vs : List (BitVec w)) : (vs.map Op.exchange).flatMap Op.brought = vs := by
  induction vs with
  | nil => rfl
  | cons v vs ih => rw [List.map_cons, List.flatMap_cons, ih, Op.brought, List.singleton_append]

theorem held_start (cell : Cell w) (operands : List (List (BitVec w))) :
    (Race.start cell (operands.map (·.map .exchange))).held = operands.flatten := by
  rw [Race.held, Race.start, List.map_map, List.flatMap_map, List.flatten_eq_flatMap]
  exact congrArg (operands.flatMap ·) (funext flatMap_brought)

theorem held_of_finished {r : Race w} (h : r.finished = true) : r.held = [] := by
  refine List.flatMap_eq_nil_iff.mpr fun a ha => ?_
  have hdone := List.all_eq_true.mp h a ha
  unfold Runner.finished at hdone
  split at hdone
  · rfl
  · cases hdone

/-! ### Threads that do nothing but exchange -/

/-- The calls that an exchange goes through. -/
inductive Call.Exchanges : Call w → Prop
  | begun (v : BitVec w) : Exchanges (Op.exchange v).call
  | checking (x : BitVec w) : Exchanges (.check (.returned (.value x)))
  | returned (x : BitVec w) : Exchanges (.returned (.value x))

def Runner.Exchanges (a : Runner w) : Prop :=
  (∀ c ∈ a.call, c.Exchanges) ∧ ∀ op ∈ a.todo, ∃ v, op = .exchange v

/-- An instruction swaps what the call holds with what the word holds, or leaves both. -/
theorem Call.Exchanges.next {c rest : Call w} {m n : Cell w} {i : Instruction w}
    (h : c.Exchanges) (hs : c.step m = .next i rest n) :
    rest.Exchanges ∧ (n.contents :: rest.held).Perm (m.contents :: c.held) := by
  cases h with
  | begun v =>
    cases hs
    exact ⟨.checking m.contents, List.Perm.swap ..⟩
  | checking x =>
    cases hs
    exact ⟨.returned x, .refl _⟩
  | returned x => cases hs

theorem Call.Exchanges.answer {c : Call w} {m : Cell w} {answer : Answer w}
    (h : c.Exchanges) (hs : c.step m = .returned answer) : [answer] = c.held.map Answer.value := by
  cases h with
  | returned x =>
    cases hs
    rfl
  | _ => cases hs

/-! ### Conservation -/

/-- A race in which the threads only exchange, and in which the values are, all together, those of
`total`. -/
structure Conserves (total : List (BitVec w)) (r : Race w) : Prop where
  exchanges : ∀ a ∈ r.threads, a.Exchanges
  values : r.values.Perm (total.map .value)

theorem conserves_start (cell : Cell w) (operands : List (List (BitVec w))) :
    Conserves (cell.contents :: operands.flatten)
      (Race.start cell (operands.map (·.map .exchange))) := by
  constructor
  · intro a ha
    simp only [Race.start, List.map_map, List.mem_map] at ha
    obtain ⟨vs, -, rfl⟩ := ha
    refine ⟨fun c hc => absurd hc (Option.not_mem_none c), fun op hop => ?_⟩
    obtain ⟨v, -, rfl⟩ := List.mem_map.mp hop
    exact ⟨v, rfl⟩
  · rw [Race.values, held_start]
    exact .refl _

theorem held_set {r : Race w} {t : Nat} {a : Runner w} (ht : r.threads[t]? = some a)
    (b : Runner w) : ∃ others, r.held.Perm (a.held ++ others) ∧
      ((r.threads.set t b).flatMap Runner.held).Perm (b.held ++ others) := by
  obtain ⟨hlt, rfl⟩ := List.getElem?_eq_some_iff.mp ht
  refine ⟨(r.threads.eraseIdx t).flatMap Runner.held, ?_, ?_⟩
  · rw [← List.flatMap_cons]
    exact (List.getElem_cons_eraseIdx_perm hlt).symm.flatMap_right _
  · rw [← List.flatMap_cons]
    exact (List.set_perm_cons_eraseIdx hlt b).flatMap_right _

/-- A step of a thread keeps the values together if it keeps those in the word and with the thread
together, save the ones handed back. -/
theorem Conserves.act {total : List (BitVec w)} {r r' : Race w} {t : Nat} {a b : Runner w}
    (h : Conserves total r) (ht : r.threads[t]? = some a)
    (hthreads : r'.threads = r.threads.set t b) (hb : b.Exchanges) (handed : List (Answer w))
    (hanswers : r'.answers = handed ++ r.answers)
    (hvalues : (handed ++ (r'.cell.contents :: b.held).map Answer.value).Perm
      ((r.cell.contents :: a.held).map Answer.value)) : Conserves total r' := by
  constructor
  · intro c hc
    rw [hthreads] at hc
    rcases List.mem_or_eq_of_mem_set hc with hold | rfl
    · exact h.exchanges c hold
    · exact hb
  · obtain ⟨others, hbefore, hafter⟩ := held_set ht b
    refine .trans ?_ h.values
    -- Values may repeat, so the two sides are compared by how often each value is there.
    rw [Race.values, Race.values, Race.held, hthreads, hanswers, List.perm_iff_count]
    intro x
    have hv := hvalues.count_eq x
    have hb := (hbefore.map Answer.value).count_eq x
    have ha := (hafter.map Answer.value).count_eq x
    simp only [List.map_cons, List.map_append, List.count_append, List.count_cons] at hv hb ha ⊢
    omega

theorem conserves_step {total : List (BitVec w)} {r r' : Race w} (hs : Race.Steps r r')
    (h : Conserves total r) : Conserves total r' := by
  cases hs with
  | idle => exact h
  | fence b => exact ⟨h.exchanges, h.values⟩
  | @begin t op todo ht =>
    have ha := (h.exchanges _ (List.mem_of_getElem? ht)).2
    obtain ⟨v, rfl⟩ := ha op List.mem_cons_self
    refine h.act ht rfl ⟨?_, fun op hop => ha op (List.mem_cons_of_mem _ hop)⟩
      [] rfl (.refl _)
    intro c hc
    cases hc
    exact .begun v
  | @instruct t c todo i rest n ht hstep =>
    obtain ⟨hcall, hrest⟩ := h.exchanges _ (List.mem_of_getElem? ht)
    obtain ⟨hc, hperm⟩ := (hcall c rfl).next hstep
    refine h.act ht rfl ⟨?_, hrest⟩ [] rfl ?_
    · intro c' hc'
      cases hc'
      exact hc
    · have hvalues := (hperm.append_right (todo.flatMap Op.brought)).map Answer.value
      simpa [Runner.held] using hvalues
  | @finish t c todo answer ht hstep =>
    obtain ⟨hcall, hrest⟩ := h.exchanges _ (List.mem_of_getElem? ht)
    have hanswer := (hcall c rfl).answer hstep
    refine h.act ht rfl ⟨nofun, hrest⟩ [answer] rfl ?_
    rw [hanswer]
    simp [Runner.held]

theorem conserves_run {total : List (BitVec w)} {r : Race w} (h : Conserves total r)
    (schedule : List Move) : Conserves total (r.run schedule) :=
  Race.run_invariant (fun _ _ hs => conserves_step hs) h schedule

/-! ### Main result -/

/-- Threads that exchange, each with its list of operands, after a schedule. -/
def exchanging (cell : Cell w) (operands : List (List (BitVec w))) (schedule : List Move) :
    Race w :=
  (Race.start cell (operands.map (·.map .exchange))).run schedule

/-- Whatever the schedule, what has been handed back, what the word holds and what the threads hold
are together the start value and all operands; when all exchanges are over, nothing is left with
the threads. -/
theorem exchanges_conserve (cell : Cell w) (operands : List (List (BitVec w)))
    (schedule : List Move) :
    (exchanging cell operands schedule).values.Perm
        ((cell.contents :: operands.flatten).map .value) ∧
      ((exchanging cell operands schedule).finished = true →
        ((exchanging cell operands schedule).answers ++
            [Answer.value (exchanging cell operands schedule).cell.contents]).Perm
          ((cell.contents :: operands.flatten).map .value)) := by
  have h : Conserves (cell.contents :: operands.flatten) (exchanging cell operands schedule) :=
    conserves_run (conserves_start cell operands) schedule
  refine ⟨h.values, fun hf => ?_⟩
  have hvalues := h.values
  rw [Race.values, held_of_finished hf] at hvalues
  exact hvalues

/-- Three threads, two of which bring the same value; one brings what the word held first. -/
def swapping : Race 32 :=
  exchanging { contents := 5 } [[7, 5], [7], [9]]
    (List.replicate 2 (.thread 0) ++ List.replicate 4 (.thread 1) ++
      (List.replicate 8 [Move.thread 0, .thread 2]).flatten)

theorem exchanges_conserve_repeated :
    swapping.finished = true ∧ (swapping.answers ++ [Answer.value swapping.cell.contents]).Perm
      [.value 5, .value 7, .value 5, .value 7, .value 9] := by
  have hf : swapping.finished = true := by cbv
  exact ⟨hf, (exchanges_conserve _ _ _).2 hf⟩

end Interlock
