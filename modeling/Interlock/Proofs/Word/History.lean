import Interlock.Word.Race
import Interlock.Proofs.Word.Calls

/-!
# What happened to a word, in the order in which it took effect

A `Deed` is an operation that has taken effect: whose it was, and what it answers. The deeds of a
race, the latest first, are a sequential history: each operation, carried out at one instant on
what the one before it left, answers what its deed says, and the last one leaves the word as it is.
Thread by thread the deeds are the operations that the thread began, save one that is pending, with
the answers that it returned, and one more if it has decided on it.
-/

namespace Interlock

variable {w : Nat}

/-! ### Deeds -/

/-- An operation that has taken effect. -/
structure Deed (w : Nat) where
  thread : Nat
  op : Op w
  answer : Answer w

/-- The deeds of a thread. -/
def deedsOf (t : Nat) (deeds : List (Deed w)) : List (Deed w) :=
  deeds.filter fun d => d.thread = t

@[simp] theorem deedsOf_nil (t : Nat) : deedsOf t ([] : List (Deed w)) = [] := rfl

@[simp] theorem deedsOf_cons_self (d : Deed w) (deeds : List (Deed w)) :
    deedsOf d.thread (d :: deeds) = d :: deedsOf d.thread deeds :=
  List.filter_cons_of_pos (by simp)

theorem deedsOf_cons_of_ne {t : Nat} {d : Deed w} (h : d.thread ≠ t) (deeds : List (Deed w)) :
    deedsOf t (d :: deeds) = deedsOf t deeds :=
  List.filter_cons_of_neg (by simpa using h)

/-- Deeds, the latest first, that are a sequential history from `start` to the contents at the
end. -/
inductive Legal (start : BitVec w) : List (Deed w) → BitVec w → Prop
  | nil : Legal start [] start
  | cons {deeds x} (t : Nat) (op : Op w) : Legal start deeds x →
    Legal start (⟨t, op, (op.apply x).1⟩ :: deeds) (op.apply x).2

namespace Race

/-! ### What a move of a race can do -/

/-- The moves of a race, by what they do. -/
inductive Steps (r : Race w) : Race w → Prop
  | idle : Steps r r
  | fence (b : Bool) : Steps r {
      r with cell := { r.cell with fenced := b }, trace := .setFence b :: r.trace }
  | begin {t op todo} : r.threads[t]? = some ⟨none, op :: todo⟩ → Steps r {
      r with
      threads := r.threads.set t ⟨some op.call, todo⟩
      trace := .step t (.began op) :: r.trace }
  | instruct {t c todo i rest n} : r.threads[t]? = some ⟨some c, todo⟩ →
    c.step r.cell = .next i rest n → Steps r {
      cell := n
      threads := r.threads.set t ⟨some rest, todo⟩
      trace := .step t (.did i) :: r.trace }
  | finish {t c todo answer} : r.threads[t]? = some ⟨some c, todo⟩ →
    c.step r.cell = .returned answer → Steps r {
      r with
      threads := r.threads.set t ⟨none, todo⟩
      trace := .step t (.returned answer) :: r.trace }

theorem steps_step (r : Race w) (move : Move) : Steps r (r.step move) := by
  cases move with
  | setFence b => exact .fence b
  | thread t =>
    simp only [step]
    cases ht : r.threads[t]? with
    | none => exact .idle
    | some runner =>
      obtain ⟨call, todo⟩ := runner
      cases call with
      | none =>
        cases todo with
        | nil => exact .idle
        | cons op todo => exact .begin ht
      | some c =>
        simp only [Runner.step]
        cases hs : c.step r.cell with
        | returned answer => exact .finish ht hs
        | next i rest n => exact .instruct ht hs

theorem run_invariant {P : Race w → Prop} (hstep : ∀ r r', Steps r r' → P r → P r') {r : Race w}
    (h : P r) (schedule : List Move) : P (r.run schedule) := by
  induction schedule generalizing r with
  | nil => exact h
  | cons move rest ih => exact ih (hstep r _ (steps_step r move) h)

/-! ### The threads and their histories -/

/-- The state of a thread; a thread that does not exist has nothing to do. -/
def runner (r : Race w) (t : Nat) : Runner w := r.threads[t]?.getD {}

theorem runner_eq {r : Race w} {t : Nat} {a : Runner w} (h : r.threads[t]? = some a) :
    r.runner t = a := by
  rw [runner, h]
  rfl

theorem runner_set {r : Race w} {t : Nat} {a : Runner w} (h : r.threads[t]? = some a)
    (b : Runner w) (cell : Cell w) (trace : List (Mark w)) (u : Nat) :
    Race.runner { cell, threads := r.threads.set t b, trace } u =
      if u = t then b else r.runner u := by
  rw [runner, List.getElem?_set]
  by_cases hut : u = t
  · subst hut
    simp [List.getElem?_eq_some_iff.mp h |>.1]
  · rw [if_neg (Ne.symm hut), if_neg hut, runner]

end Race

/-- The operation that a mark shows a thread to begin. -/
def Mark.begun? (t : Nat) : Mark w → Option (Op w)
  | .step u (.began op) => if u = t then some op else none
  | _ => none

/-- The answer that a mark shows a thread to return. -/
def Mark.returned? (t : Nat) : Mark w → Option (Answer w)
  | .step u (.returned answer) => if u = t then some answer else none
  | _ => none

/-- The operations that a thread began, the latest first. -/
def begun (t : Nat) (trace : List (Mark w)) : List (Op w) := trace.filterMap (Mark.begun? t)

/-- The answers that a thread returned, the latest first. -/
def returned (t : Nat) (trace : List (Mark w)) : List (Answer w) :=
  trace.filterMap (Mark.returned? t)

/-- What the deeds of a thread have to do with what it began and returned, given the call that it
is in. -/
inductive Keeps (deeds : List (Deed w)) (begun : List (Op w)) (returned : List (Answer w)) :
    Option (Call w) → Prop
  | idle : begun = deeds.map Deed.op → returned = deeds.map Deed.answer →
    Keeps deeds begun returned none
  | pending {op c} : Call.Pending op c → begun = op :: deeds.map Deed.op →
    returned = deeds.map Deed.answer → Keeps deeds begun returned (some c)
  | decided {answer c} : c.decided? = some answer → begun = deeds.map Deed.op →
    answer :: returned = deeds.map Deed.answer → Keeps deeds begun returned (some c)

theorem Keeps.length_le {deeds : List (Deed w)} {begun : List (Op w)} {returned : List (Answer w)}
    {call : Option (Call w)} (h : Keeps deeds begun returned call) :
    returned.length ≤ deeds.length ∧ deeds.length ≤ begun.length := by
  cases h with
  | idle hb hr => simp [hb, hr]
  | pending _ hb hr => simp [hb, hr]
  | decided _ hb hr =>
    have hlen := congrArg List.length hr
    simp only [List.length_cons, List.length_map] at hlen
    simp only [hb, List.length_map]
    omega

theorem begun_of_ne {t u : Nat} (h : t ≠ u) (event : Event w) (trace : List (Mark w)) :
    begun u (.step t event :: trace) = begun u trace :=
  List.filterMap_cons_none (by cases event <;> simp [Mark.begun?, h])

theorem returned_of_ne {t u : Nat} (h : t ≠ u) (event : Event w) (trace : List (Mark w)) :
    returned u (.step t event :: trace) = returned u trace :=
  List.filterMap_cons_none (by cases event <;> simp [Mark.returned?, h])

theorem begun_began (t : Nat) (op : Op w) (trace : List (Mark w)) :
    begun t (.step t (.began op) :: trace) = op :: begun t trace :=
  List.filterMap_cons_some (if_pos rfl)

theorem returned_returned (t : Nat) (answer : Answer w) (trace : List (Mark w)) :
    returned t (.step t (.returned answer) :: trace) = answer :: returned t trace :=
  List.filterMap_cons_some (if_pos rfl)

/-- At each instant the deeds were what they are now without the later ones. All operations that
had returned by then are among them, and none that had not begun. -/
def Cuts (trace : List (Mark w)) (deeds : List (Deed w)) : Prop :=
  ∀ early, early <:+ trace → ∃ past, past <:+ deeds ∧ ∀ t,
    (returned t early).length ≤ (deedsOf t past).length ∧
      (deedsOf t past).length ≤ (begun t early).length

theorem Cuts.cons {mark : Mark w} {trace : List (Mark w)} {deeds : List (Deed w)}
    {call : Nat → Option (Call w)} (h : Cuts trace deeds) (later : List (Deed w))
    (hkeeps : ∀ t, Keeps (deedsOf t (later ++ deeds)) (begun t (mark :: trace))
      (returned t (mark :: trace)) (call t)) : Cuts (mark :: trace) (later ++ deeds) := by
  intro early hearly
  rcases List.suffix_cons_iff.mp hearly with rfl | hold
  · exact ⟨later ++ deeds, List.suffix_refl _, fun t => (hkeeps t).length_le⟩
  · obtain ⟨past, hpast, hbounds⟩ := h early hold
    exact ⟨past, hpast.trans (List.suffix_append later deeds), hbounds⟩

/-- What is known of a race and its deeds, the latest first. -/
structure Linear (start : BitVec w) (todo : List (List (Op w))) (r : Race w)
    (deeds : List (Deed w)) : Prop where
  legal : Legal start deeds r.cell.contents
  keeps : ∀ t, Keeps (deedsOf t deeds) (begun t r.trace) (returned t r.trace) (r.runner t).call
  program : ∀ t, todo[t]?.getD [] = (begun t r.trace).reverse ++ (r.runner t).todo
  cuts : Cuts r.trace deeds

theorem linear_start (cell : Cell w) (todo : List (List (Op w))) :
    Linear cell.contents todo (Race.start cell todo) [] := by
  have hrunner (t : Nat) : (Race.start cell todo).runner t = { todo := todo[t]?.getD [] } := by
    simp only [Race.runner, Race.start, List.getElem?_map]
    cases todo[t]? <;> rfl
  refine ⟨.nil, ?_, ?_, ?_⟩
  · intro t
    rw [hrunner]
    exact .idle rfl rfl
  · intro t
    rw [hrunner]
    rfl
  · intro early he
    obtain rfl := List.suffix_nil.mp he
    exact ⟨[], List.suffix_refl _, fun t => ⟨Nat.le_refl _, Nat.le_refl _⟩⟩

section Step

variable {start : BitVec w} {todo : List (List (Op w))} {r : Race w} {deeds : List (Deed w)}

theorem Linear.fence (h : Linear start todo r deeds) (b : Bool) :
    Linear start todo { r with
      cell := { r.cell with fenced := b }, trace := .setFence b :: r.trace } deeds :=
  ⟨h.legal, h.keeps, h.program, h.cuts.cons [] h.keeps⟩

/-- A step of thread `t` in which `later` takes effect. -/
theorem Linear.act {t : Nat} {a b : Runner w} {event : Event w} {n : Cell w}
    {later : List (Deed w)} (h : Linear start todo r deeds) (ht : r.threads[t]? = some a)
    (hlater : ∀ d ∈ later, d.thread = t) (hlegal : Legal start (later ++ deeds) n.contents)
    (hown : Keeps (deedsOf t (later ++ deeds)) (begun t (.step t event :: r.trace))
      (returned t (.step t event :: r.trace)) b.call)
    (hprogram : (begun t r.trace).reverse ++ a.todo =
      (begun t (.step t event :: r.trace)).reverse ++ b.todo) :
    Linear start todo
      { cell := n, threads := r.threads.set t b, trace := .step t event :: r.trace }
      (later ++ deeds) := by
  have hkeeps (u : Nat) : Keeps (deedsOf u (later ++ deeds)) (begun u (.step t event :: r.trace))
      (returned u (.step t event :: r.trace)) (if u = t then b else r.runner u).call := by
    by_cases hut : u = t
    · subst hut
      rw [if_pos rfl]
      exact hown
    · have hnone : deedsOf u later = [] := by
        refine List.filter_eq_nil_iff.mpr fun d hd => ?_
        simpa [hlater d hd] using Ne.symm hut
      rw [if_neg hut, begun_of_ne (Ne.symm hut), returned_of_ne (Ne.symm hut), deedsOf,
        List.filter_append, ← deedsOf, ← deedsOf, hnone]
      exact h.keeps u
  refine ⟨hlegal, ?_, ?_, h.cuts.cons later hkeeps⟩
  · intro u
    rw [Race.runner_set ht]
    exact hkeeps u
  · intro u
    rw [Race.runner_set ht]
    by_cases hut : u = t
    · subst hut
      rw [if_pos rfl, ← hprogram, ← Race.runner_eq ht]
      exact h.program u
    · rw [if_neg hut, begun_of_ne (Ne.symm hut)]
      exact h.program u

theorem Linear.begin {t : Nat} {op : Op w} {rest : List (Op w)} (h : Linear start todo r deeds)
    (ht : r.threads[t]? = some ⟨none, op :: rest⟩) :
    Linear start todo { r with
      threads := r.threads.set t ⟨some op.call, rest⟩
      trace := .step t (.began op) :: r.trace } deeds := by
  have hkeeps := h.keeps t
  rw [Race.runner_eq ht] at hkeeps
  cases hkeeps with
  | idle hb hr =>
    have hbegun : begun t (.step t (.began op) :: r.trace) =
        op :: (deedsOf t deeds).map Deed.op := by
      rw [begun_began, hb]
    show Linear start todo _ ([] ++ deeds)
    refine h.act ht nofun h.legal (.pending (Call.pending_call op) hbegun hr) ?_
    simp [begun_began]

theorem Linear.instruct {t : Nat} {c rest : Call w} {ops : List (Op w)} {i : Instruction w}
    {n : Cell w} (h : Linear start todo r deeds) (ht : r.threads[t]? = some ⟨some c, ops⟩)
    (hstep : c.step r.cell = .next i rest n) :
    ∃ later, Linear start todo { r with
      cell := n
      threads := r.threads.set t ⟨some rest, ops⟩
      trace := .step t (.did i) :: r.trace } (later ++ deeds) := by
  have hkeeps := h.keeps t
  rw [Race.runner_eq ht] at hkeeps
  cases hkeeps with
  | @pending op _ hp hb hr =>
    obtain ⟨i', rest', n', hnext, hcase⟩ := Call.step_of_pending hp r.cell
    cases hstep.symm.trans hnext
    rcases hcase with ⟨hp', rfl⟩ | ⟨hd, rfl⟩
    · exact ⟨[], h.act ht nofun h.legal (.pending hp' hb hr) rfl⟩
    · -- the operation takes effect
      let d : Deed w := ⟨t, op, (op.apply r.cell.contents).1⟩
      have hself : deedsOf t ([d] ++ deeds) = d :: deedsOf t deeds := deedsOf_cons_self d deeds
      have hown : ∀ e ∈ [d], e.thread = t := fun e he => by rw [List.mem_singleton.mp he]
      refine ⟨[d], h.act ht hown (.cons t op h.legal) (.decided hd ?_ ?_) rfl⟩
      · rw [hself]
        exact hb
      · rw [hself]
        exact congrArg (List.cons _) hr
  | decided hd hb hr =>
    rcases Call.step_of_decided hd r.cell with hret | ⟨i', rest', hnext, hd'⟩
    · rw [hstep] at hret
      cases hret
    · cases hstep.symm.trans hnext
      exact ⟨[], h.act ht nofun h.legal (.decided hd' hb hr) rfl⟩

theorem Linear.finish {t : Nat} {c : Call w} {ops : List (Op w)} {answer : Answer w}
    (h : Linear start todo r deeds) (ht : r.threads[t]? = some ⟨some c, ops⟩)
    (hstep : c.step r.cell = .returned answer) :
    Linear start todo { r with
      threads := r.threads.set t ⟨none, ops⟩
      trace := .step t (.returned answer) :: r.trace } deeds := by
  have hkeeps := h.keeps t
  rw [Race.runner_eq ht] at hkeeps
  cases hkeeps with
  | pending hp =>
    obtain ⟨i, rest, n, hnext, -⟩ := Call.step_of_pending hp r.cell
    rw [hstep] at hnext
    cases hnext
  | decided hd hb hr =>
    rcases Call.step_of_decided hd r.cell with hret | ⟨i, rest, hnext, -⟩
    · cases hstep.symm.trans hret
      rw [← returned_returned] at hr
      show Linear start todo _ ([] ++ deeds)
      exact h.act ht nofun h.legal (.idle hb hr) rfl
    · rw [hstep] at hnext
      cases hnext

theorem linear_step {r' : Race w} (hs : Race.Steps r r') (h : Linear start todo r deeds) :
    ∃ deeds', Linear start todo r' deeds' := by
  cases hs with
  | idle => exact ⟨deeds, h⟩
  | fence b => exact ⟨deeds, h.fence b⟩
  | begin ht => exact ⟨deeds, h.begin ht⟩
  | instruct ht hstep =>
    obtain ⟨later, hlater⟩ := h.instruct ht hstep
    exact ⟨later ++ deeds, hlater⟩
  | finish ht hstep => exact ⟨deeds, h.finish ht hstep⟩

theorem linear_run (cell : Cell w) (todo : List (List (Op w))) (schedule : List Move) :
    ∃ deeds, Linear cell.contents todo ((Race.start cell todo).run schedule) deeds := by
  apply Race.run_invariant (P := fun r => ∃ deeds, Linear cell.contents todo r deeds)
  · rintro r r' hs ⟨deeds, h⟩
    exact linear_step hs h
  · exact ⟨[], linear_start cell todo⟩

/-- Only operations that the threads were to carry out take effect. -/
theorem Linear.mem_todo (h : Linear start todo r deeds) {d : Deed w} (hd : d ∈ deeds) :
    d.op ∈ todo.flatten := by
  have hop : d.op ∈ (deedsOf d.thread deeds).map Deed.op :=
    List.mem_map_of_mem (List.mem_filter.mpr ⟨hd, decide_eq_true rfl⟩)
  have hbegun : d.op ∈ begun d.thread r.trace := by
    have hkeeps := h.keeps d.thread
    generalize (r.runner d.thread).call = call at hkeeps
    cases hkeeps with
    | idle hb _ => exact hb ▸ hop
    | pending _ hb _ => exact hb ▸ List.mem_cons_of_mem _ hop
    | decided _ hb _ => exact hb ▸ hop
  have htodo : d.op ∈ todo[d.thread]?.getD [] := by
    rw [h.program d.thread]
    exact List.mem_append_left _ (List.mem_reverse.mpr hbegun)
  cases hthread : todo[d.thread]? with
  | none =>
    rw [hthread] at htodo
    cases htodo
  | some ops =>
    rw [hthread] at htodo
    exact List.mem_flatten.mpr ⟨ops, List.mem_of_getElem? hthread, htodo⟩

end Step

/-! ### Races that are over -/

/-- Thread by thread, the deeds of a race that is over are all its operations with the answers that
they returned. -/
theorem Linear.of_finished {start : BitVec w} {todo : List (List (Op w))} {r : Race w}
    {deeds : List (Deed w)} (h : Linear start todo r deeds) (hf : r.finished = true) (t : Nat) :
    (deedsOf t deeds).map Deed.op = begun t r.trace ∧
      (deedsOf t deeds).map Deed.answer = returned t r.trace ∧
      todo[t]?.getD [] = (begun t r.trace).reverse := by
  have hrunner : r.runner t = {} := by
    rw [Race.runner]
    cases ht : r.threads[t]? with
    | none => rfl
    | some a =>
      have hdone := List.all_eq_true.mp hf a (List.mem_of_getElem? ht)
      unfold Runner.finished at hdone
      split at hdone
      · rfl
      · cases hdone
  have hkeeps := h.keeps t
  have hprogram := h.program t
  rw [hrunner] at hkeeps hprogram
  cases hkeeps with
  | idle hb hr => exact ⟨hb.symm, hr.symm, hprogram.trans (List.append_nil _)⟩

/-- A list whose elements with each key are the part of that key is all parts together. -/
theorem perm_flatten_of_filter {α β : Type} (f : α → β) (parts : List (List β)) (key : α → Nat)
    (l : List α)
    (h : ∀ t, ((l.filter fun a => key a = t).map f).Perm (parts[t]?.getD [])) :
    (l.map f).Perm parts.flatten := by
  induction parts generalizing key l with
  | nil =>
    cases l with
    | nil => exact .refl _
    | cons a l =>
      have hnil := (h (key a)).eq_nil
      simp at hnil
  | cons part parts ih =>
    have hshift (t : Nat) : (l.filter fun a => !decide (key a = 0)).filter
        (fun a => key a - 1 = t) = l.filter fun a => key a = t + 1 := by
      rw [List.filter_filter]
      refine List.filter_congr fun a _ => ?_
      rw [Bool.eq_iff_iff]
      simp only [Bool.and_eq_true, Bool.not_eq_true', decide_eq_true_eq, decide_eq_false_iff_not]
      omega
    have hrest := ih (fun a => key a - 1) (l.filter fun a => !decide (key a = 0)) fun t => by
      rw [hshift]
      exact h (t + 1)
    have hsplit := (List.filter_append_perm (fun a => decide (key a = 0)) l).map f
    rw [List.map_append] at hsplit
    exact hsplit.symm.trans ((h 0).append hrest)

/-- No operation of a race that is over is left out, and none takes effect twice. -/
theorem Linear.perm_ops {start : BitVec w} {todo : List (List (Op w))} {r : Race w}
    {deeds : List (Deed w)} (h : Linear start todo r deeds) (hf : r.finished = true) :
    (deeds.map Deed.op).Perm todo.flatten := by
  refine perm_flatten_of_filter Deed.op todo Deed.thread deeds fun t => ?_
  obtain ⟨hbegun, -, hprogram⟩ := h.of_finished hf t
  rw [hprogram, ← hbegun]
  exact (List.reverse_perm _).symm

/-- The answers that the threads returned, each with its thread. -/
def returns (trace : List (Mark w)) : List (Nat × Answer w) :=
  trace.filterMap fun
    | .step t (.returned answer) => some (t, answer)
    | _ => none

theorem answers_eq (r : Race w) : r.answers = (returns r.trace).map Prod.snd := by
  rw [returns, List.map_filterMap]
  refine congrArg (r.trace.filterMap ·) (funext fun mark => ?_)
  rcases mark with ⟨t, _ | _ | _⟩ | _ <;> rfl

theorem returned_eq (t : Nat) (trace : List (Mark w)) :
    returned t trace = ((returns trace).filter fun a => a.1 = t).map Prod.snd := by
  rw [returns, List.filter_filterMap, List.map_filterMap]
  refine congrArg (trace.filterMap ·) (funext fun mark => ?_)
  rcases mark with ⟨u, _ | _ | answer⟩ | _
  · rfl
  · rfl
  · by_cases hu : u = t <;> simp [Mark.returned?, Option.filter_some, hu]
  · rfl

theorem Linear.perm_answers {start : BitVec w} {todo : List (List (Op w))} {r : Race w}
    {deeds : List (Deed w)} (h : Linear start todo r deeds) (hf : r.finished = true) :
    (deeds.map Deed.answer).Perm r.answers := by
  -- Both are the answers of the threads, one thread after the other.
  have hparts (t : Nat) : ((List.range todo.length).map fun u =>
      (deedsOf u deeds).map Deed.answer)[t]?.getD [] = (deedsOf t deeds).map Deed.answer := by
    by_cases ht : t < todo.length
    · simp [ht]
    · obtain ⟨hbegun, -, hprogram⟩ := h.of_finished hf t
      rw [List.getElem?_eq_none (Nat.le_of_not_lt ht), Option.getD_none, ← hbegun] at hprogram
      have hnone : deedsOf t deeds = [] :=
        List.map_eq_nil_iff.mp (List.reverse_eq_nil_iff.mp hprogram.symm)
      simp [ht, hnone]
  have hdeeds := perm_flatten_of_filter Deed.answer _ Deed.thread deeds fun t => by
    rw [hparts, deedsOf]
  have hreturns := perm_flatten_of_filter Prod.snd _ Prod.fst (returns r.trace) fun t => by
    rw [hparts, ← returned_eq, (h.of_finished hf t).2.1]
  rw [answers_eq]
  exact hdeeds.trans hreturns.symm

end Interlock
