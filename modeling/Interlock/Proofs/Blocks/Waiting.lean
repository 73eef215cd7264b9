import Interlock.Blocks.Waiting
import Interlock.Proofs.Monitor.Notification
import Interlock.Proofs.Monitor.Waits

/-!
# Nobody waits for a path that is free

A waiter looks at its path with the mutex, so it leaves on a free path and sleeps on a blocked one.
The path that a waiter sleeps for was blocked when the waiter let the mutex go; if it is free now,
some section unblocked it since, and the thread that ran that section notifies all. As long as the
waiter sleeps, that notification is still to come.
-/

namespace Interlock.Blocks

open Monitor

/-! ### Sections that unblock a path -/

/-- A section after which a path is no longer blocked asks for a notification. -/
theorem Section.notify_of_unblocked {s : Section} {r : Registry} {path : String}
    (h : r.isBlocked path = true) (h' : (s.run r).registry.isBlocked path = false) :
    (s.run r).notify = true := by
  cases s with
  | add added blocker =>
    simp only [Section.run, Registry.add] at h'
    split at h'
    · rename_i heq
      split at heq
      · cases heq
      · cases heq
        simp only [Registry.isBlocked, Registry.owner?, List.lookup_cons] at h h'
        split at h'
        · cases h'
        · rw [h] at h'
          cases h'
    · rw [h] at h'
      cases h'
  | delete deleted blocker =>
    simp only [Section.run] at h' ⊢
    split at h'
    · rfl
    · rw [h] at h'
      cases h'
  | removeAll blocker =>
    simp only [Section.run] at h' ⊢
    split
    · rfl
    · rename_i hcount
      have hsame : r.removeAll blocker = r := Registry.removeAll_eq_of_size (by omega)
      rw [if_neg hcount] at h'
      dsimp only at h'
      rw [hsame, h] at h'
      cases h'
  | isBlocked | list | dump =>
    simp only [Section.run] at h'
    rw [h] at h'
    cases h'

variable {devel : Bool} {m : Shared Registry} {th : Thread Task} {e : Effect Registry Task}
  {path : String} {agenda : Agenda}

/-! ### Steps of a waiter -/

theorem errands_ready (devel : Bool) (agenda : Agenda) :
    errands devel (.ready agenda) = .halt ∨
    (∃ agenda', errands devel (.ready agenda) = .pass (.ready agenda')) ∨
    (∃ request s agenda', errands devel (.ready agenda) = .lock (.inside request s agenda')) ∨
    ∃ path agenda', errands devel (.ready agenda) = .lock (.looking path agenda') := by
  obtain ⟨todo, replies⟩ := agenda
  cases todo with
  | nil => exact .inl rfl
  | cons errand todo =>
    cases errand with
    | request request =>
      simp only [errands]
      split
      · exact .inr (.inl ⟨_, rfl⟩)
      · exact .inr (.inr (.inl ⟨_, _, _, rfl⟩))
    | waitWhileBlocked path => exact .inr (.inr (.inr ⟨_, _, rfl⟩))

theorem fires_looking (h : Fires (errands devel) m th e)
    (hs : th.stage = .client (.looking path agenda)) :
    th.guard = true ∧ e.shared = m ∧ e.thread.guard = true ∧
      e.thread.stage = .client (if m.value.isBlocked path then .waiting path agenda
        else .leaving false agenda) := by
  have he := h.of_client hs
  simp only [errands, clientStep, Option.ite_none_right_eq_some, Option.some.injEq] at he
  obtain ⟨hg, rfl⟩ := he
  exact ⟨hg, rfl, hg, rfl⟩

theorem fires_waiting (h : Fires (errands devel) m th e)
    (hs : th.stage = .client (.waiting path agenda)) :
    e.shared = m ∧ e.thread.stage = .enlisting (.looking path agenda) := by
  have he := h.of_client hs
  simp only [errands, clientStep, Option.ite_none_right_eq_some, Option.some.injEq] at he
  obtain ⟨-, rfl⟩ := he
  exact ⟨rfl, rfl⟩

theorem fires_leaving {notify : Bool} (h : Fires (errands devel) m th e)
    (hs : th.stage = .client (.leaving notify agenda)) (hg : th.guard = true) :
    e.shared = m ∧ e.thread.guard = true ∧ e.thread.stage =
      .releasing (.resume (if notify then .telling agenda else .ready agenda)) := by
  have he := h.of_client hs
  simp only [errands, clientStep, if_pos hg, Option.some.injEq] at he
  subst he
  exact ⟨rfl, hg, rfl⟩

/-- A thread at a stage waits for a path: it is on its way to look at it, or has seen it blocked. -/
def Awaits (path : String) (agenda : Agenda) (s : Stage Task) : Prop :=
  s.goal = .looking path agenda ∨ s = .client (.waiting path agenda)

/-- A thread is in its wait for a path, or has seen the path free and has not let the mutex go. -/
inductive Within (path : String) (agenda : Agenda) (r : Registry) (th : Thread Task) : Prop
  | awaiting : Awaits path agenda th.stage → Within path agenda r th
  | leaving : th.guard = true → r.isBlocked path = false →
    th.stage = .client (.leaving false agenda) ∨ th.stage = .releasing (.resume (.ready agenda)) →
    Within path agenda r th

theorem awaits_rouse (h : Awaits path agenda th.stage) : Awaits path agenda th.rouse.stage := by
  rcases h with hgoal | hs
  · exact .inl (by rw [goal_rouse, hgoal])
  · exact .inr (by simp [Thread.rouse, hs])

theorem within_rouse {r : Registry} (h : Within path agenda r th) :
    Within path agenda r th.rouse := by
  cases h with
  | awaiting hs => exact .awaiting (awaits_rouse hs)
  | leaving hg hfree hs =>
    refine .leaving (by rw [rouse_guard, hg]) hfree ?_
    rcases hs with hs | hs
    · exact .inl (by simp [Thread.rouse, hs])
    · exact .inr (by simp [Thread.rouse, hs])

theorem fires_awaits (h : Fires (errands devel) m th e) (ha : Awaits path agenda th.stage) :
    Within path agenda e.shared.value e.thread := by
  by_cases hc : ∃ k, th.stage = .client k
  · obtain ⟨k, hk⟩ := hc
    rcases ha with hgoal | hs
    · rw [hk] at hgoal
      change k = _ at hgoal
      subst hgoal
      obtain ⟨hg, hm, hg', hs'⟩ := fires_looking h hk
      cases hb : m.value.isBlocked path with
      | true =>
        rw [hb, if_pos rfl] at hs'
        exact .awaiting (.inr hs')
      | false =>
        rw [hb] at hs'
        exact .leaving hg' (by rw [hm, hb]) (.inl hs')
    · obtain ⟨-, hs'⟩ := fires_waiting h hs
      exact .awaiting (.inl (by rw [hs']; rfl))
  · have hinside (k : Task) : th.stage ≠ .client k := fun hk => hc ⟨k, hk⟩
    rcases ha with hgoal | hs
    · exact .awaiting (.inl ((h.goal_eq hinside).trans hgoal))
    · exact absurd hs (hinside _)

theorem fires_within (h : Fires (errands devel) m th e) (hw : Within path agenda m.value th) :
    Within path agenda e.shared.value e.thread ∨
      th.guard = true ∧ m.value.isBlocked path = false ∧
        th.stage = .releasing (.resume (.ready agenda)) := by
  cases hw with
  | awaiting ha => exact .inl (fires_awaits h ha)
  | leaving hg hfree hs =>
    rcases hs with hs | hs
    · obtain ⟨hm, hg', hs'⟩ := fires_leaving h hs hg
      exact .inl (.leaving hg' (by rw [hm, hfree]) (.inr hs'))
    · exact .inr ⟨hg, hfree, hs⟩

theorem within_of_value {r r' : Registry} (h : Within path agenda r th)
    (hv : th.guard = true → r' = r) : Within path agenda r' th := by
  cases h with
  | awaiting ha => exact .awaiting ha
  | leaving hg hfree hs => exact .leaving hg (by rw [hv hg, hfree]) hs

theorem not_within_ready {r : Registry} (hs : th.stage = .client (.ready agenda)) :
    ¬ Within path agenda r th := by
  intro h
  cases h with
  | awaiting ha =>
    rcases ha with hgoal | ha
    · rw [hs] at hgoal
      cases hgoal
    · rw [hs] at ha
      cases ha
  | leaving _ _ hs' =>
    rcases hs' with hs' | hs'
    · rw [hs] at hs'
      cases hs'
    · rw [hs] at hs'
      cases hs'

theorem within_step {r : Registry} {m m' : Monitor Registry Task} {holder : Option Nat} {w : Nat}
    (hs : Steps (errands devel) m m') (hx : Exclusive r m holder) (hw : m.threads[w]? = some th)
    (h : Within path agenda m.shared.value th) :
    (∃ th', m'.threads[w]? = some th' ∧ Within path agenda m'.shared.value th') ∨
      th.guard = true ∧ m.shared.value.isBlocked path = false ∧
        th.stage = .releasing (.resume (.ready agenda)) := by
  cases hs with
  | idle hr =>
    obtain ⟨th', hth', rfl | rfl⟩ := hr.getElem? hw
    · exact .inl ⟨_, hth', h⟩
    · exact .inl ⟨_, hth', within_rouse h⟩
  | @act t pick tht e ht hf =>
    by_cases hwt : w = t
    · subst hwt
      cases hw.symm.trans ht
      rcases fires_within hf h with hwithin | hleft
      · obtain ⟨th', hth', rfl | rfl⟩ := exists_act_own ht e.wake pick e.thread
        · exact .inl ⟨_, hth', hwithin⟩
        · exact .inl ⟨_, hth', within_rouse hwithin⟩
      · exact .inr hleft
    · have hwithin : Within path agenda e.shared.value th :=
        within_of_value h fun hg => hx.value_eq hw hg ht hwt hf
      obtain ⟨th', hth', rfl | rfl⟩ := exists_act_other hwt hw e.wake pick e.thread
      · exact .inl ⟨_, hth', hwithin⟩
      · exact .inl ⟨_, hth', within_rouse hwithin⟩

/-- A run that takes a thread out of its wait passes a state in which the thread has the guard and
its path is free, with nothing left to do but let the mutex go. -/
theorem leaves_free {r : Registry} {w : Nat} {th' : Thread Task} (after : List Move)
    {m : Monitor Registry Task} (hx : ∃ holder, Exclusive r m holder)
    (hw : m.threads[w]? = some th) (h : Within path agenda m.shared.value th)
    (hw' : (m.run (errands devel) after).threads[w]? = some th')
    (hs' : th'.stage = .client (.ready agenda)) :
    ∃ between, between <+: after ∧ ∃ thw,
      (m.run (errands devel) between).threads[w]? = some thw ∧ thw.guard = true ∧
      thw.stage = .releasing (.resume (.ready agenda)) ∧
      (m.run (errands devel) between).shared.value.isBlocked path = false := by
  induction after generalizing m th with
  | nil =>
    cases hw.symm.trans hw'
    exact absurd h (not_within_ready hs')
  | cons move rest ih =>
    have hstep := steps_step (errands devel) m move
    obtain ⟨holder, hexcl⟩ := hx
    rcases within_step hstep hexcl hw h with ⟨thn, hthn, hn⟩ | ⟨hg, hfree, hs⟩
    · obtain ⟨between, hpre, hbetween⟩ := ih (hexcl.step hstep) hthn hn hw'
      exact ⟨move :: between, List.prefix_cons_inj move |>.mpr hpre, hbetween⟩
    · exact ⟨[], List.nil_prefix, th, hw, hg, hs, hfree⟩

/-! ### What a sleeper has seen -/

/-- A thread that goes into a wait for a path has seen the path blocked, and it still is. -/
structure SawBlock (r : Registry) (th : Thread Task) : Prop where
  waiting : ∀ path agenda, th.stage.goal = .waiting path agenda →
    th.stage = .client (.waiting path agenda) ∧ th.guard = true ∧ r.isBlocked path = true
  parking : ∀ path agenda, th.stage.parking? = some (.looking path agenda) →
    r.isBlocked path = true

theorem errands_wait {k k' : Task} (h : errands devel k = .wait k') :
    ∃ path agenda, k = .waiting path agenda ∧ k' = .looking path agenda := by
  cases k with
  | waiting path agenda =>
    cases h
    exact ⟨path, agenda, rfl, rfl⟩
  | ready agenda =>
    rcases errands_ready devel agenda with h' | ⟨_, h'⟩ | ⟨_, _, _, h'⟩ | ⟨_, _, h'⟩ <;>
      rw [h'] at h <;> cases h
  | inside | looking | leaving | telling => cases h

theorem looking_of_goal_waiting {k : Task} (h : Fires (errands devel) m th e)
    (hs : th.stage = .client k) (hg : e.thread.stage.goal = .waiting path agenda) :
    k = .looking path agenda := by
  have he := h.of_client hs
  cases k with
  | looking path' agenda' =>
    obtain ⟨-, -, -, hs'⟩ := fires_looking h hs
    rw [hs'] at hg
    split at hg
    · cases hg
      rfl
    · cases hg
  | ready agenda' =>
    rcases errands_ready devel agenda' with h' | ⟨_, h'⟩ | ⟨_, _, _, h'⟩ | ⟨_, _, h'⟩ <;>
      rw [h'] at he <;> cases he <;> cases hg
  | inside request s agenda' =>
    simp only [errands, clientStep, Option.ite_none_right_eq_some, Option.some.injEq] at he
    obtain ⟨-, rfl⟩ := he
    cases hg
  | waiting path' agenda' =>
    obtain ⟨-, hs'⟩ := fires_waiting h hs
    rw [hs'] at hg
    cases hg
  | leaving notify agenda' =>
    simp only [errands, clientStep, Option.some.injEq] at he
    subst he
    dsimp only at hg
    cases notify <;> split at hg <;> cases hg
  | telling =>
    cases he
    cases hg

theorem fires_sawBlock (h : Fires (errands devel) m th e) (hb : SawBlock m.value th) :
    SawBlock e.shared.value e.thread := by
  constructor
  · intro path agenda hgoal
    by_cases hc : ∃ k, th.stage = .client k
    · obtain ⟨k, hk⟩ := hc
      obtain rfl := looking_of_goal_waiting h hk hgoal
      obtain ⟨-, hm, hg', hs'⟩ := fires_looking h hk
      rw [hs'] at hgoal
      split at hgoal
      · rename_i hblocked
        rw [if_pos hblocked] at hs'
        exact ⟨hs', hg', by rw [hm]; exact hblocked⟩
      · cases hgoal
    · have hinside (k : Task) : th.stage ≠ .client k := fun hk => hc ⟨k, hk⟩
      rw [h.goal_eq hinside] at hgoal
      exact absurd (hb.waiting path agenda hgoal).1 (hinside _)
  · intro path agenda hp
    obtain ⟨hv, hold | ⟨k, hk, hwait⟩⟩ := h.parking hp
    · rw [hv]
      exact hb.parking path agenda hold
    · obtain ⟨path', agenda', rfl, heq⟩ := errands_wait hwait
      cases heq
      rw [hv]
      exact (hb.waiting path agenda (by rw [hk]; rfl)).2.2

theorem sawBlock_of_value {r r' : Registry} (h : SawBlock r th) (hp : th.Placed)
    (hv : th.guard = true → r' = r) : SawBlock r' th := by
  constructor
  · intro path agenda hgoal
    obtain ⟨hs, hg, hblocked⟩ := h.waiting path agenda hgoal
    exact ⟨hs, hg, by rw [hv hg, hblocked]⟩
  · intro path agenda hpark
    rw [hv (hp (letsGo_of_parking? hpark))]
    exact h.parking path agenda hpark

theorem sawBlock_rouse {r : Registry} (h : SawBlock r th) : SawBlock r th.rouse := by
  constructor
  · intro path agenda hgoal
    rw [goal_rouse] at hgoal
    obtain ⟨hs, hg, hblocked⟩ := h.waiting path agenda hgoal
    exact ⟨by simp [Thread.rouse, hs], by rw [rouse_guard, hg], hblocked⟩
  · intro path agenda hpark
    rw [parking?_rouse] at hpark
    exact h.parking path agenda hpark

/-- Whoever goes to sleep for a path sees it blocked, and whoever is away left it blocked. -/
structure Barred (m : Monitor Registry Task) : Prop where
  saw : ∀ (w : Nat) th, m.threads[w]? = some th → SawBlock m.shared.value th
  away : ∀ (w : Nat) th path agenda x late, m.threads[w]? = some th →
    th.stage.away? = some (.looking path agenda) → WaitingSince w x late m.trace →
    x.isBlocked path = true

/-- The threads at the start, each with its errands. -/
def tasks (todos : List (List Errand)) : List Task := todos.map fun todo => .ready { todo }

theorem stage_start_tasks {r : Registry} {todos : List (List Errand)} {w : Nat}
    {th : Thread Task} (hw : (Monitor.start r (tasks todos)).threads[w]? = some th) :
    ∃ agenda, th = { stage := .client (.ready agenda) } := by
  obtain ⟨k, hk, rfl⟩ := stage_start hw
  obtain ⟨todo, -, rfl⟩ := List.mem_map.mp hk
  exact ⟨{ todo }, rfl⟩

theorem barred_start (r : Registry) (todos : List (List Errand)) :
    Barred (Monitor.start r (tasks todos)) := by
  constructor
  · intro w th hw
    obtain ⟨agenda, rfl⟩ := stage_start_tasks hw
    exact ⟨nofun, nofun⟩
  · intro w th path agenda x late hw ha
    obtain ⟨agenda', rfl⟩ := stage_start_tasks hw
    cases ha

theorem barred_step {r : Registry} {m m' : Monitor Registry Task} {holder : Option Nat}
    (hs : Steps (errands devel) m m') (hx : Exclusive r m holder) (htell : TraceTellsWaits m)
    (h : Barred m) : Barred m' := by
  cases hs with
  | idle hr =>
    constructor
    · intro w th' hw
      obtain ⟨th, hth, rfl | rfl⟩ := hr.of_getElem? hw
      · exact h.saw w _ hth
      · exact sawBlock_rouse (h.saw w _ hth)
    · intro w th' path agenda x late hw ha hlate
      obtain ⟨th, hth, hth'⟩ := hr.of_getElem? hw
      rw [away?_woken hth'] at ha
      exact h.away w th path agenda x late hth ha hlate
  | @act t pick th e ht hf =>
    constructor
    · intro w th' hw
      have hsaw : ∃ th₀, SawBlock e.shared.value th₀ ∧ (th' = th₀ ∨ th' = th₀.rouse) := by
        rcases getElem?_act hw with ⟨-, hth'⟩ | ⟨hne, thw, hthw, hth'⟩
        · exact ⟨e.thread, fires_sawBlock hf (h.saw t th ht), hth'⟩
        · refine ⟨thw, ?_, hth'⟩
          exact sawBlock_of_value (h.saw w thw hthw) (hx.placed w thw hthw) fun hg =>
            hx.value_eq hthw hg ht hne hf
      obtain ⟨th₀, hb, rfl | rfl⟩ := hsaw
      · exact hb
      · exact sawBlock_rouse hb
    · intro w th' path agenda x late hw ha hlate
      rcases getElem?_act hw with ⟨rfl, hth'⟩ | ⟨hne, thw, hthw, hth'⟩
      · rw [away?_woken hth'] at ha
        rcases htell.waitingSince_act ht hf hlate with
          ⟨hnone, hold⟩ | ⟨-, -, hrel⟩ | ⟨_, _, _, hne, -⟩
        · rcases hf.comes_away ha with ⟨-, haway⟩ | ⟨-, he⟩
          · exact h.away w th path agenda x late ht haway hold
          · rw [hnone] at he
            cases he
        · rcases hf.comes_away ha with ⟨hnone, -⟩ | ⟨⟨seen, hs⟩, he⟩
          · rw [hnone] at hrel
            cases hrel
          · rw [he] at hrel
            cases hrel
            exact (h.saw w th ht).parking path agenda (by rw [hs]; rfl)
        · exact absurd rfl hne
      · rw [away?_woken hth'] at ha
        rcases htell.waitingSince_act ht hf hlate with
          ⟨-, hold⟩ | ⟨-, rfl, -⟩ | ⟨_, rest, -, -, -, hold⟩
        · exact h.away w thw path agenda x late hthw ha hold
        · exact absurd rfl hne
        · exact h.away w thw path agenda x rest hthw ha hold

theorem barred_run (devel : Bool) (r : Registry) (todos : List (List Errand))
    (schedule : List Move) :
    Barred ((Monitor.start r (tasks todos)).run (errands devel) schedule) := by
  apply run_invariant_along (P := Barred)
    (Q := fun m => TraceTellsWaits m ∧ ∃ holder, Exclusive r m holder)
  · rintro m m' hs ⟨htell, holder, hx⟩ h
    exact barred_step hs hx htell h
  · exact barred_start r todos
  · intro s _
    exact ⟨traceTellsWaits_run _ _ _ s, exclusive_run _ _ _ s⟩

/-! ### Who has a notification to finish -/

/-- The stages of a thread that removed a block and has not finished its notification. -/
inductive Owes : Stage Task → Prop
  | leaving (agenda : Agenda) : Owes (.client (.leaving true agenda))
  | releasing (agenda : Agenda) : Owes (.releasing (.resume (.telling agenda)))
  | lockWake (agenda : Agenda) : Owes (.lockWake (.resume (.telling agenda)))
  | telling (agenda : Agenda) : Owes (.client (.telling agenda))
  | counting (agenda : Agenda) : Owes (.counting true (.ready agenda))
  | bumping (agenda : Agenda) : Owes (.bumping true (.ready agenda))
  | condWake (agenda : Agenda) : Owes (.condWake true (.ready agenda))

theorem owes_rouse (h : Owes th.stage) : Owes th.rouse.stage := by
  have hl : th.asleepOnLock = false := by
    unfold Thread.asleepOnLock
    generalize th.stage = s at h
    cases h <;> rfl
  have hc : th.asleepOnCondition = false := by
    unfold Thread.asleepOnCondition
    generalize th.stage = s at h
    cases h <;> rfl
  rw [rouse_of_awake hl hc]
  exact h

theorem seeking?_of_owes {s : Stage Task} (h : Owes s) : s.seeking? = none := by
  cases h <;> rfl

theorem fires_owes (h : Fires (errands devel) m th e) (ho : Owes th.stage) :
    Owes e.thread.stage ∨ e.event = some (.notified true) := by
  cases h with
  | move hst hm =>
    rw [hst] at ho
    cases hm with
    | pass ha => cases ho <;> cases ha
    | lock ha => cases ho <;> cases ha
    | missed ha => cases ho <;> cases ha
    | unlock ha =>
      cases ho with
      | leaving agenda =>
        cases ha
        exact .inl (.releasing agenda)
      | telling => cases ha
    | unheld ha =>
      cases ho with
      | leaving agenda =>
        cases ha
        exact .inl (.telling agenda)
      | telling => cases ha
    | wait ha => cases ho <;> cases ha
    | notify ha =>
      cases ho with
      | leaving => cases ha
      | telling agenda =>
        cases ha
        exact .inl (.counting agenda)
    | watch hn =>
      rw [seeking?_of_owes ho] at hn
      cases hn
    | sleep => cases ho
    | rejoin => cases ho
    | count =>
      cases ho with
      | counting agenda => exact .inl (.bumping agenda)
  | update hst ha =>
    rw [hst] at ho
    cases ho <;> cases ha
  | take _ _ hn =>
    rcases hn with ⟨k, f, hk, ha, -⟩ | hn
    · rw [hk] at ho
      cases ho <;> cases ha
    · rw [seeking?_of_owes ho] at hn
      cases hn
  | release hst =>
    rw [hst] at ho
    cases ho with
    | releasing agenda =>
      dsimp only
      split
      · exact .inl (.lockWake agenda)
      · exact .inl (.telling agenda)
  | lockWake hst =>
    rw [hst] at ho
    cases ho with
    | lockWake agenda => exact .inl (.telling agenda)
  | skip hst =>
    rw [hst] at ho
    cases ho with
    | counting => exact .inr rfl
  | bump hst =>
    rw [hst] at ho
    cases ho with
    | bumping agenda => exact .inl (.condWake agenda)
  | condWake hst =>
    rw [hst] at ho
    cases ho with
    | condWake => exact .inr rfl
  | mark hst | enlist hst | sample hst | delist hst =>
    rw [hst] at ho
    cases ho

theorem owes_of_unblocking {a b : Registry} (h : Fires (errands devel) m th e)
    (he : e.event = some (.updated a b)) (ha : a.isBlocked path = true)
    (hb : b.isBlocked path = false) : Owes e.thread.stage := by
  cases h with
  | @update k f hst hk hg =>
    cases he
    cases k with
    | inside request s agenda =>
      cases hk
      dsimp only at hb ⊢
      rw [s.notify_of_unblocked ha hb]
      exact .leaving _
    | looking =>
      cases hk
      dsimp only at hb
      rw [ha] at hb
      cases hb
    | ready agenda =>
      rcases errands_ready devel agenda with h' | ⟨_, h'⟩ | ⟨_, _, _, h'⟩ | ⟨_, _, h'⟩ <;>
        rw [h'] at hk <;> cases hk
    | waiting | leaving | telling => cases hk
  | _ => cases he

/-- Whoever removed the block of a path, and has finished no notification since, owes one. -/
def Debts (m : Monitor Registry Task) : Prop :=
  ∀ u th late early a b path, m.threads[u]? = some th →
    m.trace = late ++ (u, .updated a b) :: early → a.isBlocked path = true →
    b.isBlocked path = false → (u, .notified true) ∉ late → Owes th.stage

theorem debts_step {m m' : Monitor Registry Task} (hs : Steps (errands devel) m m')
    (h : Debts m) : Debts m' := by
  intro u th' late early a b path hu htrace ha hb hnone
  cases hs with
  | idle hr =>
    obtain ⟨th, hth, hth'⟩ := hr.of_getElem? hu
    have ho := h u th late early a b path hth htrace ha hb hnone
    rcases hth' with rfl | rfl
    · exact ho
    · exact owes_rouse ho
  | @act t pick th e ht hf =>
    -- The update is the step's own event, or it was in the trace before.
    have hwhen : (late = [] ∧ u = t ∧ e.event = some (.updated a b)) ∨
        ∃ rest, m.trace = rest ++ (u, .updated a b) :: early ∧ (u, .notified true) ∉ rest ∧
          (u = t → e.event ≠ some (.notified true)) := by
      cases he : e.event with
      | none =>
        simp only [he, Option.map_none, Option.toList_none, List.nil_append] at htrace
        exact .inr ⟨late, htrace, hnone, nofun⟩
      | some event =>
        simp only [he, Option.map_some, Option.toList_some, List.singleton_append] at htrace
        cases late with
        | nil =>
          cases htrace
          exact .inl ⟨rfl, rfl, rfl⟩
        | cons head rest =>
          obtain ⟨rfl, hrest⟩ := List.cons.inj htrace
          refine .inr ⟨rest, hrest, fun hmem => hnone (List.mem_cons_of_mem _ hmem), ?_⟩
          rintro rfl ⟨⟩
          exact hnone (List.mem_cons_self ..)
    have howes : ∃ th₀, Owes th₀.stage ∧ (th' = th₀ ∨ th' = th₀.rouse) := by
      rcases getElem?_act hu with ⟨rfl, hth'⟩ | ⟨hne, thu, hthu, hth'⟩
      · refine ⟨e.thread, ?_, hth'⟩
        rcases hwhen with ⟨-, -, he⟩ | ⟨rest, hrest, hrest', hevent⟩
        · exact owes_of_unblocking hf he ha hb
        · have ho := h u th rest early a b path ht hrest ha hb hrest'
          rcases fires_owes hf ho with ho' | he
          · exact ho'
          · exact absurd he (hevent rfl)
      · refine ⟨thu, ?_, hth'⟩
        rcases hwhen with ⟨-, hut, -⟩ | ⟨rest, hrest, hrest', -⟩
        · exact absurd hut hne
        · exact h u thu rest early a b path hthu hrest ha hb hrest'
    obtain ⟨th₀, ho, rfl | rfl⟩ := howes
    · exact ho
    · exact owes_rouse ho

theorem debts_run (devel : Bool) (r : Registry) (todos : List (List Errand))
    (schedule : List Move) :
    Debts ((Monitor.start r (tasks todos)).run (errands devel) schedule) := by
  apply run_invariant (fun _ _ => debts_step)
  intro u th late early a b path _ htrace
  simp [Monitor.start] at htrace

/-! ### Main results -/

/-- What keeps a waiter from being stranded: a thread that removed the block of the path, and that
has not woken all since and is still going to. -/
def Rescued (path : String) (m : Monitor Registry Task) : Prop :=
  m.shared.waiters ≠ 0 ∧
    ∃ (u : Nat) (th : Thread Task), m.threads[u]? = some th ∧ Owes th.stage ∧
      ∃ late a b early, m.trace = late ++ (u, .updated a b) :: early ∧ a.isBlocked path = true ∧
        b.isBlocked path = false ∧ (u, .notified true) ∉ late

theorem Barred.rescued {r : Registry} {m : Monitor Registry Task} {holder : Option Nat} {w : Nat}
    {seen : BitVec 32} (h : Barred m) (hx : Exclusive r m holder) (htell : TraceTellsWaits m)
    (hdebts : Debts m) (htraced : Traced m) (hcounted : Counted m) (hnoticed : Noticed w m)
    (hnow : Unwrapped w m) (hw : m.threads[w]? = some th)
    (hs : th.stage = .condAsleep seen (.looking path agenda))
    (hfree : m.shared.value.isBlocked path = false) : Rescued path m := by
  have haway : th.stage.away? = some (.looking path agenda) := by rw [hs]; rfl
  obtain ⟨x, late, hlate⟩ := (htell w th hw).mp (by rw [haway]; rfl)
  have hblocked := h.away w th path agenda x late hw haway hlate
  obtain ⟨before, htrace⟩ := hlate.1
  obtain ⟨u, a, b, y, since, early, rfl, ha, hb, hy⟩ :=
    hx.serial.exists_update (P := fun r => r.isBlocked path = true) htrace hblocked
      (by simp [hfree])
  have hb' : b.isBlocked path = false := by simpa using hb
  -- A finished notification would have woken the waiter.
  have hnone : (u, .notified true) ∉ since := by
    intro hn
    have hdone : TookAndNotified u (since ++ (u, .updated a b) :: early) := by
      refine ⟨y, ?_⟩
      have hsub := (List.singleton_sublist.mpr hn).append
        (List.singleton_sublist.mpr (List.mem_cons_of_mem (u, Event.updated a b) hy))
      exact hsub
    have hawake := (hnoticed.notified hw hlate hdone).1
    simp [Thread.asleepOnCondition, hs] at hawake
  have htrace' : m.trace =
      since ++ (u, .updated a b) :: (early ++ (w, .released x true) :: before) := by
    rw [htrace]
    simp
  have hmem : (u, .updated a b) ∈ m.trace := by
    rw [htrace']
    simp
  obtain ⟨thu, hthu⟩ := htraced u _ hmem
  have howes := hdebts u thu since _ a b path hthu htrace' ha hb' hnone
  have hcount := hcounted.waiters_ne_zero hnow.waiters hw (enlisted_of_away? haway)
  exact ⟨hcount, u, thu, hthu, howes, since, a, b, _, htrace', ha, hb', hnone⟩

/-- A thread that waits for a path comes back only after a state in which it has the guard, the
path is free, and nothing is left to do but let the mutex go. A thread that sleeps on the condition
variable for a path that is free has a rescuer: some thread removed the block of the path, and has
not woken all since. -/
theorem waiters_not_stranded (devel : Bool) (r : Registry) (todos : List (List Errand))
    (schedule : List Move) :
    let run := (Monitor.start r (tasks todos)).run (errands devel)
    (∀ before after, schedule = before ++ after → ∀ (w : Nat) th th' path agenda,
      (run before).threads[w]? = some th → Awaits path agenda th.stage →
      (run schedule).threads[w]? = some th' → th'.stage = .client (.ready agenda) →
      ∃ between, between <+: after ∧ ∃ thw, (run (before ++ between)).threads[w]? = some thw ∧
        thw.guard = true ∧ thw.stage = .releasing (.resume (.ready agenda)) ∧
        (run (before ++ between)).shared.value.isBlocked path = false) ∧
    (∀ w : Nat, (∀ s, s <+: schedule → Unwrapped w (run s)) → ∀ th seen path agenda,
      (run schedule).threads[w]? = some th → th.stage = .condAsleep seen (.looking path agenda) →
      (run schedule).shared.value.isBlocked path = false → Rescued path (run schedule)) := by
  intro run
  constructor
  · intro before after hschedule w th th' path agenda hw hawaits hw' hs'
    have happend (s : List Move) : run (before ++ s) = (run before).run (errands devel) s :=
      run_append _ _ before s
    rw [hschedule, happend] at hw'
    obtain ⟨between, hpre, hbetween⟩ :=
      leaves_free after (exclusive_run _ _ _ before) hw (.awaiting hawaits) hw' hs'
    refine ⟨between, hpre, ?_⟩
    rw [happend]
    exact hbetween
  · intro w hunwrapped th seen path agenda hw hs hfree
    obtain ⟨holder, hx⟩ := exclusive_run (errands devel) r (tasks todos) schedule
    have hbarred := barred_run devel r todos schedule
    have hdebts := debts_run devel r todos schedule
    have hnoticed := noticed_run _ _ _ schedule w hunwrapped
    exact hbarred.rescued hx (traceTellsWaits_run _ _ _ schedule) hdebts
      (traced_run _ _ _ schedule) (counted_run _ _ _ schedule) hnoticed
      (hunwrapped schedule (List.prefix_refl schedule)) hw hs hfree

/-- A thread sleeps for a path when its block is deleted, and leaves when the deleter has woken
all. -/
theorem waiters_not_stranded_deleted :
    let run := (Monitor.start ⟨[("a", ⟨1⟩)]⟩ (tasks
      [[.waitWhileBlocked "a"], [.request (.delete "a" ⟨1⟩)]])).run (errands false)
    let asleep := List.replicate 8 (Move.thread 0 0)
    let deleted := List.replicate 3 (Move.thread 1 0)
    let rest := List.replicate 6 (Move.thread 1 0) ++ List.replicate 5 (Move.thread 0 0)
    Rescued "a" (run (asleep ++ deleted)) ∧
      ∃ between, between <+: deleted ++ rest ∧ ∃ thw,
        (run (asleep ++ between)).threads[0]? = some thw ∧ thw.guard = true ∧
        thw.stage = .releasing (.resume (.ready { todo := [] })) ∧
        (run (asleep ++ between)).shared.value.isBlocked "a" = false := by
  intro run asleep deleted rest
  have hsleeps : (run asleep).threads[0]? =
      some { stage := .condAsleep 0 (.looking "a" { todo := [] }) } := by
    simp only [run, asleep]
    rfl
  have hstill : (run (asleep ++ deleted)).threads[0]? =
      some { stage := .condAsleep 0 (.looking "a" { todo := [] }) } := by
    simp only [run, asleep, deleted]
    rfl
  have hfree : (run (asleep ++ deleted)).shared.value.isBlocked "a" = false := by
    simp only [run, asleep, deleted]
    rfl
  have hback : (run (asleep ++ (deleted ++ rest))).threads[0]? =
      some { stage := .client (.ready { todo := [] }) } := by
    simp only [run, asleep, deleted, rest]
    rfl
  constructor
  · refine (waiters_not_stranded false _ _ (asleep ++ deleted)).2 0 ?_ _ 0 "a" _ hstill rfl hfree
    exact unwrapped_of_short _ _ _ _ (by decide) (by decide) 0
  · exact (waiters_not_stranded false _ _ _).1 asleep (deleted ++ rest) rfl 0 _ _ "a" _ hsleeps
      (.inl rfl) hback rfl

end Interlock.Blocks
