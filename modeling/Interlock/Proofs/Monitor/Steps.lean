import Interlock.Monitor.Step

/-!
# What a move of a monitor can do

`Thread.Fires` sorts the steps of a thread by what they do to the words, to the value and to the
guard; those that touch nothing but the thread's own stage are `Moves`. `Steps` does the same for
the moves of a monitor. The invariants of a monitor are proved from these two and never from
the step function itself.
-/

namespace Interlock.Monitor

variable {V κ : Type}

/-- What a thread that is on its way to the mutex does once it has it. -/
def Stage.seeking? : Stage κ → Option (OnTaken κ)
  | .locking next | .spinning _ next | .grabbing _ next => some next
  | .marking next | .lockWait next | .lockAsleep next => some next
  | _ => none

theorem seeking?_spin (left : Nat) (next : OnTaken κ) : (spin left next).seeking? = some next := by
  cases left <;> rfl

theorem spin_ne_lockAsleep (left : Nat) (next next' : OnTaken κ) :
    spin left next ≠ .lockAsleep next' := by
  cases left <;> simp [spin]

/-! ### Steps of a thread -/

/-- The steps that change nothing but the stage. -/
inductive Moves (client : Client V κ) (m : Shared V) (guard : Bool) : Stage κ → Stage κ → Prop
  | pass {k k'} : client k = .pass k' → Moves client m guard (.client k) (.client k')
  | lock {k k'} : client k = .lock k' → Moves client m guard (.client k) (.locking (.resume k'))
  | missed {k f} : client k = .tryLock f → m.word ≠ free →
    Moves client m guard (.client k) (.client (f false))
  | unlock {k k'} : client k = .unlock k' → guard = true →
    Moves client m guard (.client k) (.releasing (.resume k'))
  | unheld {k k'} : client k = .unlock k' → guard = false →
    Moves client m guard (.client k) (.client k')
  | wait {k k'} : client k = .wait k' → guard = true →
    Moves client m guard (.client k) (.enlisting k')
  | notify {k all k'} : client k = .notify all k' →
    Moves client m guard (.client k) (.counting all k')
  /-- The thread looks at the word on its way to the mutex. -/
  | watch {s s' next} : s.seeking? = some next → s ≠ .marking next → s'.seeking? = some next →
    (s' = .lockAsleep next → m.word = contended) → Moves client m guard s s'
  | sleep {seen k} : m.seq = seen → Moves client m guard (.condWait seen k) (.condAsleep seen k)
  | rejoin {seen k} : m.seq ≠ seen →
    Moves client m guard (.condWait seen k) (.locking (.rejoin k))
  | count {all k} : m.waiters ≠ 0 → Moves client m guard (.counting all k) (.bumping all k)

/-- The steps of a thread, by what they do. -/
inductive Fires (client : Client V κ) (m : Shared V) (th : Thread κ) : Effect V κ → Prop
  | move {s stage} : th.stage = s → Moves client m th.guard s stage →
    Fires client m th { shared := m, thread := { th with stage } }
  | update {k f} : th.stage = .client k → client k = .update f → th.guard = true →
    Fires client m th {
      shared := { m with value := (f m.value).1 }
      thread := { th with stage := .client (f m.value).2 }
      event := some (.updated m.value (f m.value).1) }
  /-- The thread takes the mutex, by a try or on its way. -/
  | take {word next} : m.word = free →
    (word = taken ∧ th.stage ≠ .marking next ∨ word = contended ∧ th.stage = .marking next) →
    ((∃ k f, th.stage = .client k ∧ client k = .tryLock f ∧ next = .resume (f true)) ∨
      th.stage.seeking? = some next) →
    Fires client m th (takeMutex m word next)
  | mark {next} : th.stage = .marking next → m.word ≠ free →
    Fires client m th {
      shared := { m with word := contended }
      thread := { th with stage := .lockWait next } }
  | release {next} : th.stage = .releasing next →
    Fires client m th {
      shared := { m with word := free }
      thread := {
        guard := false
        stage := if m.word = contended then .lockWake next else next.stage }
      event := some (.released m.value next.waiting) }
  | lockWake {next} : th.stage = .lockWake next →
    Fires client m th {
      shared := m, thread := { th with stage := next.stage }, wake := .oneOnLock }
  | enlist {k} : th.stage = .enlisting k →
    Fires client m th {
      shared := { m with waiters := m.waiters + 1 }
      thread := { th with stage := .sampling k } }
  | sample {k} : th.stage = .sampling k →
    Fires client m th {
      shared := m
      thread := { th with stage := .releasing (.park m.seq k) }
      event := some .sampled }
  | delist {k} : th.stage = .delisting k →
    Fires client m th {
      shared := { m with waiters := m.waiters - 1 }
      thread := { th with stage := .client k } }
  /-- A notification that finds nobody waiting. -/
  | skip {all k} : th.stage = .counting all k → m.waiters = 0 →
    Fires client m th {
      shared := m
      thread := { th with stage := .client k }
      event := some (.notified all) }
  | bump {all k} : th.stage = .bumping all k →
    Fires client m th {
      shared := { m with seq := m.seq + 1 }
      thread := { th with stage := .condWake all k }
      event := some .bumped }
  | condWake {all k} : th.stage = .condWake all k →
    Fires client m th {
      shared := m
      thread := { th with stage := .client k }
      wake := if all then .allOnCondition else .oneOnCondition
      event := some (.notified all) }

theorem fires_of_clientStep {client : Client V κ} {m : Shared V} {th : Thread κ} {k : κ}
    {e : Effect V κ} (hs : th.stage = .client k) (h : clientStep (client k) th m = some e) :
    Fires client m th e := by
  have goto {stage : Stage κ} (hm : Moves client m th.guard (.client k) stage) :
      Fires client m th { shared := m, thread := { th with stage } } := .move hs hm
  cases ha : client k with
  | pass k' =>
    simp only [ha, clientStep, Option.some.injEq] at h
    exact h ▸ goto (.pass ha)
  | update f =>
    simp only [ha, clientStep, Option.ite_none_right_eq_some, Option.some.injEq] at h
    exact h.2 ▸ .update hs ha h.1
  | lock k' =>
    simp only [ha, clientStep, Option.some.injEq] at h
    exact h ▸ goto (.lock ha)
  | tryLock f =>
    simp only [ha, clientStep] at h
    split at h <;> cases h
    · exact .take (by assumption) (.inl ⟨rfl, by simp [hs]⟩) (.inl ⟨k, f, hs, ha, rfl⟩)
    · exact goto (.missed ha (by assumption))
  | unlock k' =>
    simp only [ha, clientStep, Option.some.injEq] at h
    subst h
    split
    · exact goto (.unlock ha (by assumption))
    · exact goto (.unheld ha (by simpa using ‹¬th.guard = true›))
  | wait k' =>
    simp only [ha, clientStep, Option.ite_none_right_eq_some, Option.some.injEq] at h
    exact h.2 ▸ goto (.wait ha h.1)
  | notify all k' =>
    simp only [ha, clientStep, Option.some.injEq] at h
    exact h ▸ goto (.notify ha)
  | halt => simp [ha, clientStep] at h

theorem fires_of_step {client : Client V κ} {m : Shared V} {th : Thread κ} {e : Effect V κ}
    (h : th.step client m = some e) : Fires client m th e := by
  have watch {s s' : Stage κ} {next : OnTaken κ} (hs : th.stage = s)
      (hn : s.seeking? = some next) (hm : s ≠ .marking next) (hn' : s'.seeking? = some next)
      (hw : s' = .lockAsleep next → m.word = contended) :
      Fires client m th { shared := m, thread := { th with stage := s' } } :=
    .move hs (.watch hn hm hn' hw)
  have spins {s : Stage κ} {left : Nat} {next : OnTaken κ} (hs : th.stage = s)
      (hn : s.seeking? = some next) (hm : s ≠ .marking next) :
      Fires client m th { shared := m, thread := { th with stage := spin left next } } :=
    watch hs hn hm (seeking?_spin left next) fun ha => (spin_ne_lockAsleep _ _ _ ha).elim
  cases hs : th.stage with
  | client k =>
    simp only [Thread.step, hs] at h
    exact fires_of_clientStep hs h
  | locking next =>
    simp only [Thread.step, hs] at h
    split at h <;> cases h
    · exact .take (by assumption) (.inl ⟨rfl, by simp [hs]⟩) (.inr (hs ▸ rfl))
    · exact spins hs rfl nofun
  | spinning left next =>
    simp only [Thread.step, hs] at h
    split at h
    · cases h
      exact watch hs rfl nofun rfl nofun
    · split at h <;> cases h
      · exact watch hs rfl nofun rfl nofun
      · exact spins hs rfl nofun
  | grabbing left next =>
    simp only [Thread.step, hs] at h
    split at h <;> cases h
    · exact .take (by assumption) (.inl ⟨rfl, by simp [hs]⟩) (.inr (hs ▸ rfl))
    · exact spins hs rfl nofun
  | marking next =>
    simp only [Thread.step, hs] at h
    split at h <;> cases h
    · exact .take (by assumption) (.inr ⟨rfl, hs⟩) (.inr (hs ▸ rfl))
    · exact .mark hs (by assumption)
  | lockWait next =>
    simp only [Thread.step, hs, Option.some.injEq] at h
    subst h
    split
    · exact watch hs rfl nofun rfl fun _ => by assumption
    · exact watch hs rfl nofun rfl nofun
  | lockAsleep next => simp [Thread.step, hs] at h
  | releasing next =>
    simp only [Thread.step, hs, Option.some.injEq] at h
    exact h ▸ .release hs
  | lockWake next =>
    simp only [Thread.step, hs, Option.some.injEq] at h
    exact h ▸ .lockWake hs
  | enlisting k =>
    simp only [Thread.step, hs, Option.some.injEq] at h
    exact h ▸ .enlist hs
  | sampling k =>
    simp only [Thread.step, hs, Option.some.injEq] at h
    exact h ▸ .sample hs
  | condWait seen k =>
    simp only [Thread.step, hs, Option.some.injEq] at h
    subst h
    split
    · exact .move hs (.sleep (by assumption))
    · exact .move hs (.rejoin (by assumption))
  | condAsleep seen k => simp [Thread.step, hs] at h
  | delisting k =>
    simp only [Thread.step, hs, Option.some.injEq] at h
    exact h ▸ .delist hs
  | counting all k =>
    simp only [Thread.step, hs] at h
    split at h <;> cases h
    · exact .skip hs (by assumption)
    · exact .move hs (.count (by assumption))
  | bumping all k =>
    simp only [Thread.step, hs, Option.some.injEq] at h
    exact h ▸ .bump hs
  | condWake all k =>
    simp only [Thread.step, hs, Option.some.injEq] at h
    exact h ▸ .condWake hs

theorem Fires.of_client {client : Client V κ} {m : Shared V} {th : Thread κ} {e : Effect V κ}
    {k : κ} (h : Fires client m th e) (hs : th.stage = .client k) :
    clientStep (client k) th m = some e := by
  cases h with
  | move hst hm =>
    rw [hs] at hst
    subst hst
    cases hm with
    | watch hn => cases hn
    | missed ha hne => simp [ha, clientStep, hne]
    | _ => simp_all [clientStep]
  | update hst ha hg =>
    cases hs.symm.trans hst
    simp [ha, clientStep, hg]
  | take hfree hw hn =>
    rw [hs] at hw hn
    rcases hw with ⟨rfl, -⟩ | ⟨-, hw⟩
    · rcases hn with ⟨k', f, hk, ha, rfl⟩ | hn
      · cases hk
        simp [ha, clientStep, hfree]
      · cases hn
    · cases hw
  | _ => simp_all

/-! ### The call that a thread is in -/

def OnTaken.goal : OnTaken κ → κ
  | .resume k | .rejoin k => k

def OnFreed.goal : OnFreed κ → κ
  | .resume k | .park _ k => k

/-- The client state that a thread goes on with after the call that it is in. -/
def Stage.goal : Stage κ → κ
  | .client k => k
  | .locking next | .spinning _ next | .grabbing _ next => next.goal
  | .marking next | .lockWait next | .lockAsleep next => next.goal
  | .releasing next | .lockWake next => next.goal
  | .enlisting k | .sampling k | .condWait _ k | .condAsleep _ k | .delisting k => k
  | .counting _ k | .bumping _ k | .condWake _ k => k

theorem goal_of_seeking? {s : Stage κ} {next : OnTaken κ} (h : s.seeking? = some next) :
    s.goal = next.goal := by
  cases s <;> cases h <;> rfl

theorem goal_onTaken (next : OnTaken κ) : next.stage.goal = next.goal := by
  cases next <;> rfl

theorem goal_onFreed (next : OnFreed κ) : next.stage.goal = next.goal := by
  cases next <;> rfl

theorem Fires.goal_eq {client : Client V κ} {m : Shared V} {th : Thread κ} {e : Effect V κ}
    (h : Fires client m th e) (hs : ∀ k, th.stage ≠ .client k) :
    e.thread.stage.goal = th.stage.goal := by
  cases h with
  | move hst hm =>
    rw [hst] at hs ⊢
    cases hm with
    | watch hn _ hn' _ => exact (goal_of_seeking? hn').trans (goal_of_seeking? hn).symm
    | sleep => rfl
    | rejoin => rfl
    | count => rfl
    | _ => exact absurd rfl (hs _)
  | take _ _ hn =>
    rcases hn with ⟨k, f, hk, -⟩ | hn
    · exact absurd hk (hs k)
    · exact (goal_onTaken _).trans (goal_of_seeking? hn).symm
  | update hst => exact absurd hst (hs _)
  | release hst =>
    rw [hst]
    dsimp only
    split
    · rfl
    · exact goal_onFreed _
  | lockWake hst =>
    rw [hst]
    exact goal_onFreed _
  | _ => simp_all [Stage.goal, OnFreed.goal, OnTaken.goal]

/-! ### Threads that are woken -/

@[simp] theorem rouse_guard (th : Thread κ) : th.rouse.guard = th.guard := by
  unfold Thread.rouse
  split <;> rfl

theorem rouse_of_awake {th : Thread κ} (hl : th.asleepOnLock = false)
    (hc : th.asleepOnCondition = false) : th.rouse = th := by
  unfold Thread.rouse
  split
  · simp_all [Thread.asleepOnLock]
  · simp_all [Thread.asleepOnCondition]
  · rfl

@[simp] theorem asleepOnLock_rouse (th : Thread κ) : th.rouse.asleepOnLock = false := by
  unfold Thread.rouse Thread.asleepOnLock
  cases h : th.stage <;> simp [h]

@[simp] theorem asleepOnCondition_rouse (th : Thread κ) : th.rouse.asleepOnCondition = false := by
  unfold Thread.rouse Thread.asleepOnCondition
  cases h : th.stage <;> simp [h]

theorem guard_woken {th th' : Thread κ} (h : th' = th ∨ th' = th.rouse) :
    th'.guard = th.guard := by
  rcases h with rfl | rfl <;> simp

@[simp] theorem goal_rouse (th : Thread κ) : th.rouse.stage.goal = th.stage.goal := by
  cases hs : th.stage <;> simp [Thread.rouse, hs, Stage.goal, OnTaken.goal]

/-- Some of the threads `ts` were woken, and the others are as they were. -/
def Roused (ts ts' : List (Thread κ)) : Prop :=
  ∀ j : Nat, ts'[j]? = ts[j]? ∨ ts'[j]? = ts[j]?.map Thread.rouse

theorem roused_refl (ts : List (Thread κ)) : Roused ts ts := fun _ => .inl rfl

theorem roused_modify (ts : List (Thread κ)) (i : Nat) : Roused ts (ts.modify i Thread.rouse) := by
  intro j
  rw [List.getElem?_modify]
  split
  · exact .inr rfl
  · exact .inl (by simp)

theorem roused_wakeOne (asleep : Thread κ → Bool) (pick : Nat) (ts : List (Thread κ)) :
    Roused ts (wakeOne asleep pick ts) := by
  unfold wakeOne
  dsimp only
  split
  · exact roused_modify ts _
  · exact roused_refl ts

/-- A wake of one reaches some thread if any sleeps there. -/
theorem exists_rouse_wakeOne {asleep : Thread κ → Bool} {ts : List (Thread κ)} (pick : Nat)
    (h : ∃ th ∈ ts, asleep th = true) :
    ∃ (i : Nat) (th : Thread κ), ts[i]? = some th ∧ asleep th = true ∧
      (wakeOne asleep pick ts)[i]? = some th.rouse := by
  by_cases hp : ts[pick]?.any asleep = true
  · obtain ⟨th, hth, ha⟩ := (Option.any_eq_true _ _).mp hp
    refine ⟨pick, th, hth, ha, ?_⟩
    rw [wakeOne, if_pos hp]
    simp only [List.getElem?_modify_eq, hth, Option.map_eq_map, Option.map_some]
  · cases hf : ts.findIdx? asleep with
    | none =>
      obtain ⟨th, hm, ha⟩ := h
      have hnone := List.findIdx?_eq_none_iff.mp hf th hm
      rw [ha] at hnone
      cases hnone
    | some i =>
      obtain ⟨hlt, ha, -⟩ := List.findIdx?_eq_some_iff_getElem.mp hf
      have hi := List.getElem?_eq_getElem hlt
      refine ⟨i, ts[i], hi, ha, ?_⟩
      rw [wakeOne, if_neg hp, hf]
      simp only [List.getElem?_modify_eq, hi, Option.map_eq_map, Option.map_some]

theorem roused_apply (wake : Wake) (pick : Nat) (ts : List (Thread κ)) :
    Roused ts (wake.apply pick ts) := by
  cases wake with
  | nobody => exact roused_refl ts
  | oneOnLock => exact roused_wakeOne _ pick ts
  | oneOnCondition => exact roused_wakeOne _ pick ts
  | allOnCondition =>
    intro j
    simp only [Wake.apply, List.getElem?_map]
    cases ts[j]? with
    | none => exact .inl rfl
    | some th =>
      cases h : th.asleepOnCondition
      · exact .inl (by simp [h])
      · exact .inr (by simp [h])

theorem Roused.map_eq {α : Type} {ts ts' : List (Thread κ)} (h : Roused ts ts') {f : Thread κ → α}
    (hf : ∀ th, f th.rouse = f th) : ts'.map f = ts.map f := by
  apply List.ext_getElem?
  intro j
  simp only [List.getElem?_map]
  rcases h j with hj | hj <;> rw [hj]
  cases ts[j]? <;> simp [hf]

theorem Roused.countP_eq {ts ts' : List (Thread κ)} (h : Roused ts ts') {p : Thread κ → Bool}
    (hp : ∀ th, p th.rouse = p th) : ts'.countP p = ts.countP p := by
  have hm := congrArg (List.countP id) (h.map_eq hp)
  simpa only [List.countP_map, Function.id_comp] using hm

theorem Roused.of_getElem? {ts ts' : List (Thread κ)} (h : Roused ts ts') {j : Nat}
    {th' : Thread κ} (hj : ts'[j]? = some th') :
    ∃ th, ts[j]? = some th ∧ (th' = th ∨ th' = th.rouse) := by
  rcases h j with he | he <;> rw [he] at hj
  · exact ⟨th', hj, .inl rfl⟩
  · obtain ⟨th, hth, rfl⟩ := Option.map_eq_some_iff.mp hj
    exact ⟨th, hth, .inr rfl⟩

theorem Roused.getElem? {ts ts' : List (Thread κ)} (h : Roused ts ts') {j : Nat}
    {th : Thread κ} (hj : ts[j]? = some th) :
    ∃ th', ts'[j]? = some th' ∧ (th' = th ∨ th' = th.rouse) := by
  rcases h j with he | he <;> rw [hj] at he
  · exact ⟨th, he, .inl rfl⟩
  · exact ⟨th.rouse, he, .inr rfl⟩

/-- A thread that a wake leaves alone is still there. -/
theorem Roused.mem {ts ts' : List (Thread κ)} (h : Roused ts ts') {th : Thread κ} (hm : th ∈ ts)
    (hr : th.rouse = th) : th ∈ ts' := by
  obtain ⟨j, hj⟩ := List.mem_iff_getElem?.mp hm
  obtain ⟨th', hth', rfl | rfl⟩ := h.getElem? hj
  · exact List.mem_of_getElem? hth'
  · exact hr ▸ List.mem_of_getElem? hth'

/-! ### Moves of a monitor -/

/-- What a move makes of a monitor. -/
inductive Steps (client : Client V κ) (m : Monitor V κ) : Monitor V κ → Prop
  /-- Nothing happens, except that threads may wake. -/
  | idle {threads} : Roused m.threads threads → Steps client m { m with threads }
  /-- Thread `t` takes a step. -/
  | act {t pick th e} : m.threads[t]? = some th → Fires client m.shared th e →
    Steps client m {
      shared := e.shared
      threads := e.wake.apply pick (m.threads.set t e.thread)
      trace := (e.event.map (t, ·)).toList ++ m.trace }

theorem steps_step (client : Client V κ) (m : Monitor V κ) (move : Move) :
    Steps client m (m.step client move) := by
  cases move with
  | spurious t => exact .idle (roused_modify m.threads t)
  | thread t pick =>
    simp only [step]
    cases ht : m.threads[t]? with
    | none => exact .idle (roused_refl _)
    | some th =>
      simp only
      cases he : th.step client m.shared with
      | none => exact .idle (roused_refl _)
      | some e => exact .act ht (fires_of_step he)

/-- A thread after a step of thread `t`: it took the step itself, or was at most woken. -/
theorem getElem?_act {m : Monitor V κ} {t pick j : Nat} {wake : Wake} {new th' : Thread κ}
    (h : (wake.apply pick (m.threads.set t new))[j]? = some th') :
    (j = t ∧ (th' = new ∨ th' = new.rouse)) ∨
      (j ≠ t ∧ ∃ th, m.threads[j]? = some th ∧ (th' = th ∨ th' = th.rouse)) := by
  obtain ⟨th, hth, hw⟩ := (roused_apply wake pick _).of_getElem? h
  rw [List.getElem?_set] at hth
  split at hth
  · split at hth
    · cases hth
      exact .inl ⟨by omega, hw⟩
    · cases hth
  · exact .inr ⟨by omega, th, hth, hw⟩

theorem other_of_getElem?_act {m : Monitor V κ} {t pick j : Nat} {wake : Wake}
    {new th' : Thread κ} (h : (wake.apply pick (m.threads.set t new))[j]? = some th')
    (hne : j ≠ t) : ∃ th, m.threads[j]? = some th ∧ (th' = th ∨ th' = th.rouse) := by
  rcases getElem?_act h with ⟨he, -⟩ | ⟨-, hother⟩
  · exact absurd he hne
  · exact hother

theorem exists_act_own {m : Monitor V κ} {t : Nat} {th : Thread κ} (ht : m.threads[t]? = some th)
    (wake : Wake) (pick : Nat) (new : Thread κ) :
    ∃ th', (wake.apply pick (m.threads.set t new))[t]? = some th' ∧
      (th' = new ∨ th' = new.rouse) := by
  have hnew : (m.threads.set t new)[t]? = some new := by
    simp [List.getElem?_eq_some_iff.mp ht |>.1]
  exact (roused_apply wake pick _).getElem? hnew

theorem exists_act_other {m : Monitor V κ} {t j : Nat} {th : Thread κ} (hne : j ≠ t)
    (hj : m.threads[j]? = some th) (wake : Wake) (pick : Nat) (new : Thread κ) :
    ∃ th', (wake.apply pick (m.threads.set t new))[j]? = some th' ∧
      (th' = th ∨ th' = th.rouse) := by
  have hold : (m.threads.set t new)[j]? = some th := by
    rw [List.getElem?_set_ne (Ne.symm hne), hj]
  exact (roused_apply wake pick _).getElem? hold

theorem stage_start {value : V} {clients : List κ} {t : Nat} {th : Thread κ}
    (h : (Monitor.start value clients).threads[t]? = some th) :
    ∃ k ∈ clients, th = { stage := .client k } := by
  simp only [Monitor.start, List.getElem?_map, Option.map_eq_some_iff] at h
  obtain ⟨k, hk, rfl⟩ := h
  exact ⟨k, List.mem_of_getElem? hk, rfl⟩

theorem run_invariant {client : Client V κ} {P : Monitor V κ → Prop}
    (hstep : ∀ m m', Steps client m m' → P m → P m') {m : Monitor V κ} (h : P m)
    (schedule : List Move) : P (m.run client schedule) := by
  induction schedule generalizing m with
  | nil => exact h
  | cons move rest ih => exact ih (hstep m _ (steps_step client m move) h)

/-- Whoever left an event in the trace is one of the threads. -/
def Traced (m : Monitor V κ) : Prop :=
  ∀ u event, (u, event) ∈ m.trace → ∃ th, m.threads[u]? = some th

theorem traced_step {client : Client V κ} {m m' : Monitor V κ} (hs : Steps client m m')
    (h : Traced m) : Traced m' := by
  intro u event hu
  cases hs with
  | idle hr =>
    obtain ⟨th, hth⟩ := h u event hu
    obtain ⟨th', hth', -⟩ := hr.getElem? hth
    exact ⟨th', hth'⟩
  | @act t pick th e ht hf =>
    by_cases hut : u = t
    · subst hut
      obtain ⟨th', hth', -⟩ := exists_act_own ht e.wake pick e.thread
      exact ⟨th', hth'⟩
    · have hold : (u, event) ∈ m.trace := by
        rcases List.mem_append.mp hu with hnew | hold
        · cases he : e.event with
          | none => simp [he] at hnew
          | some _ => simp_all
        · exact hold
      obtain ⟨thu, hthu⟩ := h u event hold
      obtain ⟨th', hth', -⟩ := exists_act_other hut hthu e.wake pick e.thread
      exact ⟨th', hth'⟩

theorem traced_run (client : Client V κ) (value : V) (clients : List κ) (schedule : List Move) :
    Traced ((Monitor.start value clients).run client schedule) := by
  apply run_invariant (fun _ _ => traced_step)
  intro u event hu
  cases hu

/-- An invariant that a move keeps as long as `Q` holds of the monitor. -/
theorem run_invariant_along {client : Client V κ} {P Q : Monitor V κ → Prop}
    (hstep : ∀ m m', Steps client m m' → Q m → P m → P m') {m : Monitor V κ} (h : P m)
    (schedule : List Move) (hq : ∀ s, s <+: schedule → Q (m.run client s)) :
    P (m.run client schedule) := by
  induction schedule generalizing m with
  | nil => exact h
  | cons move rest ih =>
    apply ih (hstep m _ (steps_step client m move) (hq [] (List.nil_prefix)) h)
    intro s hs
    exact hq (move :: s) (List.prefix_cons_inj move |>.mpr hs)

end Interlock.Monitor
