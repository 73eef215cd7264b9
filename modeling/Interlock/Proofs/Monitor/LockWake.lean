import Interlock.Proofs.Monitor.Exclusion

/-!
# No sleeper on the state word is forgotten

Letting the mutex go wakes a sleeper only if the word was contended, and a newcomer may take it
as plain `taken` before the woken thread marks it again. What keeps the other sleepers in reach is
a disjunction that every step keeps: the word is contended, or somebody has a wake to do, or
somebody is about to mark the word.
-/

namespace Interlock.Monitor

variable {V κ : Type}

/-- A thread that let a contended mutex go and has not woken a sleeper yet. -/
def Thread.OwesLockWake (th : Thread κ) : Prop := ∃ next, th.stage = .lockWake next

/-- A thread that is awake and about to exchange `contended` in. -/
def Thread.AboutToMark (th : Thread κ) : Prop := ∃ next, th.stage = .marking next

/-- Somebody will see to those who sleep on the state word. -/
def Attended (m : Monitor V κ) : Prop :=
  m.shared.word = contended ∨ (∃ th ∈ m.threads, th.OwesLockWake) ∨
    ∃ th ∈ m.threads, th.AboutToMark

theorem Thread.OwesLockWake.rouse_eq {th : Thread κ} (h : th.OwesLockWake) : th.rouse = th := by
  obtain ⟨next, hs⟩ := h
  exact rouse_of_awake (by simp [asleepOnLock, hs]) (by simp [asleepOnCondition, hs])

theorem Thread.AboutToMark.rouse_eq {th : Thread κ} (h : th.AboutToMark) : th.rouse = th := by
  obtain ⟨next, hs⟩ := h
  exact rouse_of_awake (by simp [asleepOnLock, hs]) (by simp [asleepOnCondition, hs])

theorem aboutToMark_rouse {th : Thread κ} (h : th.asleepOnLock = true) :
    th.rouse.AboutToMark := by
  unfold Thread.asleepOnLock at h
  split at h
  · rename_i next hs
    exact ⟨next, by simp [Thread.rouse, hs]⟩
  · cases h

/-! ### What a step does to the sleepers -/

theorem onFreed_ne_lockAsleep (next : OnFreed κ) (next' : OnTaken κ) :
    next.stage ≠ .lockAsleep next' := by
  cases next <;> exact nofun

theorem asleepOnLock_iff {th : Thread κ} :
    th.asleepOnLock = true ↔ ∃ next, th.stage = .lockAsleep next := by
  unfold Thread.asleepOnLock
  cases h : th.stage <;> simp

theorem Fires.contended_of_asleep {client : Client V κ} {m : Shared V} {th : Thread κ}
    {e : Effect V κ} (h : Fires client m th e) (ha : e.thread.asleepOnLock = true) :
    e.shared.word = contended := by
  obtain ⟨next, hs⟩ := asleepOnLock_iff.mp ha
  cases h with
  | move _ hm =>
    dsimp only at hs
    cases hm with
    | watch _ _ hn hw =>
      subst hs
      cases hn
      exact hw rfl
    | _ => cases hs
  | @take _ next' _ _ =>
    cases next' <;> cases hs
  | release =>
    dsimp only at hs
    split at hs
    · cases hs
    · exact absurd hs (onFreed_ne_lockAsleep _ _)
  | lockWake => exact absurd hs (onFreed_ne_lockAsleep _ _)
  | _ => cases hs

/-- A contended word stays so until the thread that frees it has a wake to do. -/
theorem Fires.contended_or_owes {client : Client V κ} {m : Shared V} {th : Thread κ}
    {e : Effect V κ} (h : Fires client m th e) (hw : m.word = contended) :
    e.shared.word = contended ∨ e.thread.OwesLockWake := by
  cases h with
  | @release next _ => exact .inr ⟨next, by simp [hw]⟩
  | take hfree =>
    rw [hw] at hfree
    cases hfree
  | mark => exact .inl rfl
  | _ => exact .inl hw

theorem Fires.contended_of_aboutToMark {client : Client V κ} {m : Shared V} {th : Thread κ}
    {e : Effect V κ} (h : Fires client m th e) (hm : th.AboutToMark) :
    e.shared.word = contended := by
  obtain ⟨next, hs⟩ := hm
  cases h with
  | move hst hmv =>
    rw [hs] at hst
    subst hst
    cases hmv with
    | watch hn hne _ _ =>
      cases hn
      exact absurd rfl hne
  | take _ hw hn =>
    rw [hs] at hw hn
    rcases hn with ⟨k, f, hk, -⟩ | hn
    · cases hk
    · cases hn
      rcases hw with ⟨-, hne⟩ | ⟨hw, -⟩
      · exact absurd rfl hne
      · exact hw
  | mark => rfl
  | _ => simp_all

theorem Fires.wake_of_owes {client : Client V κ} {m : Shared V} {th : Thread κ}
    {e : Effect V κ} (h : Fires client m th e) (ho : th.OwesLockWake) :
    e.wake = .oneOnLock := by
  obtain ⟨next, hs⟩ := ho
  cases h with
  | move hst hmv =>
    rw [hs] at hst
    subst hst
    cases hmv with
    | watch hn => cases hn
  | take _ _ hn =>
    rw [hs] at hn
    rcases hn with ⟨k, f, hk, -⟩ | hn
    · cases hk
    · cases hn
  | lockWake => rfl
  | _ => simp_all

/-- A wake of one reaches somebody if anybody sleeps. -/
theorem exists_aboutToMark_wakeOne {ts : List (Thread κ)} (pick : Nat)
    (h : ∃ th ∈ ts, th.asleepOnLock = true) :
    ∃ th ∈ wakeOne Thread.asleepOnLock pick ts, th.AboutToMark := by
  obtain ⟨i, th, -, ha, hi⟩ := exists_rouse_wakeOne pick h
  exact ⟨th.rouse, List.mem_of_getElem? hi, aboutToMark_rouse ha⟩

/-! ### The invariant -/

/-- Whether some thread sleeps on the state word. -/
def SomeAsleep (m : Monitor V κ) : Prop := ∃ th ∈ m.threads, th.asleepOnLock = true

theorem Attended.idle {m : Monitor V κ} {threads : List (Thread κ)} (h : Attended m)
    (hr : Roused m.threads threads) : Attended { m with threads } := by
  rcases h with hw | ⟨th, hm, ho⟩ | ⟨th, hm, ha⟩
  · exact .inl hw
  · exact .inr (.inl ⟨th, hr.mem hm ho.rouse_eq, ho⟩)
  · exact .inr (.inr ⟨th, hr.mem hm ha.rouse_eq, ha⟩)

/-- A step of thread `t` while another thread sleeps. -/
theorem Attended.act {client : Client V κ} {m : Monitor V κ} {t pick j : Nat} {th thj : Thread κ}
    {e : Effect V κ} (h : Attended m) (ht : m.threads[t]? = some th)
    (hf : Fires client m.shared th e) (hne : j ≠ t) (hj : m.threads[j]? = some thj)
    (ha : thj.asleepOnLock = true) (trace : List (Nat × Event V)) :
    Attended {
      shared := e.shared
      threads := e.wake.apply pick (m.threads.set t e.thread)
      trace } := by
  have hr := roused_apply e.wake pick (m.threads.set t e.thread)
  have hown : e.thread ∈ m.threads.set t e.thread :=
    List.mem_of_getElem? (List.getElem?_set_self (List.getElem?_eq_some_iff.mp ht).1)
  have hother {i : Nat} {thi : Thread κ} (hi : m.threads[i]? = some thi) (hit : i ≠ t) :
      thi ∈ m.threads.set t e.thread :=
    List.mem_of_getElem? ((List.getElem?_set_ne (Ne.symm hit)).trans hi)
  rcases h with hw | ⟨th₀, hm, ho⟩ | ⟨th₀, hm, hmark⟩
  · rcases hf.contended_or_owes hw with hc | ho
    · exact .inl hc
    · exact .inr (.inl ⟨e.thread, hr.mem hown ho.rouse_eq, ho⟩)
  · obtain ⟨i, hi⟩ := List.mem_iff_getElem?.mp hm
    by_cases hit : i = t
    · -- The wake is done now: it reaches `thj`, or another sleeper.
      subst hit
      cases ht.symm.trans hi
      have hwake := hf.wake_of_owes ho
      rw [hwake]
      exact .inr (.inr (exists_aboutToMark_wakeOne pick ⟨thj, hother hj hne, ha⟩))
    · exact .inr (.inl ⟨th₀, hr.mem (hother hi hit) ho.rouse_eq, ho⟩)
  · obtain ⟨i, hi⟩ := List.mem_iff_getElem?.mp hm
    by_cases hit : i = t
    · subst hit
      cases ht.symm.trans hi
      exact .inl (hf.contended_of_aboutToMark hmark)
    · exact .inr (.inr ⟨th₀, hr.mem (hother hi hit) hmark.rouse_eq, hmark⟩)

theorem attended_step {client : Client V κ} {m m' : Monitor V κ} (hs : Steps client m m')
    (h : SomeAsleep m → Attended m) (ha : SomeAsleep m') : Attended m' := by
  obtain ⟨th', hm', ha'⟩ := ha
  obtain ⟨j, hj⟩ := List.mem_iff_getElem?.mp hm'
  cases hs with
  | idle hr =>
    obtain ⟨thj, hthj, rfl | rfl⟩ := hr.of_getElem? hj
    · exact (h ⟨_, List.mem_of_getElem? hthj, ha'⟩).idle hr
    · simp at ha'
  | act ht hf =>
    rcases getElem?_act hj with ⟨-, rfl | rfl⟩ | ⟨hne, thj, hthj, rfl | rfl⟩
    · exact .inl (hf.contended_of_asleep ha')
    · simp at ha'
    · exact (h ⟨_, List.mem_of_getElem? hthj, ha'⟩).act ht hf hne hthj ha' _
    · simp at ha'

theorem attended_run (client : Client V κ) (value : V) (clients : List κ) (schedule : List Move) :
    SomeAsleep ((Monitor.start value clients).run client schedule) →
      Attended ((Monitor.start value clients).run client schedule) := by
  apply run_invariant (P := fun m => SomeAsleep m → Attended m)
  · intro m m' hs h
    exact attended_step hs h
  · rintro ⟨th, hm, ha⟩
    obtain ⟨k, -, rfl⟩ := List.mem_map.mp hm
    cases ha

theorem contended_step {client : Client V κ} {m m' : Monitor V κ} (hs : Steps client m m')
    (hw : m.shared.word = contended) :
    m'.shared.word = contended ∨ ∃ th ∈ m'.threads, th.OwesLockWake := by
  cases hs with
  | idle => exact .inl hw
  | @act t pick th e ht hf =>
    rcases hf.contended_or_owes hw with hc | ho
    · exact .inl hc
    · obtain ⟨th', hth', rfl | rfl⟩ := exists_act_own ht e.wake pick e.thread
      · exact .inr ⟨_, List.mem_of_getElem? hth', ho⟩
      · rw [ho.rouse_eq] at hth'
        exact .inr ⟨_, List.mem_of_getElem? hth', ho⟩

/-! ### Main result -/

/-- In every reachable state in which a thread sleeps on the state word, the word is contended and
some thread has the guard, or a thread owes a wake, or a thread is about to mark the word. A
contended word stays so until a thread has let the mutex go and owes a wake. So the mutex is
never free with a sleeper and with nobody left to wake it or to mark the word. -/
theorem lock_sleepers_attended (client : Client V κ) (value : V) (clients : List κ)
    (schedule : List Move) :
    let m := (Monitor.start value clients).run client schedule
    (SomeAsleep m →
      (m.shared.word = contended ∧ ∃ th ∈ m.threads, th.guard = true) ∨
      (∃ th ∈ m.threads, th.OwesLockWake) ∨ ∃ th ∈ m.threads, th.AboutToMark) ∧
    (m.shared.word = contended → ∀ move : Move,
      (m.step client move).shared.word = contended ∨
        ∃ th ∈ (m.step client move).threads, th.OwesLockWake) ∧
    ¬ (m.shared.word = free ∧ SomeAsleep m ∧
      ∀ th ∈ m.threads, ¬ th.OwesLockWake ∧ ¬ th.AboutToMark) := by
  intro m
  have hattended : SomeAsleep m → Attended m := attended_run client value clients schedule
  refine ⟨?_, ?_, ?_⟩
  · intro ha
    rcases hattended ha with hw | h
    · obtain ⟨holder, h⟩ := exclusive_run client value clients schedule
      have hne : m.shared.word ≠ free := by
        rw [hw]
        decide
      exact .inl ⟨hw, h.exists_guard hne⟩
    · exact .inr h
  · intro hw move
    exact contended_step (steps_step client m move) hw
  · rintro ⟨hfree, ha, hnone⟩
    rcases hattended ha with hw | ⟨th, hm, ho⟩ | ⟨th, hm, hmark⟩
    · rw [hfree] at hw
      cases hw
    · exact (hnone th hm).1 ho
    · exact (hnone th hm).2 hmark

set_option maxRecDepth 4000 in
/-- A thread finds the mutex taken, marks the word when it has watched it long enough, and goes to
sleep. -/
theorem lock_sleepers_attended_appenders :
    let schedule := List.replicate 2 (Move.thread 0 0) ++ List.replicate 104 (Move.thread 1 0)
    let m := (Monitor.start [] [.append [7] none, .append [8] none]).run SharedList.client schedule
    SomeAsleep m ∧ ((m.shared.word = contended ∧ ∃ th ∈ m.threads, th.guard = true) ∨
      (∃ th ∈ m.threads, th.OwesLockWake) ∨ ∃ th ∈ m.threads, th.AboutToMark) := by
  intro schedule m
  have hth : m.threads[1]? = some { stage := .lockAsleep (.resume (.fetch 8 [] none)) } := by
    simp only [m, schedule]
    rfl
  have hasleep : SomeAsleep m := ⟨_, List.mem_of_getElem? hth, rfl⟩
  obtain ⟨hattended, -⟩ := lock_sleepers_attended SharedList.client []
    [.append [7] none, .append [8] none] schedule
  exact ⟨hasleep, hattended hasleep⟩

end Interlock.Monitor
