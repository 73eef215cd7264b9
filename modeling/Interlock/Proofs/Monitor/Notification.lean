import Interlock.Proofs.Monitor.Waiters
import Interlock.Monitor.SharedList

/-!
# No notification is lost

A waiter lets the mutex go after it joined the waiters and read the sequence word. Whoever takes
the mutex later and then notifies all finds the count above zero, moves the sequence word on, and
wakes those who sleep by then. `WaitingSince` reads the order of the two critical sections off the
trace, and `Noticed` is what every step keeps of a waiter with respect to all such notifiers.
-/

namespace Interlock.Monitor

variable {V κ : Type}

/-! ### Waits in a trace -/

/-- Thread `w` let the mutex go for a wait and left `x` behind it, `late` is what happened since,
the latest first, and `w` has not taken the mutex again. -/
def WaitingSince (w : Nat) (x : V) (late trace : List (Nat × Event V)) : Prop :=
  (∃ early, trace = late ++ (w, .released x true) :: early) ∧ ∀ v, (w, .acquired v) ∉ late

theorem waitingSince_cons {w : Nat} {x : V} {head : Nat × Event V}
    {late trace : List (Nat × Event V)} :
    WaitingSince w x late (head :: trace) ↔
      (late = [] ∧ head = (w, .released x true)) ∨
        ∃ rest, late = head :: rest ∧ (∀ v, head ≠ (w, .acquired v)) ∧
          WaitingSince w x rest trace := by
  constructor
  · rintro ⟨⟨early, he⟩, ha⟩
    cases late with
    | nil => exact .inl ⟨rfl, (List.cons.inj he).1⟩
    | cons first rest =>
      obtain ⟨rfl, hrest⟩ := List.cons.inj he
      refine .inr ⟨rest, rfl, ?_, ⟨early, hrest⟩, ?_⟩
      · rintro v rfl
        exact ha v (List.mem_cons_self ..)
      · exact fun v hv => ha v (List.mem_cons_of_mem _ hv)
  · rintro (⟨rfl, rfl⟩ | ⟨rest, rfl, hne, ⟨early, rfl⟩, ha⟩)
    · exact ⟨⟨trace, rfl⟩, nofun⟩
    · refine ⟨⟨early, rfl⟩, fun v hv => ?_⟩
      rcases List.mem_cons.mp hv with he | hv
      · exact hne v he.symm
      · exact ha v hv

/-- The events of a waiter that is away are those by which it comes and goes. -/
theorem Fires.away {client : Client V κ} {m : Shared V} {th : Thread κ} {e : Effect V κ}
    (h : Fires client m th e) {k : κ} (ha : th.stage.away? = some k) :
    (e.event = none ∧ e.thread.stage.away? = some k) ∨ ∃ v, e.event = some (.acquired v) := by
  cases h with
  | move hs hm =>
    rw [hs] at ha
    cases hm with
    | watch hn _ hn' _ =>
      rw [away?_of_seeking? hn] at ha
      exact .inl ⟨rfl, (away?_of_seeking? hn').trans ha⟩
    | sleep => exact .inl ⟨rfl, ha⟩
    | rejoin => exact .inl ⟨rfl, ha⟩
    | _ => cases ha
  | take => exact .inr ⟨_, rfl⟩
  | mark hs =>
    rw [hs] at ha
    exact .inl ⟨rfl, ha⟩
  | @lockWake next hs =>
    rw [hs] at ha
    cases next with
    | resume => cases ha
    | park => exact .inl ⟨rfl, ha⟩
  | _ =>
    simp_all [Stage.away?, Stage.seeking?]

theorem Fires.comes_away {client : Client V κ} {m : Shared V} {th : Thread κ} {e : Effect V κ}
    (h : Fires client m th e) {k : κ} (ha : e.thread.stage.away? = some k) :
    (e.event = none ∧ th.stage.away? = some k) ∨
      (∃ seen, th.stage = .releasing (.park seen k)) ∧ e.event = some (.released m.value true) := by
  cases h with
  | move hs hm =>
    rw [hs]
    cases hm with
    | watch hn _ hn' _ =>
      rw [away?_of_seeking? hn'] at ha
      exact .inl ⟨rfl, (away?_of_seeking? hn).trans ha⟩
    | sleep => exact .inl ⟨rfl, ha⟩
    | rejoin => exact .inl ⟨rfl, ha⟩
    | _ => cases ha
  | @take _ next => cases next <;> cases ha
  | mark hs => exact .inl ⟨rfl, by rw [hs]; exact ha⟩
  | @release next hs =>
    cases next with
    | resume => dsimp only at ha; split at ha <;> cases ha
    | park seen k' =>
      refine .inr ⟨⟨seen, ?_⟩, rfl⟩
      dsimp only at ha
      split at ha <;> cases ha <;> exact hs
  | @lockWake next hs =>
    cases next with
    | resume => cases ha
    | park => exact .inl ⟨rfl, by rw [hs]; exact ha⟩
  | _ => cases ha

theorem Fires.released_away {client : Client V κ} {m : Shared V} {th : Thread κ} {e : Effect V κ}
    (h : Fires client m th e) {x : V} (he : e.event = some (.released x true)) :
    ∃ k, e.thread.stage.away? = some k := by
  cases h with
  | @release next hs =>
    cases next with
    | resume => cases he
    | park seen k =>
      refine ⟨k, ?_⟩
      dsimp only
      split <;> rfl
  | _ => cases he

/-- A thread is away on a wait exactly if the trace says so. -/
def TraceTellsWaits (m : Monitor V κ) : Prop :=
  ∀ (w : Nat) (th : Thread κ), m.threads[w]? = some th →
    (th.stage.away?.isSome ↔ ∃ x late, WaitingSince w x late m.trace)

/-- How a wait looks in the trace after a step of thread `t`: as before, just begun, or with one
event more, which is then another thread's. -/
theorem TraceTellsWaits.waitingSince_act {client : Client V κ} {m : Monitor V κ}
    (h : TraceTellsWaits m) {t w : Nat} {th : Thread κ} {e : Effect V κ} {x : V}
    {late : List (Nat × Event V)} (ht : m.threads[t]? = some th)
    (hf : Fires client m.shared th e)
    (hw : WaitingSince w x late ((e.event.map (t, ·)).toList ++ m.trace)) :
    (e.event = none ∧ WaitingSince w x late m.trace) ∨
    (late = [] ∧ t = w ∧ e.event = some (.released x true)) ∨
    ∃ event rest, late = (t, event) :: rest ∧ t ≠ w ∧ e.event = some event ∧
      WaitingSince w x rest m.trace := by
  cases he : e.event with
  | none =>
    rw [he] at hw
    exact .inl ⟨rfl, hw⟩
  | some event =>
    rw [he] at hw
    rcases waitingSince_cons.mp hw with ⟨hl, heq⟩ | ⟨rest, hl, hne, hrest⟩
    · cases heq
      exact .inr (.inl ⟨hl, rfl, rfl⟩)
    · refine .inr (.inr ⟨event, rest, hl, ?_, rfl, hrest⟩)
      rintro rfl
      obtain ⟨k, hk⟩ := Option.isSome_iff_exists.mp ((h t th ht).mpr ⟨x, rest, hrest⟩)
      rcases hf.away hk with ⟨hnone, -⟩ | ⟨v, hv⟩
      · rw [hnone] at he
        cases he
      · rw [hv] at he
        cases he
        exact hne v rfl

theorem traceTellsWaits_step {client : Client V κ} {m m' : Monitor V κ} (hs : Steps client m m')
    (h : TraceTellsWaits m) : TraceTellsWaits m' := by
  intro w th' hw
  cases hs with
  | idle hr =>
    obtain ⟨th, hth, hth'⟩ := hr.of_getElem? hw
    rw [away?_woken hth']
    exact h w th hth
  | @act t pick th e ht hf =>
    rcases getElem?_act hw with ⟨rfl, hth'⟩ | ⟨hne, thw, hthw, hth'⟩
    · rw [away?_woken hth']
      constructor
      · intro hsome
        obtain ⟨k, hk⟩ := Option.isSome_iff_exists.mp hsome
        rcases hf.comes_away hk with ⟨he, hold⟩ | ⟨-, he⟩
        · rw [he]
          exact (h w th ht).mp (by rw [hold]; rfl)
        · rw [he]
          exact ⟨_, [], waitingSince_cons.mpr (.inl ⟨rfl, rfl⟩)⟩
      · rintro ⟨x, late, hlate⟩
        rcases h.waitingSince_act ht hf hlate with ⟨he, hold⟩ | ⟨-, -, he⟩ | ⟨_, _, _, hne, -⟩
        · obtain ⟨k, hk⟩ := Option.isSome_iff_exists.mp ((h w th ht).mpr ⟨x, late, hold⟩)
          rcases hf.away hk with ⟨-, hk'⟩ | ⟨v, hv⟩
          · rw [hk']
            rfl
          · rw [hv] at he
            cases he
        · obtain ⟨k, hk⟩ := hf.released_away he
          rw [hk]
          rfl
        · exact absurd rfl hne
    · rw [away?_woken hth', h w thw hthw]
      constructor
      · rintro ⟨x, late, hlate⟩
        cases he : e.event with
        | none => exact ⟨x, late, hlate⟩
        | some event =>
          refine ⟨x, (t, event) :: late, waitingSince_cons.mpr (.inr ⟨late, rfl, ?_, hlate⟩)⟩
          rintro v ⟨⟩
          exact hne rfl
      · rintro ⟨x, late, hlate⟩
        rcases h.waitingSince_act ht hf hlate with
          ⟨-, hold⟩ | ⟨-, rfl, -⟩ | ⟨_, rest, -, -, -, hold⟩
        · exact ⟨x, late, hold⟩
        · exact absurd rfl hne
        · exact ⟨x, rest, hold⟩

theorem traceTellsWaits_run (client : Client V κ) (value : V) (clients : List κ)
    (schedule : List Move) :
    TraceTellsWaits ((Monitor.start value clients).run client schedule) := by
  apply run_invariant (fun _ _ => traceTellsWaits_step)
  intro w th hw
  obtain ⟨k, -, rfl⟩ := stage_start hw
  refine iff_of_false (by simp [Stage.away?, Stage.seeking?]) ?_
  rintro ⟨x, late, ⟨early, he⟩, -⟩
  simp [Monitor.start] at he

/-! ### Notifications -/

theorem Fires.bumped_of_condWake {client : Client V κ} {m : Shared V} {th : Thread κ}
    {e : Effect V κ} (h : Fires client m th e) {all : Bool} {k : κ}
    (hs : e.thread.stage = .condWake all k) : e.event = some .bumped := by
  cases h with
  | move _ hm =>
    dsimp only at hs
    subst hs
    cases hm with
    | watch _ _ hn _ => cases hn
  | @take _ next => cases next <;> cases hs
  | @release next =>
    cases next <;> dsimp only at hs <;> split at hs <;> cases hs
  | @lockWake next => cases next <;> cases hs
  | bump => rfl
  | _ => cases hs

theorem Fires.notified_all {client : Client V κ} {m : Shared V} {th : Thread κ} {e : Effect V κ}
    (h : Fires client m th e) (he : e.event = some (.notified true)) :
    m.waiters = 0 ∨ (∃ k, th.stage = .condWake true k) ∧ e.wake = .allOnCondition := by
  cases h with
  | skip hs hz => exact .inl hz
  | condWake hs =>
    cases he
    exact .inr ⟨⟨_, hs⟩, rfl⟩
  | _ => cases he

/-- A thread falls asleep only on the number that it read. -/
theorem Fires.asleepOnCondition {client : Client V κ} {m : Shared V} {th : Thread κ}
    {e : Effect V κ} (h : Fires client m th e) (ha : e.thread.asleepOnCondition = true) :
    th.stage.saved? = some m.seq ∧ e.event = none := by
  have hasleep : ∃ seen k, e.thread.stage = .condAsleep seen k := by
    unfold Thread.asleepOnCondition at ha
    split at ha
    · exact ⟨_, _, by assumption⟩
    · cases ha
  obtain ⟨seen, k, hs⟩ := hasleep
  cases h with
  | move hst hm =>
    dsimp only at hs
    subst hs
    cases hm with
    | watch _ _ hn _ => cases hn
    | sleep hseq => exact ⟨by rw [hst, hseq]; rfl, rfl⟩
  | @take _ next => cases next <;> cases hs
  | @release next => cases next <;> dsimp only at hs <;> split at hs <;> cases hs
  | @lockWake next => cases next <;> cases hs
  | _ => cases hs

theorem not_asleep_of_allOnCondition {ts : List (Thread κ)} {pick j : Nat} {th : Thread κ}
    (h : (Wake.allOnCondition.apply pick ts)[j]? = some th) : th.asleepOnCondition = false := by
  simp only [Wake.apply, List.getElem?_map, Option.map_eq_some_iff] at h
  obtain ⟨th₀, -, rfl⟩ := h
  cases ha : th₀.asleepOnCondition
  · simp [ha]
  · simp

/-- Thread `u` took the mutex, and a notification of all by it has returned since. -/
def TookAndNotified (u : Nat) (late : List (Nat × Event V)) : Prop :=
  ∃ y, List.Sublist [(u, .notified true), (u, .acquired y)] late

theorem not_tookAndNotified_nil (u : Nat) : ¬ TookAndNotified u ([] : List (Nat × Event V)) := by
  rintro ⟨y, h⟩
  cases h

theorem tookAndNotified_cons {u : Nat} {head : Nat × Event V} {late : List (Nat × Event V)}
    (h : TookAndNotified u (head :: late)) :
    TookAndNotified u late ∨
      (head = (u, .notified true) ∧ ∃ y, (u, Event.acquired y) ∈ late) := by
  obtain ⟨y, hs⟩ := h
  cases hs with
  | cons _ hs => exact .inl ⟨y, hs⟩
  | cons_cons _ hs => exact .inr ⟨rfl, y, List.singleton_sublist.mp hs⟩

/-- What holds of a waiter with respect to every thread that took the mutex after it: if that
thread is about to wake, or has notified all, the waiter has missed nothing. -/
structure Noticed (w : Nat) (m : Monitor V κ) : Prop where
  waking : ∀ {th x late}, m.threads[w]? = some th → WaitingSince w x late m.trace →
    ∀ {u : Nat} {thu all k y}, m.threads[u]? = some thu → thu.stage = .condWake all k →
      (u, .acquired y) ∈ late → th.stage.saved?.isSome → 0 < bumpsSince w m.trace
  notified : ∀ {th x late}, m.threads[w]? = some th → WaitingSince w x late m.trace →
    ∀ {u}, TookAndNotified u late →
      th.asleepOnCondition = false ∧ (th.stage.saved?.isSome → 0 < bumpsSince w m.trace)

theorem stage_of_rouse_eq_condWake {th : Thread κ} {all : Bool} {k : κ}
    (h : th.rouse.stage = .condWake all k) : th.stage = .condWake all k := by
  unfold Thread.rouse at h
  split at h
  · cases h
  · cases h
  · exact h

theorem Noticed.idle {w : Nat} {m : Monitor V κ} {threads : List (Thread κ)} (h : Noticed w m)
    (hr : Roused m.threads threads) : Noticed w { m with threads } := by
  constructor
  · intro th' x late hw hlate u thu' all k y hu hs hy hsaved
    obtain ⟨th, hth, hth'⟩ := hr.of_getElem? hw
    obtain ⟨thu, hthu, hthu'⟩ := hr.of_getElem? hu
    rw [saved?_woken hth'] at hsaved
    have hs₀ : thu.stage = .condWake all k := by
      rcases hthu' with rfl | rfl
      · exact hs
      · exact stage_of_rouse_eq_condWake hs
    exact h.waking hth hlate hthu hs₀ hy hsaved
  · intro th' x late hw hlate u hu
    obtain ⟨th, hth, hth'⟩ := hr.of_getElem? hw
    have hold := h.notified hth hlate hu
    rcases hth' with rfl | rfl
    · exact hold
    · rw [saved?_rouse]
      exact ⟨asleepOnCondition_rouse th, hold.2⟩

/-- A waiter that missed nothing does not fall asleep: the number it read is out of date. -/
theorem Noticed.own {client : Client V κ} {w u : Nat} {m : Monitor V κ} {th : Thread κ}
    {e : Effect V κ} {x : V} {late : List (Nat × Event V)} (h : Noticed w m)
    (hsampled : Sampled m) (hunwrapped : Unwrapped w m) (ht : m.threads[w]? = some th)
    (hf : Fires client m.shared th e) (he : e.event = none)
    (hlate : WaitingSince w x late m.trace) (hu : TookAndNotified u late) :
    e.thread.asleepOnCondition = false ∧
      (e.thread.stage.saved?.isSome → 0 < bumpsSince w m.trace) := by
  obtain ⟨-, hbumps⟩ := h.notified ht hlate hu
  constructor
  · cases ha : e.thread.asleepOnCondition with
    | false => rfl
    | true =>
      obtain ⟨hsaved, -⟩ := hf.asleepOnCondition ha
      exact absurd rfl (hsampled.seq_ne hunwrapped ht hsaved (hbumps (by rw [hsaved]; rfl)))
  · intro hsome
    obtain ⟨seen, hseen⟩ := Option.isSome_iff_exists.mp hsome
    obtain ⟨-, ⟨hev, -⟩ | ⟨hold, -⟩⟩ := hf.saved hseen
    · rw [he] at hev
      cases hev
    · exact hbumps (by rw [hold]; rfl)

theorem Noticed.waking_act {client : Client V κ} {w t pick u : Nat} {m : Monitor V κ}
    {th th' thu : Thread κ} {e : Effect V κ} {x y : V} {late : List (Nat × Event V)} {all : Bool}
    {k : κ} (h : Noticed w m) (htell : TraceTellsWaits m) (ht : m.threads[t]? = some th)
    (hf : Fires client m.shared th e)
    (hw : (e.wake.apply pick (m.threads.set t e.thread))[w]? = some th')
    (hlate : WaitingSince w x late ((e.event.map (t, ·)).toList ++ m.trace))
    (hu : (e.wake.apply pick (m.threads.set t e.thread))[u]? = some thu)
    (hs : thu.stage = .condWake all k) (hy : (u, .acquired y) ∈ late)
    (hsaved : th'.stage.saved?.isSome) :
    0 < bumpsSince w ((e.event.map (t, ·)).toList ++ m.trace) := by
  -- The thread about to wake has just incremented the word, or was there before.
  have hu' : (u = t ∧ e.event = some .bumped) ∨
      (u ≠ t ∧ ∃ thu, m.threads[u]? = some thu ∧ thu.stage = .condWake all k) := by
    rcases getElem?_act hu with ⟨rfl, rfl | rfl⟩ | ⟨hne, thu₀, hthu, rfl | rfl⟩
    · exact .inl ⟨rfl, hf.bumped_of_condWake hs⟩
    · exact .inl ⟨rfl, hf.bumped_of_condWake (stage_of_rouse_eq_condWake hs)⟩
    · exact .inr ⟨hne, _, hthu, hs⟩
    · exact .inr ⟨hne, _, hthu, stage_of_rouse_eq_condWake hs⟩
  rcases htell.waitingSince_act ht hf hlate with
    ⟨he, hold⟩ | ⟨rfl, -⟩ | ⟨event, rest, rfl, htw, he, hrest⟩
  · rw [he]
    rcases hu' with ⟨-, hb⟩ | ⟨-, thu₀, hthu, hstage⟩
    · rw [he] at hb
      cases hb
    · rcases getElem?_act hw with ⟨rfl, hth'⟩ | ⟨-, thw, hthw, hth'⟩
      · rw [saved?_woken hth'] at hsaved
        obtain ⟨seen, hseen⟩ := Option.isSome_iff_exists.mp hsaved
        obtain ⟨-, ⟨hev, -⟩ | ⟨hsaved₀, -⟩⟩ := hf.saved hseen
        · rw [he] at hev
          cases hev
        · exact h.waking ht hold hthu hstage hy (by rw [hsaved₀]; rfl)
      · rw [saved?_woken hth'] at hsaved
        exact h.waking hthw hold hthu hstage hy hsaved
  · cases hy
  · rw [he]
    rcases hu' with ⟨-, hb⟩ | ⟨hut, thu₀, hthu, hstage⟩
    · rw [he] at hb
      cases hb
      exact Nat.succ_pos _
    · have hy' : (u, .acquired y) ∈ rest := by
        rcases List.mem_cons.mp hy with heq | hy'
        · exact absurd (congrArg Prod.fst heq) hut
        · exact hy'
      obtain ⟨thw, hthw, hth'⟩ := other_of_getElem?_act hw (Ne.symm htw)
      rw [saved?_woken hth'] at hsaved
      exact Nat.lt_of_lt_of_le (h.waking hthw hrest hthu hstage hy' hsaved)
        (bumpsSince_cons_of_ne htw event _)

theorem Noticed.notified_act {client : Client V κ} {w t pick u : Nat} {m : Monitor V κ}
    {th th' : Thread κ} {e : Effect V κ} {x : V} {late : List (Nat × Event V)}
    (h : Noticed w m) (htell : TraceTellsWaits m) (hcounted : Counted m) (hsampled : Sampled m)
    (hunwrapped : Unwrapped w m) (ht : m.threads[t]? = some th) (hf : Fires client m.shared th e)
    (hw : (e.wake.apply pick (m.threads.set t e.thread))[w]? = some th')
    (hlate : WaitingSince w x late ((e.event.map (t, ·)).toList ++ m.trace))
    (hu : TookAndNotified u late) :
    th'.asleepOnCondition = false ∧
      (th'.stage.saved?.isSome → 0 < bumpsSince w ((e.event.map (t, ·)).toList ++ m.trace)) := by
  -- A wake can only help.
  have woken {thw : Thread κ} {n : Nat} (hth' : th' = thw ∨ th' = thw.rouse)
      (hgoal : thw.asleepOnCondition = false ∧ (thw.stage.saved?.isSome → 0 < n)) :
      th'.asleepOnCondition = false ∧ (th'.stage.saved?.isSome → 0 < n) := by
    rw [saved?_woken hth']
    rcases hth' with rfl | rfl
    · exact hgoal
    · exact ⟨asleepOnCondition_rouse thw, hgoal.2⟩
  rcases htell.waitingSince_act ht hf hlate with
    ⟨he, hold⟩ | ⟨rfl, -⟩ | ⟨event, rest, rfl, htw, he, hrest⟩
  · rw [he]
    rcases getElem?_act hw with ⟨rfl, hth'⟩ | ⟨-, thw, hthw, hth'⟩
    · exact woken hth' (h.own hsampled hunwrapped ht hf he hold hu)
    · exact woken hth' (h.notified hthw hold hu)
  · exact absurd hu (not_tookAndNotified_nil u)
  · obtain ⟨thw, hthw, hth'⟩ := other_of_getElem?_act hw (Ne.symm htw)
    have hmono := bumpsSince_cons_of_ne htw event m.trace
    rw [he]
    rcases tookAndNotified_cons hu with hu' | ⟨heq, y, hy⟩
    · obtain ⟨hawake, hbumps⟩ := h.notified hthw hrest hu'
      exact woken hth' ⟨hawake, fun hs => Nat.lt_of_lt_of_le (hbumps hs) hmono⟩
    · cases heq
      rcases hf.notified_all he with hzero | ⟨⟨k, hstage⟩, hwake⟩
      · -- The waiter is counted, so the count was not zero.
        obtain ⟨k, hk⟩ := Option.isSome_iff_exists.mp ((htell w thw hthw).mpr ⟨x, rest, hrest⟩)
        exact absurd hzero
          (hcounted.waiters_ne_zero hunwrapped.waiters hthw (enlisted_of_away? hk))
      · rw [hwake] at hw
        refine ⟨not_asleep_of_allOnCondition hw, fun hs => ?_⟩
        rw [saved?_woken hth'] at hs
        exact Nat.lt_of_lt_of_le (h.waking hthw hrest ht hstage hy hs) hmono

theorem noticed_step {client : Client V κ} {w : Nat} {m m' : Monitor V κ}
    (hs : Steps client m m') (htell : TraceTellsWaits m) (hcounted : Counted m)
    (hsampled : Sampled m) (hunwrapped : Unwrapped w m) (h : Noticed w m) : Noticed w m' := by
  cases hs with
  | idle hr => exact h.idle hr
  | act ht hf =>
    constructor
    · intro th' x late hw hlate u thu all k y hu hstage hy hsaved
      exact h.waking_act htell ht hf hw hlate hu hstage hy hsaved
    · intro th' x late hw hlate u hu
      exact h.notified_act htell hcounted hsampled hunwrapped ht hf hw hlate hu

/-- What is known of every run in which no counter runs over before thread `w` sleeps. -/
theorem noticed_run (client : Client V κ) (value : V) (clients : List κ) (schedule : List Move)
    (w : Nat)
    (hunwrapped : ∀ s, s <+: schedule → Unwrapped w ((Monitor.start value clients).run client s)) :
    Noticed w ((Monitor.start value clients).run client schedule) := by
  apply run_invariant_along (P := Noticed w)
    (Q := fun m => TraceTellsWaits m ∧ Counted m ∧ Sampled m ∧ Unwrapped w m)
  · rintro m m' hs ⟨htell, hcounted, hsampled, hu⟩ h
    exact noticed_step hs htell hcounted hsampled hu h
  · have hnone {x : V} {late : List (Nat × Event V)} :
        ¬ WaitingSince w x late (Monitor.start value clients).trace := by
      rintro ⟨⟨early, he⟩, -⟩
      simp [Monitor.start] at he
    exact ⟨fun _ hlate => absurd hlate hnone, fun _ hlate => absurd hlate hnone⟩
  · intro s hs
    exact ⟨traceTellsWaits_run client value clients s, counted_run client value clients s,
      sampled_run client value clients s, hunwrapped s hs⟩

/-! ### Main result -/

/-- A thread that let the mutex go for a wait, and has not taken it again, keeps the count of
waiters above zero, so no notifier skips it. If another thread took the mutex since and has then
notified all, the waiter does not sleep; and if its futex wait is still to come, the sequence word
differs from the number it read, and that wait returns at once. -/
theorem notify_all_not_lost (client : Client V κ) (value : V) (clients : List κ)
    (schedule : List Move) (w : Nat)
    (hunwrapped : ∀ s, s <+: schedule →
      Unwrapped w ((Monitor.start value clients).run client s)) :
    let m := (Monitor.start value clients).run client schedule
    ∀ th x late, m.threads[w]? = some th → WaitingSince w x late m.trace →
      m.shared.waiters ≠ 0 ∧
      ∀ u, TookAndNotified u late →
        th.asleepOnCondition = false ∧
        (∀ seen, th.stage.saved? = some seen → m.shared.seq ≠ seen) ∧
        (∀ seen k, th.stage = .condWait seen k → th.step client m.shared =
          some { shared := m.shared, thread := { th with stage := .locking (.rejoin k) } }) := by
  intro m th x late hw hlate
  have hnow := hunwrapped schedule (List.prefix_refl schedule)
  have hsampled : Sampled m := sampled_run client value clients schedule
  constructor
  · have htell : TraceTellsWaits m := traceTellsWaits_run client value clients schedule
    obtain ⟨k, hk⟩ := Option.isSome_iff_exists.mp ((htell w th hw).mpr ⟨x, late, hlate⟩)
    have hcounted : Counted m := counted_run client value clients schedule
    exact hcounted.waiters_ne_zero hnow.waiters hw (enlisted_of_away? hk)
  · intro u hu
    have hnoticed : Noticed w m := noticed_run client value clients schedule w hunwrapped
    obtain ⟨hawake, hbumps⟩ := hnoticed.notified hw hlate hu
    have hseq (seen : BitVec 32) (hs : th.stage.saved? = some seen) : m.shared.seq ≠ seen :=
      hsampled.seq_ne hnow hw hs (hbumps (by rw [hs]; rfl))
    refine ⟨hawake, hseq, ?_⟩
    intro seen k hs
    have hne := hseq seen (by rw [hs]; rfl)
    simp only [Thread.step, hs, if_neg hne]

/-- A thread waits for an item and is overtaken on its way to the futex: another one appends the
item and notifies all before the waiter sleeps. -/
theorem notify_all_not_lost_overtaken :
    let schedule := List.replicate 7 (Move.thread 0 0) ++ List.replicate 10 (Move.thread 1 0)
    let m := (Monitor.start [] [.await 1, .append [7] (some true)]).run SharedList.client schedule
    ∃ th, m.threads[0]? = some th ∧ th.stage = .condWait 0 (.test 1) ∧
      m.shared.waiters ≠ 0 ∧ th.asleepOnCondition = false ∧ m.shared.seq ≠ 0 := by
  intro schedule m
  have hth : m.threads[0]? = some { stage := .condWait 0 (.test 1) } := rfl
  have hlate : WaitingSince 0 []
      [(1, .notified true), (1, .bumped), (1, .released [7] false), (1, .updated [] [7]),
        (1, .updated [] []), (1, .acquired [])] m.trace := by
    refine ⟨⟨[(0, .sampled), (0, .updated [] []), (0, .acquired [])], rfl⟩, ?_⟩
    simp
  have hshort := unwrapped_of_short SharedList.client [] [.await 1, .append [7] (some true)]
    schedule (by decide) (by decide) 0
  obtain ⟨hcount, hnoticed⟩ := notify_all_not_lost SharedList.client [] _ schedule 0 hshort _ _ _
    hth hlate
  obtain ⟨hawake, hseq, -⟩ := hnoticed 1 ⟨[], by decide⟩
  exact ⟨_, hth, rfl, hcount, hawake, hseq 0 rfl⟩

end Interlock.Monitor
