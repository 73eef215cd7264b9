import Interlock.Monitor.Queue
import Interlock.Proofs.Monitor.Waits

/-!
# Items do not lie in the queue while all consumers sleep

While there is an item in the queue, a producer has yet to count the waiters for it, or a consumer
is on its way to look, or a consumer knows a sequence word that is out of date, or all consumers
sleep and a producer is about to wake one of them. Each step hands this from one of the four to
another, and none of them is a state in which nobody does anything about the item.
-/

namespace Interlock.Queue

open Monitor

variable {α : Type} {keeps : α → Bool} {q : List α} {m : Shared (List α)}
  {th th' : Thread (Job α)} {e : Effect (List α) (Job α)}

/-! ### Steps outside of every call -/

/-- Where a step of a thread with the job leads that is outside of every call, and the queue that
it leaves behind. -/
inductive Turn (keeps : α → Bool) (guard : Bool) (q : List α) :
    Job α → Stage (Job α) → List α → Prop
  | consume : Turn keeps guard q .consume (.locking (.resume .look)) q
  | starve : guard = true → q = [] → Turn keeps guard q .look (.client .sleep) []
  | take {item rest} : q = item :: rest →
    Turn keeps guard q .look (.client (if keeps item then .look else .leave)) rest
  | sleep : Turn keeps guard q .sleep (.enlisting .look) q
  | leave {s} : s.goal = .consume → Turn keeps guard q .leave s q
  | produce {item} : Turn keeps guard q (.produce item) (.locking (.resume (.push item))) q
  | push {item} : Turn keeps guard q (.push item) (.client .pushed) (q ++ [item])
  | pushed {s} : s.goal = .announce → Turn keeps guard q .pushed s q
  | announce : Turn keeps guard q .announce (.counting false .done) q

theorem turn_of_fires (h : Fires (client keeps) m th e) {k : Job α} (hs : th.stage = .client k) :
    Turn keeps th.guard m.value k e.thread.stage e.shared.value ∧ e.thread.guard = th.guard := by
  have he := h.of_client hs
  cases k with
  | consume =>
    cases he
    exact ⟨.consume, rfl⟩
  | look =>
    simp only [client, clientStep, Option.ite_none_right_eq_some, Option.some.injEq] at he
    obtain ⟨hg, rfl⟩ := he
    cases hq : m.value with
    | nil => exact ⟨.starve hg rfl, rfl⟩
    | cons item rest => exact ⟨.take rfl, rfl⟩
  | sleep =>
    simp only [client, clientStep, Option.ite_none_right_eq_some, Option.some.injEq] at he
    obtain ⟨-, rfl⟩ := he
    exact ⟨.sleep, rfl⟩
  | leave =>
    cases he
    refine ⟨.leave ?_, rfl⟩
    dsimp only
    split <;> rfl
  | produce item =>
    cases he
    exact ⟨.produce, rfl⟩
  | push item =>
    simp only [client, clientStep, Option.ite_none_right_eq_some, Option.some.injEq] at he
    obtain ⟨-, rfl⟩ := he
    exact ⟨.push, rfl⟩
  | pushed =>
    cases he
    refine ⟨.pushed ?_, rfl⟩
    dsimp only
    split <;> rfl
  | announce =>
    cases he
    exact ⟨.announce, rfl⟩
  | done => cases he

variable {guard : Bool} {k : Job α} {s : Stage (Job α)} {q' : List α}

theorem Turn.consumer_eq (h : Turn keeps guard q k s q') : s.goal.consumer = k.consumer := by
  cases h with
  | take =>
    dsimp only [Stage.goal]
    split <;> rfl
  | leave hs => rw [hs]; rfl
  | pushed hs => rw [hs]; rfl
  | _ => rfl

/-- Only a consumer that finds the queue empty goes on to wait. -/
theorem Turn.starved (h : Turn keeps guard q k s q') (hs : s.goal = .sleep) :
    s = .client .sleep ∧ guard = true ∧ q = [] ∧ q' = [] := by
  cases h with
  | starve hg hq => exact ⟨rfl, hg, hq, rfl⟩
  | take =>
    dsimp only [Stage.goal] at hs
    split at hs <;> cases hs
  | leave hs' => rw [hs'] at hs; cases hs
  | pushed hs' => rw [hs'] at hs; cases hs
  | _ => cases hs

theorem Turn.of_sleep (h : Turn keeps guard q .sleep s q') : s = .enlisting .look := by
  cases h
  rfl

theorem wait_eq {k k' : Job α} (h : client keeps k = .wait k') : k = .sleep ∧ k' = .look := by
  cases k <;> cases h
  exact ⟨rfl, rfl⟩

/-- Whether a thread is a consumer. -/
def isConsumer (th : Thread (Job α)) : Bool := th.stage.goal.consumer

theorem isConsumer_eq (h : Fires (client keeps) m th e) : isConsumer e.thread = isConsumer th := by
  by_cases hc : ∃ k, th.stage = .client k
  · obtain ⟨k, hk⟩ := hc
    obtain ⟨ht, -⟩ := turn_of_fires h hk
    rw [isConsumer, ht.consumer_eq, isConsumer, hk]
    rfl
  · have hinside (k : Job α) : th.stage ≠ .client k := fun hk => hc ⟨k, hk⟩
    rw [isConsumer, h.goal_eq hinside, isConsumer]

theorem isConsumer_woken (h : th' = th ∨ th' = th.rouse) : isConsumer th' = isConsumer th := by
  rcases h with rfl | rfl
  · rfl
  · rw [isConsumer, goal_rouse, isConsumer]

/-! ### Consumers wait on an empty queue -/

/-- A thread that is about to wait, or that has not let the mutex go for its wait, has seen the
queue empty, and it still is. Whoever waits looks at the queue next. -/
structure Patient (q : List α) (th : Thread (Job α)) : Prop where
  starved : th.stage.goal = .sleep → th.stage = .client .sleep ∧ th.guard = true ∧ q = []
  parking : ∀ k, th.stage.parking? = some k → q = []
  inWait : th.stage.inWait = true → th.stage.goal = .look

theorem fires_patient (h : Fires (client keeps) m th e) (hp : Patient m.value th) :
    Patient e.shared.value e.thread := by
  constructor
  · intro hgoal
    by_cases hc : ∃ k, th.stage = .client k
    · obtain ⟨k, hk⟩ := hc
      obtain ⟨ht, hg⟩ := turn_of_fires h hk
      obtain ⟨hs, hguard, -, hq⟩ := ht.starved hgoal
      exact ⟨hs, hg.trans hguard, hq⟩
    · have hinside (k : Job α) : th.stage ≠ .client k := fun hk => hc ⟨k, hk⟩
      rw [h.goal_eq hinside] at hgoal
      exact absurd (hp.starved hgoal).1 (hinside _)
  · intro k hpark
    obtain ⟨hv, hold | ⟨k', hk', ha⟩⟩ := h.parking hpark
    · rw [hv, hp.parking k hold]
    · obtain ⟨rfl, -⟩ := wait_eq ha
      obtain ⟨-, -, hq⟩ := hp.starved (by rw [hk']; rfl)
      rw [hv, hq]
  · intro hw
    rcases h.comes_to_wait hw with hold | ⟨k, k', hk, ha⟩
    · have hinside (k : Job α) : th.stage ≠ .client k := by
        intro hk
        rw [hk] at hold
        cases hold
      exact (h.goal_eq hinside).trans (hp.inWait hold)
    · obtain ⟨rfl, -⟩ := wait_eq ha
      obtain ⟨ht, -⟩ := turn_of_fires h hk
      rw [ht.of_sleep]
      rfl

theorem patient_of_value (h : Patient q th) (hp : th.Placed) (hv : th.guard = true → q' = q) :
    Patient q' th := by
  refine ⟨?_, ?_, h.inWait⟩
  · intro hgoal
    obtain ⟨hs, hg, hq⟩ := h.starved hgoal
    exact ⟨hs, hg, by rw [hv hg, hq]⟩
  · intro k hpark
    rw [hv (hp (letsGo_of_parking? hpark)), h.parking k hpark]

theorem patient_woken (h : Patient q th) (hw : th' = th ∨ th' = th.rouse) : Patient q th' := by
  rcases hw with rfl | rfl
  · exact h
  · refine ⟨?_, ?_, ?_⟩
    · intro hgoal
      rw [goal_rouse] at hgoal
      obtain ⟨hs, hg, hq⟩ := h.starved hgoal
      exact ⟨by simp [Thread.rouse, hs], by rw [rouse_guard, hg], hq⟩
    · intro k hpark
      rw [parking?_rouse] at hpark
      exact h.parking k hpark
    · intro hin
      rw [inWait_rouse] at hin
      rw [goal_rouse, h.inWait hin]

/-- Every thread is patient, and those before `n` and no others are consumers. -/
structure Staffed (n : Nat) (m : Monitor (List α) (Job α)) : Prop where
  patient : ∀ (w : Nat) th, m.threads[w]? = some th → Patient m.shared.value th
  consumer_iff : ∀ (w : Nat) th, m.threads[w]? = some th → (isConsumer th = true ↔ w < n)

theorem staffed_step {n : Nat} {m m' : Monitor (List α) (Job α)} {before : List α}
    {holder : Option Nat} (hs : Steps (client keeps) m m') (hx : Exclusive before m holder)
    (h : Staffed n m) : Staffed n m' := by
  cases hs with
  | idle hr =>
    constructor
    · intro w th' hw
      obtain ⟨th, hth, hth'⟩ := hr.of_getElem? hw
      exact patient_woken (h.patient w th hth) hth'
    · intro w th' hw
      obtain ⟨th, hth, hth'⟩ := hr.of_getElem? hw
      rw [isConsumer_woken hth']
      exact h.consumer_iff w th hth
  | @act t pick th e ht hf =>
    constructor
    · intro w th' hw
      rcases getElem?_act hw with ⟨rfl, hth'⟩ | ⟨hne, thw, hthw, hth'⟩
      · exact patient_woken (fires_patient hf (h.patient w th ht)) hth'
      · have hsame : thw.guard = true → e.shared.value = m.shared.value := fun hg =>
          hx.value_eq hthw hg ht hne hf
        exact patient_woken (patient_of_value (h.patient w thw hthw) (hx.placed w thw hthw) hsame)
          hth'
    · intro w th' hw
      rcases getElem?_act hw with ⟨rfl, hth'⟩ | ⟨-, thw, hthw, hth'⟩
      · rw [isConsumer_woken hth', isConsumer_eq hf]
        exact h.consumer_iff w th ht
      · rw [isConsumer_woken hth']
        exact h.consumer_iff w thw hthw

theorem getElem?_crew_of_lt {n c : Nat} (items : List α) (h : c < n) :
    (crew n items)[c]? = some .consume := by
  rw [crew, List.getElem?_append_left (by simpa using h), List.getElem?_replicate, if_pos h]

theorem staffed_start (queue : List α) (n : Nat) (items : List α) :
    Staffed n (Monitor.start queue (crew n items)) := by
  constructor
  · intro w th hw
    obtain ⟨k, hk, rfl⟩ := stage_start hw
    refine ⟨?_, ?_, ?_⟩
    · rintro rfl
      simp [crew] at hk
    · intro k hin
      cases hin
    · intro hin
      cases hin
  · intro w th hw
    simp only [Monitor.start, List.getElem?_map, Option.map_eq_some_iff] at hw
    obtain ⟨k, hk, rfl⟩ := hw
    by_cases hlt : w < n
    · rw [getElem?_crew_of_lt items hlt] at hk
      cases hk
      exact iff_of_true rfl hlt
    · rw [crew, List.getElem?_append_right (by simpa using hlt), List.getElem?_map,
        Option.map_eq_some_iff] at hk
      obtain ⟨item, -, rfl⟩ := hk
      exact iff_of_false Bool.false_ne_true hlt

theorem staffed_run (keeps : α → Bool) (queue : List α) (n : Nat) (items : List α)
    (schedule : List Move) :
    Staffed n ((Monitor.start queue (crew n items)).run (client keeps) schedule) := by
  apply run_invariant_along (P := Staffed n) (Q := fun m => ∃ holder, Exclusive queue m holder)
  · rintro m m' hs ⟨holder, hx⟩ h
    exact staffed_step hs hx h
  · exact staffed_start queue n items
  · intro s _
    exact exclusive_run (client keeps) queue (crew n items) s

/-! ### Producers that have not counted the waiters yet -/

/-- A thread at a stage has put its item in, and has neither found that nobody waits nor moved the
sequence word on. -/
inductive Owing : Stage (Job α) → Prop
  | pushed {stage} : stage.goal = .pushed → Owing stage
  | announce {stage} : stage.goal = .announce → Owing stage
  | counting : Owing (.counting false .done)
  | bumping : Owing (.bumping false .done)

theorem isConsumer_of_owing (h : Owing th.stage) : isConsumer th = false := by
  unfold isConsumer
  generalize th.stage = stage at h
  cases h with
  | pushed hg => rw [hg]; rfl
  | announce hg => rw [hg]; rfl
  | counting => rfl
  | bumping => rfl

theorem owing_woken (h : Owing th.stage) (hw : th' = th ∨ th' = th.rouse) : Owing th'.stage := by
  rcases hw with rfl | rfl
  · exact h
  · generalize hs : th.stage = s at h
    cases h with
    | pushed hg => exact .pushed (by rw [goal_rouse, hs, hg])
    | announce hg => exact .announce (by rw [goal_rouse, hs, hg])
    | counting => simpa [Thread.rouse, hs] using Owing.counting
    | bumping => simpa [Thread.rouse, hs] using Owing.bumping

theorem Turn.owing (h : Turn keeps guard q k s q') (hk : k = .pushed ∨ k = .announce) :
    Owing s := by
  rcases hk with rfl | rfl
  · cases h with
    | pushed hs => exact .announce hs
  · cases h with
    | announce => exact .counting

theorem Turn.owing_of_push (h : Turn keeps guard [] k s q') (hq : q' ≠ []) : Owing s := by
  cases h with
  | push => exact .pushed rfl
  | take hcons => cases hcons
  | _ => exact absurd rfl hq

theorem owing_of_push (h : Fires (client keeps) m th e) (hq : m.value = [])
    (hq' : e.shared.value ≠ []) : Owing e.thread.stage := by
  have hne : e.shared.value ≠ m.value := by rwa [hq]
  obtain ⟨k, hk⟩ := h.client_of_value_ne hne
  obtain ⟨ht, -⟩ := turn_of_fires h hk
  rw [hq] at ht
  exact ht.owing_of_push hq'

/-- A producer goes on owing until it finds that nobody waits, or moves the sequence word on. -/
theorem fires_owing (h : Fires (client keeps) m th e) (ho : Owing th.stage) :
    Owing e.thread.stage ∨ m.waiters = 0 ∨
      (e.event = some .bumped ∧ e.thread.stage = .condWake false .done) := by
  generalize hs : th.stage = s at ho
  have goes_on {k : Job α} (hk : k = .pushed ∨ k = .announce) (hg : s.goal = k) :
      Owing e.thread.stage := by
    by_cases hc : ∃ k, th.stage = .client k
    · obtain ⟨k', hk'⟩ := hc
      obtain ⟨ht, -⟩ := turn_of_fires h hk'
      rw [← hs, hk'] at hg
      change k' = k at hg
      exact ht.owing (hg ▸ hk)
    · have hinside (k : Job α) : th.stage ≠ .client k := fun hk => hc ⟨k, hk⟩
      have hgoal : e.thread.stage.goal = k := by rw [h.goal_eq hinside, hs, hg]
      rcases hk with rfl | rfl
      · exact .pushed hgoal
      · exact .announce hgoal
  cases ho with
  | pushed hg => exact .inl (goes_on (.inl rfl) hg)
  | announce hg => exact .inl (goes_on (.inr rfl) hg)
  | counting =>
    cases h with
    | move hst hm =>
      cases hs.symm.trans hst
      cases hm with
      | watch hn => cases hn
      | count => exact .inl .bumping
    | skip _ hz => exact .inr (.inl hz)
    | take _ _ hn => simp [hs, Stage.seeking?] at hn
    | _ => simp_all
  | bumping =>
    cases h with
    | move hst hm =>
      cases hs.symm.trans hst
      cases hm with
      | watch hn => cases hn
    | bump hst =>
      cases hs.symm.trans hst
      exact .inr (.inr ⟨rfl, rfl⟩)
    | take _ _ hn => simp [hs, Stage.seeking?] at hn
    | _ => simp_all

/-! ### Consumers on their way to the queue -/

/-- A consumer at a stage will look at the queue before it sleeps. -/
structure Eager (s : Stage (Job α)) : Prop where
  consumer : s.goal.consumer = true
  fed : s.goal ≠ .sleep
  awake : s.dozing = false

theorem eager_woken (h : Eager th.stage) (hw : th' = th ∨ th' = th.rouse) : Eager th'.stage := by
  rcases hw with rfl | rfl
  · exact h
  · exact ⟨by rw [goal_rouse, h.consumer], by rw [goal_rouse]; exact h.fed, dozing_rouse h.awake⟩

theorem eager_of_inWait (h : Patient q th) (hin : th.stage.inWait = true)
    (hgoal : th'.stage.goal = th.stage.goal) (hd : th'.stage.dozing = false) :
    Eager th'.stage := by
  rw [h.inWait hin] at hgoal
  exact ⟨by rw [hgoal]; rfl, by rw [hgoal]; exact nofun, hd⟩

theorem eager_rouse (h : Patient q th) (ha : th.asleepOnCondition = true) :
    Eager th.rouse.stage :=
  eager_of_inWait h (inWait_of_dozing (dozing_of_asleep ha)) (goal_rouse th)
    (dozing_rouse_of_asleep ha)

/-- While there is an item in the queue, a consumer on its way stays on its way. -/
theorem fires_eager (h : Fires (client keeps) m th e) (he : Eager th.stage) (hq : m.value ≠ []) :
    Eager e.thread.stage := by
  have hclient {k : Job α} (hk : th.stage = .client k) : k ≠ .sleep := by
    rintro rfl
    exact he.fed (by rw [hk]; rfl)
  refine ⟨(isConsumer_eq h).trans he.consumer, ?_, ?_⟩
  · intro hgoal
    by_cases hc : ∃ k, th.stage = .client k
    · obtain ⟨k, hk⟩ := hc
      obtain ⟨ht, -⟩ := turn_of_fires h hk
      exact hq (ht.starved hgoal).2.2.1
    · have hinside (k : Job α) : th.stage ≠ .client k := fun hk => hc ⟨k, hk⟩
      rw [h.goal_eq hinside] at hgoal
      exact he.fed hgoal
  · cases hd : e.thread.stage.dozing with
    | false => rfl
    | true =>
      rcases h.comes_to_doze hd with hold | ⟨k, k', hk, ha⟩
      · rw [he.awake] at hold
        cases hold
      · exact absurd (wait_eq ha).1 (hclient hk)

/-- Where a consumer stands while there is an item in the queue. -/
theorem consumer_cases (h : Patient q th) (hc : isConsumer th = true) (hq : q ≠ []) :
    Eager th.stage ∨ (∃ seen, th.stage.saved? = some seen) ∨ th.asleepOnCondition = true := by
  cases hd : th.stage.dozing with
  | true =>
    rcases dozing_cases hd with ⟨k, hpark⟩ | hrest
    · exact absurd (h.parking k hpark) hq
    · exact .inr hrest
  | false => exact .inl ⟨hc, fun hs => hq (h.starved hs).2.2, hd⟩

/-! ### Items that are seen to -/

/-- The queue is empty, or somebody is about to do something about its items. -/
inductive Served (m : Monitor (List α) (Job α)) : Prop
  | empty : m.shared.value = [] → Served m
  | owing {u : Nat} {thu} : m.threads[u]? = some thu → Owing thu.stage → Served m
  | eager {w : Nat} {thw} : m.threads[w]? = some thw → Eager thw.stage → Served m
  /-- A waiter that read the sequence word before it moved. -/
  | stale {w : Nat} {thw seen} : m.threads[w]? = some thw → thw.stage.saved? = some seen →
    0 < bumpsSince w m.trace → Served m
  | waking {u : Nat} {thu} : m.threads[u]? = some thu → thu.stage = .condWake false .done →
    (∀ (c : Nat) thc, m.threads[c]? = some thc → isConsumer thc = true →
      thc.asleepOnCondition = true) → Served m

/-- What is known of a state of a run in which no counter has run over. -/
structure Orderly (n : Nat) (m : Monitor (List α) (Job α)) : Prop extends Staffed n m where
  counted : Counted m
  sampled : Sampled m
  unwrapped : ∀ w, Unwrapped w m
  present : ∃ th, m.threads[0]? = some th

theorem asleep_or_eager (h : Patient q th) (ha : th.asleepOnCondition = true)
    (hw : th' = th ∨ th' = th.rouse) : th'.asleepOnCondition = true ∨ Eager th'.stage := by
  rcases hw with rfl | rfl
  · exact .inl ha
  · exact .inr (eager_rouse h ha)

theorem served_of_waking {m : Monitor (List α) (Job α)} {u : Nat} {thu : Thread (Job α)}
    (hu : m.threads[u]? = some thu) (hs : thu.stage = .condWake false .done)
    (hall : ∀ (c : Nat) thc, m.threads[c]? = some thc → isConsumer thc = true →
      thc.asleepOnCondition = true ∨ Eager thc.stage) : Served m := by
  by_cases heager : ∃ (c : Nat) (thc : Thread (Job α)), m.threads[c]? = some thc ∧ Eager thc.stage
  · obtain ⟨c, thc, hc, he⟩ := heager
    exact .eager hc he
  · refine .waking hu hs fun c thc hc hcons => ?_
    rcases hall c thc hc hcons with ha | he
    · exact ha
    · exact absurd ⟨c, thc, hc, he⟩ heager

theorem Served.idle {n : Nat} {m : Monitor (List α) (Job α)} {threads : List (Thread (Job α))}
    (h : Served m) (hst : Staffed n m) (hr : Roused m.threads threads) :
    Served { m with threads } := by
  cases h with
  | empty hq => exact .empty hq
  | owing hu ho =>
    obtain ⟨th', hth', hw⟩ := hr.getElem? hu
    exact .owing hth' (owing_woken ho hw)
  | eager hc he =>
    obtain ⟨th', hth', hw⟩ := hr.getElem? hc
    exact .eager hth' (eager_woken he hw)
  | stale hc hs hb =>
    obtain ⟨th', hth', hw⟩ := hr.getElem? hc
    exact .stale hth' ((saved?_woken hw).trans hs) hb
  | waking hu hs hall =>
    obtain ⟨th', hth', hw⟩ := hr.getElem? hu
    refine served_of_waking hth' (stage_woken_of_condWake hs hw) fun c thc hc hcons => ?_
    obtain ⟨thc₀, hc₀, hwc⟩ := hr.of_getElem? hc
    rw [isConsumer_woken hwc] at hcons
    exact asleep_or_eager (hst.patient c thc₀ hc₀) (hall c thc₀ hc₀ hcons) hwc

section Step

variable {n t pick : Nat} {s : Monitor (List α) (Job α)}

/-- The monitor after a step of thread `t`. -/
def after (s : Monitor (List α) (Job α)) (t pick : Nat) (e : Effect (List α) (Job α)) :
    Monitor (List α) (Job α) where
  shared := e.shared
  threads := e.wake.apply pick (s.threads.set t e.thread)
  trace := (e.event.map (t, ·)).toList ++ s.trace

theorem served_of_own (ht : s.threads[t]? = some th) (pick : Nat)
    (h : Owing e.thread.stage ∨ Eager e.thread.stage) : Served (after s t pick e) := by
  obtain ⟨th', hth', hw⟩ := exists_act_own ht e.wake pick e.thread
  rcases h with ho | he
  · exact .owing hth' (owing_woken ho hw)
  · exact .eager hth' (eager_woken he hw)

/-- A waiter that is about to sleep on a number that is out of date does not. -/
theorem served_of_stale {seen : BitVec 32} (ho : Orderly n s) (ht : s.threads[t]? = some th)
    (hf : Fires (client keeps) s.shared th e) (pick : Nat) (hs : th.stage.saved? = some seen)
    (hb : 0 < bumpsSince t s.trace) : Served (after s t pick e) := by
  rcases hf.of_saved hs with ⟨hs', hevent⟩ | hseq | ⟨-, hd⟩
  · obtain ⟨th', hth', hw⟩ := exists_act_own ht e.wake pick e.thread
    refine .stale hth' ((saved?_woken hw).trans hs') ?_
    exact Nat.lt_of_lt_of_le hb (bumpsSince_le_cons fun _ => hevent)
  · exact absurd hseq (ho.sampled.seq_ne (ho.unwrapped t) ht hs hb)
  · have hinside (k : Job α) : th.stage ≠ .client k := by
      intro hk
      rw [hk] at hs
      cases hs
    have hin := inWait_of_dozing (dozing_of_saved? hs)
    exact served_of_own ht pick
      (.inr (eager_of_inWait (ho.patient t th ht) hin (hf.goal_eq hinside) hd))

/-- A producer that is done owing has found a consumer on its way, or leaves one with a number that
is out of date, or is about to wake one. -/
theorem served_of_owing (ho : Orderly n s) (ht : s.threads[t]? = some th)
    (hf : Fires (client keeps) s.shared th e) (pick : Nat) (howes : Owing th.stage)
    (hn : 0 < n) (hq : s.shared.value ≠ []) : Served (after s t pick e) := by
  have hother {c : Nat} {thc : Thread (Job α)} (hc : s.threads[c]? = some thc)
      (hcons : isConsumer thc = true) :
      ∃ thc', (after s t pick e).threads[c]? = some thc' ∧ (thc' = thc ∨ thc' = thc.rouse) := by
    refine exists_act_other ?_ hc e.wake pick e.thread
    rintro rfl
    cases ht.symm.trans hc
    rw [isConsumer_of_owing howes] at hcons
    cases hcons
  obtain ⟨c, hc⟩ := ho.present
  have hcons : isConsumer c = true := (ho.consumer_iff 0 c hc).mpr hn
  rcases fires_owing hf howes with howes' | hzero | ⟨hevent, hstage⟩
  · exact served_of_own ht pick (.inl howes')
  · -- The first consumer is not counted, so it does not wait.
    have hne (he : c.stage.enlisted = true) : False :=
      ho.counted.waiters_ne_zero (ho.unwrapped 0).waiters hc he hzero
    rcases consumer_cases (ho.patient 0 c hc) hcons hq with heager | ⟨seen, hsaved⟩ | ha
    · obtain ⟨c', hc', hw⟩ := hother hc hcons
      exact .eager hc' (eager_woken heager hw)
    · exact (hne (enlisted_of_saved? hsaved)).elim
    · exact (hne (enlisted_of_asleep ha)).elim
  · by_cases hsaved : ∃ (w : Nat) (thw : Thread (Job α)) (seen : BitVec 32),
        s.threads[w]? = some thw ∧ isConsumer thw = true ∧ thw.stage.saved? = some seen
    · obtain ⟨w, thw, seen, hw, hconsw, hseen⟩ := hsaved
      obtain ⟨thw', hw', hwoken⟩ := hother hw hconsw
      refine .stale hw' ((saved?_woken hwoken).trans hseen) ?_
      simp [after, hevent, bumpsSince]
    · obtain ⟨th', hth', hw⟩ := exists_act_own ht e.wake pick e.thread
      refine served_of_waking hth' (stage_woken_of_condWake hstage hw) fun w thw hw hconsw => ?_
      rcases getElem?_act hw with ⟨rfl, hwoken⟩ | ⟨-, thw₀, hw₀, hwoken⟩
      · rw [isConsumer_woken hwoken, isConsumer_eq hf, isConsumer_of_owing howes] at hconsw
        cases hconsw
      · rw [isConsumer_woken hwoken] at hconsw
        have hpatient := ho.patient w thw₀ hw₀
        rcases consumer_cases hpatient hconsw hq with heager | ⟨seen, hseen⟩ | ha
        · exact .inr (eager_woken heager hwoken)
        · exact absurd ⟨w, thw₀, seen, hw₀, hconsw, hseen⟩ hsaved
        · exact asleep_or_eager hpatient ha hwoken

/-- A producer that wakes one while all consumers sleep reaches a consumer. -/
theorem served_of_condWake (ho : Orderly n s) (ht : s.threads[t]? = some th)
    (hf : Fires (client keeps) s.shared th e) (pick : Nat)
    (hstage : th.stage = .condWake false .done) (hn : 0 < n)
    (hall : ∀ (c : Nat) thc, s.threads[c]? = some thc → isConsumer thc = true →
      thc.asleepOnCondition = true) : Served (after s t pick e) := by
  obtain ⟨hwake, hawake⟩ := hf.wake_of_condWake hstage
  obtain ⟨c, hc⟩ := ho.present
  have hasleep := hall 0 c hc ((ho.consumer_iff 0 c hc).mpr hn)
  have hne : t ≠ 0 := by
    rintro rfl
    cases ht.symm.trans hc
    rw [hf.not_asleep] at hasleep
    cases hasleep
  have hc' : (s.threads.set t e.thread)[0]? = some c := by rw [List.getElem?_set_ne hne, hc]
  have hsome : ∃ th ∈ s.threads.set t e.thread, th.asleepOnCondition = true :=
    ⟨c, List.mem_of_getElem? hc', hasleep⟩
  obtain ⟨i, thi, hi, ha, hi'⟩ := exists_rouse_wakeOne pick hsome
  have hit : i ≠ t := by
    rintro rfl
    rw [List.getElem?_set_self (List.getElem?_eq_some_iff.mp ht).1] at hi
    cases hi
    rw [hawake] at ha
    cases ha
  rw [List.getElem?_set_ne (Ne.symm hit)] at hi
  have hroused : (after s t pick e).threads[i]? = some thi.rouse := by
    simp only [after, hwake]
    exact hi'
  exact .eager hroused (eager_rouse (ho.patient i thi hi) ha)

theorem Served.act (h : Served s) (ho : Orderly n s) (ht : s.threads[t]? = some th)
    (hf : Fires (client keeps) s.shared th e) (pick : Nat) (hn : 0 < n) :
    Served (after s t pick e) := by
  have hother {c : Nat} {thc : Thread (Job α)} (hc : s.threads[c]? = some thc) (hne : c ≠ t) :=
    exists_act_other hne hc e.wake pick e.thread
  by_cases hq : s.shared.value = []
  · by_cases hq' : e.shared.value = []
    · exact .empty hq'
    · exact served_of_own ht pick (.inl (owing_of_push hf hq hq'))
  cases h with
  | empty hempty => exact absurd hempty hq
  | @owing u thu hu howes =>
    by_cases hut : u = t
    · subst hut
      cases ht.symm.trans hu
      exact served_of_owing ho ht hf pick howes hn hq
    · obtain ⟨th', hth', hw⟩ := hother hu hut
      exact .owing hth' (owing_woken howes hw)
  | @eager w thw hw he =>
    by_cases hwt : w = t
    · subst hwt
      cases ht.symm.trans hw
      exact served_of_own ht pick (.inr (fires_eager hf he hq))
    · obtain ⟨th', hth', hwoken⟩ := hother hw hwt
      exact .eager hth' (eager_woken he hwoken)
  | @stale w thw seen hw hs hb =>
    by_cases hwt : w = t
    · subst hwt
      cases ht.symm.trans hw
      exact served_of_stale ho ht hf pick hs hb
    · obtain ⟨th', hth', hwoken⟩ := hother hw hwt
      refine .stale hth' ((saved?_woken hwoken).trans hs) ?_
      exact Nat.lt_of_lt_of_le hb (bumpsSince_le_cons fun htw => absurd htw.symm hwt)
  | @waking u thu hu hs hall =>
    by_cases hut : u = t
    · subst hut
      cases ht.symm.trans hu
      exact served_of_condWake ho ht hf pick hs hn hall
    · obtain ⟨th', hth', hw⟩ := hother hu hut
      refine served_of_waking hth' (stage_woken_of_condWake hs hw) fun c thc hc hcons => ?_
      rcases getElem?_act hc with ⟨rfl, hwoken⟩ | ⟨-, thc₀, hc₀, hwoken⟩
      · -- A consumer that takes a step does not sleep.
        rw [isConsumer_woken hwoken, isConsumer_eq hf] at hcons
        have ha := hall c th ht hcons
        rw [hf.not_asleep] at ha
        cases ha
      · rw [isConsumer_woken hwoken] at hcons
        exact asleep_or_eager (ho.patient c thc₀ hc₀) (hall c thc₀ hc₀ hcons) hwoken

end Step

theorem served_step {n : Nat} {s s' : Monitor (List α) (Job α)} (hs : Steps (client keeps) s s')
    (ho : Orderly n s) (hn : 0 < n) (h : Served s) : Served s' := by
  cases hs with
  | idle hr => exact h.idle ho.toStaffed hr
  | act ht hf => exact h.act ho ht hf _ hn

/-! ### Runs -/

theorem countP_le_of_index {β : Type} {p : β → Bool} {l : List β} {n : Nat}
    (h : ∀ (i : Nat) x, l[i]? = some x → p x = true → i < n) : l.countP p ≤ n := by
  have hdrop : (l.drop n).countP p = 0 := by
    refine List.countP_eq_zero.mpr fun x hx hp => ?_
    obtain ⟨i, hi⟩ := List.mem_iff_getElem?.mp hx
    rw [List.getElem?_drop] at hi
    have := h (n + i) x hi hp
    omega
  have htake : (l.take n).countP p ≤ n :=
    Nat.le_trans List.countP_le_length (List.length_take_le n l)
  have hsplit : l.countP p = (l.take n).countP p + (l.drop n).countP p := by
    rw [← List.countP_append, List.take_append_drop]
  omega

/-- Only consumers are counted among the waiters. -/
theorem Staffed.enlistedCount_le {n : Nat} {s : Monitor (List α) (Job α)} (h : Staffed n s) :
    enlistedCount s ≤ n := by
  refine countP_le_of_index fun w th hw he => ?_
  have hgoal := (h.patient w th hw).inWait (inWait_of_enlisted he)
  exact (h.consumer_iff w th hw).mp (by rw [isConsumer, hgoal]; rfl)

/-- No thread between its read of the sequence word and its sleep has seen the word go all the way
round: fewer than 2^32 increments came since the read. -/
def NotLapped (s : Monitor (List α) (Job α)) : Prop :=
  ∀ (w : Nat) th, s.threads[w]? = some th → th.stage.saved?.isSome →
    bumpsSince w s.trace < UInt32.size

theorem orderly_run (keeps : α → Bool) (queue : List α) {n : Nat} (items : List α)
    (schedule : List Move) (hn : 0 < n) (hsize : n < UInt32.size)
    (hlap : NotLapped ((Monitor.start queue (crew n items)).run (client keeps) schedule)) :
    Orderly n ((Monitor.start queue (crew n items)).run (client keeps) schedule) := by
  have hstaffed := staffed_run keeps queue n items schedule
  refine ⟨hstaffed, counted_run _ _ _ schedule, sampled_run _ _ _ schedule, ?_, ?_⟩
  · intro w
    exact ⟨Nat.lt_of_le_of_lt hstaffed.enlistedCount_le hsize, hlap w⟩
  · have hlength := (length_run (client keeps) (Monitor.start queue (crew n items)) schedule).1
    have hcrew : (Monitor.start queue (crew n items)).threads.length = n + items.length := by
      simp [Monitor.start, crew]
    exact ⟨_, List.getElem?_eq_getElem (by omega)⟩

theorem served_start (queue : List α) {n : Nat} (items : List α) (hn : 0 < n) :
    Served (Monitor.start queue (crew n items)) := by
  have hfirst : (Monitor.start queue (crew n items)).threads[0]? =
      some { stage := .client .consume } := by
    rw [Monitor.start, List.getElem?_map, getElem?_crew_of_lt items hn]
    rfl
  have hfed : Job.consume ≠ (.sleep : Job α) := by
    intro h
    cases h
  exact .eager hfirst ⟨rfl, hfed, rfl⟩

/-! ### Main result -/

/-- A producer at a stage is between the push of its item and the end of its notification. -/
def Announcing (s : Stage (Job α)) : Prop := Owing s ∨ s = .condWake false .done

/-- In every state that at least one consumer and any producers reach, the items in the queue are
seen to. So there is none in which the queue has an item, every consumer sleeps, and no producer is
between its push and the end of its notification. -/
theorem notify_one_no_stall (keeps : α → Bool) (queue : List α) (n : Nat) (items : List α)
    (schedule : List Move) (hn : 0 < n) (hsize : n < UInt32.size)
    (hlap : ∀ s, s <+: schedule →
      NotLapped ((Monitor.start queue (crew n items)).run (client keeps) s)) :
    let m := (Monitor.start queue (crew n items)).run (client keeps) schedule
    Served m ∧
    ¬ (m.shared.value ≠ [] ∧
      (∀ (c : Nat) th, c < n → m.threads[c]? = some th → th.asleepOnCondition = true) ∧
      ∀ (u : Nat) th, n ≤ u → m.threads[u]? = some th → ¬ Announcing th.stage) := by
  intro m
  have hserved : Served m := by
    apply run_invariant_along (P := Served) (Q := Orderly n)
    · intro s s' hs ho h
      exact served_step hs ho hn h
    · exact served_start queue items hn
    · intro s hs
      exact orderly_run keeps queue items s hn hsize (hlap s hs)
  refine ⟨hserved, ?_⟩
  rintro ⟨hq, hasleep, hquiet⟩
  have hstaffed : Staffed n m := staffed_run keeps queue n items schedule
  cases hserved with
  | empty hempty => exact hq hempty
  | @owing u thu hu ho =>
    have hle : ¬ u < n := by
      rw [← hstaffed.consumer_iff u thu hu, isConsumer_of_owing ho]
      exact nofun
    exact hquiet u thu (Nat.le_of_not_lt hle) hu (.inl ho)
  | @eager w thw hw he =>
    have ha := hasleep w thw ((hstaffed.consumer_iff w thw hw).mp he.consumer) hw
    have hd := dozing_of_asleep ha
    rw [he.awake] at hd
    cases hd
  | @stale w thw seen hw hs =>
    have hgoal := (hstaffed.patient w thw hw).inWait (inWait_of_dozing (dozing_of_saved? hs))
    have hc : isConsumer thw = true := by rw [isConsumer, hgoal]; rfl
    have ha := hasleep w thw ((hstaffed.consumer_iff w thw hw).mp hc) hw
    rw [not_asleep_of_saved? hs] at ha
    cases ha
  | @waking u thu hu hs =>
    have hle : ¬ u < n := by
      rw [← hstaffed.consumer_iff u thu hu, isConsumer, hs]
      exact nofun
    exact hquiet u thu (Nat.le_of_not_lt hle) hu (.inr hs)

/-- Two consumers sleep when an item is put in. Until its producer has woken one of them, they all
sleep, and the producer is not done. -/
theorem notify_one_no_stall_two_asleep :
    let schedule := List.replicate 8 (Move.thread 0 0) ++ List.replicate 8 (Move.thread 1 0) ++
      List.replicate 8 (Move.thread 2 0)
    let m := (Monitor.start [] (crew 2 [7])).run (client fun _ => false) schedule
    m.shared.value ≠ [] ∧
      (∀ (c : Nat) th, c < 2 → m.threads[c]? = some th → th.asleepOnCondition = true) ∧
      ∃ (u : Nat) (th : Thread (Job Nat)), 2 ≤ u ∧ m.threads[u]? = some th ∧
        Announcing th.stage := by
  intro schedule m
  have hvalue : m.shared.value = [7] := rfl
  have h0 : m.threads[0]? = some { stage := .condAsleep 0 .look } := rfl
  have h1 : m.threads[1]? = some { stage := .condAsleep 0 .look } := rfl
  have hasleep (c : Nat) (th) (hc : c < 2) (hth : m.threads[c]? = some th) :
      th.asleepOnCondition = true := by
    match c, hc with
    | 0, _ =>
      cases h0.symm.trans hth
      rfl
    | 1, _ =>
      cases h1.symm.trans hth
      rfl
  have hlap (s : List Move) (hs : s <+: schedule) :
      NotLapped ((Monitor.start [] (crew 2 [7])).run (client fun _ => false) s) := by
    intro w
    exact (unwrapped_of_short _ _ _ schedule (by decide) (by decide) w s hs).bumps
  obtain ⟨-, hno⟩ := notify_one_no_stall (fun _ => false) [] 2 [7] schedule (by decide) (by decide)
    hlap
  refine ⟨by rw [hvalue]; exact nofun, hasleep, ?_⟩
  apply Classical.byContradiction
  intro hquiet
  refine hno ⟨by rw [hvalue]; exact nofun, hasleep, fun u th hu hth ha => ?_⟩
  exact hquiet ⟨u, th, hu, hth, ha⟩

end Interlock.Queue
