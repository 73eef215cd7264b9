import Interlock.Proofs.Monitor.Steps
import Interlock.Monitor.SharedList

/-!
# Mutual exclusion

The state word is other than free exactly while a thread has the guard, and at most one thread has
it. A thread that fails to get the mutex may still write the word, but never a free one, so the
invariant names the holder and asks of the word only whether it is free. Critical sections then
come one after the other, each from the value that the one before it left: `Serial` says so of a
trace.
-/

namespace Interlock.Monitor

variable {V κ : Type}

/-- Whether an event takes the mutex, lets it go, or changes the value behind it. -/
def Event.onMutex : Event V → Bool
  | .acquired _ | .updated .. | .released .. => true
  | _ => false

/-- Traces, the latest event first, in which critical sections come one after the other. A section
begins when no other is under way, with the value as it is; only the thread in the section steps
on the value, each time from what it was; and the section leaves the value as it is. The indices
are the thread that is in a section at the end, and the value then. -/
inductive Serial (value : V) : List (Nat × Event V) → Option Nat → V → Prop
  | start : Serial value [] none value
  | acquired {trace now} (t : Nat) : Serial value trace none now →
    Serial value ((t, .acquired now) :: trace) (some t) now
  | updated {trace t now} (after : V) : Serial value trace (some t) now →
    Serial value ((t, .updated now after) :: trace) (some t) after
  | released {trace t now} (waiting : Bool) : Serial value trace (some t) now →
    Serial value ((t, .released now waiting) :: trace) none now
  | other {trace holder now t event} : event.onMutex = false → Serial value trace holder now →
    Serial value ((t, event) :: trace) holder now

/-- The value that the latest critical section left; `value` before there was one. -/
def left (value : V) : List (Nat × Event V) → V
  | [] => value
  | (_, .released now _) :: _ => now
  | _ :: trace => left value trace

theorem left_cons_of_not_released (value : V) {t : Nat} {event : Event V}
    {trace : List (Nat × Event V)} (h : ∀ now waiting, event ≠ .released now waiting) :
    left value ((t, event) :: trace) = left value trace := by
  cases event <;> first | rfl | exact absurd rfl (h _ _)

theorem Serial.left_eq {value now : V} {trace : List (Nat × Event V)} {holder : Option Nat}
    (h : Serial value trace holder now) (hn : holder = none) : left value trace = now := by
  induction h with
  | start => rfl
  | acquired => cases hn
  | updated => cases hn
  | released => rfl
  | other he _ ih =>
    rw [left_cons_of_not_released value (by rintro _ _ rfl; cases he)]
    exact ih hn

theorem Serial.acquired_left {value now v : V} {trace late early : List (Nat × Event V)}
    {holder : Option Nat} {t : Nat} (h : Serial value trace holder now)
    (ht : trace = late ++ (t, .acquired v) :: early) : v = left value early := by
  induction h generalizing late with
  | start => simp at ht
  | acquired u hs ih =>
    cases late with
    | nil =>
      cases ht
      exact (hs.left_eq rfl).symm
    | cons _ late => exact ih (List.cons.inj ht).2
  | updated _ _ ih | released _ _ ih =>
    cases late with
    | nil => cases ht
    | cons _ late => exact ih (List.cons.inj ht).2
  | other he _ ih =>
    cases late with
    | nil =>
      cases ht
      cases he
    | cons _ late => exact ih (List.cons.inj ht).2

/-- The thread in a section took the mutex after every other thread let it go. -/
theorem Serial.acquired_after {value now x : V} {trace late early : List (Nat × Event V)}
    {t w : Nat} {waiting : Bool} (h : Serial value trace (some t) now)
    (ht : trace = late ++ (w, .released x waiting) :: early) :
    ∃ y, (t, .acquired y) ∈ late := by
  generalize hh : some t = holder at h
  induction h generalizing late with
  | start => cases hh
  | acquired u hs =>
    cases hh
    cases late with
    | nil => cases ht
    | cons head late =>
      obtain ⟨rfl, -⟩ := List.cons.inj ht
      exact ⟨_, List.mem_cons_self ..⟩
  | released => cases hh
  | updated _ _ ih =>
    cases late with
    | nil => cases ht
    | cons head late =>
      obtain ⟨y, hy⟩ := ih (List.cons.inj ht).2 hh
      exact ⟨y, List.mem_cons_of_mem _ hy⟩
  | other he _ ih =>
    cases late with
    | nil =>
      cases ht
      cases he
    | cons head late =>
      obtain ⟨y, hy⟩ := ih (List.cons.inj ht).2 hh
      exact ⟨y, List.mem_cons_of_mem _ hy⟩

/-- What was true of the value that a section left and no longer is, some thread has changed since,
after it took the mutex. -/
theorem Serial.exists_update {value now x : V} {trace late early : List (Nat × Event V)}
    {holder : Option Nat} {w : Nat} {waiting : Bool} {P : V → Prop}
    (h : Serial value trace holder now)
    (ht : trace = late ++ (w, .released x waiting) :: early) (hx : P x) (hn : ¬ P now) :
    ∃ u a b y since before, late = since ++ (u, .updated a b) :: before ∧ P a ∧ ¬ P b ∧
      (u, .acquired y) ∈ before := by
  have longer {head : Nat × Event V} {rest : List (Nat × Event V)}
      (hrest : ∃ u a b y since before, rest = since ++ (u, .updated a b) :: before ∧ P a ∧ ¬ P b ∧
        (u, .acquired y) ∈ before) :
      ∃ u a b y since before, head :: rest = since ++ (u, .updated a b) :: before ∧ P a ∧ ¬ P b ∧
        (u, .acquired y) ∈ before := by
    obtain ⟨u, a, b, y, since, before, rfl, hab⟩ := hrest
    exact ⟨u, a, b, y, head :: since, before, rfl, hab⟩
  induction h generalizing late with
  | start => simp at ht
  | acquired u _ ih =>
    cases late with
    | nil => cases ht
    | cons head rest => exact longer (ih (List.cons.inj ht).2 hn)
  | @updated trace t now after hs ih =>
    cases late with
    | nil => cases ht
    | cons head rest =>
      obtain ⟨rfl, hrest⟩ := List.cons.inj ht
      by_cases hnow : P now
      · obtain ⟨y, hy⟩ := hs.acquired_after hrest
        exact ⟨t, now, after, y, [], rest, rfl, hnow, hn, hy⟩
      · exact longer (ih hrest hnow)
  | released _ _ ih =>
    cases late with
    | nil =>
      cases ht
      exact absurd hx hn
    | cons head rest => exact longer (ih (List.cons.inj ht).2 hn)
  | other he _ ih =>
    cases late with
    | nil =>
      cases ht
      cases he
    | cons head rest => exact longer (ih (List.cons.inj ht).2 hn)

/-! ### The invariant -/

/-- Whether a thread at a stage is about to let the mutex go, or on the way there in a wait. -/
def Stage.letsGo : Stage κ → Bool
  | .releasing _ | .enlisting _ | .sampling _ => true
  | _ => false

/-- A thread that is about to let the mutex go has it. -/
def Thread.Placed (th : Thread κ) : Prop := th.stage.letsGo = true → th.guard = true

theorem placed_rouse {th : Thread κ} (h : th.Placed) : th.rouse.Placed := by
  unfold Thread.rouse
  split
  · exact nofun
  · exact nofun
  · exact h

theorem letsGo_of_seeking? {s : Stage κ} {next : OnTaken κ} (h : s.seeking? = some next) :
    s.letsGo = false := by
  cases s <;> first | rfl | cases h

theorem letsGo_onFreed (next : OnFreed κ) : next.stage.letsGo = false := by
  cases next <;> rfl

theorem Fires.placed {client : Client V κ} {m : Shared V} {th : Thread κ} {e : Effect V κ}
    (h : Fires client m th e) (hp : th.Placed) : e.thread.Placed := by
  cases h with
  | move _ hm =>
    cases hm with
    | unlock _ hg => exact fun _ => hg
    | wait _ hg => exact fun _ => hg
    | watch _ _ hn _ => exact fun hl => by rw [letsGo_of_seeking? hn] at hl; cases hl
    | _ => exact nofun
  | take => exact fun _ => rfl
  | release =>
    intro hl
    dsimp only at hl
    split at hl
    · cases hl
    · rw [letsGo_onFreed] at hl; cases hl
  | lockWake => exact fun hl => by rw [letsGo_onFreed] at hl; cases hl
  | enlist hs => exact fun _ => hp (by rw [hs]; rfl)
  | sample hs => exact fun _ => hp (by rw [hs]; rfl)
  | _ => exact nofun

/-- What mutual exclusion rests on: there is a `holder`, or nobody. -/
structure Exclusive (value : V) (m : Monitor V κ) (holder : Option Nat) : Prop where
  word : m.shared.word = free ∨ m.shared.word = taken ∨ m.shared.word = contended
  free_iff : m.shared.word = free ↔ holder = none
  guard_iff : ∀ (t : Nat) th, m.threads[t]? = some th → (th.guard = true ↔ holder = some t)
  present : ∀ t : Nat, holder = some t → ∃ th, m.threads[t]? = some th
  placed : ∀ (t : Nat) th, m.threads[t]? = some th → Thread.Placed th
  serial : Serial value m.trace holder m.shared.value

theorem Exclusive.exists_guard {value : V} {m : Monitor V κ} {holder : Option Nat}
    (h : Exclusive value m holder) (hw : m.shared.word ≠ free) :
    ∃ th ∈ m.threads, th.guard = true := by
  have hne : holder ≠ none := fun hn => hw (h.free_iff.mpr hn)
  obtain ⟨t, ht⟩ := Option.ne_none_iff_exists'.mp hne
  obtain ⟨th, hth⟩ := h.present t ht
  exact ⟨th, List.mem_of_getElem? hth, (h.guard_iff t th hth).mpr ht⟩

theorem Exclusive.unique {value : V} {m : Monitor V κ} {holder : Option Nat}
    (h : Exclusive value m holder) {t u : Nat} {th thu : Thread κ} (ht : m.threads[t]? = some th)
    (hu : m.threads[u]? = some thu) (hg : th.guard = true) (hgu : thu.guard = true) : t = u := by
  have hh := (h.guard_iff t th ht).mp hg
  have hhu := (h.guard_iff u thu hu).mp hgu
  exact Option.some.inj (hh.symm.trans hhu)

theorem Fires.guard_of_value_ne {client : Client V κ} {m : Shared V} {th : Thread κ}
    {e : Effect V κ} (h : Fires client m th e) (hv : e.shared.value ≠ m.value) :
    th.guard = true := by
  cases h with
  | update _ _ hg => exact hg
  | _ => exact absurd rfl hv

/-- While a thread has the guard, the other threads leave the value alone. -/
theorem Exclusive.value_eq {client : Client V κ} {value : V} {m : Monitor V κ}
    {holder : Option Nat} (h : Exclusive value m holder) {t w : Nat} {th thw : Thread κ}
    {e : Effect V κ} (hw : m.threads[w]? = some thw) (hg : thw.guard = true)
    (ht : m.threads[t]? = some th) (hne : w ≠ t) (hf : Fires client m.shared th e) :
    e.shared.value = m.shared.value := by
  apply Classical.byContradiction
  intro hv
  exact hne (h.unique hw ht hg (hf.guard_of_value_ne hv))

theorem exclusive_start (value : V) (clients : List κ) :
    Exclusive value (Monitor.start value clients) none := by
  refine ⟨.inl rfl, ⟨fun _ => rfl, fun _ => rfl⟩, ?_, nofun, ?_, .start⟩
  · intro t th h
    obtain ⟨k, -, rfl⟩ := stage_start h
    simp
  · intro t th h
    obtain ⟨k, -, rfl⟩ := stage_start h
    exact nofun

theorem Exclusive.idle {value : V} {m : Monitor V κ} {holder : Option Nat}
    {threads : List (Thread κ)} (h : Exclusive value m holder) (hr : Roused m.threads threads) :
    Exclusive value { m with threads } holder := by
  refine ⟨h.word, h.free_iff, ?_, ?_, ?_, h.serial⟩
  · intro t th ht
    obtain ⟨th₀, ht₀, hw⟩ := hr.of_getElem? ht
    rw [guard_woken hw]
    exact h.guard_iff t th₀ ht₀
  · intro t ht
    obtain ⟨th, hth⟩ := h.present t ht
    obtain ⟨th', hth', -⟩ := hr.getElem? hth
    exact ⟨th', hth'⟩
  · intro t th ht
    obtain ⟨th', ht', rfl | rfl⟩ := hr.of_getElem? ht
    · exact h.placed t _ ht'
    · exact placed_rouse (h.placed t _ ht')

/-- A step of thread `t` after which `holder'` is in a section. -/
theorem Exclusive.act {client : Client V κ} {value : V} {m : Monitor V κ}
    {holder holder' : Option Nat} {t pick : Nat} {th : Thread κ} {e : Effect V κ}
    (h : Exclusive value m holder) (ht : m.threads[t]? = some th) (hf : Fires client m.shared th e)
    (hword : e.shared.word = free ∨ e.shared.word = taken ∨ e.shared.word = contended)
    (hfree : e.shared.word = free ↔ holder' = none)
    (hown : e.thread.guard = true ↔ holder' = some t)
    (hother : ∀ j, j ≠ t → (holder = some j ↔ holder' = some j))
    (hserial : Serial value ((e.event.map (t, ·)).toList ++ m.trace) holder' e.shared.value) :
    Exclusive value {
      shared := e.shared
      threads := e.wake.apply pick (m.threads.set t e.thread)
      trace := (e.event.map (t, ·)).toList ++ m.trace } holder' := by
  refine ⟨hword, hfree, ?_, ?_, ?_, hserial⟩
  · intro j th' hj
    rcases getElem?_act hj with ⟨rfl, hw⟩ | ⟨hne, thj, hthj, hw⟩
    · rw [guard_woken hw, hown]
    · rw [guard_woken hw, h.guard_iff j thj hthj, hother j hne]
  · intro j hj
    by_cases hjt : j = t
    · subst hjt
      obtain ⟨th', hth', -⟩ := exists_act_own ht e.wake pick e.thread
      exact ⟨th', hth'⟩
    · obtain ⟨thj, hthj⟩ := h.present j ((hother j hjt).mpr hj)
      obtain ⟨th', hth', -⟩ := exists_act_other hjt hthj e.wake pick e.thread
      exact ⟨th', hth'⟩
  · intro j th' hj
    rcases getElem?_act hj with ⟨rfl, hw⟩ | ⟨-, thj, hthj, hw⟩
    · have hp := hf.placed (h.placed _ th ht)
      rcases hw with rfl | rfl
      · exact hp
      · exact placed_rouse hp
    · rcases hw with rfl | rfl
      · exact h.placed j _ hthj
      · exact placed_rouse (h.placed j _ hthj)

/-- A step of thread `t` that leaves the guard, the value and the freedom of the word alone. -/
theorem Exclusive.keep {client : Client V κ} {value : V} {m : Monitor V κ} {holder : Option Nat}
    {t pick : Nat} {th : Thread κ} {e : Effect V κ} (h : Exclusive value m holder)
    (ht : m.threads[t]? = some th) (hf : Fires client m.shared th e)
    (hword : e.shared.word = m.shared.word ∨ m.shared.word ≠ free ∧ e.shared.word = contended)
    (hguard : e.thread.guard = th.guard) (hvalue : e.shared.value = m.shared.value)
    (hevent : ∀ event, e.event = some event → event.onMutex = false) :
    Exclusive value {
      shared := e.shared
      threads := e.wake.apply pick (m.threads.set t e.thread)
      trace := (e.event.map (t, ·)).toList ++ m.trace } holder := by
  refine h.act ht hf ?_ ?_ ?_ (fun _ _ => Iff.rfl) ?_
  · rcases hword with hw | ⟨-, hw⟩
    · exact hw ▸ h.word
    · exact .inr (.inr hw)
  · rcases hword with hw | ⟨hne, hw⟩
    · exact hw ▸ h.free_iff
    · rw [hw, ← h.free_iff]
      exact iff_of_false (by decide) hne
  · rw [hguard]
    exact h.guard_iff t th ht
  · rw [hvalue]
    cases he : e.event with
    | none => exact h.serial
    | some event => exact .other (hevent event he) h.serial

theorem Exclusive.step {client : Client V κ} {value : V} {m m' : Monitor V κ} {holder : Option Nat}
    (hs : Steps client m m') (h : Exclusive value m holder) :
    ∃ holder', Exclusive value m' holder' := by
  cases hs with
  | idle hr => exact ⟨holder, h.idle hr⟩
  | @act t pick th e ht hf =>
    have hguard := h.guard_iff t th ht
    cases hf' : hf with
    | update hst hk hg =>
      have hh := hguard.mp hg
      refine ⟨holder, h.act ht hf h.word h.free_iff hguard (fun _ _ => Iff.rfl) ?_⟩
      subst hh
      exact .updated _ h.serial
    | @take word next hfree hw =>
      have hh := h.free_iff.mp hfree
      subst hh
      have hword : word = taken ∨ word = contended := hw.imp And.left And.left
      refine ⟨some t, h.act ht hf (.inr hword) ?_ (by simp [takeMutex]) ?_ (.acquired t h.serial)⟩
      · rcases hword with rfl | rfl <;> simp [takeMutex, free, taken, contended]
      · intro j hj
        simp [Ne.symm hj]
    | release hst =>
      have hh := hguard.mp (h.placed t th ht (by rw [hst]; rfl))
      subst hh
      refine ⟨none, h.act ht hf (.inl rfl) (by simp) (by simp) ?_ (.released _ h.serial)⟩
      intro j hj
      simp [Ne.symm hj]
    | mark _ hne => exact ⟨holder, h.keep ht hf (.inr ⟨hne, rfl⟩) rfl rfl nofun⟩
    | sample => exact ⟨holder, h.keep ht hf (.inl rfl) rfl rfl (by rintro _ ⟨⟩; rfl)⟩
    | skip => exact ⟨holder, h.keep ht hf (.inl rfl) rfl rfl (by rintro _ ⟨⟩; rfl)⟩
    | bump => exact ⟨holder, h.keep ht hf (.inl rfl) rfl rfl (by rintro _ ⟨⟩; rfl)⟩
    | condWake => exact ⟨holder, h.keep ht hf (.inl rfl) rfl rfl (by rintro _ ⟨⟩; rfl)⟩
    | _ => exact ⟨holder, h.keep ht hf (.inl rfl) rfl rfl nofun⟩

theorem exclusive_run (client : Client V κ) (value : V) (clients : List κ)
    (schedule : List Move) :
    ∃ holder, Exclusive value ((Monitor.start value clients).run client schedule) holder := by
  apply run_invariant (P := fun m => ∃ holder, Exclusive value m holder)
  · rintro m m' hs ⟨holder, h⟩
    exact h.step hs
  · exact ⟨none, exclusive_start value clients⟩

/-! ### Main result -/

/-- In every run of any clients, the word is one of its three values, at most one thread has the
guard, and the word is other than free exactly while one has. A thread has the guard exactly while
the trace shows it in a critical section, critical sections come one after the other, and each
begins with the value that the one before it left. -/
theorem mutex_excludes (client : Client V κ) (value : V) (clients : List κ)
    (schedule : List Move) :
    let m := (Monitor.start value clients).run client schedule
    (m.shared.word = free ∨ m.shared.word = taken ∨ m.shared.word = contended) ∧
    (∀ (t u : Nat) (th th' : Thread κ), m.threads[t]? = some th → m.threads[u]? = some th' →
      th.guard = true → th'.guard = true → t = u) ∧
    (m.shared.word ≠ free ↔ ∃ th ∈ m.threads, th.guard = true) ∧
    (∃ holder, Serial value m.trace holder m.shared.value ∧
      ∀ (t : Nat) (th : Thread κ), m.threads[t]? = some th →
        (th.guard = true ↔ holder = some t)) ∧
    (∀ late t v early, m.trace = late ++ (t, .acquired v) :: early → v = left value early) := by
  intro m
  obtain ⟨holder, h⟩ := exclusive_run client value clients schedule
  refine ⟨h.word, ?_, ?_, ⟨holder, h.serial, h.guard_iff⟩, ?_⟩
  · intro t u th th' ht hu hg hg'
    exact h.unique ht hu hg hg'
  · constructor
    · intro hw
      exact h.exists_guard hw
    · rintro ⟨th, hm, hg⟩ hw
      obtain ⟨t, ht⟩ := List.mem_iff_getElem?.mp hm
      rw [h.guard_iff t th ht, h.free_iff.mp hw] at hg
      cases hg
  · intro late t v early htrace
    exact h.serial.acquired_left htrace

/-- Two threads append to a list, each reading it in one step and storing it in another. The second
section begins with what the first one left. -/
theorem mutex_excludes_appenders :
    let schedule := List.replicate 6 (Move.thread 0 0) ++ List.replicate 2 (Move.thread 1 0)
    let m := (Monitor.start [] [.append [7] none, .append [8] none]).run SharedList.client schedule
    (∃ th ∈ m.threads, th.guard = true) ∧
      ∃ early, m.trace = (1, .acquired [7]) :: early ∧ [7] = left [] early := by
  intro schedule m
  obtain ⟨-, -, hheld, -, hleft⟩ := mutex_excludes SharedList.client []
    [.append [7] none, .append [8] none] schedule
  have hword : m.shared.word ≠ free := by decide
  have htrace : m.trace = [] ++ (1, .acquired [7]) :: [(0, .released [7] false),
      (0, .updated [] [7]), (0, .updated [] []), (0, .acquired [])] := rfl
  exact ⟨hheld.mp hword, _, htrace, hleft [] 1 [7] _ htrace⟩

end Interlock.Monitor
