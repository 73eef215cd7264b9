import Interlock.Proofs.Monitor.Steps

/-!
# The two counters of a condition variable

The waiters word counts the threads between joining a wait and leaving it, and a thread that has
read the sequence word and is not asleep yet knows how far the word has moved since: by the
notifications that incremented it. Both counts are modulo 2^32; `Unwrapped` says that they have
not run over.
-/

namespace Interlock.Monitor

variable {V κ : Type}

/-! ### Where a waiting thread stands -/

/-- The client state that a wait comes back to, for a thread on its way to the mutex. -/
def OnTaken.rejoin? : OnTaken κ → Option κ
  | .resume _ => none
  | .rejoin k => some k

/-- The client state that a wait comes back to, for a thread that let the mutex go for the wait and
has not taken it again. -/
def Stage.away? : Stage κ → Option κ
  | .lockWake (.park _ k) | .condWait _ k | .condAsleep _ k => some k
  | s => s.seeking?.bind OnTaken.rejoin?

/-- The client state that a wait comes back to, for a thread that began the wait and has not let the
mutex go yet. -/
def Stage.parking? : Stage κ → Option κ
  | .enlisting k | .sampling k | .releasing (.park _ k) => some k
  | _ => none

/-- Whether a thread is counted among the waiters. -/
def Stage.enlisted : Stage κ → Bool
  | .sampling _ | .releasing (.park ..) | .delisting _ => true
  | s => s.away?.isSome

/-- What a thread read from the sequence word, until it goes to sleep on it. -/
def Stage.saved? : Stage κ → Option (BitVec 32)
  | .releasing (.park seen _) | .lockWake (.park seen _) | .condWait seen _ => some seen
  | _ => none

theorem away?_of_seeking? {s : Stage κ} {next : OnTaken κ} (h : s.seeking? = some next) :
    s.away? = next.rejoin? := by
  cases s <;> cases h <;> rfl

theorem enlisted_of_seeking? {s : Stage κ} {next : OnTaken κ} (h : s.seeking? = some next) :
    s.enlisted = next.rejoin?.isSome := by
  cases s <;> cases h <;> rfl

theorem saved?_of_seeking? {s : Stage κ} {next : OnTaken κ} (h : s.seeking? = some next) :
    s.saved? = none := by
  cases s <;> cases h <;> rfl

theorem enlisted_of_away? {s : Stage κ} {k : κ} (h : s.away? = some k) : s.enlisted = true := by
  unfold Stage.enlisted
  split <;> simp_all [Stage.away?, Stage.seeking?]

@[simp] theorem away?_rouse (th : Thread κ) : th.rouse.stage.away? = th.stage.away? := by
  cases hs : th.stage <;> simp [Thread.rouse, hs, Stage.away?, Stage.seeking?, OnTaken.rejoin?]

theorem parking?_of_seeking? {s : Stage κ} {next : OnTaken κ} (h : s.seeking? = some next) :
    s.parking? = none := by
  cases s <;> cases h <;> rfl

@[simp] theorem parking?_rouse (th : Thread κ) : th.rouse.stage.parking? = th.stage.parking? := by
  cases hs : th.stage <;> simp [Thread.rouse, hs, Stage.parking?]

@[simp] theorem saved?_rouse (th : Thread κ) : th.rouse.stage.saved? = th.stage.saved? := by
  cases hs : th.stage <;> simp [Thread.rouse, hs, Stage.saved?]

@[simp] theorem enlisted_rouse (th : Thread κ) : th.rouse.stage.enlisted = th.stage.enlisted := by
  cases hs : th.stage <;> simp [Thread.rouse, hs, Stage.enlisted, Stage.away?, Stage.seeking?,
    OnTaken.rejoin?]

theorem away?_woken {th th' : Thread κ} (h : th' = th ∨ th' = th.rouse) :
    th'.stage.away? = th.stage.away? := by
  rcases h with rfl | rfl <;> simp

theorem saved?_woken {th th' : Thread κ} (h : th' = th ∨ th' = th.rouse) :
    th'.stage.saved? = th.stage.saved? := by
  rcases h with rfl | rfl <;> simp

/-- A thread on its way into a wait was there before, or its client has just asked for it. -/
theorem Fires.parking {client : Client V κ} {m : Shared V} {th : Thread κ} {e : Effect V κ}
    (h : Fires client m th e) {k : κ} (hp : e.thread.stage.parking? = some k) :
    e.shared.value = m.value ∧ (th.stage.parking? = some k ∨
      ∃ k', th.stage = .client k' ∧ client k' = .wait k) := by
  cases h with
  | move hst hm =>
    cases hm with
    | wait ha =>
      cases hp
      exact ⟨rfl, .inr ⟨_, hst, ha⟩⟩
    | watch _ _ hn _ =>
      rw [parking?_of_seeking? hn] at hp
      cases hp
    | _ => cases hp
  | @take _ next => cases next <;> cases hp
  | @release next => cases next <;> dsimp only at hp <;> split at hp <;> cases hp
  | @lockWake next => cases next <;> cases hp
  | enlist hst => exact ⟨rfl, .inl (by rw [hst]; exact hp)⟩
  | sample hst => exact ⟨rfl, .inl (by rw [hst]; exact hp)⟩
  | _ => cases hp

/-! ### The count of waiters -/

theorem Moves.enlisted_eq {client : Client V κ} {m : Shared V} {guard : Bool} {s s' : Stage κ}
    (h : Moves client m guard s s') : s'.enlisted = s.enlisted := by
  cases h with
  | watch hn _ hn' _ => rw [enlisted_of_seeking? hn, enlisted_of_seeking? hn']
  | _ => rfl

/-- A step counts its thread in, counts it out, or leaves both the count and the thread alone. -/
theorem Fires.enlisted {client : Client V κ} {m : Shared V} {th : Thread κ} {e : Effect V κ}
    (h : Fires client m th e) :
    (e.shared.waiters = m.waiters ∧ e.thread.stage.enlisted = th.stage.enlisted) ∨
    (e.shared.waiters = m.waiters + 1 ∧ th.stage.enlisted = false ∧
      e.thread.stage.enlisted = true) ∨
    (e.shared.waiters = m.waiters - 1 ∧ th.stage.enlisted = true ∧
      e.thread.stage.enlisted = false) := by
  cases h with
  | move hs hm => exact .inl ⟨rfl, by rw [hs]; exact hm.enlisted_eq⟩
  | @take word next _ _ hn =>
    refine .inl ⟨rfl, ?_⟩
    rcases hn with ⟨k, f, hs, -, rfl⟩ | hn
    · rw [hs]; rfl
    · rw [enlisted_of_seeking? hn]
      cases next <;> rfl
  | mark hs => exact .inl ⟨rfl, by rw [hs]; rfl⟩
  | @release next hs =>
    refine .inl ⟨rfl, ?_⟩
    rw [hs]
    dsimp only
    cases next <;> split <;> rfl
  | @lockWake next hs =>
    refine .inl ⟨rfl, ?_⟩
    rw [hs]
    cases next <;> rfl
  | enlist hs => exact .inr (.inl ⟨rfl, by rw [hs]; rfl, rfl⟩)
  | delist hs => exact .inr (.inr ⟨rfl, by rw [hs]; rfl, rfl⟩)
  | update hs => exact .inl ⟨rfl, by rw [hs]; rfl⟩
  | sample hs => exact .inl ⟨rfl, by rw [hs]; rfl⟩
  | skip hs => exact .inl ⟨rfl, by rw [hs]; rfl⟩
  | bump hs => exact .inl ⟨rfl, by rw [hs]; rfl⟩
  | condWake hs => exact .inl ⟨rfl, by rw [hs]; rfl⟩

/-- The threads that are counted among the waiters. -/
def enlistedCount (m : Monitor V κ) : Nat := m.threads.countP (·.stage.enlisted)

/-- The waiters word counts them. -/
def Counted (m : Monitor V κ) : Prop := m.shared.waiters = BitVec.ofNat 32 (enlistedCount m)

theorem counted_start (value : V) (clients : List κ) : Counted (Monitor.start value clients) := by
  have h : enlistedCount (Monitor.start value clients) = 0 := by
    simp [enlistedCount, Monitor.start, List.countP_map, Function.comp_def, Stage.enlisted,
      Stage.away?, Stage.seeking?]
  rw [Counted, h]
  rfl

theorem ofNat_pred {n : Nat} (h : 0 < n) : BitVec.ofNat 32 (n - 1) = BitVec.ofNat 32 n - 1 := by
  obtain ⟨k, rfl⟩ := Nat.exists_eq_succ_of_ne_zero (Nat.pos_iff_ne_zero.mp h)
  rw [Nat.succ_eq_add_one, Nat.add_sub_cancel, BitVec.ofNat_add]
  exact (BitVec.add_sub_cancel _ _).symm

theorem counted_step {client : Client V κ} {m m' : Monitor V κ} (hs : Steps client m m')
    (h : Counted m) : Counted m' := by
  cases hs with
  | idle hr =>
    unfold Counted enlistedCount at *
    rw [hr.countP_eq enlisted_rouse]
    exact h
  | @act t pick th e ht hf =>
    obtain ⟨hlt, hth⟩ := List.getElem?_eq_some_iff.mp ht
    have hcount := List.countP_set (p := fun th => th.stage.enlisted) (a := e.thread) hlt
    have hpos : th.stage.enlisted = true → 0 < m.threads.countP (·.stage.enlisted) := fun he =>
      List.countP_pos_iff.mpr ⟨th, List.mem_of_getElem? ht, he⟩
    unfold Counted enlistedCount at *
    dsimp only
    rw [(roused_apply e.wake pick _).countP_eq enlisted_rouse, hcount, hth]
    rcases hf.enlisted with ⟨hw, he⟩ | ⟨hw, he, he'⟩ | ⟨hw, he, he'⟩
    · rw [hw, he, h]
      cases hen : th.stage.enlisted with
      | false => simp
      | true =>
        have := hpos hen
        simp only [if_true]
        congr 1
        omega
    · rw [hw, he, he', h]
      exact (BitVec.ofNat_add _ _).symm
    · rw [hw, he, he', h]
      exact (ofNat_pred (hpos he)).symm

theorem counted_run (client : Client V κ) (value : V) (clients : List κ)
    (schedule : List Move) : Counted ((Monitor.start value clients).run client schedule) :=
  run_invariant (fun _ _ => counted_step) (counted_start value clients) schedule

/-! ### The count of increments -/

/-- How often the sequence word was incremented since thread `w` last read it. -/
def bumpsSince (w : Nat) : List (Nat × Event V) → Nat
  | [] => 0
  | (t, .sampled) :: trace => if t = w then 0 else bumpsSince w trace
  | (_, .bumped) :: trace => bumpsSince w trace + 1
  | _ :: trace => bumpsSince w trace

theorem bumpsSince_cons_of_ne {w t : Nat} (hne : t ≠ w) (event : Event V)
    (trace : List (Nat × Event V)) :
    bumpsSince w trace ≤ bumpsSince w ((t, event) :: trace) := by
  cases event <;> simp [bumpsSince, hne]

theorem bumpsSince_le_length (w : Nat) (trace : List (Nat × Event V)) :
    bumpsSince w trace ≤ trace.length := by
  induction trace with
  | nil => exact Nat.le_refl 0
  | cons head trace ih =>
    obtain ⟨t, event⟩ := head
    cases event <;> simp only [bumpsSince, List.length_cons] <;> (try split) <;> omega

theorem Fires.seq {client : Client V κ} {m : Shared V} {th : Thread κ} {e : Effect V κ}
    (h : Fires client m th e) :
    (e.event = some .bumped ∧ e.shared.seq = m.seq + 1) ∨
      (e.event ≠ some .bumped ∧ e.shared.seq = m.seq) := by
  cases h with
  | bump => exact .inl ⟨rfl, rfl⟩
  | _ => exact .inr ⟨nofun, rfl⟩

/-- A thread that knows the sequence word has just read it, or knew it before and did nothing to
the word. -/
theorem Fires.saved {client : Client V κ} {m : Shared V} {th : Thread κ} {e : Effect V κ}
    {seen : BitVec 32} (h : Fires client m th e) (hs : e.thread.stage.saved? = some seen) :
    e.shared.seq = m.seq ∧ ((e.event = some .sampled ∧ m.seq = seen) ∨
      (th.stage.saved? = some seen ∧ e.event ≠ some .sampled ∧ e.event ≠ some .bumped)) := by
  cases h with
  | move hst hm =>
    cases hm with
    | watch _ _ hn _ =>
      rw [saved?_of_seeking? hn] at hs
      cases hs
    | _ => cases hs
  | @take _ next => cases next <;> cases hs
  | @release next hst =>
    refine ⟨rfl, .inr ⟨?_, nofun, nofun⟩⟩
    rw [hst]
    dsimp only at hs
    cases next <;> split at hs <;> exact hs
  | @lockWake next hst =>
    refine ⟨rfl, .inr ⟨?_, nofun, nofun⟩⟩
    rw [hst]
    cases next <;> exact hs
  | sample => exact ⟨rfl, .inl ⟨rfl, Option.some.inj hs⟩⟩
  | _ => cases hs

/-- Every thread that read the sequence word and is not asleep yet can tell how far the word has
moved. -/
def Sampled (m : Monitor V κ) : Prop :=
  ∀ (w : Nat) (th : Thread κ) (seen : BitVec 32), m.threads[w]? = some th →
    th.stage.saved? = some seen → m.shared.seq = seen + BitVec.ofNat 32 (bumpsSince w m.trace)

theorem sampled_step {client : Client V κ} {m m' : Monitor V κ} (hs : Steps client m m')
    (h : Sampled m) : Sampled m' := by
  intro w th' seen hw hseen
  cases hs with
  | idle hr =>
    obtain ⟨th, hth, hth'⟩ := hr.of_getElem? hw
    rw [saved?_woken hth'] at hseen
    exact h w th seen hth hseen
  | @act t pick th e ht hf =>
    rcases getElem?_act hw with ⟨rfl, hth'⟩ | ⟨hne, thw, hthw, hth'⟩
    · rw [saved?_woken hth'] at hseen
      obtain ⟨hseq, ⟨he, hread⟩ | ⟨hold, hns, hnb⟩⟩ := hf.saved hseen
      · simp [hseq, he, hread, bumpsSince]
      · have hb : bumpsSince w ((e.event.map (w, ·)).toList ++ m.trace) = bumpsSince w m.trace := by
          cases he : e.event with
          | none => rfl
          | some event => cases event <;> simp_all [bumpsSince]
        dsimp only
        rw [hb, hseq]
        exact h w th seen ht hold
    · rw [saved?_woken hth'] at hseen
      have hseq := h w thw seen hthw hseen
      dsimp only
      rcases hf.seq with ⟨he, hb⟩ | ⟨he, hb⟩
      · simp only [he, hb, hseq, Option.map_some, Option.toList_some, List.singleton_append,
          bumpsSince, BitVec.ofNat_add]
        exact BitVec.add_assoc _ _ _
      · have hsame : bumpsSince w ((e.event.map (t, ·)).toList ++ m.trace) =
            bumpsSince w m.trace := by
          cases he' : e.event with
          | none => rfl
          | some event => cases event <;> simp_all [bumpsSince, Ne.symm hne]
        rw [hb, hsame, hseq]

theorem sampled_run (client : Client V κ) (value : V) (clients : List κ)
    (schedule : List Move) : Sampled ((Monitor.start value clients).run client schedule) := by
  apply run_invariant (fun _ _ => sampled_step)
  intro w th seen hw hseen
  obtain ⟨k, -, rfl⟩ := stage_start hw
  cases hseen

/-! ### Counters that have not run over -/

/-- The counters of a condition variable have not run over: fewer than 2^32 threads are counted
among the waiters, and if thread `w` has read the sequence word and is not asleep yet, fewer than
2^32 increments came since. -/
structure Unwrapped (w : Nat) (m : Monitor V κ) : Prop where
  waiters : enlistedCount m < UInt32.size
  bumps : ∀ th, m.threads[w]? = some th → th.stage.saved?.isSome →
    bumpsSince w m.trace < UInt32.size

theorem Counted.waiters_ne_zero {m : Monitor V κ} (h : Counted m)
    (hlt : enlistedCount m < UInt32.size) {w : Nat} {th : Thread κ} (hw : m.threads[w]? = some th)
    (he : th.stage.enlisted = true) : m.shared.waiters ≠ 0 := by
  have hpos : 0 < enlistedCount m :=
    List.countP_pos_iff.mpr ⟨th, List.mem_of_getElem? hw, he⟩
  intro hz
  have hn := congrArg BitVec.toNat (h.symm.trans hz)
  rw [BitVec.toNat_ofNat, Nat.mod_eq_of_lt hlt] at hn
  simp at hn
  omega

theorem Sampled.seq_ne {m : Monitor V κ} (h : Sampled m) {w : Nat} (hu : Unwrapped w m)
    {th : Thread κ} {seen : BitVec 32} (hw : m.threads[w]? = some th)
    (hs : th.stage.saved? = some seen) (hb : 0 < bumpsSince w m.trace) :
    m.shared.seq ≠ seen := by
  have hlt := hu.bumps th hw (by rw [hs]; rfl)
  intro he
  have hz : BitVec.ofNat 32 (bumpsSince w m.trace) = 0 := by
    have hsum := (h w th seen hw hs).symm.trans he
    exact BitVec.add_right_eq_self.mp hsum
  have hn := congrArg BitVec.toNat hz
  rw [BitVec.toNat_ofNat, Nat.mod_eq_of_lt hlt] at hn
  simp at hn
  omega

theorem Roused.length_eq {ts ts' : List (Thread κ)} (h : Roused ts ts') :
    ts'.length = ts.length := by
  have hm := congrArg List.length (h.map_eq (f := Thread.guard) rouse_guard)
  simpa only [List.length_map] using hm

theorem length_step {client : Client V κ} {m m' : Monitor V κ} (hs : Steps client m m') :
    m'.threads.length = m.threads.length ∧ m'.trace.length ≤ m.trace.length + 1 := by
  cases hs with
  | idle hr => exact ⟨hr.length_eq, Nat.le_succ _⟩
  | @act t pick th e ht hf =>
    refine ⟨(roused_apply e.wake pick _).length_eq.trans List.length_set, ?_⟩
    cases e.event <;> simp

theorem length_run (client : Client V κ) (m : Monitor V κ) (schedule : List Move) :
    (m.run client schedule).threads.length = m.threads.length ∧
      (m.run client schedule).trace.length ≤ m.trace.length + schedule.length := by
  induction schedule generalizing m with
  | nil => exact ⟨rfl, Nat.le_refl _⟩
  | cons move rest ih =>
    obtain ⟨ht, hl⟩ := length_step (steps_step client m move)
    obtain ⟨ht', hl'⟩ := ih (m.step client move)
    refine ⟨ht'.trans ht, ?_⟩
    simp only [run_cons, List.length_cons]
    omega

theorem unwrapped_of_short (client : Client V κ) (value : V) (clients : List κ)
    (schedule : List Move) (hc : clients.length < UInt32.size)
    (hs : schedule.length < UInt32.size) (w : Nat) (s : List Move) (hp : s <+: schedule) :
    Unwrapped w ((Monitor.start value clients).run client s) := by
  obtain ⟨ht, hl⟩ := length_run client (Monitor.start value clients) s
  have ht₀ : (Monitor.start value clients).threads.length = clients.length := List.length_map _
  have hl₀ : (Monitor.start value clients).trace.length = 0 := rfl
  have hle := hp.length_le
  constructor
  · have hcount : enlistedCount ((Monitor.start value clients).run client s) ≤ _ :=
      List.countP_le_length
    omega
  · intro _ _ _
    have hb := bumpsSince_le_length w ((Monitor.start value clients).run client s).trace
    omega

end Interlock.Monitor
