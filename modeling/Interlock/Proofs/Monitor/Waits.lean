import Interlock.Proofs.Monitor.Exclusion
import Interlock.Proofs.Monitor.Waiters

/-!
# Threads in a wait

A thread is in a wait from the call until it has taken itself out of the waiters, and dozes from
the call until it is woken or finds that the sequence word has moved. It comes there by asking for
a wait and in no other way, and it stops dozing only by a wake or by a sequence word other than the
one it read.
-/

namespace Interlock.Monitor

variable {V κ : Type} {client : Client V κ} {m : Shared V} {th : Thread κ} {e : Effect V κ}

/-! ### The way into a wait -/

/-- Whether a thread is in a wait and has not been told yet to come back. -/
def Stage.dozing : Stage κ → Bool
  | .enlisting _ | .sampling _ | .releasing (.park ..) => true
  | .lockWake (.park ..) | .condWait .. | .condAsleep .. => true
  | _ => false

/-- Whether a thread is in a wait. -/
def Stage.inWait (s : Stage κ) : Bool := s.dozing || s.enlisted

theorem dozing_of_seeking? {s : Stage κ} {next : OnTaken κ} (h : s.seeking? = some next) :
    s.dozing = false := by
  cases s <;> cases h <;> rfl

theorem inWait_of_seeking? {s : Stage κ} {next : OnTaken κ} (h : s.seeking? = some next) :
    s.inWait = next.rejoin?.isSome := by
  rw [Stage.inWait, dozing_of_seeking? h, enlisted_of_seeking? h, Bool.false_or]

theorem dozing_of_asleep (h : th.asleepOnCondition = true) : th.stage.dozing = true := by
  unfold Thread.asleepOnCondition at h
  cases hs : th.stage <;> simp_all [Stage.dozing]

theorem dozing_of_saved? {s : Stage κ} {seen : BitVec 32} (h : s.saved? = some seen) :
    s.dozing = true := by
  unfold Stage.saved? at h
  split at h <;> first | rfl | cases h

theorem inWait_of_dozing {s : Stage κ} (h : s.dozing = true) : s.inWait = true := by
  rw [Stage.inWait, h, Bool.true_or]

theorem inWait_of_enlisted {s : Stage κ} (h : s.enlisted = true) : s.inWait = true := by
  rw [Stage.inWait, h, Bool.or_true]

theorem not_asleep_of_saved? {seen : BitVec 32} (h : th.stage.saved? = some seen) :
    th.asleepOnCondition = false := by
  cases hs : th.stage with
  | condAsleep => rw [hs] at h; cases h
  | _ => simp [Thread.asleepOnCondition, hs]

theorem enlisted_of_saved? {s : Stage κ} {seen : BitVec 32} (h : s.saved? = some seen) :
    s.enlisted = true := by
  unfold Stage.saved? at h
  split at h <;> first | rfl | cases h

theorem enlisted_of_asleep (h : th.asleepOnCondition = true) : th.stage.enlisted = true := by
  unfold Thread.asleepOnCondition at h
  cases hs : th.stage <;> simp_all [Stage.enlisted, Stage.away?]

theorem letsGo_of_parking? {s : Stage κ} {k : κ} (h : s.parking? = some k) :
    s.letsGo = true := by
  unfold Stage.parking? at h
  split at h <;> first | rfl | cases h

/-- A thread that dozes has not let the mutex go yet, or knows the sequence word, or sleeps. -/
theorem dozing_cases (h : th.stage.dozing = true) :
    (∃ k, th.stage.parking? = some k) ∨ (∃ seen, th.stage.saved? = some seen) ∨
      th.asleepOnCondition = true := by
  cases hs : th.stage with
  | enlisting k => exact .inl ⟨k, rfl⟩
  | sampling k => exact .inl ⟨k, rfl⟩
  | releasing next =>
    cases next with
    | resume => rw [hs] at h; cases h
    | park seen k => exact .inl ⟨k, rfl⟩
  | lockWake next =>
    cases next with
    | resume => rw [hs] at h; cases h
    | park seen k => exact .inr (.inl ⟨seen, rfl⟩)
  | condWait seen k => exact .inr (.inl ⟨seen, rfl⟩)
  | condAsleep seen k => exact .inr (.inr (by simp [Thread.asleepOnCondition, hs]))
  | _ => rw [hs] at h; cases h

theorem Fires.comes_to_wait (h : Fires client m th e) (hw : e.thread.stage.inWait = true) :
    th.stage.inWait = true ∨ ∃ k k', th.stage = .client k ∧ client k = .wait k' := by
  cases h with
  | move hst hm =>
    cases hm with
    | wait ha => exact .inr ⟨_, _, hst, ha⟩
    | watch hn _ hn' _ =>
      rw [hst, inWait_of_seeking? hn]
      rw [inWait_of_seeking? hn'] at hw
      exact .inl hw
    | sleep => exact .inl (by rw [hst]; rfl)
    | rejoin => exact .inl (by rw [hst]; rfl)
    | _ => cases hw
  | @take _ next _ _ hn =>
    cases next with
    | resume => cases hw
    | rejoin k =>
      rcases hn with ⟨_, _, _, _, hn⟩ | hn
      · cases hn
      · exact .inl (by rw [inWait_of_seeking? hn]; rfl)
  | @mark next hst =>
    have hn : th.stage.seeking? = some next := by rw [hst]; rfl
    have hn' : (Stage.lockWait next).seeking? = some next := rfl
    rw [inWait_of_seeking? hn'] at hw
    exact .inl (by rw [inWait_of_seeking? hn, hw])
  | @release next hst =>
    cases next with
    | resume => dsimp only at hw; split at hw <;> cases hw
    | park => exact .inl (by rw [hst]; rfl)
  | @lockWake next hst =>
    cases next with
    | resume => cases hw
    | park => exact .inl (by rw [hst]; rfl)
  | enlist hst => exact .inl (by rw [hst]; rfl)
  | sample hst => exact .inl (by rw [hst]; rfl)
  | _ => cases hw

theorem Fires.comes_to_doze (h : Fires client m th e) (hd : e.thread.stage.dozing = true) :
    th.stage.dozing = true ∨ ∃ k k', th.stage = .client k ∧ client k = .wait k' := by
  cases h with
  | move hst hm =>
    cases hm with
    | wait ha => exact .inr ⟨_, _, hst, ha⟩
    | watch _ _ hn _ =>
      rw [dozing_of_seeking? hn] at hd
      cases hd
    | sleep => exact .inl (by rw [hst]; rfl)
    | _ => cases hd
  | @take _ next => cases next <;> cases hd
  | @release next hst =>
    cases next with
    | resume => dsimp only at hd; split at hd <;> cases hd
    | park => exact .inl (by rw [hst]; rfl)
  | @lockWake next hst =>
    cases next with
    | resume => cases hd
    | park => exact .inl (by rw [hst]; rfl)
  | enlist hst => exact .inl (by rw [hst]; rfl)
  | sample hst => exact .inl (by rw [hst]; rfl)
  | _ => cases hd

/-- A step on the value is taken outside of every call. -/
theorem Fires.client_of_value_ne (h : Fires client m th e) (hv : e.shared.value ≠ m.value) :
    ∃ k, th.stage = .client k := by
  cases h with
  | update hst => exact ⟨_, hst⟩
  | _ => exact absurd rfl hv

/-! ### The way out of a wait -/

/-- A thread that knows the sequence word knows it still, or looks at the word again: it falls
asleep if the word is as it was, and comes back if not. -/
theorem Fires.of_saved (h : Fires client m th e) {seen : BitVec 32}
    (hs : th.stage.saved? = some seen) :
    (e.thread.stage.saved? = some seen ∧ e.event ≠ some .sampled) ∨ m.seq = seen ∨
      (e.event = none ∧ e.thread.stage.dozing = false) := by
  cases h with
  | move hst hm =>
    rw [hst] at hs
    cases hm with
    | watch hn =>
      rw [saved?_of_seeking? hn] at hs
      cases hs
    | sleep hseq =>
      cases hs
      exact .inr (.inl hseq)
    | rejoin => exact .inr (.inr ⟨rfl, rfl⟩)
    | _ => cases hs
  | take _ _ hn =>
    rcases hn with ⟨k, f, hk, -⟩ | hn
    · rw [hk] at hs
      cases hs
    · rw [saved?_of_seeking? hn] at hs
      cases hs
  | @release next hst =>
    rw [hst] at hs
    cases next with
    | resume => cases hs
    | park =>
      refine .inl ⟨?_, nofun⟩
      dsimp only
      split <;> exact hs
  | @lockWake next hst =>
    rw [hst] at hs
    cases next with
    | resume => cases hs
    | park => exact .inl ⟨hs, nofun⟩
  | _ => simp_all [Stage.saved?]

theorem Fires.not_asleep (h : Fires client m th e) : th.asleepOnCondition = false := by
  cases hs : th.stage with
  | condAsleep seen k =>
    cases h with
    | move hst hm =>
      rw [hs] at hst
      subst hst
      cases hm with
      | watch hn => cases hn
    | take _ _ hn => simp [hs, Stage.seeking?] at hn
    | _ => simp_all
  | _ => simp [Thread.asleepOnCondition, hs]

theorem Fires.wake_of_condWake (h : Fires client m th e) {all : Bool} {k : κ}
    (hs : th.stage = .condWake all k) :
    e.wake = (if all then .allOnCondition else .oneOnCondition) ∧
      e.thread.asleepOnCondition = false := by
  cases h with
  | move hst hm =>
    cases hs.symm.trans hst
    cases hm with
    | watch hn => cases hn
  | take _ _ hn => simp [hs, Stage.seeking?] at hn
  | condWake hst =>
    cases hs.symm.trans hst
    exact ⟨rfl, rfl⟩
  | _ => simp_all

theorem dozing_rouse_of_asleep (h : th.asleepOnCondition = true) :
    th.rouse.stage.dozing = false := by
  unfold Thread.asleepOnCondition at h
  split at h
  · rename_i hs
    simp [Thread.rouse, hs, Stage.dozing]
  · cases h

theorem dozing_rouse (h : th.stage.dozing = false) : th.rouse.stage.dozing = false := by
  cases hs : th.stage <;> simp_all [Thread.rouse, Stage.dozing]

@[simp] theorem inWait_rouse (th : Thread κ) : th.rouse.stage.inWait = th.stage.inWait := by
  cases hs : th.stage <;>
    simp [Thread.rouse, hs, Stage.inWait, Stage.dozing, Stage.enlisted, Stage.away?,
      Stage.seeking?, OnTaken.rejoin?]

theorem stage_woken_of_condWake {th' : Thread κ} {all : Bool} {k : κ}
    (h : th.stage = .condWake all k) (hw : th' = th ∨ th' = th.rouse) :
    th'.stage = .condWake all k := by
  rcases hw with rfl | rfl <;> simp [Thread.rouse, h]

/-- An event brings no thread nearer to the sequence word but the one that reads it. -/
theorem bumpsSince_le_cons {w t : Nat} {event : Option (Event V)} {trace : List (Nat × Event V)}
    (h : t = w → event ≠ some .sampled) :
    bumpsSince w trace ≤ bumpsSince w ((event.map (t, ·)).toList ++ trace) := by
  cases event with
  | none => exact Nat.le_refl _
  | some event =>
    cases event with
    | sampled =>
      have hne : t ≠ w := fun ht => h ht rfl
      exact bumpsSince_cons_of_ne hne .sampled trace
    | bumped => exact Nat.le_succ _
    | _ => exact Nat.le_refl _

end Interlock.Monitor
