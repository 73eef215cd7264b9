import Interlock.Proofs.Exchange.Rounds

/-!
# Native operations from an exchange that may fail for no reason

Whatever the others store and however often attempts fail for no reason, a synthesized
compare-and-swap and a synthesized update end, commit at most once, and come to what the native
operation comes to when it is carried out at one instant of the call.
-/

namespace Interlock.Exchange

variable {w : Nat}

/-! ### Compare-and-swap -/

theorem loads_append_loaded (o : Outcome w) {tried : List (Step w)} {v : BitVec w}
    (h : o.steps = tried ++ [.loaded v]) : o.loads.getLast? = some v := by
  rw [Outcome.loads, h, List.filterMap_append]
  exact List.getLast?_concat

/-- What a synthesized compare-and-swap of `word` did amid a script. -/
structure SwapsLikeNative (old new : BitVec w) (script : List (Round w)) (word : BitVec w)
    (o : Outcome w) : Prop where
  /-- It ended within one round more than the script has. -/
  bounded : o.loads.length ≤ script.length + 1
  /-- If it answered anything but `old`, it committed nothing, and the last load saw the answer. -/
  mismatch : o.answer ≠ old →
    (∀ s ∈ o.steps, s.commits = false) ∧ o.loads.getLast? = some o.answer
  /-- If it answered `old`, one attempt committed, the last, and replaced `old` by `new`. -/
  success : o.answer = old → ∃ tried, (∀ s ∈ tried, s.commits = false) ∧
    o.steps = tried ++ [.loaded old, .attempted old new old true] ∧ o.word = new
  /-- It attempted nothing but to replace `old` by `new`, directly after a load that saw `old`. -/
  attempts : ∀ before a b held committed after,
    o.steps = before ++ .attempted a b held committed :: after →
      a = old ∧ b = new ∧ before.getLast? = some (.loaded old)
  /-- Each of its steps saw the word as it was then, -/
  plays : Plays word (timeline script o.steps) o.word
  /-- and all of them came to what the native operation comes to at one instant. -/
  instant : AtOneInstant (.compareSwap old new) script word o

theorem compareSwap_like_native (old new : BitVec w) (script : List (Round w)) (word : BitVec w) :
    SwapsLikeNative old new script word (compareSwap old new script word) := by
  have h := rounds_compareSwap old new script word
  generalize compareSwap old new script word = o at h
  obtain ⟨tried, htried, hend⟩ := h.ends
  refine ⟨h.length_loads_le, ?_, ?_, ?_, h.plays, ?_⟩
  · intro hne
    rcases hend with ⟨-, hsteps⟩ | ⟨hgo, -, -⟩
    · refine ⟨fun s hs => ?_, loads_append_loaded o hsteps⟩
      rw [hsteps] at hs
      rcases List.mem_append.mp hs with hs | hs
      · exact htried s hs
      · rw [List.mem_singleton.mp hs]
        rfl
    · exact absurd hne hgo
  · intro heq
    rcases hend with ⟨hne, -⟩ | ⟨-, hword, hsteps⟩
    · exact absurd heq hne
    · rw [heq] at hsteps
      exact ⟨tried, htried, hsteps, hword⟩
  · intro before a b held committed after hsteps
    obtain ⟨hgo, hnew, hlast⟩ := h.attempt_after_load hsteps
    obtain rfl := Decidable.not_not.mp hgo
    exact ⟨rfl, hnew, hlast⟩
  · refine h.atOneInstant (fun x hne => ?_) (fun x hgo => ?_)
    · rw [Op.apply, if_neg hne]
    · rw [Op.apply, if_pos (Decidable.not_not.mp hgo)]

/-- Others take the word away and put it back, and the attempt that then fails does so for no
reason. -/
def restored : List (Round 32) :=
  [{ afterLoad := some 7, beforeAttempt := some 9, spurious := true }]

theorem compareSwap_like_native_restored :
    (compareSwap 9 0 restored 9).answer = 9 ∧ ∃ tried, (∀ s ∈ tried, s.commits = false) ∧
      (compareSwap 9 0 restored 9).steps = tried ++ [.loaded 9, .attempted 9 0 9 true] ∧
      (compareSwap 9 0 restored 9).word = 0 := by
  have hanswer : (compareSwap 9 0 restored 9).answer = 9 := by decide
  exact ⟨hanswer, (compareSwap_like_native 9 0 restored 9).success hanswer⟩

/-! ### Update -/

/-- A script in which nobody stores. Attempts may still fail for no reason. -/
def Quiet (script : List (Round w)) : Prop :=
  ∀ r ∈ script, r.afterLoad = none ∧ r.beforeAttempt = none

theorem Quiet.headD {script : List (Round w)} (h : Quiet script) :
    (script.headD {}).afterLoad = none ∧ (script.headD {}).beforeAttempt = none := by
  cases script with
  | nil => exact ⟨rfl, rfl⟩
  | cons r script => exact h r List.mem_cons_self

theorem Quiet.tail {script : List (Round w)} (h : Quiet script) : Quiet script.tail :=
  fun r hr => h r (List.mem_of_mem_tail hr)

theorem Quiet.no_store {script : List (Round w)} (h : Quiet script) (steps : List (Step w))
    (v : BitVec w) : .store v ∉ timeline script steps := by
  induction steps generalizing script with
  | nil => exact List.not_mem_nil
  | cons step steps ih =>
    obtain ⟨hload, hattempt⟩ := h.headD
    cases step with
    | loaded seen =>
      rw [timeline, hload]
      intro hmem
      cases hmem with
      | tail _ hmem => exact ih h hmem
    | attempted old new held committed =>
      rw [timeline, hattempt]
      intro hmem
      cases hmem with
      | tail _ hmem => exact ih h.tail hmem

/-- What a synthesized update of `word` did amid a script. -/
structure UpdatesLikeNative (update : BitVec w → BitVec w) (script : List (Round w))
    (word : BitVec w) (o : Outcome w) : Prop where
  /-- It ended within one round more than the script has. -/
  bounded : o.loads.length ≤ script.length + 1
  /-- Each attempt was to replace what the load just before it saw by the update of that. -/
  attempts : ∀ before c new held committed after,
    o.steps = before ++ .attempted c new held committed :: after →
      new = update c ∧ before.getLast? = some (.loaded c)
  /-- One attempt committed, the last, on a word that held the answer, and left the update of it. No
  other step changed the word. -/
  once : ∃ tried, (∀ s ∈ tried, s.commits = false) ∧
    o.steps = tried ++
      [.loaded o.answer, .attempted o.answer (update o.answer) o.answer true] ∧
    o.word = update o.answer
  /-- Each step saw the word as it was then, -/
  plays : Plays word (timeline script o.steps) o.word
  /-- and all of them came to what the native operation comes to at one instant. -/
  instant : AtOneInstant (.fetchUpdate update) script word o
  /-- When nobody stores, that is what the native operation comes to on the same word. -/
  quiet : Quiet script → ∀ fenced,
    ((Op.fetchUpdate update).run ⟨word, fenced⟩).answer = .value o.answer ∧
      ((Op.fetchUpdate update).run ⟨word, fenced⟩).cell.contents = o.word

theorem fetchUpdate_like_native (update : BitVec w → BitVec w) (script : List (Round w))
    (word : BitVec w) :
    UpdatesLikeNative update script word (fetchUpdate update script word) := by
  have h := rounds_fetchUpdate update script word
  generalize fetchUpdate update script word = o at h
  have hinstant : AtOneInstant (.fetchUpdate update) script word o :=
    h.atOneInstant (fun _ hstop => hstop.elim) (fun _ _ => rfl)
  refine ⟨h.length_loads_le, ?_, ?_, h.plays, hinstant, ?_⟩
  · intro before c new held committed after hsteps
    obtain ⟨-, hnew, hlast⟩ := h.attempt_after_load hsteps
    exact ⟨hnew, hlast⟩
  · obtain ⟨tried, htried, ⟨hstop, -⟩ | ⟨-, hword, hsteps⟩⟩ := h.ends
    · exact hstop.elim
    · exact ⟨tried, htried, hsteps, hword⟩
  · intro hquiet fenced
    -- Without stores the word at the instant is the word at the beginning.
    obtain ⟨before, step, after, htimeline, hanswer, hword⟩ := hinstant
    have hnone := hquiet.no_store o.steps
    rw [htimeline] at hnone
    have hbefore : leftByOthers word before = word :=
      leftByOthers_of_no_store fun v hv => hnone v (List.mem_append_left _ hv)
    rw [hbefore] at hanswer hword
    have hafter (x : BitVec w) : leftByOthers x after = x :=
      leftByOthers_of_no_store fun v hv => hnone v (List.mem_append_right _ (.tail _ hv))
    rw [hafter] at hword
    obtain ⟨hrun, hcell⟩ := Op.run_eq (.fetchUpdate update) ⟨word, fenced⟩
    exact ⟨hrun.trans hanswer, (congrArg Cell.contents hcell).trans hword⟩

/-- Two attempts fail for no reason. -/
def flaky : List (Round 32) := [{ spurious := true }, { spurious := true }]

theorem fetchUpdate_like_native_flaky :
    Quiet flaky ∧ ((Op.fetchUpdate (· * 7)).run ⟨6, true⟩).answer =
        .value (fetchUpdate (· * 7) flaky 6).answer ∧
      ((Op.fetchUpdate (· * 7)).run ⟨6, true⟩).cell.contents =
        (fetchUpdate (· * 7) flaky 6).word := by
  have hquiet : Quiet flaky := by
    intro r hr
    simp only [flaky, List.mem_cons, List.not_mem_nil, or_false, or_self] at hr
    rw [hr]
    exact ⟨rfl, rfl⟩
  exact ⟨hquiet, (fetchUpdate_like_native (· * 7) flaky 6).quiet hquiet true⟩

end Interlock.Exchange
