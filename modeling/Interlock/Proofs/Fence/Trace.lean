import Interlock.Fence.Race

/-!
# What a trace of a policy says

A trace tells the decision at each instant. In a fair trace every mark was fair when it was made:
it shows the decision as it was, a store decides, an exchange installs what a detector answered and
only on a policy that is undecided, and what an initialization returns was true at an instant of
its call. The laws of a policy follow from this, whatever the threads do.
-/

namespace Interlock.Fence

/-- What happened to a policy, and by which thread, the latest first. -/
abbrev Trace : Type := List (Nat × Program.Happening)

theorem State.ofBool_ne_uninitialized (on : Bool) : State.ofBool on ≠ .uninitialized := by
  cases on <;> decide

namespace Trace

/-! ### What a trace tells -/

/-- The decision after a trace. -/
def told : Trace → State
  | [] => .uninitialized
  | (_, .stored s) :: _ => s
  | (_, .exchanged old new seen) :: _ => if seen = old then new else seen
  | (_, .loaded _) :: past | (_, .noted _) :: past => told past

/-- The decision that was forced last. -/
def forced : Trace → Option State
  | [] => none
  | (_, .stored s) :: _ => some s
  | (_, .exchanged ..) :: past | (_, .loaded _) :: past | (_, .noted _) :: past => forced past

/-- Whether a mark shows an initialization that installed what it found. -/
def installs : Nat × Program.Happening → Bool
  | (_, .exchanged old _ seen) => seen = old
  | _ => false

/-- The last thing that a thread did. -/
def latest (t : Nat) (past : Trace) : Option Program.Happening :=
  (past.find? fun mark => mark.1 = t).map Prod.snd

/-- What happened while a thread was in a call, if the calls that it made meanwhile have returned:
its initializations that began and those that returned match. -/
inductive Balanced (t : Nat) : Trace → Prop
  | nil : Balanced t []
  | other {mark past} : (∀ on, mark ≠ (t, .noted (.returned on))) → mark ≠ (t, .noted .began) →
    Balanced t past → Balanced t (mark :: past)
  | call {inside past} (on : Bool) : Balanced t inside → Balanced t past →
    Balanced t ((t, .noted (.returned on)) :: (inside ++ (t, .noted .began) :: past))

theorem Balanced.append {t : Nat} {late early : Trace} (h : Balanced t late)
    (h' : Balanced t early) : Balanced t (late ++ early) := by
  induction h with
  | nil => exact h'
  | other hr hb _ ih => exact .other hr hb ih
  | @call inside past on hin _ _ ih =>
    rw [List.cons_append, List.append_assoc, List.cons_append]
    exact .call on hin ih

theorem Balanced.of_others {t : Nat} {others : Trace} (h : ∀ mark ∈ others, mark.1 ≠ t) :
    Balanced t others := by
  induction others with
  | nil => exact .nil
  | cons mark others ih =>
    have hne := h mark List.mem_cons_self
    refine .other (fun on he => hne ?_) (fun he => hne ?_)
      (ih fun m hm => h m (List.mem_cons_of_mem _ hm)) <;> rw [he]

/-- At an instant since `start` the policy was decided, and fences were on iff `on`. -/
def Was (on : Bool) (start past : Trace) : Prop :=
  ∃ instant, start <:+ instant ∧ instant <:+ past ∧ told instant ≠ .uninitialized ∧
    (on = true ↔ told instant = .enabled)

theorem Was.mono {on : Bool} {start past now : Trace} (h : Was on start past)
    (hlater : past <:+ now) : Was on start now := by
  obtain ⟨instant, hstart, hpast, htold⟩ := h
  exact ⟨instant, hstart, hpast.trans hlater, htold⟩

/-! ### Fair traces -/

/-- What thread `t` may do after a trace. -/
def Fair (t : Nat) (past : Trace) : Program.Happening → Prop
  | .loaded seen => seen = told past
  | .stored s => ∃ on, s = .ofBool on
  | .exchanged old new seen => seen = told past ∧ old = .uninitialized ∧
    ∃ needed, new = .ofBool needed ∧ latest t past = some (.noted (.detected needed))
  | .noted (.returned on) => ∃ inside early, past = inside ++ (t, .noted .began) :: early ∧
    Balanced t inside ∧ Was on ((t, .noted .began) :: early) past
  | .noted _ => True

/-- Traces in which every thread only did what it may. -/
inductive Lawful : Trace → Prop
  | nil : Lawful []
  | cons {t past happening} : Lawful past → Fair t past happening →
    Lawful ((t, happening) :: past)

theorem Lawful.of_suffix {early now : Trace} (h : Lawful now) (hs : early <:+ now) :
    Lawful early := by
  induction h with
  | nil =>
    cases List.suffix_nil.mp hs
    exact .nil
  | cons hpast hfair ih =>
    rcases List.suffix_cons_iff.mp hs with rfl | hs
    · exact .cons hpast hfair
    · exact ih hs

/-- A decision is never taken back. -/
theorem Lawful.told_ne {early now : Trace} (h : Lawful now) (hs : early <:+ now)
    (hearly : told early ≠ .uninitialized) : told now ≠ .uninitialized := by
  induction h with
  | nil =>
    cases List.suffix_nil.mp hs
    exact hearly
  | @cons t past happening _ hfair ih =>
    rcases List.suffix_cons_iff.mp hs with rfl | hs
    · exact hearly
    · have hpast := ih hs
      cases happening with
      | loaded | noted => exact hpast
      | stored s =>
        obtain ⟨on, rfl⟩ := hfair
        exact State.ofBool_ne_uninitialized on
      | exchanged old new seen =>
        obtain ⟨rfl, rfl, -⟩ := hfair
        rw [told, if_neg hpast]
        exact hpast

/-- After the first store the decision is that of the latest store. -/
theorem Lawful.told_of_forced {now : Trace} (h : Lawful now) {s : State}
    (hs : forced now = some s) : told now = s ∧ s ≠ .uninitialized := by
  induction h with
  | nil => cases hs
  | @cons t past happening _ hfair ih =>
    cases happening with
    | loaded | noted => exact ih hs
    | stored s' =>
      cases hs
      obtain ⟨on, rfl⟩ := hfair
      exact ⟨rfl, State.ofBool_ne_uninitialized on⟩
    | exchanged old new seen =>
      obtain ⟨rfl, rfl, -⟩ := hfair
      obtain ⟨htold, hne⟩ := ih hs
      rw [told, htold, if_neg hne]
      exact ⟨rfl, hne⟩

theorem not_installs_of_told {t : Nat} {past : Trace} {happening : Program.Happening}
    (hfair : Fair t past happening) (hpast : told past ≠ .uninitialized) :
    installs (t, happening) = false := by
  cases happening with
  | exchanged old new seen =>
    obtain ⟨rfl, rfl, -⟩ := hfair
    exact decide_eq_false hpast
  | _ => rfl

/-- While a policy is undecided, nothing has been forced and nothing installed. -/
theorem Lawful.of_undecided {now : Trace} (h : Lawful now) (hnow : told now = .uninitialized) :
    forced now = none ∧ now.filter installs = [] := by
  have hnone : forced now = none := by
    cases hf : forced now with
    | none => rfl
    | some s =>
      obtain ⟨htold, hne⟩ := h.told_of_forced hf
      exact absurd (htold.symm.trans hnow) hne
  refine ⟨hnone, List.filter_eq_nil_iff.mpr fun mark hmark hinst => ?_⟩
  obtain ⟨late, early, rfl⟩ := List.append_of_mem hmark
  have hsuffix : mark :: early <:+ late ++ mark :: early := List.suffix_append _ _
  have hmade := h.of_suffix hsuffix
  refine h.told_ne hsuffix ?_ hnow
  cases hmade with
  | @cons t past happening _ hfair =>
    cases happening with
    | exchanged old new seen =>
      obtain ⟨-, -, needed, rfl, -⟩ := hfair
      rw [told, if_pos (of_decide_eq_true hinst)]
      exact State.ofBool_ne_uninitialized needed
    | _ => cases hinst

theorem Lawful.length_installs_le {now : Trace} (h : Lawful now) :
    (now.filter installs).length ≤ 1 := by
  induction h with
  | nil => exact Nat.zero_le 1
  | @cons t past happening hpast hfair ih =>
    cases hinst : installs (t, happening) with
    | false => rwa [List.filter_cons_of_neg (by simp [hinst])]
    | true =>
      have htold : told past = .uninitialized := by
        apply Decidable.byContradiction
        intro hne
        rw [not_installs_of_told hfair hne] at hinst
        cases hinst
      rw [List.filter_cons_of_pos hinst, (hpast.of_undecided htold).2]
      exact Nat.le_refl 1

/-- Until a decision is forced, the one that is made stays. -/
theorem Lawful.told_of_not_forced {late early : Trace} (h : Lawful (late ++ early))
    (hearly : told early ≠ .uninitialized) (hlate : forced late = none) :
    told (late ++ early) = told early := by
  induction late with
  | nil => rfl
  | cons mark late ih =>
    rw [List.cons_append] at h ⊢
    cases h with
    | @cons t past happening hpast hfair =>
      have hstay := ih hpast
      cases happening with
      | loaded | noted => exact hstay hlate
      | stored s => cases hlate
      | exchanged old new seen =>
        obtain ⟨rfl, rfl, -⟩ := hfair
        have htold := hstay hlate
        rw [told, htold, if_neg hearly]

end Trace

end Interlock.Fence
