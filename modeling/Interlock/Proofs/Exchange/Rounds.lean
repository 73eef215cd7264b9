import Interlock.Exchange
import Interlock.Proofs.Word.Calls

/-!
# Loops on an exchange that may fail for no reason

Both loops go by rounds: a load, after which the loop may stop, and an attempt to replace what it
loaded, after which it returns or starts over. The steps of a call and the stores of others stand in
one order, its timeline. On it each step sees the word as it is then, no step but a commit changes
the word, and a single step suffices to explain the call: had the operation been carried out at this
instant on a native word, it would have come to the same.
-/

namespace Interlock.Exchange

variable {w : Nat}

/-! ### Timelines -/

def Step.commits : Step w → Bool
  | .loaded _ => false
  | .attempted _ _ _ committed => committed

/-- What happens to the word during a call: a step of the call, or somebody else's store. -/
inductive Moment (w : Nat) where
  | own (step : Step w)
  | store (value : BitVec w)

def Moment.effect : Moment w → BitVec w → BitVec w
  | .own (.loaded _), x => x
  | .own (.attempted _ new _ committed), x => if committed then new else x
  | .store v, _ => v

/-- Whether a step saw the word as it was, and committed only on what it was to replace. -/
def Moment.Sees : Moment w → BitVec w → Prop
  | .own (.loaded v), x => v = x
  | .own (.attempted old _ held committed), x => held = x ∧ (committed = true → x = old)
  | .store _, _ => True

/-- The steps of a call, and between them the stores that a script lets others make: after the load
of a round, and just before its attempt, if there is one. -/
def timeline : List (Round w) → List (Step w) → List (Moment w)
  | _, [] => []
  | script, .loaded v :: steps =>
    .own (.loaded v) :: ((script.headD {}).afterLoad.toList.map .store ++ timeline script steps)
  | script, .attempted old new held committed :: steps =>
    (script.headD {}).beforeAttempt.toList.map .store ++
      .own (.attempted old new held committed) :: timeline script.tail steps

/-- The moments take the word from one value to another, and each step sees it as it is then. -/
inductive Plays : BitVec w → List (Moment w) → BitVec w → Prop
  | nil {x} : Plays x [] x
  | cons {x y moment moments} : moment.Sees x → Plays (moment.effect x) moments y →
    Plays x (moment :: moments) y

theorem Plays.stores {x y : BitVec w} {moments : List (Moment w)} (store : Option (BitVec w))
    (h : Plays (store.getD x) moments y) : Plays x (store.toList.map .store ++ moments) y := by
  cases store with
  | none => exact h
  | some v => exact .cons trivial h

/-- What the stores of others leave of the word, without the call. -/
def leftByOthers : BitVec w → List (Moment w) → BitVec w
  | x, [] => x
  | x, .own _ :: moments => leftByOthers x moments
  | _, .store v :: moments => leftByOthers v moments

theorem leftByOthers_append (x : BitVec w) (early late : List (Moment w)) :
    leftByOthers x (early ++ late) = leftByOthers (leftByOthers x early) late := by
  induction early generalizing x with
  | nil => rfl
  | cons moment early ih =>
    cases moment with
    | own step => exact ih x
    | store v => exact ih v

theorem leftByOthers_stores (x : BitVec w) (store : Option (BitVec w)) :
    leftByOthers x (store.toList.map .store) = store.getD x := by
  cases store <;> rfl

def Round.moments (r : Round w) (word : BitVec w) : List (Moment w) :=
  .own (.loaded word) :: (r.afterLoad.toList.map .store ++ r.beforeAttempt.toList.map .store)

theorem timeline_round (script : List (Round w)) (word old new held : BitVec w) (committed : Bool)
    (steps : List (Step w)) :
    timeline script (.loaded word :: .attempted old new held committed :: steps) =
      (script.headD {}).moments word ++
        .own (.attempted old new held committed) :: timeline script.tail steps := by
  simp only [timeline, Round.moments, List.cons_append, List.append_assoc]

theorem leftByOthers_moments (r : Round w) (word : BitVec w) :
    leftByOthers word (r.moments word) = r.held word := by
  rw [Round.moments, leftByOthers, leftByOthers_append, leftByOthers_stores, leftByOthers_stores]
  rfl

theorem leftByOthers_of_no_store {x : BitVec w} {moments : List (Moment w)}
    (h : ∀ v, .store v ∉ moments) : leftByOthers x moments = x := by
  induction moments with
  | nil => rfl
  | cons moment moments ih =>
    cases moment with
    | own step => exact ih fun v hv => h v (List.mem_cons_of_mem _ hv)
    | store v => exact absurd List.mem_cons_self (h v)

/-- The others' stores, with `op` carried out in between at one instant of the call and nothing else
done by it, leave the word that the call leaves, and `op` answers what the call answers. -/
def AtOneInstant (op : Op w) (script : List (Round w)) (word : BitVec w) (o : Outcome w) : Prop :=
  ∃ before step after, timeline script o.steps = before ++ .own step :: after ∧
    (op.apply (leftByOthers word before)).1 = .value o.answer ∧
    leftByOthers (op.apply (leftByOthers word before)).2 after = o.word

/-! ### Rounds -/

theorem Round.held_of_commits {r : Round w} {old word : BitVec w} (h : r.commits old word = true) :
    r.held word = old := by
  rw [Round.commits, Bool.and_eq_true] at h
  exact eq_of_beq h.2

theorem Round.attempt_of_commits {r : Round w} {old word : BitVec w} (new : BitVec w)
    (h : r.commits old word = true) : r.attempt old new word = .attempted old new old true := by
  rw [Round.attempt, Round.held_of_commits h, h]

/-- A loop that stops at some values, and tries to replace any other by the next until it does. -/
inductive Rounds (next : BitVec w → BitVec w) (stop : BitVec w → Prop) :
    List (Round w) → BitVec w → Outcome w → Prop
  | stops {script word} : stop word →
    Rounds next stop script word ⟨word, (script.headD {}).loaded word, [.loaded word]⟩
  | commits {script word} : ¬stop word → (script.headD {}).commits word word = true →
    Rounds next stop script word
      ⟨word, next word, [.loaded word, .attempted word (next word) word true]⟩
  | fails {r script word o} : ¬stop word → Rounds next stop script (r.held word) o →
    Rounds next stop (r :: script) word
      (o.after [.loaded word, .attempted word (next word) (r.held word) false])

theorem rounds_compareSwap (old new : BitVec w) (script : List (Round w)) (word : BitVec w) :
    Rounds (fun _ => new) (· ≠ old) script word (compareSwap old new script word) := by
  induction script generalizing word with
  | nil =>
    by_cases h : word = old
    · subst h
      have hcommits : ({} : Round w).commits word word = true := beq_self_eq_true word
      rw [compareSwap, if_pos rfl, Round.attempt_of_commits new hcommits]
      exact .commits (fun hne => hne rfl) hcommits
    · rw [compareSwap, if_neg h]
      exact .stops h
  | cons r script ih =>
    by_cases h : word = old
    · subst h
      simp only [compareSwap, if_true]
      cases hcommits : r.commits word word with
      | true =>
        rw [if_pos rfl, Round.attempt_of_commits new hcommits]
        exact .commits (fun hne => hne rfl) hcommits
      | false =>
        rw [if_neg Bool.false_ne_true, Round.attempt, hcommits]
        exact .fails (fun hne => hne rfl) (ih (r.held word))
    · rw [compareSwap, if_neg h]
      exact .stops h

theorem rounds_fetchUpdate (update : BitVec w → BitVec w) (script : List (Round w))
    (word : BitVec w) :
    Rounds update (fun _ => False) script word (fetchUpdate update script word) := by
  induction script generalizing word with
  | nil =>
    have hcommits : ({} : Round w).commits word word = true := beq_self_eq_true word
    rw [fetchUpdate, Round.attempt_of_commits _ hcommits]
    exact .commits not_false hcommits
  | cons r script ih =>
    simp only [fetchUpdate]
    cases hcommits : r.commits word word with
    | true =>
      rw [if_pos rfl, Round.attempt_of_commits _ hcommits]
      exact .commits not_false hcommits
    | false =>
      rw [if_neg Bool.false_ne_true, Round.attempt, hcommits]
      exact .fails not_false (ih (r.held word))

section Loop

variable {next : BitVec w → BitVec w} {stop : BitVec w → Prop} {script : List (Round w)}
  {word : BitVec w} {o : Outcome w}

theorem Rounds.length_loads_le (h : Rounds next stop script word o) :
    o.loads.length ≤ script.length + 1 := by
  induction h with
  | stops | commits => exact Nat.le_add_left 1 _
  | fails hgo hrest ih => exact Nat.succ_le_succ ih

/-- No step before the last round commits, and the last one stops or commits. -/
theorem Rounds.ends (h : Rounds next stop script word o) :
    ∃ tried, (∀ s ∈ tried, s.commits = false) ∧
      ((stop o.answer ∧ o.steps = tried ++ [.loaded o.answer]) ∨
        (¬stop o.answer ∧ o.word = next o.answer ∧ o.steps = tried ++
          [.loaded o.answer, .attempted o.answer (next o.answer) o.answer true])) := by
  induction h with
  | stops hstop => exact ⟨[], nofun, .inl ⟨hstop, rfl⟩⟩
  | commits hgo hcommits => exact ⟨[], nofun, .inr ⟨hgo, rfl, rfl⟩⟩
  | @fails r script word o hgo hrest ih =>
    obtain ⟨tried, htried, hend⟩ := ih
    refine ⟨[.loaded word, .attempted word (next word) (r.held word) false] ++ tried, ?_, ?_⟩
    · intro s hs
      rcases List.mem_append.mp hs with hs | hs
      · simp only [List.mem_cons, List.not_mem_nil, or_false] at hs
        rcases hs with rfl | rfl <;> rfl
      · exact htried s hs
    · rcases hend with ⟨hstop, hsteps⟩ | ⟨hgo', hword, hsteps⟩
      · exact .inl ⟨hstop, congrArg (_ ++ ·) hsteps⟩
      · exact .inr ⟨hgo', hword, congrArg (_ ++ ·) hsteps⟩

theorem attempt_cases {seen old new held : BitVec w} {committed : Bool} {first : Step w}
    {rest before after : List (Step w)}
    (h : .loaded seen :: first :: rest = before ++ .attempted old new held committed :: after) :
    (before = [.loaded seen] ∧ first = .attempted old new held committed) ∨
      ∃ later, before = .loaded seen :: first :: later ∧
        rest = later ++ .attempted old new held committed :: after := by
  rcases before with _ | ⟨a, _ | ⟨b, later⟩⟩
  · cases h
  · cases h
    exact .inl ⟨rfl, rfl⟩
  · simp only [List.cons_append, List.cons.injEq] at h
    obtain ⟨rfl, rfl, hrest⟩ := h
    exact .inr ⟨later, rfl, hrest⟩

/-- An attempt is to replace what the load just before it saw. -/
theorem Rounds.attempt_after_load (h : Rounds next stop script word o)
    {before after : List (Step w)} {old new held : BitVec w} {committed : Bool}
    (hsteps : o.steps = before ++ .attempted old new held committed :: after) :
    ¬stop old ∧ new = next old ∧ before.getLast? = some (.loaded old) := by
  induction h generalizing before with
  | stops hstop =>
    rcases before with _ | ⟨a, before⟩
    · cases hsteps
    · simp at hsteps
  | commits hgo hcommits =>
    rcases attempt_cases hsteps with ⟨rfl, hfirst⟩ | ⟨later, -, hrest⟩
    · cases hfirst
      exact ⟨hgo, rfl, rfl⟩
    · simp at hrest
  | fails hgo hrest ih =>
    rcases attempt_cases hsteps with ⟨rfl, hfirst⟩ | ⟨later, rfl, hlater⟩
    · cases hfirst
      exact ⟨hgo, rfl, rfl⟩
    · obtain ⟨hgo', hnext, hlast⟩ := ih hlater
      refine ⟨hgo', hnext, ?_⟩
      rw [List.getLast?_cons, List.getLast?_cons, hlast]
      rfl

theorem Rounds.plays (h : Rounds next stop script word o) :
    Plays word (timeline script o.steps) o.word := by
  induction h with
  | @stops script word hstop => exact .cons rfl (.stores (script.headD {}).afterLoad .nil)
  | @commits script word hgo hcommits =>
    have hheld := Round.held_of_commits hcommits
    refine .cons rfl (.stores (script.headD {}).afterLoad (.stores _ (.cons ?_ .nil)))
    exact ⟨hheld.symm, fun _ => hheld⟩
  | @fails r script word o hgo hrest ih =>
    exact .cons rfl (.stores r.afterLoad (.stores r.beforeAttempt (.cons ⟨rfl, nofun⟩ ih)))

/-- A loop comes to the same as an operation that replaces a value by the next unless it is to
stop there, carried out when the loop stops or commits. -/
theorem Rounds.atOneInstant (h : Rounds next stop script word o) {op : Op w}
    (hstop : ∀ x, stop x → op.apply x = (.value x, x))
    (hgo : ∀ x, ¬stop x → op.apply x = (.value x, next x)) :
    AtOneInstant op script word o := by
  induction h with
  | @stops script word hs =>
    have happly : op.apply (leftByOthers word []) = (.value word, word) := hstop word hs
    refine ⟨[], .loaded word, (script.headD {}).afterLoad.toList.map .store ++ [], rfl, ?_, ?_⟩
    · rw [happly]
    · rw [happly, List.append_nil, leftByOthers_stores]
      rfl
  | @commits script word hg hcommits =>
    have hheld := Round.held_of_commits hcommits
    have hleft := (leftByOthers_moments (script.headD {}) word).trans hheld
    refine ⟨(script.headD {}).moments word, .attempted word (next word) word true, [],
      timeline_round script word word (next word) word true [], ?_, ?_⟩
    · rw [hleft, hgo word hg]
    · rw [hleft, hgo word hg]
      rfl
  | @fails r script word o hg hrest ih =>
    -- The instant is that of the later rounds, which begin with what the others left.
    obtain ⟨before, step, after, htimeline, hanswer, hword⟩ := ih
    refine ⟨r.moments word ++ .own (.attempted word (next word) (r.held word) false) :: before,
      step, after, ?_, ?_, ?_⟩
    · rw [List.append_assoc, List.cons_append, ← htimeline]
      exact timeline_round (r :: script) word word (next word) (r.held word) false o.steps
    · rw [leftByOthers_append, leftByOthers_moments]
      exact hanswer
    · rw [leftByOthers_append, leftByOthers_moments]
      exact hword

end Loop

end Interlock.Exchange
