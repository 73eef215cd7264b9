import Interlock.Proofs.Fence.Sequential

/-!
# The notes of an initialization say what its code came to

A `Path` is what a program may do until it ends, whatever it sees of the policy. Every path of an
initialization ends in the note of the very value that it hands back, and on a path that runs the
detector the note of what was detected comes right after a path of the detector, with its answer.
-/

namespace Interlock.Fence

open Program

variable {α β : Type}

/-! ### Paths -/

/-- What a program may do until it ends with a result, whatever it sees. -/
inductive Program.Path : Program α → List Happening → α → Prop
  | done (a : α) : Path (.done a) [] a
  | load {next hs a} (seen : State) : Path (next seen) hs a →
    Path (.load next) (.loaded seen :: hs) a
  | store {s next hs a} : Path next hs a → Path (.store s next) (.stored s :: hs) a
  | compareExchange {old new next hs a} (seen : State) : Path (next seen) hs a →
    Path (.compareExchange old new next) (.exchanged old new seen :: hs) a
  | note {n next hs a} : Path next hs a → Path (.note n next) (.noted n :: hs) a

namespace Program

theorem exists_path (p : Program α) : ∃ hs a, p.Path hs a := by
  induction p with
  | done a => exact ⟨[], a, .done a⟩
  | load next ih =>
    obtain ⟨hs, a, h⟩ := ih .uninitialized
    exact ⟨_, a, .load .uninitialized h⟩
  | store s next ih =>
    obtain ⟨hs, a, h⟩ := ih
    exact ⟨_, a, .store h⟩
  | compareExchange old new next ih =>
    obtain ⟨hs, a, h⟩ := ih .uninitialized
    exact ⟨_, a, .compareExchange .uninitialized h⟩
  | note n next ih =>
    obtain ⟨hs, a, h⟩ := ih
    exact ⟨_, a, .note h⟩

theorem Path.of_step {p rest : Program α} {s s' : State} {happening : Happening}
    {hs : List Happening} {a : α} (hstep : p.step s = some (happening, rest, s'))
    (h : rest.Path hs a) : p.Path (happening :: hs) a := by
  cases p with
  | done a => cases hstep
  | load next =>
    cases hstep
    exact .load s h
  | store s'' next =>
    cases hstep
    exact .store h
  | compareExchange old new next =>
    cases hstep
    exact .compareExchange s h
  | note n next =>
    cases hstep
    exact .note h

/-- A path of two programs is a path of the first and one of the second from its result. -/
theorem exists_of_path_bind {p : Program α} {f : α → Program β} {hs : List Happening} {b : β}
    (h : (p.bind f).Path hs b) :
    ∃ early a late, p.Path early a ∧ (f a).Path late b ∧ hs = early ++ late := by
  induction p generalizing hs with
  | done a => exact ⟨[], a, hs, .done a, h, rfl⟩
  | load next ih =>
    cases h with
    | load seen h =>
      obtain ⟨early, a, late, hearly, hlate, rfl⟩ := ih seen h
      exact ⟨_, a, late, .load seen hearly, hlate, rfl⟩
  | store s next ih =>
    cases h with
    | store h =>
      obtain ⟨early, a, late, hearly, hlate, rfl⟩ := ih h
      exact ⟨_, a, late, .store hearly, hlate, rfl⟩
  | compareExchange old new next ih =>
    cases h with
    | compareExchange seen h =>
      obtain ⟨early, a, late, hearly, hlate, rfl⟩ := ih seen h
      exact ⟨_, a, late, .compareExchange seen hearly, hlate, rfl⟩
  | note n next ih =>
    cases h with
    | note h =>
      obtain ⟨early, a, late, hearly, hlate, rfl⟩ := ih h
      exact ⟨_, a, late, .note hearly, hlate, rfl⟩

end Program

/-! ### Paths of an initialization -/

/-- How an initialization goes on from its detector's answer when its exchange sees `seen`. -/
def concluding (needed : Bool) (seen : State) : List Happening :=
  .exchanged .uninitialized (.ofBool needed) seen ::
    if seen = .uninitialized then [.noted (.event (.initialized needed))] else []

theorem path_returned {on b : Bool} {hs : List Happening}
    (h : (Program.note (.returned on) (.done on)).Path hs b) :
    b = on ∧ hs = [.noted (.returned on)] := by
  cases h with
  | note h =>
    cases h with
    | done => exact ⟨rfl, rfl⟩

theorem path_conclusion {needed on : Bool} {hs : List Happening}
    (h : (conclusion needed).Path hs on) : ∃ seen,
      on = (if seen = .uninitialized then needed else seen.useFence) ∧
      hs = [.noted (.detected needed)] ++ concluding needed seen ++ [.noted (.returned on)] := by
  cases h with
  | note h =>
    cases h with
    | compareExchange seen h =>
      refine ⟨seen, ?_⟩
      dsimp only at h
      by_cases hseen : seen = .uninitialized
      · rw [if_pos hseen] at h ⊢
        cases h with
        | note h =>
          obtain ⟨rfl, rfl⟩ := path_returned h
          rw [concluding, if_pos hseen]
          exact ⟨rfl, rfl⟩
      · rw [if_neg hseen] at h ⊢
        obtain ⟨rfl, rfl⟩ := path_returned h
        rw [concluding, if_neg hseen]
        exact ⟨rfl, rfl⟩

/-- An initialization hands back what it saw at a second look, or it runs its detector and hands
back what its exchange came to. The last thing that it does is to note this value. -/
theorem Request.path_initWith {detect : Detector} {on : Bool} {hs : List Happening}
    (h : (Request.initWith detect).program.Path hs on) :
    (∃ seen again, seen ≠ .uninitialized ∧ on = again.useFence ∧
      hs = [.noted .began, .loaded seen, .loaded again] ++ [.noted (.returned on)]) ∨
    ∃ inside needed seen, detect.program.Path inside needed ∧
      on = (if seen = .uninitialized then needed else seen.useFence) ∧
      hs = [.noted .began, .loaded .uninitialized, .noted .detecting] ++ inside ++
        [.noted (.detected needed)] ++ concluding needed seen ++ [.noted (.returned on)] := by
  rw [Request.program_initWith] at h
  cases h with
  | note h =>
    cases h with
    | load seen h =>
      dsimp only at h
      by_cases hseen : seen = .uninitialized
      · rw [if_pos hseen] at h
        subst hseen
        right
        cases h with
        | note h =>
          obtain ⟨inside, needed, late, hinside, hlate, rfl⟩ := exists_of_path_bind h
          obtain ⟨seen, hon, rfl⟩ := path_conclusion hlate
          exact ⟨inside, needed, seen, hinside, hon, by simp⟩
      · rw [if_neg hseen] at h
        left
        cases h with
        | load again h =>
          obtain ⟨rfl, rfl⟩ := path_returned h
          exact ⟨seen, again, hseen, rfl, rfl⟩

/-! ### What notes stand for -/

/-- A note of what was detected or returned stands at the end of a path of a detector or of an
initialization, and it notes the value that was handed back there. -/
def Backed (past : List Happening) : Happening → Prop
  | .noted (.detected needed) => ∃ before inside, ∃ detect : Detector,
    past = before ++ [.noted .detecting] ++ inside ∧ detect.program.Path inside needed
  | .noted (.returned on) => ∃ before call detect, past = before ++ call ∧
    (Request.initWith detect).program.Path (call ++ [.noted (.returned on)]) on
  | _ => True

/-- Happenings in order, each note among which is backed by what was before it. -/
def Honest (hs : List Happening) : Prop :=
  ∀ past happening later, hs = past ++ happening :: later → Backed past happening

theorem Backed.after {past : List Happening} {happening : Happening} (h : Backed past happening)
    (before : List Happening) : Backed (before ++ past) happening := by
  unfold Backed at h ⊢
  split at h
  · obtain ⟨start, inside, detect, rfl, hinside⟩ := h
    exact ⟨before ++ start, inside, detect, by simp only [List.append_assoc], hinside⟩
  · obtain ⟨start, call, detect, rfl, hcall⟩ := h
    exact ⟨before ++ start, call, detect, (List.append_assoc ..).symm, hcall⟩
  · trivial

namespace Honest

theorem of_append {early late : List Happening} (h : Honest (early ++ late)) : Honest early := by
  rintro past happening later rfl
  exact h past happening (later ++ late) (List.append_assoc past (happening :: later) late)

theorem append_of_backed {early late : List Happening} (h : Honest early)
    (hlate : ∀ past happening later, late = past ++ happening :: later →
      Backed (early ++ past) happening) : Honest (early ++ late) := by
  intro past happening later heq
  rcases cases_of_append_eq heq with ⟨rest, hrest, -⟩ | ⟨rest, rfl, hrest⟩
  · exact h past happening rest hrest
  · exact hlate rest happening later hrest

theorem append {early late : List Happening} (h : Honest early) (h' : Honest late) :
    Honest (early ++ late) :=
  h.append_of_backed fun past happening later heq => (h' past happening later heq).after early

theorem concat {hs : List Happening} {happening : Happening} (h : Honest hs)
    (hback : Backed hs happening) : Honest (hs ++ [happening]) := by
  refine h.append_of_backed fun past x later heq => ?_
  cases past with
  | nil =>
    obtain ⟨rfl, -⟩ := List.cons.inj heq
    rwa [List.append_nil]
  | cons y past => exact absurd (List.cons.inj heq).2 (by simp)

theorem of_silent {hs : List Happening} (h : ∀ x ∈ hs, ∀ past, Backed past x) : Honest hs := by
  rintro past happening later rfl
  exact h happening (List.mem_append_right past List.mem_cons_self) past

end Honest

theorem honest_concluding (needed : Bool) (seen : State) : Honest (concluding needed seen) := by
  refine .of_silent fun x hx past => ?_
  rcases List.mem_cons.mp hx with rfl | hx
  · trivial
  · split at hx
    · rw [List.mem_singleton.mp hx]
      trivial
    · cases hx

mutual

theorem Detector.honest_of_path (d : Detector) {needed : Bool} {hs : List Happening}
    (h : d.program.Path hs needed) : Honest hs := by
  cases d with
  | answer needed' =>
    rw [Detector.program] at h
    cases h with
    | done => exact .of_silent nofun
  | look next =>
    rw [Detector.program] at h
    cases h with
    | load seen h =>
      have hlooked : Honest [.loaded seen] := .of_silent (by simp [Backed])
      exact hlooked.append ((next seen).honest_of_path h)
  | ask request next =>
    rw [Detector.program] at h
    obtain ⟨early, on, late, hearly, hlate, rfl⟩ := exists_of_path_bind h
    exact (request.honest_of_path hearly).append ((next on).honest_of_path hlate)

theorem Request.honest_of_path (r : Request) {on : Bool} {hs : List Happening}
    (h : r.program.Path hs on) : Honest hs := by
  cases r with
  | setFence enabled =>
    rw [Request.program] at h
    cases h with
    | note h =>
      cases h with
      | store h =>
        cases h with
        | done => exact .of_silent (by simp [Backed])
  | initWith detect =>
    obtain ⟨seen, again, -, -, rfl⟩ | ⟨inside, needed, seen, hinside, -, rfl⟩ :=
      Request.path_initWith h
    · exact .concat (.of_silent (by simp [Backed])) ⟨[], _, detect, rfl, h⟩
    · have hbegun : Honest [.noted .began, .loaded .uninitialized, .noted .detecting] :=
        .of_silent (by simp [Backed])
      have hanswer : Backed ([.noted .began, .loaded .uninitialized, .noted .detecting] ++ inside)
          (.noted (.detected needed)) :=
        ⟨[.noted .began, .loaded .uninitialized], inside, detect, rfl, hinside⟩
      have hdetected := (hbegun.append (detect.honest_of_path hinside)).concat hanswer
      exact (hdetected.append (honest_concluding needed seen)).concat ⟨[], _, detect, rfl, h⟩

end

theorem honest_of_path_programs (requests : List Request) {answers : List Bool}
    {hs : List Happening} (h : (Request.programs requests).Path hs answers) : Honest hs := by
  induction requests generalizing hs answers with
  | nil =>
    cases h with
    | done => exact .of_silent nofun
  | cons r rest ih =>
    rw [Request.programs] at h
    obtain ⟨early, on, late, hearly, hlate, rfl⟩ := exists_of_path_bind h
    obtain ⟨middle, answers', last, hmiddle, hlast, rfl⟩ := exists_of_path_bind hlate
    cases hlast with
    | done =>
      rw [List.append_nil]
      exact (r.honest_of_path hearly).append (ih hmiddle)

end Interlock.Fence
