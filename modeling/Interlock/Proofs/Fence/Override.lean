import Interlock.Proofs.Fence.Notes

/-!
# A forced decision always wins

Whatever is left of a thread's program does only what is fair, however the other threads go on in
between: `Safe` says so, by recursion on the program. The code of requests and detectors is safe,
one within the other, and so is each thread of a race; its trace is therefore lawful, and the laws
of a policy hold of it. Each thread moreover goes along a path of its requests' code, so what its
notes say was handed back was handed back.
-/

namespace Interlock.Fence

open Program

namespace Trace

/-! ### How a trace goes on -/

/-- Only other threads went on. -/
structure Extends (t : Nat) (past now : Trace) : Prop where
  lawful : Lawful now
  others : ∃ others, now = others ++ past ∧ ∀ mark ∈ others, mark.1 ≠ t

theorem Extends.refl (t : Nat) {past : Trace} (h : Lawful past) : Extends t past past :=
  ⟨h, [], rfl, nofun⟩

theorem Extends.trans {t : Nat} {a b c : Trace} (h : Extends t a b) (h' : Extends t b c) :
    Extends t a c := by
  obtain ⟨early, rfl, hearly⟩ := h.others
  obtain ⟨late, rfl, hlate⟩ := h'.others
  refine ⟨h'.lawful, late ++ early, (List.append_assoc ..).symm, fun mark hm => ?_⟩
  rcases List.mem_append.mp hm with hm | hm
  · exact hlate mark hm
  · exact hearly mark hm

theorem Extends.suffix {t : Nat} {past now : Trace} (h : Extends t past now) : past <:+ now := by
  obtain ⟨others, rfl, -⟩ := h.others
  exact List.suffix_append others past

theorem Extends.latest_eq {t : Nat} {past now : Trace} (h : Extends t past now) :
    latest t now = latest t past := by
  obtain ⟨others, rfl, hne⟩ := h.others
  have hnone : others.find? (fun mark => mark.1 = t) = none :=
    List.find?_eq_none.mpr fun mark hm => by simpa using hne mark hm
  rw [latest, latest, List.find?_append, hnone, Option.none_or]

/-- Thread `t` went on by accesses, and by calls that have returned; the others went on too. -/
structure Since (t : Nat) (past now : Trace) : Prop where
  lawful : Lawful now
  inside : ∃ inside, now = inside ++ past ∧ Balanced t inside

theorem Since.refl (t : Nat) {past : Trace} (h : Lawful past) : Since t past past :=
  ⟨h, [], rfl, .nil⟩

theorem Since.trans {t : Nat} {a b c : Trace} (h : Since t a b) (h' : Since t b c) :
    Since t a c := by
  obtain ⟨early, rfl, hearly⟩ := h.inside
  obtain ⟨late, rfl, hlate⟩ := h'.inside
  exact ⟨h'.lawful, late ++ early, (List.append_assoc ..).symm, hlate.append hearly⟩

theorem Since.suffix {t : Nat} {past now : Trace} (h : Since t past now) : past <:+ now := by
  obtain ⟨inside, rfl, -⟩ := h.inside
  exact List.suffix_append inside past

theorem Extends.since {t : Nat} {past now : Trace} (h : Extends t past now) : Since t past now := by
  obtain ⟨others, rfl, hne⟩ := h.others
  exact ⟨h.lawful, others, rfl, .of_others hne⟩

/-- A mark of the thread's own that begins and ends no call. -/
theorem Since.own {t : Nat} {past now : Trace} (h : Since t past now) (happening : Happening)
    (hfair : Fair t now happening) (hr : ∀ on, happening ≠ .noted (.returned on))
    (hb : happening ≠ .noted .began) : Since t past ((t, happening) :: now) := by
  obtain ⟨inside, rfl, hin⟩ := h.inside
  refine ⟨.cons h.lawful hfair, (t, happening) :: inside, rfl, .other ?_ ?_ hin⟩
  · exact fun on he => hr on (Prod.mk.inj he).2
  · exact fun he => hb (Prod.mk.inj he).2

/-- A call that returns what was true at an instant of it. -/
theorem Since.call {t : Nat} {early now : Trace} {on : Bool}
    (h : Since t ((t, .noted .began) :: early) now)
    (hwas : Was on ((t, .noted .began) :: early) now) :
    Fair t now (.noted (.returned on)) ∧
      Since t early ((t, .noted (.returned on)) :: now) := by
  obtain ⟨inside, rfl, hin⟩ := h.inside
  have hfair : Fair t _ (.noted (.returned on)) := ⟨inside, early, rfl, hin, hwas⟩
  refine ⟨hfair, .cons h.lawful hfair,
    (t, .noted (.returned on)) :: (inside ++ [(t, .noted .began)]), ?_, ?_⟩
  · rw [List.cons_append, List.append_assoc, List.singleton_append]
  · exact .call on hin .nil

end Trace

open Trace

/-! ### Safe programs -/

/-- What is left of the program of thread `t` after the trace `past` does only what is fair, and
comes to `post`, whatever the other threads do in between. -/
def Program.Safe {α : Type} (t : Nat) (post : α → Trace → Prop) : Program α → Trace → Prop
  | .done a, past => post a past
  | .load next, past => ∀ now, Extends t past now →
    (next (told now)).Safe t post ((t, .loaded (told now)) :: now)
  | .store s next, past => ∀ now, Extends t past now →
    Fair t now (.stored s) ∧ next.Safe t post ((t, .stored s) :: now)
  | .compareExchange old new next, past => ∀ now, Extends t past now →
    Fair t now (.exchanged old new (told now)) ∧
      (next (told now)).Safe t post ((t, .exchanged old new (told now)) :: now)
  | .note n next, past => ∀ now, Extends t past now →
    Fair t now (.noted n) ∧ next.Safe t post ((t, .noted n) :: now)

namespace Program

variable {α β : Type} {t : Nat} {past now : Trace}

theorem Safe.bind {post : β → Trace → Prop} {f : α → Program β} {p : Program α}
    (h : p.Safe t (fun a now => (f a).Safe t post now) past) : (p.bind f).Safe t post past := by
  induction p generalizing past with
  | done a => exact h
  | load next ih => exact fun now hnow => ih _ (h now hnow)
  | store s next ih => exact fun now hnow => ⟨(h now hnow).1, ih (h now hnow).2⟩
  | compareExchange old new next ih => exact fun now hnow => ⟨(h now hnow).1, ih _ (h now hnow).2⟩
  | note n next ih => exact fun now hnow => ⟨(h now hnow).1, ih (h now hnow).2⟩

/-- A safe program stays safe while the other threads go on. -/
theorem Safe.extend {p : Program α} (h : p.Safe t (fun _ _ => True) past)
    (hnow : Extends t past now) : p.Safe t (fun _ _ => True) now := by
  cases p with
  | done a => trivial
  | _ => exact fun later hlater => h later (hnow.trans hlater)

/-- The next access or note of a safe program is fair, and the rest of it is safe. -/
theorem Safe.step {post : α → Trace → Prop} {p rest : Program α} {happening : Happening}
    {s : State} (h : p.Safe t post past) (hpast : Lawful past)
    (hs : p.step (told past) = some (happening, rest, s)) :
    Fair t past happening ∧ rest.Safe t post ((t, happening) :: past) ∧
      s = told ((t, happening) :: past) := by
  have hnow := Extends.refl t hpast
  cases p with
  | done a => cases hs
  | load next =>
    cases hs
    exact ⟨rfl, h past hnow, rfl⟩
  | store s' next =>
    cases hs
    exact ⟨(h past hnow).1, (h past hnow).2, rfl⟩
  | compareExchange old new next =>
    cases hs
    exact ⟨(h past hnow).1, (h past hnow).2, rfl⟩
  | note n next =>
    cases hs
    exact ⟨(h past hnow).1, (h past hnow).2, rfl⟩

end Program

/-! ### Requests and detectors -/

section Requests

variable {t : Nat} {early past : Trace} {post : Bool → Trace → Prop}

/-- The end of an initialization that returns what was true at an instant of it. -/
theorem safe_returned {on : Bool} (h : Since t ((t, .noted .began) :: early) past)
    (hwas : Was on ((t, .noted .began) :: early) past)
    (hpost : ∀ on now, Since t early now → post on now) :
    (Program.note (.returned on) (.done on)).Safe t post past := by
  intro now hnow
  obtain ⟨hfair, hsince⟩ := (h.trans hnow.since).call (hwas.mono hnow.suffix)
  exact ⟨hfair, hpost on _ hsince⟩

/-- An initialization that found the policy decided looks a second time. By then the policy may
have been forced, but it is still decided. -/
theorem safe_decided (h : Since t ((t, .noted .began) :: early) past)
    (hpast : told past ≠ .uninitialized)
    (hpost : ∀ on now, Since t early now → post on now) :
    (Program.load fun s =>
      .note (.returned (s = .enabled)) (.done (decide (s = .enabled)))).Safe t post past := by
  intro now hnow
  have hsince := h.trans hnow.since
  have hne := hnow.lawful.told_ne hnow.suffix hpast
  refine safe_returned (hsince.own (.loaded (told now)) rfl nofun nofun) ?_ hpost
  exact ⟨now, hsince.suffix, List.suffix_cons _ _, hne, decide_eq_true_iff⟩

/-- An initialization whose detector has answered installs the answer, unless somebody decided
meanwhile. -/
theorem safe_detected (needed : Bool) (h : Since t ((t, .noted .began) :: early) past)
    (hpost : ∀ on now, Since t early now → post on now) :
    (Program.note (.detected needed) <| .compareExchange .uninitialized (.ofBool needed) fun seen =>
      if seen = .uninitialized then
        .note (.event (.initialized needed)) (.note (.returned needed) (.done needed))
      else
        .note (.returned (seen = .enabled)) (.done (decide (seen = .enabled)))).Safe t post
      past := by
  intro found hfound
  refine ⟨trivial, fun now hnow => ?_⟩
  have hdetected := (h.trans hfound.since).own (.noted (.detected needed)) trivial nofun nofun
  have hlatest : latest t now = some (.noted (.detected needed)) := by
    rw [hnow.latest_eq, latest, List.find?_cons_of_pos (by simp)]
    rfl
  have hfair : Fair t now (.exchanged .uninitialized (.ofBool needed) (told now)) :=
    ⟨rfl, rfl, needed, rfl, hlatest⟩
  have hsince := hdetected.trans hnow.since
  have hexchanged := hsince.own _ hfair nofun nofun
  refine ⟨hfair, ?_⟩
  dsimp only
  by_cases hnone : told now = .uninitialized
  · rw [if_pos hnone]
    -- Right after the exchange the decision is the detector's answer.
    have htold : told ((t, .exchanged .uninitialized (.ofBool needed) (told now)) :: now) =
        .ofBool needed := if_pos hnone
    have hwas : Was needed ((t, .noted .began) :: early)
        ((t, .exchanged .uninitialized (.ofBool needed) (told now)) :: now) := by
      refine ⟨_, hexchanged.suffix, List.suffix_refl _, ?_, ?_⟩
      · rw [htold]
        exact State.ofBool_ne_uninitialized needed
      · rw [htold]
        cases needed <;> decide
    intro later hlater
    have hnoted := (hexchanged.trans hlater.since).own (.noted (.event (.initialized needed)))
      trivial nofun nofun
    exact ⟨trivial, safe_returned hnoted
      (hwas.mono (hlater.suffix.trans (List.suffix_cons _ _))) hpost⟩
  · rw [if_neg hnone]
    refine safe_returned hexchanged ?_ hpost
    exact ⟨now, hsince.suffix, List.suffix_cons _ _, hnone, decide_eq_true_iff⟩

end Requests

mutual

/-- A detector is safe if the code that goes on from its answer is, once its own calls have
returned. -/
theorem Detector.safe (d : Detector) {t : Nat} {past : Trace} {post : Bool → Trace → Prop}
    (hpast : Lawful past) (hpost : ∀ needed now, Since t past now → post needed now) :
    d.program.Safe t post past := by
  cases d with
  | answer needed =>
    rw [Detector.program]
    exact hpost needed past (.refl t hpast)
  | look next =>
    rw [Detector.program]
    intro now hnow
    have hsince := hnow.since.own (.loaded (told now)) rfl nofun nofun
    exact (next (told now)).safe hsince.lawful fun needed later hlater =>
      hpost needed later (hsince.trans hlater)
  | ask request next =>
    rw [Detector.program]
    refine Safe.bind (request.safe fun on now hnow => ?_)
    exact (next on).safe hnow.lawful fun needed later hlater =>
      hpost needed later (hnow.trans hlater)

/-- A request is safe if the code that goes on from its answer is. -/
theorem Request.safe (r : Request) {t : Nat} {past : Trace} {post : Bool → Trace → Prop}
    (hpost : ∀ on now, Since t past now → post on now) : r.program.Safe t post past := by
  cases r with
  | setFence enabled =>
    rw [Request.program]
    intro now hnow
    have hnoted := hnow.since.own (.noted (.event (.set enabled))) trivial nofun nofun
    refine ⟨trivial, fun later hlater => ?_⟩
    have hfair : Fair t later (.stored (.ofBool enabled)) := ⟨enabled, rfl⟩
    exact ⟨hfair, hpost enabled _ ((hnoted.trans hlater.since).own _ hfair nofun nofun)⟩
  | initWith detect =>
    rw [Request.program]
    intro early hearly
    have hbegan : Lawful ((t, .noted .began) :: early) := .cons hearly.lawful trivial
    have hcall (on : Bool) (now : Trace) (h : Since t early now) : post on now :=
      hpost on now (hearly.since.trans h)
    refine ⟨trivial, fun now hnow => ?_⟩
    have hsince := (Since.refl t hbegan).trans hnow.since
    have hloaded := hsince.own (.loaded (told now)) rfl nofun nofun
    dsimp only
    by_cases hnone : told now = .uninitialized
    · rw [if_pos hnone]
      intro later hlater
      have hdetecting := (hloaded.trans hlater.since).own (.noted .detecting) trivial nofun nofun
      refine ⟨trivial, Safe.bind (detect.safe hdetecting.lawful fun needed found hfound => ?_)⟩
      exact safe_detected needed (hdetecting.trans hfound) hcall
    · rw [if_neg hnone]
      exact safe_decided hloaded hnone hcall

end

theorem safe_programs (requests : List Request) (t : Nat) {past : Trace} (hpast : Lawful past) :
    (Request.programs requests).Safe t (fun _ _ => True) past := by
  induction requests generalizing past with
  | nil => trivial
  | cons r rest ih =>
    rw [Request.programs]
    exact Safe.bind (r.safe fun b now hnow => Safe.bind (ih hnow.lawful))

/-! ### Races -/

/-- A race in which everything that happened was fair, and whose threads are safe. -/
structure Sound (r : Race) : Prop where
  lawful : Lawful r.trace
  state : r.state = told r.trace
  safe : ∀ (t : Nat) (p : Program (List Bool)), r.threads[t]? = some p →
    p.Safe t (fun _ _ => True) r.trace

theorem sound_start (requests : List (List Request)) : Sound (Race.start requests) := by
  refine ⟨.nil, rfl, fun t p hp => ?_⟩
  rw [Race.start, List.getElem?_map, Option.map_eq_some_iff] at hp
  obtain ⟨rs, -, rfl⟩ := hp
  exact safe_programs rs t .nil

/-- A step of a race changes nothing, or it is the next access or note of a thread. -/
theorem Race.step_cases (r : Race) (t : Nat) : r.step t = r ∨ ∃ p happening rest s,
    r.threads[t]? = some p ∧ p.step r.state = some (happening, rest, s) ∧
      r.step t = ⟨s, r.threads.set t rest, (t, happening) :: r.trace⟩ := by
  cases hp : r.threads[t]? with
  | none => exact .inl (by simp only [Race.step, hp])
  | some p =>
    cases hs : p.step r.state with
    | none => exact .inl (by simp only [Race.step, hp, hs])
    | some next =>
      obtain ⟨happening, rest, s⟩ := next
      exact .inr ⟨p, happening, rest, s, rfl, hs, by simp only [Race.step, hp, hs]⟩

theorem Sound.step {r : Race} (h : Sound r) (t : Nat) : Sound (r.step t) := by
  obtain heq | ⟨p, happening, rest, s, hp, hs, heq⟩ := r.step_cases t
  · rw [heq]
    exact h
  rw [h.state] at hs
  obtain ⟨hfair, hrest, hstate⟩ := (h.safe t p hp).step h.lawful hs
  have hlawful : Lawful ((t, happening) :: r.trace) := .cons h.lawful hfair
  rw [heq]
  refine ⟨hlawful, hstate, fun u q hq => ?_⟩
  by_cases hut : u = t
  · subst hut
    rw [List.getElem?_set_self (List.getElem?_eq_some_iff.mp hp).1] at hq
    cases hq
    exact hrest
  · -- To any other thread the step is one of those that its safety allows for.
    rw [List.getElem?_set_ne (Ne.symm hut)] at hq
    refine (h.safe u q hq).extend ⟨hlawful, [(t, happening)], rfl, fun mark hm => ?_⟩
    rw [List.mem_singleton.mp hm]
    exact Ne.symm hut

theorem Sound.run {r : Race} (h : Sound r) (schedule : List Nat) : Sound (r.run schedule) := by
  induction schedule generalizing r with
  | nil => exact h
  | cons t rest ih => exact ih (h.step t)

theorem suffix_trace_step (r : Race) (t : Nat) : r.trace <:+ (r.step t).trace := by
  obtain heq | ⟨p, happening, rest, s, -, -, heq⟩ := r.step_cases t
  · exact heq.symm ▸ List.suffix_refl _
  · exact heq.symm ▸ List.suffix_cons _ _

theorem suffix_trace_run (r : Race) (schedule : List Nat) :
    r.trace <:+ (r.run schedule).trace := by
  induction schedule generalizing r with
  | nil => exact List.suffix_refl _
  | cons t rest ih => exact (suffix_trace_step r t).trans (ih (r.step t))

/-! ### What threads note -/

/-- What a thread did, in order. -/
def Trace.did (t : Nat) (trace : Trace) : List Happening :=
  ((trace.filter fun mark => mark.1 = t).map Prod.snd).reverse

theorem did_cons_self (t : Nat) (happening : Happening) (trace : Trace) :
    did t ((t, happening) :: trace) = did t trace ++ [happening] := by
  rw [did, List.filter_cons_of_pos (by simp), List.map_cons, List.reverse_cons, did]

theorem did_cons_of_ne {t u : Nat} (h : t ≠ u) (happening : Happening) (trace : Trace) :
    did u ((t, happening) :: trace) = did u trace := by
  rw [did, List.filter_cons_of_neg (by simpa using h), did]

/-- What is left of a thread's program; a thread that does not exist has nothing left. -/
def Race.left (r : Race) (t : Nat) : Program (List Bool) := r.threads[t]?.getD (.done [])

/-- Whatever a thread may still do, with what it did it makes a path of its requests' code. -/
def Race.Follows (requests : List (List Request)) (r : Race) : Prop :=
  ∀ t hs answers, (r.left t).Path hs answers →
    (Request.programs (requests[t]?.getD [])).Path (did t r.trace ++ hs) answers

theorem follows_start (requests : List (List Request)) :
    (Race.start requests).Follows requests := by
  intro t hs answers h
  have hleft : (Race.start requests).left t = Request.programs (requests[t]?.getD []) := by
    rw [Race.left, Race.start, List.getElem?_map]
    cases requests[t]? <;> rfl
  rwa [hleft] at h

theorem Race.Follows.step {requests : List (List Request)} {r : Race} (h : r.Follows requests)
    (t : Nat) : (r.step t).Follows requests := by
  obtain heq | ⟨p, happening, rest, s, hp, hs, heq⟩ := r.step_cases t
  · rw [heq]
    exact h
  intro u later answers hpath
  rw [heq] at hpath ⊢
  rw [Race.left] at hpath
  by_cases hut : u = t
  · subst hut
    rw [List.getElem?_set_self (List.getElem?_eq_some_iff.mp hp).1, Option.getD_some] at hpath
    have hleft : r.left u = p := by rw [Race.left, hp, Option.getD_some]
    rw [did_cons_self, List.append_assoc]
    exact h u (happening :: later) answers (hleft ▸ hpath.of_step hs)
  · rw [List.getElem?_set_ne (Ne.symm hut)] at hpath
    rw [did_cons_of_ne (Ne.symm hut)]
    exact h u later answers hpath

theorem Race.Follows.run {requests : List (List Request)} {r : Race} (h : r.Follows requests)
    (schedule : List Nat) : (r.run schedule).Follows requests := by
  induction schedule generalizing r with
  | nil => exact h
  | cons t rest ih => exact ih (h.step t)

theorem Race.Follows.honest {requests : List (List Request)} {r : Race} (h : r.Follows requests)
    (t : Nat) : Honest (did t r.trace) := by
  -- The thread may be amid a call, so its path is completed in some way.
  obtain ⟨hs, answers, hpath⟩ := exists_path (r.left t)
  exact (honest_of_path_programs _ (h t hs answers hpath)).of_append

/-! ### Main result -/

/-- What holds of a policy at any moment of a race on it. -/
structure Overriding (r : Race) : Prop where
  /-- The decision is what the trace tells. -/
  told : r.state = told r.trace
  /-- A decision is never taken back. -/
  stays : r.state ≠ .uninitialized → ∀ more, (r.run more).state ≠ .uninitialized
  /-- After the first store the decision is that of the latest. -/
  forced : ∀ s, forced r.trace = some s → r.state = s
  /-- At most one initialization installs what it found. -/
  once : (r.trace.filter installs).length ≤ 1
  /-- It does so before any store, it installs what its detector answered just before, and that
  stays the decision until a store. -/
  installed : ∀ late t old new early, r.trace = late ++ (t, .exchanged old new old) :: early →
    Trace.forced early = none ∧ (Trace.forced late = none → r.state = new) ∧
      ∃ needed, new = .ofBool needed ∧ latest t early = some (.noted (.detected needed))
  /-- What an initialization returns was true at an instant of the call, when the policy was
  decided. -/
  returned : ∀ t on past, (t, .noted (.returned on)) :: past <:+ r.trace → ∃ inside early,
    past = inside ++ (t, .noted .began) :: early ∧ Balanced t inside ∧
      Was on ((t, .noted .began) :: early) past
  /-- A thread notes as detected and returned what its detectors and initializations hand back. -/
  noted : ∀ t, Honest (did t r.trace)

/-- Whatever the requests, the detectors and the schedule, a forced decision always wins. -/
theorem override_wins (requests : List (List Request)) (schedule : List Nat) :
    Overriding ((Race.start requests).run schedule) := by
  have h := (sound_start requests).run schedule
  refine ⟨h.state, ?_, ?_, h.lawful.length_installs_le, ?_, ?_,
    ((follows_start requests).run schedule).honest⟩
  · intro hne more
    rw [(h.run more).state]
    rw [h.state] at hne
    exact (h.run more).lawful.told_ne (suffix_trace_run _ more) hne
  · intro s hs
    exact h.state.trans (h.lawful.told_of_forced hs).1
  · intro late t old new early htrace
    have hlawful := h.lawful
    rw [htrace] at hlawful
    cases hlawful.of_suffix (List.suffix_append late _) with
    | cons hearly hfair =>
      obtain ⟨htold, rfl, needed, rfl, hlatest⟩ := hfair
      refine ⟨(hearly.of_undecided htold.symm).1, fun hlate => ?_, needed, rfl, hlatest⟩
      rw [h.state, htrace, hlawful.told_of_not_forced ?_ hlate]
      · exact if_pos rfl
      · exact State.ofBool_ne_uninitialized needed
  · intro t on past hsuffix
    cases h.lawful.of_suffix hsuffix with
    | cons _ hfair => exact hfair

/-- Thread 1 installs yes while the detector of thread 0 is at work; that detector then forces the
policy off and answers yes itself. -/
def overridden : Race :=
  (Race.start [[.initWith (.ask (.setFence false) fun _ => .answer true)],
    [.initWith (.answer true)]]).run
    (List.replicate 3 0 ++ List.replicate 7 1 ++ List.replicate 7 0)

theorem override_wins_nested :
    forced overridden.trace = some .disabled ∧ overridden.state = .disabled ∧
      ∃ inside early, overridden.trace =
          (0, .noted (.returned false)) :: (inside ++ (0, .noted .began) :: early) ∧
        Was false ((0, .noted .began) :: early) (inside ++ (0, .noted .began) :: early) := by
  have h : Overriding overridden := override_wins _ _
  have hforced : forced overridden.trace = some .disabled := by rfl
  have htrace : overridden.trace = (0, .noted (.returned false)) :: overridden.trace.tail := by rfl
  obtain ⟨inside, early, hpast, -, hwas⟩ := h.returned 0 false overridden.trace.tail
    (htrace ▸ List.suffix_refl _)
  rw [hpast] at htrace hwas
  exact ⟨hforced, h.forced _ hforced, inside, early, htrace, hwas⟩

end Interlock.Fence
