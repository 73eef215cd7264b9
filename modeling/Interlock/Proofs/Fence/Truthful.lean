import Interlock.Proofs.Fence.Sequential
import Interlock.Fence.Mode

/-!
# Answers and log of a policy with one user

In a run alone every answer is what holds right after the call, and the log tells the decision: it
is undecided before the first event, and what the last event says after it. Only between an event
and the store that it announces, or between an exchange and the event that reports it, are the two
apart.
-/

namespace Interlock.Fence

open Program

/-! ### What a log tells -/

def Event.fence : Event → Bool
  | .initialized fence | .set fence => fence

def Event.isInitialized : Event → Bool
  | .initialized _ => true
  | .set _ => false

/-- The decision that a log tells. -/
def decisionTold (log : List Event) : State :=
  match log.getLast? with
  | none => .uninitialized
  | some e => .ofBool e.fence

theorem Event.record_eq (e : Event) : e.record = ⟨.debug,
    if e.isInitialized then "atomic fence policy initialized" else "atomic fence policy set",
    [("fence", .flag e.fence)]⟩ := by
  cases e <;> rfl

theorem decisionTold_concat (log : List Event) (e : Event) :
    decisionTold (log ++ [e]) = .ofBool e.fence := by
  rw [decisionTold, List.getLast?_concat]

/-! ### Instants and what is around them -/

/-- Whether the log and the decision are to agree at an instant. -/
def Instant.settled : Instant → Bool
  | ⟨.noted (.event (.set _)), _⟩ => false
  | ⟨.exchanged _ _ seen, _⟩ => seen ≠ .uninitialized
  | _ => true

/-- What is true at an instant of a run that found a log when it began. -/
def Instant.Truthful (log : List Event) (past : List Instant) (i : Instant)
    (later : List Instant) : Prop :=
  (i.settled = true → i.state = decisionTold (log ++ logged (past ++ [i]))) ∧
  match i with
  | ⟨.noted .began, s⟩ =>
    (if s = .uninitialized then [⟨.loaded s, s⟩, ⟨.noted .detecting, s⟩]
      else [⟨.loaded s, s⟩, ⟨.loaded s, s⟩, ⟨.noted (.returned s.useFence), s⟩]) <+: later
  | ⟨.noted .detecting, s⟩ => s = .uninitialized ∧ [⟨.noted .began, s⟩, ⟨.loaded s, s⟩] <:+ past
  | ⟨.noted (.returned on), s⟩ => on = s.useFence
  | ⟨.noted (.event (.initialized needed)), s⟩ =>
    [⟨.exchanged .uninitialized (.ofBool needed) .uninitialized, s⟩] <:+ past
  | ⟨.exchanged old new seen, s⟩ => old = .uninitialized ∧ ∃ needed, new = .ofBool needed ∧
    s = (if seen = .uninitialized then .ofBool needed else seen) ∧
    (if seen = .uninitialized then
        [⟨.noted (.event (.initialized needed)), s⟩, ⟨.noted (.returned needed), s⟩]
      else [⟨.noted (.returned s.useFence), s⟩]) <+: later
  | _ => True

theorem Instant.Truthful.before {log : List Event} {past later : List Instant} {i : Instant}
    (h : i.Truthful log past later) (after : List Instant) :
    i.Truthful log past (later ++ after) := by
  obtain ⟨hstate, hrest⟩ := h
  have hlater : later <+: later ++ after := List.prefix_append later after
  refine ⟨hstate, ?_⟩
  obtain ⟨happening, s⟩ := i
  cases happening with
  | loaded | stored => trivial
  | exchanged old new seen =>
    obtain ⟨hold, needed, hnew, hs, hend⟩ := hrest
    exact ⟨hold, needed, hnew, hs, hend.trans hlater⟩
  | noted n =>
    cases n with
    | began => exact hrest.trans hlater
    | event e => cases e <;> exact hrest
    | _ => exact hrest

theorem Instant.Truthful.after {log : List Event} {past later : List Instant} {i : Instant}
    (before : List Instant) (h : i.Truthful (log ++ logged before) past later) :
    i.Truthful log (before ++ past) later := by
  obtain ⟨hstate, hrest⟩ := h
  have hpast : past <:+ before ++ past := List.suffix_append before past
  refine ⟨fun hs => ?_, ?_⟩
  · rw [List.append_assoc, logged_append before, ← List.append_assoc]
    exact hstate hs
  · obtain ⟨happening, s⟩ := i
    cases happening with
    | loaded | stored | exchanged => exact hrest
    | noted n =>
      cases n with
      | detecting => exact ⟨hrest.1, hrest.2.trans hpast⟩
      | event e =>
        cases e with
        | initialized needed => exact hrest.trans hpast
        | set on => trivial
      | _ => exact hrest

/-- Something holds at every instant of a run, of what came before and what comes after. -/
def Throughout (P : List Instant → Instant → List Instant → Prop)
    (instants : List Instant) : Prop :=
  ∀ past i later, instants = past ++ i :: later → P past i later

section Throughout

variable {P : List Instant → Instant → List Instant → Prop} {early late : List Instant}

theorem throughout_nil : Throughout P [] := by
  intro past i later h
  simp at h

theorem Throughout.cons {i : Instant} (hi : P [] i late)
    (h : Throughout (fun past => P (i :: past)) late) : Throughout P (i :: late) := by
  intro past j later heq
  cases past with
  | nil =>
    cases heq
    exact hi
  | cons k past =>
    rw [List.cons_append, List.cons.injEq] at heq
    obtain ⟨rfl, heq⟩ := heq
    exact h past j later heq

theorem Throughout.append (hearly : Throughout (fun past i later => P past i (later ++ late)) early)
    (hlate : Throughout (fun past => P (early ++ past)) late) : Throughout P (early ++ late) := by
  intro past i later heq
  rcases cases_of_append_eq heq with ⟨rest, hrest, rfl⟩ | ⟨rest, rfl, hrest⟩
  · exact hearly past i rest hrest
  · exact hlate rest i later hrest

end Throughout

/-! ### Conversations -/

/-- Instants after which a log that told the first decision tells the second, and all of which are
truthful. -/
def Tells (s : State) (instants : List Instant) (t : State) : Prop :=
  ∀ log, decisionTold log = s →
    Throughout (Instant.Truthful log) instants ∧ decisionTold (log ++ logged instants) = t

theorem Tells.append {s t u : State} {early late : List Instant} (hearly : Tells s early t)
    (hlate : Tells t late u) : Tells s (early ++ late) u := by
  intro log hlog
  obtain ⟨htruth, htold⟩ := hearly log hlog
  obtain ⟨htruth', htold'⟩ := hlate (log ++ logged early) htold
  refine ⟨.append (fun past i later h => ?_) (fun past i later h => ?_), ?_⟩
  · exact (htruth past i later h).before late
  · exact (htruth' past i later h).after early
  · rw [logged_append, ← List.append_assoc]
    exact htold'

theorem settled_of_quiet {log : List Event} {past : List Instant} {i : Instant}
    (hlog : decisionTold log = i.state) (hquiet : logged (past ++ [i]) = []) :
    i.settled = true → i.state = decisionTold (log ++ logged (past ++ [i])) := by
  intro _
  rw [hquiet, List.append_nil]
  exact hlog.symm

theorem told_of_quiet {log : List Event} {s : State} {instants : List Instant}
    (hlog : decisionTold log = s) (hquiet : logged instants = []) :
    decisionTold (log ++ logged instants) = s := by
  rw [hquiet, List.append_nil]
  exact hlog

theorem tells_opening : Tells .uninitialized opening .uninitialized := by
  intro log hlog
  refine ⟨.cons ?_ (.cons ?_ (.cons ?_ throughout_nil)), told_of_quiet hlog rfl⟩
  · exact ⟨settled_of_quiet hlog rfl, List.prefix_refl _⟩
  · exact ⟨settled_of_quiet hlog rfl, trivial⟩
  · exact ⟨settled_of_quiet hlog rfl, rfl, List.suffix_refl _⟩

theorem tells_install (needed : Bool) :
    Tells .uninitialized (install needed) (.ofBool needed) := by
  intro log hlog
  have htold := decisionTold_concat log (.initialized needed)
  refine ⟨.cons ?_ (.cons ?_ (.cons ?_ (.cons ?_ throughout_nil))), htold⟩
  · exact ⟨settled_of_quiet hlog rfl, trivial⟩
  · -- The exchange has decided, and the log does not say so yet.
    exact ⟨nofun, rfl, needed, rfl, rfl, List.prefix_refl _⟩
  · exact ⟨fun _ => htold.symm, [_], rfl⟩
  · exact ⟨fun _ => htold.symm, (State.useFence_ofBool needed).symm⟩

theorem tells_yieldTo {s : State} (needed : Bool) (h : s ≠ .uninitialized) :
    Tells s (yieldTo s needed) s := by
  intro log hlog
  refine ⟨.cons ?_ (.cons ?_ (.cons ?_ throughout_nil)), told_of_quiet hlog rfl⟩
  · exact ⟨settled_of_quiet hlog rfl, trivial⟩
  · refine ⟨settled_of_quiet hlog rfl, rfl, needed, rfl, (if_neg h).symm, ?_⟩
    simp only [if_neg h, List.prefix_rfl]
  · exact ⟨settled_of_quiet hlog rfl, rfl⟩

theorem tells_decided {s : State} (h : s ≠ .uninitialized) : Tells s
    [⟨.noted .began, s⟩, ⟨.loaded s, s⟩, ⟨.loaded s, s⟩, ⟨.noted (.returned s.useFence), s⟩] s := by
  intro log hlog
  refine ⟨.cons ?_ (.cons ?_ (.cons ?_ (.cons ?_ throughout_nil))), told_of_quiet hlog rfl⟩
  · refine ⟨settled_of_quiet hlog rfl, ?_⟩
    simp only [if_neg h, List.prefix_rfl]
  · exact ⟨settled_of_quiet hlog rfl, trivial⟩
  · exact ⟨settled_of_quiet hlog rfl, trivial⟩
  · exact ⟨settled_of_quiet hlog rfl, rfl⟩

theorem tells_set {s : State} (on : Bool) : Tells s
    [⟨.noted (.event (.set on)), s⟩, ⟨.stored (.ofBool on), .ofBool on⟩] (.ofBool on) := by
  intro log hlog
  have htold := decisionTold_concat log (.set on)
  refine ⟨.cons ?_ (.cons ?_ throughout_nil), htold⟩
  · -- The log announces a store that has yet to come.
    exact ⟨nofun, trivial⟩
  · exact ⟨fun _ => htold.symm, trivial⟩

/-- By induction on how the conversation is put together: each call goes on from a log that tells
the decision, and leaves one that does. -/
theorem Conversation.tells {s t : State} {instants : List Instant}
    (h : Conversation s instants t) : Tells s instants t := by
  induction h with
  | nil => exact fun log hlog => ⟨throughout_nil, told_of_quiet hlog rfl⟩
  | append hearly hlate ihearly ihlate => exact ihearly.append ihlate
  | looked =>
    intro log hlog
    exact ⟨.cons ⟨settled_of_quiet hlog rfl, trivial⟩ throughout_nil, told_of_quiet hlog rfl⟩
  | set on => exact tells_set on
  | decided hs => exact tells_decided hs
  | installed needed hinside ih => exact tells_opening.append (ih.append (tells_install needed))
  | overtaken needed hinside hs ih =>
    exact tells_opening.append (ih.append (tells_yieldTo needed hs))

/-- An install takes a policy from undecided to decided, and there is no way back. -/
theorem Conversation.installs_le {s t : State} {instants : List Instant}
    (h : Conversation s instants t) :
    (logged instants).countP Event.isInitialized + (if t = .uninitialized then 1 else 0) ≤
      if s = .uninitialized then 1 else 0 := by
  induction h with
  | nil => exact Nat.le_of_eq (Nat.zero_add _)
  | append hearly hlate ihearly ihlate =>
    rw [logged_append, List.countP_append]
    omega
  | looked | decided => exact Nat.le_of_eq (Nat.zero_add _)
  | set on =>
    rw [if_neg (State.ofBool_ne_uninitialized on)]
    exact Nat.zero_le _
  | installed needed hinside ih =>
    have hone : (logged (install needed)).countP Event.isInitialized = 1 := rfl
    have hnone : (logged opening).countP Event.isInitialized = 0 := rfl
    rw [if_pos rfl] at ih ⊢
    rw [if_neg (State.ofBool_ne_uninitialized needed), logged_append, logged_append,
      List.countP_append, List.countP_append, hone, hnone]
    omega
  | @overtaken inside s needed hinside hs ih =>
    have hnone : (logged (yieldTo s needed)).countP Event.isInitialized = 0 := rfl
    have hnone' : (logged opening).countP Event.isInitialized = 0 := rfl
    rw [logged_append, logged_append, List.countP_append, List.countP_append, hnone, hnone']
    omega

/-! ### Main result -/

/-- What the only user of a policy may ask of it. -/
inductive Command where
  | init (host : Cpuid.Summary)
  | initWith (detect : Detector)
  | setFence (enabled : Bool)
  | apply (mode : Mode) (host : Cpuid.Summary)

namespace Command

def request : Command → Request
  | .init host => .init host
  | .initWith detect => .initWith detect
  | .setFence enabled => .setFence enabled
  | .apply mode host => mode.request host

/-- What commands come to that are carried out one after the other on a fresh policy. -/
def session (commands : List Command) : Program.Outcome (List Bool) :=
  (Request.programs (commands.map request)).run .uninitialized

/-- The instants of that run, those of the detectors among them. -/
def instants (commands : List Command) : List Instant :=
  (Request.programs (commands.map request)).instants .uninitialized

end Command

open Command

/-- What holds of commands carried out one after the other on a fresh policy. -/
structure TruthfulRun (commands : List Command) : Prop where
  /-- Each answer is whether fences are on right after the command. -/
  answered : ∀ n < commands.length, (session commands).result[n]? =
    some (session (commands.take (n + 1))).state.useFence
  /-- So is what an initialization returns, one that a detector makes included. -/
  returned : ∀ past on s later,
    instants commands = past ++ ⟨.noted (.returned on), s⟩ :: later → on = s.useFence
  /-- An initialization runs its detector if the policy is undecided when it begins, and returns at
  once otherwise. -/
  begins : ∀ past s later, instants commands = past ++ ⟨.noted .began, s⟩ :: later →
    (if s = .uninitialized then [⟨.loaded s, s⟩, ⟨.noted .detecting, s⟩]
      else [⟨.loaded s, s⟩, ⟨.loaded s, s⟩, ⟨.noted (.returned s.useFence), s⟩]) <+: later
  /-- No detector runs otherwise. -/
  detects : ∀ past s later, instants commands = past ++ ⟨.noted .detecting, s⟩ :: later →
    s = .uninitialized ∧ [⟨.noted .began, s⟩, ⟨.loaded s, s⟩] <:+ past
  /-- An initialization whose exchange finds the policy undecided installs what its detector found,
  reports it and returns it. One that finds it decided leaves it and returns what holds. -/
  installs : ∀ past old new seen s later,
    instants commands = past ++ ⟨.exchanged old new seen, s⟩ :: later →
      old = .uninitialized ∧ ∃ needed, new = .ofBool needed ∧
        s = (if seen = .uninitialized then .ofBool needed else seen) ∧
        (if seen = .uninitialized then
            [⟨.noted (.event (.initialized needed)), s⟩, ⟨.noted (.returned needed), s⟩]
          else [⟨.noted (.returned s.useFence), s⟩]) <+: later
  /-- Such a report only comes right after the exchange that installed what it says, -/
  reports : ∀ past needed s later,
    instants commands = past ++ ⟨.noted (.event (.initialized needed)), s⟩ :: later →
      [⟨.exchanged .uninitialized (.ofBool needed) .uninitialized, s⟩] <:+ past
  /-- and there is at most one. -/
  once : (session commands).events.countP Event.isInitialized ≤ 1
  /-- The log shows what kind an event is, and what it says of fences. -/
  records : ∀ e ∈ (session commands).events, e.record = ⟨.debug,
    if e.isInitialized then "atomic fence policy initialized" else "atomic fence policy set",
    [("fence", .flag e.fence)]⟩
  /-- After each command the decision is what the log tells, -/
  told : ∀ n, (session (commands.take n)).state = decisionTold (session (commands.take n)).events
  /-- and so it is at each instant, except between an event and the store that it announces and
  between an exchange and the event that reports it. -/
  settled : ∀ past i later, instants commands = past ++ i :: later → i.settled = true →
    i.state = decisionTold (logged (past ++ [i]))

theorem conversation_session (commands : List Command) :
    Conversation .uninitialized (instants commands) (session commands).state :=
  conversation_programs (commands.map request) .uninitialized

theorem events_session (commands : List Command) :
    (session commands).events = logged (instants commands) :=
  events_run _ _

/-- Whatever the commands and however their detectors call back, a run alone is truthful. -/
theorem sequential_run_truthful (commands : List Command) : TruthfulRun commands := by
  have h := conversation_session commands
  obtain ⟨htruth, -⟩ := h.tells [] rfl
  refine ⟨?_, ?_, ?_, ?_, ?_, ?_, ?_, fun e _ => e.record_eq, ?_, ?_⟩
  · intro n hn
    rw [session, session, List.map_take]
    exact answer_programs (commands.map request) .uninitialized n (by rwa [List.length_map])
  · exact fun past on s later heq => (htruth past _ later heq).2
  · exact fun past s later heq => (htruth past _ later heq).2
  · exact fun past s later heq => (htruth past _ later heq).2
  · exact fun past old new seen s later heq => (htruth past _ later heq).2
  · exact fun past needed s later heq => (htruth past _ later heq).2
  · have hle := h.installs_le
    rw [events_session]
    rw [if_pos rfl] at hle
    omega
  · intro n
    rw [events_session]
    exact (((conversation_session (commands.take n)).tells [] rfl).2).symm
  · exact fun past i later heq hs => (htruth past i later heq).1 hs

/-- An initialization is overtaken by one that its detector makes. Then fences are forced off. -/
def callsBack : List Command :=
  [.initWith (.ask (.initWith (.answer true)) fun _ => .answer false), .apply .off {}]

theorem sequential_run_truthful_calls_back :
    (session callsBack).events = [.initialized true, .set false] ∧
      (session callsBack).result[0]? = some (session (callsBack.take 1)).state.useFence ∧
      (session callsBack).state = decisionTold [.initialized true, .set false] := by
  have h := sequential_run_truthful callsBack
  have hevents : (session callsBack).events = [.initialized true, .set false] := by rfl
  have htold := h.told 2
  rw [List.take_of_length_le (Nat.le_refl 2), hevents] at htold
  exact ⟨hevents, h.answered 0 (by decide), htold⟩

end Interlock.Fence
