import Interlock.Proofs.Blocks.Ownership

/-!
# The log tells the registry

A reader who sees nothing but the log keeps the owners of the blocked paths by name. A record of an
added block gives a path to a blocker, a record of a deleted block frees a path, and a record of a
closed blocker frees all its paths. No other record means anything to the reader, who has what the
registry has after every request.
-/

namespace Interlock.Blocks

variable {devel : Bool} {r : Registry} {path : String} {blocker : Blocker}

/-! ### Reading the log -/

/-- The owners of the blocked paths, by name. -/
abbrev Owners := String → Option String

def textIn? (record : Log.Record) (field : String) : Option String :=
  match record.fields.lookup field with
  | some (.text s) => some s
  | _ => none

def numberIn? (record : Log.Record) (field : String) : Option Nat :=
  match record.fields.lookup field with
  | some (.number n) => some n
  | _ => none

/-- What a reader of the log has after a record. -/
def Owners.read (m : Owners) (record : Log.Record) : Owners :=
  match record.message, textIn? record "path", textIn? record "blocker" with
  | "added file block", some path, some blocker => Function.update m path (some blocker)
  | "deleted file block", some path, _ => Function.update m path none
  | "removed file blocks of closed blocker", _, some blocker => fun path =>
    if m path = some blocker then none else m path
  | _, _, _ => m

def Owners.replay (log : List Log.Record) : Owners := log.foldl read fun _ => none

def tellsChange (record : Log.Record) : Bool :=
  ["added file block", "deleted file block", "removed file blocks of closed blocker"].contains
    record.message

def tellsFailure (record : Log.Record) : Bool := record.message == "control request failed"

def Reply.records (reply : Reply) : List Log.Record := reply.events.map Event.record

def PathMap.names (m : PathMap) : Owners := fun path => (m path).map Blocker.name

theorem Blocker.name_inj {a b : Blocker} : a.name = b.name ↔ a = b := by
  constructor
  · intro h
    have htext : toString a.id.toNat = toString b.id.toNat := (String.append_right_inj _).mp h
    rw [Nat.toString_eq_ofList_toDigits, Nat.toString_eq_ofList_toDigits] at htext
    have hdigits := congrArg (Nat.ofDigitChars 10 · 0) (String.ofList_injective htext)
    simp only [Nat.ofDigitChars_ten_toDigits] at hdigits
    cases a
    cases b
    exact congrArg _ (UInt64.toNat_inj.mp hdigits)
  · rintro rfl
    rfl

theorem names_eq_some_iff {m : PathMap} :
    m.names path = some blocker.name ↔ m path = some blocker := by
  simp [PathMap.names, Blocker.name_inj]

theorem names_injective {m m' : PathMap} (h : m.names = m'.names) : m = m' := by
  funext path
  apply Option.ext
  intro blocker
  rw [← names_eq_some_iff, h, names_eq_some_iff]

theorem read_of_not_tellsChange {record : Log.Record} (h : tellsChange record = false)
    (m : Owners) : m.read record = m := by
  unfold Owners.read
  split
  case h_1 hmessage _ _ => simp [tellsChange, hmessage] at h
  case h_2 hmessage _ => simp [tellsChange, hmessage] at h
  case h_3 hmessage _ => simp [tellsChange, hmessage] at h
  case h_4 => rfl

theorem read_added (m : PathMap) (path : String) (blocker : Blocker) :
    m.names.read (Event.added path blocker).record = (m.insert path blocker).names := by
  have hread : m.names.read (Event.added path blocker).record =
      Function.update m.names path (some blocker.name) := rfl
  rw [hread]
  funext p
  by_cases h : p = path <;> simp [PathMap.names, PathMap.insert, h]

theorem read_deleted (m : PathMap) (path : String) (blocker : Blocker) :
    m.names.read (Event.deleted path blocker).record = (m.erase path).names := by
  have hread : m.names.read (Event.deleted path blocker).record =
      Function.update m.names path none := rfl
  rw [hread]
  funext p
  by_cases h : p = path <;> simp [PathMap.names, PathMap.erase, h]

theorem read_removed (m : PathMap) (blocker : Blocker) (n : Nat) :
    m.names.read (Event.removed blocker n).record = (m.removeAll blocker).names := by
  have hread : m.names.read (Event.removed blocker n).record = fun path =>
      if m.names path = some blocker.name then none else m.names path := rfl
  rw [hread]
  funext p
  simp only [names_eq_some_iff]
  by_cases h : m p = some blocker <;> simp [PathMap.names, PathMap.removeAll, h]

/-! ### What requests leave in the log -/

/-- What may be seen in the log of a registry that becomes another one. -/
inductive Logged (r : Registry) : List Event → Registry → Prop
  | quiet {events} (hchange : ∀ event ∈ events, tellsChange event.record = false)
    (hfailure : ∀ event ∈ events, tellsFailure event.record = false) : Logged r events r
  | added {path blocker r'} (hfree : r.owner? path = none)
    (h : r'.owner? = PathMap.insert r.owner? path blocker) : Logged r [.added path blocker] r'
  | deleted {path blocker r'} (howned : r.owner? path = some blocker)
    (h : r'.owner? = PathMap.erase r.owner? path) : Logged r [.deleted path blocker] r'
  | removed {blocker r'} (hcount : 0 < PathMap.count r.owner? blocker)
    (h : r'.owner? = PathMap.removeAll r.owner? blocker) :
    Logged r [.removed blocker (PathMap.count r.owner? blocker)] r'

theorem logged_nothing (r : Registry) : Logged r [] r := .quiet nofun nofun

theorem logged_run (h : r.WellFormed) (s : Section) :
    Logged r (s.run r).events (s.run r).registry := by
  cases s with
  | add path blocker =>
    simp only [Section.run, Registry.add]
    cases howner : r.owner? path with
    | none =>
      simp only [Registry.isBlocked, howner, Option.isSome_none, Bool.false_eq_true, if_false]
      exact .added howner (Registry.owner?_cons (path, blocker) r.blocks)
    | some owner =>
      simp only [Registry.isBlocked, howner, Option.isSome_some, if_true]
      exact logged_nothing r
  | delete path blocker =>
    simp only [Section.run, Registry.delete]
    cases howner : r.owner? path with
    | none => exact logged_nothing r
    | some owner =>
      by_cases heq : owner = blocker
      · subst heq
        simp only [if_true]
        exact .deleted howner (Registry.owner?_filter_ne r path)
      · simp only [if_neg heq]
        exact logged_nothing r
  | removeAll blocker =>
    have hcount := h.size_sub_removeAll blocker
    simp only [Section.run]
    by_cases hpos : r.size - (r.removeAll blocker).size > 0
    · rw [if_pos hpos, hcount]
      exact .removed (hcount ▸ hpos) (h.owner?_removeAll blocker)
    · rw [if_neg hpos, Registry.removeAll_eq_of_size (by omega)]
      exact logged_nothing r
  | isBlocked | list => exact logged_nothing r
  | dump =>
    refine .quiet (List.forall_mem_cons.mpr ⟨rfl, ?_⟩) (List.forall_mem_cons.mpr ⟨rfl, ?_⟩)
    · exact List.forall_mem_map.mpr fun _ _ => rfl
    · exact List.forall_mem_map.mpr fun _ _ => rfl

theorem answer_run_ne_status (s : Section) (r : Registry) (code : Int) :
    (s.run r).answer ≠ .status code := by
  cases s with
  | add | delete | removeAll =>
    simp only [Section.run]
    split <;> simp
  | isBlocked | list | dump => simp [Section.run]

theorem logged_of_report {request : Request} (h : r.WellFormed)
    (hreport : ∀ answer events, request.report answer events = { answer, events }) :
    Logged r (r.handle devel request).1.events (r.handle devel request).2 ∧
      (r.handle devel request).1.answer ≠ .status (-1) := by
  cases hs : request.resolve devel with
  | error reason =>
    rw [handle_of_error hs, hreport]
    exact ⟨logged_nothing r, nofun⟩
  | ok s =>
    rw [handle_of_ok hs, hreport]
    exact ⟨logged_run h s, answer_run_ne_status s r (-1)⟩

/-- A raw request that fails leaves a record of that alone. Any other request leaves what its
section does. -/
theorem logged_handle (h : r.WellFormed) (devel : Bool) (request : Request) :
    (∃ code blocker reason errno, r.handle devel request =
      (rawFailed code blocker reason errno, r)) ∨
    Logged r (r.handle devel request).1.events (r.handle devel request).2 ∧
      (r.handle devel request).1.answer ≠ .status (-1) := by
  cases request with
  | controlRaw code bytes blocker =>
    rcases handle_controlRaw devel r code bytes blocker with
      ⟨reason, errno, -, hhandle⟩ | ⟨op, path, -, -, -, hhandle⟩
    · exact .inl ⟨code, blocker, reason, errno, hhandle⟩
    · have hreport (answer events) :
          (Request.control op path blocker).report answer events = { answer, events } := rfl
      have htyped : Logged r (r.handle devel (.control op path blocker)).1.events
          (r.handle devel (.control op path blocker)).2 := (logged_of_report h hreport).1
      rw [hhandle]
      exact .inr ⟨htyped, nofun⟩
  | _ => exact .inr (logged_of_report h fun _ _ => rfl)

/-! ### What the reader makes of it -/

theorem foldl_read_of_quiet {events : List Event}
    (h : ∀ event ∈ events, tellsChange event.record = false) (m : Owners) :
    (events.map Event.record).foldl Owners.read m = m := by
  induction events with
  | nil => rfl
  | cons event rest ih =>
    obtain ⟨hevent, hrest⟩ := List.forall_mem_cons.mp h
    rw [List.map_cons, List.foldl_cons, read_of_not_tellsChange hevent, ih hrest]

def Owners.dropped (m : Owners) (record : Log.Record) : Set String :=
  {path | m path ≠ none ∧ m.read record path = none}

theorem dropped_removed (m : PathMap) (blocker : Blocker) (n : Nat) :
    m.names.dropped (Event.removed blocker n).record = {path | m path = some blocker} := by
  ext path
  change m.names path ≠ none ∧ m.names.read _ path = none ↔ m path = some blocker
  simp only [read_removed, PathMap.names, PathMap.removeAll]
  cases hpath : m path with
  | none => simp
  | some owner => by_cases heq : owner = blocker <;> simp [heq]

namespace Logged

variable {r' : Registry} {events : List Event}

theorem replayed (h : Logged r events r') :
    (events.map Event.record).foldl Owners.read (PathMap.names r.owner?) =
      PathMap.names r'.owner? := by
  cases h with
  | quiet hchange => exact foldl_read_of_quiet hchange _
  | @added path blocker _ _ hmap =>
    rw [hmap]
    exact read_added _ path blocker
  | @deleted path blocker _ _ hmap =>
    rw [hmap]
    exact read_deleted _ path blocker
  | @removed blocker _ _ hmap =>
    rw [hmap]
    exact read_removed r.owner? blocker (PathMap.count r.owner? blocker)

theorem changes (h : Logged r events r') :
    (r' = r ∧ (events.map Event.record).countP tellsChange = 0) ∨
      (r'.owner? ≠ r.owner? ∧ (events.map Event.record).countP tellsChange = 1) := by
  cases h with
  | quiet hchange =>
    refine .inl ⟨rfl, ?_⟩
    simpa [List.countP_eq_zero] using hchange
  | @added path blocker _ hfree hmap =>
    refine .inr ⟨Function.ne_iff.mpr ⟨path, ?_⟩, rfl⟩
    simp [hmap, PathMap.insert, hfree]
  | @deleted path blocker _ howned hmap =>
    refine .inr ⟨Function.ne_iff.mpr ⟨path, ?_⟩, rfl⟩
    simp [hmap, PathMap.erase, howned]
  | @removed blocker _ hcount hmap =>
    obtain ⟨path, howned⟩ := Set.nonempty_of_ncard_ne_zero hcount.ne'
    have howner : r.owner? path = some blocker := howned
    refine .inr ⟨Function.ne_iff.mpr ⟨path, ?_⟩, rfl⟩
    simp [hmap, PathMap.removeAll, howner]

theorem failures (h : Logged r events r') :
    (events.map Event.record).countP tellsFailure = 0 := by
  cases h with
  | quiet _ hfailure => simpa [List.countP_eq_zero] using hfailure
  | _ => rfl

theorem dropped (h : Logged r events r') {record : Log.Record}
    (hmem : record ∈ events.map Event.record)
    (hmessage : record.message = "removed file blocks of closed blocker") :
    numberIn? record "removed" =
      some ((PathMap.names r.owner?).dropped record).ncard := by
  cases h with
  | quiet hchange =>
    obtain ⟨event, hevent, rfl⟩ := List.mem_map.mp hmem
    have hquiet := hchange event hevent
    simp [tellsChange, hmessage] at hquiet
  | added | deleted =>
    rw [List.mem_singleton.mp hmem] at hmessage
    simp [Event.record] at hmessage
  | removed =>
    rw [List.mem_singleton.mp hmem, dropped_removed]
    rfl

end Logged

/-! ### Main result -/

/-- A query, a failure, or the closing of a blocker without blocks. -/
def Idle (devel : Bool) (r : Registry) (request : Request) (reply : Reply) : Prop :=
  request.Asks devel ∨ reply.Failed ∨
    ∃ blocker, request = .removeAll blocker ∧ ∀ path, r.owner? path ≠ some blocker

/-- What the log tells of a request that took a registry to `r'`. -/
structure LogTells (devel : Bool) (r : Registry) (request : Request) (reply : Reply)
    (r' : Registry) : Prop where
  replayed : reply.records.foldl Owners.read (PathMap.names r.owner?) = PathMap.names r'.owner?
  once : r'.owner? ≠ r.owner? → reply.records.countP tellsChange = 1
  quiet : r'.owner? = r.owner? → reply.records.countP tellsChange = 0
  idle : Idle devel r request reply → r' = r ∧ reply.records.countP tellsChange = 0
  failures : reply.records.countP tellsFailure = if reply.answer = .status (-1) then 1 else 0
  /-- The number in the record of a closed blocker is how many paths it takes from the reader. -/
  dropped : ∀ record ∈ reply.records, record.message = "removed file blocks of closed blocker" →
    numberIn? record "removed" = some ((PathMap.names r.owner?).dropped record).ncard

theorem logTells_of_failed (devel : Bool) (r : Registry) (request : Request) (code : UInt32)
    (blocker : Blocker) (reason : Refusal) (errno : Nat) :
    LogTells devel r request (rawFailed code blocker reason errno) r where
  replayed := by
    have hquiet : tellsChange (Event.failed code blocker reason).record = false := rfl
    exact read_of_not_tellsChange hquiet (PathMap.names r.owner?)
  once hne := absurd rfl hne
  quiet _ := rfl
  idle _ := ⟨rfl, rfl⟩
  failures := rfl
  dropped record hmem hmessage := by
    rw [List.mem_singleton.mp hmem] at hmessage
    simp [Event.record] at hmessage

theorem owner?_handle_of_idle (h : r.WellFormed) {request : Request}
    (hidle : Idle devel r request (r.handle devel request).1) :
    (r.handle devel request).2.owner? = r.owner? := by
  rcases hidle with hasks | hfailed | ⟨blocker, rfl, hnone⟩
  · rw [handle_of_asks hasks]
  · rw [handle_of_failed hfailed]
  · rw [handle_of_ok rfl, (run_removeAll r blocker).2, h.owner?_removeAll]
    funext path
    exact if_neg (hnone path)

theorem logTells_handle (h : r.WellFormed) (devel : Bool) (request : Request) :
    LogTells devel r request (r.handle devel request).1 (r.handle devel request).2 := by
  rcases logged_handle h devel request with
    ⟨code, blocker, reason, errno, hfailed⟩ | ⟨hlog, hanswer⟩
  · rw [hfailed]
    exact logTells_of_failed devel r request code blocker reason errno
  · have hquiet (heq : (r.handle devel request).2.owner? = r.owner?) :
        (r.handle devel request).2 = r ∧
          (r.handle devel request).1.records.countP tellsChange = 0 := by
      rcases hlog.changes with hsame | ⟨hne, -⟩
      · exact hsame
      · exact absurd heq hne
    refine ⟨hlog.replayed, fun hne => ?_, fun heq => (hquiet heq).2, fun hidle => ?_, ?_, ?_⟩
    · rcases hlog.changes with ⟨hsame, -⟩ | ⟨-, hone⟩
      · exact absurd (congrArg Registry.owner? hsame) hne
      · exact hone
    · exact hquiet (owner?_handle_of_idle h hidle)
    · rw [if_neg hanswer]
      exact hlog.failures
    · exact fun record hmem => hlog.dropped hmem

theorem replay_handleAll (h : r.WellFormed) (devel : Bool) (requests : List Request) :
    ((r.handleAll devel requests).1.flatMap Reply.records).foldl Owners.read
        (PathMap.names r.owner?) =
      PathMap.names (r.handleAll devel requests).2.owner? := by
  induction requests generalizing r with
  | nil => rfl
  | cons request rest ih =>
    have hfirst := (logTells_handle h devel request).replayed
    have hrest := ih (wellFormed_handle h devel request)
    rw [← hfirst, ← List.foldl_append] at hrest
    exact hrest

/-- After any requests of an empty registry, the log tells of its owners and of no others, and it
tells what the next request does. -/
theorem log_complete (devel : Bool) (history : List Request) :
    let (replies, r) := Registry.handleAll devel history {}
    (∀ m : PathMap, m.names = Owners.replay (replies.flatMap Reply.records) ↔ m = r.owner?) ∧
      ∀ request : Request,
        let (reply, r') := r.handle devel request
        LogTells devel r request reply r' := by
  have hempty := Registry.wellFormed_empty
  have h := wellFormed_handleAll hempty devel history
  have hreplay := replay_handleAll hempty devel history
  refine ⟨fun m => ⟨fun hm => ?_, ?_⟩, logTells_handle h devel⟩
  · exact names_injective (hm.trans hreplay)
  · rintro rfl
    exact hreplay.symm

/-- Two requests fail, of which one is raw, and the second bulk removal finds nothing. -/
example :
    let (replies, r) := Registry.handleAll false
      [.add "/a" ⟨1⟩, .add "/b" ⟨2⟩, .controlRaw 98 ⟨#[47, 99]⟩ ⟨1⟩, .add "/a" ⟨2⟩,
        .controlRaw 99 ⟨#[47, 97]⟩ ⟨2⟩, .removeAll ⟨1⟩, .removeAll ⟨1⟩] {}
    let log := replies.flatMap Reply.records
    (log.map (·.message), log.filterMap (numberIn? · "removed"),
      ["/a", "/b", "/c"].map (Owners.replay log), r) =
    (["added file block", "added file block", "added file block", "control request failed",
        "removed file blocks of closed blocker"],
      [2], [none, some "blocker 2", none], ⟨[("/b", ⟨2⟩)]⟩) := by decide

end Interlock.Blocks
