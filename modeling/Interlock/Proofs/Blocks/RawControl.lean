import Interlock.Blocks.Host
import Interlock.Proofs.Blocks.PathMap
import Interlock.Proofs.Text.Trim

/-!
# Raw control requests agree with typed ones

A raw request whose number and bytes stand for a typed request does what that request does, and no
other raw request touches a registry. What a raw request failed for stays in the error number of
the thread that made it, until that thread's next failure replaces it.
-/

namespace Interlock.Blocks

variable {devel : Bool} {r : Registry} {code : UInt32} {bytes : ByteArray} {op : ControlOp}
  {path : String} {blocker : Blocker}

/-! ### Typed requests -/

/-- What a control request does to the registry if its path is in order. -/
def ControlOp.section (op : ControlOp) (path : String) (blocker : Blocker) : Section :=
  match op with
  | .add => .add path blocker
  | .delete => .delete path blocker
  | .list => .dump

theorem resolveControl_of_check (h : PathMap.check path = .ok ()) :
    Request.resolveControl op path blocker = .ok (op.section path blocker) := by
  cases op with
  | add | delete =>
    rw [Request.resolveControl, checkPath_eq_check, h]
    rfl
  | list => rfl

theorem resolveControl_cases (op : ControlOp) (path : String) (blocker : Blocker) :
    (∃ reason, Request.resolveControl op path blocker = .error reason) ∨
      Request.resolveControl op path blocker = .ok (op.section path blocker) := by
  cases op with
  | add | delete =>
    rw [Request.resolveControl]
    cases checkPath path with
    | error reason => exact .inl ⟨reason, rfl⟩
    | ok => exact .inr rfl
  | list => exact .inr rfl

theorem run_section (op : ControlOp) (path : String) (blocker : Blocker) (r : Registry) :
    ((op.section path blocker).run r).answer = .done ∨
      ∃ reason, (op.section path blocker).run r = { registry := r, answer := .refused reason } := by
  cases op with
  | add =>
    rw [ControlOp.section, Section.run]
    cases r.add path blocker with
    | error reason => exact .inr ⟨reason, rfl⟩
    | ok => exact .inl rfl
  | delete =>
    rw [ControlOp.section, Section.run]
    cases r.delete path blocker with
    | error reason => exact .inr ⟨reason, rfl⟩
    | ok => exact .inl rfl
  | list => exact .inl rfl

theorem handle_of_error {request : Request} {reason : Refusal}
    (h : request.resolve devel = .error reason) (r : Registry) :
    r.handle devel request = (request.report (.refused reason) [], r) := by
  rw [Registry.handle, h]

theorem handle_of_ok {request : Request} {s : Section} (h : request.resolve devel = .ok s)
    (r : Registry) :
    r.handle devel request =
      (request.report (s.run r).answer (s.run r).events, (s.run r).registry) := by
  rw [Registry.handle, h]

/-- A typed control request is carried out, or refused without a trace. -/
theorem handle_control (devel : Bool) (r : Registry) (op : ControlOp) (path : String)
    (blocker : Blocker) :
    (r.handle devel (.control op path blocker)).1.answer = .done ∨
      ∃ reason, r.handle devel (.control op path blocker) = ({ answer := .refused reason }, r) := by
  have hresolve : (Request.control op path blocker).resolve devel =
      Request.resolveControl op path blocker := rfl
  rcases resolveControl_cases op path blocker with ⟨reason, h⟩ | h
  · exact .inr ⟨reason, handle_of_error (hresolve.trans h) r⟩
  · rw [handle_of_ok (hresolve.trans h) r]
    rcases run_section op path blocker r with hdone | ⟨reason, hrefused⟩
    · exact .inl hdone
    · rw [hrefused]
      exact .inr ⟨reason, rfl⟩

/-! ### Raw requests -/

/-- The number of a raw request is that of an operation, and its bytes are those of a path. -/
structure Decodes (devel : Bool) (code : UInt32) (bytes : ByteArray) (op : ControlOp)
    (path : String) : Prop where
  operation : PathMap.operation devel code = some op
  text : path.toUTF8 = bytes

theorem Decodes.ofCode (h : Decodes devel code bytes op path) :
    ControlOp.ofCode devel code = some op :=
  operation_eq_ofCode devel code ▸ h.operation

theorem Decodes.fromUTF8? (h : Decodes devel code bytes op path) :
    String.fromUTF8? bytes = some path :=
  Text.fromUTF8?_eq_some_iff.mpr h.text

/-- Why a request was refused, if it was. -/
def Answer.refusal? : Answer → Option Refusal
  | refused reason => some reason
  | _ => none

/-- Why a raw request fails on a registry, if it does, with the number of the error. The first
that applies counts: the number is unknown, the bytes are no text, the typed request is refused. -/
def rawFailure? (devel : Bool) (r : Registry) (code : UInt32) (bytes : ByteArray)
    (blocker : Blocker) : Option (Refusal × Nat) :=
  match PathMap.operation devel code, String.fromUTF8? bytes with
  | none, _ => some (.unknownOp code, Refusal.einval)
  | some _, none => some (.invalidPath, Refusal.einval)
  | some op, some path =>
    (r.handle devel (.control op path blocker)).1.answer.refusal?.map fun reason =>
      (reason, reason.errno)

/-- What a raw request replies when it fails. -/
def rawFailed (code : UInt32) (blocker : Blocker) (reason : Refusal) (errno : Nat) : Reply where
  answer := .status (-1)
  events := [.failed code blocker reason]
  errno? := some errno

/-- A raw request does to the registry and tells the log what the typed one does. -/
theorem handle_of_decodes (h : Decodes devel code bytes op path) :
    r.handle devel (.controlRaw code bytes blocker) =
      ((Request.controlRaw code bytes blocker).report
          (r.handle devel (.control op path blocker)).1.answer
          (r.handle devel (.control op path blocker)).1.events,
        (r.handle devel (.control op path blocker)).2) := by
  simp only [Registry.handle, Request.resolve, h.ofCode, h.fromUTF8?]
  cases Request.resolveControl op path blocker <;> rfl

/-- A raw request fails for the first reason that applies and leaves the registry alone, or stands
for a typed request that is carried out. -/
theorem handle_controlRaw (devel : Bool) (r : Registry) (code : UInt32) (bytes : ByteArray)
    (blocker : Blocker) :
    (∃ reason errno, rawFailure? devel r code bytes blocker = some (reason, errno) ∧
      r.handle devel (.controlRaw code bytes blocker) =
        (rawFailed code blocker reason errno, r)) ∨
    ∃ op path, rawFailure? devel r code bytes blocker = none ∧
      Decodes devel code bytes op path ∧
      (r.handle devel (.control op path blocker)).1.answer = .done ∧
      r.handle devel (.controlRaw code bytes blocker) =
        ({ answer := .status 0
           events := (r.handle devel (.control op path blocker)).1.events },
          (r.handle devel (.control op path blocker)).2) := by
  have hcode := operation_eq_ofCode devel code
  -- The cases are in the order in which the reasons apply: number, bytes, typed request.
  cases hop : PathMap.operation devel code with
  | none =>
    refine .inl ⟨.unknownOp code, Refusal.einval, by rw [rawFailure?, hop], ?_⟩
    exact handle_of_error (by rw [Request.resolve, ← hcode, hop]) r
  | some op =>
    cases htext : String.fromUTF8? bytes with
    | none =>
      refine .inl ⟨.invalidPath, Refusal.einval, by rw [rawFailure?, hop, htext], ?_⟩
      exact handle_of_error (by rw [Request.resolve, ← hcode, hop, htext]) r
    | some path =>
      have hd : Decodes devel code bytes op path := ⟨hop, Text.fromUTF8?_eq_some_iff.mp htext⟩
      simp only [rawFailure?, hop, htext, handle_of_decodes hd]
      rcases handle_control devel r op path blocker with hdone | ⟨reason, hrefused⟩
      · rw [hdone]
        exact .inr ⟨op, path, rfl, hd, hdone, rfl⟩
      · rw [hrefused]
        exact .inl ⟨reason, reason.errno, rfl, rfl⟩

/-! ### Error numbers -/

/-- Why a request fails, with the number of the error, if it is a raw request that fails. -/
def Request.rawFailure? (devel : Bool) (r : Registry) : Request → Option (Refusal × Nat)
  | controlRaw code bytes blocker => Blocks.rawFailure? devel r code bytes blocker
  | _ => none

/-- Only a raw request that fails leaves an error number behind. -/
theorem errno?_handle (devel : Bool) (r : Registry) (request : Request) :
    (r.handle devel request).1.errno? = (request.rawFailure? devel r).map Prod.snd := by
  cases request with
  | controlRaw code bytes blocker =>
    rw [Request.rawFailure?]
    rcases handle_controlRaw devel r code bytes blocker with
      ⟨reason, errno, hfailure, hhandle⟩ | ⟨op, path, hfailure, -, -, hhandle⟩
    · rw [hfailure, hhandle]
      rfl
    · rw [hfailure, hhandle]
      rfl
  | _ =>
    unfold Registry.handle
    split <;> rfl

namespace Host

variable {h : Host}

theorem setRegistry_self (h : Host) (n : Nat) : h.setRegistry n (h.registry n) = h := by
  have hsame : (fun m => if m = n then h.registry n else h.registry m) = h.registry := by
    funext m
    split
    · rename_i hm
      rw [hm]
    · rfl
  rw [setRegistry, hsame]

theorem errno_call (devel : Bool) (h : Host) (c : Call) (t : Nat) :
    (h.call devel c).2.errno t =
      if c.thread = t then
        ((c.request.rawFailure? devel (h.registry c.registry)).map Prod.snd).getD (h.errno t)
      else h.errno t := by
  have herrno := errno?_handle devel (h.registry c.registry) c.request
  simp only [call, note]
  rw [← herrno]
  cases ((h.registry c.registry).handle devel c.request).1.errno? with
  | none => simp [setRegistry]
  | some errno => simp [setRegistry, eq_comm]

/-- Why the raw requests of a thread that fail do so, in order. -/
def failures (devel : Bool) (t : Nat) : List Call → Host → List (Refusal × Nat)
  | [], _ => []
  | c :: rest, h =>
    let later := failures devel t rest (h.call devel c).2
    match c.request.rawFailure? devel (h.registry c.registry) with
    | some failure => if c.thread = t then failure :: later else later
    | none => later

/-- What a thread's error number is after calls: that of its last failure, or what it was. -/
theorem errno_callAll (devel : Bool) (calls : List Call) (h : Host) (t : Nat) :
    (callAll devel calls h).2.errno t =
      ((h.failures devel t calls).getLast?.map Prod.snd).getD (h.errno t) := by
  -- By induction on the calls. What the first one leaves behind is what the rest start from, so it
  -- shows only if none of the rest fails.
  induction calls generalizing h with
  | nil => rfl
  | cons c rest ih =>
    have hcall := errno_call devel h c t
    have hrest := ih (h.call devel c).2
    rw [failures]
    cases hfailure : c.request.rawFailure? devel (h.registry c.registry) with
    | none =>
      rw [hfailure] at hcall
      simp only [Option.map_none, Option.getD_none, ite_self] at hcall
      rw [hcall] at hrest
      exact hrest
    | some failure =>
      rw [hfailure] at hcall
      by_cases ht : c.thread = t
      · simp only [ht, if_true, Option.map_some, Option.getD_some] at hcall ⊢
        rw [hcall] at hrest
        rw [List.getLast?_cons]
        refine hrest.trans ?_
        cases (failures devel t rest (h.call devel c).2).getLast? <;> rfl
      · simp only [ht, if_false] at hcall ⊢
        rw [hcall] at hrest
        exact hrest

end Host

/-! ### Main result -/

/-- What a raw request made by thread `t` to registry `n` comes to, beside the typed request that
it may stand for. -/
structure RawAgrees (devel : Bool) (h : Host) (t n : Nat) (code : UInt32) (bytes : ByteArray)
    (blocker : Blocker) : Prop where
  succeeds_iff : (h.call devel ⟨t, n, .controlRaw code bytes blocker⟩).1.answer = .status 0 ↔
    ∃ op path, Decodes devel code bytes op path ∧
      (h.call devel ⟨t, n, .control op path blocker⟩).1.answer = .done
  effect : ∀ op path, Decodes devel code bytes op path →
    (h.call devel ⟨t, n, .controlRaw code bytes blocker⟩).1.answer = .status 0 →
      (h.call devel ⟨t, n, .controlRaw code bytes blocker⟩).2 =
        (h.call devel ⟨t, n, .control op path blocker⟩).2
  failure : (h.call devel ⟨t, n, .controlRaw code bytes blocker⟩).1.answer ≠ .status 0 →
    ∃ reason errno, rawFailure? devel (h.registry n) code bytes blocker = some (reason, errno) ∧
      h.call devel ⟨t, n, .controlRaw code bytes blocker⟩ =
        (rawFailed code blocker reason errno,
          { h with errno := fun u => if u = t then errno else h.errno u })

theorem rawAgrees (devel : Bool) (h : Host) (t n : Nat) (code : UInt32) (bytes : ByteArray)
    (blocker : Blocker) : RawAgrees devel h t n code bytes blocker := by
  have hraw := handle_controlRaw devel (h.registry n) code bytes blocker
  constructor
  · constructor
    · intro hzero
      rcases hraw with ⟨reason, errno, -, hhandle⟩ | ⟨op, path, -, hd, hdone, -⟩
      · simp only [Host.call, hhandle, rawFailed] at hzero
        cases hzero
      · exact ⟨op, path, hd, hdone⟩
    · rintro ⟨op, path, hd, hdone⟩
      have hanswer : ((h.registry n).handle devel (.control op path blocker)).1.answer = .done :=
        hdone
      simp only [Host.call, handle_of_decodes hd, hanswer]
      rfl
  · intro op path hd hzero
    rcases handle_control devel (h.registry n) op path blocker with hdone | ⟨reason, hrefused⟩
    · have htyped := errno?_handle devel (h.registry n) (.control op path blocker)
      simp only [Host.call, handle_of_decodes hd, hdone, Host.note, htyped]
      rfl
    · simp only [Host.call, handle_of_decodes hd, hrefused, Request.report] at hzero
      cases hzero
  · intro hnonzero
    rcases hraw with ⟨reason, errno, hfailure, hhandle⟩ | ⟨op, path, -, -, -, hhandle⟩
    · refine ⟨reason, errno, hfailure, ?_⟩
      simp only [Host.call, hhandle, Host.setRegistry_self]
      rfl
    · simp only [Host.call, hhandle] at hnonzero
      exact absurd rfl hnonzero

/-- Thread 0 fails for an unknown number before its bytes are looked at, thread 1 for a blocked
path. A typed call that fails and a raw one that succeeds change nothing. -/
example :
    let host := (Host.callAll false
      [⟨0, 0, .controlRaw 98 ⟨#[47]⟩ ⟨1⟩⟩, ⟨1, 0, .controlRaw 98 ⟨#[47]⟩ ⟨2⟩⟩,
        ⟨0, 1, .controlRaw 100 ⟨#[255]⟩ ⟨1⟩⟩, ⟨1, 0, .delete "/" ⟨2⟩⟩,
        ⟨1, 0, .controlRaw 99 ⟨#[47]⟩ ⟨1⟩⟩] {}).2
    (host.errno 0, host.errno 1, host.errno 2) = (22, 17, 0) := by decide

end Interlock.Blocks
