import Interlock.Blocks.Request
import Interlock.Proofs.Blocks.PathMap

/-!
# The registry refines a map of paths to owners

A map answers requests by one operation each, and a refused operation leaves the map as it was. The
registry answers a request in three parts, so the comparison goes by the middle one: what the
section comes to on the registry is what the operation comes to on the map, and both report it
in one way. The whole list of blocks is no matter of this comparison, since a map has no order.
-/

namespace Interlock.Blocks

/-! ### Requests on a map -/

/-- A request of one path or one blocker: any but for the list of all blocks. -/
abbrev MapRequest := {request : Request // request ≠ .list}

namespace PathMap

/-- The reply to an operation, and the map after it. -/
def settle (m : PathMap) : Except Refusal PathMap → Reply × PathMap
  | .error reason => ({ answer := .refused reason }, m)
  | .ok m' => ({ answer := .done }, m')

/-- The reply to a raw operation: a status, with the error number of a refusal. -/
def settleRaw (m : PathMap) : Except Refusal PathMap → Reply × PathMap
  | .error reason => ({ answer := .status (-1), errno? := some reason.errno }, m)
  | .ok m' => ({ answer := .status 0 }, m')

/-- The reply to a request, but for what goes into the log, and the map after it. -/
noncomputable def handle (devel : Bool) (m : PathMap) : MapRequest → Reply × PathMap
  | ⟨.add path blocker, _⟩ => m.settle (m.add path blocker)
  | ⟨.delete path blocker, _⟩ => m.settle (m.delete path blocker)
  | ⟨.removeAll blocker, _⟩ => ({ answer := .count (m.count blocker) }, m.removeAll blocker)
  | ⟨.isBlocked path, _⟩ => ({ answer := .yes (m path).isSome }, m)
  | ⟨.control op path blocker, _⟩ => m.settle (m.control op path blocker)
  | ⟨.controlRaw code bytes blocker, _⟩ => m.settleRaw (m.controlRaw devel code bytes blocker)
  | ⟨.list, h⟩ => absurd rfl h

/-- Handles requests one after the other. -/
noncomputable def handleAll (devel : Bool) : List MapRequest → PathMap → List Reply × PathMap
  | [], m => ([], m)
  | request :: rest, m =>
    let (reply, m) := handle devel m request
    let (replies, m) := handleAll devel rest m
    (reply :: replies, m)

end PathMap

/-- A reply without what the log saw. -/
def Reply.unlogged (reply : Reply) : Reply := { reply with events := [] }

/-- A reply that tells of a failure. -/
def Reply.Failed (reply : Reply) : Prop :=
  (∃ reason, reply.answer = .refused reason) ∨ reply.answer = .status (-1)

/-- The requests that only ask. -/
def Request.Asks (devel : Bool) : Request → Prop
  | .isBlocked _ | .list | .control .list _ _ => True
  | .controlRaw code _ _ => devel ∧ code = 100
  | _ => False

/-! ### Sections -/

/-- What a request comes to on a registry once it is resolved, before it is reported. -/
def Registry.settle (r : Registry) : Except Refusal Section → Answer × Registry
  | .error reason => (.refused reason, r)
  | .ok s => ((s.run r).answer, (s.run r).registry)

/-- What a request comes to on a registry is what an operation comes to on its map. -/
inductive Agree (r : Registry) : Answer × Registry → Except Refusal PathMap → Prop
  | refused (reason : Refusal) : Agree r (.refused reason, r) (.error reason)
  | done (r' : Registry) (h : r'.WellFormed) : Agree r (.done, r') (.ok r'.owner?)

variable {r : Registry} {devel : Bool}

theorem agree_add (h : r.WellFormed) (path : String) (blocker : Blocker) :
    Agree r (r.settle (Request.resolveControl .add path blocker))
      (PathMap.add r.owner? path blocker) := by
  simp only [Request.resolveControl, checkPath_eq_check, PathMap.add]
  cases hpath : PathMap.check path with
  | error reason => exact .refused reason
  | ok =>
    cases howner : r.owner? path with
    | none =>
      have hadd : r.add path blocker = .ok ⟨(path, blocker) :: r.blocks⟩ := by
        simp [Registry.add, Registry.isBlocked, howner]
      have hmap := Registry.owner?_cons (path, blocker) r.blocks
      simp only [Registry.settle, Section.run, hadd, pure, bind, Except.bind, Except.pure, if_true]
      rw [← hmap]
      exact .done _ (h.cons hpath howner)
    | some owner =>
      have hadd : r.add path blocker = .error (.alreadyBlocked path) := by
        simp [Registry.add, Registry.isBlocked, howner]
      simp only [Registry.settle, Section.run, hadd, pure, bind, Except.bind, Except.pure,
        reduceCtorEq, if_false]
      exact .refused _

theorem agree_delete (h : r.WellFormed) (path : String) (blocker : Blocker) :
    Agree r (r.settle (Request.resolveControl .delete path blocker))
      (PathMap.delete r.owner? path blocker) := by
  simp only [Request.resolveControl, checkPath_eq_check, PathMap.delete]
  cases hpath : PathMap.check path with
  | error reason => exact .refused reason
  | ok =>
    simp only [Registry.settle, Section.run, Registry.delete, pure, bind, Except.bind, Except.pure]
    cases howner : r.owner? path with
    | none => exact .refused _
    | some owner =>
      by_cases heq : owner = blocker
      · simp only [if_pos heq, ← Registry.owner?_filter_ne]
        exact .done _ (h.filter _)
      · simp only [if_neg heq]
        exact .refused _

theorem agree_control (h : r.WellFormed) (op : ControlOp) (path : String) (blocker : Blocker) :
    Agree r (r.settle (Request.resolveControl op path blocker))
      (PathMap.control r.owner? op path blocker) := by
  cases op with
  | add => exact agree_add h path blocker
  | delete => exact agree_delete h path blocker
  | list => exact .done r h

theorem agree_controlRaw (h : r.WellFormed) (devel : Bool) (code : UInt32) (bytes : ByteArray)
    (blocker : Blocker) :
    Agree r (r.settle (Request.resolve devel (.controlRaw code bytes blocker)))
      (PathMap.controlRaw devel r.owner? code bytes blocker) := by
  simp only [Request.resolve, PathMap.controlRaw, operation_eq_ofCode]
  cases ControlOp.ofCode devel code with
  | none => exact .refused _
  | some op =>
    cases String.fromUTF8? bytes with
    | none => exact .refused _
    | some path => exact agree_control h op path blocker

theorem run_removeAll (r : Registry) (blocker : Blocker) :
    ((Section.removeAll blocker).run r).answer = .count (r.size - (r.removeAll blocker).size) ∧
      ((Section.removeAll blocker).run r).registry = r.removeAll blocker := by
  simp only [Section.run]
  split <;> exact ⟨rfl, rfl⟩

/-! ### Requests -/

theorem Agree.wellFormed {settled : Answer × Registry} {result : Except Refusal PathMap}
    (ha : Agree r settled result) (h : r.WellFormed) : settled.2.WellFormed := by
  cases ha with
  | refused => exact h
  | done r' h' => exact h'

theorem Agree.settle {settled : Answer × Registry} {result : Except Refusal PathMap}
    (ha : Agree r settled result) :
    ({ answer := settled.1 }, settled.2.owner?) = PathMap.settle r.owner? result := by
  cases ha <;> rfl

theorem Agree.settleRaw {settled : Answer × Registry} {result : Except Refusal PathMap}
    (ha : Agree r settled result) (code : UInt32) (bytes : ByteArray) (blocker : Blocker) :
    (((Request.controlRaw code bytes blocker).report settled.1 []).unlogged, settled.2.owner?) =
      PathMap.settleRaw r.owner? result := by
  cases ha <;> rfl

theorem unlogged_report (request : Request) (answer : Answer) (events : List Event) :
    (request.report answer events).unlogged = (request.report answer []).unlogged := by
  cases request with
  | controlRaw => cases answer <;> rfl
  | _ => rfl

/-- What comes of a request is what was settled, reported. -/
theorem handle_eq_settle (devel : Bool) (r : Registry) (request : Request) :
    let settled := r.settle (request.resolve devel)
    (r.handle devel request).1.unlogged = (request.report settled.1 []).unlogged ∧
      (r.handle devel request).2 = settled.2 := by
  unfold Registry.handle Registry.settle
  cases request.resolve devel with
  | error reason => exact ⟨rfl, rfl⟩
  | ok s => exact ⟨unlogged_report .., rfl⟩

/-- One request does to the registry what it does to the map, and both reply the same. -/
theorem handle_refines (h : r.WellFormed) (devel : Bool) (request : MapRequest) :
    ((r.handle devel request).1.unlogged, (r.handle devel request).2.owner?) =
        PathMap.handle devel r.owner? request ∧
      (r.handle devel request).2.WellFormed := by
  obtain ⟨hreply, hregistry⟩ := handle_eq_settle devel r request
  rw [hreply, hregistry]
  obtain ⟨request, hlist⟩ := request
  cases request with
  | add path blocker =>
    have ha := agree_add h path blocker
    exact ⟨ha.settle, ha.wellFormed h⟩
  | delete path blocker =>
    have ha := agree_delete h path blocker
    exact ⟨ha.settle, ha.wellFormed h⟩
  | removeAll blocker =>
    obtain ⟨hanswer, hremoved⟩ := run_removeAll r blocker
    have hcount := h.size_sub_removeAll blocker
    have howner := h.owner?_removeAll blocker
    simp only [Request.resolve, Registry.settle, hanswer, hremoved, hcount, howner]
    exact ⟨rfl, h.filter _⟩
  | isBlocked path => exact ⟨rfl, h⟩
  | list => exact absurd rfl hlist
  | control op path blocker =>
    have ha := agree_control h op path blocker
    exact ⟨ha.settle, ha.wellFormed h⟩
  | controlRaw code bytes blocker =>
    have ha := agree_controlRaw h devel code bytes blocker
    exact ⟨ha.settleRaw code bytes blocker, ha.wellFormed h⟩

theorem handleAll_refines (h : r.WellFormed) (devel : Bool) (requests : List MapRequest) :
    let handled := Registry.handleAll devel (requests.map Subtype.val) r
    (handled.1.map Reply.unlogged, handled.2.owner?) =
        PathMap.handleAll devel requests r.owner? ∧
      handled.2.WellFormed := by
  -- Well-formedness carries the comparison from one registry to the next.
  induction requests generalizing r with
  | nil => exact ⟨rfl, h⟩
  | cons request rest ih =>
    intro handled
    obtain ⟨hreply, hwell⟩ := handle_refines h devel request
    obtain ⟨hreplies, hwells⟩ := ih hwell
    refine ⟨?_, hwells⟩
    simp only [PathMap.handleAll, ← hreply, ← hreplies]
    rfl

/-! ### Failures and queries -/

/-- A section leaves the registry as it was, or its answer is a success. -/
theorem registry_run_or_succeeds (s : Section) (r : Registry) : (s.run r).registry = r ∨
    (∀ reason, (s.run r).answer ≠ .refused reason) ∧ ∀ code, (s.run r).answer ≠ .status code := by
  cases s with
  | add path blocker =>
    simp only [Section.run]
    split
    · exact .inr ⟨nofun, nofun⟩
    · exact .inl rfl
  | delete path blocker =>
    simp only [Section.run]
    split
    · exact .inr ⟨nofun, nofun⟩
    · exact .inl rfl
  | removeAll blocker =>
    rw [(run_removeAll r blocker).1]
    exact .inr ⟨nofun, nofun⟩
  | isBlocked | list | dump => exact .inl rfl

theorem not_failed_report {answer : Answer} (hr : ∀ reason, answer ≠ .refused reason)
    (hs : ∀ code, answer ≠ .status code) (request : Request) :
    ¬ (request.report answer []).unlogged.Failed := by
  intro h
  cases request with
  | controlRaw code bytes blocker =>
    cases answer with
    | refused reason => exact hr reason rfl
    | _ => rcases h with ⟨reason, h⟩ | h <;> cases h
  | _ =>
    rcases h with ⟨reason, h⟩ | h
    · exact hr reason h
    · exact hs _ h

theorem handle_of_failed {request : Request} (h : (r.handle devel request).1.Failed) :
    (r.handle devel request).2 = r := by
  obtain ⟨hreply, hregistry⟩ := handle_eq_settle devel r request
  have hfailed : (r.handle devel request).1.unlogged.Failed := h
  rw [hreply] at hfailed
  rw [hregistry]
  cases hs : request.resolve devel with
  | error reason => rfl
  | ok s =>
    rw [hs] at hfailed
    rcases registry_run_or_succeeds s r with hsame | ⟨hr, hs⟩
    · exact hsame
    · exact absurd hfailed (not_failed_report hr hs request)

theorem handle_of_asks {request : Request} (h : request.Asks devel) :
    (r.handle devel request).2 = r := by
  rw [(handle_eq_settle devel r request).2]
  cases request with
  | add | delete | removeAll => exact h.elim
  | isBlocked | list => rfl
  | control op path blocker =>
    cases op with
    | add | delete => exact h.elim
    | list => rfl
  | controlRaw code bytes blocker =>
    obtain ⟨rfl, rfl⟩ := h
    have hcode : ControlOp.ofCode true 100 = some .list := rfl
    simp only [Request.resolve, hcode]
    cases String.fromUTF8? bytes <;> rfl

/-! ### Main result -/

/-- Whatever requests an empty registry is sent, it replies as the empty map does, call by call,
and stands for the same map at the end. No path is then in it twice, and none is empty or too long.
Whatever request comes next, the registry stays as it was if the request only asks or fails. -/
theorem registry_refines_map (devel : Bool) (requests : List MapRequest) :
    let (replies, r) := Registry.handleAll devel (requests.map Subtype.val) {}
    (replies.map Reply.unlogged, r.owner?) =
        PathMap.handleAll devel requests PathMap.empty ∧
      r.WellFormed ∧
      ∀ request : Request, request.Asks devel ∨ (r.handle devel request).1.Failed →
        (r.handle devel request).2 = r := by
  obtain ⟨hreplies, hwell⟩ := handleAll_refines Registry.wellFormed_empty devel requests
  refine ⟨hreplies, hwell, ?_⟩
  rintro request (hasks | hfailed)
  · exact handle_of_asks hasks
  · exact handle_of_failed hfailed

/-- A blocker that deletes another's block is refused, and the block stays. -/
theorem registry_refines_map_refused :
    let r := (Registry.handleAll false [.add "/a" ⟨1⟩] {}).2
    (r.handle false (.delete "/a" ⟨2⟩)).1.Failed ∧ (r.handle false (.delete "/a" ⟨2⟩)).2 = r := by
  intro r
  have hfailed : (r.handle false (.delete "/a" ⟨2⟩)).1.Failed := .inl ⟨.notOwner "/a" ⟨1⟩, by rfl⟩
  exact ⟨hfailed, (registry_refines_map false [⟨.add "/a" ⟨1⟩, nofun⟩]).2.2 _ (.inr hfailed)⟩

example :
    (Registry.handleAll true
      [.add "/a" ⟨1⟩, .delete "/a" ⟨2⟩, .controlRaw 98 ⟨#[47, 255]⟩ ⟨1⟩, .controlRaw 100 ⟨#[]⟩ ⟨2⟩,
        .removeAll ⟨1⟩, .isBlocked "/a"] {}).1.map Reply.unlogged =
      [{ answer := .done }, { answer := .refused (.notOwner "/a" ⟨1⟩) },
        { answer := .status (-1), errno? := some 22 }, { answer := .status 0 },
        { answer := .count 1 }, { answer := .yes false }] := by decide

end Interlock.Blocks
