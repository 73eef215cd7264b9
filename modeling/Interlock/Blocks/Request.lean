import Interlock.Blocks.Control
import Interlock.Blocks.Event
import Interlock.Blocks.Registry

/-!
# Requests of the registry

A `Request` is answered in three parts. It is first resolved, without looking at the registry, into
the `Section` that it needs: what is done to the registry in one go, under its mutex. The section
then runs, and last its answer is reported. A raw control request is resolved from a number and
bytes, answers 0 or -1, and leaves the reason of a failure in the log and in an error number.
-/

namespace Interlock.Blocks

/-- What may be asked of the registry. -/
inductive Request where
  | add (path : String) (blocker : Blocker)
  | delete (path : String) (blocker : Blocker)
  /-- Removes all blocks of a blocker. -/
  | removeAll (blocker : Blocker)
  | isBlocked (path : String)
  | list
  | control (op : ControlOp) (path : String) (blocker : Blocker)
  /-- A control request as it comes through the control file. -/
  | controlRaw (code : UInt32) (path : ByteArray) (blocker : Blocker)

/-- What is done to the registry in one go. -/
inductive Section where
  | add (path : String) (blocker : Blocker)
  | delete (path : String) (blocker : Blocker)
  | removeAll (blocker : Blocker)
  | isBlocked (path : String)
  | list
  /-- Writes the blocks to the log. -/
  | dump
  deriving DecidableEq, Repr

/-- What the registry answers. -/
inductive Answer where
  | done
  | refused (reason : Refusal)
  | count (n : Nat)
  | yes (b : Bool)
  | listing (blocks : List (String × Blocker))
  | status (code : Int)
  deriving DecidableEq, Repr

/-- What a section comes to. -/
structure Result where
  registry : Registry
  answer : Answer
  events : List Event := []
  /-- Whether waiters have to be notified: a block was removed. -/
  notify : Bool := false

/-- Runs a section. -/
def Section.run (s : Section) (r : Registry) : Result :=
  match s with
  | add path blocker =>
    match r.add path blocker with
    | .ok registry => { registry, answer := .done, events := [.added path blocker] }
    | .error e => { registry := r, answer := .refused e }
  | delete path blocker =>
    match r.delete path blocker with
    | .ok registry =>
      { registry, answer := .done, events := [.deleted path blocker], notify := true }
    | .error e => { registry := r, answer := .refused e }
  | removeAll blocker =>
    let registry := r.removeAll blocker
    let count := r.size - registry.size
    if count > 0 then
      { registry, answer := .count count, events := [.removed blocker count], notify := true }
    else { registry, answer := .count count }
  | isBlocked path => { registry := r, answer := .yes (r.isBlocked path) }
  | list => { registry := r, answer := .listing r.list }
  | dump =>
    let blocks := r.list
    { registry := r
      answer := .done
      events := .counted blocks.length :: blocks.map fun (path, owner) => .listed path owner }

/-- What a caller gets: the answer, what the log saw, and the error number if one was left. -/
structure Reply where
  answer : Answer
  events : List Event := []
  errno? : Option Nat := none
  deriving DecidableEq, Repr

namespace Request

/-- The section of a control request. Listing takes any path. -/
def resolveControl (op : ControlOp) (path : String) (blocker : Blocker) :
    Except Refusal Section := do
  match op with
  | .add => checkPath path; return .add path blocker
  | .delete => checkPath path; return .delete path blocker
  | .list => return .dump

/-- The section that a request needs, unless it is refused before the registry is looked at. -/
def resolve (devel : Bool) : Request → Except Refusal Section
  | add path blocker => resolveControl .add path blocker
  | delete path blocker => resolveControl .delete path blocker
  | removeAll blocker => .ok (.removeAll blocker)
  | isBlocked path => .ok (.isBlocked path)
  | list => .ok .list
  | control op path blocker => resolveControl op path blocker
  | controlRaw code bytes blocker =>
    match ControlOp.ofCode devel code with
    | none => .error (.unknownOp code)
    | some op =>
      match String.fromUTF8? bytes with
      | none => .error .invalidPath
      | some path => resolveControl op path blocker

/-- Reports the answer of a request, with the events so far. -/
def report (request : Request) (answer : Answer) (events : List Event) : Reply :=
  match request with
  | controlRaw code _ blocker =>
    match answer with
    | .refused reason =>
      { answer := .status (-1)
        events := events ++ [.failed code blocker reason]
        errno? := some reason.errno }
    | _ => { answer := .status 0, events }
  | _ => { answer, events }

end Request

/-- Answers a request. -/
def Registry.handle (devel : Bool) (r : Registry) (request : Request) : Reply × Registry :=
  match request.resolve devel with
  | .error reason => (request.report (.refused reason) [], r)
  | .ok s =>
    let result := s.run r
    (request.report result.answer result.events, result.registry)

/-- Answers requests one after the other. -/
def Registry.handleAll (devel : Bool) : List Request → Registry → List Reply × Registry
  | [], r => ([], r)
  | request :: rest, r =>
    let (reply, r) := r.handle devel request
    let (replies, r) := handleAll devel rest r
    (reply :: replies, r)

end Interlock.Blocks
