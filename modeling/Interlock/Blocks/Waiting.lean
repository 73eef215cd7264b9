import Interlock.Blocks.Request
import Interlock.Monitor.Step

/-!
# Waiting for a path

The registry lives in a monitor. A thread that makes a request takes the mutex for the section the
request needs, and after a section that removed a block it notifies all waiters, when it has let
the mutex go. A thread that waits for a path looks whether the path is blocked and sleeps until a
notification as long as it is.
-/

namespace Interlock.Blocks

open Monitor

/-- What a thread may be sent to do. -/
inductive Errand where
  | request (request : Request)
  /-- Return once the path has no block. -/
  | waitWhileBlocked (path : String)

/-- What a thread has still to do, and the replies it got, the latest first. -/
structure Agenda where
  todo : List Errand
  replies : List Reply := []

/-- What a thread is about to do. -/
inductive Task where
  | ready (agenda : Agenda)
  /-- In a section of its own, with the mutex. -/
  | inside (request : Request) (s : Section) (agenda : Agenda)
  /-- About to look whether a path is blocked, with the mutex. -/
  | looking (path : String) (agenda : Agenda)
  /-- About to wait for a notification, with the mutex. -/
  | waiting (path : String) (agenda : Agenda)
  /-- About to let the mutex go. -/
  | leaving (notify : Bool) (agenda : Agenda)
  /-- About to notify the waiters. -/
  | telling (agenda : Agenda)

/-- An agenda with one more reply. -/
def Agenda.reply (a : Agenda) (reply : Reply) : Agenda := { a with replies := reply :: a.replies }

/-- The client that runs errands. -/
def errands (devel : Bool) : Client Registry Task
  | .ready ⟨[], _⟩ => .halt
  | .ready ⟨.request request :: todo, replies⟩ =>
    match request.resolve devel with
    | .error reason =>
      .pass (.ready (Agenda.reply ⟨todo, replies⟩ (request.report (.refused reason) [])))
    | .ok s => .lock (.inside request s ⟨todo, replies⟩)
  | .ready ⟨.waitWhileBlocked path :: todo, replies⟩ => .lock (.looking path ⟨todo, replies⟩)
  | .inside request s agenda => .update fun r =>
    let result := s.run r
    (result.registry,
      .leaving result.notify (agenda.reply (request.report result.answer result.events)))
  | .looking path agenda => .update fun r =>
    (r, if r.isBlocked path then .waiting path agenda else .leaving false agenda)
  | .waiting path agenda => .wait (.looking path agenda)
  | .leaving notify agenda => .unlock (if notify then .telling agenda else .ready agenda)
  | .telling agenda => .notify true (.ready agenda)

namespace Lobby

/-- A registry in its monitor: thread 0 makes requests, the others wait for paths. -/
abbrev State : Type := Monitor Registry Task

/-- A lobby in which nobody waits. -/
def start (r : Registry) : State := Monitor.start r [.ready { todo := [] }]

/-- The registry of a lobby. -/
def registry (s : State) : Registry := s.shared.value

/-- Rounds of turns in which the given number of waiters surely go back to sleep or leave. -/
def rounds (waiters : Nat) : Nat := 200 + 200 * waiters

/-- Lets the waiters run until they sleep or have left. -/
def rest (devel : Bool) (s : State) : State :=
  let waiters := s.threads.length - 1
  takeTurns (errands devel) ((List.range waiters).map (· + 1)) (rounds waiters) s

/-- Sends one more thread to wait for each path. -/
def enter (devel : Bool) (paths : List String) (s : State) : State :=
  let waiter (path : String) : Thread Task :=
    { stage := .client (.ready { todo := [.waitWhileBlocked path] }) }
  rest devel { s with threads := s.threads ++ paths.map waiter }

/-- Thread 0 makes a request, after which the waiters run. Sixteen steps are more than any request
takes when the waiters sleep. -/
def serve (devel : Bool) (s : State) (request : Request) : Option Reply × State :=
  let task : Task := .ready { todo := [.request request] }
  let s := { s with threads := s.threads.modify 0 fun th => { th with stage := .client task } }
  let s := s.run (errands devel) (turn (List.replicate 16 0))
  let reply := s.threads[0]?.bind fun th =>
    match th.stage with
    | .client (.ready agenda) => agenda.replies.head?
    | _ => none
  (reply, rest devel s)

/-- The deletions that unblock the given paths, each in its owner's name. -/
def deletions (r : Registry) (paths : List String) : List Request :=
  paths.eraseDups.filterMap fun path => (r.owner? path).map fun owner => .delete path owner

/-- Unblocks the given paths, and gives what the log saw. -/
def unblock (devel : Bool) (paths : List String) (s : State) : List Event × State :=
  (deletions (registry s) paths).foldl (fun (events, s) request =>
    let (reply, s) := serve devel s request
    (events ++ (reply.map (·.events)).getD [], s)) ([], s)

/-- Whether all waiters have left. -/
def empty (devel : Bool) (s : State) : Bool := s.halted (errands devel)

end Lobby

end Interlock.Blocks
