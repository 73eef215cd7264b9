import Interlock.Monitor.Step
import Interlock.Text.Shown

/-!
# A list shared through a monitor

The value is a list of numbers. Thread 0 is its user, who takes and drops the guard and edits the
list one request at a time; appenders may be set to work beside it. An appender reads the list in
one step and stores the longer list in another, so that only the mutex keeps two of them apart.
What comes out of a run is the list, with the numbers that were appended put in order, since
appenders finish in any order.
-/

namespace Interlock.SharedList

open Monitor

/-- What a thread that uses the list is about to do. -/
inductive Job where
  | idle
  | locking
  | trying
  | tried (taken : Bool)
  | unlocking
  | notifying (all : Bool)
  | editing (f : List Int → List Int)
  /-- Append the items one by one; after each, notify as `tell` says. -/
  | append (items : List Int) (tell : Option Bool)
  | fetch (item : Int) (items : List Int) (tell : Option Bool)
  | store (seen : List Int) (item : Int) (items : List Int) (tell : Option Bool)
  | leave (items : List Int) (tell : Option Bool)
  | announce (all : Bool) (items : List Int)
  /-- Wait until the list has at least `target` items. -/
  | await (target : Nat)
  | test (target : Nat)
  | sleep (target : Nat)

/-- The client that carries out jobs. -/
def client : Client (List Int) Job
  | .idle | .tried _ | .append [] _ => .halt
  | .locking => .lock .idle
  | .trying => .tryLock .tried
  | .unlocking => .unlock .idle
  | .notifying all => .notify all .idle
  | .editing f => .update fun v => (f v, .idle)
  | .append (item :: items) tell => .lock (.fetch item items tell)
  | .fetch item items tell => .update fun v => (v, .store v item items tell)
  | .store seen item items tell => .update fun _ => (seen ++ [item], .leave items tell)
  | .leave items tell =>
    .unlock <| match tell with
      | none => .append items none
      | some all => .announce all items
  | .announce all items => .notify all (.append items (some all))
  | .await target => .lock (.test target)
  | .test target => .update fun v => (v, if v.length < target then .sleep target else .unlocking)
  | .sleep target => .wait (.test target)

/-- The list, the monitor around it, and its threads. -/
abbrev State : Type := Monitor (List Int) Job

/-- A list with its user and nobody else. -/
def start (items : List Int) : State := Monitor.start items [.idle]

/-- The items of the list. -/
def items (s : State) : List Int := s.shared.value

/-- Gives thread `t` a job. -/
def assign (t : Nat) (job : Job) (s : State) : State :=
  { s with threads := s.threads.modify t fun th => { th with stage := .client job } }

/-- The user carries out a job alone. Eight steps are more than any job of its own takes. -/
def request (job : Job) (s : State) : State :=
  (assign 0 job s).run client (turn (List.replicate 8 0))

/-- Takes the guard if it is to be had at once, and says whether it was. -/
def tryLock (s : State) : Bool × State :=
  let s := request .trying s
  (s.threads.any (·.stage matches .client (.tried true)), s)

/-- Whether the user holds the guard. -/
def held (s : State) : Bool := s.threads[0]?.any (·.guard)

/-- Puts the items after the first `n` in order. -/
def sortedFrom (n : Nat) (items : List Int) : List Int :=
  items.take n ++ (items.drop n).mergeSort

/-- Rounds of turns in which appenders with the given batches surely finish. -/
def rounds (batches : List (List Int)) : Nat :=
  500 + 100 * batches.flatten.length

/-- Sets one appender to work for each batch while the user does `job`. A user who holds the guard
keeps it until every appender has found the mutex taken and gone to sleep, and lets it go first. -/
def crew (batches : List (List Int)) (tell : Option Bool) (job : Job) (s : State) : State :=
  let earlier := (items s).length
  let workers := batches.map fun b => ({ stage := .client (.append b tell) } : Thread Job)
  let s := { s with threads := s.threads.take 1 ++ workers }
  let others := (List.range batches.length).map (· + 1)
  let s := if held s then request .unlocking (takeTurns client others (2 * spinLimit) s) else s
  let s := takeTurns client (0 :: others) (rounds batches) (assign 0 job s)
  { s with
    shared := { s.shared with value := sortedFrom earlier s.shared.value }
    threads := s.threads.take 1 }

/-- Appenders work while the user stands by. -/
def contend (batches : List (List Int)) : State → State := crew batches none .idle

/-- Appenders notify after each item while the user waits until everything is there. -/
def waitFor (batches : List (List Int)) (all : Bool) (s : State) : State :=
  crew batches (some all) (.await ((items s).length + batches.flatten.length)) s

/-- How the mutex is shown: whether it is held, and not what it protects. -/
def shown (s : State) : Shown :=
  .record "Mutex" [.labelled "locked" (.plain (toString (isLocked s))), .more]

end Interlock.SharedList
