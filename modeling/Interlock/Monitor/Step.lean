import Interlock.Monitor.Basic

/-!
# Steps of a monitor

`Thread.step` is one step of one thread: at most one access to one word, one step on a wait queue,
or one step on the value. `Monitor.step` is one move: a step of a thread, with the choice of the
sleeper that a wake of one goes to, or a sleeper waking for no reason. Schedules are lists of
moves, so every interleaving and every choice is some schedule.
-/

namespace Interlock.Monitor

variable {V κ : Type}

/-- Where a thread goes that has taken the mutex. -/
def OnTaken.stage : OnTaken κ → Stage κ
  | .resume k => .client k
  | .rejoin k => .delisting k

/-- Where a thread goes that has let the mutex go and woken whom it had to. -/
def OnFreed.stage : OnFreed κ → Stage κ
  | .resume k => .client k
  | .park seen k => .condWait seen k

/-- Whether a thread lets the mutex go for a wait. -/
def OnFreed.waiting : OnFreed κ → Bool
  | .resume _ => false
  | .park .. => true

/-- Where a thread goes that may watch the word `left` times more. -/
def spin (left : Nat) (next : OnTaken κ) : Stage κ :=
  match left with
  | 0 => .marking next
  | left + 1 => .spinning left next

/-- Whom a step wakes. -/
inductive Wake where
  | nobody
  | oneOnLock
  | oneOnCondition
  | allOnCondition
  deriving DecidableEq, Repr

/-- What one step of a thread comes to. -/
structure Effect (V κ : Type) where
  shared : Shared V
  thread : Thread κ
  wake : Wake := .nobody
  event : Option (Event V) := none

/-- The step that takes the mutex and leaves `word` in it. -/
def takeMutex (m : Shared V) (word : BitVec 32) (next : OnTaken κ) : Effect V κ where
  shared := { m with word }
  thread := { guard := true, stage := next.stage }
  event := some (.acquired m.value)

/-- The next step of a client that is outside of every call. An action that needs the guard has no
step without it. -/
def clientStep (action : Action V κ) (th : Thread κ) (m : Shared V) : Option (Effect V κ) :=
  match action with
  | .pass k => some { shared := m, thread := { th with stage := .client k } }
  | .update f =>
    if th.guard then
      let (value, k) := f m.value
      some {
        shared := { m with value }
        thread := { th with stage := .client k }
        event := some (.updated m.value value) }
    else none
  | .lock k => some { shared := m, thread := { th with stage := .locking (.resume k) } }
  | .tryLock k =>
    if m.word = free then some (takeMutex m taken (.resume (k true)))
    else some { shared := m, thread := { th with stage := .client (k false) } }
  | .unlock k =>
    let stage := if th.guard then .releasing (.resume k) else .client k
    some { shared := m, thread := { th with stage } }
  | .wait k =>
    if th.guard then some { shared := m, thread := { th with stage := .enlisting k } } else none
  | .notify all k => some { shared := m, thread := { th with stage := .counting all k } }
  | .halt => none

/-- The next step of a thread. A thread that sleeps or has halted has none. -/
def Thread.step (client : Client V κ) (th : Thread κ) (m : Shared V) : Option (Effect V κ) :=
  let goto (stage : Stage κ) : Option (Effect V κ) :=
    some { shared := m, thread := { th with stage } }
  match th.stage with
  | .client k => clientStep (client k) th m
  | .locking next =>
    if m.word = free then some (takeMutex m taken next) else goto (spin spinLimit next)
  | .spinning left next =>
    if m.word = free then goto (.grabbing left next)
    else if m.word = contended then goto (.marking next)
    else goto (spin left next)
  | .grabbing left next =>
    if m.word = free then some (takeMutex m taken next) else goto (spin left next)
  | .marking next =>
    if m.word = free then some (takeMutex m contended next)
    else some {
      shared := { m with word := contended }
      thread := { th with stage := .lockWait next } }
  | .lockWait next => goto (if m.word = contended then .lockAsleep next else .marking next)
  | .lockAsleep _ => none
  | .releasing next =>
    some {
      shared := { m with word := free }
      thread := {
        guard := false
        stage := if m.word = contended then .lockWake next else next.stage }
      event := some (.released m.value next.waiting) }
  | .lockWake next =>
    some { shared := m, thread := { th with stage := next.stage }, wake := .oneOnLock }
  | .enlisting k =>
    some {
      shared := { m with waiters := m.waiters + 1 }
      thread := { th with stage := .sampling k } }
  | .sampling k =>
    some {
      shared := m
      thread := { th with stage := .releasing (.park m.seq k) }
      event := some .sampled }
  | .condWait seen k =>
    goto (if m.seq = seen then .condAsleep seen k else .locking (.rejoin k))
  | .condAsleep .. => none
  | .delisting k =>
    some {
      shared := { m with waiters := m.waiters - 1 }
      thread := { th with stage := .client k } }
  | .counting all k =>
    if m.waiters = 0 then
      some {
        shared := m
        thread := { th with stage := .client k }
        event := some (.notified all) }
    else goto (.bumping all k)
  | .bumping all k =>
    some {
      shared := { m with seq := m.seq + 1 }
      thread := { th with stage := .condWake all k }
      event := some .bumped }
  | .condWake all k =>
    some {
      shared := m
      thread := { th with stage := .client k }
      wake := if all then .allOnCondition else .oneOnCondition
      event := some (.notified all) }

/-- Wakes one sleeper, if there is any: the picked thread if it is one, else the first. -/
def wakeOne (asleep : Thread κ → Bool) (pick : Nat) (threads : List (Thread κ)) :
    List (Thread κ) :=
  let chosen := if threads[pick]?.any asleep then some pick else threads.findIdx? asleep
  match chosen with
  | some i => threads.modify i Thread.rouse
  | none => threads

/-- The threads after a wake. -/
def Wake.apply (wake : Wake) (pick : Nat) (threads : List (Thread κ)) : List (Thread κ) :=
  match wake with
  | .nobody => threads
  | .oneOnLock => wakeOne Thread.asleepOnLock pick threads
  | .oneOnCondition => wakeOne Thread.asleepOnCondition pick threads
  | .allOnCondition => threads.map fun th => if th.asleepOnCondition then th.rouse else th

/-- One move of a monitor. -/
inductive Move where
  /-- Thread `t` takes its next step; a wake of one goes to `pick` if that thread sleeps there. -/
  | thread (t pick : Nat)
  /-- Thread `t` wakes for no reason, if it sleeps. -/
  | spurious (t : Nat)
  deriving DecidableEq, Repr

/-- Carries out one move. A thread that does not exist or has no step changes nothing. -/
def step (client : Client V κ) (m : Monitor V κ) : Move → Monitor V κ
  | .spurious t => { m with threads := m.threads.modify t Thread.rouse }
  | .thread t pick =>
    match m.threads[t]? with
    | none => m
    | some th =>
      match th.step client m.shared with
      | none => m
      | some e =>
        { shared := e.shared
          threads := e.wake.apply pick (m.threads.set t e.thread)
          trace := (e.event.map (t, ·)).toList ++ m.trace }

/-- Follows a schedule. -/
def run (client : Client V κ) (m : Monitor V κ) (schedule : List Move) : Monitor V κ :=
  schedule.foldl (step client) m

@[simp] theorem run_nil (client : Client V κ) (m : Monitor V κ) : m.run client [] = m := rfl

@[simp] theorem run_cons (client : Client V κ) (m : Monitor V κ) (move : Move) (s : List Move) :
    m.run client (move :: s) = (m.step client move).run client s := rfl

theorem run_append (client : Client V κ) (m : Monitor V κ) (s t : List Move) :
    m.run client (s ++ t) = (m.run client s).run client t :=
  List.foldl_append

/-- Threads in the given client states on a free mutex with nobody waiting. -/
def start (value : V) (clients : List κ) : Monitor V κ where
  shared := { value }
  threads := clients.map fun k => { stage := .client k }

/-- Whether a client has halted outside of every call. -/
def Thread.halted (client : Client V κ) (th : Thread κ) : Bool :=
  match th.stage with
  | .client k =>
    match client k with
    | .halt => true
    | _ => false
  | _ => false

/-- Whether every thread has halted. -/
def halted (client : Client V κ) (m : Monitor V κ) : Bool := m.threads.all (·.halted client)

/-- Whether none of the given threads has a step: each sleeps or has halted. -/
def atRest (client : Client V κ) (m : Monitor V κ) (threads : List Nat) : Bool :=
  threads.all fun t => (m.threads[t]?.bind (·.step client m.shared)).isNone

/-- One turn for each of the given threads. -/
def turn (threads : List Nat) : List Move := threads.map fun t => .thread t 0

/-- Gives the threads turns, round by round, until all are at rest or the rounds are over. -/
def takeTurns (client : Client V κ) (threads : List Nat) : Nat → Monitor V κ → Monitor V κ
  | 0, m => m
  | rounds + 1, m =>
    if m.atRest client threads then m
    else takeTurns client threads rounds (m.run client (turn threads))

/-- Whether the mutex is held, as a reader of the word sees it. -/
def isLocked (m : Monitor V κ) : Bool := m.shared.word != free

end Interlock.Monitor
