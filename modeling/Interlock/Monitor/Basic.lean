/-!
# A value behind a mutex and a condition variable

A `Monitor` is a shared value with three words: the state word of a mutex, and the sequence and
waiter words of a condition variable. Its threads take steps that are single accesses to one of
these words, single steps on a wait queue, or single steps on the value. What a thread wants is
given by a client: a function from the client's own state to its next `Action`. Where the thread
stands inside that action is its `Stage`.

The state word is `free`, `taken`, or `contended`: taken, and whoever lets go has to wake a
sleeper.
-/

namespace Interlock

/-- The words of a monitor and the value they protect. -/
structure Shared (V : Type) where
  /-- The state word of the mutex. -/
  word : BitVec 32 := 0
  /-- Counts notifications. -/
  seq : BitVec 32 := 0
  /-- Counts the threads inside a wait. -/
  waiters : BitVec 32 := 0
  value : V

namespace Monitor

/-- The state word when nobody holds the mutex. -/
def free : BitVec 32 := 0

/-- The state word when somebody holds the mutex and nobody is known to sleep on it. -/
def taken : BitVec 32 := 1

/-- The state word when somebody holds the mutex and has to wake a sleeper on letting go. -/
def contended : BitVec 32 := 2

/-- How often a thread watches the word before it marks it contended. -/
def spinLimit : Nat := 100

/-- What a client may do next. `κ` is the client's own state. -/
inductive Action (V κ : Type) where
  /-- Goes on without touching anything shared. -/
  | pass (k : κ)
  /-- One step on the value; the thread must hold the guard. -/
  | update (f : V → V × κ)
  | lock (k : κ)
  /-- Takes the guard if it is to be had at once. -/
  | tryLock (k : Bool → κ)
  /-- Lets the guard go, if the thread holds it. -/
  | unlock (k : κ)
  /-- Lets the guard go, sleeps until a notification, and takes the guard again. -/
  | wait (k : κ)
  /-- Notifies all waiters or one. -/
  | notify (all : Bool) (k : κ)
  | halt

/-- A client: what it does next in each of its states. -/
abbrev Client (V κ : Type) := κ → Action V κ

/-- What a thread does once it has taken the mutex. -/
inductive OnTaken (κ : Type) where
  | resume (k : κ)
  /-- It comes back from a wait. -/
  | rejoin (k : κ)
  deriving DecidableEq, Repr

/-- What a thread does once it has let the mutex go. -/
inductive OnFreed (κ : Type) where
  | resume (k : κ)
  /-- It is in a wait that read `seen` from the sequence word. -/
  | park (seen : BitVec 32) (k : κ)
  deriving DecidableEq, Repr

/-- Where a thread stands between two of its steps. -/
inductive Stage (κ : Type) where
  /-- Outside of every call. -/
  | client (k : κ)
  /-- About to swap `taken` in for `free`. -/
  | locking (next : OnTaken κ)
  /-- About to read the state word; `left` more reads may follow. -/
  | spinning (left : Nat) (next : OnTaken κ)
  /-- Saw the word free and is about to swap `taken` in. -/
  | grabbing (left : Nat) (next : OnTaken κ)
  /-- About to exchange `contended` in. -/
  | marking (next : OnTaken κ)
  /-- About to sleep if the word is still `contended`. -/
  | lockWait (next : OnTaken κ)
  | lockAsleep (next : OnTaken κ)
  /-- About to exchange `free` in. -/
  | releasing (next : OnFreed κ)
  /-- About to wake one sleeper of the state word. -/
  | lockWake (next : OnFreed κ)
  /-- About to count itself among the waiters. -/
  | enlisting (k : κ)
  /-- About to read the sequence word. -/
  | sampling (k : κ)
  /-- About to sleep if the sequence word is still `seen`. -/
  | condWait (seen : BitVec 32) (k : κ)
  | condAsleep (seen : BitVec 32) (k : κ)
  /-- About to take itself out of the waiters. -/
  | delisting (k : κ)
  /-- About to read the count of waiters. -/
  | counting (all : Bool) (k : κ)
  /-- About to increment the sequence word. -/
  | bumping (all : Bool) (k : κ)
  /-- About to wake sleepers of the sequence word. -/
  | condWake (all : Bool) (k : κ)
  deriving DecidableEq, Repr

/-- A thread: whether it holds the guard, and where it stands. The guard counts from the step that
found the word free and replaced it to the exchange that lets it go. -/
structure Thread (κ : Type) where
  guard : Bool := false
  stage : Stage κ
  deriving DecidableEq, Repr

namespace Thread

variable {κ : Type}

/-- Whether a thread sleeps on the state word. -/
def asleepOnLock (th : Thread κ) : Bool :=
  match th.stage with
  | .lockAsleep _ => true
  | _ => false

/-- Whether a thread sleeps on the sequence word. -/
def asleepOnCondition (th : Thread κ) : Bool :=
  match th.stage with
  | .condAsleep .. => true
  | _ => false

/-- A sleeper awake again: on the state word it marks the word anew, on the sequence word it goes
to take the mutex. A thread that is awake stays as it is. -/
def rouse (th : Thread κ) : Thread κ :=
  match th.stage with
  | .lockAsleep next => { th with stage := .marking next }
  | .condAsleep _ k => { th with stage := .locking (.rejoin k) }
  | _ => th

end Thread

/-- What a step shows of the order in which the mutex was held, and of the counts that the
condition variable rests on. -/
inductive Event (V : Type) where
  | acquired (value : V)
  | updated (before after : V)
  | released (value : V) (waiting : Bool)
  /-- A waiter read the sequence word. -/
  | sampled
  /-- A notification incremented the sequence word. -/
  | bumped
  /-- A notification was over, whether it woke anybody or not. -/
  | notified (all : Bool)
  deriving DecidableEq, Repr

end Monitor

/-- A shared value, the threads that use it, and what happened so far, the latest first. -/
structure Monitor (V κ : Type) where
  shared : Shared V
  threads : List (Monitor.Thread κ)
  trace : List (Nat × Monitor.Event V) := []

end Interlock
