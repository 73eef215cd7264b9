import Interlock.Monitor.Basic

/-!
# A queue with producers and consumers

The value is a list of items, the oldest first. A producer puts one item in, lets the mutex go, and
notifies one waiter. A consumer takes items out for ever, and waits when there is none. Between two
items it may let the mutex go or keep it.
-/

namespace Interlock.Queue

open Monitor

/-- What a producer or a consumer is about to do. -/
inductive Job (α : Type) where
  /-- A consumer outside of the mutex. -/
  | consume
  /-- A consumer with the mutex, about to look for an item. -/
  | look
  /-- A consumer with the mutex that found the queue empty. -/
  | sleep
  /-- A consumer with the mutex that took an item. -/
  | leave
  /-- A producer outside of the mutex. -/
  | produce (item : α)
  /-- A producer with the mutex. -/
  | push (item : α)
  /-- A producer with the mutex whose item is in the queue. -/
  | pushed
  /-- A producer about to notify. -/
  | announce
  /-- A producer that has nothing left to do. -/
  | done
  deriving DecidableEq, Repr

variable {α : Type}

/-- The client that carries out jobs. A consumer keeps the mutex after an item for which `keeps`
holds, and lets it go after any other. -/
def client (keeps : α → Bool) : Client (List α) (Job α)
  | .consume => .lock .look
  | .look => .update fun
    | [] => ([], .sleep)
    | item :: rest => (rest, if keeps item then .look else .leave)
  | .sleep => .wait .look
  | .leave => .unlock .consume
  | .produce item => .lock (.push item)
  | .push item => .update fun q => (q ++ [item], .pushed)
  | .pushed => .unlock .announce
  | .announce => .notify false .done
  | .done => .halt

/-- Whether a job is a consumer's. -/
def Job.consumer : Job α → Bool
  | .consume | .look | .sleep | .leave => true
  | _ => false

/-- The jobs at the start: a number of consumers, and a producer for each item. -/
def crew (consumers : Nat) (items : List α) : List (Job α) :=
  List.replicate consumers .consume ++ items.map .produce

end Interlock.Queue
