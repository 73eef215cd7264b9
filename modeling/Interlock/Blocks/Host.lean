import Interlock.Blocks.Request

/-!
# Threads and registries of a process

A process has any number of threads and registries. Each thread has an error number of its own,
zero at the start: that of its last raw control request that failed, on whatever registry.
-/

namespace Interlock.Blocks

/-- The registries of a process and the error numbers of its threads. -/
structure Host where
  registry : Nat → Registry := fun _ => {}
  errno : Nat → Nat := fun _ => 0

/-- One call: the thread that makes it, the registry it goes to, and the request. -/
structure Call where
  thread : Nat := 0
  registry : Nat := 0
  request : Request

namespace Host

/-- The host in which thread `t` has seen a reply. -/
def note (h : Host) (t : Nat) (reply : Reply) : Host :=
  match reply.errno? with
  | none => h
  | some errno => { h with errno := fun u => if u = t then errno else h.errno u }

/-- The host with registry `n` replaced. -/
def setRegistry (h : Host) (n : Nat) (r : Registry) : Host :=
  { h with registry := fun m => if m = n then r else h.registry m }

/-- Carries out a call. -/
def call (devel : Bool) (h : Host) (c : Call) : Reply × Host :=
  let (reply, r) := (h.registry c.registry).handle devel c.request
  (reply, (h.setRegistry c.registry r).note c.thread reply)

/-- Carries out calls one after the other. -/
def callAll (devel : Bool) : List Call → Host → List Reply × Host
  | [], h => ([], h)
  | c :: rest, h =>
    let (reply, h) := h.call devel c
    let (replies, h) := callAll devel rest h
    (reply :: replies, h)

end Host

end Interlock.Blocks
