import Interlock.Fence.Policy

/-!
# Threads that race on one policy

Any number of threads, each with a list of requests to make of one policy, take turns at single
accesses as a schedule says. The trace keeps what happened, the latest first.
-/

namespace Interlock.Fence

/-- A policy and the threads that use it. -/
structure Race where
  state : State := .uninitialized
  threads : List (Program (List Bool))
  trace : List (Nat × Program.Happening) := []

namespace Race

/-- Threads that have begun nothing yet, on a policy that is undecided. -/
def start (requests : List (List Request)) : Race where
  threads := requests.map Request.programs

/-- One step of thread `t`. A thread that does not exist or has ended changes nothing. -/
def step (r : Race) (t : Nat) : Race :=
  match r.threads[t]? with
  | none => r
  | some p =>
    match p.step r.state with
    | none => r
    | some (happening, rest, state) =>
      { state, threads := r.threads.set t rest, trace := (t, happening) :: r.trace }

/-- Follows a schedule. -/
def run (r : Race) (schedule : List Nat) : Race := schedule.foldl step r

@[simp] theorem run_nil (r : Race) : r.run [] = r := rfl

@[simp] theorem run_cons (r : Race) (t : Nat) (s : List Nat) :
    r.run (t :: s) = (r.step t).run s := rfl

theorem run_append (r : Race) (s t : List Nat) : r.run (s ++ t) = (r.run s).run t :=
  List.foldl_append

end Race

end Interlock.Fence
