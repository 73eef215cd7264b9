import Interlock.Fence.Program
import Interlock.Cpuid.Version
import Interlock.Log
import Interlock.Text.Shown

/-!
# The fence policy

A policy is decided once by detection, or forced. A `Request` asks for one or the other; the
detector of an initialization is code that may itself look at the same policy and make requests of
it before it answers, so requests and detectors are defined together. `Request.program` is the code
of a request: an initialization leaves a decided policy alone, and installs what its detector found
only if nobody decided meanwhile, so that a forced decision always wins.
-/

namespace Interlock.Fence

mutual

/-- How an initialization finds out whether fences are needed. -/
inductive Detector where
  | answer (needed : Bool)
  /-- Looks at the policy and goes on from what it sees. -/
  | look (next : State → Detector)
  /-- Makes a request of the same policy and goes on from its answer. -/
  | ask (request : Request) (next : Bool → Detector)

/-- What may be asked of a policy. -/
inductive Request where
  /-- Forces the decision; the answer is the decision. -/
  | setFence (enabled : Bool)
  /-- Decides by detection if nothing has been decided; the answer is whether fences are on. -/
  | initWith (detect : Detector)

end

mutual

/-- The code of a detector. -/
def Detector.program : Detector → Program Bool
  | .answer needed => .done needed
  | .look next => .load fun s => (next s).program
  | .ask request next => request.program.bind fun b => (next b).program

/-- The code of a request. -/
def Request.program : Request → Program Bool
  | .setFence enabled => .note (.event (.set enabled)) <| .store (.ofBool enabled) <| .done enabled
  | .initWith detect =>
    let finish (on : Bool) : Program Bool := .note (.returned on) (.done on)
    .note .began <| .load fun s =>
      if s = .uninitialized then
        .note .detecting <| detect.program.bind fun needed => .note (.detected needed) <|
          .compareExchange .uninitialized (.ofBool needed) fun seen =>
            if seen = .uninitialized then .note (.event (.initialized needed)) (finish needed)
            else finish (seen = .enabled)
      else .load fun s => finish (s = .enabled)

end

namespace Request

/-- Initialization with the detector that looks at the processor. -/
def init (host : Cpuid.Summary) : Request := .initWith (.answer host.requiresLockFence)

/-- A list of requests, one after the other. -/
def programs : List Request → Program (List Bool)
  | [] => .done []
  | r :: rest => r.program.bind fun b => (programs rest).bind fun bs => .done (b :: bs)

/-- Carries out a request alone. -/
def run (r : Request) (s : State) : Program.Outcome Bool := r.program.run s

end Request

namespace Program.Outcome

variable {α : Type}

/-- What the log saw, in order. -/
def events (o : Program.Outcome α) : List Event :=
  o.notes.filterMap fun
    | .event e => some e
    | _ => none

/-- Whether a detector ran. -/
def detected (o : Program.Outcome α) : Bool := o.notes.contains .detecting

end Program.Outcome

/-- Whether an access has to be followed by a fence. -/
def State.useFence (s : State) : Bool := s = .enabled

theorem State.useFence_ofBool (on : Bool) : (State.ofBool on).useFence = on := by
  cases on <;> rfl

/-- The name of a state. -/
def State.name : State → String
  | .uninitialized => "Uninitialized"
  | .disabled => "Disabled"
  | .enabled => "Enabled"

/-- The text of a policy in a given state. -/
def State.shown (s : State) : Shown :=
  .record "FencePolicy" [.labelled "state" (.plain s.name)]

/-- An event as the log shows it. -/
def Event.record : Event → Log.Record
  | .initialized fence => ⟨.debug, "atomic fence policy initialized", [("fence", .flag fence)]⟩
  | .set fence => ⟨.debug, "atomic fence policy set", [("fence", .flag fence)]⟩

end Interlock.Fence
