import Interlock.Fence.Policy
import Interlock.Text.Blank
import Interlock.Text.Quoted

/-!
# Fence modes

A mode says how a policy is to be decided. It is read from a text, in which blanks at either end
and the case of the letters A to Z do not matter, or from a variable of the environment.
-/

namespace Interlock.Fence

/-- How a policy is to be decided. -/
inductive Mode where
  /-- By looking at the processor. -/
  | auto
  | on
  | off
  deriving DecidableEq, Repr, Inhabited

/-- A text that names no mode. -/
structure BadMode where
  text : String
  deriving DecidableEq, Repr

/-- What is said of a text that names no mode. -/
def BadMode.message (e : BadMode) : String :=
  "invalid fence mode " ++ Text.quoted e.text ++ ", expected auto, on or off"

namespace Mode

/-- The mode with a name in small letters, without blanks around it. -/
def named? : List Char → Option Mode
  | [] | ['a', 'u', 't', 'o'] => some .auto
  | ['o', 'n'] | ['t', 'r', 'u', 'e'] | ['1'] => some .on
  | ['o', 'f', 'f'] | ['f', 'a', 'l', 's', 'e'] | ['0'] => some .off
  | _ => none

/-- Reads a mode. -/
def parse (text : String) : Except BadMode Mode :=
  match named? (Text.lowerAscii (Text.trim text.toList)) with
  | some mode => .ok mode
  | none => .error ⟨text⟩

/-- The variable of the environment that holds a mode. -/
def variableName : String := "VM_ATOMIC_FENCE"

/-- Reads a mode from the bytes of the variable. One that is not set, or is not text, leaves the
decision to the processor. -/
def ofVariable (value : Option ByteArray) : Except BadMode Mode :=
  match value.bind String.fromUTF8? with
  | some text => parse text
  | none => .ok .auto

/-- The request that a mode makes of a policy on a given processor. -/
def request (mode : Mode) (host : Cpuid.Summary) : Request :=
  match mode with
  | .auto => .init host
  | .on => .setFence true
  | .off => .setFence false

/-- The name of a mode. -/
def name : Mode → String
  | .auto => "Auto"
  | .on => "On"
  | .off => "Off"

end Mode

end Interlock.Fence
