/-!
# Log records

What a log sees of an event: how important it is, a message, and named values in order.
-/

namespace Interlock.Log

/-- How important a record is. -/
inductive Level where
  | trace
  | debug
  | info
  deriving DecidableEq, Repr

/-- A value in a record. -/
inductive Value where
  | text (s : String)
  | number (n : Nat)
  | flag (b : Bool)
  deriving DecidableEq, Repr

/-- A log record. -/
structure Record where
  level : Level
  message : String
  fields : List (String × Value)
  deriving DecidableEq, Repr

/-- The name of a level. -/
def Level.name : Level → String
  | .trace => "TRACE"
  | .debug => "DEBUG"
  | .info => "INFO"

end Interlock.Log
