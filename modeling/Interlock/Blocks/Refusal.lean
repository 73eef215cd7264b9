/-!
# Why a request is refused

A blocker is whoever placed a block. A request of the registry is refused for one of a few causes;
each has a text and an error number.
-/

namespace Interlock.Blocks

/-- Whoever places a block, typically one open control handle. -/
structure Blocker where
  id : UInt64
  deriving DecidableEq, Repr

/-- The name of a blocker. -/
def Blocker.name (b : Blocker) : String := "blocker " ++ toString b.id.toNat

/-- Why a request is refused. -/
inductive Refusal where
  | emptyPath
  | nameTooLong (bytes : Nat)
  | invalidPath
  | unknownOp (code : UInt32)
  | alreadyBlocked (path : String)
  | notBlocked (path : String)
  | notOwner (path : String) (owner : Blocker)
  deriving DecidableEq, Repr

namespace Refusal

/-- What is said of a refused request. -/
def message : Refusal → String
  | emptyPath => "empty path"
  | nameTooLong n => "path of " ++ toString n ++ " bytes is too long"
  | invalidPath => "path is not valid UTF-8"
  | unknownOp code => "unknown control operation " ++ toString code.toNat
  | alreadyBlocked path => path ++ " is already blocked"
  | notBlocked path => path ++ " is not blocked"
  | notOwner path owner => path ++ " is blocked by " ++ owner.name

/-- Operation not permitted. -/
def eperm : Nat := 1

/-- No such file. -/
def enoent : Nat := 2

/-- File exists. -/
def eexist : Nat := 17

/-- Invalid argument. -/
def einval : Nat := 22

/-- File name too long. -/
def enametoolong : Nat := 36

/-- The error number of a refusal. -/
def errno : Refusal → Nat
  | emptyPath | invalidPath | unknownOp _ => einval
  | nameTooLong _ => enametoolong
  | alreadyBlocked _ => eexist
  | notBlocked _ => enoent
  | notOwner .. => eperm

end Refusal

end Interlock.Blocks
