import Interlock.Blocks.Refusal
import Interlock.Log

/-!
# What the registry tells its log
-/

namespace Interlock.Blocks

/-- What the registry tells its log. -/
inductive Event where
  | added (path : String) (blocker : Blocker)
  | deleted (path : String) (blocker : Blocker)
  /-- The blocks of a blocker were removed together. -/
  | removed (blocker : Blocker) (count : Nat)
  /-- A raw control request was refused. -/
  | failed (code : UInt32) (blocker : Blocker) (refusal : Refusal)
  /-- A dump of the blocks begins. -/
  | counted (count : Nat)
  | listed (path : String) (owner : Blocker)
  deriving DecidableEq, Repr

/-- An event as the log shows it. -/
def Event.record : Event → Log.Record
  | .added path blocker =>
    ⟨.trace, "added file block", [("path", .text path), ("blocker", .text blocker.name)]⟩
  | .deleted path blocker =>
    ⟨.trace, "deleted file block", [("path", .text path), ("blocker", .text blocker.name)]⟩
  | .removed blocker count =>
    ⟨.trace, "removed file blocks of closed blocker",
      [("blocker", .text blocker.name), ("removed", .number count)]⟩
  | .failed code blocker refusal =>
    ⟨.trace, "control request failed",
      [("op", .number code.toNat), ("blocker", .text blocker.name),
        ("err", .text refusal.message)]⟩
  | .counted count => ⟨.info, "file blocks", [("count", .number count)]⟩
  | .listed path owner =>
    ⟨.info, "file block", [("path", .text path), ("owner", .text owner.name)]⟩

end Interlock.Blocks
