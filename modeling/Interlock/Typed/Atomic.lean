import Interlock.Typed.Encoding
import Interlock.Word.Call

/-!
# Atomics over a type

An `Atomic α` is a word that holds the bits of a value of `α`. Its operations are the word's, with
operands turned into bits and answers turned back; bit operations and arithmetic act on the bits.
The word itself can be used too, among the typed operations.
-/

namespace Interlock

variable {α : Type} {w : Nat}

/-- What may be asked of an atomic over a type. -/
inductive TypedOp (α : Type) (w : Nat) where
  | read
  | write (value : α)
  | exchange (value : α)
  /-- Replaces `old` by `new`, and answers what was there: `old` iff the swap happened. -/
  | compareSwap (old new : α)
  | and (value : α)
  | or (value : α)
  | xor (value : α)
  | add (value : α)
  | sub (value : α)
  | inc
  | dec
  | fetchOr (value : α)
  | fetchAdd (value : α)
  | fetchInc
  | fetchDec
  /-- An operation on the word itself. -/
  | onWord (op : Op w)

/-- What a typed operation answers. -/
inductive TypedAnswer (α : Type) where
  | done
  | value (a : α)
  | swapped (yes : Bool)
  deriving DecidableEq, Repr

section
variable [Encoding α w]

/-- A word's answer, read as a value of the type. -/
def TypedAnswer.ofAnswer : Answer w → TypedAnswer α
  | .done => .done
  | .value x => .value (Encoding.ofBits x)
  | .swapped b => .swapped b

/-- The operation on the word that carries out a typed operation. -/
def TypedOp.wordOp : TypedOp α w → Op w
  | read => .read
  | write v => .write (Encoding.toBits v)
  | exchange v => .exchange (Encoding.toBits v)
  | compareSwap old new => .compareSwap (Encoding.toBits old) (Encoding.toBits new)
  | and v => .and (Encoding.toBits v)
  | or v => .or (Encoding.toBits v)
  | xor v => .xor (Encoding.toBits v)
  | add v => .add (Encoding.toBits v)
  | sub v => .sub (Encoding.toBits v)
  | inc => .inc
  | dec => .dec
  | fetchOr v => .fetchOr (Encoding.toBits v)
  | fetchAdd v => .fetchAdd (Encoding.toBits v)
  | fetchInc => .fetchInc
  | fetchDec => .fetchDec
  | onWord op => op

end

/-- A word that holds a value of `α`. -/
structure Atomic (α : Type) (w : Nat) where
  cell : Cell w

namespace Atomic

variable [Encoding α w]

/-- An atomic that holds a value. -/
def new (value : α) (fenced : Bool) : Atomic α w := ⟨⟨Encoding.toBits value, fenced⟩⟩

/-- The value that an atomic holds. -/
def get (a : Atomic α w) : α := Encoding.ofBits a.cell.contents

/-- Carries out an operation alone. -/
def perform (a : Atomic α w) (op : TypedOp α w) : TypedAnswer α × Atomic α w :=
  let e := op.wordOp.run a.cell
  (.ofAnswer e.answer, ⟨e.cell⟩)

/-- Carries out operations one after the other. -/
def performAll : List (TypedOp α w) → Atomic α w → List (TypedAnswer α) × Atomic α w
  | [], a => ([], a)
  | op :: rest, a =>
    let (answer, b) := a.perform op
    let (answers, c) := performAll rest b
    (answer :: answers, c)

/-- The text of an atomic: its name and the value it holds. -/
def shown [HasText α] (a : Atomic α w) : Shown := .tuple "Atomic" [HasText.shown a.get]

/-- The word of an atomic in base sixteen. -/
def wordText (a : Atomic α w) : String := Text.hex a.cell.contents.toNat

end Atomic

end Interlock
