import Interlock.Proofs.Word.Calls
import Interlock.Typed.Atomic

/-!
# An atomic over a type is a view of its word

With a lawful encoding, typed operations give what the word's operations give, read as values of
the type, and mean on values what their names say: a value that was written is read back, and a
swap happens exactly when the atomic holds the expected value, as its answer tells.
-/

namespace Interlock

variable {α : Type} {w : Nat} [Encoding α w]

open Encoding LawfulEncoding

theorem eq_toBits_iff [LawfulEncoding α w] {x : BitVec w} {a : α} :
    x = toBits a ↔ ofBits x = a := by
  constructor
  · rintro rfl
    exact ofBits_toBits a
  · rintro rfl
    exact (toBits_ofBits x).symm

/-! ### The meaning on values -/

/-- Two values combined by their bits. -/
def combineBits (f : BitVec w → BitVec w → BitVec w) (a b : α) : α :=
  ofBits (f (toBits a) (toBits b))

namespace TypedOp

variable [DecidableEq α]

/-- What an operation answers when the atomic holds a value, and the value it leaves. -/
def apply : TypedOp α w → α → TypedAnswer α × α
  | read, a => (.value a, a)
  | write v, _ => (.done, v)
  | exchange v, a => (.value a, v)
  | compareSwap old new, a => (.value a, if a = old then new else a)
  | and v, a => (.done, combineBits (· &&& ·) a v)
  | or v, a => (.done, combineBits (· ||| ·) a v)
  | xor v, a => (.done, combineBits (· ^^^ ·) a v)
  | add v, a => (.done, combineBits (· + ·) a v)
  | sub v, a => (.done, combineBits (· - ·) a v)
  | inc, a => (.done, ofBits (toBits a + 1#w))
  | dec, a => (.done, ofBits (toBits a - 1#w))
  | fetchOr v, a => (.value a, combineBits (· ||| ·) a v)
  | fetchAdd v, a => (.value a, combineBits (· + ·) a v)
  | fetchInc, a => (.value a, ofBits (toBits a + 1#w))
  | fetchDec, a => (.value a, ofBits (toBits a - 1#w))
  | onWord op, a => (.ofAnswer (op.apply (toBits a)).1, ofBits (op.apply (toBits a)).2)

/-- What operations answer one after the other, and the value they leave. -/
def applyAll : List (TypedOp α w) → α → List (TypedAnswer α) × α
  | [], a => ([], a)
  | op :: rest, a =>
    let (answer, b) := op.apply a
    let (answers, c) := applyAll rest b
    (answer :: answers, c)

/-- The word's operation, read on values, is the typed one. -/
theorem apply_wordOp [LawfulEncoding α w] (op : TypedOp α w) (x : BitVec w) :
    (.ofAnswer (op.wordOp.apply x).1, ofBits (op.wordOp.apply x).2) = op.apply (ofBits x) := by
  -- Only the swap compares, on bits where its meaning compares values; the rest convert.
  cases op with
  | compareSwap old new =>
    by_cases h : x = toBits old
    · simp [wordOp, Op.apply, apply, TypedAnswer.ofAnswer, h, ofBits_toBits]
    · have hne : ¬ (ofBits x : α) = old := fun heq => h (eq_toBits_iff.mpr heq)
      simp [wordOp, Op.apply, apply, TypedAnswer.ofAnswer, h, hne]
  | _ =>
    simp [wordOp, Op.apply, apply, combineBits, TypedAnswer.ofAnswer, ofBits_toBits, toBits_ofBits]

end TypedOp

namespace Atomic

variable [DecidableEq α]

theorem perform_eq [LawfulEncoding α w] (a : Atomic α w) (op : TypedOp α w) :
    ((a.perform op).1, (a.perform op).2.get) = op.apply a.get := by
  obtain ⟨hanswer, hcell⟩ := Op.run_eq op.wordOp a.cell
  simp only [perform, get, hanswer, hcell]
  exact op.apply_wordOp a.cell.contents

theorem performAll_eq [LawfulEncoding α w] (ops : List (TypedOp α w)) (a : Atomic α w) :
    ((performAll ops a).1, (performAll ops a).2.get) = TypedOp.applyAll ops a.get := by
  induction ops generalizing a with
  | nil => rfl
  | cons op rest ih =>
    rw [TypedOp.applyAll, ← perform_eq]
    simp only [← ih]
    rfl

end Atomic

/-! ### The word underneath -/

/-- What the only user of the word does to carry out typed operations. -/
def TypedOp.actions (ops : List (TypedOp α w)) : List (Action w) :=
  ops.map fun op => .perform op.wordOp

theorem Atomic.performAll_answers (ops : List (TypedOp α w)) (a : Atomic α w) :
    (performAll ops a).1 =
      (Session.run (TypedOp.actions ops) a.cell).map fun e => .ofAnswer e.answer := by
  induction ops generalizing a with
  | nil => rfl
  | cons op rest ih => exact congrArg (_ :: ·) (ih (a.perform op).2)

theorem Atomic.performAll_cell (ops : List (TypedOp α w)) (a : Atomic α w) :
    (performAll ops a).2.cell =
      ((Session.run (TypedOp.actions ops) a.cell).getLast?.map (·.cell)).getD a.cell := by
  induction ops generalizing a with
  | nil => rfl
  | cons op rest ih =>
    have hcons : Session.run (TypedOp.actions (op :: rest)) a.cell =
        op.wordOp.run a.cell :: Session.run (TypedOp.actions rest) (a.perform op).2.cell := rfl
    rw [hcons, List.getLast?_cons]
    refine (ih (a.perform op).2).trans ?_
    cases (Session.run (TypedOp.actions rest) (a.perform op).2.cell).getLast? <;> rfl

/-- An attempt found what it expected, and its value is in the word. -/
def Execution.Swapped (e : Execution w) : Prop :=
  ∃ old new, Instruction.access (.compareExchange old new) old ∈ e.instructions

theorem swapped_compareSwap (old new : BitVec w) (m : Cell w) :
    ((Op.compareSwap old new).run m).Swapped ↔ m.contents = old := by
  have hrun : (Op.compareSwap old new).run m =
      ⟨.value m.contents, m.access (.compareExchange old new),
        [.access (.compareExchange old new) m.contents, .check m.fenced]⟩ := by
    rw [Op.run, Op.call, Op.method, Method.call, Call.finish_of_next rfl, Call.afterSingle,
      if_pos rfl, Call.finish_of_next rfl, Call.finish_of_returned rfl]
    rfl
  simp [Execution.Swapped, hrun, eq_comm]

/-! ### Main result -/

/-- What typed operations on an atomic come to, beside the word's operations and the meaning on
values, and what the atomic does after them. -/
structure Faithful [DecidableEq α] (value : α) (fenced : Bool) (ops : List (TypedOp α w)) :
    Prop where
  answers : (Atomic.performAll ops (.new value fenced)).1 =
    (Session.run (TypedOp.actions ops) ⟨toBits value, fenced⟩).map fun e => .ofAnswer e.answer
  cell : (Atomic.performAll ops (.new value fenced)).2.cell =
    ((Session.run (TypedOp.actions ops) ⟨toBits value, fenced⟩).getLast?.map (·.cell)).getD
      ⟨toBits value, fenced⟩
  meaning : ((Atomic.performAll ops (.new value fenced)).1,
    (Atomic.performAll ops (.new value fenced)).2.get) = TypedOp.applyAll ops value
  readBack : ∀ written : α,
    let a := (Atomic.performAll ops (.new value fenced)).2
    ((a.perform (.write written)).2.perform .read).1 = .value written
  swap : ∀ old new : α,
    let a := (Atomic.performAll ops (.new value fenced)).2
    (a.perform (.compareSwap old new)).1 = .value a.get ∧
      (a.perform (.compareSwap old new)).2.get = (if a.get = old then new else a.get) ∧
      ((a.perform (.compareSwap old new)).1 = .value old ↔
        ((TypedOp.compareSwap old new).wordOp.run a.cell).Swapped)

/-- Whatever the encoding, the first value and the operations, typed or on the word, an atomic is a
faithful view of its word. -/
theorem atomic_faithful [LawfulEncoding α w] [DecidableEq α] (value : α) (fenced : Bool)
    (ops : List (TypedOp α w)) : Faithful value fenced ops := by
  have hmeaning := Atomic.performAll_eq ops (.new value fenced)
  have hnew : (Atomic.new value fenced : Atomic α w).get = value := ofBits_toBits value
  rw [hnew] at hmeaning
  refine ⟨Atomic.performAll_answers ops _, Atomic.performAll_cell ops _, hmeaning, ?_, ?_⟩
  · intro written a
    have hwrite := congrArg Prod.snd (a.perform_eq (.write written))
    have hread := congrArg Prod.fst ((a.perform (.write written)).2.perform_eq .read)
    refine hread.trans (congrArg TypedAnswer.value ?_)
    exact hwrite
  · intro old new a
    have hswap := a.perform_eq (.compareSwap old new)
    have hanswer : (a.perform (.compareSwap old new)).1 = .value a.get := congrArg Prod.fst hswap
    refine ⟨hanswer, congrArg Prod.snd hswap, ?_⟩
    have hword : ((TypedOp.compareSwap old new).wordOp.run a.cell).Swapped ↔ a.get = old :=
      (swapped_compareSwap _ _ a.cell).trans eq_toBits_iff
    rw [hword, hanswer, TypedAnswer.value.injEq]

/-- The low half of a pair carries into the high one, and the word's own mask clears the low half
between two swaps. Only the second finds what it expects. -/
theorem atomic_faithful_pair :
    LawfulEncoding Pair 64 ∧
      Faithful (⟨0xffffffff, -1⟩ : Pair) true
        [.fetchAdd ⟨2, 0⟩, .compareSwap ⟨1, -1⟩ ⟨5, 5⟩, .onWord (.fetchAnd 0xffffffff00000000),
          .compareSwap ⟨0, 0⟩ ⟨7, -7⟩] :=
  ⟨inferInstance, atomic_faithful _ true _⟩

example :
    TypedOp.applyAll [.fetchAdd ⟨2, 0⟩, .compareSwap ⟨1, -1⟩ ⟨5, 5⟩,
        .onWord (.fetchAnd 0xffffffff00000000), .compareSwap ⟨0, 0⟩ ⟨7, -7⟩]
      (⟨0xffffffff, -1⟩ : Pair) =
    ([.value ⟨0xffffffff, -1⟩, .value ⟨1, 0⟩, .value ⟨1, 0⟩, .value ⟨0, 0⟩], ⟨7, -7⟩) := by decide

end Interlock
