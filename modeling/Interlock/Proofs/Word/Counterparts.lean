import Mathlib.Data.List.Forall2
import Mathlib.Logic.Relation
import Interlock.Proofs.Word.Calls

/-!
# Operations that stand for each other

An operation that answers nothing has a counterpart that does the same to the word and answers what
was there, by an exchange-add or by the loop where the first has an instruction of its own. Run
alone they leave the same word, wraps included, so in a session one may stand for the other: all
that comes after goes on as before.
-/

namespace Interlock

variable {w : Nat}

/-! ### Counterparts -/

namespace Op

/-- A direct operation, and the one derived from it that answers the contents before. -/
inductive Derived : Op w → Op w → Prop
  | and (mask : BitVec w) : Derived (.and mask) (.fetchAnd mask)
  | or (mask : BitVec w) : Derived (.or mask) (.fetchOr mask)
  | xor (mask : BitVec w) : Derived (.xor mask) (.fetchXor mask)
  | add (value : BitVec w) : Derived (.add value) (.fetchAdd value)
  | addUnfenced (value : BitVec w) : Derived (.add value) (.fetchAddUnfenced value)
  | sub (value : BitVec w) : Derived (.sub value) (.fetchSub value)
  | inc : Derived .inc .fetchInc
  | dec : Derived .dec .fetchDec
  | exchange (value : BitVec w) : Derived (.exchange value) (.fetchUpdate fun _ => value)
  | compareExchange (old new : BitVec w) :
    Derived (.compareExchange old new) (.compareSwap old new)

/-- Operations that leave the same contents behind: an operation and what is derived from it, and
the ways to add one or to take it off. -/
inductive Counterpart : Op w → Op w → Prop
  | derived {a b : Op w} : Derived a b → Counterpart a b
  | incAdd : Counterpart .inc (.add 1#w)
  | decSub : Counterpart .dec (.sub 1#w)
  | decAdd : Counterpart .dec (.add (BitVec.allOnes w))

def Interchangeable : Op w → Op w → Prop := Relation.EqvGen Counterpart

theorem apply_of_derived {a b : Op w} (h : Derived a b) (x : BitVec w) :
    b.apply x = (.value x, (a.apply x).2) := by
  cases h <;> rfl

theorem effect_of_counterpart {a b : Op w} (h : Counterpart a b) (x : BitVec w) :
    (a.apply x).2 = (b.apply x).2 := by
  cases h with
  | derived hd => rw [apply_of_derived hd]
  | incAdd => rfl
  | decSub => rfl
  | decAdd =>
    change x - 1#w = x + BitVec.allOnes w
    rw [BitVec.sub_eq_add_neg, BitVec.neg_one_eq_allOnes]

theorem effect_of_interchangeable {a b : Op w} (h : Interchangeable a b) (x : BitVec w) :
    (a.apply x).2 = (b.apply x).2 := by
  induction h with
  | rel a b hab => exact effect_of_counterpart hab x
  | refl a => rfl
  | symm a b _ ih => exact ih.symm
  | trans a b c _ _ ihab ihbc => exact ihab.trans ihbc

theorem cell_of_interchangeable {a b : Op w} (h : Interchangeable a b) (m : Cell w) :
    (a.run m).cell = (b.run m).cell := by
  rw [(a.run_eq m).2, (b.run_eq m).2, effect_of_interchangeable h]

theorem answer_of_derived {a b : Op w} (h : Derived a b) (m : Cell w) :
    (b.run m).answer = .value m.contents := by
  rw [(b.run_eq m).1, apply_of_derived h]

end Op

/-! ### Sessions -/

/-- An action that was kept, or an operation in the place of one that it may stand for. -/
inductive Replaces : Action w → Action w → Prop
  | kept (a : Action w) : Replaces a a
  | replaced {a b : Op w} : a.Interchangeable b → Replaces (.perform a) (.perform b)

theorem cell_of_replaces {a b : Action w} (h : Replaces a b) (m : Cell w) :
    (a.run m).cell = (b.run m).cell := by
  cases h with
  | kept => rfl
  | replaced hab => exact Op.cell_of_interchangeable hab m

/-- Two sessions leave the same cells, action by action, and every action that they have in common
is carried out in the same way. -/
structure GoesOn (actions actions' : List (Action w)) (m : Cell w) : Prop where
  cells : (Session.run actions m).map Execution.cell = (Session.run actions' m).map Execution.cell
  executions : ∀ n : Nat, actions[n]? = actions'[n]? →
    (Session.run actions m)[n]? = (Session.run actions' m)[n]?

theorem goesOn_of_replaces {actions actions' : List (Action w)}
    (h : List.Forall₂ Replaces actions actions') (m : Cell w) : GoesOn actions actions' m := by
  -- What is left of the sessions starts from one cell, whether the first action was kept or not.
  induction h generalizing m with
  | nil => exact ⟨rfl, fun _ _ => rfl⟩
  | @cons a b rest rest' hab _ ih =>
    have hcell : (b.run m).cell = (a.run m).cell := (cell_of_replaces hab m).symm
    have hrun : Session.run (a :: rest) m = a.run m :: Session.run rest (a.run m).cell := rfl
    have hrun' : Session.run (b :: rest') m = b.run m :: Session.run rest' (a.run m).cell := by
      rw [Session.run, hcell]
    obtain ⟨hcells, hexecutions⟩ := ih (a.run m).cell
    constructor
    · rw [hrun, hrun', List.map_cons, List.map_cons, hcell, hcells]
    · intro n hn
      rw [hrun, hrun']
      cases n with
      | zero =>
        obtain rfl : a = b := Option.some.inj hn
        rfl
      | succ n => exact hexecutions n hn

/-! ### Main result -/

/-- What operations come to that are run alone on a cell, beside their counterparts. -/
structure Agrees (m : Cell w) : Prop where
  cells : ∀ a b : Op w, a.Interchangeable b → (a.run m).cell = (b.run m).cell
  before : ∀ a b : Op w, a.Derived b → (b.run m).answer = .value m.contents
  exchange : ∀ value : BitVec w,
    ((Op.exchange value).run m).answer = ((Op.fetchUpdate fun _ => value).run m).answer
  /-- A swap is said to have happened exactly if its counterpart answers the expected value. -/
  compareExchange : ∀ old new : BitVec w, ∃ yes,
    ((Op.compareExchange old new).run m).answer = .swapped yes ∧
      (yes = true ↔ ((Op.compareSwap old new).run m).answer = .value old)
  session : ∀ actions actions' : List (Action w), List.Forall₂ Replaces actions actions' →
    GoesOn actions actions' m

/-- Whatever a word holds, an operation and its counterparts leave the same behind, and either may
stand for the other in a session. -/
theorem counterparts_agree (m : Cell w) : Agrees m where
  cells _ _ h := Op.cell_of_interchangeable h m
  before _ _ h := Op.answer_of_derived h m
  exchange value := by
    rw [Op.answer_of_derived (.exchange value), (Op.run_eq _ m).1, Op.apply]
  compareExchange old new := by
    refine ⟨m.contents = old, (Op.run_eq _ m).1, ?_⟩
    rw [Op.answer_of_derived (.compareExchange old new), decide_eq_true_iff, Answer.value.injEq]
  session _ _ h := goesOn_of_replaces h m

/-- Taking one off zero wraps in each of its ways. -/
example :
    let ways : List (Op 32) := [.dec, .sub 1, .add (BitVec.allOnes 32), .fetchDec, .fetchSub 1]
    ways.map (fun op => (op.run ⟨0, false⟩).cell.contents) =
      List.replicate 5 (BitVec.allOnes 32) := by cbv

end Interlock
