import Mathlib.Data.BitVec
import Interlock.Proofs.Word.History

/-!
# Contents that no schedule can change

Operations that commute leave a word as if each had been carried out once, in any order. Those that
add to the word and subtract from it commute, and so do those that combine it with masks by one
bitwise operation.
-/

namespace Interlock

variable {w : Nat}

/-! ### Operations that commute -/

/-- The contents that an operation leaves, carried out at one instant. -/
def Op.effect (op : Op w) (x : BitVec w) : BitVec w := (op.apply x).2

theorem Legal.contents_eq {start x : BitVec w} {deeds : List (Deed w)}
    (h : Legal start deeds x) : x = (deeds.map Deed.op).foldr Op.effect start := by
  induction h with
  | nil => rfl
  | cons t op _ ih =>
    rw [List.map_cons, List.foldr_cons, ← ih, Op.effect]

/-- Every operation of the race is applied exactly once, whatever the schedule. -/
theorem contents_of_commute (cell : Cell w) (todo : List (List (Op w))) (schedule : List Move)
    (hf : ((Race.start cell todo).run schedule).finished = true)
    (hcomm : ∀ a ∈ todo.flatten, ∀ b ∈ todo.flatten, ∀ x,
      a.effect (b.effect x) = b.effect (a.effect x)) :
    ((Race.start cell todo).run schedule).cell.contents =
      todo.flatten.foldr Op.effect cell.contents := by
  obtain ⟨deeds, h⟩ := linear_run cell todo schedule
  have hperm := (h.perm_ops hf).symm
  rw [h.legal.contents_eq]
  exact (hperm.foldr_eq' (fun a ha b hb x => hcomm b hb a ha x) cell.contents).symm

/-! ### Additions and subtractions -/

namespace Op

/-- Whether an operation adds to the contents or subtracts from them. -/
def additive : Op w → Bool
  | add _ | sub _ | inc | dec => true
  | fetchAdd _ | fetchAddUnfenced _ | fetchSub _ | fetchInc | fetchDec => true
  | _ => false

/-- What an operation adds. -/
def added : Op w → BitVec w
  | add v | fetchAdd v | fetchAddUnfenced v => v
  | inc | fetchInc => 1#w
  | _ => 0#w

/-- What an operation subtracts. -/
def subtracted : Op w → BitVec w
  | sub v | fetchSub v => v
  | dec | fetchDec => 1#w
  | _ => 0#w

theorem effect_of_additive {op : Op w} (h : op.additive = true) (x : BitVec w) :
    op.effect x = x + op.added - op.subtracted := by
  cases op <;> cases h <;> simp [effect, apply, added, subtracted]

theorem foldr_additive {ops : List (Op w)} (h : ∀ op ∈ ops, op.additive = true) (x : BitVec w) :
    ops.foldr effect x = x + (ops.map added).sum - (ops.map subtracted).sum := by
  induction ops with
  | nil => simp
  | cons op ops ih =>
    have hop := h op List.mem_cons_self
    have hops := ih fun a ha => h a (List.mem_cons_of_mem op ha)
    rw [List.foldr_cons, effect_of_additive hop, hops, List.map_cons, List.map_cons,
      List.sum_cons, List.sum_cons]
    grind

end Op

/-! ### Masks -/

/-- The bitwise operations. -/
inductive Bitwise where
  | or
  | and
  | xor

namespace Bitwise

/-- The contents combined with a mask. -/
def combine : Bitwise → BitVec w → BitVec w → BitVec w
  | or, m, x => x ||| m
  | and, m, x => x &&& m
  | xor, m, x => x ^^^ m

/-- The mask of an operation that combines the contents with one. -/
def mask? : Bitwise → Op w → Option (BitVec w)
  | or, .or m | or, .fetchOr m => some m
  | and, .and m | and, .fetchAnd m => some m
  | xor, .xor m | xor, .fetchXor m => some m
  | _, _ => none

theorem combine_left_comm (b : Bitwise) (m n x : BitVec w) :
    b.combine m (b.combine n x) = b.combine n (b.combine m x) := by
  cases b with
  | or =>
    rw [combine, combine, combine, combine, BitVec.or_assoc, BitVec.or_comm n, BitVec.or_assoc]
  | and =>
    rw [combine, combine, combine, combine, BitVec.and_assoc, BitVec.and_comm n, BitVec.and_assoc]
  | xor =>
    rw [combine, combine, combine, combine, BitVec.xor_assoc, BitVec.xor_comm n, BitVec.xor_assoc]

theorem effect_of_mask {b : Bitwise} {op : Op w} {m : BitVec w} (h : b.mask? op = some m)
    (x : BitVec w) : op.effect x = b.combine m x := by
  cases b <;> cases op <;> cases h <;> rfl

theorem foldr_masked {b : Bitwise} {ops : List (Op w)}
    (h : ∀ op ∈ ops, (b.mask? op).isSome = true) (x : BitVec w) :
    ops.foldr Op.effect x = (ops.filterMap b.mask?).foldr b.combine x := by
  induction ops with
  | nil => rfl
  | cons op ops ih =>
    obtain ⟨m, hm⟩ := Option.isSome_iff_exists.mp (h op List.mem_cons_self)
    have hops := ih fun a ha => h a (List.mem_cons_of_mem op ha)
    rw [List.foldr_cons, List.filterMap_cons_some hm, List.foldr_cons, hops, effect_of_mask hm]

end Bitwise

/-! ### Main result -/

/-- Whatever the schedule, additions and subtractions leave the start value with all that was added
and without all that was subtracted, and masks leave it combined with every mask. -/
theorem final_contents (cell : Cell w) (todo : List (List (Op w))) (schedule : List Move)
    (hf : ((Race.start cell todo).run schedule).finished = true) :
    ((∀ op ∈ todo.flatten, op.additive = true) →
      ((Race.start cell todo).run schedule).cell.contents = cell.contents +
        (todo.flatten.map Op.added).sum - (todo.flatten.map Op.subtracted).sum) ∧
      ∀ b : Bitwise, (∀ op ∈ todo.flatten, (b.mask? op).isSome = true) →
        ((Race.start cell todo).run schedule).cell.contents =
          (todo.flatten.filterMap b.mask?).foldr b.combine cell.contents := by
  constructor
  · intro hall
    have hcomm (a) (ha : a ∈ todo.flatten) (b) (hb : b ∈ todo.flatten) (x : BitVec w) :
        a.effect (b.effect x) = b.effect (a.effect x) := by
      simp only [Op.effect_of_additive (hall a ha), Op.effect_of_additive (hall b hb)]
      grind
    rw [contents_of_commute cell todo schedule hf hcomm, Op.foldr_additive hall]
  · intro b hall
    have hcomm (a) (ha : a ∈ todo.flatten) (c) (hc : c ∈ todo.flatten) (x : BitVec w) :
        a.effect (c.effect x) = c.effect (a.effect x) := by
      obtain ⟨m, hm⟩ := Option.isSome_iff_exists.mp (hall a ha)
      obtain ⟨n, hn⟩ := Option.isSome_iff_exists.mp (hall c hc)
      simp only [Bitwise.effect_of_mask hm, Bitwise.effect_of_mask hn]
      exact b.combine_left_comm m n x
    rw [contents_of_commute cell todo schedule hf hcomm, Bitwise.foldr_masked hall]

/-- A race of two operations. The second is carried out when the first has loaded. -/
def interposed (first second : Op 32) : Race 32 :=
  (Race.start { contents := 1 } [[first], [second]]).run
    (List.replicate 2 (.thread 0) ++ List.replicate 4 (.thread 1) ++ List.replicate 7 (.thread 0))

/-- A subtraction and a mask are computed twice, and count once. The subtraction wraps. -/
theorem final_contents_interposed :
    (interposed (.fetchSub 3) .fetchInc).finished = true ∧
      (interposed (.fetchSub 3) .fetchInc).cell.contents = 0xffffffff#32 ∧
      (interposed (.fetchXor 6) (.xor 3)).finished = true ∧
      (interposed (.fetchXor 6) (.xor 3)).cell.contents = 4#32 := by
  have hsub : (interposed (.fetchSub 3) .fetchInc).finished = true := by cbv
  have hxor : (interposed (.fetchXor 6) (.xor 3)).finished = true := by cbv
  have hcounted := (final_contents _ _ _ hsub).1 (by decide)
  have hmasked := (final_contents _ _ _ hxor).2 .xor (by decide)
  exact ⟨hsub, hcounted.trans (by decide), hxor, hmasked.trans (by decide)⟩

end Interlock
