import Mathlib.Data.List.DropRight
import Mathlib.Data.List.Forall2
import Mathlib.Data.List.TakeWhile
import Interlock.Text.Blank

/-!
# Blanks around a text and the case of its letters

Blanks at either end of a text are no part of what is left when it is trimmed, and between them
nothing is lost. Making letters small identifies exactly the texts that differ in the case of the
letters A to Z, keeps blanks as they are, and so may come before or after trimming.
-/

namespace Interlock.Text

/-! ### Bytes of a text -/

theorem fromUTF8?_eq_some_iff {bytes : ByteArray} {text : String} :
    String.fromUTF8? bytes = some text ↔ text.toUTF8 = bytes := by
  constructor
  · intro h
    unfold String.fromUTF8? at h
    split at h
    · cases h
      rfl
    · cases h
  · rintro rfl
    have hvalid : text.toUTF8.IsValidUTF8 := text.isValidUTF8
    rw [String.fromUTF8?, dif_pos hvalid]
    rfl

/-! ### Blank characters -/

/-- The characters with the property White_Space, by their code points. -/
def WhiteSpace (c : Char) : Prop :=
  (9 ≤ c.toNat ∧ c.toNat ≤ 13) ∨ c.toNat = 0x20 ∨ c.toNat = 0x85 ∨ c.toNat = 0xa0 ∨
    c.toNat = 0x1680 ∨ (0x2000 ≤ c.toNat ∧ c.toNat ≤ 0x200a) ∨ c.toNat = 0x2028 ∨
    c.toNat = 0x2029 ∨ c.toNat = 0x202f ∨ c.toNat = 0x205f ∨ c.toNat = 0x3000

theorem isBlank_iff (c : Char) : isBlank c = true ↔ WhiteSpace c := by
  simp only [isBlank, blanks, List.contains_eq_mem, List.mem_cons, List.not_mem_nil, or_false,
    decide_eq_true_eq, ← Char.toNat_inj, Char.reduceToNat, WhiteSpace]
  omega

/-! ### The case of letters -/

/-- Two characters differ at most in the case of a letter A to Z. -/
def SameLetter (c d : Char) : Prop :=
  c = d ∨ (65 ≤ c.toNat ∧ c.toNat ≤ 90 ∧ d.toNat = c.toNat + 32) ∨
    (65 ≤ d.toNat ∧ d.toNat ≤ 90 ∧ c.toNat = d.toNat + 32)

theorem toNat_toLower (c : Char) :
    c.toLower.toNat = if 65 ≤ c.toNat ∧ c.toNat ≤ 90 then c.toNat + 32 else c.toNat := by
  have hupper : (c.val ≥ 'A'.val ∧ c.val ≤ 'Z'.val) ↔ (65 ≤ c.toNat ∧ c.toNat ≤ 90) := by
    rw [ge_iff_le, UInt32.le_iff_toNat_le, UInt32.le_iff_toNat_le]
    exact Iff.rfl
  unfold Char.toLower
  by_cases h : 65 ≤ c.toNat ∧ c.toNat ≤ 90
  · rw [dif_pos (hupper.mpr h), if_pos h]
    show (c.val + 32).toNat = c.toNat + 32
    rw [UInt32.toNat_add]
    have hval : c.val.toNat = c.toNat := rfl
    simp only [hval, UInt32.reduceToNat]
    omega
  · rw [dif_neg (fun hval => h (hupper.mp hval)), if_neg h]

theorem sameLetter_iff (c d : Char) : SameLetter c d ↔ c.toLower = d.toLower := by
  rw [← Char.toNat_inj, toNat_toLower, toNat_toLower, SameLetter, ← Char.toNat_inj]
  split <;> split <;> omega

theorem isBlank_toLower (c : Char) : isBlank c.toLower = isBlank c := by
  rw [Bool.eq_iff_iff, isBlank_iff, isBlank_iff, WhiteSpace, WhiteSpace, toNat_toLower]
  split <;> omega

theorem forall₂_sameLetter_iff (cs ds : List Char) :
    List.Forall₂ SameLetter cs ds ↔ lowerAscii cs = lowerAscii ds := by
  have hletter : SameLetter = fun c d => c.toLower = d.toLower := by
    funext c d
    exact propext (sameLetter_iff c d)
  rw [lowerAscii, lowerAscii, ← List.forall₂_eq_eq_eq, List.forall₂_map_left_iff,
    List.forall₂_map_right_iff, hletter]

/-! ### Trimming -/

/-- All characters of a text are blank. -/
def AllBlank (cs : List Char) : Prop := ∀ c ∈ cs, WhiteSpace c

theorem AllBlank.isBlank {cs : List Char} (h : AllBlank cs) : ∀ c ∈ cs, isBlank c = true :=
  fun c hc => (isBlank_iff c).mpr (h c hc)

theorem AllBlank.append {a b : List Char} (ha : AllBlank a) (hb : AllBlank b) :
    AllBlank (a ++ b) := by
  intro c hc
  rcases List.mem_append.mp hc with h | h
  · exact ha c h
  · exact hb c h

theorem allBlank_takeWhile (cs : List Char) : AllBlank (cs.takeWhile isBlank) :=
  fun c hc => (isBlank_iff c).mp (List.mem_takeWhile_imp hc)

theorem trimEnd_eq (cs : List Char) : trimEnd cs = cs.rdropWhile isBlank := rfl

/-- Between the blanks at its ends nothing of a text is lost. -/
theorem exists_trim (cs : List Char) :
    ∃ a b, AllBlank a ∧ AllBlank b ∧ cs = a ++ trim cs ++ b := by
  refine ⟨cs.takeWhile isBlank, (cs.dropWhile isBlank).rtakeWhile isBlank,
    allBlank_takeWhile cs, ?_, ?_⟩
  · intro c hc
    exact (isBlank_iff c).mp (List.mem_rtakeWhile_imp hc)
  · rw [trim, trimEnd_eq, List.append_assoc, List.rdropWhile_append_rtakeWhile,
      List.takeWhile_append_dropWhile]

theorem trimEnd_append {b : List Char} (hb : AllBlank b) (cs : List Char) :
    trimEnd (cs ++ b) = trimEnd cs := by
  have hreverse : ∀ c ∈ b.reverse, isBlank c = true :=
    fun c hc => hb.isBlank c (List.mem_reverse.mp hc)
  rw [trimEnd, trimEnd, List.reverse_append, List.dropWhile_append_of_pos hreverse]

theorem trim_append_left {a : List Char} (ha : AllBlank a) (cs : List Char) :
    trim (a ++ cs) = trim cs := by
  rw [trim, trim, List.dropWhile_append_of_pos ha.isBlank]

theorem trim_of_allBlank {cs : List Char} (h : AllBlank cs) : trim cs = [] := by
  have hnil := trim_append_left h []
  rw [List.append_nil] at hnil
  exact hnil

theorem trim_append_right {b : List Char} (hb : AllBlank b) (cs : List Char) :
    trim (cs ++ b) = trim cs := by
  by_cases h : AllBlank cs
  · rw [trim_of_allBlank (h.append hb), trim_of_allBlank h]
  · have hrest : (cs.dropWhile isBlank).isEmpty = false := by
      rw [List.isEmpty_eq_false_iff, ne_eq, List.dropWhile_eq_nil_iff]
      exact fun hall => h fun c hc => (isBlank_iff c).mp (hall c hc)
    rw [trim, trim, List.dropWhile_append, hrest, if_neg Bool.false_ne_true, trimEnd_append hb]

theorem trim_of_no_blank {cs : List Char} (h : ∀ c ∈ cs, isBlank c = false) : trim cs = cs := by
  have hstart : cs.dropWhile isBlank = cs := by
    rw [List.dropWhile_eq_self_iff]
    intro hl
    rw [h _ (List.getElem_mem hl)]
    exact Bool.false_ne_true
  rw [trim, hstart, trimEnd_eq, List.rdropWhile_eq_self_iff]
  intro hl
  rw [h _ (List.getLast_mem hl)]
  exact Bool.false_ne_true

theorem lowerAscii_trim (cs : List Char) : lowerAscii (trim cs) = trim (lowerAscii cs) := by
  have hblank : isBlank ∘ Char.toLower = isBlank := funext isBlank_toLower
  rw [trim, trim, trimEnd, trimEnd, lowerAscii, lowerAscii, List.dropWhile_map, hblank,
    ← List.map_reverse, List.dropWhile_map, hblank, List.map_reverse]

end Interlock.Text
