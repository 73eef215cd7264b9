import Interlock.Fence.Mode
import Interlock.Proofs.Text.Trim

/-!
# The texts that name a mode

A text names a mode if it is one of the mode's words, in letters of either case, with blanks around
it; a text of blanks alone leaves the decision to the processor. These texts are read as their mode
and no other text is read at all, so a mode is found whatever the case and the blanks, and no
character outside ASCII stands for a letter of a word.
-/

namespace Interlock.Fence.Mode

open Text

/-! ### Words -/

/-- The words for a mode. -/
def words : Mode → List String
  | auto => ["auto"]
  | on => ["on", "true", "1"]
  | off => ["off", "false", "0"]

/-- The texts that name a mode. -/
inductive Names : List Char → Mode → Prop
  | blank {text} : AllBlank text → Names text auto
  | word {a c b mode} {word : String} : AllBlank a → AllBlank b → word ∈ words mode →
    List.Forall₂ SameLetter c word.toList → Names (a ++ c ++ b) mode

theorem plain_words (mode : Mode) : ∀ word ∈ words mode,
    lowerAscii word.toList = word.toList ∧
      ∀ c ∈ word.toList, isBlank c = false ∧ c.toNat < 128 := by
  have hwords : ∀ word ∈ words mode, lowerAscii word.toList = word.toList ∧
      word.toList.all (fun c => !isBlank c && decide (c.toNat < 128)) = true := by
    cases mode <;> decide
  intro word hword
  obtain ⟨hlower, hall⟩ := hwords word hword
  refine ⟨hlower, fun c hc => ?_⟩
  have hplain := List.all_eq_true.mp hall c hc
  rwa [Bool.and_eq_true, Bool.not_eq_true', decide_eq_true_iff] at hplain

theorem named?_word (mode : Mode) : ∀ word ∈ words mode, named? word.toList = some mode := by
  cases mode <;> decide

theorem named?_eq_some_iff (cs : List Char) (mode : Mode) :
    named? cs = some mode ↔ (cs = [] ∧ mode = auto) ∨ ∃ word ∈ words mode, word.toList = cs := by
  constructor
  · intro h
    unfold named? at h
    split at h <;> cases h <;> simp [words]
  · rintro (⟨rfl, rfl⟩ | ⟨word, hword, rfl⟩)
    · rfl
    · exact named?_word mode word hword

/-! ### Reading -/

theorem parse_eq_ok_iff (text : String) (mode : Mode) :
    parse text = .ok mode ↔ named? (lowerAscii (trim text.toList)) = some mode := by
  unfold parse
  cases named? (lowerAscii (trim text.toList)) <;> simp

theorem Names.named? {cs : List Char} {mode : Mode} (h : Names cs mode) :
    named? (lowerAscii (trim cs)) = some mode := by
  cases h with
  | blank hall =>
    rw [trim_of_allBlank hall]
    rfl
  | @word a c b mode word ha hb hword hletters =>
    obtain ⟨hlower, hplain⟩ := plain_words mode word hword
    have hc : lowerAscii c = word.toList := by
      rw [(forall₂_sameLetter_iff c word.toList).mp hletters, hlower]
    -- No letter of the word is blank, so none of `c` is, and trimming leaves just `c`.
    have hblank : ∀ x ∈ c, isBlank x = false := by
      intro x hx
      have hmem : x.toLower ∈ lowerAscii c := List.mem_map_of_mem hx
      rw [hc] at hmem
      rw [← isBlank_toLower]
      exact (hplain _ hmem).1
    rw [trim_append_right hb, trim_append_left ha, trim_of_no_blank hblank, hc]
    exact named?_word mode word hword

theorem names_of_named? {cs : List Char} {mode : Mode}
    (h : named? (lowerAscii (trim cs)) = some mode) : Names cs mode := by
  obtain ⟨a, b, ha, hb, hcs⟩ := exists_trim cs
  rcases (named?_eq_some_iff _ _).mp h with ⟨hnil, rfl⟩ | ⟨word, hword, heq⟩
  · have htrim : trim cs = [] := List.map_eq_nil_iff.mp hnil
    rw [htrim, List.append_nil] at hcs
    exact .blank (hcs ▸ ha.append hb)
  · have hletters : List.Forall₂ SameLetter (trim cs) word.toList := by
      rw [forall₂_sameLetter_iff, (plain_words mode word hword).1, heq]
    rw [hcs]
    exact .word ha hb hword hletters

theorem parse_eq_ok_iff_names (text : String) (mode : Mode) :
    parse text = .ok mode ↔ Names text.toList mode := by
  rw [parse_eq_ok_iff]
  exact ⟨names_of_named?, Names.named?⟩

theorem parse_eq_error_iff (text : String) (e : BadMode) :
    parse text = .error e ↔ e = ⟨text⟩ ∧ ∀ mode, ¬ Names text.toList mode := by
  simp only [← parse_eq_ok_iff_names]
  unfold parse
  cases named? (lowerAscii (trim text.toList)) with
  | none => simp [eq_comm]
  | some mode => simp

theorem Names.unique {cs : List Char} {mode mode' : Mode} (h : Names cs mode)
    (h' : Names cs mode') : mode = mode' :=
  Option.some.inj (h.named?.symm.trans h'.named?)

theorem Names.ascii {cs : List Char} {mode : Mode} (h : Names cs mode) :
    ∀ x ∈ cs, WhiteSpace x ∨ x.toNat < 128 := by
  intro x hx
  cases h with
  | blank hall => exact .inl (hall x hx)
  | @word a c b mode word ha hb hword hletters =>
    rcases List.mem_append.mp hx with hx | hx
    · rcases List.mem_append.mp hx with hx | hx
      · exact .inl (ha x hx)
      · have hmem : x.toLower ∈ lowerAscii c := List.mem_map_of_mem hx
        rw [(forall₂_sameLetter_iff c word.toList).mp hletters,
          (plain_words mode word hword).1] at hmem
        have hlt := ((plain_words mode word hword).2 _ hmem).2
        rw [toNat_toLower] at hlt
        right
        split at hlt <;> omega
    · exact .inl (hb x hx)

/-! ### Main result -/

/-- How a text is read as a mode, and from a variable. -/
structure ReadsExactly (text : String) : Prop where
  accepts : ∀ mode, parse text = .ok mode ↔ Names text.toList mode
  /-- Any other text is refused, and kept as it is. -/
  refuses : ∀ e, parse text = .error e ↔ e = ⟨text⟩ ∧ ∀ mode, ¬ Names text.toList mode
  disjoint : ∀ mode mode', Names text.toList mode → Names text.toList mode' → mode = mode'
  /-- Blanks at either end make no difference to what is accepted, -/
  padded : ∀ a b : String, AllBlank a.toList → AllBlank b.toList →
    ∀ mode, parse (a ++ text ++ b) = .ok mode ↔ parse text = .ok mode
  /-- nor does the case of the letters A to Z, -/
  recased : ∀ other : String, List.Forall₂ SameLetter text.toList other.toList →
    ∀ mode, parse other = .ok mode ↔ parse text = .ok mode
  /-- and no other character stands for such a letter. -/
  ascii : ∀ mode, parse text = .ok mode → ∀ c ∈ text.toList, WhiteSpace c ∨ c.toNat < 128
  fromVariable : ofVariable (some text.toUTF8) = parse text
  unset : ofVariable none = .ok auto
  noText : ∀ bytes, (∀ other : String, other.toUTF8 ≠ bytes) → ofVariable (some bytes) = .ok auto

/-- A text is read as a mode exactly if it names that mode. -/
theorem parse_exact (text : String) : ReadsExactly text where
  accepts := parse_eq_ok_iff_names text
  refuses := parse_eq_error_iff text
  disjoint _ _ h h' := h.unique h'
  padded a b ha hb mode := by
    rw [parse_eq_ok_iff, parse_eq_ok_iff, String.toList_append, String.toList_append,
      trim_append_right hb, trim_append_left ha]
  recased other hletters mode := by
    rw [parse_eq_ok_iff, parse_eq_ok_iff, lowerAscii_trim, lowerAscii_trim,
      (forall₂_sameLetter_iff _ _).mp hletters]
  ascii mode h := ((parse_eq_ok_iff_names text mode).mp h).ascii
  fromVariable := by
    rw [ofVariable, Option.bind_some, fromUTF8?_eq_some_iff.mpr rfl]
  unset := rfl
  noText bytes h := by
    have hnone : String.fromUTF8? bytes = none := by
      rw [Option.eq_none_iff_forall_ne_some]
      exact fun other hother => h other (fromUTF8?_eq_some_iff.mp hother)
    rw [ofVariable, Option.bind_some, hnone]

/-- A letter that looks like one of A to Z makes a text that is refused whole. -/
example : parse "\u00a0oFf\n" = .ok off ∧ parse " tru\u0435 " = .error ⟨" tru\u0435 "⟩ := by
  decide +kernel

end Interlock.Fence.Mode
