import FormalLang.Proofs.Split.Reading

/-!
# Words written without blanks

Symbols can be written one after the other with nothing between them.  When no symbol has
a blank in it, a word splits off the text that is written so, and whatever words a text
splits into, they are all written as the text without its blanks.  So words in symbols of
one character each are told apart by their texts.

Main results:

- Theorem `Text.trim_append_append`: trimming takes the blanks off at both ends.
- Theorem `isSplit_spell`: a word splits off the text that is written for it.
- Theorem `IsSplit.spell_eq`: into what words a text can split.
- Theorem `IsSplit.eq_of_single`: one at most, in symbols of one character.
-/

namespace FormalLang

/-! ## Texts with and without blanks -/

namespace Text

variable {b t b' : List Char}

/-- A text with no white space in it. -/
def NoBlank (t : List Char) : Prop :=
  ∀ c ∈ t, isBlank c = false

theorem trimEnd_of_allBlank (h : AllBlank b) : trimEnd b = [] := by
  induction b with
  | nil => rfl
  | cons c b ih =>
      have hc := h c List.mem_cons_self
      rw [trimEnd, ih fun d hd => h d (List.mem_cons_of_mem c hd)]
      simp [hc]

theorem trimEnd_append_of_noBlank (ht : NoBlank t) (s : List Char) :
    trimEnd (t ++ s) = t ++ trimEnd s := by
  induction t with
  | nil => rfl
  | cons c t ih =>
      have hc := ht c List.mem_cons_self
      rw [List.cons_append, trimEnd, ih fun d hd => ht d (List.mem_cons_of_mem c hd)]
      simp [hc]

/-- The blanks at the end of a text are taken off. -/
theorem trimEnd_append_of_blank (ht : NoBlank t) (hb : AllBlank b) : trimEnd (t ++ b) = t := by
  rw [trimEnd_append_of_noBlank ht, trimEnd_of_allBlank hb, List.append_nil]

/-- The blanks at the end of a text do not depend on what stands in front of it. -/
theorem trailingBlanks_append_of_noBlank (ht : NoBlank t) (s : List Char) :
    trailingBlanks (t ++ s) = trailingBlanks s := by
  rw [trailingBlanks, trimEnd_append_of_noBlank ht, List.length_append, ← List.drop_drop,
    List.drop_left, trailingBlanks]

theorem trailingBlanks_of_noBlank (h : NoBlank t) : trailingBlanks t = [] := by
  have happend := trailingBlanks_append_of_noBlank h []
  rwa [List.append_nil] at happend

/-- A text in blanks is found again. -/
theorem trim_append_append (hb : AllBlank b) (ht : NoBlank t) (hb' : AllBlank b') (hne : t ≠ []) :
    trim (b ++ t ++ b') = t := by
  have hskip : skipBlanks (t ++ b') = t ++ b' := by
    cases t with
    | nil => exact (hne rfl).elim
    | cons c t =>
        have hc := ht c List.mem_cons_self
        simp [skipBlanks, hc]
  rw [trim, List.append_assoc, skipBlanks_append_of_blank hb, hskip,
    trimEnd_append_of_blank ht hb']

/-- What stands after a text is blank. -/
theorem allBlank_trailingBlanks (t : List Char) : AllBlank (trailingBlanks t) := by
  induction t with
  | nil => exact List.forall_mem_nil _
  | cons c t ih =>
      have hrest : trailingBlanks t = t.drop (trimEnd t).length := rfl
      simp only [trailingBlanks, trimEnd]
      split
      · rename_i h
        simp only [Bool.and_eq_true, List.isEmpty_iff] at h
        rw [hrest, h.2, List.length_nil, List.drop_zero] at ih
        rw [List.length_nil, List.drop_zero]
        exact List.forall_mem_cons.mpr ⟨h.1, ih⟩
      · exact ih

/-- Blanks in front do not count when blanks are left out. -/
theorem filter_skipBlanks (t : List Char) :
    (skipBlanks t).filter (fun c => !isBlank c) = t.filter fun c => !isBlank c := by
  induction t with
  | nil => rfl
  | cons c t ih =>
      by_cases hc : isBlank c = true
      · have hstep : skipBlanks (c :: t) = skipBlanks t := by simp [skipBlanks, hc]
        rw [hstep, ih, List.filter_cons_of_neg]
        simp [hc]
      · simp [skipBlanks, hc]

theorem filter_of_noBlank (h : NoBlank t) : (t.filter fun c => !isBlank c) = t := by
  rw [List.filter_eq_self]
  intro c hc
  rw [h c hc]
  rfl

theorem filter_of_allBlank (h : AllBlank b) : (b.filter fun c => !isBlank c) = [] := by
  rw [List.filter_eq_nil_iff]
  intro c hc
  simp [h c hc]

end Text

/-! ## Splits of blank texts -/

/-- The empty word is split off blank texts only. -/
theorem isSplit_nil_iff {t : List Char} : IsSplit [] t ↔ Text.AllBlank t := by
  rw [IsSplit, readsWord_nil_iff]
  constructor
  · intro h
    rw [← h]
    exact Text.allBlank_trailingBlanks t
  · intro h
    rw [Text.trailingBlanks, Text.trimEnd_of_allBlank h]
    rfl

/-- Nothing else is split off a blank text. -/
theorem isSplit_blank_iff {t : List Char} (h : Text.AllBlank t) {w : Word} :
    IsSplit w t ↔ w = [] := by
  have htrailing : Text.trailingBlanks t = t := readsWord_nil_iff.mp (isSplit_nil_iff.mpr h)
  rw [IsSplit, htrailing, readsWord_self_iff]

/-! ## Spelling -/

/-- The characters of a word, with nothing between its symbols. -/
def Word.spell (w : Word) : List Char :=
  w.flatMap Symbol.chars

variable {w w' : Word} {t rest : List Char}

theorem Word.spell_cons (a : Symbol) (w : Word) : spell (a :: w) = a.chars ++ spell w :=
  List.flatMap_cons

theorem Word.noBlank_spell (h : ∀ a ∈ w, Text.NoBlank a.chars) : Text.NoBlank w.spell := by
  intro c hc
  rcases List.mem_flatMap.mp hc with ⟨a, ha, hca⟩
  exact h a ha c hca

theorem Word.spell_ne_nil (h : w ≠ []) : w.spell ≠ [] := by
  cases w with
  | nil => exact (h rfl).elim
  | cons a w =>
      rw [spell_cons]
      exact List.append_ne_nil_of_left_ne_nil a.chars_ne_nil _

/-- The text of a word with symbols is what is spelled. -/
theorem Word.toList_text (h : w ≠ []) : (Word.text w).toList = w.spell := by
  rw [Word.text, if_neg (by simpa using h), String.toList_join, List.flatMap_map]
  rfl

/-- A symbol without blanks is taken off where it is written. -/
theorem reads_chars_append {a : Symbol} (ha : Text.NoBlank a.chars) (rest : List Char) :
    Reads a (a.chars ++ rest) rest := by
  rw [Reads]
  cases hchars : a.chars with
  | nil => exact (a.chars_ne_nil hchars).elim
  | cons c chars =>
      have hc := ha c (hchars ▸ List.mem_cons_self)
      simp [Text.skipBlanks, hc]

/-- A word is taken off the text that is written for it. -/
theorem readsWord_spell_append (h : ∀ a ∈ w, Text.NoBlank a.chars) (rest : List Char) :
    ReadsWord w (w.spell ++ rest) rest := by
  induction w with
  | nil => exact .nil rest
  | cons a w ih =>
      have hrest := ih fun b hb => h b (List.mem_cons_of_mem a hb)
      rw [Word.spell_cons, List.append_assoc]
      exact .cons (reads_chars_append (h a List.mem_cons_self) _) hrest

/-- A word splits off its own text. -/
theorem isSplit_spell (h : ∀ a ∈ w, Text.NoBlank a.chars) : IsSplit w w.spell := by
  have hreads := readsWord_spell_append h []
  rwa [List.append_nil, ← Text.trailingBlanks_of_noBlank (Word.noBlank_spell h)] at hreads

/-- Taking off a word takes off what it is written as, and blanks. -/
theorem ReadsWord.filter_eq (hreads : ReadsWord w t rest)
    (h : ∀ a ∈ w, Text.NoBlank a.chars) :
    (t.filter fun c => !Text.isBlank c) = w.spell ++ rest.filter fun c => !Text.isBlank c := by
  induction hreads with
  | nil t => rfl
  | @cons a w t u rest hfirst _ ih =>
      have hchars := h a List.mem_cons_self
      rw [← Text.filter_skipBlanks, hfirst, List.filter_append, Text.filter_of_noBlank hchars,
        ih fun b hb => h b (List.mem_cons_of_mem a hb), Word.spell_cons, List.append_assoc]

/-- Every word into which a text splits is written as the text without its blanks. -/
theorem IsSplit.spell_eq (hsplit : IsSplit w t) (h : ∀ a ∈ w, Text.NoBlank a.chars) :
    w.spell = t.filter fun c => !Text.isBlank c := by
  have hfilter := hsplit.filter_eq h
  rw [Text.filter_of_allBlank (Text.allBlank_trailingBlanks t), List.append_nil] at hfilter
  exact hfilter.symm

/-- Words in symbols of one character are told apart by what is spelled. -/
theorem Word.eq_of_spell_eq (hw : ∀ a ∈ w, a.chars.length = 1)
    (hw' : ∀ a ∈ w', a.chars.length = 1) (h : w.spell = w'.spell) : w = w' := by
  induction w generalizing w' with
  | nil =>
      cases w' with
      | nil => rfl
      | cons a w' => exact (spell_ne_nil (List.cons_ne_nil a w') h.symm).elim
  | cons a w ih =>
      cases w' with
      | nil => exact (spell_ne_nil (List.cons_ne_nil a w) h).elim
      | cons b w' =>
          rw [spell_cons, spell_cons] at h
          have hlen : a.chars.length = b.chars.length :=
            (hw a List.mem_cons_self).trans (hw' b List.mem_cons_self).symm
          have hparts := List.append_inj h hlen
          have hrest := ih (fun c hc => hw c (List.mem_cons_of_mem a hc))
            (fun c hc => hw' c (List.mem_cons_of_mem b hc)) hparts.2
          rw [Symbol.chars_injective hparts.1, hrest]

/-- A text splits into one word at most in symbols of one character that is not blank. -/
theorem IsSplit.eq_of_single (hw : IsSplit w t) (hw' : IsSplit w' t)
    (h : ∀ a ∈ w ++ w', Text.NoBlank a.chars ∧ a.chars.length = 1) : w = w' := by
  rw [List.forall_mem_append] at h
  have hspell := (hw.spell_eq fun a ha => (h.1 a ha).1).trans
    (hw'.spell_eq fun a ha => (h.2 a ha).1).symm
  exact Word.eq_of_spell_eq (fun a ha => (h.1 a ha).2) (fun a ha => (h.2 a ha).2) hspell

end FormalLang
