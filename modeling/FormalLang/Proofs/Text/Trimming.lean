import FormalLang.Proofs.Split.Spelling
import Mathlib.Data.List.TakeWhile

/-!
# Trimming

Trimming a text takes off the longest runs of blanks at its two ends: what is left stands
between blanks, and neither begins nor ends with one.  There is only one such rest, and it is
empty for texts of blanks only.

Main results:

- Theorem `Text.trims_iff`: what is left of a text.
- Theorem `Text.trim_eq_nil_iff`: when nothing is left.
-/

namespace FormalLang.Text

variable {b b' s t : List Char}

/-- A text is another one without the blanks at its two ends. -/
structure Trims (t s : List Char) : Prop where
  between_blanks : ∃ b b', AllBlank b ∧ AllBlank b' ∧ t = b ++ s ++ b'
  head_not_blank : ∀ c ∈ s.head?, isBlank c = false
  last_not_blank : ∀ c ∈ s.getLast?, isBlank c = false

instance (t : List Char) : Decidable (AllBlank t) :=
  decidable_of_iff (t.all isBlank = true) List.all_eq_true

/-! ## Ends of texts -/

/-- The blanks behind a text that does not end with one are taken off. -/
theorem trimEnd_append_of_last (hs : ∀ c ∈ s.getLast?, isBlank c = false) (hb : AllBlank b) :
    trimEnd (s ++ b) = s := by
  induction s with
  | nil => exact trimEnd_of_allBlank hb
  | cons c s ih =>
      rw [List.cons_append, trimEnd]
      cases s with
      | nil =>
          have hc : isBlank c = false := hs c rfl
          simp [hc, trimEnd_of_allBlank hb]
      | cons d s =>
          rw [ih fun e he => hs e (by simpa using he)]
          simp

/-- What is left does not end with a blank. -/
theorem last_trimEnd (t : List Char) : ∀ c ∈ (trimEnd t).getLast?, isBlank c = false := by
  induction t with
  | nil => simp [trimEnd]
  | cons d t ih =>
      intro c hc
      simp only [trimEnd] at hc
      split at hc
      · simp at hc
      · rename_i h
        cases hrest : trimEnd t with
        | nil =>
            rw [hrest] at hc h
            have hd : isBlank d = false := by simpa using h
            have hcd : d = c := by simpa using hc
            exact hcd ▸ hd
        | cons e rest =>
            rw [hrest] at hc ih
            exact ih c (by simpa using hc)

theorem head_skipBlanks (t : List Char) : ∀ c ∈ (skipBlanks t).head?, isBlank c = false := by
  intro c hc
  have hhead := List.head?_dropWhile_not isBlank t
  rw [skipBlanks, Option.mem_def] at hc
  rw [hc] at hhead
  exact hhead

theorem skipBlanks_of_head (h : ∀ c ∈ t.head?, isBlank c = false) : skipBlanks t = t := by
  cases t with
  | nil => rfl
  | cons c t => simp [skipBlanks, h c rfl]

/-! ## Both ends -/

/-- The blanks around a text that has none at its ends are taken off. -/
theorem Trims.trim_eq (h : Trims t s) : trim t = s := by
  rcases h.between_blanks with ⟨b, b', hb, hb', rfl⟩
  rw [trim, List.append_assoc, skipBlanks_append_of_blank hb]
  cases s with
  | nil =>
      rw [List.nil_append, skipBlanks, List.dropWhile_eq_nil_iff.mpr hb']
      rfl
  | cons c s =>
      have hhead : ∀ d ∈ (c :: s ++ b').head?, isBlank d = false := fun d hd =>
        h.head_not_blank d hd
      rw [skipBlanks_of_head hhead, trimEnd_append_of_last h.last_not_blank hb']

theorem trims_trim (t : List Char) : Trims t (trim t) where
  between_blanks := by
    refine ⟨t.takeWhile isBlank, trailingBlanks (skipBlanks t), ?_, allBlank_trailingBlanks _, ?_⟩
    · exact fun c hc => List.mem_takeWhile_imp hc
    · rw [trim, List.append_assoc, trimEnd_append_trailingBlanks]
      exact List.takeWhile_append_dropWhile.symm
  head_not_blank := by
    intro c hc
    -- What is left begins as the text behind the first blanks.
    refine head_skipBlanks t c ?_
    have hhead : (trimEnd (skipBlanks t)).head? = some c := hc
    rw [← trimEnd_append_trailingBlanks (skipBlanks t), List.head?_append, hhead]
    rfl
  last_not_blank := last_trimEnd (skipBlanks t)

/-- Trimming gives the one text that stands between blanks and has none at its ends. -/
theorem trims_iff : Trims t s ↔ trim t = s := by
  constructor
  · exact Trims.trim_eq
  · rintro rfl
    exact trims_trim t

/-- As a string. -/
theorem trims_ofList_trim (t : List Char) : Trims t (String.ofList (trim t)).toList :=
  trims_iff.mpr String.toList_ofList.symm

/-- Only one string is left of a text. -/
theorem Trims.string_eq {a a' : String} (h : Trims t a.toList) (h' : Trims t a'.toList) : a = a' :=
  String.toList_inj.mp (h.trim_eq.symm.trans h'.trim_eq)

/-- Nothing is left of blanks, and of nothing else. -/
theorem trim_eq_nil_iff : trim t = [] ↔ AllBlank t := by
  rw [← trims_iff]
  constructor
  · intro h
    rcases h.between_blanks with ⟨b, b', hb, hb', rfl⟩
    rw [List.append_nil]
    exact List.forall_mem_append.mpr ⟨hb, hb'⟩
  · intro h
    exact ⟨⟨t, [], h, List.forall_mem_nil _, by simp⟩, by simp, by simp⟩

/-- What is left of a text is blank when the text is. -/
theorem Trims.allBlank_iff (h : Trims t s) : AllBlank s ↔ AllBlank t := by
  constructor
  · intro hs
    rcases h.between_blanks with ⟨b, b', hb, hb', rfl⟩
    exact List.forall_mem_append.mpr ⟨List.forall_mem_append.mpr ⟨hb, hs⟩, hb'⟩
  · intro ht
    rw [← h.trim_eq, trim_eq_nil_iff.mpr ht]
    exact List.forall_mem_nil _

end FormalLang.Text
