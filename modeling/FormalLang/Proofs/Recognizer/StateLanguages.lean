import FormalLang.Proofs.Recognizer.Configurations
import FormalLang.Proofs.Split.Spacing
import Mathlib.Computability.Language

/-!
# Languages of states

From every state a recognizer reads a language of texts, the texts that lead from there to a
final state when they are written without blanks.  The languages of the states are tied
together by equations, one for each state, with a summand for each way out of it.  When every
symbol is a single letter, the blanks of a text can be left out, and the language of the start
decides what is recognized.

Main results:

- Theorem `Recognizer.language_solves`: the languages of the states solve the equations.
- Theorem `Recognizer.recognizesText_iff_mem_language`: a text over single letters is
  recognized exactly when the text without its blanks is in the language of the start.
-/

namespace FormalLang

/-! ## Single letters -/

/-- The characters of a text that are not white space, in order. -/
def Text.withoutBlanks (t : List Char) : List Char :=
  t.filter fun c => !isBlank c

/-- Symbols of one character each, which is not white space. -/
def SingleLetters (symbols : List Symbol) : Prop :=
  ∀ a ∈ symbols, Text.NoBlank a.chars ∧ a.chars.length = 1

instance (symbols : List Symbol) : Decidable (SingleLetters symbols) :=
  decidable_of_iff
    ((symbols.all fun a => (a.chars.all fun c => !Text.isBlank c) && a.chars.length == 1) = true)
    (by simp [SingleLetters, Text.NoBlank])

variable {w : Word} {t : List Char} {symbols : List Symbol}

/-- What is left of a text without its blanks tells the word of letters it is written for. -/
theorem Written.of_spell_eq (hw : SingleLetters w) (h : w.spell = Text.withoutBlanks t) :
    Written w t := by
  induction t generalizing w with
  | nil =>
      have hnil : w = [] := by
        by_contra hne
        exact Word.spell_ne_nil hne h
      exact hnil ▸ .nil
  | cons c t ih =>
      by_cases hc : Text.isBlank c = true
      · rw [Text.withoutBlanks, List.filter_cons_of_neg (by simp [hc])] at h
        exact .blank hc (ih hw h)
      · rw [Text.withoutBlanks, List.filter_cons_of_pos (by simp [hc])] at h
        cases w with
        | nil => exact (List.cons_ne_nil _ _ h.symm).elim
        | cons a w =>
            rcases List.length_eq_one_iff.mp (hw a List.mem_cons_self).2 with ⟨d, hchars⟩
            rw [Word.spell_cons, hchars, List.singleton_append] at h
            rcases List.cons.inj h with ⟨rfl, hrest⟩
            have hwritten := Written.symbol (a := a)
              (ih (fun b hb => hw b (List.mem_cons_of_mem a hb)) hrest)
            rwa [hchars] at hwritten

/-- The splits of a text into single letters are the words that are written as the text
without its blanks. -/
theorem isSplitOver_iff_spell (hsymbols : SingleLetters symbols) :
    IsSplitOver symbols w t ↔
      (∀ a ∈ w, a ∈ symbols) ∧ w.spell = Text.withoutBlanks t := by
  constructor
  · intro h
    exact ⟨h.symbol_mem, h.isSplit.spell_eq fun a ha => (hsymbols a (h.symbol_mem a ha)).1⟩
  · intro h
    have hw : SingleLetters w := fun a ha => hsymbols a (h.1 a ha)
    exact ⟨h.1, (isSplit_iff_written fun a ha => (hw a ha).1).mpr (.of_spell_eq hw h.2)⟩

/-! ## Equations -/

theorem mem_language_sum {languages : List (Language Char)} {s : List Char} :
    s ∈ languages.sum ↔ ∃ L ∈ languages, s ∈ L := by
  induction languages with
  | nil => simp
  | cons L languages ih => rw [List.sum_cons, Language.mem_add, ih, List.exists_mem_cons_iff]

theorem mem_singleton_mul_language {u s : List Char} {L : Language Char} :
    s ∈ ({u} : Language Char) * L ↔ ∃ v ∈ L, u ++ v = s := by
  rw [Language.mem_mul]
  exact exists_eq_left

namespace Recognizer

variable {σ : Type} {M : Recognizer σ} {p : σ}

/-- The ways out of a state: the characters that are read and the state to which they lead. -/
def outgoing (M : Recognizer σ) (p : σ) : List (List Char × σ) :=
  M.alphabet.flatMap fun a => (M.next p a).map fun q => (a.chars, q)

/-- The texts that are written for the words accepted from a state. -/
def language (M : Recognizer σ) (p : σ) : Language Char :=
  {s | ∃ w : Word, (∀ a ∈ w, a ∈ M.alphabet) ∧ w.spell = s ∧ M.AcceptsFrom p w}

theorem mem_language {s : List Char} :
    s ∈ M.language p ↔
      ∃ w : Word, (∀ a ∈ w, a ∈ M.alphabet) ∧ w.spell = s ∧ M.AcceptsFrom p w :=
  Iff.rfl

/-- A text is read from a state when it is empty and the state final, or when a way out reads
its first characters and the rest is read from there. -/
theorem mem_language_iff {s : List Char} :
    s ∈ M.language p ↔
      (s = [] ∧ M.final p = true) ∨
        ∃ e ∈ M.outgoing p, ∃ v ∈ M.language e.2, e.1 ++ v = s := by
  rw [mem_language]
  constructor
  · rintro ⟨w, hw, rfl, haccepts⟩
    cases w with
    | nil => exact Or.inl ⟨rfl, acceptsFrom_nil.mp haccepts⟩
    | cons a w =>
        rcases acceptsFrom_cons.mp haccepts with ⟨q, hq, hrest⟩
        have hout : (a.chars, q) ∈ M.outgoing p :=
          List.mem_flatMap.mpr ⟨a, hw a List.mem_cons_self, List.mem_map_of_mem hq⟩
        have htail : Word.spell w ∈ M.language q :=
          ⟨w, fun b hb => hw b (List.mem_cons_of_mem a hb), rfl, hrest⟩
        exact Or.inr ⟨_, hout, _, htail, (Word.spell_cons a w).symm⟩
  · rintro (⟨rfl, hfinal⟩ | ⟨e, hout, v, hv, rfl⟩)
    · exact ⟨[], by simp, rfl, acceptsFrom_nil.mpr hfinal⟩
    · rcases List.mem_flatMap.mp hout with ⟨a, ha, hmap⟩
      rcases List.mem_map.mp hmap with ⟨q, hq, rfl⟩
      rcases mem_language.mp hv with ⟨w, hw, rfl, haccepts⟩
      exact ⟨a :: w, List.forall_mem_cons.mpr ⟨ha, hw⟩, Word.spell_cons a w,
        acceptsFrom_cons.mpr ⟨q, hq, haccepts⟩⟩

/-- The equations of the states: each state, whether it is final, and its ways out. -/
def equations (M : Recognizer σ) : List (σ × Bool × List (List Char × σ)) :=
  M.states.map fun p => (p, M.final p, M.outgoing p)

/-- The language of a state is the sum over its ways out, and has the empty text as well when
the state is final. -/
theorem language_eq (M : Recognizer σ) (p : σ) :
    M.language p =
      (if M.final p then 1 else 0) +
        ((M.outgoing p).map fun e => ({e.1} : Language Char) * M.language e.2).sum := by
  ext s
  rw [mem_language_iff, Language.mem_add, mem_language_sum]
  simp only [List.mem_map, exists_exists_and_eq_and, mem_singleton_mul_language]
  refine or_congr ?_ Iff.rfl
  cases M.final p with
  | true => simp
  | false => simp

/-- The languages of the states solve the equations. -/
theorem language_solves (M : Recognizer σ) :
    ∀ e ∈ M.equations, M.language e.1 =
      (if e.2.1 then 1 else 0) +
        (e.2.2.map fun way => ({way.1} : Language Char) * M.language way.2).sum := by
  intro e he
  rcases List.mem_map.mp he with ⟨p, -, rfl⟩
  exact M.language_eq p

/-! ## Recognized texts -/

variable [Ord σ] [Std.TransOrd σ] [Std.LawfulEqOrd σ]

/-- A text over single letters is recognized exactly when it is read from the start after all
blanks in it have been left out. -/
theorem recognizesText_iff_mem_language (hletters : SingleLetters M.alphabet) :
    M.recognizesText t = true ↔ Text.withoutBlanks t ∈ M.language M.start := by
  rw [recognizesText_iff, mem_language]
  simp only [isSplitOver_iff_spell hletters, and_assoc]

end Recognizer
end FormalLang
