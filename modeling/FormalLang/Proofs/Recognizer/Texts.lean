import FormalLang.Correspondence.AutomatonOfGrammar
import FormalLang.Proofs.Automaton.Acceptance
import FormalLang.Proofs.Grammar.Recognition
import FormalLang.Proofs.Recognizer.Configurations
import FormalLang.Proofs.Split.Counting

/-!
# The texts of automata and grammars

An automaton and a regular grammar answer for a text as they answer for the
words that it splits into: yes exactly if they say so for some split over their
alphabet.  A text with one split is answered like the word of this split, a text
with none is refused.

Main results:

- Theorem `Automaton.acceptsText_iff_accepts_split`: the texts that an automaton
  accepts.
- Theorem `Grammar.containsText_iff_contains_split`: the texts that a regular
  grammar contains.
-/

namespace FormalLang

/-! ## Automata -/

namespace Automaton

variable {A : Automaton} {text : String}

theorem acceptsText_iff :
    A.acceptsText text = true ↔
      ∃ w, IsSplitOver A.alphabet.toList w text.toList ∧ A.accepts w = true := by
  simp only [accepts_iff]
  exact Recognizer.recognizesText_iff

/-- The only split of a text decides whether it is accepted. -/
theorem acceptsText_of_one_split {w : Word}
    (h : Splits.ofText A.alphabet.toList text = .one w) : A.acceptsText text = A.accepts w := by
  rw [Bool.eq_iff_iff, acceptsText_iff]
  simp only [Splits.isSplitOver_iff_of_one h]
  exact exists_eq_left

/-- A text without split is not accepted. -/
theorem acceptsText_of_no_split (h : Splits.ofText A.alphabet.toList text = .none) :
    A.acceptsText text = false := by
  rw [← Bool.not_eq_true, acceptsText_iff]
  intro haccepts
  rcases haccepts with ⟨w, hsplit, -⟩
  exact Splits.not_isSplitOver_of_none h w hsplit

/-- An automaton accepts a text exactly when it accepts the word of some split
over its alphabet; a single split therefore decides, and without split the text
is refused. -/
theorem acceptsText_iff_accepts_split (A : Automaton) (text : String) :
    (A.acceptsText text = true ↔
        ∃ w, IsSplitOver A.alphabet.toList w text.toList ∧ A.accepts w = true) ∧
      (∀ w, Splits.ofText A.alphabet.toList text = .one w → A.acceptsText text = A.accepts w) ∧
      (Splits.ofText A.alphabet.toList text = .none → A.acceptsText text = false) :=
  ⟨acceptsText_iff, fun _ => acceptsText_of_one_split, acceptsText_of_no_split⟩

/-- Two letters with blanks around them are accepted like the word that they
split into. -/
theorem evenAutomaton_accepts_spaced_text :
    Splits.ofText Grammar.evenWords.automaton.alphabet.toList " a a\n" =
        .one [Grammar.evenLetter, Grammar.evenLetter] ∧
      Grammar.evenWords.automaton.acceptsText " a a\n" = true := by
  have hsplit : Splits.ofText Grammar.evenWords.automaton.alphabet.toList " a a\n" =
      .one [Grammar.evenLetter, Grammar.evenLetter] := by decide
  have haccepts : Grammar.evenWords.automaton.accepts
      [Grammar.evenLetter, Grammar.evenLetter] = true := by decide
  have htext := (acceptsText_iff_accepts_split Grammar.evenWords.automaton " a a\n").2.1 _ hsplit
  exact ⟨hsplit, htext.trans haccepts⟩

end Automaton

/-! ## Grammars -/

namespace Grammar

variable {g : Grammar} {text : String}

/-- A regular grammar answers a text as its recognizer does. -/
theorem containsText_of_regular (h : g.grammarClass = .regular) (text : String) :
    g.containsText text = .ok (g.recognizer.recognizesText text.toList) :=
  ifRegular_of_regular h _

theorem containsText_iff (h : g.grammarClass = .regular) :
    g.containsText text = .ok true ↔
      ∃ w, IsSplitOver g.terminals.toList w text.toList ∧ g.contains w = .ok true := by
  simp only [containsText_of_regular h, contains_of_regular h, Except.ok.injEq,
    Recognizer.recognizes_iff]
  exact Recognizer.recognizesText_iff

/-- A regular grammar answers every text: yes if it contains the word of some
split over its terminals, and no if not. -/
theorem containsText_iff_contains_split (h : g.grammarClass = .regular) (text : String) :
    (g.containsText text = .ok true ↔
        ∃ w, IsSplitOver g.terminals.toList w text.toList ∧ g.contains w = .ok true) ∧
      ((¬∃ w, IsSplitOver g.terminals.toList w text.toList ∧ g.contains w = .ok true) →
        g.containsText text = .ok false) := by
  refine ⟨containsText_iff h, fun hnot => ?_⟩
  rw [← containsText_iff h, containsText_of_regular h, Except.ok.injEq, Bool.not_eq_true] at hnot
  rw [containsText_of_regular h, hnot]

/-- Two letters with blanks around them split into a word of even length. -/
theorem evenWords_contains_spaced_text :
    evenWords.grammarClass = .regular ∧ evenWords.containsText " a a\n" = .ok true ∧
      ∃ w, IsSplitOver evenWords.terminals.toList w " a a\n".toList ∧
        evenWords.contains w = .ok true := by
  have hregular : evenWords.grammarClass = .regular := by decide
  have htext : evenWords.containsText " a a\n" = .ok true := by
    rw [containsText_of_regular hregular, Except.ok.injEq]
    decide
  exact ⟨hregular, htext, (containsText_iff_contains_split hregular _).1.mp htext⟩

end Grammar
end FormalLang
