import FormalLang.Proofs.Recognizer.Texts
import FormalLang.Proofs.Split.Spacing

/-!
# Texts with more blanks

Automata and grammars answer for a text as their recognizers do, which look for a split that
is accepted.  So where no symbol has a blank in it, blanks that are inserted into a text do
not make it accepted, and at the ends of the text and next to other blanks they change no
answer at all.

Main results:

- Theorem `Recognizer.recognizesText_of_insertsBlanks` and Theorem
  `Recognizer.recognizesText_eq_of_insertsBlanks`: the answers of a recognizer.
- Theorem `inserted_blanks_restrict`: blanks restrict the splits of a text, and whatever is
  answered by looking at them.
-/

namespace FormalLang

open Text FormalLang.Splits

namespace Recognizer

variable {σ : Type} [Ord σ] [Std.TransOrd σ] [Std.LawfulEqOrd σ] {M : Recognizer σ}
  {t t' : List Char}

/-- Blanks do not make a text recognized. -/
theorem recognizesText_of_insertsBlanks (hins : InsertsBlanks Anywhere t t')
    (hfree : BlankFree M.alphabet) (h : M.recognizesText t' = true) :
    M.recognizesText t = true := by
  rw [recognizesText_iff] at h ⊢
  rcases h with ⟨w, hsplit, haccepts⟩
  exact ⟨w, isSplitOver_of_insertsBlanks hins hfree hsplit, haccepts⟩

/-- At ends and next to blanks they do not matter. -/
theorem recognizesText_eq_of_insertsBlanks (hins : InsertsBlanks AtBlanks t t')
    (hfree : BlankFree M.alphabet) : M.recognizesText t' = M.recognizesText t := by
  rw [Bool.eq_iff_iff, recognizesText_iff, recognizesText_iff]
  simp only [isSplitOver_iff_of_insertsBlanks hins hfree]

end Recognizer

/-- Where no symbol has a blank in it, a text with more blanks has only splits that it had
before.  So the number of its splits is told to be none if it was none, and one or none if it
was one, and it is not accepted or recognized if it was not before.  Blanks at its ends and
next to other blanks change nothing. -/
theorem inserted_blanks_restrict {text text' : String} :
    (InsertsBlanks Anywhere text.toList text'.toList →
      (∀ symbols, BlankFree symbols →
        splitIndices symbols text'.toList ⊆ splitIndices symbols text.toList ∧
        (ofText symbols text = .none → ofText symbols text' = .none) ∧
        ∀ w, ofText symbols text = .one w →
          ofText symbols text' = .one w ∨ ofText symbols text' = .none) ∧
      (∀ A : Automaton, BlankFree A.alphabet.toList →
        A.acceptsText text' = true → A.acceptsText text = true) ∧
      ∀ g : Grammar, BlankFree g.terminals.toList → g.grammarClass = .regular →
        g.containsText text' = .ok true → g.containsText text = .ok true) ∧
    (InsertsBlanks AtBlanks text.toList text'.toList →
      (∀ symbols, BlankFree symbols →
        splitIndices symbols text'.toList = splitIndices symbols text.toList ∧
        ofText symbols text' = ofText symbols text) ∧
      (∀ A : Automaton, BlankFree A.alphabet.toList →
        A.acceptsText text' = A.acceptsText text) ∧
      ∀ g : Grammar, BlankFree g.terminals.toList → g.grammarClass = .regular →
        g.containsText text' = g.containsText text) := by
  refine ⟨fun hins => ⟨?_, ?_, ?_⟩, fun hins => ⟨?_, ?_, ?_⟩⟩
  · intro symbols hfree
    have hsubset := splitIndices_subset hins hfree
    exact ⟨hsubset, ofText_of_subset hsubset⟩
  · intro A hfree
    exact Recognizer.recognizesText_of_insertsBlanks (M := A.recognizer) hins hfree
  · intro g hfree hregular
    rw [Grammar.containsText_of_regular hregular, Grammar.containsText_of_regular hregular,
      Except.ok.injEq, Except.ok.injEq]
    exact Recognizer.recognizesText_of_insertsBlanks (M := g.recognizer) hins hfree
  · intro symbols hfree
    have heq := splitIndices_eq hins hfree
    exact ⟨heq, ofText_congr heq⟩
  · intro A hfree
    exact Recognizer.recognizesText_eq_of_insertsBlanks (M := A.recognizer) hins hfree
  · intro g hfree hregular
    rw [Grammar.containsText_of_regular hregular, Grammar.containsText_of_regular hregular,
      Except.ok.injEq]
    exact Recognizer.recognizesText_eq_of_insertsBlanks (M := g.recognizer) hins hfree

/-- A blank parts the only split of `xyz` or leaves it, and a blank next to another one
changes no answer about even words. -/
theorem blanks_in_overlapping_and_even :
    (BlankFree overlapping ∧ InsertsBlanks Anywhere "xyz".toList "xy z".toList ∧
      ∃ w, ofText overlapping "xyz" = .one w ∧
        (ofText overlapping "xy z" = .one w ∨ ofText overlapping "xy z" = .none)) ∧
    BlankFree Grammar.evenWords.terminals.toList ∧ Grammar.evenWords.grammarClass = .regular ∧
      InsertsBlanks Anywhere "aa".toList "a a".toList ∧
      InsertsBlanks AtBlanks "a a".toList "a \na".toList ∧
      Grammar.evenWords.containsText "a \na" = .ok true ∧
      Grammar.evenWords.containsText "aa" = .ok true := by
  have hoverlapping : BlankFree overlapping := by decide
  have hpart : InsertsBlanks Anywhere "xyz".toList "xy z".toList :=
    .single (u := ['x', 'y']) (v := ['z']) (c := ' ') (by decide) (by decide) rfl trivial
  have hfree : BlankFree Grammar.evenWords.terminals.toList := by decide
  have hregular : Grammar.evenWords.grammarClass = .regular := by decide
  have hspace : InsertsBlanks Anywhere "aa".toList "a a".toList :=
    .single (u := ['a']) (v := ['a']) (c := ' ') (by decide) (by decide) rfl trivial
  have hbreak : InsertsBlanks AtBlanks "a a".toList "a \na".toList :=
    .single (u := ['a', ' ']) (v := ['a']) (c := '\n') (by decide) (by decide) rfl
      (Or.inr (Or.inr (Or.inl ⟨' ', rfl, rfl⟩)))
  have hwide : Grammar.evenWords.containsText "a \na" = .ok true := by
    rw [Grammar.containsText_of_regular hregular, Except.ok.injEq]
    decide
  have hnarrow : Grammar.evenWords.containsText "a a" = .ok true := by
    rw [← (inserted_blanks_restrict.2 hbreak).2.2 _ hfree hregular]
    exact hwide
  refine ⟨⟨hoverlapping, hpart, overlapping.take 1 ++ overlapping.drop 2, by decide, ?_⟩, hfree,
    hregular, hspace, hbreak, hwide, ?_⟩
  · exact ((inserted_blanks_restrict.1 hpart).1 overlapping hoverlapping).2.2 _ (by decide)
  · exact (inserted_blanks_restrict.1 hspace).2.2 _ hfree hregular hnarrow

end FormalLang
