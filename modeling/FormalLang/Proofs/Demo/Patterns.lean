import FormalLang.Demo.Report
import FormalLang.Proofs.Correspondence.Chains
import FormalLang.Proofs.Recognizer.StateLanguages
import Mathlib.Computability.RegularExpressions
import Mathlib.Tactic.Abel

/-!
# Patterns of the tour

The tour tests words with two automata, one made from a grammar and one that is determinized
first.  Both have single letters as symbols, so their answers are told by the languages of
their states.  The equations of these are solved by eliminating one state after the other; a
state that leads back to itself is eliminated with Arden's lemma.  What remains for the two
starts are regular expressions.

Main results:

- Theorem `Tour.grammar_acceptsText_iff`: the words that belong to the language of the grammar.
- Theorem `Tour.determinize_acceptsText_iff`: the words that the deterministic form of the other
  automaton accepts.
-/

namespace FormalLang.Demo

open RegularExpression

/-! ## Patterns -/

/-- The pattern of a single text. -/
def literal (s : String) : RegularExpression Char :=
  (s.toList.map char).prod

/-- A pattern once or several times. -/
def atLeastOnce (P : RegularExpression Char) : RegularExpression Char :=
  P * P.star

/-- The pattern `a((ba)*a+ba)*(ba)*a+bb`. -/
def grammarPattern : RegularExpression Char :=
  literal "a" * ((literal "ba").star * atLeastOnce (literal "a") * literal "ba").star *
    (literal "ba").star * atLeastOnce (literal "a") * literal "bb"

/-- The pattern `(abc|bc)*(aa|abc|bc)`. -/
def automatonPattern : RegularExpression Char :=
  (literal "abc" + literal "bc").star * (literal "aa" + literal "abc" + literal "bc")

@[simp]
theorem matches'_literal (s : String) :
    (literal s).matches' = (s.toList.map fun c => ({[c]} : Language Char)).prod := by
  rw [literal]
  induction s.toList with
  | nil => rfl
  | cons c t ih => rw [List.map_cons, List.prod_cons, matches'_mul, ih, List.map_cons,
      List.prod_cons, matches'_char]

/-- Arden's lemma for a pattern: a language that is the pattern followed by the language
itself, or else something else, begins with the pattern any number of times. -/
theorem eq_star_mul_of_loop {P : RegularExpression Char} {L N : Language Char}
    (hP : [] ∉ P.matches') (h : L = P.matches' * L + N) : L = P.star.matches' * N :=
  (Language.self_eq_mul_add_iff hP).mp h

/-! ## What is toured -/

/-- What is got from a result is the result. -/
theorem eq_ok_get {ε α : Type} {x : Except ε α} (h : x.toOption.isSome = true) :
    x = .ok (x.toOption.get h) := by
  cases x with
  | error e => contradiction
  | ok a => rfl

namespace Tour

/-- The grammar of the tour, as it is read. -/
def grammar : Grammar :=
  tourGrammar.toOption.get (by decide)

/-- The automaton of the tour, as it is built. -/
def automaton : Automaton :=
  tourAutomaton.toOption.get (by decide)

/-- The automaton of the comparison, as it is built. -/
def compared : Automaton :=
  comparedAutomaton.toOption.get (by decide)

theorem tourGrammar_eq : tourGrammar = .ok grammar :=
  eq_ok_get _

theorem tourAutomaton_eq : tourAutomaton = .ok automaton :=
  eq_ok_get _

theorem comparedAutomaton_eq : comparedAutomaton = .ok compared :=
  eq_ok_get _

theorem toAutomaton_grammar : grammar.toAutomaton = .ok grammar.automaton :=
  Grammar.ifRegular_of_regular (by decide) _

/-! ## Grammar -/

/-- The languages of the states of the grammar's automaton, which stand for `S`, `A`, `B` and
`C` and for the end of a derivation. -/
def grammarLanguage : Nat → Language Char :=
  grammar.automaton.recognizer.language

theorem grammarLanguage_solves :
    grammarLanguage 0 = {['a']} * grammarLanguage 1 ∧
      grammarLanguage 1 = {['a']} * grammarLanguage 2 + {['b']} * grammarLanguage 0 ∧
      grammarLanguage 2 = {['a']} * grammarLanguage 2 + {['b']} * grammarLanguage 3 ∧
      grammarLanguage 3 = {['a']} * grammarLanguage 1 + {['b']} * grammarLanguage 4 ∧
      grammarLanguage 4 = 1 := by
  have hequations : grammar.automaton.recognizer.equations =
      [(0, false, [(['a'], 1)]), (1, false, [(['a'], 2), (['b'], 0)]),
        (2, false, [(['a'], 2), (['b'], 3)]), (3, false, [(['a'], 1), (['b'], 4)]),
        (4, true, [])] := by decide
  have hsolves := grammar.automaton.recognizer.language_solves
  rw [hequations] at hsolves
  simpa [grammarLanguage] using hsolves

/-- The state for `B` is eliminated, then those for `C` and `S`, and last the one for `A`. -/
theorem grammarLanguage_zero : grammarLanguage 0 = grammarPattern.matches' := by
  rcases grammarLanguage_solves with ⟨hS, hA, hB, hC, hend⟩
  have hloopB : grammarLanguage 2 =
      (literal "a").star.matches' * ({['b']} * grammarLanguage 3) := by
    refine eq_star_mul_of_loop (by decide) ?_
    simpa using hB
  have hloopS : grammarLanguage 1 =
      (literal "ba").star.matches' * ({['a']} * grammarLanguage 2) := by
    refine eq_star_mul_of_loop (by decide) ?_
    calc grammarLanguage 1
        = {['a']} * grammarLanguage 2 + {['b']} * ({['a']} * grammarLanguage 1) := by
          rw [← hS]
          exact hA
      _ = (literal "ba").matches' * grammarLanguage 1 + {['a']} * grammarLanguage 2 := by
          simp [mul_assoc, add_comm]
  have hloopA : grammarLanguage 1 =
      ((literal "ba").star * atLeastOnce (literal "a") * literal "ba").star.matches' *
        ((literal "ba").star * atLeastOnce (literal "a") * literal "bb").matches' := by
    refine eq_star_mul_of_loop (by decide) ?_
    calc grammarLanguage 1
        = (literal "ba").star.matches' * ({['a']} * ((literal "a").star.matches' *
            ({['b']} * ({['a']} * grammarLanguage 1 + {['b']} * 1)))) := by
          rw [← hend, ← hC, ← hloopB]
          exact hloopS
      _ = _ := by simp [atLeastOnce, mul_assoc, mul_add]
  calc grammarLanguage 0
      = {['a']} * grammarLanguage 1 := hS
    _ = grammarPattern.matches' := by
        rw [hloopA]
        simp [grammarPattern, atLeastOnce, mul_assoc]

/-! ## Automaton -/

/-- The languages of the states `q0`, `q1`, `q2` and `q3`. -/
def automatonLanguage : Nat → Language Char :=
  automaton.recognizer.language

theorem automatonLanguage_solves :
    automatonLanguage 0 = {['a']} * automatonLanguage 1 + {['b']} * automatonLanguage 2 ∧
      automatonLanguage 1 = {['a']} * automatonLanguage 3 + {['b']} * automatonLanguage 2 ∧
      automatonLanguage 2 = {['c']} * automatonLanguage 0 + {['c']} * automatonLanguage 3 ∧
      automatonLanguage 3 = 1 := by
  have hequations : automaton.recognizer.equations =
      [(0, false, [(['a'], 1), (['b'], 2)]), (1, false, [(['a'], 3), (['b'], 2)]),
        (2, false, [(['c'], 0), (['c'], 3)]), (3, true, [])] := by decide
  have hsolves := automaton.recognizer.language_solves
  rw [hequations] at hsolves
  simpa [automatonLanguage] using hsolves

/-- Only `q0` leads back to itself. -/
theorem automatonLanguage_zero : automatonLanguage 0 = automatonPattern.matches' := by
  rcases automatonLanguage_solves with ⟨h0, h1, h2, h3⟩
  refine eq_star_mul_of_loop (by decide) ?_
  calc automatonLanguage 0
      = {['a']} * ({['a']} * 1 + {['b']} * ({['c']} * automatonLanguage 0 + {['c']} * 1)) +
          {['b']} * ({['c']} * automatonLanguage 0 + {['c']} * 1) := by
        rw [← h3, ← h2, ← h1]
        exact h0
    _ = _ := by
        simp only [matches'_add, matches'_literal, String.reduceToList, List.map_cons,
          List.map_nil, List.prod_cons, List.prod_nil, mul_add, add_mul, mul_one, mul_assoc]
        abel

/-! ## Answers -/

/-- The automaton of the grammar accepts a word exactly when the word matches the pattern after
its white space has been left out. -/
theorem grammar_acceptsText_iff (word : String) :
    grammar.automaton.acceptsText word = true ↔
      Text.withoutBlanks word.toList ∈ grammarPattern.matches' := by
  have hletters : SingleLetters grammar.automaton.recognizer.alphabet := by decide
  rw [Automaton.acceptsText, Recognizer.recognizesText_iff_mem_language hletters,
    ← grammarLanguage_zero]
  exact Iff.rfl

/-- The deterministic form of the other automaton accepts a word exactly when the word matches
its pattern after its white space has been left out. -/
theorem determinize_acceptsText_iff (word : String) :
    automaton.determinize.acceptsText word = true ↔
      Text.withoutBlanks word.toList ∈ automatonPattern.matches' := by
  have hletters : SingleLetters automaton.recognizer.alphabet := by decide
  rw [Conversion.acceptsText_determinize, Automaton.acceptsText,
    Recognizer.recognizesText_iff_mem_language hletters, ← automatonLanguage_zero]
  exact Iff.rfl

end Tour
end FormalLang.Demo
