import FormalLang.Proofs.Automaton.Determinization
import FormalLang.Proofs.Correspondence.AutomatonOfGrammar
import FormalLang.Proofs.Correspondence.GrammarOfAutomaton
import FormalLang.Proofs.Recognizer.Texts

/-!
# Chains of conversions

A language is described by an automaton or by a regular grammar, and each
description can be converted into further ones.  A conversion keeps the words,
and it keeps the alphabet, which decides how a text splits.  So all descriptions
along a chain of conversions answer every text alike, although automata and
grammars look for its splits in different ways.

Main results:

- Theorem `Description.exists_answer`: a text is answered by the words that it
  splits into.
- Theorem `Conversion.apply_agrees`: a conversion succeeds and keeps alphabet and
  words.
- Theorem `Conversion.Chain.stages_agree`: so does every chain of conversions.
- Theorem `Conversion.Chain.stages_answer_alike`: all stages of a chain have one
  alphabet and give one answer for every text.
-/

namespace FormalLang

/-! ## Descriptions of languages -/

/-- The kinds of descriptions. -/
inductive DescriptionKind
  | automaton
  | grammar
deriving DecidableEq

/-- The descriptions of a kind. -/
abbrev Description : DescriptionKind → Type
  | .automaton => Automaton
  | .grammar => Grammar

variable {k l m : DescriptionKind}

namespace Description

/-- The symbols into which texts are split, in order. -/
def alphabet : {k : DescriptionKind} → Description k → OrderedSet Symbol
  | .automaton, (A : Automaton) => A.alphabet
  | .grammar, (g : Grammar) => g.terminals

/-- The answer for a text. -/
def answer : {k : DescriptionKind} → Description k → String → Except NotRegular Bool
  | .automaton, (A : Automaton), text => .ok (A.acceptsText text)
  | .grammar, (g : Grammar), text => g.containsText text

/-- Every automaton describes a regular language, a grammar does if it is of the
regular class. -/
def IsRegular : {k : DescriptionKind} → Description k → Prop
  | .automaton, _ => True
  | .grammar, (g : Grammar) => g.grammarClass = .regular

/-- The words of the language. -/
def Accepts : {k : DescriptionKind} → Description k → Word → Prop
  | .automaton, (A : Automaton), w => A.recognizer.AcceptsFrom A.recognizer.start w
  | .grammar, (g : Grammar), w => g.recognizer.AcceptsFrom g.recognizer.start w

/-- A regular description answers every text: yes exactly if the text splits into
a word of the language. -/
theorem exists_answer {x : Description k} (h : x.IsRegular) (text : String) :
    ∃ b, x.answer text = .ok b ∧
      (b = true ↔ ∃ w, IsSplitOver x.alphabet.toList w text.toList ∧ x.Accepts w) := by
  cases k with
  | automaton => exact ⟨_, rfl, Recognizer.recognizesText_iff⟩
  | grammar => exact ⟨_, Grammar.containsText_of_regular h text, Recognizer.recognizesText_iff⟩

/-- Another description is regular as well and has the same alphabet, in the same
order, and the same words. -/
structure Agrees (x : Description k) (y : Description l) : Prop where
  isRegular : y.IsRegular
  alphabet_eq : y.alphabet = x.alphabet
  accepts_iff : ∀ w, y.Accepts w ↔ x.Accepts w

theorem Agrees.refl {x : Description k} (h : x.IsRegular) : x.Agrees x :=
  ⟨h, rfl, fun _ => Iff.rfl⟩

theorem Agrees.trans {x : Description k} {y : Description l} {z : Description m}
    (hxy : x.Agrees y) (hyz : y.Agrees z) : x.Agrees z :=
  ⟨hyz.isRegular, hyz.alphabet_eq.trans hxy.alphabet_eq,
    fun w => (hyz.accepts_iff w).trans (hxy.accepts_iff w)⟩

/-- Descriptions that agree give the same answers: the alphabet decides how a text
splits, and the words decide whether a split belongs to the language. -/
theorem Agrees.answer_eq {x : Description k} {y : Description l} (hx : x.IsRegular)
    (h : x.Agrees y) (text : String) : y.answer text = x.answer text := by
  rcases exists_answer hx text with ⟨b, hb, hsplit⟩
  rcases exists_answer h.isRegular text with ⟨b', hb', hsplit'⟩
  have hiff : b' = true ↔ b = true := by
    rw [hsplit, hsplit', h.alphabet_eq]
    simp only [h.accepts_iff]
  have hbb' : b' = b := Bool.eq_iff_iff.mpr hiff
  rw [hb, hb', hbb']

end Description

/-! ## Conversions -/

/-- The conversions between descriptions. -/
inductive Conversion : DescriptionKind → DescriptionKind → Type
  | determinize : Conversion .automaton .automaton
  | toGrammar : Conversion .automaton .grammar
  | toAutomaton : Conversion .grammar .automaton

namespace Conversion

/-- Convert a description. -/
def apply : {k l : DescriptionKind} → Conversion k l → Description k →
    Except NotRegular (Description l)
  | _, _, determinize, A => .ok (Automaton.determinize A)
  | _, _, toGrammar, A => .ok (Automaton.toGrammar A)
  | _, _, toAutomaton, g => Grammar.toAutomaton g

theorem agrees_determinize (A : Automaton) :
    Description.Agrees (k := .automaton) (l := .automaton) A A.determinize := by
  refine ⟨trivial, rfl, fun w => ?_⟩
  have hstart : A.subsets[A.determinize.start]? = some [A.start] := rfl
  have hsimulates := Automaton.determinize_acceptsFrom_iff (w := w) hstart
  simpa [Description.Accepts] using hsimulates

/-- A text is answered alike by an automaton and by its deterministic form. -/
theorem acceptsText_determinize (A : Automaton) (text : String) :
    A.determinize.acceptsText text = A.acceptsText text := by
  have hregular : Description.IsRegular (k := .automaton) A := trivial
  exact Except.ok.inj ((agrees_determinize A).answer_eq hregular text)

theorem agrees_toGrammar (A : Automaton) :
    Description.Agrees (k := .automaton) (l := .grammar) A A.toGrammar := by
  refine ⟨A.toGrammar_regular, rfl, fun w => ?_⟩
  have hwords := A.toGrammar_recognizes w
  rw [Bool.eq_iff_iff, Recognizer.recognizes_iff, Automaton.accepts_iff] at hwords
  exact hwords

theorem agrees_automaton {g : Grammar} :
    Description.Agrees (k := .grammar) (l := .automaton) g g.automaton := by
  refine ⟨trivial, rfl, fun w => ?_⟩
  have hwords := g.automaton_accepts w
  rw [Bool.eq_iff_iff, Recognizer.recognizes_iff, Automaton.accepts_iff] at hwords
  exact hwords

/-- A conversion of a regular description succeeds and keeps alphabet and words. -/
theorem apply_agrees (c : Conversion k l) {x : Description k} (h : x.IsRegular) :
    ∃ y, c.apply x = .ok y ∧ x.Agrees y := by
  cases c with
  | determinize => exact ⟨_, rfl, agrees_determinize x⟩
  | toGrammar => exact ⟨_, rfl, agrees_toGrammar x⟩
  | toAutomaton => exact ⟨_, Grammar.ifRegular_of_regular h _, agrees_automaton⟩

/-! ## Chains -/

/-- A sequence of conversions, each of which starts at the kind to which the one
before it leads. -/
inductive Chain : DescriptionKind → DescriptionKind → Type
  | nil (k : DescriptionKind) : Chain k k
  | cons {k l m : DescriptionKind} : Conversion k l → Chain l m → Chain k m

namespace Chain

/-- All descriptions along a chain, from the first to the last one. -/
def stages : {k l : DescriptionKind} → Chain k l → Description k →
    Except NotRegular (List (Σ k, Description k))
  | _, _, nil k, x => .ok [⟨k, x⟩]
  | k, _, cons c chain, x => do
      let y ← c.apply x
      let later ← chain.stages y
      return ⟨k, x⟩ :: later

/-- A chain of conversions goes through to its end, and what it leads to agrees
with the first description. -/
theorem stages_agree (chain : Chain k l) {x : Description k} (h : x.IsRegular) :
    ∃ all, chain.stages x = .ok all ∧ ∀ stage ∈ all, x.Agrees stage.2 := by
  induction chain with
  | nil k =>
      refine ⟨_, rfl, fun stage hstage => ?_⟩
      rw [List.mem_singleton] at hstage
      subst hstage
      exact .refl h
  | cons c chain ih =>
      rcases apply_agrees c h with ⟨y, hy, hxy⟩
      rcases ih hxy.isRegular with ⟨later, hlater, hagree⟩
      refine ⟨⟨_, x⟩ :: later, ?_, fun stage hstage => ?_⟩
      · rw [stages, hy]
        change (chain.stages y >>= fun later => _) = _
        rw [hlater]
        rfl
      · rcases List.mem_cons.mp hstage with rfl | hstage
        · exact .refl h
        · exact hxy.trans (hagree stage hstage)

/-- Whatever the conversions of a chain are, they succeed, and all descriptions
along the chain have one alphabet and give one answer for every text. -/
theorem stages_answer_alike (chain : Chain k l) (x : Description k) (h : x.IsRegular) :
    ∃ all, chain.stages x = .ok all ∧ (∀ stage ∈ all, stage.2.alphabet = x.alphabet) ∧
      ∀ text, ∃ b, ∀ stage ∈ all, stage.2.answer text = .ok b := by
  rcases chain.stages_agree h with ⟨all, hall, hagree⟩
  refine ⟨all, hall, fun stage hstage => (hagree stage hstage).alphabet_eq, fun text => ?_⟩
  rcases Description.exists_answer h text with ⟨b, hb, -⟩
  refine ⟨b, fun stage hstage => ?_⟩
  rw [(hagree stage hstage).answer_eq h, hb]

/-- From a grammar to an automaton, to a deterministic one, back to a grammar and
once more to an automaton. -/
def thereAndBack : Chain .grammar .automaton :=
  .cons toAutomaton <| .cons determinize <| .cons toGrammar <| .cons toAutomaton <| .nil _

/-- The words of even length, whose grammar erases its start symbol and has a
non-terminal with the name of the state for finished derivations. -/
theorem thereAndBack_answers_alike :
    Grammar.evenWords.grammarClass = .regular ∧
      ∃ all, thereAndBack.stages Grammar.evenWords = .ok all ∧
        (∀ stage ∈ all, stage.2.alphabet = Grammar.evenWords.terminals) ∧
          ∀ text, ∃ b, ∀ stage ∈ all, stage.2.answer text = .ok b := by
  have hregular : Grammar.evenWords.grammarClass = .regular := by decide
  exact ⟨hregular, stages_answer_alike thereAndBack Grammar.evenWords hregular⟩

end Chain
end Conversion
end FormalLang
