import FormalLang.Grammar.Check
import FormalLang.Grammar.Membership
import FormalLang.Proofs.Grammar.Productions
import FormalLang.Proofs.Recognizer.Language

/-!
# The recognizer of a grammar

A state of the recognizer is a non-terminal in which a derivation goes on, or
the end of a derivation.  Its moves and final states are the rules of single
non-terminals, and the answers of a regular grammar are those of its recognizer.

Main results:

- Theorem `Grammar.acceptsFrom_none_iff`: a derivation that has ended accepts
  the empty word only.
- Theorem `Grammar.acceptsFrom_of_hasRule`: a rule of a non-terminal accepts the
  word that it begins with, and whatever is accepted after it.
- Theorem `Grammar.contains_of_regular`: a regular grammar contains what its
  recognizer recognizes.
-/

namespace FormalLang

namespace RegularSide

/-- The word that a right-linear side begins with. -/
def word : RegularSide → Word
  | erasing => []
  | ending a => [a]
  | continuing a _ => [a]

/-- The state in which a derivation is after a right-linear side. -/
def state : RegularSide → Option Symbol
  | erasing => none
  | ending _ => none
  | continuing _ A => some A

end RegularSide

namespace Grammar

variable {g : Grammar}

/-! ## Moves and final states -/

@[simp]
theorem recognizer_next (state : Option Symbol) (a : Symbol) :
    g.recognizer.next state a = g.derivationSteps state a :=
  rfl

@[simp]
theorem recognizer_start : g.recognizer.start = some g.start :=
  rfl

@[simp]
theorem recognizer_final_some (A : Symbol) :
    g.recognizer.final (some A) = g.hasErasingRule A :=
  rfl

theorem hasErasingRule_iff {A : Symbol} :
    g.hasErasingRule A = true ↔ g.productions.HasRule [.nonTerminal A] [] := by
  rw [hasErasingRule, List.any_eq_true, ← mem_alternatives]
  constructor
  · intro h
    rcases h with ⟨rhs, hrhs, hempty⟩
    rw [List.isEmpty_iff] at hempty
    exact hempty ▸ hrhs
  · intro h
    exact ⟨[], h, rfl⟩

/-- The moves from a non-terminal are the rules that begin with the symbol. -/
theorem mem_derivationSteps_iff {A a : Symbol} {next : Option Symbol} :
    next ∈ g.derivationSteps (some A) a ↔
      ∃ side : RegularSide, g.productions.HasRule [.nonTerminal A] side.toForm ∧
        side.word = [a] ∧ side.state = next := by
  rw [mem_derivationSteps]
  simp only [mem_alternatives]
  constructor
  · intro h
    rcases h with ⟨rfl, hrule⟩ | ⟨B, rfl, hrule⟩
    · exact ⟨.ending a, hrule, rfl, rfl⟩
    · exact ⟨.continuing a B, hrule, rfl, rfl⟩
  · intro h
    rcases h with ⟨side, hrule, hword, rfl⟩
    cases side with
    | erasing => cases hword
    | ending b =>
        cases hword
        exact Or.inl ⟨rfl, hrule⟩
    | continuing b B =>
        cases hword
        exact Or.inr ⟨B, rfl, hrule⟩

theorem mem_recognizer_states_some {A : Symbol} :
    some A ∈ g.recognizer.states ↔ A ∈ g.nonTerminals := by
  simp [recognizer]

/-! ## Accepted words -/

/-- A derivation that has ended accepts the empty word only. -/
theorem acceptsFrom_none_iff {w : Word} : g.recognizer.AcceptsFrom none w ↔ w = [] := by
  cases w with
  | nil => exact iff_of_true (Recognizer.acceptsFrom_nil.mpr rfl) rfl
  | cons a w => simp [Recognizer.acceptsFrom_cons, derivationSteps]

/-- A rule accepts the word that it begins with, and whatever is accepted after
it. -/
theorem acceptsFrom_of_hasRule {A : Symbol} {side : RegularSide} {w : Word}
    (hrule : g.productions.HasRule [.nonTerminal A] side.toForm)
    (haccepts : g.recognizer.AcceptsFrom side.state w) :
    g.recognizer.AcceptsFrom (some A) (side.word ++ w) := by
  cases side with
  | erasing =>
      have hw : w = [] := acceptsFrom_none_iff.mp haccepts
      rw [hw]
      exact Recognizer.acceptsFrom_nil.mpr (hasErasingRule_iff.mpr hrule)
  | ending a =>
      refine Recognizer.acceptsFrom_cons.mpr ⟨none, ?_, haccepts⟩
      exact mem_derivationSteps_iff.mpr ⟨.ending a, hrule, rfl, rfl⟩
  | continuing a B =>
      refine Recognizer.acceptsFrom_cons.mpr ⟨some B, ?_, haccepts⟩
      exact mem_derivationSteps_iff.mpr ⟨.continuing a B, hrule, rfl, rfl⟩

/-! ## Answers -/

/-- A regular grammar contains what its recognizer recognizes. -/
theorem contains_of_regular (h : g.grammarClass = .regular) (w : Word) :
    g.contains w = .ok (g.recognizer.recognizes w) :=
  ifRegular_of_regular h _

/-! ## A regular grammar -/

/-- The only terminal of `evenWords`. -/
def evenLetter : Symbol :=
  ⟨"a", by decide⟩

/-- The rules `S → aF | ε` and `F → aS | a`, with `F` declared first. -/
def evenPresentation : Presentation :=
  let S : Symbol := ⟨"S", by simp⟩
  let F : Symbol := ⟨"F", by simp⟩
  { nonTerminals := .ofList [F, S]
    terminals := .ofList [evenLetter]
    productions := .ofLines
      [([.nonTerminal S], [[.terminal evenLetter, .nonTerminal F], []]),
        ([.nonTerminal F], [[.terminal evenLetter, .nonTerminal S], [.terminal evenLetter]])]
    start := S }

/-- A regular grammar of the words with an even number of letters.  Its start
symbol can be erased and comes back on right-hand sides. -/
def evenWords : Grammar :=
  { evenPresentation with wellFormed := Presentation.fault?_eq_none_iff.mp (by decide) }

/-- The non-terminal `F` of `evenWords`, which is declared first. -/
def evenPartner : Symbol :=
  evenWords.nonTerminals.toList.head (by decide)

end Grammar
end FormalLang
