import FormalLang.Proofs.Correspondence.GrammarOfAutomaton
import FormalLang.Proofs.Grammar.Reading
import Mathlib.Data.Set.Function

/-!
# Rebuilding grammars from their parts

A grammar is put together from its parts, read from rule lines, or made from an
automaton.  The first two operations end with the check of the parts, the last one
does without it.  The parts of each of these grammars pass the check, and it gives
the same grammar again.

Main results:

- Theorem `Automaton.bijOn_symbolOf`: the grammar of an automaton has one
  non-terminal for each state.
- Theorem `Presentation.Obtainable.wellFormed`: the presentations of all grammars
  that the operations make are well formed.
- Theorem `Presentation.ofParts_of_obtainable`: these grammars are put together again
  from their own parts.
-/

namespace FormalLang

/-! ## The grammar of an automaton -/

/-- The grammar of an automaton has one non-terminal for each state, whatever the
names of the states are. -/
theorem Automaton.bijOn_symbolOf (A : Automaton) :
    Set.BijOn A.symbolOf {p | p < A.states.length} {X | X ∈ A.toGrammar.nonTerminals} := by
  refine ⟨?_, ?_, ?_⟩
  · intro p hp
    exact symbolOf_mem hp
  · intro p hp q hq hpq
    exact symbolOf_injective hp hq hpq
  · intro X hX
    rcases List.getElem?_of_mem hX with ⟨p, hp⟩
    have hlt : p < A.states.length := by
      rw [← length_stateSymbols]
      exact (List.getElem?_eq_some_iff.mp hp).1
    have hname := getElem?_stateSymbols hlt
    exact ⟨p, hlt, Option.some.inj (hname.symm.trans hp)⟩

/-! ## Grammars that the operations make -/

namespace Presentation

variable {G : Presentation}

/-- The presentations of the grammars that the operations make: a grammar is put
together from its parts, read from rule lines, or made from an automaton. -/
inductive Obtainable : Presentation → Prop
  | ofParts {nonTerminals terminals : List Symbol} {P : Productions} {start : Symbol}
      {g : Grammar} (made : Grammar.ofParts nonTerminals terminals P start = .ok g) :
      Obtainable g.toPresentation
  | read {nonTerminals terminals : List String} {start : String} {lines : List String}
      {g : Grammar} (made : Grammar.read nonTerminals terminals start lines = .ok g) :
      Obtainable g.toPresentation
  | ofAutomaton (A : Automaton) : Obtainable A.presentation

theorem wellFormed_of_ofParts {ns ts : List Symbol} {P : Productions} {s : Symbol} {g : Grammar}
    (h : Grammar.ofParts ns ts P s = .ok g) : g.toPresentation.WellFormed := by
  have hchecked := check_eq_ok_iff.mp h
  rw [hchecked.2]
  exact hchecked.1

/-- The presentations of all grammars that the operations make are well formed. -/
theorem Obtainable.wellFormed (h : G.Obtainable) : G.WellFormed := by
  cases h with
  | ofParts made => exact wellFormed_of_ofParts made
  | read made =>
      rcases Grammar.read_eq_ok_iff.mp made with ⟨ns, ts, s, forms, -, -, -, -, hparts⟩
      exact wellFormed_of_ofParts hparts
  | ofAutomaton A => exact A.presentation_wellFormed

/-- A well-formed presentation is put together again from its own parts. -/
theorem WellFormed.exists_ofParts (h : G.WellFormed) :
    ∃ g, Grammar.ofParts G.nonTerminals.toList G.terminals.toList G.productions G.start = .ok g ∧
      g.toPresentation = G := by
  rw [Grammar.ofParts, OrderedSet.ofList_toList, OrderedSet.ofList_toList]
  exact ⟨⟨G, h⟩, check_eq_ok_iff.mpr ⟨h, rfl⟩, rfl⟩

/-- Every grammar that the operations make is well formed and is put together again
from its own parts.  The grammar of an automaton, for which nothing is checked, has
one non-terminal for each state and is of the regular class. -/
theorem ofParts_of_obtainable :
    (∀ G : Presentation, G.Obtainable → G.WellFormed ∧
      ∃ g, Grammar.ofParts G.nonTerminals.toList G.terminals.toList G.productions G.start = .ok g ∧
        g.toPresentation = G) ∧
      ∀ A : Automaton, A.toGrammar.toPresentation.Obtainable ∧
        Set.BijOn A.symbolOf {p | p < A.states.length} {X | X ∈ A.toGrammar.nonTerminals} ∧
          A.toGrammar.grammarClass = .regular := by
  refine ⟨fun G hG => ⟨hG.wellFormed, hG.wellFormed.exists_ofParts⟩, fun A => ?_⟩
  exact ⟨.ofAutomaton A, A.bijOn_symbolOf, A.toGrammar_regular⟩

/-- The only symbol of `clashing`. -/
def clashLetter : Symbol :=
  ⟨"c", by decide⟩

/-- An automaton whose first state is called as its symbol and whose second state
already bears the prime that the first one needs; both accept. -/
def clashing : Automaton :=
  Automaton.ofArrows
    { states := [clashLetter, clashLetter.primed]
      alphabet := .ofList [clashLetter]
      start := 0
      accepting := .ofList [0, 1]
      transitions := .empty }
    (by decide) (by decide) [⟨0, clashLetter, 1⟩]
    (by
      intro e he
      rw [List.mem_singleton] at he
      subst he
      exact ⟨by decide, by decide, by decide⟩)

/-- The grammar of `clashing` passes the check, which was not made for it. -/
theorem clashing_checked :
    clashing.toGrammar.toPresentation.Obtainable ∧
      ∃ g, Grammar.ofParts clashing.toGrammar.nonTerminals.toList
          clashing.toGrammar.terminals.toList clashing.toGrammar.productions
            clashing.toGrammar.start = .ok g ∧
        g.toPresentation = clashing.toGrammar.toPresentation := by
  have hobtainable := (ofParts_of_obtainable.2 clashing).1
  exact ⟨hobtainable, (ofParts_of_obtainable.1 _ hobtainable).2⟩

end Presentation
end FormalLang
