import FormalLang.Automaton.Acceptance
import FormalLang.Grammar.Hierarchy

/-!
# From automata to grammars

Every state of an automaton becomes a non-terminal: an arrow from `p` to `q` by
`a` is the rule `p → aq`, and also the rule `p → a` if `q` accepts.  The start
symbol has a rule for the empty word if the start state accepts.  A name that
is a symbol of the alphabet or the name of an earlier state gets primes.
-/

namespace FormalLang.Automaton

/-- The non-terminals of the states. -/
def stateSymbols (A : Automaton) : List Symbol :=
  Symbol.freshNames A.alphabet.toList A.states

/-- The non-terminal of a state. -/
def symbolOf (A : Automaton) (p : Nat) : Symbol :=
  A.stateSymbols.getD p Symbol.unknown

/-- A rule with a non-terminal on its left. -/
abbrev StateRule := Symbol × SententialForm

/-- The rules of an arrow. -/
def arrowRules (A : Automaton) (e : Arrow) : List StateRule :=
  (A.symbolOf e.source, [.terminal e.symbol, .nonTerminal (A.symbolOf e.target)]) ::
    if A.isAccepting e.target then [(A.symbolOf e.source, [.terminal e.symbol])] else []

/-- The rules of all arrows, in order. -/
def moveRules (A : Automaton) : List StateRule :=
  A.transitions.arrows.flatMap A.arrowRules

/-- All rules; the one for the empty word comes last. -/
def rules (A : Automaton) : List StateRule :=
  A.moveRules ++ if A.isAccepting A.start then [(A.symbolOf A.start, [])] else []

/-- The parts of the grammar. -/
def presentation (A : Automaton) : Presentation where
  nonTerminals := ⟨A.stateSymbols, Symbol.nodup_freshNames _ _⟩
  terminals := A.alphabet
  productions :=
    Productions.ofLines (A.rules.map fun rule => ([.nonTerminal rule.1], [rule.2]))
  start := A.symbolOf A.start

theorem length_stateSymbols (A : Automaton) : A.stateSymbols.length = A.states.length :=
  Symbol.length_freshNames _ _

theorem symbolOf_mem {A : Automaton} {p : Nat} (h : p < A.states.length) :
    A.symbolOf p ∈ A.presentation.nonTerminals := by
  have hlt : p < A.stateSymbols.length := by rwa [length_stateSymbols]
  show A.stateSymbols.getD p _ ∈ A.stateSymbols
  rw [List.getD_eq_getElem?_getD, List.getElem?_eq_getElem hlt]
  exact List.getElem_mem hlt

/-- The arrows of an automaton are between its states. -/
theorem hasPlaceFor_of_mem_arrows {A : Automaton} {e : Arrow}
    (h : e ∈ A.transitions.arrows) : A.HasPlaceFor e := by
  obtain ⟨row, hrow, h⟩ := List.mem_flatMap.mp h
  obtain ⟨cell, hcell, h⟩ := List.mem_flatMap.mp h
  obtain ⟨q, hq, rfl⟩ := List.mem_map.mp h
  have hrow' := A.wellFormed.row_wellFormed row hrow
  have hcell' := hrow'.cell_wellFormed cell hcell
  exact ⟨hrow'.source_lt, hcell'.symbol_mem, hcell'.target_lt q hq⟩

/-- The rules of an automaton use its non-terminals and its alphabet. -/
theorem declares_of_mem_rules {A : Automaton} {rule : StateRule} (h : rule ∈ A.rules) :
    rule.1 ∈ A.presentation.nonTerminals ∧ ∀ x ∈ rule.2, A.presentation.Declares x := by
  rcases List.mem_append.mp h with h | h
  · obtain ⟨e, he, h⟩ := List.mem_flatMap.mp h
    have hplace := hasPlaceFor_of_mem_arrows he
    have hsource := symbolOf_mem hplace.source_lt
    rcases List.mem_cons.mp h with rfl | h
    · refine ⟨hsource, fun x hx => ?_⟩
      simp only [List.mem_cons, List.not_mem_nil, or_false] at hx
      rcases hx with rfl | rfl
      · exact hplace.symbol_mem
      · exact symbolOf_mem hplace.target_lt
    · split at h
      · simp only [List.mem_singleton] at h
        subst h
        refine ⟨hsource, fun x hx => ?_⟩
        simp only [List.mem_singleton] at hx
        subst hx
        exact hplace.symbol_mem
      · simp at h
  · split at h
    · simp only [List.mem_singleton] at h
      subst h
      exact ⟨symbolOf_mem A.wellFormed.start_lt, by simp⟩
    · simp at h

/-- The grammar of an automaton needs no check. -/
theorem presentation_wellFormed (A : Automaton) : A.presentation.WellFormed := by
  have hentries : ∀ e ∈ A.presentation.productions.entries,
      (∃ B ∈ A.presentation.nonTerminals, e.1 = [.nonTerminal B]) ∧
        ∀ rhs ∈ e.2, ∀ x ∈ rhs, A.presentation.Declares x := by
    refine Productions.forall_entries_ofLines
      (p := fun lhs => ∃ B ∈ A.presentation.nonTerminals, lhs = [.nonTerminal B])
      (q := fun rhs => ∀ x ∈ rhs, A.presentation.Declares x) ?_
    intro line hline
    obtain ⟨rule, hrule, rfl⟩ := List.mem_map.mp hline
    obtain ⟨hlhs, hrhs⟩ := declares_of_mem_rules hrule
    refine ⟨⟨_, hlhs, rfl⟩, fun rhs h => ?_⟩
    simp only [List.mem_singleton] at h
    exact h ▸ hrhs
  refine ⟨symbolOf_mem A.wellFormed.start_lt, ?_, ?_, ?_, ?_⟩
  · intro a ha hmem
    exact Symbol.freshNames_not_mem _ _ a hmem ha
  · intro e he
    obtain ⟨B, -, hB⟩ := (hentries e he).1
    rw [hB]
    rfl
  · intro e he x hx
    obtain ⟨B, hmem, hB⟩ := (hentries e he).1
    rw [hB, List.mem_singleton] at hx
    exact hx ▸ hmem
  · exact fun e he => (hentries e he).2

/-- The grammar of an automaton. -/
def toGrammar (A : Automaton) : Grammar :=
  { A.presentation with wellFormed := A.presentation_wellFormed }

/-- The events of the conversion: the rules of the arrows, repeated ones too. -/
def toGrammarEvents (A : Automaton) : List Event :=
  A.moveRules.map fun rule => .addedRule rule.1 rule.2

end FormalLang.Automaton
