import FormalLang.Proofs.Correspondence.AutomatonOfGrammar
import FormalLang.Proofs.Correspondence.GrammarOfAutomaton
import FormalLang.Proofs.Grammar.Classes
import Mathlib.Data.List.GetD

/-!
# From grammars to automata and back

The automaton of a regular grammar has a state for each non-terminal and one more for
finished derivations.  When it is converted back, the non-terminals keep their names, since
they are distinct and no terminals, and the state for finished derivations becomes a new
non-terminal.  A rule `A → a` is an arrow to this accepting state, from which two rules come
back: itself, and `A → af` with the new non-terminal `f`.  A rule `A → aS` leads to the start
state, and if this accepts, because of `S → ε`, then `A → a` comes back as well.

Main results:

- Theorem `Grammar.stateSymbols_automaton`: the non-terminals that come back.
- Theorem `Grammar.hasRule_toGrammar_automaton_iff`: the rules that come back, for each rule
  the ones that its arrow stands for.
- Theorem `Grammar.roundTrip_adds_rules`: what a regular grammar gains on the way to an
  automaton and back.
-/

namespace FormalLang.Grammar

variable {g : Grammar} {A : Symbol} {state : Option Symbol} {lhs rhs : SententialForm}

/-! ## Non-terminals -/

/-- The non-terminal that stands for finished derivations, after the grammar was converted
into an automaton and back. -/
def endSymbol (g : Grammar) : Symbol :=
  g.automaton.symbolOf g.finalState

/-- All non-terminals come back with their own names, and the state for finished derivations
is the last one to get a name. -/
theorem stateSymbols_automaton (g : Grammar) :
    g.automaton.stateSymbols = g.stateSymbols ++ [g.endSymbol] := by
  have hkept : Symbol.freshNames g.terminals.toList g.stateSymbols = g.stateSymbols := by
    apply Symbol.freshNames_of_not_mem g.nodup_stateSymbols
    intro A hA hterminal
    exact g.wellFormed.disjoint A hterminal (mem_stateSymbols_iff.mp hA)
  have hnames : ∃ f, g.automaton.stateSymbols = g.stateSymbols ++ [f] := by
    change ∃ f, Symbol.freshNames g.terminals.toList (g.stateSymbols ++ [g.finalName]) = _
    rw [Symbol.freshNames_append, hkept]
    exact ⟨_, rfl⟩
  rcases hnames with ⟨f, hf⟩
  have hend : g.endSymbol = f := by
    rw [endSymbol, Automaton.symbolOf, hf, finalState, List.getD_append_right _ _ _ _ (Nat.le_refl _)]
    simp
  rw [hf, hend]

/-- The new non-terminal is not one of the grammar. -/
theorem endSymbol_not_mem (g : Grammar) : g.endSymbol ∉ g.nonTerminals := by
  have hnodup : g.automaton.stateSymbols.Nodup := Symbol.nodup_freshNames _ _
  rw [stateSymbols_automaton, List.nodup_append] at hnodup
  intro h
  exact hnodup.2.2 _ (mem_stateSymbols h) _ List.mem_cons_self rfl

theorem symbolOf_stateOf (h : A ∈ g.nonTerminals) : g.automaton.symbolOf (g.stateOf A) = A := by
  have hlt : g.stateOf A < g.stateSymbols.length := stateOf_lt_finalState h
  rw [Automaton.symbolOf, stateSymbols_automaton, List.getD_append _ _ _ _ hlt,
    List.getD_eq_getElem _ _ hlt]
  exact List.getElem_idxOf hlt

/-- The non-terminal of a place is the one whose place it is, or the new one. -/
theorem symbolOf_placeOf (h : state ∈ g.recognizer.states) :
    g.automaton.symbolOf (g.placeOf state) = state.getD g.endSymbol := by
  cases state with
  | none => rfl
  | some A => exact symbolOf_stateOf (mem_recognizer_states_some.mp h)

theorem symbolOf_start (g : Grammar) : g.automaton.symbolOf g.automaton.start = g.start := by
  rw [automaton_start]
  exact symbolOf_placeOf g.recognizer.start_mem

/-! ## Rules -/

/-- The rules that come back: a rule that begins with a terminal does so with the
non-terminal of its state behind the terminal, and without it if a derivation can end in this
state.  Besides, there is the rule that erases the start symbol. -/
theorem hasRule_toGrammar_automaton_iff :
    g.automaton.toGrammar.productions.HasRule lhs rhs ↔
      (∃ A a, ∃ side : RegularSide, lhs = [.nonTerminal A] ∧
        g.productions.HasRule lhs side.toForm ∧ side.word = [a] ∧
          (rhs = [.terminal a, .nonTerminal (side.state.getD g.endSymbol)] ∨
            g.recognizer.final side.state = true ∧ rhs = [.terminal a])) ∨
        lhs = [.nonTerminal g.start] ∧ rhs = [] ∧ g.productions.HasRule lhs rhs := by
  have hstart : g.automaton.isAccepting g.automaton.start = true ↔
      g.productions.HasRule [.nonTerminal g.start] [] := by
    have hfinal := automaton_final_placeOf g.recognizer.start_mem
    rw [recognizer_start, recognizer_final_some] at hfinal
    rw [automaton_start, hfinal, hasErasingRule_iff]
  rw [Automaton.hasRule_toGrammar_iff]
  constructor
  · intro h
    rcases h with ⟨X, rfl, hrule⟩
    rcases Automaton.mem_rules_iff.mp hrule with ⟨p, a, q, hq, rfl, hrhs⟩ | ⟨haccepting, rfl, rfl⟩
    · rcases mem_arrows_iff.mp (mem_targets_automaton_iff.mp hq) with ⟨A, hA, rfl, next, hnext, rfl⟩
      have hstate := g.recognizer.next_mem (some A) a next hnext
      rcases mem_derivationSteps_iff.mp hnext with ⟨side, hside, hword, rfl⟩
      rw [symbolOf_placeOf hstate, automaton_final_placeOf hstate] at hrhs
      rw [symbolOf_stateOf hA]
      exact Or.inl ⟨A, a, side, rfl, hside, hword, hrhs⟩
    · rw [symbolOf_start]
      exact Or.inr ⟨rfl, rfl, hstart.mp haccepting⟩
  · intro h
    rcases h with ⟨A, a, side, rfl, hside, hword, hrhs⟩ | ⟨rfl, rfl, hrule⟩
    · have hA := nonTerminal_mem_of_hasRule hside
      have hnext : side.state ∈ g.derivationSteps (some A) a :=
        mem_derivationSteps_iff.mpr ⟨side, hside, hword, rfl⟩
      have hstate := g.recognizer.next_mem (some A) a _ hnext
      have harrow := mem_targets_automaton_iff.mpr (mem_arrows_iff.mpr ⟨A, hA, rfl, _, hnext, rfl⟩)
      rw [← symbolOf_placeOf hstate, ← automaton_final_placeOf hstate] at hrhs
      exact ⟨A, rfl, Automaton.mem_rules_iff.mpr
        (Or.inl ⟨_, a, _, harrow, (symbolOf_stateOf hA).symm, hrhs⟩)⟩
    · exact ⟨_, rfl, Automaton.mem_rules_iff.mpr
        (Or.inr ⟨hstart.mpr hrule, g.symbolOf_start.symm, rfl⟩)⟩

/-- The rules that a grammar `g` is expected to have after it was converted into an automaton
and back. -/
inductive RoundTripRule (g : Grammar) : SententialForm → SententialForm → Prop
  /-- The rules of `g` come back. -/
  | kept {lhs rhs : SententialForm} :
      g.productions.HasRule lhs rhs → RoundTripRule g lhs rhs
  /-- Where a derivation ends with a terminal, it can also go on with the new non-terminal. -/
  | unending {lhs : SententialForm} {a : Symbol} :
      g.productions.HasRule lhs [.terminal a] →
        RoundTripRule g lhs [.terminal a, .nonTerminal g.endSymbol]
  /-- Where a derivation goes on with the start symbol, and this is erased, it can also end. -/
  | shortened {lhs : SententialForm} {a : Symbol} :
      g.productions.HasRule lhs [.terminal a, .nonTerminal g.start] →
        g.productions.HasRule [.nonTerminal g.start] [] → RoundTripRule g lhs [.terminal a]

theorem hasRule_toGrammar_automaton_iff_roundTripRule (h : g.grammarClass = .regular) :
    g.automaton.toGrammar.productions.HasRule lhs rhs ↔ g.RoundTripRule lhs rhs := by
  rw [hasRule_toGrammar_automaton_iff]
  constructor
  · intro hrule
    rcases hrule with ⟨A, a, side, -, hside, hword, hrhs⟩ | ⟨-, -, hrule⟩
    · cases side with
      | erasing => cases hword
      | ending b =>
          cases hword
          rcases hrhs with rfl | ⟨-, rfl⟩
          · exact .unending hside
          · exact .kept hside
      | continuing b B =>
          cases hword
          rcases hrhs with rfl | ⟨hfinal, rfl⟩
          · exact .kept hside
          · -- In a regular grammar the start symbol is the only one that is erased.
            have herased := hasErasingRule_iff.mp hfinal
            have hstart := (eq_start_of_shorter (Or.inl h) herased (by simp)).1
            cases hstart
            exact .shortened hside herased
    · exact .kept hrule
  · intro hrule
    cases hrule with
    | kept hrule =>
        rcases exists_side_of_hasRule h hrule with ⟨A, side, rfl, rfl, hstart⟩
        cases side with
        | erasing => exact Or.inr ⟨by rw [hstart rfl], rfl, hrule⟩
        | ending a => exact Or.inl ⟨A, a, .ending a, rfl, hrule, rfl, Or.inr ⟨rfl, rfl⟩⟩
        | continuing a B => exact Or.inl ⟨A, a, .continuing a B, rfl, hrule, rfl, Or.inl rfl⟩
    | unending hrule =>
        rename_i a
        rcases exists_side_of_hasRule h hrule with ⟨A, -, rfl, -, -⟩
        exact Or.inl ⟨A, a, .ending a, rfl, hrule, rfl, Or.inl rfl⟩
    | shortened hrule herased =>
        rename_i a
        rcases exists_side_of_hasRule h hrule with ⟨A, -, rfl, -, -⟩
        have hfinal : g.recognizer.final (some g.start) = true := hasErasingRule_iff.mpr herased
        exact Or.inl ⟨A, a, .continuing a g.start, rfl, hrule, rfl, Or.inr ⟨hfinal, rfl⟩⟩

/-! ## The round trip -/

/-- A regular grammar that is converted into an automaton and back has the same start symbol
and terminals, its own non-terminals and a new one, and besides its own rules only those in
which the new non-terminal or the erasing of the start symbol comes up. -/
theorem roundTrip_adds_rules (h : g.grammarClass = .regular) :
    ∃ A, g.toAutomaton = .ok A ∧ A.toGrammar.start = g.start ∧
      A.toGrammar.terminals = g.terminals ∧ g.endSymbol ∉ g.nonTerminals ∧
        (∀ X, X ∈ A.toGrammar.nonTerminals ↔ X ∈ g.nonTerminals ∨ X = g.endSymbol) ∧
          ∀ lhs rhs, A.toGrammar.productions.HasRule lhs rhs ↔ g.RoundTripRule lhs rhs := by
  refine ⟨g.automaton, ifRegular_of_regular h _, g.symbolOf_start, rfl,
    g.endSymbol_not_mem, fun X => ?_, fun lhs rhs =>
      hasRule_toGrammar_automaton_iff_roundTripRule h⟩
  change X ∈ g.automaton.stateSymbols ↔ _
  rw [stateSymbols_automaton, List.mem_append, List.mem_singleton, mem_stateSymbols_iff]

theorem framedLetter_text_ne_empty : "F" ≠ "" := by
  simp

/-- The only terminal of `framed`, which the state for finished derivations is called as
well. -/
def framedLetter : Symbol :=
  ⟨"F", framedLetter_text_ne_empty⟩

def framedPresentation : Presentation :=
  let R : Symbol := ⟨"R", by simp⟩
  { nonTerminals := .ofList [framedLetter.primed, R]
    terminals := .ofList [framedLetter]
    productions := .ofLines
      [([.nonTerminal R], [[.terminal framedLetter, .nonTerminal framedLetter.primed], []]),
        ([.nonTerminal framedLetter.primed], [[.terminal framedLetter, .nonTerminal R]])]
    start := R }

/-- The rules `R → FF' | ε` and `F' → FR` for the terminal `F`. -/
def framed : Grammar :=
  { framedPresentation with wellFormed := Presentation.fault?_eq_none_iff.mp (by decide) }

/-- The new non-terminal needs two primes, and `F' → FR` comes back with `F' → F`. -/
theorem framed_gains_rules :
    framed.grammarClass = .regular ∧ framed.endSymbol = framedLetter.primed.primed ∧
      ∃ A, framed.toAutomaton = .ok A ∧ A.toGrammar.start = framed.start ∧
        A.toGrammar.productions.HasRule [.nonTerminal framedLetter.primed]
          [.terminal framedLetter] := by
  have hregular : framed.grammarClass = .regular := by decide
  have hend : framed.endSymbol = framedLetter.primed.primed := by decide +kernel
  rcases roundTrip_adds_rules hregular with ⟨A, hA, hstart, -, -, -, hrules⟩
  refine ⟨hregular, hend, A, hA, hstart, (hrules _ _).mpr (.shortened ?_ ?_)⟩
  · exact mem_alternatives.mp (by decide)
  · exact mem_alternatives.mp (by decide)

end FormalLang.Grammar
