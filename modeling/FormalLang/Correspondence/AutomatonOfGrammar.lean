import FormalLang.Automaton.Basic
import FormalLang.Grammar.Membership

/-!
# From grammars to automata

Every non-terminal of a regular grammar becomes a state, the start symbol the
first one, and one more state stands for a finished derivation: `A → aB` is an
arrow from `A` to `B`, `A → a` an arrow from `A` to the new state, and a rule
of the start symbol for the empty word makes the start state accepting.
-/

namespace FormalLang.Grammar

/-- The non-terminals in the order of their states. -/
def stateSymbols (g : Grammar) : List Symbol :=
  g.start :: g.nonTerminals.toList.filter fun A => A ≠ g.start

theorem mem_stateSymbols {g : Grammar} {A : Symbol} (h : A ∈ g.nonTerminals) :
    A ∈ g.stateSymbols := by
  by_cases hA : A = g.start
  · exact hA ▸ List.mem_cons_self
  · exact List.mem_cons_of_mem _ (List.mem_filter.mpr ⟨h, by simpa using hA⟩)

/-- The name of the state for finished derivations: `F`, with as few primes as
make it no non-terminal. -/
def finalName (g : Grammar) : Symbol :=
  Symbol.fresh g.nonTerminals.toList ⟨"F", by decide⟩

/-- The state of a non-terminal. -/
def stateOf (g : Grammar) (A : Symbol) : Nat :=
  g.stateSymbols.idxOf A

/-- The state for finished derivations. -/
def finalState (g : Grammar) : Nat :=
  g.stateSymbols.length

/-- The arrow of a rule of a non-terminal. -/
def arrow? (g : Grammar) (A : Symbol) (rhs : SententialForm) : Option Arrow :=
  match RegularSide.ofForm? rhs with
  | some (.ending a) => some ⟨g.stateOf A, a, g.finalState⟩
  | some (.continuing a B) => some ⟨g.stateOf A, a, g.stateOf B⟩
  | _ => none

/-- The rules of single non-terminals, in order. -/
def singleRules (g : Grammar) : List (Symbol × SententialForm) :=
  g.productions.entries.flatMap fun e =>
    match SententialForm.single? e.1 with
    | some A => e.2.toList.map fun rhs => (A, rhs)
    | none => []

/-- The arrows of the rules, in order. -/
def arrows (g : Grammar) : List Arrow :=
  g.singleRules.filterMap fun rule => g.arrow? rule.1 rule.2

/-- The states of a grammar, its terminals and its acceptance, without arrows. -/
def diagram (g : Grammar) : Diagram where
  states := g.stateSymbols ++ [g.finalName]
  alphabet := g.terminals
  start := 0
  accepting :=
    .ofList <| g.finalState :: (g.singleRules.filter fun rule => rule.2.isEmpty).map
      fun rule => g.stateOf rule.1
  transitions := .empty

theorem mem_singleRules {g : Grammar} {A : Symbol} {rhs : SententialForm} :
    (A, rhs) ∈ g.singleRules ↔ g.productions.HasRule [.nonTerminal A] rhs := by
  simp only [singleRules, List.mem_flatMap, Productions.HasRule]
  constructor
  · rintro ⟨⟨lhs, alts⟩, he, h⟩
    split at h
    · rename_i B hB
      rw [SententialForm.single?_eq_some_iff] at hB
      obtain ⟨rhs', hrhs', heq⟩ := List.mem_map.mp h
      simp only [Prod.mk.injEq] at heq
      obtain ⟨rfl, rfl⟩ := heq
      simp only at hB
      subst hB
      exact ⟨alts, he, hrhs'⟩
    · simp at h
  · rintro ⟨alts, he, hrhs⟩
    exact ⟨_, he, by simpa [SententialForm.single?] using hrhs⟩

theorem nonTerminal_mem_of_mem_singleRules {g : Grammar} {rule : Symbol × SententialForm}
    (h : rule ∈ g.singleRules) : rule.1 ∈ g.nonTerminals := by
  obtain ⟨alts, he, -⟩ := mem_singleRules.mp h
  exact g.wellFormed.lhs_declared _ he (.nonTerminal rule.1) (by simp)

theorem stateOf_lt {g : Grammar} {A : Symbol} (h : A ∈ g.nonTerminals) :
    g.stateOf A < g.diagram.states.length := by
  have hlt := List.idxOf_lt_length_of_mem (mem_stateSymbols h)
  simp only [diagram, stateOf, List.length_append, List.length_singleton]
  omega

theorem finalState_lt (g : Grammar) : g.finalState < g.diagram.states.length := by
  simp [diagram, finalState]

theorem hasPlaceFor_of_mem_arrows {g : Grammar} {e : Arrow} (h : e ∈ g.arrows) :
    g.diagram.HasPlaceFor e := by
  obtain ⟨⟨A, rhs⟩, hrule, he⟩ := List.mem_filterMap.mp h
  have hA := stateOf_lt (nonTerminal_mem_of_mem_singleRules hrule)
  obtain ⟨alts, halts, hrhs⟩ := mem_singleRules.mp hrule
  have hdeclared := g.wellFormed.rhs_declared _ halts _ hrhs
  simp only [arrow?] at he
  split at he
  · rename_i a hside
    rw [RegularSide.ofForm?_eq_some_iff] at hside
    simp only [Option.some.injEq] at he
    subst he hside
    exact ⟨hA, hdeclared (.terminal a) (by simp [RegularSide.toForm]), g.finalState_lt⟩
  · rename_i a B hside
    rw [RegularSide.ofForm?_eq_some_iff] at hside
    simp only [Option.some.injEq] at he
    subst he hside
    exact ⟨hA, hdeclared (.terminal a) (by simp [RegularSide.toForm]),
      stateOf_lt (hdeclared (.nonTerminal B) (by simp [RegularSide.toForm]))⟩
  · contradiction

/-- The automaton of the rules of single non-terminals. -/
def automaton (g : Grammar) : Automaton :=
  Automaton.ofArrows g.diagram
    (by simp [diagram, stateSymbols])
    (by
      intro q hq
      rw [diagram, OrderedSet.mem_ofList, List.mem_cons, List.mem_map] at hq
      rcases hq with rfl | ⟨rule, hrule, rfl⟩
      · exact g.finalState_lt
      · exact stateOf_lt (nonTerminal_mem_of_mem_singleRules (List.mem_filter.mp hrule).1))
    g.arrows
    (fun _ he => hasPlaceFor_of_mem_arrows he)

/-- The automaton of a regular grammar. -/
def toAutomaton (g : Grammar) : Except NotRegular Automaton :=
  g.ifRegular g.automaton

/-- The event of a rule of a non-terminal. -/
def ruleEvents (g : Grammar) (A : Symbol) (rhs : SententialForm) : List Event :=
  match RegularSide.ofForm? rhs with
  | some .erasing => [.erases A]
  | some (.ending a) => [.addedTransition A a g.finalName]
  | some (.continuing a B) => [.addedTransition A a B]
  | none => []

/-- The events of the conversion. -/
def toAutomatonEvents (g : Grammar) : List Event :=
  g.classEvents ++
    if g.grammarClass = .regular then
      g.singleRules.flatMap fun rule => g.ruleEvents rule.1 rule.2
    else []

end FormalLang.Grammar
