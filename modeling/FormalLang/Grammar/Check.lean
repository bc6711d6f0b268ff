import FormalLang.Grammar.Basic

/-!
# Checking grammars

What can be wrong with a grammar, in the order in which it is looked for, and
the check that turns a presentation into a grammar.

Main results:

- Theorem `Presentation.fault?_eq_none_iff`: no fault is found exactly in
  well-formed presentations.
-/

namespace FormalLang

/-- The reasons for which a grammar is refused. -/
inductive GrammarError
  /-- A declared symbol or the start symbol is empty. -/
  | emptySymbol
  /-- The start symbol is not a declared non-terminal. -/
  | undeclaredStart (start : Symbol)
  /-- A symbol is declared as a terminal and as a non-terminal. -/
  | sharedSymbol (a : Symbol)
  /-- A left-hand side has no non-terminal. -/
  | noNonTerminal (lhs : SententialForm)
  /-- A rule uses a symbol that is not declared. -/
  | undeclaredSymbol (lhs : SententialForm) (x : GrammarSymbol)
  /-- A side of a rule does not split into declared symbols. -/
  | noSplit (side : String)
  /-- A side of a rule splits into declared symbols in several ways. -/
  | manySplits (side : String)
  /-- A line is no rule. -/
  | invalidLine (line : String)
deriving DecidableEq

/-- The message for a refused grammar. -/
def GrammarError.message : GrammarError → String
  | .emptySymbol => "symbols must not be empty"
  | .undeclaredStart start =>
      "start symbol `" ++ start.text ++ "` is not a declared non-terminal"
  | .sharedSymbol a =>
      "`" ++ a.text ++ "` is declared both as a terminal and as a non-terminal"
  | .noNonTerminal lhs => "left-hand side `" ++ lhs.text ++ "` contains no non-terminal"
  | .undeclaredSymbol lhs x =>
      "production for `" ++ lhs.text ++ "` uses undeclared symbol `" ++ x.symbol.text ++ "`"
  | .noSplit side => "`" ++ side ++ "` cannot be split into declared symbols"
  | .manySplits side =>
      "`" ++ side ++ "` splits into declared symbols in more than one way"
  | .invalidLine line =>
      "invalid production `" ++ line ++ "`, expected `lhs → rhs | ...`"

namespace Presentation

/-- The first fault in the rules of one left-hand side. -/
def ruleFault? (G : Presentation) (lhs : SententialForm)
    (alternatives : OrderedSet SententialForm) : Option GrammarError :=
  if lhs.any GrammarSymbol.isNonTerminal then
    ((lhs ++ alternatives.toList.flatten).find? fun x => ¬ G.Declares x).map
      (GrammarError.undeclaredSymbol lhs)
  else some (.noNonTerminal lhs)

/-- The first fault of a presentation. -/
def fault? (G : Presentation) : Option GrammarError :=
  if G.start ∈ G.nonTerminals then
    match G.terminals.toList.find? (· ∈ G.nonTerminals) with
    | some a => some (.sharedSymbol a)
    | none => G.productions.entries.findSome? fun e => G.ruleFault? e.1 e.2
  else some (.undeclaredStart G.start)

theorem ruleFault?_eq_none_iff {G : Presentation} {lhs : SententialForm}
    {alternatives : OrderedSet SententialForm} :
    G.ruleFault? lhs alternatives = none ↔
      lhs.any GrammarSymbol.isNonTerminal = true ∧ (∀ x ∈ lhs, G.Declares x) ∧
        ∀ rhs ∈ alternatives, ∀ x ∈ rhs, G.Declares x := by
  unfold ruleFault?
  split
  · rename_i hlhs
    simp only [Option.map_eq_none_iff, List.find?_eq_none, List.mem_append, List.mem_flatten,
      decide_eq_true_eq, Decidable.not_not, hlhs, true_and]
    constructor
    · intro h
      exact ⟨fun x hx => h x (Or.inl hx), fun rhs hrhs x hx => h x (Or.inr ⟨rhs, hrhs, hx⟩)⟩
    · rintro ⟨hl, hr⟩ x (hx | ⟨rhs, hrhs, hx⟩)
      · exact hl x hx
      · exact hr rhs hrhs x hx
  · rename_i hlhs
    simp [hlhs]

/-- No fault is found exactly in well-formed presentations. -/
theorem fault?_eq_none_iff {G : Presentation} : G.fault? = none ↔ G.WellFormed := by
  unfold fault?
  split
  · rename_i hstart
    split
    · rename_i a ha
      simp only [reduceCtorEq, false_iff]
      intro hG
      have hmem := List.find?_some ha
      simp only [decide_eq_true_eq] at hmem
      exact hG.disjoint a (List.mem_of_find?_eq_some ha) hmem
    · rename_i hnone
      simp only [List.find?_eq_none, decide_eq_true_eq] at hnone
      simp only [List.findSome?_eq_none_iff, ruleFault?_eq_none_iff]
      constructor
      · exact fun h => ⟨hstart, hnone, fun e he => (h e he).1, fun e he => (h e he).2.1,
          fun e he => (h e he).2.2⟩
      · exact fun hG e he => ⟨hG.lhs_nonTerminal e he, hG.lhs_declared e he,
          hG.rhs_declared e he⟩
  · rename_i hstart
    simp only [reduceCtorEq, false_iff]
    exact fun hG => hstart hG.start_mem

/-- The grammar with these parts, or the first fault in them. -/
def check (G : Presentation) : Except GrammarError Grammar :=
  match h : G.fault? with
  | some e => .error e
  | none => .ok { G with wellFormed := fault?_eq_none_iff.mp h }

end Presentation
end FormalLang
