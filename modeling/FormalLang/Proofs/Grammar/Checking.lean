import FormalLang.Grammar.Check
import FormalLang.Proofs.Checks.FirstFault

/-!
# The check of a grammar

The parts of a grammar are checked in a fixed order: the start symbol, the terminals,
and then the rules of one left-hand side after the other.  Where the rules are known to
use declared symbols, only the left-hand sides are left to check.

Main results:

- Theorem `Presentation.enforces_check`: the check fails with the first fault of a
  presentation.
- Theorem `Presentation.check_eq_ok_iff`: it lets just the well-formed presentations
  through, and it does not change them.
- Theorem `Presentation.sameFaults_checks`: the checks that are left when all symbols
  of rules are declared.
-/

namespace FormalLang

namespace Presentation

variable {G : Presentation} {g : Grammar}

/-- The check lets well-formed presentations through, just as they are, and no
others. -/
theorem check_eq_ok_iff : G.check = .ok g ↔ G.WellFormed ∧ g.toPresentation = G := by
  rw [← fault?_eq_none_iff]
  unfold check
  split
  · rename_i e he
    simp [he]
  · rename_i hnone
    rw [Except.ok.injEq]
    constructor
    · intro h
      subst h
      exact ⟨hnone, rfl⟩
    · intro h
      cases g
      cases h.2
      rfl

/-! ## The checks of a presentation -/

/-- The check of a left-hand side. -/
def lhsCheck (lhs : SententialForm) : Check GrammarError := fun e =>
  (∀ x ∈ lhs, x.isNonTerminal = false) ∧ e = .noNonTerminal lhs

/-- The checks of the rules of one left-hand side: it has a non-terminal, and all
symbols on both sides are declared. -/
def ruleChecks (G : Presentation) (lhs : SententialForm)
    (alternatives : OrderedSet SententialForm) : List (Check GrammarError) :=
  lhsCheck lhs :: (lhs ++ alternatives.toList.flatten).map fun x e =>
    ¬G.Declares x ∧ e = .undeclaredSymbol lhs x

/-- The checks of the symbols: the start symbol is a non-terminal, and no terminal is
one. -/
def symbolChecks (G : Presentation) : List (Check GrammarError) :=
  (fun e => G.start ∉ G.nonTerminals ∧ e = .undeclaredStart G.start) ::
    G.terminals.toList.map fun a e => a ∈ G.nonTerminals ∧ e = .sharedSymbol a

/-- The checks of a presentation, in the order in which they are made. -/
def checks (G : Presentation) : List (Check GrammarError) :=
  G.symbolChecks ++ G.productions.entries.flatMap fun entry => G.ruleChecks entry.1 entry.2

theorem ruleFault?_eq_some_iff {lhs : SententialForm} {alternatives : OrderedSet SententialForm}
    {e : GrammarError} :
    G.ruleFault? lhs alternatives = some e ↔ FirstFault (G.ruleChecks lhs alternatives) e := by
  unfold ruleFault? ruleChecks
  by_cases h : lhs.any GrammarSymbol.isNonTerminal = true
  · have hpasses : (lhsCheck lhs).Passes := by
      intro e he
      rcases List.any_eq_true.mp h with ⟨x, hx, hnt⟩
      rw [he.1 x hx] at hnt
      contradiction
    rw [if_pos h, firstFault_cons_of_passes hpasses, find?_map_eq_some_iff]
    simp only [decide_eq_true_eq]
  · have hfault : lhsCheck lhs (.noNonTerminal lhs) := ⟨by simpa using h, rfl⟩
    rw [if_neg h, firstFault_cons_of_fault hfault fun e he => he.2, Option.some.injEq, eq_comm]

/-- The fault that is found is the first one. -/
theorem fault?_eq_some_iff {e : GrammarError} : G.fault? = some e ↔ FirstFault G.checks e := by
  have hshared : ∀ e : GrammarError,
      (G.terminals.toList.find? (· ∈ G.nonTerminals)).map GrammarError.sharedSymbol = some e ↔
        FirstFault
          (G.terminals.toList.map fun a e => a ∈ G.nonTerminals ∧ e = .sharedSymbol a) e := by
    intro e
    rw [find?_map_eq_some_iff]
    simp only [decide_eq_true_eq]
  have hrules : (G.productions.entries.findSome? fun entry => G.ruleFault? entry.1 entry.2) =
      some e ↔
        FirstFault (G.productions.entries.flatMap fun entry => G.ruleChecks entry.1 entry.2) e :=
    findSome?_eq_some_iff fun entry _ e => ruleFault?_eq_some_iff
  unfold fault? checks symbolChecks
  rw [List.cons_append]
  by_cases hstart : G.start ∈ G.nonTerminals
  · rw [if_pos hstart, firstFault_cons_of_passes fun e he => he.1 hstart, firstFault_append_iff,
      forall_passes_iff, ← hrules]
    simp only [← hshared]
    cases G.terminals.toList.find? (· ∈ G.nonTerminals) with
    | none => simp
    | some a => simp
  · rw [if_neg hstart, firstFault_cons_of_fault ⟨hstart, rfl⟩ fun e he => he.2,
      Option.some.injEq, eq_comm]

/-- The check makes the checks of a presentation. -/
theorem enforces_check (G : Presentation) : Enforces G.checks G.check := by
  intro e
  rw [← fault?_eq_some_iff]
  unfold check
  split
  · rename_i e' he'
    simp [he']
  · rename_i hnone
    simp [hnone]

/-- When all rules use declared symbols, only their left-hand sides can be at fault. -/
theorem sameFaults_checks (hrules : ∀ entry ∈ G.productions.entries,
    (∀ x ∈ entry.1, G.Declares x) ∧ ∀ rhs ∈ entry.2, ∀ x ∈ rhs, G.Declares x) :
    SameFaults G.checks (G.symbolChecks ++ G.productions.keys.map lhsCheck) := by
  have hkeys : G.productions.keys.map lhsCheck =
      G.productions.entries.flatMap fun entry => [lhsCheck entry.1] := by
    rw [OrderedMap.keys, List.map_map, List.map_eq_flatMap]
    rfl
  rw [hkeys]
  apply (SameFaults.refl _).append
  apply SameFaults.flatMap
  intro entry hentry
  have hdeclared : ∀ x ∈ entry.1 ++ entry.2.toList.flatten, G.Declares x := by
    intro x hx
    rcases List.mem_append.mp hx with hx | hx
    · exact (hrules entry hentry).1 x hx
    · rcases List.mem_flatten.mp hx with ⟨rhs, hrhs, hx⟩
      exact (hrules entry hentry).2 rhs hrhs x hx
  apply SameFaults.cons
  intro _
  apply SameFaults.nil_of_passes
  intro c hc e he
  rcases List.mem_map.mp hc with ⟨x, hx, rfl⟩
  exact he.1 (hdeclared x hx)

end Presentation

/-- The grammar with these symbols, productions and start symbol, or the first
fault in them.  A symbol that is listed again changes nothing. -/
def Grammar.ofParts (nonTerminals terminals : List Symbol) (productions : Productions)
    (start : Symbol) : Except GrammarError Grammar :=
  Presentation.check
    { nonTerminals := .ofList nonTerminals
      terminals := .ofList terminals
      productions := productions
      start := start }

end FormalLang
