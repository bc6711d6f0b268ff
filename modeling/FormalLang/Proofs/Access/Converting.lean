import FormalLang.Proofs.Access.Guarded
import FormalLang.Proofs.Automaton.Construction
import FormalLang.Proofs.Correspondence.AutomatonOfGrammar
import FormalLang.Proofs.Correspondence.GrammarOfAutomaton
import FormalLang.Proofs.Grammar.Checking
import FormalLang.Proofs.Grammar.Membership

/-!
# Converting without failing

A grammar is converted rule by rule: the non-terminals of a rule are looked up among the
states, and the arrow of the rule is linked.  An automaton is converted arrow by arrow: its
states get names first, which are primed until they are new, and both ends of an arrow are
looked up among the names.  Since rules are between non-terminals and arrows between
states, no lookup fails; since primes make names longer, a new name is found.

Main results:

- Theorem `Grammar.foldl_addRule`: adding rules one after the other.
- Theorem `Grammar.foldlM_addRules?_eq`: rules with right-linear sides are all added, and
  they make the automaton.
- Theorem `Grammar.toAutomaton?_eq`: no access fails when a grammar is converted.
- Theorem `Symbol.freshNames?_eq`: no access fails when states get names.
- Theorem `Automaton.toGrammar?_eq`: no access fails when an automaton is converted.
-/

namespace FormalLang

/-! ## From grammars to automata -/

namespace Diagram

variable {D : Diagram}

/-- Make a state accepting. -/
def accept (D : Diagram) (p : Nat) : Diagram :=
  { D with accepting := D.accepting.insert p }

/-- Make states accepting one after the other. -/
def acceptAll (D : Diagram) (places : List Nat) : Diagram :=
  { D with accepting := D.accepting.insertAll places }

theorem acceptAll_cons (D : Diagram) (p : Nat) (places : List Nat) :
    D.acceptAll (p :: places) = (D.accept p).acceptAll places :=
  rfl

theorem linkAll_cons (D : Diagram) (e : Arrow) (arrows : List Arrow) :
    D.linkAll (e :: arrows) = (D.link e).linkAll arrows :=
  rfl

/-- Whether a state accepts does not matter to the arrows. -/
theorem linkAll_accept (D : Diagram) (p : Nat) (arrows : List Arrow) :
    (D.accept p).linkAll arrows = (D.linkAll arrows).accept p := by
  induction arrows generalizing D with
  | nil => rfl
  | cons e arrows ih => exact ih (D.link e)

end Diagram

namespace Grammar

variable {g : Grammar}

/-- The states of a grammar and its terminals, before any rule is added. -/
def layout (g : Grammar) : Diagram where
  states := g.stateSymbols ++ [g.finalName]
  alphabet := g.terminals
  start := 0
  accepting := .ofList [g.finalState]
  transitions := .empty

/-- Add a rule of the non-terminal of a state. -/
def addRule? (g : Grammar) (p : Nat) (D : Diagram) (rhs : SententialForm) :
    Guarded NotRegular Diagram :=
  match RegularSide.ofForm? rhs with
  | some (.continuing a B) => do
      let q ← Guarded.access (g.stateSymbols.idxOf? B)
      return D.link ⟨p, a, q⟩
  | some (.ending a) => return D.link ⟨p, a, g.finalState⟩
  | some .erasing => return D.accept p
  | none => throw ⟨g.grammarClass⟩

/-- Add all rules of a left-hand side. -/
def addRules? (g : Grammar) (D : Diagram) (entry : SententialForm × OrderedSet SententialForm) :
    Guarded NotRegular Diagram :=
  match SententialForm.single? entry.1 with
  | some A => do
      let p ← Guarded.access (g.stateSymbols.idxOf? A)
      entry.2.toList.foldlM (g.addRule? p) D
  | none => throw ⟨g.grammarClass⟩

/-- The automaton of a regular grammar, made with lookups. -/
def toAutomaton? (g : Grammar) : Guarded NotRegular Automaton :=
  if g.grammarClass = .regular then do
    let D ← g.productions.entries.foldlM g.addRules? g.layout
    Guarded.access D.checked?
  else throw ⟨g.grammarClass⟩

/-- Add a rule without looking anything up. -/
def addRule (g : Grammar) (D : Diagram) (rule : Symbol × SententialForm) : Diagram :=
  match g.arrow? rule.1 rule.2 with
  | some e => D.link e
  | none => if rule.2.isEmpty then D.accept (g.stateOf rule.1) else D

theorem idxOf?_stateSymbols {A : Symbol} (h : A ∈ g.nonTerminals) :
    g.stateSymbols.idxOf? A = some (g.stateOf A) :=
  idxOf?_of_mem (mem_stateSymbols h)

/-- The shape that rules must have to be added: every left-hand side is a non-terminal, and
every alternative is a right-linear side.  Which non-terminals are erased does not matter. -/
structure HasLinearShape (g : Grammar) : Prop where
  lhs_eq : ∀ lhs ∈ g.productions.keys, ∃ A, lhs = [.nonTerminal A]
  rhs_eq : ∀ lhs rhs, g.productions.HasRule lhs rhs → ∃ side : RegularSide, rhs = side.toForm

theorem hasLinearShape_of_regular (h : g.grammarClass = .regular) : g.HasLinearShape := by
  have hlinear := h
  rw [grammarClass_eq_regular_iff, Productions.isRightLinear_iff] at hlinear
  refine ⟨hlinear.1, fun lhs rhs hrule => ?_⟩
  rcases exists_side_of_hasRule h hrule with ⟨-, side, -, hside, -⟩
  exact ⟨side, hside⟩

/-- The non-terminals of a rule with a right-linear side are found among the states. -/
theorem addRule?_eq {A : Symbol} {side : RegularSide}
    (hrule : g.productions.HasRule [.nonTerminal A] side.toForm) (D : Diagram) :
    g.addRule? (g.stateOf A) D side.toForm = pure (g.addRule D (A, side.toForm)) := by
  cases side with
  | erasing => rfl
  | ending a => rfl
  | continuing a C =>
      rcases hrule with ⟨alternatives, hentry, hrhs⟩
      have hC : C ∈ g.nonTerminals :=
        g.wellFormed.rhs_declared _ hentry _ hrhs (.nonTerminal C) (by simp [RegularSide.toForm])
      simp only [addRule?, RegularSide.toForm, RegularSide.ofForm?, idxOf?_stateSymbols hC,
        Guarded.access_some, pure_bind]
      rfl

/-- The rules of a left-hand side that is a non-terminal. -/
def rulesOf (entry : SententialForm × OrderedSet SententialForm) :
    List (Symbol × SententialForm) :=
  match SententialForm.single? entry.1 with
  | some A => entry.2.toList.map fun rhs => (A, rhs)
  | none => []

theorem addRules?_eq (h : g.HasLinearShape)
    {entry : SententialForm × OrderedSet SententialForm} (hentry : entry ∈ g.productions.entries)
    (D : Diagram) : g.addRules? D entry = pure ((rulesOf entry).foldl g.addRule D) := by
  rcases entry with ⟨lhs, alternatives⟩
  rcases h.lhs_eq lhs (List.mem_map_of_mem (f := Prod.fst) hentry) with ⟨A, rfl⟩
  have hA : A ∈ g.nonTerminals :=
    g.wellFormed.lhs_declared _ hentry (.nonTerminal A) (by simp)
  have hadd : ∀ D, ∀ rhs ∈ alternatives.toList,
      g.addRule? (g.stateOf A) D rhs = pure (g.addRule D (A, rhs)) := by
    intro D rhs hrhs
    have hrule : g.productions.HasRule [.nonTerminal A] rhs := ⟨alternatives, hentry, hrhs⟩
    rcases h.rhs_eq _ rhs hrule with ⟨side, rfl⟩
    exact addRule?_eq hrule D
  simp only [addRules?, rulesOf, SententialForm.single?, idxOf?_stateSymbols hA,
    Guarded.access_some, pure_bind, foldlM_eq_pure hadd D, List.foldl_map]

/-- Adding rules links their arrows, and makes the states accepting whose non-terminals are
erased. -/
theorem foldl_addRule {rules : List (Symbol × SententialForm)} {D : Diagram} :
    rules.foldl g.addRule D =
      (D.linkAll (rules.filterMap fun rule => g.arrow? rule.1 rule.2)).acceptAll
        ((rules.filter fun rule => rule.2.isEmpty).map fun rule => g.stateOf rule.1) := by
  induction rules generalizing D with
  | nil => rfl
  | cons rule rules ih =>
      rw [List.foldl_cons, ih, addRule]
      cases harrow : g.arrow? rule.1 rule.2 with
      | some e =>
          have hrhs : ¬rule.2.isEmpty = true := by
            intro hempty
            rw [List.isEmpty_iff.mp hempty] at harrow
            contradiction
          simp only [List.filterMap_cons, harrow, List.filter_cons, if_neg hrhs,
            Diagram.linkAll_cons]
      | none =>
          simp only [List.filterMap_cons, harrow, List.filter_cons]
          by_cases hrhs : rule.2.isEmpty = true
          · rw [if_pos hrhs, if_pos hrhs, List.map_cons, Diagram.acceptAll_cons,
              Diagram.linkAll_accept]
          · rw [if_neg hrhs, if_neg hrhs]

/-- Rules with right-linear sides are all added, and they make the automaton of a grammar. -/
theorem foldlM_addRules?_eq (h : g.HasLinearShape) :
    g.productions.entries.foldlM g.addRules? g.layout = pure g.automaton.toDiagram := by
  have hrules : g.singleRules = g.productions.entries.flatMap rulesOf := rfl
  have hlink : g.layout.linkAll g.arrows =
      { g.layout with transitions := Transitions.ofArrows g.arrows } :=
    Diagram.linkAll_of_symbol_mem fun e he => (hasPlaceFor_of_mem_arrows he).symbol_mem
  rw [foldlM_eq_pure (fun D entry hentry => addRules?_eq h hentry D), ← List.foldl_flatMap,
    ← hrules, foldl_addRule]
  change pure ((g.layout.linkAll g.arrows).acceptAll _) = _
  rw [hlink]
  rfl

/-- No access fails when a grammar is converted. -/
theorem toAutomaton?_eq (g : Grammar) : g.toAutomaton? = .of g.toAutomaton := by
  unfold toAutomaton? toAutomaton ifRegular
  by_cases h : g.grammarClass = .regular
  · rw [if_pos h, if_pos h, foldlM_addRules?_eq (hasLinearShape_of_regular h), pure_bind]
    exact congrArg Guarded.access (Diagram.checked?_eq_some rfl)
  · rw [if_neg h, if_neg h]
    rfl

end Grammar

/-! ## Names for states -/

namespace Symbol

/-- Prime a name until it is not taken; nothing if the steps run out. -/
def primeUntil? (taken : List Symbol) : (steps : Nat) → (name : String) → Option String
  | 0, _ => none
  | steps + 1, name =>
      if taken.any fun a => a.text == name then primeUntil? taken steps (name ++ "'")
      else some name

/-- Names for states, each primed until it is new, of which symbols are made. -/
def freshNames? (taken : List Symbol) : List Symbol → Option (List Symbol)
  | [] => some []
  | a :: names => do
      let name ← primeUntil? taken (taken.length + 1) a.text
      let b ← ofString? name
      let others ← freshNames? (b :: taken) names
      return b :: others

theorem any_text_beq_iff {taken : List Symbol} {a : Symbol} :
    (taken.any fun b => b.text == a.text) = true ↔ a ∈ taken := by
  simp only [List.any_eq_true, beq_iff_eq]
  constructor
  · intro h
    rcases h with ⟨b, hb, htext⟩
    exact Symbol.ext htext ▸ hb
  · exact fun h => ⟨a, h, rfl⟩

/-- A name is primed until it is fresh.  The names that were tried stay in the list of
those that are taken, but they are too short to be tried again. -/
theorem primeUntil?_eq {taken all : List Symbol} {a : Symbol}
    (hall : ∀ b : Symbol, a.text.length ≤ b.text.length → (b ∈ all ↔ b ∈ taken)) {steps : Nat}
    (hsteps : taken.length < steps) :
    primeUntil? all steps a.text = some (fresh taken a).text := by
  fun_induction fresh taken a generalizing steps with
  | case1 taken a hmem ih =>
      rcases Nat.exists_eq_add_of_lt (Nat.lt_of_le_of_lt (Nat.zero_le _) hsteps) with ⟨k, rfl⟩
      have hlen := List.length_erase_of_mem hmem
      have hpos := List.length_pos_of_mem hmem
      have htaken : (all.any fun b => b.text == a.text) = true :=
        any_text_beq_iff.mpr ((hall a (Nat.le_refl _)).mpr hmem)
      rw [Nat.zero_add, primeUntil?, if_pos htaken]
      refine ih (fun b hb => ?_) (by omega)
      rw [text_primed, String.length_append] at hb
      have hne : b ≠ a := by
        rintro rfl
        exact Nat.not_succ_le_self _ hb
      rw [List.mem_erase_of_ne hne]
      exact hall b (Nat.le_of_succ_le hb)
  | case2 taken a hnot =>
      rcases Nat.exists_eq_add_of_lt (Nat.lt_of_le_of_lt (Nat.zero_le _) hsteps) with ⟨k, rfl⟩
      have hfree : ¬(all.any fun b => b.text == a.text) = true := by
        rw [any_text_beq_iff, hall a (Nat.le_refl _)]
        exact hnot
      rw [Nat.zero_add, primeUntil?, if_neg hfree]

/-- No access fails when states get names. -/
theorem freshNames?_eq (taken names : List Symbol) :
    freshNames? taken names = some (freshNames taken names) := by
  induction names generalizing taken with
  | nil => rfl
  | cons a names ih =>
      have hname := primeUntil?_eq (fun b _ => Iff.rfl) (Nat.lt_succ_self taken.length) (a := a)
      have hsymbol : ofString? (fresh taken a).text = some (fresh taken a) :=
        ofString?_eq_some_iff.mpr rfl
      rw [freshNames?, hname, Option.bind_eq_bind, Option.bind_some, hsymbol, Option.bind_eq_bind,
        Option.bind_some, ih]
      rfl

end Symbol

/-! ## From automata to grammars -/

/-- The grammar of a presentation, which fails if the presentation is not well formed. -/
def Presentation.checked? (G : Presentation) : Option Grammar :=
  match G.check with
  | .ok g => some g
  | .error _ => none

theorem Presentation.checked?_eq_some {G : Presentation} {g : Grammar}
    (h : G = g.toPresentation) : G.checked? = some g := by
  have hok : G.check = .ok g := check_eq_ok_iff.mpr ⟨h ▸ g.wellFormed, h.symm⟩
  rw [checked?, hok]

namespace Automaton

variable {A : Automaton}

/-- Add the rules of an arrow, whose target is looked up among the names. -/
def addTarget? (A : Automaton) (names : List Symbol) (lhs a : Symbol) (P : Productions) (q : Nat) :
    Option Productions := do
  let X ← names[q]?
  let P := P.add [.nonTerminal lhs] [[.terminal a, .nonTerminal X]]
  return if A.isAccepting q then P.add [.nonTerminal lhs] [[.terminal a]] else P

/-- Add the rules of a state, which is looked up among the names. -/
def addRow? (A : Automaton) (names : List Symbol) (P : Productions) (row : Nat × Row) :
    Option Productions := do
  let lhs ← names[row.1]?
  row.2.entries.foldlM (fun P cell => cell.2.toList.foldlM (A.addTarget? names lhs cell.1) P) P

/-- The grammar of an automaton, made with lookups. -/
def toGrammar? (A : Automaton) : Option Grammar := do
  let names ← Symbol.freshNames? A.alphabet.toList A.states
  let P ← A.transitions.entries.foldlM (A.addRow? names) .empty
  let start ← names[A.start]?
  let P := if A.isAccepting A.start then P.add [.nonTerminal start] [[]] else P
  Presentation.checked?
    { nonTerminals := .ofList names
      terminals := A.alphabet
      productions := P
      start := start }

/-- Add a rule to productions. -/
def addStateRule (P : Productions) (rule : StateRule) : Productions :=
  P.add [.nonTerminal rule.1] [rule.2]

theorem addTarget?_eq {p q : Nat} {a : Symbol} (hq : q < A.states.length) (P : Productions) :
    A.addTarget? A.stateSymbols (A.symbolOf p) a P q =
      some ((A.arrowRules ⟨p, a, q⟩).foldl addStateRule P) := by
  rw [addTarget?, getElem?_stateSymbols hq, arrowRules]
  cases A.isAccepting q with
  | true => rfl
  | false => rfl

/-- The arrows of a row are between states, so their ends are found. -/
theorem addRow?_eq {row : Nat × Row} (hrow : row ∈ A.transitions.entries) (P : Productions) :
    A.addRow? A.stateSymbols P row =
      some ((row.2.entries.flatMap fun cell =>
        cell.2.toList.map fun q => (⟨row.1, cell.1, q⟩ : Arrow)).foldl
          (fun P e => (A.arrowRules e).foldl addStateRule P) P) := by
  have hrow' := A.wellFormed.row_wellFormed row hrow
  rw [addRow?, getElem?_stateSymbols hrow'.source_lt, Option.bind_eq_bind, Option.bind_some,
    List.foldl_flatMap]
  simp only [List.foldl_map]
  refine foldlM_eq_pure (m := Option) (fun P cell hcell => ?_) P
  refine foldlM_eq_pure (m := Option) (fun P q hq => ?_) P
  exact addTarget?_eq ((hrow'.cell_wellFormed cell hcell).target_lt q hq) P

/-- No access fails when an automaton is converted. -/
theorem toGrammar?_eq (A : Automaton) : A.toGrammar? = some A.toGrammar := by
  have hrows : A.transitions.entries.foldlM (A.addRow? A.stateSymbols) .empty =
      some (A.moveRules.foldl addStateRule .empty) := by
    rw [moveRules, Transitions.arrows, List.foldl_flatMap, List.foldl_flatMap]
    exact foldlM_eq_pure (m := Option) (fun P row hrow => addRow?_eq hrow P) .empty
  have hnames : Symbol.freshNames? A.alphabet.toList A.states = some A.stateSymbols :=
    Symbol.freshNames?_eq _ _
  rw [toGrammar?, hnames]
  simp only [Option.bind_eq_bind, Option.bind_some, hrows,
    getElem?_stateSymbols A.wellFormed.start_lt]
  refine Presentation.checked?_eq_some ?_
  have hnonTerminals : OrderedSet.ofList A.stateSymbols = A.presentation.nonTerminals :=
    OrderedSet.ext (OrderedSet.toList_ofList_of_nodup (Symbol.nodup_freshNames _ _))
  have hproductions : (if A.isAccepting A.start then
      (A.moveRules.foldl addStateRule .empty).add [.nonTerminal (A.symbolOf A.start)] [[]]
      else A.moveRules.foldl addStateRule .empty) = A.presentation.productions := by
    change _ = Productions.ofLines _
    rw [Productions.ofLines, List.foldl_map, rules, List.foldl_append]
    cases A.isAccepting A.start with
    | true => rfl
    | false => rfl
  rw [hnonTerminals, hproductions]
  rfl

end Automaton
end FormalLang
