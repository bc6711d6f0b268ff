import FormalLang.Automaton.Blueprint
import FormalLang.Automaton.Subset
import FormalLang.Correspondence.AutomatonOfGrammar
import FormalLang.Proofs.Checks.FirstFault
import FormalLang.Proofs.Grammar.Recognition

/-!
# The construction of automata

An automaton is made in two stages.  First its states, its alphabet, its start and
its accepting states are laid out; then arrows between its states are linked, one
after the other.  Linking would put a symbol into the alphabet that is not yet
there, but no operation links such a symbol.  Since every arrow that is linked has
a target, no row and no cell of the transitions is ever empty.

Main results:

- Theorem `Diagram.WellFormed.link`: linking an arrow between states keeps a
  diagram well formed.
- Theorem `Diagram.Constructed.wellFormed`: so does a whole construction.
- Theorem `Diagram.Obtainable.constructed`: the automata that are built, that
  grammars are converted into and that are determinized are constructed.
- Theorem `Diagram.Obtainable.sound`: all of them are sound.
-/

namespace FormalLang

namespace Diagram

variable {D : Diagram} {e : Arrow}

/-! ## Linking arrows -/

/-- Add an arrow, and its symbol to the alphabet. -/
def link (D : Diagram) (e : Arrow) : Diagram :=
  { D with
    alphabet := D.alphabet.insert e.symbol
    transitions := D.transitions.insert e }

/-- Add arrows one after the other. -/
def linkAll (D : Diagram) (arrows : List Arrow) : Diagram :=
  arrows.foldl link D

/-- A symbol that is in the alphabet does not change it. -/
theorem link_of_symbol_mem (h : e.symbol ∈ D.alphabet) :
    D.link e = { D with transitions := D.transitions.insert e } := by
  rw [link, OrderedSet.insert_of_mem h]

theorem linkAll_of_symbol_mem {arrows : List Arrow} (h : ∀ e ∈ arrows, e.symbol ∈ D.alphabet) :
    D.linkAll arrows = { D with transitions := arrows.foldl Transitions.insert D.transitions } := by
  induction arrows generalizing D with
  | nil => rfl
  | cons e arrows ih =>
      have he := link_of_symbol_mem (h e List.mem_cons_self)
      change (D.link e).linkAll arrows = _
      rw [he]
      exact ih fun f hf => h f (List.mem_cons_of_mem e hf)

/-! ## Steps of a construction -/

/-- The diagrams that come up while an automaton is made: one that is laid out has
no transitions, and one that is under construction gets arrows between its states. -/
inductive Constructed : Diagram → Prop
  | layout {D : Diagram} (start_lt : D.start < D.states.length)
      (accepting_lt : ∀ q ∈ D.accepting, q < D.states.length)
      (transitions_eq : D.transitions = .empty) : Constructed D
  | link {D : Diagram} {e : Arrow} (constructed : Constructed D)
      (source_lt : e.source < D.states.length) (target_lt : e.target < D.states.length) :
      Constructed (D.link e)

theorem Constructed.linkAll {arrows : List Arrow} (h : D.Constructed)
    (harrows : ∀ e ∈ arrows, D.HasPlaceFor e) : (D.linkAll arrows).Constructed := by
  induction arrows generalizing D with
  | nil => exact h
  | cons e arrows ih =>
      have he := harrows e List.mem_cons_self
      apply ih (h.link he.source_lt he.target_lt)
      intro f hf
      have hplace := harrows f (List.mem_cons_of_mem e hf)
      exact ⟨hplace.source_lt, OrderedSet.mem_insert.mpr (Or.inl hplace.symbol_mem),
        hplace.target_lt⟩

/-- A larger alphabet leaves a row well formed. -/
theorem RowWellFormed.mono {D' : Diagram} {p : Nat} {row : Row} (h : D.RowWellFormed p row)
    (hstates : D.states.length = D'.states.length)
    (halphabet : ∀ a ∈ D.alphabet, a ∈ D'.alphabet) : D'.RowWellFormed p row := by
  refine ⟨hstates ▸ h.source_lt, h.cells_ne_nil, fun cell hcell => ?_⟩
  have hold := h.cell_wellFormed cell hcell
  exact ⟨halphabet _ hold.symbol_mem, hold.targets_ne_nil,
    fun q hq => hstates ▸ hold.target_lt q hq⟩

/-- Linking an arrow between states keeps a diagram well formed. -/
theorem WellFormed.link (h : D.WellFormed) (hsource : e.source < D.states.length)
    (htarget : e.target < D.states.length) : (D.link e).WellFormed := by
  have hmono : ∀ a ∈ D.alphabet, a ∈ (D.link e).alphabet :=
    fun a ha => OrderedSet.mem_insert.mpr (Or.inl ha)
  have hplace : (D.link e).HasPlaceFor e :=
    ⟨hsource, OrderedSet.mem_insert.mpr (Or.inr rfl), htarget⟩
  have hrows : ∀ row ∈ D.transitions.entries, (D.link e).RowWellFormed row.1 row.2 :=
    fun row hrow => (h.row_wellFormed row hrow).mono rfl hmono
  exact ⟨h.start_lt, h.accepting_lt, forall_rows_insert hrows hplace⟩

/-- At every step of a construction the diagram is well formed. -/
theorem Constructed.wellFormed (h : D.Constructed) : D.WellFormed := by
  induction h with
  | layout hstart haccepting htransitions =>
      refine ⟨hstart, haccepting, fun row hrow => ?_⟩
      rw [htransitions] at hrow
      exact (List.not_mem_nil hrow).elim
  | link _ hsource htarget ih => exact ih.link hsource htarget

end Diagram

/-! ## Finished constructions -/

/-- An automaton given by its arrows is laid out, and then its arrows are linked
one after the other. -/
theorem Automaton.constructed_ofArrows (D : Diagram) (hstart : D.start < D.states.length)
    (haccepting : ∀ q ∈ D.accepting, q < D.states.length) (arrows : List Arrow)
    (harrows : ∀ e ∈ arrows, D.HasPlaceFor e) :
    (ofArrows D hstart haccepting arrows harrows).toDiagram.Constructed := by
  let layout : Diagram := { D with transitions := .empty }
  have hlayout : layout.Constructed := .layout hstart haccepting rfl
  have hplaces : ∀ e ∈ arrows, layout.HasPlaceFor e :=
    fun e he => ⟨(harrows e he).source_lt, (harrows e he).symbol_mem, (harrows e he).target_lt⟩
  have hlink : layout.linkAll arrows =
      (ofArrows D hstart haccepting arrows harrows).toDiagram :=
    Diagram.linkAll_of_symbol_mem fun e he => (hplaces e he).symbol_mem
  exact hlink ▸ hlayout.linkAll hplaces

/-- The automaton of a blueprint is constructed, once no fault has been found. -/
theorem Blueprint.constructed_of_toAutomaton {b : Blueprint} {A : Automaton}
    (h : b.toAutomaton = .ok A) : A.toDiagram.Constructed := by
  unfold toAutomaton at h
  rcases bind_eq_ok_iff.mp h with ⟨states, -, h⟩
  rcases bind_eq_ok_iff.mp h with ⟨alphabet, -, h⟩
  rcases bind_eq_ok_iff.mp h with ⟨start, -, h⟩
  rcases bind_eq_ok_iff.mp h with ⟨accepting, -, h⟩
  rcases bind_eq_ok_iff.mp h with ⟨arrows, -, h⟩
  cases h
  apply Automaton.constructed_ofArrows

/-- The automaton of a grammar is constructed, if the grammar is not refused. -/
theorem Grammar.constructed_of_toAutomaton {g : Grammar} {A : Automaton}
    (h : g.toAutomaton = .ok A) : A.toDiagram.Constructed := by
  unfold toAutomaton ifRegular at h
  split at h
  · cases h
    apply Automaton.constructed_ofArrows
  · contradiction

theorem Automaton.constructed_determinize (A : Automaton) :
    A.determinize.toDiagram.Constructed := by
  unfold determinize
  apply constructed_ofArrows

namespace Diagram

variable {D : Diagram}

/-- The diagrams of the automata that the operations make: an automaton is built
from a blueprint, which may be given entry by entry or at once by lists, converted
from a regular grammar, or made by determinizing another one. -/
inductive Obtainable : Diagram → Prop
  | build {b : Blueprint} {A : Automaton} (built : b.toAutomaton = .ok A) :
      Obtainable A.toDiagram
  | ofGrammar {g : Grammar} {A : Automaton} (converted : g.toAutomaton = .ok A) :
      Obtainable A.toDiagram
  | determinize {A : Automaton} (obtainable : Obtainable A.toDiagram) :
      Obtainable A.determinize.toDiagram

/-- Every automaton that an operation makes is laid out and linked. -/
theorem Obtainable.constructed (h : D.Obtainable) : D.Constructed := by
  cases h with
  | build built => exact Blueprint.constructed_of_toAutomaton built
  | ofGrammar converted => exact Grammar.constructed_of_toAutomaton converted
  | determinize _ => exact Automaton.constructed_determinize _

/-- A diagram is sound when its start, its accepting states and both ends of its
transitions are states, when the symbols of its transitions are in its alphabet,
when no row and no cell of the transitions is empty, and when no state and no
symbol has an empty name. -/
structure Sound (D : Diagram) : Prop where
  start_lt : D.start < D.states.length
  accepting_lt : ∀ p ∈ D.accepting, p < D.states.length
  source_lt : ∀ row ∈ D.transitions.entries, row.1 < D.states.length
  row_ne_nil : ∀ row ∈ D.transitions.entries, row.2.entries ≠ []
  symbol_mem : ∀ row ∈ D.transitions.entries, ∀ cell ∈ row.2.entries, cell.1 ∈ D.alphabet
  cell_ne_nil : ∀ row ∈ D.transitions.entries, ∀ cell ∈ row.2.entries, cell.2.toList ≠ []
  target_lt : ∀ row ∈ D.transitions.entries, ∀ cell ∈ row.2.entries, ∀ q ∈ cell.2,
    q < D.states.length
  name_ne_empty : ∀ name ∈ D.states, name.text ≠ ""
  symbol_ne_empty : ∀ a ∈ D.alphabet, a.text ≠ ""

theorem sound_of_wellFormed (h : D.WellFormed) : D.Sound where
  start_lt := h.start_lt
  accepting_lt := h.accepting_lt
  source_lt row hrow := (h.row_wellFormed row hrow).source_lt
  row_ne_nil row hrow := (h.row_wellFormed row hrow).cells_ne_nil
  symbol_mem row hrow cell hcell :=
    ((h.row_wellFormed row hrow).cell_wellFormed cell hcell).symbol_mem
  cell_ne_nil row hrow cell hcell :=
    ((h.row_wellFormed row hrow).cell_wellFormed cell hcell).targets_ne_nil
  target_lt row hrow cell hcell :=
    ((h.row_wellFormed row hrow).cell_wellFormed cell hcell).target_lt
  name_ne_empty name _ := name.text_ne_empty
  symbol_ne_empty a _ := a.text_ne_empty

/-- All automata that the operations make are sound. -/
theorem Obtainable.sound (h : D.Obtainable) : D.Sound :=
  sound_of_wellFormed h.constructed.wellFormed

/-- The automaton of a grammar, made deterministic twice. -/
theorem Obtainable.evenWords_sound :
    Obtainable Grammar.evenWords.automaton.determinize.determinize.toDiagram ∧
      Sound Grammar.evenWords.automaton.determinize.determinize.toDiagram := by
  have hconverted : Grammar.evenWords.toAutomaton = .ok Grammar.evenWords.automaton :=
    Grammar.ifRegular_of_regular (by decide) _
  have hobtainable := Obtainable.determinize (.determinize (.ofGrammar hconverted))
  exact ⟨hobtainable, Obtainable.sound hobtainable⟩

end Diagram
end FormalLang
