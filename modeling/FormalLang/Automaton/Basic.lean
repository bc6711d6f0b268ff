import FormalLang.Ordered.Map
import FormalLang.Ordered.Set
import FormalLang.Symbol

/-!
# Finite automata

A finite automaton has states, an alphabet, a start state, accepting states and
transitions; a state and a symbol may lead to several states.  A state is a
number, its place in the list of states, and has a name, which other states may
bear as well.

A `Diagram` holds the five parts with no condition on them; an `Automaton` is a
diagram that is well formed.
-/

namespace FormalLang

/-! ## Transitions -/

/-- An arrow from a state to a state. -/
structure Arrow where
  source : Nat
  symbol : Symbol
  target : Nat
deriving DecidableEq

/-- Where each symbol leads from one state. -/
abbrev Row := OrderedMap Symbol (OrderedSet Nat)

/-- The rows of the states that have transitions. -/
abbrev Transitions := OrderedMap Nat Row

namespace Transitions

/-- Add an arrow. -/
def insert (T : Transitions) (e : Arrow) : Transitions :=
  T.upsert e.source fun row =>
    (row.getD OrderedMap.empty).upsert e.symbol fun targets =>
      (targets.getD OrderedSet.empty).insert e.target

/-- The transitions along given arrows. -/
def ofArrows (arrows : List Arrow) : Transitions :=
  arrows.foldl insert OrderedMap.empty

/-- The arrows of the transitions, row by row. -/
def arrows (T : Transitions) : List Arrow :=
  T.entries.flatMap fun row =>
    row.2.entries.flatMap fun cell => cell.2.toList.map fun q => ⟨row.1, cell.1, q⟩

/-- The states to which a symbol leads from a state; nothing if there is no
such arrow. -/
def targets? (T : Transitions) (p : Nat) (a : Symbol) : Option (OrderedSet Nat) :=
  (T.get? p).bind fun row => row.get? a

theorem targets?_insert (T : Transitions) (e : Arrow) (p : Nat) (a : Symbol) :
    (T.insert e).targets? p a =
      if p = e.source ∧ a = e.symbol then
        some (((T.targets? p a).getD OrderedSet.empty).insert e.target)
      else T.targets? p a := by
  unfold insert targets?
  by_cases hp : p = e.source
  · subst hp
    rw [OrderedMap.get?_upsert_self]
    by_cases ha : a = e.symbol
    · subst ha
      cases h : OrderedMap.get? T e.source <;> simp
    · cases h : OrderedMap.get? T e.source <;> simp [ha, OrderedMap.get?_upsert_of_ne]
  · rw [OrderedMap.get?_upsert_of_ne _ _ hp]
    simp [hp]

end Transitions

/-! ## Diagrams -/

/-- The five parts of an automaton, with no condition on them. -/
structure Diagram where
  states : List Symbol
  alphabet : OrderedSet Symbol
  start : Nat
  accepting : OrderedSet Nat
  transitions : Transitions
deriving DecidableEq

namespace Diagram

/-- The name of a state. -/
def nameOf (D : Diagram) (p : Nat) : Symbol :=
  D.states.getD p Symbol.unknown

/-- The states to which a symbol leads from a state. -/
def targets (D : Diagram) (p : Nat) (a : Symbol) : List Nat :=
  match D.transitions.targets? p a with
  | some qs => qs.toList
  | none => []

/-- A cell of the transitions: it is for a symbol of the alphabet, and it has
targets, all of them states. -/
structure CellWellFormed (D : Diagram) (a : Symbol) (qs : OrderedSet Nat) : Prop where
  symbol_mem : a ∈ D.alphabet
  targets_ne_nil : qs.toList ≠ []
  target_lt : ∀ q ∈ qs, q < D.states.length

/-- A row of the transitions: it is for a state and has cells, all of them
well formed. -/
structure RowWellFormed (D : Diagram) (p : Nat) (row : Row) : Prop where
  source_lt : p < D.states.length
  cells_ne_nil : row.entries ≠ []
  cell_wellFormed : ∀ cell ∈ row.entries, D.CellWellFormed cell.1 cell.2

/-- The start, the accepting states and the ends of the transitions are states,
the symbols of the transitions are in the alphabet, and no row or cell of the
transitions is empty. -/
structure WellFormed (D : Diagram) : Prop where
  start_lt : D.start < D.states.length
  accepting_lt : ∀ q ∈ D.accepting, q < D.states.length
  row_wellFormed : ∀ row ∈ D.transitions.entries, D.RowWellFormed row.1 row.2

/-- An arrow between states of a diagram, with a symbol of its alphabet. -/
structure HasPlaceFor (D : Diagram) (e : Arrow) : Prop where
  source_lt : e.source < D.states.length
  symbol_mem : e.symbol ∈ D.alphabet
  target_lt : e.target < D.states.length

theorem RowWellFormed.upsert {D : Diagram} {row : Row} {e : Arrow}
    (hcells : ∀ cell ∈ row.entries, D.CellWellFormed cell.1 cell.2) (he : D.HasPlaceFor e) :
    D.RowWellFormed e.source
      (row.upsert e.symbol fun targets =>
        (targets.getD OrderedSet.empty).insert e.target) := by
  refine ⟨he.source_lt, ?_, ?_⟩
  · intro hnil
    have hget := OrderedMap.get?_upsert_self row e.symbol fun targets =>
      (targets.getD OrderedSet.empty).insert e.target
    rw [OrderedMap.get?, hnil] at hget
    simp at hget
  · intro cell hcell
    have hne : ∀ s : OrderedSet Nat, (s.insert e.target).toList ≠ [] := by
      intro s hnil
      have hmem : e.target ∈ s.insert e.target := OrderedSet.mem_insert.mpr (Or.inr rfl)
      rw [← OrderedSet.mem_toList, hnil] at hmem
      exact List.not_mem_nil hmem
    rcases OrderedMap.mem_upsertEntry hcell with h | rfl | ⟨known, hknown, rfl⟩
    · exact hcells cell h
    · refine ⟨he.symbol_mem, hne _, fun q hq => ?_⟩
      rcases OrderedSet.mem_insert.mp hq with hq | rfl
      · exact (OrderedSet.not_mem_empty q hq).elim
      · exact he.target_lt
    · have hold := hcells _ hknown
      refine ⟨he.symbol_mem, hne _, fun q hq => ?_⟩
      rcases OrderedSet.mem_insert.mp hq with hq | rfl
      · exact hold.target_lt q hq
      · exact he.target_lt

theorem forall_rows_insert {D : Diagram} {T : Transitions} {e : Arrow}
    (hT : ∀ row ∈ T.entries, D.RowWellFormed row.1 row.2) (he : D.HasPlaceFor e) :
    ∀ row ∈ (T.insert e).entries, D.RowWellFormed row.1 row.2 := by
  intro row hrow
  rcases OrderedMap.mem_upsertEntry hrow with h | rfl | ⟨known, hknown, rfl⟩
  · exact hT row h
  · exact RowWellFormed.upsert (by simp) he
  · exact RowWellFormed.upsert (hT _ hknown).cell_wellFormed he

theorem forall_rows_ofArrows {D : Diagram} {arrows : List Arrow}
    (h : ∀ e ∈ arrows, D.HasPlaceFor e) :
    ∀ row ∈ (Transitions.ofArrows arrows).entries, D.RowWellFormed row.1 row.2 := by
  have hfold : ∀ T : Transitions, (∀ row ∈ T.entries, D.RowWellFormed row.1 row.2) →
      ∀ row ∈ (arrows.foldl Transitions.insert T).entries, D.RowWellFormed row.1 row.2 := by
    induction arrows with
    | nil => exact fun T hT => hT
    | cons e arrows ih =>
        intro T hT
        exact ih (fun f hf => h f (List.mem_cons_of_mem _ hf)) _
          (forall_rows_insert hT (h e List.mem_cons_self))
  exact hfold _ (by simp)

end Diagram

/-- A well-formed diagram. -/
structure Automaton extends Diagram where
  wellFormed : toDiagram.WellFormed
deriving DecidableEq

namespace Automaton

/-- The diagram of these states, this alphabet, start and acceptance with the
transitions along given arrows.  The transitions of `D` itself do not count. -/
def ofArrows (D : Diagram) (hstart : D.start < D.states.length)
    (haccepting : ∀ q ∈ D.accepting, q < D.states.length) (arrows : List Arrow)
    (harrows : ∀ e ∈ arrows, D.HasPlaceFor e) : Automaton where
  toDiagram := { D with transitions := Transitions.ofArrows arrows }
  wellFormed :=
    ⟨hstart, haccepting,
      Diagram.forall_rows_ofArrows fun e he =>
        ⟨(harrows e he).source_lt, (harrows e he).symbol_mem, (harrows e he).target_lt⟩⟩

/-- The first state with a given name. -/
def stateNamed? (A : Automaton) (name : String) : Option Nat :=
  A.states.findIdx? fun state => state.text == name

/-- Whether a state accepts. -/
def isAccepting (A : Automaton) (p : Nat) : Bool :=
  p ∈ A.accepting

/-- The targets of a state are states. -/
theorem target_lt (A : Automaton) {p q : Nat} {a : Symbol} (h : q ∈ A.targets p a) :
    q < A.states.length := by
  unfold Diagram.targets at h
  split at h
  · rename_i qs hqs
    obtain ⟨row, hrow, hcell⟩ := Option.bind_eq_some_iff.mp hqs
    have hrow' := A.wellFormed.row_wellFormed _ (OrderedMap.get?_eq_some_iff.mp hrow)
    exact (hrow'.cell_wellFormed _ (OrderedMap.get?_eq_some_iff.mp hcell)).target_lt q h
  · simp at h

/-- No symbol leads from a state to several states. -/
def isDeterministic (A : Automaton) : Bool :=
  A.transitions.entries.all fun row => row.2.entries.all fun cell => cell.2.size == 1

end Automaton
end FormalLang
