import FormalLang.Automaton.Basic

/-!
# Transitions along arrows

Transitions are put together arrow by arrow.  What they lead to is read off the
list of arrows: from a state by a symbol to the targets of the arrows that start
there with it, in the order in which they first stand in the list.

Main results:

- Theorem `Transitions.targets?_ofArrows`: the targets in the transitions along
  given arrows.
- Theorem `Automaton.mem_targets_ofArrows_iff`: one state leads to another
  exactly when there is an arrow.
- Theorem `Automaton.isDeterministic_iff`: an automaton is deterministic exactly
  when no state leads to two states by one symbol.
-/

namespace FormalLang

/-! ## Targets of arrows -/

/-- The target of an arrow, if it starts at a state with a symbol. -/
def Arrow.target? (p : Nat) (a : Symbol) (e : Arrow) : Option Nat :=
  if p = e.source ∧ a = e.symbol then some e.target else none

theorem Arrow.target?_eq_some_iff {p q : Nat} {a : Symbol} {e : Arrow} :
    e.target? p a = some q ↔ e = ⟨p, a, q⟩ := by
  rcases e with ⟨source, symbol, target⟩
  simp only [Arrow.target?, Option.ite_none_right_eq_some, Option.some.injEq, Arrow.mk.injEq]
  constructor
  · intro h
    rcases h with ⟨⟨rfl, rfl⟩, rfl⟩
    exact ⟨rfl, rfl, rfl⟩
  · intro h
    rcases h with ⟨rfl, rfl, rfl⟩
    exact ⟨⟨rfl, rfl⟩, rfl⟩

namespace Transitions

/-- The targets after adding arrows: the earlier ones, then those of the arrows. -/
theorem targets?_foldl_insert (T : Transitions) (arrows : List Arrow) (p : Nat) (a : Symbol) :
    ((arrows.foldl insert T).targets? p a).getD OrderedSet.empty =
      ((T.targets? p a).getD OrderedSet.empty).insertAll
        (arrows.filterMap (Arrow.target? p a)) := by
  induction arrows generalizing T with
  | nil => rfl
  | cons e arrows ih =>
      rw [List.foldl_cons, ih, targets?_insert]
      by_cases h : p = e.source ∧ a = e.symbol
      · have htarget : e.target? p a = some e.target := if_pos h
        rw [if_pos h, List.filterMap_cons_some htarget]
        rfl
      · have htarget : e.target? p a = none := if_neg h
        rw [if_neg h, List.filterMap_cons_none htarget]

theorem targets?_ofArrows (arrows : List Arrow) (p : Nat) (a : Symbol) :
    ((ofArrows arrows).targets? p a).getD OrderedSet.empty =
      OrderedSet.ofList (arrows.filterMap (Arrow.target? p a)) :=
  targets?_foldl_insert OrderedMap.empty arrows p a

end Transitions

theorem Diagram.targets_eq (D : Diagram) (p : Nat) (a : Symbol) :
    D.targets p a = ((D.transitions.targets? p a).getD OrderedSet.empty).toList := by
  unfold Diagram.targets
  split
  · rename_i qs h
    rw [h]
    rfl
  · rename_i h
    rw [h]
    rfl

/-- Along given arrows, one state leads to another exactly when there is such an arrow. -/
theorem Diagram.mem_targets_iff_of_eq {D : Diagram} {arrows : List Arrow}
    (h : D.transitions = .ofArrows arrows) {p q : Nat} {a : Symbol} :
    q ∈ D.targets p a ↔ ⟨p, a, q⟩ ∈ arrows := by
  rw [targets_eq, h, Transitions.targets?_ofArrows, OrderedSet.mem_toList, OrderedSet.mem_ofList,
    List.mem_filterMap]
  constructor
  · intro htargets
    rcases htargets with ⟨e, he, htarget⟩
    rw [Arrow.target?_eq_some_iff] at htarget
    exact htarget ▸ he
  · exact fun he => ⟨_, he, Arrow.target?_eq_some_iff.mpr rfl⟩

namespace Automaton

/-! ## Moves -/

/-- One state leads to another exactly when an arrow does. -/
theorem mem_targets_ofArrows_iff {D : Diagram} {hstart : D.start < D.states.length}
    {haccepting : ∀ q ∈ D.accepting, q < D.states.length} {arrows : List Arrow}
    {harrows : ∀ e ∈ arrows, D.HasPlaceFor e} {p q : Nat} {a : Symbol} :
    q ∈ (ofArrows D hstart haccepting arrows harrows).targets p a ↔ ⟨p, a, q⟩ ∈ arrows :=
  Diagram.mem_targets_iff_of_eq rfl

/-- The targets of a cell are what its state and symbol lead to. -/
theorem targets_of_mem_entries {A : Automaton} {row : Nat × Row} {cell : Symbol × OrderedSet Nat}
    (hrow : row ∈ A.transitions.entries) (hcell : cell ∈ row.2.entries) :
    A.targets row.1 cell.1 = cell.2.toList := by
  have hget : A.transitions.targets? row.1 cell.1 = some cell.2 := by
    rw [Transitions.targets?, OrderedMap.get?_eq_some_iff.mpr hrow]
    exact OrderedMap.get?_eq_some_iff.mpr hcell
  rw [Diagram.targets_eq, hget]
  rfl

/-- What a state leads to by a symbol stands in a cell. -/
theorem exists_cell_of_mem_targets {A : Automaton} {p q : Nat} {a : Symbol}
    (h : q ∈ A.targets p a) :
    ∃ row cell, (p, row) ∈ A.transitions.entries ∧ (a, cell) ∈ row.entries ∧ q ∈ cell := by
  rw [Diagram.targets_eq] at h
  cases hget : A.transitions.targets? p a with
  | none =>
      rw [hget] at h
      exact (List.not_mem_nil h).elim
  | some cell =>
      rw [hget] at h
      rcases Option.bind_eq_some_iff.mp hget with ⟨row, hrow, hcell⟩
      exact ⟨row, cell, OrderedMap.get?_eq_some_iff.mp hrow, OrderedMap.get?_eq_some_iff.mp hcell,
        h⟩

/-- An automaton moves by symbols of its alphabet only. -/
theorem symbol_mem_of_mem_targets {A : Automaton} {p q : Nat} {a : Symbol}
    (h : q ∈ A.targets p a) : a ∈ A.alphabet := by
  rcases exists_cell_of_mem_targets h with ⟨row, cell, hrow, hcell, -⟩
  exact ((A.wellFormed.row_wellFormed _ hrow).cell_wellFormed _ hcell).symbol_mem

/-- What has a successor is a state. -/
theorem source_lt_of_mem_targets {A : Automaton} {p q : Nat} {a : Symbol}
    (h : q ∈ A.targets p a) : p < A.states.length := by
  rcases exists_cell_of_mem_targets h with ⟨row, cell, hrow, -, -⟩
  exact (A.wellFormed.row_wellFormed _ hrow).source_lt

/-- An arrow is listed exactly when it is a move. -/
theorem mem_arrows_iff {A : Automaton} {p q : Nat} {a : Symbol} :
    ⟨p, a, q⟩ ∈ A.transitions.arrows ↔ q ∈ A.targets p a := by
  constructor
  · intro h
    rcases List.mem_flatMap.mp h with ⟨row, hrow, h⟩
    rcases List.mem_flatMap.mp h with ⟨cell, hcell, h⟩
    rcases List.mem_map.mp h with ⟨r, hr, heq⟩
    cases heq
    rw [targets_of_mem_entries hrow hcell]
    exact hr
  · intro h
    rcases exists_cell_of_mem_targets h with ⟨row, cell, hrow, hcell, hq⟩
    refine List.mem_flatMap.mpr ⟨_, hrow, List.mem_flatMap.mpr ⟨_, hcell, ?_⟩⟩
    exact List.mem_map.mpr ⟨q, hq, rfl⟩

/-! ## Determinism -/

/-- No state leads to two states by one symbol, said of the moves instead of the
cells. -/
theorem isDeterministic_iff {A : Automaton} :
    A.isDeterministic = true ↔
      ∀ p a q r, q ∈ A.targets p a → r ∈ A.targets p a → q = r := by
  simp only [isDeterministic, List.all_eq_true, OrderedSet.size, beq_iff_eq]
  constructor
  · intro h p a q r hq hr
    rcases exists_cell_of_mem_targets hq with ⟨row, cell, hrow, hcell, hmem⟩
    rw [targets_of_mem_entries hrow hcell] at hr
    rcases List.length_eq_one_iff.mp (h _ hrow _ hcell) with ⟨s, hs⟩
    rw [← OrderedSet.mem_toList] at hmem
    rw [hs, List.mem_singleton] at hmem hr
    exact hmem.trans hr.symm
  · intro h row hrow cell hcell
    have hne := ((A.wellFormed.row_wellFormed row hrow).cell_wellFormed cell hcell).targets_ne_nil
    have htargets := targets_of_mem_entries hrow hcell
    cases hlist : cell.2.toList with
    | nil => exact (hne hlist).elim
    | cons q qs =>
        cases qs with
        | nil => rfl
        | cons r qs =>
            -- Two members of a cell are the same state, which it holds once.
            have hqr : q = r := by
              apply h row.1 cell.1 <;> rw [htargets, hlist] <;> simp
            have hnodup := cell.2.nodup
            rw [hlist, hqr] at hnodup
            simp at hnodup

end Automaton
end FormalLang
