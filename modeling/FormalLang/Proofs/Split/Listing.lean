import FormalLang.Proofs.Split.Reading
import Mathlib.Data.List.FinRange
import Mathlib.Data.Set.Card

/-!
# All splits of a text

A split is written down as the sequence of the indices of its symbols, so that
symbols listed twice make different splits.  All these sequences are listed by
a table: a place of the text holds those that lead from there to the end of the
content, put together from what stands behind its continuations.

Main results:

- Theorem `Splits.mem_splitsTo_iff`: what is listed at a place of the table.
- Theorem `Splits.mem_listSplits_iff`: the list for a text holds its splits.
- Theorem `Splits.ncard_splitIndices`: as many as there are.
- Theorem `Splits.isSplitOver_iff_exists_indices`: their words are the splits
  over the symbols.
-/

namespace FormalLang.Splits

variable {symbols : List Symbol} {t : List Char}

/-! ## Sequences of indices -/

/-- A sequence of indices of symbols in a list. -/
abbrev Indices (symbols : List Symbol) : Type :=
  List (Fin symbols.length)

/-- The word that is spelled by the indices of its symbols. -/
def spell (symbols : List Symbol) (indices : Indices symbols) : Word :=
  indices.map symbols.get

/-- The splits of a text, told apart by the indices of their symbols. -/
def splitIndices (symbols : List Symbol) (t : List Char) : Set (Indices symbols) :=
  {indices | IsSplit (spell symbols indices) t}

@[simp]
theorem spell_nil : spell symbols [] = [] :=
  rfl

@[simp]
theorem spell_cons (i : Fin symbols.length) (indices : Indices symbols) :
    spell symbols (i :: indices) = symbols.get i :: spell symbols indices :=
  rfl

/-- Any word over the symbols is spelled by some indices. -/
theorem exists_spell_eq {w : Word} (hw : ∀ a ∈ w, a ∈ symbols) :
    ∃ indices, spell symbols indices = w := by
  induction w with
  | nil => exact ⟨[], rfl⟩
  | cons a w ih =>
      rcases List.mem_iff_get.mp (hw a List.mem_cons_self) with ⟨i, hi⟩
      rcases ih fun b hb => hw b (List.mem_cons_of_mem a hb) with ⟨indices, hindices⟩
      exact ⟨i :: indices, by rw [spell_cons, hi, hindices]⟩

/-! ## Continuations with indices -/

/-- The continuations of a text, each with the index of its symbol. -/
def indexedContinuations (symbols : List Symbol) (t : List Char) :
    List (Fin symbols.length × Nat) :=
  (List.finRange symbols.length).filterMap fun i =>
    if (symbols.get i).chars.isPrefixOf (Text.skipBlanks t) then
      some (i, (t.takeWhile Text.isBlank).length + (symbols.get i).chars.length)
    else .none

theorem continuations_eq_map (symbols : List Symbol) (t : List Char) :
    continuations symbols t =
      (indexedContinuations symbols t).map fun step => (symbols.get step.1, step.2) := by
  have hsymbols : symbols = (List.finRange symbols.length).map symbols.get := by simp
  rw [indexedContinuations, List.map_filterMap]
  conv_lhs => rw [continuations, hsymbols, List.filterMap_map]
  apply List.filterMap_congr
  intro i _
  by_cases h : (symbols.get i).chars.isPrefixOf (Text.skipBlanks t) = true
  · rw [Function.comp_apply, if_pos h, if_pos h, Option.map_some]
  · rw [Function.comp_apply, if_neg h, if_neg h, Option.map_none]

theorem mem_indexedContinuations_iff {i : Fin symbols.length} {n : Nat} :
    (i, n) ∈ indexedContinuations symbols t ↔ (symbols.get i, n) ∈ continuations symbols t := by
  simp only [indexedContinuations, continuations, List.mem_filterMap, List.mem_finRange, true_and,
    Option.ite_none_right_eq_some, Option.some.injEq, Prod.mk.injEq]
  constructor
  · intro h
    rcases h with ⟨j, hprefix, rfl, hn⟩
    exact ⟨_, List.get_mem symbols j, hprefix, rfl, hn⟩
  · intro h
    rcases h with ⟨a, -, hprefix, rfl, hn⟩
    exact ⟨i, hprefix, rfl, hn⟩

/-- A symbol is continued with at most once. -/
theorem nodup_indexedContinuations (symbols : List Symbol) (t : List Char) :
    ((indexedContinuations symbols t).map Prod.fst).Nodup := by
  rw [indexedContinuations, List.map_filterMap]
  refine (List.nodup_finRange symbols.length).filterMap ?_
  intro i j k hi hj
  simp only [Option.mem_def, Option.map_eq_some_iff, Option.ite_none_right_eq_some,
    Option.some.injEq] at hi hj
  rcases hi with ⟨_, ⟨-, rfl⟩, rfl⟩
  rcases hj with ⟨_, ⟨-, rfl⟩, hij⟩
  exact hij.symm

/-! ## The table of splits -/

/-- The splits from a place on, when those behind it are given. -/
def splitsHere (symbols : List Symbol) (t : List Char)
    (behind : List (List (Indices symbols))) : List (Indices symbols) :=
  (indexedContinuations symbols t).flatMap fun step =>
    (behind.getD (step.2 - 1) []).map (step.1 :: ·)

/-- The splits at the first places of a text, up to the one after `n` characters. -/
def splitsTo (symbols : List Symbol) : Nat → List Char → List (List (Indices symbols))
  | 0, _ => [[[]]]
  | n + 1, t =>
      let behind := splitsTo symbols n t.tail
      splitsHere symbols t behind :: behind

section Here

variable {behind : List (List (Indices symbols))}

theorem nil_not_mem_splitsHere : [] ∉ splitsHere symbols t behind := by
  simp [splitsHere]

/-- A split goes on with the symbol of a continuation and a split from where it
leads. -/
theorem cons_mem_splitsHere_iff {i : Fin symbols.length} {rest : Indices symbols} :
    i :: rest ∈ splitsHere symbols t behind ↔
      ∃ n, (symbols.get i, n) ∈ continuations symbols t ∧ rest ∈ behind.getD (n - 1) [] := by
  simp only [splitsHere, List.mem_flatMap, List.mem_map, List.cons.injEq, Prod.exists,
    mem_indexedContinuations_iff]
  constructor
  · intro h
    rcases h with ⟨j, n, hstep, rest', hrest, rfl, rfl⟩
    exact ⟨n, hstep, hrest⟩
  · intro h
    rcases h with ⟨n, hstep, hrest⟩
    exact ⟨i, n, hstep, rest, hrest, rfl, rfl⟩

/-- Splits that begin with different indices are different. -/
theorem nodup_splitsHere (hbehind : ∀ n, (behind.getD n []).Nodup) :
    (splitsHere symbols t behind).Nodup := by
  rw [splitsHere, List.nodup_flatMap]
  constructor
  · intro step _
    exact (hbehind _).map (List.cons_injective)
  · have hfirst := List.pairwise_map.mp (nodup_indexedContinuations symbols t)
    refine hfirst.imp ?_
    intro step step' hne indices hmem hmem'
    rcases List.mem_map.mp hmem with ⟨rest, -, rfl⟩
    rcases List.mem_map.mp hmem' with ⟨rest', -, heq⟩
    exact hne (List.cons.inj heq).1.symm

end Here

/-- Every entry of the table that goes on behind a symbol goes on behind its
continuation. -/
theorem mem_splitsHere_iff {n : Nat} {c : Char} {u : List Char}
    {behind : List (List (Indices symbols))} (hn : n ≤ u.length)
    (hbehind : ∀ i ≤ u.length, ∀ rest, rest ∈ behind.getD i [] ↔
      ReadsWord (spell symbols rest) (u.drop i) (u.drop n))
    {indices : Indices symbols} :
    indices ∈ splitsHere symbols (c :: u) behind ↔
      ReadsWord (spell symbols indices) (c :: u) (u.drop n) := by
  cases indices with
  | nil =>
      -- The table ends behind `c`, so something has to be taken off.
      rw [spell_nil, readsWord_nil_iff]
      refine iff_of_false nil_not_mem_splitsHere fun h => ?_
      have hlen := congrArg List.length h
      rw [List.length_drop, List.length_cons] at hlen
      omega
  | cons i rest =>
      rw [cons_mem_splitsHere_iff, spell_cons,
        readsWord_cons_iff_continuations (List.get_mem symbols i)]
      refine exists_congr fun k => and_congr_right fun hstep => ?_
      have hpos := pos_of_mem_continuations hstep
      have hle := le_length_of_mem_continuations hstep
      have hdrop : (c :: u).drop k = u.drop (k - 1) := by
        cases k with
        | zero => omega
        | succ k => rfl
      rw [List.length_cons] at hle
      rw [hdrop, hbehind (k - 1) (by omega)]

/-- A place holds the splits from there to the end of the table. -/
theorem mem_splitsTo_iff {n i : Nat} (hn : n ≤ t.length) (hi : i ≤ t.length)
    {indices : Indices symbols} :
    indices ∈ (splitsTo symbols n t).getD i [] ↔
      ReadsWord (spell symbols indices) (t.drop i) (t.drop n) := by
  induction n generalizing t i indices with
  | zero =>
      cases i with
      | zero =>
          have hspell : spell symbols indices = [] ↔ indices = [] := List.map_eq_nil_iff
          rw [readsWord_self_iff, hspell]
          exact List.mem_singleton
      | succ i =>
          -- Nothing can be taken off that would leave more than there was.
          refine iff_of_false List.not_mem_nil fun h => ?_
          have hlen := h.length_add_le
          rw [List.length_drop, List.length_drop] at hlen
          omega
  | succ n ih =>
      cases t with
      | nil => simp at hn
      | cons c u =>
          rw [List.length_cons] at hn hi
          have hbehind : ∀ i ≤ u.length, ∀ rest, rest ∈ (splitsTo symbols n u).getD i [] ↔
              ReadsWord (spell symbols rest) (u.drop i) (u.drop n) :=
            fun i hi rest => ih (by omega) hi
          cases i with
          | zero => exact mem_splitsHere_iff (by omega) hbehind
          | succ i => exact hbehind i (by omega) indices

theorem nodup_splitsTo (symbols : List Symbol) (n : Nat) (t : List Char) (i : Nat) :
    ((splitsTo symbols n t).getD i []).Nodup := by
  induction n generalizing t i with
  | zero => cases i <;> simp [splitsTo]
  | succ n ih =>
      cases i with
      | zero => exact nodup_splitsHere fun i => ih t.tail i
      | succ i => exact ih t.tail i

/-! ## Whole texts -/

/-- The splits of a text, listed one after the other. -/
def listSplits (symbols : List Symbol) (t : List Char) : List (Indices symbols) :=
  (splitsTo symbols (Text.trimEnd t).length t).getD 0 []

theorem mem_listSplits_iff {indices : Indices symbols} :
    indices ∈ listSplits symbols t ↔ indices ∈ splitIndices symbols t :=
  mem_splitsTo_iff (Text.length_trimEnd_le t) (Nat.zero_le _)

/-- The list holds every split once. -/
theorem nodup_listSplits (symbols : List Symbol) (t : List Char) :
    (listSplits symbols t).Nodup :=
  nodup_splitsTo symbols _ t 0

theorem coe_toFinset_listSplits (symbols : List Symbol) (t : List Char) :
    ((listSplits symbols t).toFinset : Set (Indices symbols)) =
      splitIndices symbols t := by
  ext indices
  rw [List.coe_toFinset, Set.mem_ofPred_eq, mem_listSplits_iff]

theorem finite_splitIndices (symbols : List Symbol) (t : List Char) :
    (splitIndices symbols t).Finite := by
  rw [← coe_toFinset_listSplits]
  exact Finset.finite_toSet _

theorem ncard_splitIndices (symbols : List Symbol) (t : List Char) :
    (splitIndices symbols t).ncard = (listSplits symbols t).length := by
  rw [← coe_toFinset_listSplits, Set.ncard_coe_finset,
    List.toFinset_card_of_nodup (nodup_listSplits symbols t)]

/-- The words of the listed splits are the splits over the symbols. -/
theorem isSplitOver_iff_exists_indices {w : Word} :
    IsSplitOver symbols w t ↔ ∃ indices ∈ listSplits symbols t, spell symbols indices = w := by
  constructor
  · intro h
    rcases exists_spell_eq h.symbol_mem with ⟨indices, rfl⟩
    exact ⟨indices, mem_listSplits_iff.mpr h.isSplit, rfl⟩
  · intro h
    rcases h with ⟨indices, hmem, rfl⟩
    refine ⟨fun a ha => ?_, mem_listSplits_iff.mp hmem⟩
    rcases List.mem_map.mp ha with ⟨i, -, rfl⟩
    exact List.get_mem symbols i

end FormalLang.Splits
