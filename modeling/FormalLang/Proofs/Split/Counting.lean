import FormalLang.Proofs.Split.Listing
import FormalLang.Split.Count

/-!
# The number of splits

The counts at the places of a text are the lengths, up to two, of the lists of
splits from there on.  So the first of them tells whether the text has no split,
one or many.  Where there is one split it begins with a continuation that
leads to a place with one split again, and there is no other such way: following
the counts finds it.

Main results:

- Theorem `Splits.countsTo_eq_map`: the counts are the lengths up to two.
- Theorem `Splits.follow_eq_some`: following the counts finds the only split.
- Theorem `Splits.ofText_eq`: the answer, read off the list of all splits.
- Theorem `Splits.ofText_eq_one_iff_words`: when every symbol is listed once, the
  answer counts the words into which the text splits.
- Theorem `Splits.ofText_counts_splits`: a text is said to have no split, one or
  many, as the number of its splits is zero, one or more.
-/

namespace FormalLang.Splits

variable {symbols : List Symbol} {t : List Char}

/-! ## The counts -/

/-- Summing up lengths up to two gives the length up to two. -/
theorem min_two_foldr_eq {α β : Type} (l : List α) (f : α → List β) :
    Nat.min 2 ((l.map fun x => Nat.min 2 (f x).length).foldr
      (fun count total => count + total) 0) = Nat.min 2 (l.flatMap f).length := by
  induction l with
  | nil => rfl
  | cons x l ih =>
      rw [List.map_cons, List.foldr_cons, List.flatMap_cons, List.length_append]
      change min 2 _ = min 2 _ at ih
      change min 2 (min 2 _ + _) = min 2 _
      omega

theorem countHere_eq (symbols : List Symbol) (t : List Char)
    (behind : List (List (Indices symbols))) :
    countHere symbols t (behind.map fun splits => Nat.min 2 splits.length) =
      Nat.min 2 (splitsHere symbols t behind).length := by
  have hentry : ∀ n, (behind.map fun splits => Nat.min 2 splits.length).getD n 0 =
      Nat.min 2 (behind.getD n []).length := by
    intro n
    rw [List.getD_eq_getElem?_getD, List.getD_eq_getElem?_getD, List.getElem?_map]
    cases behind[n]? <;> rfl
  rw [countHere, continuations_eq_map, List.map_map, splitsHere, ← min_two_foldr_eq]
  simp only [Function.comp_def, hentry, List.length_map]

/-- The counts are the lengths of the lists of splits, up to two. -/
theorem countsTo_eq_map (symbols : List Symbol) (n : Nat) (t : List Char) :
    countsTo symbols n t = (splitsTo symbols n t).map fun splits => Nat.min 2 splits.length := by
  induction n generalizing t with
  | zero => rfl
  | succ n ih => rw [countsTo, splitsTo, List.map_cons, ih, countHere_eq]

/-- The count is one exactly where there is one split. -/
theorem count_eq_one_iff {n i : Nat} :
    (countsTo symbols n t)[i]? = some 1 ↔
      ∃ indices, (splitsTo symbols n t).getD i [] = [indices] := by
  rw [countsTo_eq_map, List.getElem?_map, List.getD_eq_getElem?_getD]
  cases (splitsTo symbols n t)[i]? with
  | none => simp
  | some splits =>
      rw [Option.map_some, Option.getD_some, Option.some.injEq, ← List.length_eq_one_iff]
      change min 2 splits.length = 1 ↔ splits.length = 1
      omega

/-! ## The only split -/

/-- The only split from a place on leads to a place with one split. -/
theorem exists_continuation_of_only_split {n : Nat} {indices : Indices symbols}
    (h : splitsHere symbols t (splitsTo symbols n t.tail) = [indices]) :
    ∃ step ∈ continuations symbols t, (countsTo symbols n t.tail)[step.2 - 1]? = some 1 := by
  have hmem : indices ∈ splitsHere symbols t (splitsTo symbols n t.tail) :=
    h ▸ List.mem_singleton_self indices
  cases indices with
  | nil => exact (nil_not_mem_splitsHere hmem).elim
  | cons i rest =>
      rcases cons_mem_splitsHere_iff.mp hmem with ⟨k, hstep, hrest⟩
      have hunique : ∀ rest', rest' ∈ (splitsTo symbols n t.tail).getD (k - 1) [] ↔
          rest' ∈ [rest] := by
        intro rest'
        constructor
        · intro hrest'
          have hmem' := cons_mem_splitsHere_iff.mpr ⟨k, hstep, hrest'⟩
          rw [h, List.mem_singleton] at hmem'
          exact List.mem_singleton.mpr (List.cons.inj hmem').2
        · intro hrest'
          exact List.mem_singleton.mp hrest' ▸ hrest
      have hnodup := nodup_splitsTo symbols n t.tail (k - 1)
      have hperm := (List.perm_ext_iff_of_nodup hnodup (List.nodup_singleton rest)).mpr hunique
      exact ⟨_, hstep, count_eq_one_iff.mpr ⟨rest, List.perm_singleton.mp hperm⟩⟩

/-- A continuation to a place with one split begins the only split. -/
theorem eq_cons_of_only_split {n : Nat} {indices : Indices symbols}
    (h : splitsHere symbols t (splitsTo symbols n t.tail) = [indices]) {step : Symbol × Nat}
    (hstep : step ∈ continuations symbols t)
    (hcount : (countsTo symbols n t.tail)[step.2 - 1]? = some 1) :
    ∃ i rest, symbols.get i = step.1 ∧ indices = i :: rest ∧
      (splitsTo symbols n t.tail).getD (step.2 - 1) [] = [rest] := by
  rcases step with ⟨a, k⟩
  rcases List.mem_iff_get.mp (mem_continuations_iff.mp hstep).1 with ⟨i, rfl⟩
  rcases count_eq_one_iff.mp hcount with ⟨rest, hentry⟩
  have hmem : i :: rest ∈ splitsHere symbols t (splitsTo symbols n t.tail) :=
    cons_mem_splitsHere_iff.mpr ⟨k, hstep, hentry ▸ List.mem_singleton_self rest⟩
  rw [h, List.mem_singleton] at hmem
  exact ⟨i, rest, rfl, hmem.symm, hentry⟩

/-- Following the counts finds the only split behind the symbol taken last. -/
theorem follow_eq_some {n skip : Nat} {indices : Indices symbols}
    (h : (splitsTo symbols n t).getD skip [] = [indices]) :
    follow symbols n skip t (countsTo symbols n t) = some (spell symbols indices) := by
  induction n generalizing t skip indices with
  | zero =>
      cases skip with
      | zero =>
          have hnil : [] = indices := List.singleton_inj.mp h
          subst hnil
          rfl
      | succ skip => cases h
  | succ n ih =>
      cases skip with
      | succ skip => exact ih h
      | zero =>
          -- A continuation has a positive length, so it leads to a later entry.
          have hentry : ∀ step ∈ continuations symbols t,
              (countsTo symbols (n + 1) t)[step.2]? = (countsTo symbols n t.tail)[step.2 - 1]? := by
            intro step hstep
            have hpos := pos_of_mem_continuations hstep
            rw [countsTo, List.getElem?_cons, if_neg (by omega)]
          rw [follow]
          cases hfind : (continuations symbols t).find? fun step =>
              (countsTo symbols (n + 1) t)[step.2]? == some 1 with
          | none =>
              rcases exists_continuation_of_only_split h with ⟨step, hstep, hcount⟩
              have hnot := List.find?_eq_none.mp hfind step hstep
              rw [hentry step hstep, hcount] at hnot
              simp at hnot
          | some step =>
              have hstep := List.mem_of_find?_eq_some hfind
              have hcount := List.find?_some hfind
              rw [hentry step hstep, beq_iff_eq] at hcount
              rcases eq_cons_of_only_split h hstep hcount with ⟨i, rest, hi, rfl, hrest⟩
              rw [spell_cons, hi]
              exact congrArg (Option.map (step.1 :: ·)) (ih hrest)

/-! ## Answers -/

theorem headD_counts (symbols : List Symbol) (t : List Char) :
    (counts symbols t).headD 0 = Nat.min 2 (listSplits symbols t).length := by
  rw [counts, countsTo_eq_map, listSplits]
  cases splitsTo symbols (Text.trimEnd t).length t <;> rfl

/-- Whenever a text has one split, the counts lead to its end. -/
theorem readOff?_eq_some {indices : Indices symbols}
    (h : listSplits symbols t = [indices]) :
    readOff? symbols t (counts symbols t) = some (spell symbols indices) :=
  follow_eq_some h

/-- The answer tells apart the lists without member, with one and with more. -/
theorem ofText_eq (symbols : List Symbol) (text : String) :
    ofText symbols text =
      match listSplits symbols text.toList with
      | [] => none
      | [indices] => one (spell symbols indices)
      | _ => many := by
  have hhead := headD_counts symbols text.toList
  unfold ofText
  rcases h : listSplits symbols text.toList with _ | ⟨indices, _ | ⟨indices', rest⟩⟩
  · rw [h] at hhead
    simp only [hhead]
    rfl
  · rw [h] at hhead
    simp only [hhead, readOff?_eq_some h]
    rfl
  · rw [h] at hhead
    have htwo : Nat.min 2 (indices :: indices' :: rest).length = 2 :=
      Nat.min_eq_left (Nat.le_add_left 2 rest.length)
    simp only [hhead, htwo]

section Answer

variable {text : String} {w : Word}

theorem ofText_eq_none_iff :
    ofText symbols text = .none ↔ listSplits symbols text.toList = [] := by
  rw [ofText_eq]
  rcases listSplits symbols text.toList with _ | ⟨indices, _ | ⟨indices', rest⟩⟩ <;> simp

theorem ofText_eq_one_iff :
    ofText symbols text = .one w ↔
      ∃ indices, listSplits symbols text.toList = [indices] ∧ spell symbols indices = w := by
  rw [ofText_eq]
  rcases listSplits symbols text.toList with _ | ⟨indices, _ | ⟨indices', rest⟩⟩ <;> simp

theorem ofText_eq_many_iff :
    ofText symbols text = .many ↔ 2 ≤ (listSplits symbols text.toList).length := by
  rw [ofText_eq]
  rcases listSplits symbols text.toList with _ | ⟨indices, _ | ⟨indices', rest⟩⟩ <;> simp

end Answer

theorem not_isSplitOver_of_none {text : String} (h : ofText symbols text = .none) (w : Word) :
    ¬IsSplitOver symbols w text.toList := by
  rw [isSplitOver_iff_exists_indices, ofText_eq_none_iff.mp h]
  simp

/-- When only one split is found, there is no other word that splits the text. -/
theorem isSplitOver_iff_of_one {text : String} {w : Word} (h : ofText symbols text = .one w)
    {w' : Word} : IsSplitOver symbols w' text.toList ↔ w' = w := by
  rcases ofText_eq_one_iff.mp h with ⟨indices, hlist, rfl⟩
  rw [isSplitOver_iff_exists_indices, hlist]
  simp [eq_comm]

/-! ## Splits told apart by their words -/

section Words

variable {text : String} {w : Word}

/-- When every symbol is listed once, words tell splits apart. -/
theorem spell_injective (hsymbols : symbols.Nodup) : Function.Injective (spell symbols) :=
  List.map_injective_iff.mpr (List.nodup_iff_injective_get.mp hsymbols)

theorem ofText_eq_none_iff_words :
    ofText symbols text = .none ↔ ∀ w, ¬IsSplitOver symbols w text.toList := by
  constructor
  · exact not_isSplitOver_of_none
  · intro h
    rw [ofText_eq_none_iff, List.eq_nil_iff_forall_not_mem]
    intro indices hmem
    exact h _ (isSplitOver_iff_exists_indices.mpr ⟨indices, hmem, rfl⟩)

theorem exists_two_of_many (hsymbols : symbols.Nodup) (h : ofText symbols text = .many) :
    ∃ w w', w ≠ w' ∧ IsSplitOver symbols w text.toList ∧ IsSplitOver symbols w' text.toList := by
  have hlen := ofText_eq_many_iff.mp h
  have hnodup := nodup_listSplits symbols text.toList
  simp only [isSplitOver_iff_exists_indices]
  rcases hlist : listSplits symbols text.toList with _ | ⟨indices, _ | ⟨indices', rest⟩⟩
  · simp [hlist] at hlen
  · simp [hlist] at hlen
  · have hne : indices ≠ indices' := by
      rintro rfl
      simp [hlist] at hnodup
    refine ⟨_, _, (spell_injective hsymbols).ne hne, ⟨indices, ?_, rfl⟩, ⟨indices', ?_, rfl⟩⟩
    · exact List.mem_cons_self
    · exact List.mem_cons_of_mem _ List.mem_cons_self

theorem ofText_eq_one_iff_words (hsymbols : symbols.Nodup) :
    ofText symbols text = .one w ↔ ∀ w', IsSplitOver symbols w' text.toList ↔ w' = w := by
  constructor
  · exact fun h w' => isSplitOver_iff_of_one h
  · intro h
    have hw := (h w).mpr rfl
    cases hsplits : ofText symbols text with
    | none => exact (not_isSplitOver_of_none hsplits w hw).elim
    | one w' => rw [(isSplitOver_iff_of_one hsplits).mp hw]
    | many =>
        rcases exists_two_of_many hsymbols hsplits with ⟨u, v, hne, hu, hv⟩
        exact (hne (((h u).mp hu).trans ((h v).mp hv).symm)).elim

theorem ofText_eq_many_iff_words (hsymbols : symbols.Nodup) :
    ofText symbols text = .many ↔
      ∃ w w', w ≠ w' ∧ IsSplitOver symbols w text.toList ∧ IsSplitOver symbols w' text.toList := by
  constructor
  · exact exists_two_of_many hsymbols
  · intro h
    rcases h with ⟨u, v, hne, hu, hv⟩
    cases hsplits : ofText symbols text with
    | none => exact (not_isSplitOver_of_none hsplits u hu).elim
    | one w =>
        have huw := (isSplitOver_iff_of_one hsplits).mp hu
        have hvw := (isSplitOver_iff_of_one hsplits).mp hv
        exact (hne (huw.trans hvw.symm)).elim
    | many => rfl

end Words

/-! ## The number of splits -/

theorem ofText_eq_one_iff_ncard {text : String} {w : Word} :
    ofText symbols text = .one w ↔
      (splitIndices symbols text.toList).ncard = 1 ∧
        w ∈ spell symbols '' splitIndices symbols text.toList := by
  rw [ofText_eq_one_iff, ncard_splitIndices]
  constructor
  · intro h
    rcases h with ⟨indices, hlist, rfl⟩
    have hmem : indices ∈ listSplits symbols text.toList := hlist ▸ List.mem_singleton_self indices
    exact ⟨by rw [hlist]; rfl, indices, mem_listSplits_iff.mp hmem, rfl⟩
  · intro h
    rcases h with ⟨hlen, indices, hmem, rfl⟩
    rcases List.length_eq_one_iff.mp hlen with ⟨indices', hlist⟩
    rw [← mem_listSplits_iff, hlist, List.mem_singleton] at hmem
    exact ⟨indices, hmem ▸ hlist, rfl⟩

/-- The way along the counts does not break off before the end. -/
theorem readOff?_ne_none (hhead : (counts symbols t).headD 0 = 1) :
    readOff? symbols t (counts symbols t) ≠ .none := by
  have hlen : (listSplits symbols t).length = 1 := by
    rw [headD_counts] at hhead
    change min 2 _ = 1 at hhead
    omega
  rcases List.length_eq_one_iff.mp hlen with ⟨indices, hlist⟩
  rw [readOff?_eq_some hlist]
  exact Option.some_ne_none _

/-- A text is said to have no split, many or one, as the number of its splits is
zero, two or more, or one, and in the last case with the word of this split.  The
word is then always found by following the counts. -/
theorem ofText_counts_splits (symbols : List Symbol) (text : String) :
    (splitIndices symbols text.toList).Finite ∧
      (ofText symbols text = .none ↔ (splitIndices symbols text.toList).ncard = 0) ∧
      (ofText symbols text = .many ↔ 2 ≤ (splitIndices symbols text.toList).ncard) ∧
      (∀ w, ofText symbols text = .one w ↔
        (splitIndices symbols text.toList).ncard = 1 ∧
          w ∈ spell symbols '' splitIndices symbols text.toList) ∧
      ((counts symbols text.toList).headD 0 = 1 →
        readOff? symbols text.toList (counts symbols text.toList) ≠ .none) := by
  refine ⟨finite_splitIndices symbols text.toList, ?_, ?_, ?_, readOff?_ne_none⟩
  · rw [ncard_splitIndices, ofText_eq_none_iff, List.length_eq_zero_iff]
  · rw [ncard_splitIndices, ofText_eq_many_iff]
  · exact fun w => ofText_eq_one_iff_ncard

/-- The symbols `x`, `xy` and `yz`, of which `xy` leads nowhere in `xyz`. -/
def overlapping : List Symbol :=
  [⟨"x", by decide⟩, ⟨"xy", by decide⟩, ⟨"yz", by decide⟩]

/-- The way along the counts goes past the symbol that leads nowhere. -/
theorem overlapping_readOff?_ne_none :
    (counts overlapping " xyz\n".toList).headD 0 = 1 ∧
      readOff? overlapping " xyz\n".toList (counts overlapping " xyz\n".toList) ≠ .none := by
  have hhead : (counts overlapping " xyz\n".toList).headD 0 = 1 := by decide
  exact ⟨hhead, (ofText_counts_splits overlapping " xyz\n").2.2.2.2 hhead⟩

end FormalLang.Splits
