import FormalLang.Proofs.Access.Slices
import FormalLang.Split.Count
import Mathlib.Data.List.Find

/-!
# The table of splits

The splits of a text are counted in a table with an entry for every byte of the content
and one behind it.  The entries of places are written from the last place to the first;
the others are never read.  Writing takes an index within the table, and the symbols at a
place are found with slices.  No such access fails, so that counting with the table and
reading the only split off it give what is said of the text without a table.

Main results:

- Theorem `Splits.drop_countsTo`: the counts from a place on.
- Theorem `Splits.writeCount?_place`: writing the count of one more place.
- Theorem `Splits.exists_table?`: the table is written, and holds the counts.
- Theorem `Splits.readOff?_place`: following the table is following the counts.
- Theorem `Splits.ofText?_eq`: no access fails on the way to the splits of a text.
-/

namespace FormalLang.Splits

variable {symbols : List Symbol} {t : List Char} {table : List Nat} {i k n : Nat}

/-! ## Counts from a place on -/

/-- The number of splits, up to two, from a place on, when the content has `n` places. -/
def countAt (symbols : List Symbol) (t : List Char) (n i : Nat) : Nat :=
  (countsTo symbols (n - i) (t.drop i)).headD 0

theorem drop_countsTo (symbols : List Symbol) (t : List Char) (hk : k ≤ n) :
    (countsTo symbols n t).drop k = countsTo symbols (n - k) (t.drop k) := by
  induction k generalizing n t with
  | zero => rfl
  | succ k ih =>
      rcases Nat.exists_eq_add_of_le hk with ⟨m, rfl⟩
      have hsub : k + 1 + m = (k + m) + 1 := by omega
      have hrest : k + m + 1 - (k + 1) = k + m - k := by omega
      rw [hsub, countsTo, List.drop_succ_cons, ih t.tail (by omega), hrest, List.drop_tail]

theorem length_countsTo (symbols : List Symbol) (n : Nat) (t : List Char) :
    (countsTo symbols n t).length = n + 1 := by
  induction n generalizing t with
  | zero => rfl
  | succ n ih => rw [countsTo, List.length_cons, ih]

/-- The counts are those at the places. -/
theorem getElem?_countsTo (symbols : List Symbol) (t : List Char) (k : Nat) (hi : i ≤ n) :
    (countsTo symbols (n - i) (t.drop i))[k]? =
      if i + k ≤ n then some (countAt symbols t n (i + k)) else Option.none := by
  split
  · rename_i hk
    have hle : k ≤ n - i := by omega
    have hsub : n - i - k = n - (i + k) := by omega
    have hdrop := drop_countsTo symbols (t.drop i) hle
    rw [hsub, List.drop_drop] at hdrop
    rw [countAt, ← hdrop, List.headD_eq_head?_getD, List.head?_drop]
    have hlt : k < (countsTo symbols (n - i) (t.drop i)).length := by
      rw [length_countsTo]
      omega
    rw [List.getElem?_eq_getElem hlt]
    rfl
  · rename_i hk
    rw [List.getElem?_eq_none]
    rw [length_countsTo]
    omega

/-- The count at a place sums up the counts where its continuations lead. -/
theorem countAt_eq (hi : i < n) :
    countAt symbols t n i =
      Nat.min 2 (((continuations symbols (t.drop i)).map fun step =>
        if i + step.2 ≤ n then countAt symbols t n (i + step.2) else 0).foldr
          (fun count total => count + total) 0) := by
  rcases Nat.exists_eq_add_of_lt hi with ⟨m, rfl⟩
  have hsub : i + m + 1 - i = m + 1 := by omega
  rw [countAt, hsub, countsTo, List.headD_cons, countHere, List.tail_drop]
  refine congrArg (fun l => Nat.min 2 (List.foldr _ 0 l)) (List.map_congr_left fun step hstep => ?_)
  have hpos := pos_of_mem_continuations hstep
  have hnext : i + 1 ≤ i + m + 1 := by omega
  have hentry := getElem?_countsTo symbols t (step.2 - 1) hnext
  have hplace : i + 1 + (step.2 - 1) = i + step.2 := by omega
  have hrest : i + m + 1 - (i + 1) = m := by omega
  rw [hplace, hrest] at hentry
  rw [List.getD_eq_getElem?_getD, hentry]
  split
  · rfl
  · rfl

/-! ## Writing the table -/

/-- Write an entry of a table; nothing if the index is beyond it. -/
def write? (table : List Nat) (i count : Nat) : Option (List Nat) :=
  if i < table.length then some (table.set i count) else Option.none

theorem write?_eq_some (count : Nat) (h : i < table.length) :
    write? table i count = some (table.set i count) :=
  if_pos h

/-- Sum up what the table holds where a text goes on from a byte, and write this down. -/
def writeCount? (symbols : List Symbol) (t : List Char) (table : List Nat) (offset : Nat) :
    Option (List Nat) := do
  let next ← nextSymbols? symbols t offset
  let counts := next.map fun step => table.getD step.2 0
  write? table offset (Nat.min 2 (counts.foldr (fun count total => count + total) 0))

/-- The table of the splits of a text. -/
def table? (symbols : List Symbol) (t : List Char) : Option (List Nat) := do
  let stop := String.utf8Len (Text.trimEnd t)
  let table ← write? (List.replicate (stop + 1) 0) stop 1
  let offsets := (List.range stop).reverse.filter fun n => (Text.sliceFrom? t n).isSome
  offsets.foldlM (writeCount? symbols t) table

/-- A table holds the counts from a place on. -/
structure Holds (symbols : List Symbol) (t : List Char) (i : Nat) (table : List Nat) : Prop where
  length_eq : table.length = String.utf8Len (Text.trimEnd t) + 1
  getElem?_place : ∀ j, i ≤ j → j ≤ (Text.trimEnd t).length →
    table[Text.place t j]? = some (countAt symbols t (Text.trimEnd t).length j)

/-- The places of the content of a text are places of the text. -/
theorem place_trimEnd (h : i ≤ (Text.trimEnd t).length) :
    Text.place (Text.trimEnd t) i = Text.place t i := by
  conv_rhs => rw [← Text.trimEnd_append_trailingBlanks t]
  rw [Text.place_append_of_le h]

/-- The content ends at the place behind its last character. -/
theorem place_length_trimEnd (t : List Char) :
    Text.place t (Text.trimEnd t).length = String.utf8Len (Text.trimEnd t) := by
  rw [← place_trimEnd (Nat.le_refl _), Text.place_length]

/-- What a table holds at a place, within the content or behind it. -/
theorem Holds.getElem?_eq (h : Holds symbols t i table) (hi : i ≤ k) (hk : k ≤ t.length) :
    table[Text.place t k]? =
      if k ≤ (Text.trimEnd t).length then some (countAt symbols t (Text.trimEnd t).length k)
      else Option.none := by
  split
  · rename_i hle
    exact h.getElem?_place k hi hle
  · rename_i hgt
    rw [List.getElem?_eq_none]
    rw [h.length_eq, ← place_length_trimEnd]
    exact Text.place_lt_place (Nat.lt_of_not_le hgt) hk

/-- The count of the place before those that the table holds is written. -/
theorem writeCount?_place (h : Holds symbols t (i + 1) table)
    (hi : i < (Text.trimEnd t).length) :
    ∃ table', writeCount? symbols t table (Text.place t i) = some table' ∧
      Holds symbols t i table' := by
  have hlen := Text.length_trimEnd_le t
  have hcounts : (continuations symbols (t.drop i)).map (fun step =>
      table.getD (Text.place t (i + step.2)) 0) =
        (continuations symbols (t.drop i)).map fun step =>
          if i + step.2 ≤ (Text.trimEnd t).length then
            countAt symbols t (Text.trimEnd t).length (i + step.2) else 0 := by
    refine List.map_congr_left fun step hstep => ?_
    have hpos := pos_of_mem_continuations hstep
    have hle := le_length_of_mem_continuations hstep
    rw [List.length_drop] at hle
    rw [List.getD_eq_getElem?_getD, h.getElem?_eq (by omega) (by omega)]
    split
    · rfl
    · rfl
  have hindex : Text.place t i < table.length := by
    rw [h.length_eq, ← place_length_trimEnd]
    exact Nat.lt_succ_of_lt (Text.place_lt_place hi hlen)
  refine ⟨table.set (Text.place t i) (countAt symbols t (Text.trimEnd t).length i), ?_, ?_, ?_⟩
  · simp only [writeCount?, nextSymbols?_place, Option.bind_eq_bind, Option.bind_some,
      List.map_map, Function.comp_def, hcounts]
    rw [← countAt_eq hi, write?_eq_some _ hindex]
  · rw [List.length_set, h.length_eq]
  · intro j hij hj
    rw [List.getElem?_set]
    split
    · rename_i heq
      rw [Text.place_inj (by omega) (by omega)] at heq
      rw [heq]
    · rename_i hne
      have hlt : i ≠ j := fun heq => hne (congrArg (Text.place t) heq)
      exact h.getElem?_place j (by omega) hj

/-- The counts of all places before those that the table holds are written. -/
theorem foldlM_writeCount?_places (h : Holds symbols t n table)
    (hn : n ≤ (Text.trimEnd t).length) :
    ∃ table', ((List.range n).map (Text.place t)).reverse.foldlM (writeCount? symbols t) table =
      some table' ∧ Holds symbols t 0 table' := by
  induction n generalizing table with
  | zero => exact ⟨table, rfl, h⟩
  | succ n ih =>
      rcases writeCount?_place h hn with ⟨table', hwrite, hholds⟩
      rcases ih hholds (Nat.le_of_succ_le hn) with ⟨table'', hrest, hholds'⟩
      refine ⟨table'', ?_, hholds'⟩
      rw [List.range_succ, List.map_append, List.reverse_append, List.foldlM_append]
      simp only [List.map_cons, List.map_nil, List.reverse_singleton, List.foldlM_cons, hwrite,
        Option.bind_eq_bind, Option.bind_some, List.foldlM_nil, Option.pure_def]
      exact hrest

/-- The table is written, and holds the counts at all places. -/
theorem exists_table? (symbols : List Symbol) (t : List Char) :
    ∃ table, table? symbols t = some table ∧ Holds symbols t 0 table := by
  have hoffsets : ((List.range (String.utf8Len (Text.trimEnd t))).reverse.filter fun n =>
      (Text.sliceFrom? t n).isSome) =
        ((List.range (Text.trimEnd t).length).map (Text.place t)).reverse := by
    have hplaces := Text.filter_range_utf8Len (Text.trimEnd t) (Text.trailingBlanks t)
    rw [Text.trimEnd_append_trailingBlanks] at hplaces
    rw [List.filter_reverse, hplaces]
    refine congrArg List.reverse (List.map_congr_left fun i hi => ?_)
    exact place_trimEnd (Nat.le_of_lt (List.mem_range.mp hi))
  let stop := String.utf8Len (Text.trimEnd t)
  have hindex : stop < (List.replicate (stop + 1) 0).length := by
    rw [List.length_replicate]
    exact Nat.lt_succ_self stop
  have hstart : Holds symbols t (Text.trimEnd t).length
      ((List.replicate (stop + 1) 0).set stop 1) := by
    refine ⟨?_, fun j hij hj => ?_⟩
    · rw [List.length_set, List.length_replicate]
    · have hj' : j = (Text.trimEnd t).length := Nat.le_antisymm hj hij
      rw [hj', place_length_trimEnd, List.getElem?_set_self hindex, countAt, Nat.sub_self]
      rfl
  rcases foldlM_writeCount?_places hstart (Nat.le_refl _) with ⟨table, htable, hholds⟩
  refine ⟨table, ?_, hholds⟩
  rw [table?, write?_eq_some 1 hindex]
  simp only [Option.bind_eq_bind, Option.bind_some]
  rw [hoffsets]
  exact htable

/-! ## Reading the split off the table -/

/-- Follow the table from a byte on to the end of the content; nothing if an access fails
or the steps run out, and no word if the table leads nowhere. -/
def followTable? (symbols : List Symbol) (t : List Char) (table : List Nat) (stop : Nat) :
    (steps offset : Nat) → Option (Option Word)
  | 0, offset => if offset < stop then Option.none else some (some [])
  | steps + 1, offset =>
      if offset < stop then do
        let next ← nextSymbols? symbols t offset
        match next.find? fun step => table[step.2]? == some 1 with
        | some step => do
            let word ← followTable? symbols t table stop steps step.2
            return word.map (step.1 :: ·)
        | Option.none => return Option.none
      else some (some [])

/-- Skipping characters leads to the place behind them. -/
theorem follow_skip (symbols : List Symbol) (t : List Char) (hk : k ≤ n) :
    follow symbols n k t (countsTo symbols n t) =
      follow symbols (n - k) 0 (t.drop k) (countsTo symbols (n - k) (t.drop k)) := by
  induction k generalizing n t with
  | zero => rfl
  | succ k ih =>
      rcases Nat.exists_eq_add_of_le hk with ⟨m, rfl⟩
      have hsub : k + 1 + m = (k + m) + 1 := by omega
      have hrest : k + m + 1 - (k + 1) = k + m - k := by omega
      rw [hsub, countsTo, follow, List.tail_cons, ih t.tail (by omega), hrest, List.drop_tail]

/-- Following the table from a place on is following the counts. -/
theorem followTable?_place (h : Holds symbols t 0 table) (hi : i ≤ (Text.trimEnd t).length)
    {steps : Nat} (hsteps : (Text.trimEnd t).length - i ≤ steps) :
    followTable? symbols t table (String.utf8Len (Text.trimEnd t)) steps (Text.place t i) =
      some (follow symbols ((Text.trimEnd t).length - i) 0 (t.drop i)
        (countsTo symbols ((Text.trimEnd t).length - i) (t.drop i))) := by
  have hlen := Text.length_trimEnd_le t
  have hstop : Text.place t i < String.utf8Len (Text.trimEnd t) ↔ i < (Text.trimEnd t).length := by
    rw [← place_length_trimEnd, Text.place_lt_place_iff (by omega) hlen]
  induction steps generalizing i with
  | zero =>
      have hnot : ¬i < (Text.trimEnd t).length := by omega
      have hzero : (Text.trimEnd t).length - i = 0 := by omega
      rw [followTable?, if_neg (hstop.not.mpr hnot), hzero]
      rfl
  | succ steps ih =>
      by_cases hlt : i < (Text.trimEnd t).length
      · rcases Nat.exists_eq_add_of_lt hlt with ⟨m, hm⟩
        have hsub : (Text.trimEnd t).length - i = m + 1 := by omega
        -- The table and the counts name the same continuations.
        have hfind : (continuations symbols (t.drop i)).find? (fun step =>
            table[Text.place t (i + step.2)]? == some 1) =
              (continuations symbols (t.drop i)).find? fun step =>
                (countsTo symbols (m + 1) (t.drop i))[step.2]? == some 1 := by
          refine List.find?_congr fun step hstep => ?_
          have hle := le_length_of_mem_continuations hstep
          rw [List.length_drop] at hle
          rw [h.getElem?_eq (Nat.zero_le _) (by omega), ← hsub, getElem?_countsTo symbols t _ hi]
        rw [followTable?, if_pos (hstop.mpr hlt), nextSymbols?_place, hsub, follow]
        simp only [Option.bind_eq_bind, Option.bind_some, List.find?_map, Function.comp_def, hfind]
        cases hstep : (continuations symbols (t.drop i)).find? fun step =>
            (countsTo symbols (m + 1) (t.drop i))[step.2]? == some 1 with
        | none => rfl
        | some step =>
            have hmem := List.mem_of_find?_eq_some hstep
            have hpos := pos_of_mem_continuations hmem
            have hle := le_length_of_mem_continuations hmem
            have hcount := List.find?_some hstep
            rw [← hsub, getElem?_countsTo symbols t _ hi] at hcount
            have hwithin : i + step.2 ≤ (Text.trimEnd t).length := by
              by_contra hbeyond
              rw [if_neg hbeyond] at hcount
              contradiction
            rw [List.length_drop] at hle
            have hrest := ih hwithin (by omega) (by
              rw [← place_length_trimEnd, Text.place_lt_place_iff (by omega) hlen])
            have hskip := follow_skip symbols (t.drop i).tail (n := m) (k := step.2 - 1) (by omega)
            have hplace : i + 1 + (step.2 - 1) = i + step.2 := by omega
            have hleft : m - (step.2 - 1) = (Text.trimEnd t).length - (i + step.2) := by omega
            rw [List.tail_drop, List.drop_drop, hplace, hleft] at hskip
            simp only [Option.map_some, hrest, countsTo, List.tail_cons, List.tail_drop, hskip,
              Option.bind_some, Option.pure_def]
      · have hzero : (Text.trimEnd t).length - i = 0 := by omega
        rw [followTable?, if_neg (hstop.not.mpr hlt), hzero]
        rfl

/-- The splits of a text, found with a table. -/
def ofText? (symbols : List Symbol) (text : String) : Option Splits := do
  let t := text.toList
  let stop := String.utf8Len (Text.trimEnd t)
  let table ← table? symbols t
  match ← table[0]? with
  | 0 => return none
  | 1 =>
      match ← followTable? symbols t table stop stop 0 with
      | some w => return one w
      | Option.none => return none
  | _ => return many

/-- No access fails on the way to the splits of a text. -/
theorem ofText?_eq (symbols : List Symbol) (text : String) :
    ofText? symbols text = some (ofText symbols text) := by
  rcases exists_table? symbols text.toList with ⟨table, htable, hholds⟩
  have hfirst := hholds.getElem?_place 0 (Nat.le_refl 0) (Nat.zero_le _)
  rw [Text.place_zero] at hfirst
  have hplaces : (Text.trimEnd text.toList).length - 0 ≤
      String.utf8Len (Text.trimEnd text.toList) :=
    Text.length_le_utf8Len _
  have hfollow := followTable?_place hholds (Nat.zero_le _) hplaces
  rw [Text.place_zero, Nat.sub_zero, List.drop_zero] at hfollow
  change followTable? symbols text.toList table _ _ 0 =
    some (readOff? symbols text.toList (counts symbols text.toList)) at hfollow
  change table[0]? = some ((counts symbols text.toList).headD 0) at hfirst
  simp only [ofText?, htable, hfirst, hfollow, Option.bind_eq_bind, Option.bind_some,
    Option.pure_def]
  unfold ofText
  rcases hhead : (counts symbols text.toList).headD 0 with _ | _ | count
  · simp only [hhead]
  · simp only [hhead]
    cases readOff? symbols text.toList (counts symbols text.toList) with
    | none => rfl
    | some w => rfl
  · simp only [hhead]

end FormalLang.Splits
