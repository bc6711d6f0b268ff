import FormalLang.Split.Basic
import Mathlib.Data.String.Basic
import Mathlib.Tactic.ByContra

/-!
# Slices of texts at bytes

A text is stored as bytes, and what is left of it from a byte on is there only if a
character begins at this byte or the text ends there.  The places of a text are the bytes
at which its characters begin, and the one behind it.  The symbols with which a text goes
on are found with slices; these are taken at places and lead from places to places.

Main results:

- Theorem `Text.isSome_sliceFrom?_iff`: slices are there at the valid positions of a string.
- Theorem `Text.sliceFrom?_place`: what a slice at a place is.
- Theorem `Text.filter_range_utf8Len`: the bytes with a slice are the places.
- Theorem `nextSymbols?_place`: at a place, no slice fails on the way to the next symbols.
-/

namespace FormalLang

namespace Text

open String

variable {s t u : List Char} {i j n : Nat}

/-! ## Slices -/

/-- What is left of a text from a byte on; nothing if the byte is within a character or
too far behind the text. -/
def sliceFrom? : List Char → Nat → Option (List Char)
  | t, 0 => some t
  | [], _ + 1 => none
  | c :: t, n + 1 => if n + 1 < c.utf8Size then none else sliceFrom? t (n + 1 - c.utf8Size)

theorem sliceFrom?_zero (t : List Char) : sliceFrom? t 0 = some t := by
  cases t <;> rfl

theorem sliceFrom?_cons_add (c : Char) (t : List Char) (n : Nat) :
    sliceFrom? (c :: t) (c.utf8Size + n) = sliceFrom? t n := by
  have hpos := c.utf8Size_pos
  rcases Nat.exists_eq_succ_of_ne_zero (by omega : c.utf8Size + n ≠ 0) with ⟨m, hm⟩
  have hn : m.succ - c.utf8Size = n := by omega
  have hnot : ¬m.succ < c.utf8Size := by omega
  rw [hm, sliceFrom?, if_neg hnot, hn]

theorem sliceFrom?_cons_of_lt {c : Char} (hpos : 0 < n) (hlt : n < c.utf8Size) :
    sliceFrom? (c :: t) n = none := by
  rcases Nat.exists_eq_succ_of_ne_zero (by omega : n ≠ 0) with ⟨m, rfl⟩
  rw [sliceFrom?, if_pos hlt]

/-- A slice splits a text at its byte. -/
theorem sliceFrom?_eq_some_iff :
    sliceFrom? t n = some u ↔ ∃ s, t = s ++ u ∧ utf8Len s = n := by
  fun_induction sliceFrom? t n with
  | case1 t =>
      rw [Option.some.injEq]
      constructor
      · intro h
        exact ⟨[], h, rfl⟩
      · intro h
        rcases h with ⟨s, rfl, hs⟩
        rw [utf8Len_eq_zero.mp hs, List.nil_append]
  | case2 n =>
      simp only [reduceCtorEq, false_iff]
      intro h
      rcases h with ⟨s, ht, hs⟩
      rw [(List.append_eq_nil_iff.mp ht.symm).1] at hs
      contradiction
  | case3 c t n hlt =>
      simp only [reduceCtorEq, false_iff]
      intro h
      rcases h with ⟨s, ht, hs⟩
      cases s with
      | nil => contradiction
      | cons d s =>
          rw [List.cons_append, List.cons.injEq] at ht
          rw [utf8Len_cons, ← ht.1] at hs
          omega
  | case4 c t n hlt ih =>
      rw [ih]
      constructor
      · intro h
        rcases h with ⟨s, rfl, hs⟩
        have hle := Nat.le_of_not_lt hlt
        exact ⟨c :: s, rfl, ((Nat.sub_eq_iff_eq_add hle).mp hs.symm).symm⟩
      · intro h
        rcases h with ⟨s, ht, hs⟩
        cases s with
        | nil => contradiction
        | cons d s =>
            rw [List.cons_append, List.cons.injEq] at ht
            rw [utf8Len_cons, ← ht.1] at hs
            exact ⟨s, ht.2, by omega⟩

/-- Slices are there at the valid positions of a string. -/
theorem isSome_sliceFrom?_iff :
    (sliceFrom? t n).isSome = true ↔ (Pos.Raw.mk n).IsValid (String.ofList t) := by
  rw [Option.isSome_iff_exists, Pos.Raw.isValid_iff_exists_append]
  simp only [sliceFrom?_eq_some_iff]
  constructor
  · intro h
    rcases h with ⟨u, s, rfl, rfl⟩
    refine ⟨String.ofList s, String.ofList u, String.ofList_append, ?_⟩
    rw [Pos.Raw.ext_iff, byteIdx_rawEndPos, utf8ByteSize_ofList]
  · intro h
    rcases h with ⟨s, u, heq, hn⟩
    rw [Pos.Raw.ext_iff, byteIdx_rawEndPos] at hn
    refine ⟨u.toList, s.toList, ?_, ?_⟩
    · rw [← String.toList_append, ← heq, String.toList_ofList]
    · rw [← utf8ByteSize_ofList, String.ofList_toList]
      exact hn.symm

/-- There is no slice within a character of two bytes, but one behind it. -/
example : sliceFrom? ['é', 'a'] 1 = none ∧ sliceFrom? ['é', 'a'] 2 = some ['a'] := by
  decide

/-- A character takes up a byte at least. -/
theorem length_le_utf8Len (t : List Char) : t.length ≤ utf8Len t := by
  induction t with
  | nil => exact Nat.le_refl 0
  | cons c t ih =>
      have hpos := c.utf8Size_pos
      rw [List.length_cons, utf8Len_cons]
      omega

/-! ## Places -/

/-- The byte at which a character of a text begins, or the one behind the text. -/
def place (t : List Char) (i : Nat) : Nat :=
  utf8Len (t.take i)

@[simp]
theorem place_zero (t : List Char) : place t 0 = 0 :=
  rfl

theorem place_length (t : List Char) : place t t.length = utf8Len t := by
  rw [place, List.take_length]

/-- Places are put together. -/
theorem place_add (t : List Char) (i j : Nat) :
    place t (i + j) = place t i + place (t.drop i) j := by
  rw [place, List.take_add, utf8Len_append]
  rfl

/-- The places of a text are those of its front, as far as this goes. -/
theorem place_append_of_le (h : i ≤ s.length) : place (s ++ u) i = place s i := by
  rw [place, place, List.take_append_of_le_length h]

theorem place_lt_place (hij : i < j) (hj : j ≤ t.length) : place t i < place t j := by
  rcases Nat.exists_eq_add_of_lt hij with ⟨k, rfl⟩
  rw [Nat.add_assoc, place_add]
  have hne : (t.drop i).take (k + 1) ≠ [] := by
    rw [ne_eq, List.take_eq_nil_iff, List.drop_eq_nil_iff]
    omega
  have hpos : utf8Len ((t.drop i).take (k + 1)) ≠ 0 := by
    rw [ne_eq, utf8Len_eq_zero]
    exact hne
  change place t i < place t i + utf8Len ((t.drop i).take (k + 1))
  omega

theorem place_lt_place_iff (hi : i ≤ t.length) (hj : j ≤ t.length) :
    place t i < place t j ↔ i < j := by
  constructor
  · intro h
    by_contra hle
    rcases Nat.eq_or_lt_of_le (Nat.le_of_not_lt hle) with rfl | hlt
    · exact Nat.lt_irrefl _ h
    · exact Nat.lt_asymm h (place_lt_place hlt hi)
  · exact fun h => place_lt_place h hj

/-- Different places are different bytes. -/
theorem place_inj (hi : i ≤ t.length) (hj : j ≤ t.length) : place t i = place t j ↔ i = j := by
  constructor
  · intro h
    rcases Nat.lt_trichotomy i j with hij | hij | hij
    · exact absurd h (Nat.ne_of_lt (place_lt_place hij hj))
    · exact hij
    · exact absurd h.symm (Nat.ne_of_lt (place_lt_place hij hi))
  · rintro rfl
    rfl

/-- A slice at a place is the text from there on. -/
theorem sliceFrom?_place (t : List Char) (i : Nat) : sliceFrom? t (place t i) = some (t.drop i) :=
  sliceFrom?_eq_some_iff.mpr ⟨t.take i, (List.take_append_drop i t).symm, rfl⟩

/-- The bytes of the front of a text with a slice are its places. -/
theorem filter_range_utf8Len (s u : List Char) :
    ((List.range (utf8Len s)).filter fun n => (sliceFrom? (s ++ u) n).isSome) =
      (List.range s.length).map (place s) := by
  induction s with
  | nil => rfl
  | cons c s ih =>
      have hpos := c.utf8Size_pos
      have hfirst : ((List.range c.utf8Size).filter fun n =>
          (sliceFrom? (c :: (s ++ u)) n).isSome) = [0] := by
        rcases Nat.exists_eq_succ_of_ne_zero (Nat.ne_of_gt hpos) with ⟨k, hk⟩
        rw [hk, List.range_succ_eq_map, List.filter_cons_of_pos (by simp [sliceFrom?_zero]),
          List.filter_eq_nil_iff.mpr]
        intro n hn
        rcases List.mem_map.mp hn with ⟨m, hm, rfl⟩
        rw [List.mem_range] at hm
        rw [sliceFrom?_cons_of_lt (Nat.succ_pos m) (by omega)]
        simp
      have hrest : ((List.range (utf8Len s)).map (c.utf8Size + ·)).filter
          (fun n => (sliceFrom? (c :: (s ++ u)) n).isSome) =
            ((List.range s.length).map (place s)).map (c.utf8Size + ·) := by
        rw [List.filter_map, ← ih]
        simp only [Function.comp_def, sliceFrom?_cons_add]
      rw [utf8Len_cons, Nat.add_comm, List.range_add, List.filter_append, List.cons_append,
        hfirst, hrest, List.length_cons, List.range_succ_eq_map, List.map_cons, List.map_map,
        List.map_map, place_zero, List.singleton_append]
      refine congrArg (0 :: ·) (List.map_congr_left fun i _ => ?_)
      change c.utf8Size + utf8Len (s.take i) = utf8Len ((c :: s).take (i + 1))
      rw [List.take_succ_cons, utf8Len_cons, Nat.add_comm]

end Text

/-! ## The next symbols -/

variable {symbols : List Symbol} {t : List Char}

/-- The difference of two lengths; nothing if the second one is greater. -/
def difference? (m n : Nat) : Option Nat :=
  if n ≤ m then some (m - n) else none

/-- The symbols with which a text goes on from a byte on, behind blanks, each with the byte
behind it. -/
def nextSymbols? (symbols : List Symbol) (t : List Char) (offset : Nat) :
    Option (List (Symbol × Nat)) := do
  let rest ← Text.sliceFrom? t offset
  let blanks ← difference? (String.utf8Len rest) (String.utf8Len (Text.skipBlanks rest))
  let start := offset + blanks
  let here ← Text.sliceFrom? t start
  return symbols.filterMap fun a =>
    if a.chars.isPrefixOf here then some (a, start + String.utf8Len a.chars) else none

/-- The blanks in front of a text take up what is missing behind them. -/
theorem difference?_skipBlanks (t : List Char) :
    difference? (String.utf8Len t) (String.utf8Len (Text.skipBlanks t)) =
      some (Text.place t (t.takeWhile Text.isBlank).length) := by
  have hsplit := List.take_append_drop (t.takeWhile Text.isBlank).length t
  rw [drop_takeWhile_length] at hsplit
  have hlen := congrArg String.utf8Len hsplit
  rw [String.utf8Len_append] at hlen
  rw [← hlen, difference?, if_pos (Nat.le_add_left _ _), Nat.add_sub_cancel]
  rfl

/-- From a place, a text goes on with its continuations, to the places where they lead. -/
theorem nextSymbols?_place (symbols : List Symbol) (t : List Char) (i : Nat) :
    nextSymbols? symbols t (Text.place t i) =
      some ((continuations symbols (t.drop i)).map fun step =>
        (step.1, Text.place t (i + step.2))) := by
  have hstart : Text.place t i + Text.place (t.drop i) ((t.drop i).takeWhile Text.isBlank).length =
      Text.place t (i + ((t.drop i).takeWhile Text.isBlank).length) :=
    (Text.place_add t i _).symm
  have hhere : t.drop (i + ((t.drop i).takeWhile Text.isBlank).length) =
      Text.skipBlanks (t.drop i) := by
    rw [← List.drop_drop, drop_takeWhile_length]
  rw [nextSymbols?, Text.sliceFrom?_place]
  simp only [Option.bind_eq_bind, Option.bind_some, difference?_skipBlanks, hstart,
    Text.sliceFrom?_place, hhere, Option.pure_def, Option.some.injEq]
  rw [continuations, List.map_filterMap]
  refine List.filterMap_congr fun a _ => ?_
  by_cases hprefix : a.chars.isPrefixOf (Text.skipBlanks (t.drop i)) = true
  · rw [if_pos hprefix, if_pos hprefix, Option.map_some, ← Nat.add_assoc, Text.place_add t _
      a.chars.length, hhere]
    rcases List.isPrefixOf_iff_prefix.mp hprefix with ⟨rest, hrest⟩
    rw [← hrest, Text.place_append_of_le (Nat.le_refl _), Text.place_length]
  · rw [if_neg hprefix, if_neg hprefix, Option.map_none]

end FormalLang
