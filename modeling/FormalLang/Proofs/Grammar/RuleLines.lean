import FormalLang.Grammar.RuleLine
import FormalLang.Proofs.Text.Lines
import FormalLang.Proofs.Text.Parsers
import FormalLang.Proofs.Text.Trimming
import Mathlib.Data.List.Forall2

/-!
# The parts of rule lines

A rule line is split at its arrow and, behind the arrow, at its bars.  So a line that
is put together from parts without arrow and bar is split into these parts again, and
every rule line has an alternative.  Which lines are rule lines, and what their parts
are, is said without splitting them one by one: by the characters that stand in a line,
and by the blanks that are taken off its pieces.

Main results:

- Theorem `RuleLine.pieces_eq_splitOn`: the pieces of a text are those into which lists
  are split.
- Theorem `RuleLine.parse?_eq_some_iff`: when a line has which parts.
- Theorem `RuleLine.parse?_of_pieces`: the parts of a line that is put together.
- Theorem `RuleLine.alternatives_ne_nil`: there is always an alternative.
- Theorem `RuleLine.parse?_eq_some_iff_isRuleLine`: the parts of a line are its pieces,
  trimmed, and only rule lines have parts.
- Theorem `RuleLine.exists_parse?_iff`: rule lines do have parts.
-/

namespace FormalLang.RuleLine

variable {sep : Char} {line part : String} {parts : RuleLine} {t piece left right : List Char}

/-! ## Pieces -/

theorem pieces_eq_splitOn (sep : Char) (t : List Char) : pieces sep t = t.splitOn sep := by
  induction t with
  | nil => rfl
  | cons c t ih =>
      rw [pieces, ih, List.splitOn_eq_splitOnP, List.splitOn_eq_splitOnP,
        List.splitOnP_cons_eq_if_modifyHead]
      by_cases h : c = sep
      · rw [if_pos h, if_pos (beq_iff_eq.mpr h)]
      · rw [if_neg h, if_neg (beq_iff_eq.not.mpr h)]
        cases hsplit : List.splitOnP (· == sep) t with
        | nil => exact (List.splitOn_ne_nil sep t hsplit).elim
        | cons p ps => rfl

theorem pieces_ne_nil (sep : Char) (t : List Char) : pieces sep t ≠ [] :=
  pieces_eq_splitOn sep t ▸ List.splitOn_ne_nil sep t

theorem pieces_of_not_mem (h : sep ∉ t) : pieces sep t = [t] := by
  rw [pieces_eq_splitOn, List.splitOn_eq_singleton h]

theorem pieces_append_cons (h : sep ∉ piece) (rest : List Char) :
    pieces sep (piece ++ sep :: rest) = piece :: pieces sep rest := by
  rw [pieces_eq_splitOn, pieces_eq_splitOn, List.splitOn_append_cons_self_of_not_mem h]

theorem pieces_eq_singleton_iff : pieces sep t = [piece] ↔ t = piece ∧ sep ∉ t := by
  constructor
  · intro h
    by_cases hmem : sep ∈ t
    · rcases List.eq_append_cons_of_mem hmem with ⟨front, behind, rfl, hfront⟩
      rw [pieces_append_cons hfront, List.cons.injEq] at h
      exact absurd h.2 (pieces_ne_nil sep behind)
    · rw [pieces_of_not_mem hmem, List.cons.injEq] at h
      exact ⟨h.1, hmem⟩
  · intro h
    rcases h with ⟨rfl, hmem⟩
    exact pieces_of_not_mem hmem

/-- A text has two pieces when the separator stands in it once. -/
theorem pieces_eq_pair_iff :
    pieces sep t = [left, right] ↔ t = left ++ sep :: right ∧ sep ∉ left ∧ sep ∉ right := by
  constructor
  · intro h
    have hmem : sep ∈ t := by
      by_contra hnot
      simp [pieces_of_not_mem hnot] at h
    rcases List.eq_append_cons_of_mem hmem with ⟨front, behind, rfl, hfront⟩
    rw [pieces_append_cons hfront, List.cons.injEq, pieces_eq_singleton_iff] at h
    rcases h with ⟨rfl, rfl, hbehind⟩
    exact ⟨rfl, hfront, hbehind⟩
  · intro h
    rcases h with ⟨rfl, hleft, hright⟩
    rw [pieces_append_cons hleft, pieces_of_not_mem hright]

/-- A character stands in a text once when it leaves two pieces. -/
theorem count_eq_one_iff {c : Char} : t.count c = 1 ↔ ∃ left right, pieces c t = [left, right] := by
  simp only [pieces_eq_pair_iff]
  constructor
  · intro h
    have hmem : c ∈ t := List.count_pos_iff.mp (by rw [h]; exact Nat.one_pos)
    rcases List.eq_append_cons_of_mem hmem with ⟨left, right, rfl, hleft⟩
    rw [List.count_append, List.count_cons_self, List.count_eq_zero.mpr hleft] at h
    exact ⟨left, right, rfl, hleft, List.count_eq_zero.mp (by omega)⟩
  · intro h
    rcases h with ⟨left, right, rfl, hleft, hright⟩
    rw [List.count_append, List.count_cons_self, List.count_eq_zero.mpr hleft,
      List.count_eq_zero.mpr hright]

/-- Pieces with a separator between them are found again. -/
theorem pieces_intercalate {ps : List (List Char)} (hsep : ∀ p ∈ ps, sep ∉ p) (hne : ps ≠ []) :
    pieces sep ([sep].intercalate ps) = ps := by
  rw [pieces_eq_splitOn, List.splitOn_intercalate sep hsep hne]

/-! ## Parts -/

/-- Every member of a list has a result. -/
theorem mapM_eq_some_iff {α β : Type} {f : α → Option β} {l : List α} {results : List β} :
    l.mapM f = some results ↔ List.Forall₂ (fun a b => f a = some b) l results := by
  induction l generalizing results with
  | nil => simp [eq_comm]
  | cons a l ih =>
      simp only [List.mapM_cons, Option.bind_eq_bind, Option.bind_eq_some_iff,
        List.forall₂_cons_left_iff, ih]
      constructor
      · intro h
        rcases h with ⟨b, hb, rest, hrest, heq⟩
        cases heq
        exact ⟨b, rest, hb, hrest, rfl⟩
      · intro h
        rcases h with ⟨b, rest, hb, hrest, rfl⟩
        exact ⟨b, hb, rest, hrest, rfl⟩

/-- A line has parts when it has one arrow, no bar before it, and a part at each place. -/
theorem parse?_eq_some_iff :
    parse? line = some parts ↔
      ∃ left right, pieces arrow line.toList = [left, right] ∧ bar ∉ left ∧
        part? left = some parts.lhs ∧
          List.Forall₂ (fun piece part => part? piece = some part) (pieces bar right)
            parts.alternatives := by
  unfold parse?
  constructor
  · intro h
    split at h
    · rename_i left right hpieces
      split at h
      · contradiction
      · rename_i hbar
        simp only [Option.bind_eq_bind, Option.bind_eq_some_iff] at h
        rcases h with ⟨lhs, hlhs, alternatives, halternatives, heq⟩
        cases heq
        exact ⟨left, right, hpieces, hbar, hlhs, mapM_eq_some_iff.mp halternatives⟩
    · contradiction
  · intro h
    rcases h with ⟨left, right, hpieces, hbar, hlhs, halternatives⟩
    rw [hpieces]
    simp only [if_neg hbar, hlhs, mapM_eq_some_iff.mpr halternatives]
    rfl

/-- Every rule line has an alternative. -/
theorem alternatives_ne_nil (h : parse? line = some parts) : parts.alternatives ≠ [] := by
  intro hnil
  rcases parse?_eq_some_iff.mp h with ⟨left, right, -, -, -, halternatives⟩
  rw [hnil] at halternatives
  exact pieces_ne_nil bar right (List.forall₂_nil_right_iff.mp halternatives)

/-- A line that is put together from pieces has the parts that these hold. -/
theorem parse?_of_pieces {rights : List (List Char)}
    (hline : line.toList = left ++ arrow :: [bar].intercalate rights)
    (harrow : ∀ piece ∈ left :: rights, arrow ∉ piece)
    (hbar : ∀ piece ∈ left :: rights, bar ∉ piece)
    (hlhs : part? left = some parts.lhs)
    (halternatives : List.Forall₂ (fun piece part => part? piece = some part) rights
      parts.alternatives) (hne : rights ≠ []) :
    parse? line = some parts := by
  have hright : arrow ∉ [bar].intercalate rights := by
    intro hmem
    rcases Text.mem_intercalate hmem with hmem | ⟨piece, hpiece, hmem⟩
    · exact absurd (List.mem_singleton.mp hmem) (by decide)
    · exact harrow piece (List.mem_cons_of_mem left hpiece) hmem
  have hsides : pieces arrow line.toList = [left, [bar].intercalate rights] :=
    pieces_eq_pair_iff.mpr ⟨hline, harrow left List.mem_cons_self, hright⟩
  have hrights : pieces bar ([bar].intercalate rights) = rights :=
    pieces_intercalate (fun piece hpiece => hbar piece (List.mem_cons_of_mem left hpiece)) hne
  refine parse?_eq_some_iff.mpr ⟨_, _, hsides, hbar left List.mem_cons_self, hlhs, ?_⟩
  rw [hrights]
  exact halternatives

/-! ## Rule lines -/

/-- What stands in front of the first arrow. -/
def leftPiece (t : List Char) : List Char :=
  t.takeWhile (· != arrow)

/-- What stands behind the first arrow, between the bars there. -/
def rightPieces (t : List Char) : List (List Char) :=
  (t.dropWhile (· != arrow)).tail.splitOn bar

/-- A rule line has one arrow, no bar before it, and a character other than a space or a tab in
front of the arrow and in each piece behind it. -/
structure IsRuleLine (t : List Char) : Prop where
  one_arrow : t.count arrow = 1
  no_bar : bar ∉ leftPiece t
  filled : ∀ piece ∈ leftPiece t :: rightPieces t, ∃ c ∈ piece, isSpaceOrTab c = false

instance (t : List Char) : Decidable (IsRuleLine t) :=
  decidable_of_iff
    (t.count arrow = 1 ∧ bar ∉ leftPiece t ∧
      (leftPiece t :: rightPieces t).all (fun piece => piece.any fun c => !isSpaceOrTab c) = true)
    (by
      simp only [List.all_eq_true, List.any_eq_true, Bool.not_eq_true']
      exact ⟨fun h => ⟨h.1, h.2.1, h.2.2⟩, fun h => ⟨h.one_arrow, h.no_bar, h.filled⟩⟩)

/-- The parts of a rule line are its pieces without the blanks at their ends. -/
structure TrimmedFrom (parts : RuleLine) (t : List Char) : Prop where
  lhs : Text.Trims (leftPiece t) parts.lhs.toList
  alternatives :
    List.Forall₂ (fun piece part => Text.Trims piece part.toList) (rightPieces t)
      parts.alternatives

/-- What stands around an arrow that stands in a text once. -/
theorem pieces_of_pair (h : pieces arrow t = [left, right]) :
    leftPiece t = left ∧ rightPieces t = pieces bar right := by
  rcases pieces_eq_pair_iff.mp h with ⟨rfl, hleft, -⟩
  have hother : ∀ c ∈ left, (c != arrow) = true := by
    intro c hc
    simp only [bne_iff_ne]
    rintro rfl
    exact hleft hc
  constructor
  · rw [leftPiece, List.takeWhile_append_of_pos hother]
    simp
  · rw [rightPieces, List.dropWhile_append_of_pos hother, pieces_eq_splitOn]
    simp

theorem part?_eq_some_iff :
    part? piece = some part ↔
      (∃ c ∈ piece, isSpaceOrTab c = false) ∧ Text.Trims piece part.toList := by
  have hdef : part? piece =
      if piece.all isSpaceOrTab then none else some (String.ofList (Text.trim piece)) := rfl
  have hfilled : (∃ c ∈ piece, isSpaceOrTab c = false) ↔ ¬piece.all isSpaceOrTab = true := by
    simp [List.all_eq_true]
  rw [hdef, Text.trims_iff, hfilled]
  by_cases h : piece.all isSpaceOrTab = true
  · simp [h]
  · rw [if_neg h, Option.some.injEq, ← String.toList_inj, String.toList_ofList, and_iff_right h]

/-- Which pieces have which parts. -/
theorem forall₂_part?_iff {ps : List (List Char)} {trimmed : List String} :
    List.Forall₂ (fun piece part => part? piece = some part) ps trimmed ↔
      (∀ piece ∈ ps, ∃ c ∈ piece, isSpaceOrTab c = false) ∧
        List.Forall₂ (fun piece part => Text.Trims piece part.toList) ps trimmed := by
  simp only [part?_eq_some_iff, List.forall₂_and_left]

/-- Which lines have which parts. -/
theorem parse?_eq_some_iff_isRuleLine :
    parse? line = some parts ↔ IsRuleLine line.toList ∧ parts.TrimmedFrom line.toList := by
  rw [parse?_eq_some_iff]
  constructor
  · intro h
    rcases h with ⟨left, right, hsides, hbar, hlhs, halternatives⟩
    rcases pieces_of_pair hsides with ⟨rfl, hrights⟩
    rw [part?_eq_some_iff] at hlhs
    rw [← hrights, forall₂_part?_iff] at halternatives
    exact ⟨⟨count_eq_one_iff.mpr ⟨_, _, hsides⟩, hbar,
      List.forall_mem_cons.mpr ⟨hlhs.1, halternatives.1⟩⟩, hlhs.2, halternatives.2⟩
  · intro h
    rcases h with ⟨hrule, htrimmed⟩
    rcases count_eq_one_iff.mp hrule.one_arrow with ⟨left, right, hsides⟩
    rcases pieces_of_pair hsides with ⟨rfl, hrights⟩
    rcases List.forall_mem_cons.mp hrule.filled with ⟨hleft, hright⟩
    refine ⟨_, right, hsides, hrule.no_bar, part?_eq_some_iff.mpr ⟨hleft, htrimmed.lhs⟩, ?_⟩
    rw [← hrights]
    exact forall₂_part?_iff.mpr ⟨hright, htrimmed.alternatives⟩

/-- A rule line has parts, and nothing else has. -/
theorem exists_parse?_iff :
    (∃ parts, parse? line = some parts) ↔ IsRuleLine line.toList := by
  simp only [parse?_eq_some_iff_isRuleLine, exists_and_left, and_iff_left_iff_imp]
  intro _
  let trimmed : List Char → String := fun piece => String.ofList (Text.trim piece)
  refine ⟨⟨trimmed (leftPiece line.toList), (rightPieces line.toList).map trimmed⟩,
    Text.trims_ofList_trim _, ?_⟩
  rw [List.forall₂_map_right_iff, List.forall₂_same]
  exact fun piece _ => Text.trims_ofList_trim piece

end FormalLang.RuleLine
