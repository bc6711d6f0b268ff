import FormalLang.Grammar.Reader
import FormalLang.Proofs.Grammar.RuleLines

/-!
# Parsing rule lines

A rule line is parsed by combinators: a side is a run of characters without arrow and bar, in
spaces and tabs; a production is a side, the arrow, and sides with bars between them; and a
production has to take up the whole line.  Two notions of white space meet here, since a side
is trimmed of blanks of all kinds once it has been found.

Main results:

- Theorem `RuleLine.side_append`: what a side takes.
- Theorem `RuleLine.separated_side_eq_some_iff`: which alternatives take up a whole text.
- Theorem `RuleLine.split_eq`: parsing a line and reading it piece by piece agree.
- Theorem `RuleLine.split_accepts_ruleLines`: rule lines, and no other lines, are split, and
  into what.
-/

namespace FormalLang.RuleLine

/-! ## The parser -/

/-- Whether a character ends a side. -/
def endsSide (c : Char) : Bool :=
  c == bar || c == arrow

/-- A side of a rule. -/
def side (K : Combinators) : Parser String :=
  (K.delimited K.spaces (K.takeTill endsSide) K.spaces).map fun piece =>
    String.ofList (Text.trim piece)

/-- A left-hand side and its alternatives. -/
def production (K : Combinators) : Parser (String × List String) :=
  K.separatedPair (side K) (K.literal [arrow]) (K.separated (side K) (K.literal [bar]))

/-- Split a line into the parts of a rule line. -/
def split (K : Combinators) (line : String) : Except GrammarError RuleLine :=
  match K.parse (production K) line.toList with
  | some (lhs, alternatives) => .ok ⟨lhs, alternatives⟩
  | none => .error (.invalidLine line)

variable {K : Combinators} {piece rest t : List Char} {part : String} {parts : List String}

/-! ## Sides -/

/-- A text behind a side: it is empty or begins with a character that ends sides. -/
def EndsSide (rest : List Char) : Prop :=
  ∀ c ∈ rest.head?, endsSide c = true

theorem EndsSide.takeWhile (h : EndsSide rest) : rest.takeWhile (fun c => !endsSide c) = [] := by
  cases rest with
  | nil => rfl
  | cons c rest => simp [h c rfl]

theorem EndsSide.dropWhile (h : EndsSide rest) : rest.dropWhile (fun c => !endsSide c) = rest := by
  cases rest with
  | nil => rfl
  | cons c rest => simp [h c rfl]

/-- No space or tab ends a side. -/
theorem EndsSide.dropWhile_space (h : EndsSide rest) : rest.dropWhile isSpaceOrTab = rest := by
  cases rest with
  | nil => rfl
  | cons c rest =>
      have hc : isSpaceOrTab c = false := by
        have hends := h c rfl
        simp only [endsSide, Bool.or_eq_true, beq_iff_eq] at hends
        rcases hends with rfl | rfl <;> decide
      simp [hc]

theorem isBlank_of_isSpaceOrTab {c : Char} (h : isSpaceOrTab c = true) : Text.isBlank c = true := by
  simp only [isSpaceOrTab, Bool.or_eq_true, beq_iff_eq] at h
  rcases h with rfl | rfl <;> decide

theorem part?_eq (piece : List Char) :
    part? piece =
      if piece.dropWhile isSpaceOrTab = [] then none
      else some (String.ofList (Text.trim (piece.dropWhile isSpaceOrTab))) := by
  have hspaces : Text.AllBlank (piece.takeWhile isSpaceOrTab) := fun c hc =>
    isBlank_of_isSpaceOrTab (List.mem_takeWhile_imp hc)
  have htrim : Text.trim (piece.dropWhile isSpaceOrTab) = Text.trim piece := by
    conv_rhs => rw [← List.takeWhile_append_dropWhile (p := isSpaceOrTab) (l := piece), Text.trim,
      Text.skipBlanks_append_of_blank hspaces]
    rfl
  have hall : (piece.all fun c => c == ' ' || c == '\t') = true ↔
      piece.dropWhile isSpaceOrTab = [] := by
    rw [List.dropWhile_eq_nil_iff, List.all_eq_true]
    rfl
  rw [part?, htrim]
  by_cases h : piece.dropWhile isSpaceOrTab = []
  · rw [if_pos h, if_pos (hall.mpr h)]
  · rw [if_neg h, if_neg (hall.not.mpr h)]

/-- A side takes everything up to the character that ends it, and gives the part in it. -/
theorem side_append (hK : K.Lawful) (hpiece : ∀ c ∈ piece, endsSide c = false)
    (hrest : EndsSide rest) :
    side K (piece ++ rest) = (part? piece).map fun part => (part, rest) := by
  have hfront : (piece ++ rest).dropWhile isSpaceOrTab =
      piece.dropWhile isSpaceOrTab ++ rest := by
    rw [List.dropWhile_append]
    split
    · rename_i hnil
      rw [List.isEmpty_iff.mp hnil, hrest.dropWhile_space, List.nil_append]
    · rfl
  have hinner : ∀ c ∈ piece.dropWhile isSpaceOrTab, (!endsSide c) = true := by
    intro c hc
    rw [hpiece c ((List.dropWhile_suffix _).subset hc)]
    rfl
  have htake : (piece.dropWhile isSpaceOrTab ++ rest).takeWhile (fun c => !endsSide c) =
      piece.dropWhile isSpaceOrTab := by
    rw [List.takeWhile_append_of_pos hinner, hrest.takeWhile, List.append_nil]
  have hdrop : (piece.dropWhile isSpaceOrTab ++ rest).dropWhile (fun c => !endsSide c) = rest := by
    rw [List.dropWhile_append_of_pos hinner, hrest.dropWhile]
  simp only [side, Parser.map, hK.delimited_eq, hK.spaces_eq, hK.takeTill_eq, hfront, htake, hdrop,
    Option.bind_eq_bind, Option.bind_some, part?_eq]
  by_cases hnil : piece.dropWhile isSpaceOrTab = []
  · simp [hnil]
  · simp [hnil, hrest.dropWhile_space]

/-- Every text begins with a side, or with what could be one. -/
theorem exists_side (t : List Char) :
    ∃ piece rest, t = piece ++ rest ∧ (∀ c ∈ piece, endsSide c = false) ∧ EndsSide rest := by
  refine ⟨t.takeWhile fun c => !endsSide c, t.dropWhile fun c => !endsSide c,
    List.takeWhile_append_dropWhile.symm, fun c hc => ?_, fun c hc => ?_⟩
  · have hnot := List.mem_takeWhile_imp hc
    simpa using hnot
  · have hhead := List.head?_dropWhile_not (fun c => !endsSide c) t
    rw [Option.mem_def.mp hc] at hhead
    simpa using hhead

theorem side_consumes (hK : K.Lawful) : (side K).Consumes := by
  intro t part rest h
  rcases exists_side t with ⟨piece, behind, rfl, hpiece, hbehind⟩
  rw [side_append hK hpiece hbehind, Option.map_eq_some_iff] at h
  rcases h with ⟨part, hpart, heq⟩
  cases heq
  cases piece with
  | nil => simp [part?] at hpart
  | cons c piece =>
      rw [List.length_append, List.length_cons]
      omega

/-! ## Marks -/

/-- A mark is taken where it stands in front of a text. -/
theorem literal_singleton_eq (hK : K.Lawful) (c : Char) (t : List Char) :
    K.literal [c] t = if t.head? = some c then some ([c], t.tail) else none := by
  rw [hK.literal_eq]
  cases t with
  | nil => rfl
  | cons d t =>
      by_cases h : c = d
      · simp [h]
      · have h' : d ≠ c := fun heq => h heq.symm
        simp [h, h']

theorem literal_singleton_consumes (hK : K.Lawful) (c : Char) : (K.literal [c]).Consumes := by
  intro t l rest h
  rw [literal_singleton_eq hK] at h
  cases t with
  | nil => simp at h
  | cons d t =>
      simp only [Option.ite_none_right_eq_some, Option.some.injEq, Prod.mk.injEq] at h
      rw [← h.2.2]
      exact Nat.lt_succ_self _

/-! ## Alternatives -/

/-- A side without a mark is split off by a bar and by an arrow only. -/
theorem not_mem_of_side (hpiece : ∀ c ∈ piece, endsSide c = false) :
    bar ∉ piece ∧ arrow ∉ piece := by
  constructor
  · exact fun hmem => absurd (hpiece bar hmem) (by decide)
  · exact fun hmem => absurd (hpiece arrow hmem) (by decide)

section Alternatives

variable (hK : K.Lawful) (hpiece : ∀ c ∈ piece, endsSide c = false)

include hK hpiece

/-- The last alternative takes the rest of a text. -/
theorem separated_side_last :
    K.separated (side K) (K.literal [bar]) piece =
      (part? piece).map fun part => ([part], []) := by
  have hend : EndsSide [] := by simp [EndsSide]
  have hside := side_append hK hpiece hend
  rw [List.append_nil] at hside
  rw [hK.separated_eq _ _ _ (side_consumes hK) (literal_singleton_consumes hK bar), hside]
  cases part? piece with
  | none => rfl
  | some part => simp [literal_singleton_eq hK]

/-- Behind a bar the alternatives go on, unless there is none; then the bar is left over. -/
theorem separated_side_bar (rest : List Char) :
    K.separated (side K) (K.literal [bar]) (piece ++ bar :: rest) = do
      let part ← part? piece
      match K.separated (side K) (K.literal [bar]) rest with
      | some (parts, rest) => return (part :: parts, rest)
      | none => return ([part], bar :: rest) := by
  have hbar : EndsSide (bar :: rest) := by simp [EndsSide, endsSide]
  rw [hK.separated_eq _ _ _ (side_consumes hK) (literal_singleton_consumes hK bar),
    side_append hK hpiece hbar]
  cases part? piece with
  | none => rfl
  | some part =>
      simp only [literal_singleton_eq hK, List.head?_cons, List.tail_cons, if_true,
        Option.map_some, Option.bind_eq_bind, Option.bind_some]
      cases K.separated (side K) (K.literal [bar]) rest with
      | none => rfl
      | some others => rfl

/-- Alternatives with a bar take up a whole text when those behind the bar do. -/
theorem separated_side_bar_eq_some_iff (rest : List Char) :
    K.separated (side K) (K.literal [bar]) (piece ++ bar :: rest) = some (parts, []) ↔
      ∃ part, part? piece = some part ∧
        ∃ others, K.separated (side K) (K.literal [bar]) rest = some (others, []) ∧
          part :: others = parts := by
  rw [separated_side_bar hK hpiece, Option.bind_eq_bind, Option.bind_eq_some_iff]
  refine exists_congr fun part => and_congr_right fun _ => ?_
  cases hothers : K.separated (side K) (K.literal [bar]) rest with
  | none => simp
  | some found =>
      rcases found with ⟨others, behind⟩
      simp [and_comm]

/-- An arrow ends the alternatives, and is left over. -/
theorem separated_side_arrow (rest : List Char) :
    K.separated (side K) (K.literal [bar]) (piece ++ arrow :: rest) =
      (part? piece).map fun part => ([part], arrow :: rest) := by
  have harrow : EndsSide (arrow :: rest) := by simp [EndsSide, endsSide]
  have hne : arrow ≠ bar := by decide
  rw [hK.separated_eq _ _ _ (side_consumes hK) (literal_singleton_consumes hK bar),
    side_append hK hpiece harrow]
  cases part? piece with
  | none => rfl
  | some part => simp [literal_singleton_eq hK, hne]

end Alternatives

/-- Alternatives take up a whole text when there is no arrow in it and a part in each of its
pieces. -/
theorem separated_side_eq_some_iff (hK : K.Lawful) :
    K.separated (side K) (K.literal [bar]) t = some (parts, []) ↔
      arrow ∉ t ∧ (pieces bar t).mapM part? = some parts := by
  induction hlen : t.length using Nat.strongRecOn generalizing t parts with
  | ind n ih =>
      rcases exists_side t with ⟨piece, rest, rfl, hpiece, hrest⟩
      rcases not_mem_of_side hpiece with ⟨hbar, harrow⟩
      cases rest with
      | nil =>
          rw [List.append_nil, separated_side_last hK hpiece, pieces_of_not_mem hbar]
          cases hpart : part? piece with
          | none => simp [hpart]
          | some part => simp [hpart, harrow]
      | cons c rest =>
          have hc : c = bar ∨ c = arrow := by
            have hends := hrest c rfl
            simpa [endsSide] using hends
          rcases hc with rfl | rfl
          · have hshorter : rest.length < n := by
              rw [← hlen, List.length_append, List.length_cons]
              omega
            have hmem : arrow ∈ piece ++ bar :: rest ↔ arrow ∈ rest := by
              have hne : arrow ≠ bar := by decide
              simp [harrow, hne]
            have hrec := fun others => @ih rest.length hshorter rest others rfl
            rw [separated_side_bar_eq_some_iff hK hpiece, pieces_append_cons hbar, hmem,
              List.mapM_cons]
            simp only [hrec, Option.bind_eq_bind, Option.bind_eq_some_iff, Option.pure_def,
              Option.some.injEq]
            constructor
            · intro h
              rcases h with ⟨part, hpart, others, ⟨hnot, hothers⟩, hparts⟩
              exact ⟨hnot, part, hpart, others, hothers, hparts⟩
            · intro h
              rcases h with ⟨hnot, part, hpart, others, hothers, hparts⟩
              exact ⟨part, hpart, others, ⟨hnot, hothers⟩, hparts⟩
          · rw [separated_side_arrow hK hpiece]
            simp

/-! ## Productions -/

/-- A production takes up a whole text when a side, the arrow and alternatives do. -/
theorem production_eq_some_iff (hK : K.Lawful) :
    production K t = some ((part, parts), []) ↔
      ∃ left right, t = left ++ arrow :: right ∧ (∀ c ∈ left, endsSide c = false) ∧
        part? left = some part ∧
          K.separated (side K) (K.literal [bar]) right = some (parts, []) := by
  constructor
  · intro h
    rcases exists_side t with ⟨piece, rest, rfl, hpiece, hrest⟩
    rw [production, hK.separatedPair_eq, side_append hK hpiece hrest] at h
    simp only [Option.bind_eq_bind, Option.bind_eq_some_iff, Option.map_eq_some_iff] at h
    rcases h with ⟨_, ⟨lhs, hlhs, rfl⟩, ⟨mark, behind⟩, hmark, ⟨alternatives, left⟩, halternatives,
      heq⟩
    cases heq
    rw [literal_singleton_eq hK, Option.ite_none_right_eq_some, Option.some.injEq] at hmark
    rcases hmark with ⟨hhead, heq⟩
    cases heq
    refine ⟨piece, rest.tail, ?_, hpiece, hlhs, halternatives⟩
    rw [List.cons_head?_tail hhead]
  · intro h
    rcases h with ⟨left, right, rfl, hleft, hpart, halternatives⟩
    have harrow : EndsSide (arrow :: right) := by simp [EndsSide, endsSide]
    rw [production, hK.separatedPair_eq, side_append hK hleft harrow, hpart]
    simp [literal_singleton_eq hK, halternatives]

/-- A line is parsed as it is read piece by piece. -/
theorem parse_production (hK : K.Lawful) (line : String) :
    K.parse (production K) line.toList =
      (parse? line).map fun parts => (parts.lhs, parts.alternatives) := by
  have hsides : ∀ c, endsSide c = false ↔ c ≠ bar ∧ c ≠ arrow := by
    intro c
    simp [endsSide]
  ext ⟨lhs, alternatives⟩
  rw [Option.map_eq_some_iff, hK.parse_eq_some_iff, production_eq_some_iff hK]
  constructor
  · intro h
    rcases h with ⟨left, right, hline, hleft, hpart, halternatives⟩
    rcases not_mem_of_side hleft with ⟨hbar, harrow⟩
    rw [separated_side_eq_some_iff hK, mapM_eq_some_iff] at halternatives
    refine ⟨⟨lhs, alternatives⟩, parse?_eq_some_iff.mpr ?_, rfl⟩
    exact ⟨left, right, pieces_eq_pair_iff.mpr ⟨hline, harrow, halternatives.1⟩, hbar, hpart,
      halternatives.2⟩
  · intro h
    rcases h with ⟨parts, hparts, heq⟩
    cases heq
    rcases parse?_eq_some_iff.mp hparts with ⟨left, right, hpieces, hbar, hpart, halternatives⟩
    rcases pieces_eq_pair_iff.mp hpieces with ⟨hline, harrow, hright⟩
    refine ⟨left, right, hline, fun c hc => ?_, hpart, ?_⟩
    · rw [hsides]
      exact ⟨fun heq => hbar (heq ▸ hc), fun heq => harrow (heq ▸ hc)⟩
    · exact (separated_side_eq_some_iff hK).mpr ⟨hright, mapM_eq_some_iff.mpr halternatives⟩

/-- So both split a line into the same parts. -/
theorem split_eq (hK : K.Lawful) (line : String) :
    split K line =
      match parse? line with
      | some parts => .ok parts
      | none => .error (.invalidLine line) := by
  rw [split, parse_production hK]
  cases parse? line with
  | none => rfl
  | some parts => rfl

/-! ## Rule lines -/

/-- Rule lines are split into their trimmed pieces.  All other lines are refused, and the line
is told.  This is how lines are read. -/
theorem split_accepts_ruleLines (hK : K.Lawful) (line : String) :
    (IsRuleLine line.toList →
      ∃ parts, split K line = .ok parts ∧ parts.TrimmedFrom line.toList) ∧
    (¬IsRuleLine line.toList → split K line = .error (.invalidLine line)) ∧
    ∀ D : Declarations, D.readLine line = do
      let parts ← split K line
      let lhs ← D.readSide parts.lhs
      let alternatives ← parts.alternatives.mapM D.readSide
      return (lhs, alternatives) := by
  rw [split_eq hK]
  refine ⟨fun hrule => ?_, fun hnot => ?_, fun D => ?_⟩
  · rcases exists_parse?_iff.mpr hrule with ⟨parts, hparts⟩
    rw [hparts]
    exact ⟨parts, rfl, (parse?_eq_some_iff_isRuleLine.mp hparts).2⟩
  · cases hparts : parse? line with
    | none => rfl
    | some parts => exact absurd (exists_parse?_iff.mp ⟨parts, hparts⟩) hnot
  · unfold Declarations.readLine
    cases parse? line with
    | none => rfl
    | some parts => rfl

/-- A line with blanks of several kinds around its parts. -/
def spacedLine : String :=
  "A\t→ tA |\u00a0t \u3000"

/-- A line whose last alternative is missing. -/
def unfinishedLine : String :=
  "A → tA | "

theorem spacedLine_split :
    Combinators.plain.Lawful ∧ IsRuleLine spacedLine.toList ∧
      (∃ parts, split .plain spacedLine = .ok parts ∧ parts.TrimmedFrom spacedLine.toList) ∧
        ¬IsRuleLine unfinishedLine.toList ∧
          split .plain unfinishedLine = .error (.invalidLine unfinishedLine) := by
  have hspaced : IsRuleLine spacedLine.toList := by decide
  have hunfinished : ¬IsRuleLine unfinishedLine.toList := by decide
  exact ⟨Combinators.plain_lawful, hspaced,
    (split_accepts_ruleLines Combinators.plain_lawful spacedLine).1 hspaced, hunfinished,
    (split_accepts_ruleLines Combinators.plain_lawful unfinishedLine).2.1 hunfinished⟩

end FormalLang.RuleLine
