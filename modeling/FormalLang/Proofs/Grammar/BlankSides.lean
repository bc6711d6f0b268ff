import FormalLang.Proofs.Grammar.Reordering
import FormalLang.Proofs.Grammar.RuleParsing

/-!
# Blank sides of rule lines

Two notions of white space meet in a rule line.  A side of nothing but spaces and tabs is no
side, and the line is refused.  A side of other white space is a side with an empty text, and
an empty text splits into the empty word.  So such an alternative is read as if `ε` stood
there, while such a left-hand side is refused later, for lack of a non-terminal.

Main results:

- Theorem `Declarations.sideStandsFor_nil_iff`: which sides stand for the empty word.
- Theorem `Grammar.read_eq_invalidLine`: a line that is no rule line is refused.
- Theorem `Grammar.hasRule_nil_iff`: which alternatives are read as the empty word.
- Theorem `Grammar.read_blank_sides`: what becomes of blank sides.
- Theorem `Grammar.lineBreak_read`: a blank alternative that is not refused.
-/

namespace FormalLang

open RuleLine

/-! ## Blank texts -/

theorem not_allBlank_emptyWordText : ¬Text.AllBlank emptyWordText.toList := by
  decide

namespace Declarations

variable {D : Declarations} {side line : String}

/-- The empty word is meant by `ε`, and by blank texts. -/
theorem sideStandsFor_nil_iff :
    D.SideStandsFor side [] ↔ side = emptyWordText ∨ Text.AllBlank side.toList := by
  constructor
  · intro h
    generalize hs : ([] : SententialForm) = s at h
    cases h with
    | empty => exact Or.inl rfl
    | word _ hsplits =>
        have hw := List.map_eq_nil_iff.mp hs.symm
        exact Or.inr (isSplit_nil_iff.mp ((hsplits []).mpr hw.symm).isSplit)
  · intro h
    rcases h with rfl | hblank
    · exact .empty
    · refine .word (w := []) (fun heq => not_allBlank_emptyWordText (heq ▸ hblank)) fun w => ?_
      constructor
      · exact fun hsplit => (isSplit_blank_iff hblank).mp hsplit.isSplit
      · rintro rfl
        exact ⟨List.forall_mem_nil _, isSplit_nil_iff.mpr hblank⟩

/-- Told by the piece of the line from which the side is taken. -/
theorem sideStandsFor_nil_iff_piece {piece : List Char} (h : Text.Trims piece side.toList) :
    D.SideStandsFor side [] ↔
      Text.Trims piece emptyWordText.toList ∨ Text.AllBlank piece := by
  rw [sideStandsFor_nil_iff, h.allBlank_iff, Text.trims_iff, h.trim_eq, String.toList_inj]

/-- The left-hand side of a line that stands for rules of a grammar is not blank. -/
theorem LineStandsFor.left_not_blank {form : SententialForm × List SententialForm}
    (h : D.LineStandsFor line form) (hlhs : form.1.any GrammarSymbol.isNonTerminal = true) :
    ¬Text.AllBlank (leftPiece line.toList) := by
  intro hblank
  rcases h with ⟨-, parts, htrimmed, hside, -⟩
  have hnil : form.1 = [] :=
    hside.eq ((sideStandsFor_nil_iff_piece htrimmed.lhs).mpr (Or.inr hblank))
  rw [hnil] at hlhs
  contradiction

end Declarations

namespace RuleLine

/-- A piece of spaces and tabs is no side. -/
theorem not_isRuleLine_of_empty_piece {t piece : List Char}
    (hmem : piece ∈ leftPiece t :: rightPieces t) (hspaces : ∀ c ∈ piece, isSpaceOrTab c = true) :
    ¬IsRuleLine t := by
  intro h
  rcases h.filled piece hmem with ⟨c, hc, hother⟩
  rw [hspaces c hc] at hother
  contradiction

/-- The pairs of a line, told by the pieces of the line. -/
theorem givePair_iff_pieces {lines : List String} {lhs rhs : String} :
    GivePair lines lhs rhs ↔
      ∃ line ∈ lines, IsRuleLine line.toList ∧ Text.Trims (leftPiece line.toList) lhs.toList ∧
        ∃ piece ∈ rightPieces line.toList, Text.Trims piece rhs.toList := by
  refine exists_congr fun line => and_congr_right fun _ => ?_
  constructor
  · intro h
    rcases h with ⟨parts, hparts, rfl, hrhs⟩
    rcases parse?_eq_some_iff_isRuleLine.mp hparts with ⟨hrule, htrimmed⟩
    rcases exists_mem_of_forall₂ htrimmed.alternatives hrhs with ⟨piece, hpiece, htrims⟩
    exact ⟨hrule, htrimmed.lhs, piece, hpiece, htrims⟩
  · intro h
    rcases h with ⟨hrule, hlhs, piece, hpiece, hrhs⟩
    rcases exists_parse?_iff.mpr hrule with ⟨parts, hparts⟩
    have htrimmed := (parse?_eq_some_iff_isRuleLine.mp hparts).2
    rcases exists_mem_of_forall₂ htrimmed.alternatives.flip hpiece with ⟨part, hpart, htrims⟩
    exact ⟨parts, hparts, htrimmed.lhs.string_eq hlhs, htrims.string_eq hrhs ▸ hpart⟩

end RuleLine

namespace Grammar

variable {nonTerminals terminals lines : List String} {start : String} {g : Grammar}
  {lhs : SententialForm}

/-- The first line that stands for no rules is refused when it is no rule line. -/
theorem read_eq_invalidLine {front behind : List String} {line : String}
    (hnames : "" ∉ nonTerminals ++ terminals ++ [start])
    (hfront : ∀ l ∈ front, ∃ form,
      (Declarations.ofNames nonTerminals terminals).LineStandsFor l form)
    (hline : ¬IsRuleLine line.toList) :
    read nonTerminals terminals start (front ++ line :: behind) = .error (.invalidLine line) := by
  rw [enforces_read, readChecks, List.flatMap_append, List.flatMap_cons, Declarations.lineChecks]
  simp only [List.cons_append, List.append_assoc] at hnames ⊢
  rw [firstFault_cons_of_passes fun e he => hnames he.1, firstFault_append_iff]
  refine Or.inr ⟨?_, .here ⟨hline, rfl⟩⟩
  rw [List.forall_mem_flatMap]
  exact fun l hl => Declarations.lineChecks_pass_iff.mpr (hfront l hl)

/-- The lines of a grammar that was read are rule lines, and their left-hand sides are not
blank. -/
theorem isRuleLine_of_read {line : String} (h : read nonTerminals terminals start lines = .ok g)
    (hline : line ∈ lines) :
    IsRuleLine line.toList ∧ ¬Text.AllBlank (leftPiece line.toList) := by
  rcases (exists_read_iff.mp ⟨g, h⟩).2.2.2 line hline with ⟨form, hform, hlhs⟩
  exact ⟨hform.1, hform.left_not_blank hlhs⟩

/-- Which left-hand sides have the empty word as an alternative: on one of their lines, `ε`
stands as an alternative, or nothing but blanks. -/
theorem hasRule_nil_iff (h : read nonTerminals terminals start lines = .ok g) :
    g.productions.HasRule lhs [] ↔
      ∃ line ∈ lines,
        (∃ side, Text.Trims (leftPiece line.toList) side.toList ∧
          (Declarations.ofNames nonTerminals terminals).SideStandsFor side lhs) ∧
        ∃ piece ∈ rightPieces line.toList,
          Text.Trims piece emptyWordText.toList ∨ Text.AllBlank piece := by
  rw [hasRule_of_read_iff_pairs h]
  constructor
  · intro hrule
    rcases hrule with ⟨left, right, hpair, hleft, hright⟩
    rcases givePair_iff_pieces.mp hpair with ⟨line, hline, -, hlhs, piece, hpiece, hrhs⟩
    exact ⟨line, hline, ⟨left, hlhs, hleft⟩, piece, hpiece,
      (Declarations.sideStandsFor_nil_iff_piece hrhs).mp hright⟩
  · intro hempty
    rcases hempty with ⟨line, hline, ⟨side, hside, hstands⟩, piece, hpiece, hnil⟩
    have htrims := Text.trims_ofList_trim piece
    refine ⟨side, String.ofList (Text.trim piece), ?_, hstands,
      (Declarations.sideStandsFor_nil_iff_piece htrims).mpr hnil⟩
    exact givePair_iff_pieces.mpr
      ⟨line, hline, (isRuleLine_of_read h hline).1, hside, piece, hpiece, htrims⟩

/-- What becomes of blank sides.  A side of spaces and tabs is refused together with its line,
if that is the first line at fault.  No grammar is read when a left-hand side is blank in any
other way.  But such an alternative is read, as the empty word, like `ε`. -/
theorem read_blank_sides (nonTerminals terminals : List String) (start : String)
    (lines : List String) :
    (∀ front line behind, lines = front ++ line :: behind →
      "" ∉ nonTerminals ++ terminals ++ [start] →
      (∀ l ∈ front, ∃ form, (Declarations.ofNames nonTerminals terminals).LineStandsFor l form) →
      (∃ piece ∈ leftPiece line.toList :: rightPieces line.toList,
        ∀ c ∈ piece, isSpaceOrTab c = true) →
      read nonTerminals terminals start lines = .error (.invalidLine line)) ∧
    ∀ g, read nonTerminals terminals start lines = .ok g →
      (∀ line ∈ lines,
        IsRuleLine line.toList ∧ ¬Text.AllBlank (leftPiece line.toList)) ∧
      ∀ lhs, g.productions.HasRule lhs [] ↔
        ∃ line ∈ lines,
          (∃ side, Text.Trims (leftPiece line.toList) side.toList ∧
            (Declarations.ofNames nonTerminals terminals).SideStandsFor side lhs) ∧
          ∃ piece ∈ rightPieces line.toList,
            Text.Trims piece emptyWordText.toList ∨ Text.AllBlank piece := by
  constructor
  · rintro front line behind rfl hnames hfront ⟨piece, hmem, hspaces⟩
    exact read_eq_invalidLine hnames hfront (not_isRuleLine_of_empty_piece hmem hspaces)
  · exact fun g h => ⟨fun line hline => isRuleLine_of_read h hline, fun lhs => hasRule_nil_iff h⟩

/-- A line whose last alternative is a line break. -/
def lineBreak : String :=
  "S → z|\n"

/-- A line whose last alternative is a space. -/
def lastSpace : String :=
  "S → z| "

theorem lastSpace_refused :
    read ["S"] ["z"] "S" [lineBreak, lastSpace] = .error (.invalidLine lastSpace) ∧
      ∃ g, read ["S"] ["z"] "S" [lineBreak] = .ok g ∧
        (∀ line ∈ [lineBreak],
          IsRuleLine line.toList ∧ ¬Text.AllBlank (leftPiece line.toList)) ∧
        ∀ lhs, g.productions.HasRule lhs [] ↔
          ∃ line ∈ [lineBreak],
            (∃ side, Text.Trims (leftPiece line.toList) side.toList ∧
              (Declarations.ofNames ["S"] ["z"]).SideStandsFor side lhs) ∧
            ∃ piece ∈ rightPieces line.toList,
              Text.Trims piece emptyWordText.toList ∨ Text.AllBlank piece := by
  have hfront : ∀ l ∈ [lineBreak], ∃ form,
      (Declarations.ofNames ["S"] ["z"]).LineStandsFor l form := by
    rw [List.forall_mem_singleton, ← Declarations.lineChecks_pass_iff]
    exact (Declarations.enforces_readLine _ _).forall_passes_of_isOk (by decide)
  have hpiece : ∃ piece ∈ leftPiece lastSpace.toList :: rightPieces lastSpace.toList,
      ∀ c ∈ piece, isSpaceOrTab c = true :=
    ⟨[' '], by decide, List.forall_mem_singleton.mpr (by decide)⟩
  have henforces := enforces_read ["S"] ["z"] "S" [lineBreak]
  rcases henforces.exists_ok_iff.mpr (henforces.forall_passes_of_isOk (by decide)) with ⟨g, hg⟩
  exact ⟨(read_blank_sides ["S"] ["z"] "S" [lineBreak, lastSpace]).1 [lineBreak] lastSpace []
      rfl (by decide) hfront hpiece,
    g, hg, (read_blank_sides ["S"] ["z"] "S" [lineBreak]).2 g hg⟩

/-- The line break is read as the empty word, though it is blank and is not `ε`. -/
theorem lineBreak_read :
    ∃ g, read ["S"] ["z"] "S" [lineBreak] = .ok g ∧
      g.productions.HasRule [.nonTerminal g.start] [] ∧
      (∃ piece ∈ rightPieces lineBreak.toList, Text.AllBlank piece) ∧
        ∀ piece ∈ rightPieces lineBreak.toList, ¬Text.Trims piece emptyWordText.toList := by
  have hread : (read ["S"] ["z"] "S" [lineBreak]).toOption.map
      (fun g => decide ([] ∈ g.alternatives g.start)) = some true := by decide
  simp only [Option.map_eq_some_iff, decide_eq_true_eq] at hread
  rcases hread with ⟨g, hg, hempty⟩
  have hpieces : rightPieces lineBreak.toList = [[' ', 'z'], ['\n']] := by decide
  refine ⟨g, ?_, mem_alternatives.mp hempty, ?_⟩
  · cases h : read ["S"] ["z"] "S" [lineBreak] with
    | error e => simp [h, Except.toOption] at hg
    | ok g' => simpa [h, Except.toOption] using hg
  · rw [hpieces]
    simp only [Text.trims_iff]
    decide

end Grammar
end FormalLang
