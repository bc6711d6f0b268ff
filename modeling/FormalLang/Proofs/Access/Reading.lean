import FormalLang.Proofs.Access.Guarded
import FormalLang.Proofs.Access.Splitting
import FormalLang.Proofs.Grammar.Reading

/-!
# Reading grammars without failing

Symbols are made of the names of a grammar after all names have been looked at, and both
sides of every line are split with a table.  Neither fails: a name that is empty is refused
before, and a text is split without failing.

Main results:

- Theorem `Declarations.readSide?_eq` and Theorem `Declarations.readLine?_eq`: no access
  fails when a side or a line is read.
- Theorem `Grammar.read?_eq`: no access fails when a grammar is read.
-/

namespace FormalLang

namespace Declarations

/-- The sentential form that a side of a rule stands for, read off a table of splits. -/
def readSide? (D : Declarations) (side : String) : Guarded GrammarError SententialForm :=
  if side = emptyWordText then return []
  else do
    match ← Guarded.access (Splits.ofText? D.symbols side) with
    | .one w => return w.map D.asDeclared
    | .none => throw (.noSplit side)
    | .many => throw (.manySplits side)

/-- The left-hand side and the alternatives that a line stands for, each read off a table
of splits. -/
def readLine? (D : Declarations) (line : String) :
    Guarded GrammarError (SententialForm × List SententialForm) :=
  match RuleLine.parse? line with
  | none => throw (.invalidLine line)
  | some parts => do
      let lhs ← D.readSide? parts.lhs
      let alternatives ← parts.alternatives.mapM D.readSide?
      return (lhs, alternatives)

theorem readSide?_eq (D : Declarations) (side : String) :
    D.readSide? side = .of (D.readSide side) := by
  unfold readSide? readSide
  by_cases hside : side = emptyWordText
  · rw [if_pos hside, if_pos hside]
    rfl
  · rw [if_neg hside, if_neg hside, Splits.ofText?_eq, Guarded.access_some, pure_bind]
    cases Splits.ofText D.symbols side with
    | none => rfl
    | one w => rfl
    | many => rfl

theorem readLine?_eq (D : Declarations) (line : String) :
    D.readLine? line = .of (D.readLine line) := by
  unfold readLine? readLine
  cases RuleLine.parse? line with
  | none => rfl
  | some parts =>
      have halternatives : parts.alternatives.mapM D.readSide? =
          .of (parts.alternatives.mapM D.readSide) :=
        Guarded.mapM_eq_of fun side _ => D.readSide?_eq side
      simp only [readSide?_eq, halternatives, Guarded.of_bind]
      rfl

end Declarations

namespace Grammar

/-- The grammar given by names and rule lines.  Symbols are made of the names once none of
them is empty. -/
def read? (nonTerminals terminals : List String) (start : String) (lines : List String) :
    Guarded GrammarError Grammar :=
  if "" ∈ nonTerminals ++ terminals ++ [start] then throw .emptySymbol
  else do
    let ns ← Guarded.access (nonTerminals.mapM Symbol.ofString?)
    let ts ← Guarded.access (terminals.mapM Symbol.ofString?)
    let forms ← lines.mapM (Declarations.readLine? ⟨.ofList ns, .ofList ts⟩)
    let s ← Guarded.access (Symbol.ofString? start)
    Guarded.of (ofParts ns ts (.ofLines forms) s)

/-- An empty name is the first thing for which a grammar is refused. -/
theorem read_of_empty_mem {nonTerminals terminals : List String} {start : String}
    (h : "" ∈ nonTerminals ++ terminals ++ [start]) (lines : List String) :
    read nonTerminals terminals start lines = .error .emptySymbol := by
  rw [enforces_read, readChecks]
  exact .here ⟨h, rfl⟩

/-- No access fails when a grammar is read. -/
theorem read?_eq (nonTerminals terminals : List String) (start : String) (lines : List String) :
    read? nonTerminals terminals start lines =
      .of (read nonTerminals terminals start lines) := by
  unfold read?
  by_cases hempty : "" ∈ nonTerminals ++ terminals ++ [start]
  · rw [if_pos hempty, read_of_empty_mem hempty]
    rfl
  · have hnames : ∀ name ∈ nonTerminals ++ terminals ++ [start], name ≠ "" :=
      fun name hname heq => hempty (heq ▸ hname)
    simp only [List.mem_append, List.mem_singleton] at hnames
    rcases Symbol.exists_mapM_ofString? fun name h => hnames name (Or.inl (Or.inl h)) with
      ⟨ns, hns, hnsText⟩
    rcases Symbol.exists_mapM_ofString? fun name h => hnames name (Or.inl (Or.inr h)) with
      ⟨ts, hts, htsText⟩
    have hstart : start ≠ "" := hnames start (Or.inr rfl)
    have hs : Symbol.ofString? start = some ⟨start, hstart⟩ := Symbol.ofString?_eq_some_iff.mpr rfl
    have hsName : Symbol.ofName start = .ok ⟨start, hstart⟩ := Symbol.ofName_eq_ok_iff.mpr rfl
    have hlines : lines.mapM (Declarations.readLine? ⟨.ofList ns, .ofList ts⟩) =
        .of (lines.mapM (Declarations.readLine ⟨.ofList ns, .ofList ts⟩)) :=
      Guarded.mapM_eq_of fun line _ => Declarations.readLine?_eq _ line
    rw [read_eq, Symbol.mapM_ofName_eq_ok_iff.mpr hnsText.symm,
      Symbol.mapM_ofName_eq_ok_iff.mpr htsText.symm, hsName, if_neg hempty, hns, hts, hs]
    simp only [Guarded.access_some, pure_bind, hlines]
    change _ = Guarded.of (lines.mapM _ >>= fun forms => _)
    rw [Guarded.of_bind]

end Grammar
end FormalLang
