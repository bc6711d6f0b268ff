import FormalLang.Grammar.Reader
import FormalLang.Proofs.Grammar.Checking
import FormalLang.Proofs.Grammar.Productions
import FormalLang.Proofs.Grammar.RuleLines
import FormalLang.Proofs.Split.Counting

/-!
# Reading grammars from rule lines

What a side and a line of rules stand for is said without reading them: a side
stands for the one word into which it splits, and the sides of a line are what is left
of its pieces without the blanks at their ends.  Reading makes its checks in a fixed
order, first those of the names, then those of the lines from side to side, and last
those of the parts that are put together.  The rules that are read use declared symbols
only, so nothing else can be at fault there than the start symbol, a symbol of both
kinds and a left-hand side.

Main results:

- Theorem `Declarations.lineStandsFor_iff_parse?`: a line stands for what the parts into
  which it is split stand for.
- Theorem `Declarations.readSide_eq_ok_iff` and Theorem
  `Declarations.readLine_eq_ok_iff`: what sides and lines are read as.
- Theorem `Declarations.enforces_readSide` and Theorem
  `Declarations.enforces_readLine`: the faults that are found in them.
- Theorem `Grammar.read_eq_ok_iff`: when reading succeeds.
- Theorem `Grammar.enforces_read`: reading fails with the first fault.
- Theorem `Grammar.gathers_of_read`: otherwise it gathers the rules of the lines.
- Theorem `Grammar.read_validates`: both together.
-/

namespace FormalLang

open RuleLine

/-! ## Names -/

namespace Symbol

variable {names : List String} {symbols : List Symbol}

/-- The symbol with a name that is not empty. -/
def ofName (name : String) : Except GrammarError Symbol :=
  match ofString? name with
  | some a => .ok a
  | none => .error .emptySymbol

/-- The check of a name. -/
def nameCheck (name : String) : Check GrammarError := fun e =>
  name = "" ∧ e = .emptySymbol

theorem ofName_eq_ok_iff {name : String} {a : Symbol} : ofName name = .ok a ↔ a.text = name := by
  rw [← ofString?_eq_some_iff, ofName]
  cases ofString? name with
  | none => simp
  | some b => simp

theorem enforces_ofName (name : String) : Enforces [nameCheck name] (ofName name) := by
  intro e
  rw [ofName]
  cases hname : ofString? name with
  | none =>
      have hfault : nameCheck name .emptySymbol := ⟨ofString?_eq_none_iff.mp hname, rfl⟩
      rw [firstFault_cons_of_fault hfault fun e he => he.2, Except.error.injEq, eq_comm]
  | some a =>
      have hpasses : (nameCheck name).Passes := by
        intro e he
        rw [ofString?_eq_none_iff.mpr he.1] at hname
        contradiction
      simp [firstFault_cons_of_passes hpasses]

theorem mapM_ofName_eq_ok_iff : names.mapM ofName = .ok symbols ↔ names = symbols.map text := by
  rw [mapM_eq_ok_iff_map_eq fun name a => ofName_eq_ok_iff, eq_comm]

theorem enforces_mapM_ofName (names : List String) :
    Enforces (names.map nameCheck) (names.mapM ofName) := by
  rw [List.map_eq_flatMap]
  exact Enforces.mapM fun name _ => enforces_ofName name

end Symbol

/-! ## Sides -/

namespace Declarations

variable {D : Declarations} {side line : String} {s : SententialForm}

/-- The declarations with these names. -/
def ofNames (nonTerminals terminals : List String) : Declarations :=
  ⟨.ofList (nonTerminals.filterMap Symbol.ofString?),
    .ofList (terminals.filterMap Symbol.ofString?)⟩

/-- A side of a rule stands for a sentential form: `ε` for the empty one, any other text
for the only word into which it splits. -/
inductive SideStandsFor (D : Declarations) : String → SententialForm → Prop
  | empty : SideStandsFor D emptyWordText []
  | word {side : String} {w : Word} (ne_empty : side ≠ emptyWordText)
      (splits : ∀ w', IsSplitOver D.symbols w' side.toList ↔ w' = w) :
      SideStandsFor D side (w.map D.asDeclared)

/-- A side splits into declared symbols, unless it is `ε`. -/
def splitCheck (D : Declarations) (side : String) : Check GrammarError := fun e =>
  side ≠ emptyWordText ∧ (∀ w, ¬IsSplitOver D.symbols w side.toList) ∧ e = .noSplit side

/-- A side does not split in more than one way, unless it is `ε`. -/
def uniqueCheck (D : Declarations) (side : String) : Check GrammarError := fun e =>
  side ≠ emptyWordText ∧
    (∃ w w', w ≠ w' ∧ IsSplitOver D.symbols w side.toList ∧
      IsSplitOver D.symbols w' side.toList) ∧
    e = .manySplits side

/-- The checks of a side. -/
def sideChecks (D : Declarations) (side : String) : List (Check GrammarError) :=
  [D.splitCheck side, D.uniqueCheck side]

theorem nodup_symbols (D : Declarations) : D.symbols.Nodup :=
  (D.nonTerminals.insertAll D.terminals.toList).nodup

theorem mem_symbols_iff {a : Symbol} :
    a ∈ D.symbols ↔ a ∈ D.nonTerminals ∨ a ∈ D.terminals := by
  simp [symbols]

theorem readSide_eq_ok_iff : D.readSide side = .ok s ↔ D.SideStandsFor side s := by
  unfold readSide
  by_cases hside : side = emptyWordText
  · subst hside
    rw [if_pos rfl, Except.ok.injEq]
    constructor
    · rintro rfl
      exact .empty
    · intro h
      cases h with
      | empty => rfl
      | word hne _ => exact (hne rfl).elim
  · rw [if_neg hside]
    constructor
    · intro h
      cases hsplits : Splits.ofText D.symbols side with
      | one w =>
          rw [hsplits] at h
          cases h
          exact .word hside fun w' => Splits.isSplitOver_iff_of_one hsplits
      | none => simp [hsplits] at h
      | many => simp [hsplits] at h
    · intro h
      cases h with
      | empty => exact (hside rfl).elim
      | word _ hsplits =>
          have hone := (Splits.ofText_eq_one_iff_words D.nodup_symbols).mpr hsplits
          rw [hone]

/-- Reading a side makes its checks. -/
theorem enforces_readSide (D : Declarations) (side : String) :
    Enforces (D.sideChecks side) (D.readSide side) := by
  intro e
  unfold readSide sideChecks splitCheck uniqueCheck
  by_cases hside : side = emptyWordText
  · rw [if_pos hside, firstFault_cons_of_passes fun e he => he.1 hside,
      firstFault_cons_of_passes fun e he => he.1 hside]
    simp
  · rw [if_neg hside]
    cases hsplits : Splits.ofText D.symbols side with
    | none =>
        have hno := Splits.ofText_eq_none_iff_words.mp hsplits
        rw [firstFault_cons_of_fault ⟨hside, hno, rfl⟩ fun e he => he.2.2,
          Except.error.injEq, eq_comm]
    | one w =>
        have hone : ∀ w', IsSplitOver D.symbols w' side.toList ↔ w' = w :=
          fun w' => Splits.isSplitOver_iff_of_one hsplits
        rw [firstFault_cons_of_passes fun e he => he.2.1 w ((hone w).mpr rfl),
          firstFault_cons_of_passes]
        · simp
        · intro e he
          rcases he.2.1 with ⟨u, v, hne, hu, hv⟩
          exact hne (((hone u).mp hu).trans ((hone v).mp hv).symm)
    | many =>
        have htwo := (Splits.ofText_eq_many_iff_words D.nodup_symbols).mp hsplits
        rw [firstFault_cons_of_passes,
          firstFault_cons_of_fault ⟨hside, htwo, rfl⟩ fun e he => he.2.2,
          Except.error.injEq, eq_comm]
        intro e he
        rcases htwo with ⟨w, -, -, hw, -⟩
        exact he.2.1 w hw

/-! ## Lines -/

/-- A line of rules stands for a left-hand side and its alternatives: it is a rule line, and
its parts stand for them. -/
def LineStandsFor (D : Declarations) (line : String)
    (form : SententialForm × List SententialForm) : Prop :=
  IsRuleLine line.toList ∧
    ∃ parts : RuleLine, parts.TrimmedFrom line.toList ∧ D.SideStandsFor parts.lhs form.1 ∧
      List.Forall₂ D.SideStandsFor parts.alternatives form.2

/-- The checks of a piece of a line are those of the side that is left of it without the
blanks at its ends. -/
def pieceChecks (D : Declarations) (piece : List Char) : List (Check GrammarError) :=
  [fun e => ∃ side : String, Text.Trims piece side.toList ∧ D.splitCheck side e,
    fun e => ∃ side : String, Text.Trims piece side.toList ∧ D.uniqueCheck side e]

/-- The checks of a line: it is a rule line, and there are good sides in its pieces, from
left to right. -/
def lineChecks (D : Declarations) (line : String) : List (Check GrammarError) :=
  (fun e => ¬IsRuleLine line.toList ∧ e = .invalidLine line) ::
    (leftPiece line.toList :: rightPieces line.toList).flatMap D.pieceChecks

theorem lineStandsFor_iff_parse? {form : SententialForm × List SententialForm} :
    D.LineStandsFor line form ↔
      ∃ parts, parse? line = some parts ∧ D.SideStandsFor parts.lhs form.1 ∧
        List.Forall₂ D.SideStandsFor parts.alternatives form.2 := by
  simp only [LineStandsFor, parse?_eq_some_iff_isRuleLine, and_assoc, exists_and_left]

theorem readLine_eq_ok_iff {form : SententialForm × List SententialForm} :
    D.readLine line = .ok form ↔ D.LineStandsFor line form := by
  rw [lineStandsFor_iff_parse?, readLine]
  cases hparse : parse? line with
  | none => simp
  | some parts =>
      simp only [bind_eq_ok_iff, mapM_eq_ok_iff, readSide_eq_ok_iff, Option.some.injEq]
      constructor
      · intro h
        rcases h with ⟨lhs, hlhs, alternatives, halternatives, heq⟩
        cases heq
        exact ⟨parts, rfl, hlhs, halternatives⟩
      · intro h
        rcases h with ⟨_, rfl, hlhs, halternatives⟩
        exact ⟨_, hlhs, _, halternatives, rfl⟩

theorem LineStandsFor.eq {form form' : SententialForm × List SententialForm}
    (h : D.LineStandsFor line form) (h' : D.LineStandsFor line form') : form = form' := by
  have heq := (readLine_eq_ok_iff.mpr h).symm.trans (readLine_eq_ok_iff.mpr h')
  cases heq
  rfl

/-- Only one side is left of a piece, so the checks of the piece are those of this side. -/
theorem pieceChecks_eq {piece : List Char} (h : Text.Trims piece side.toList) :
    D.pieceChecks piece = D.sideChecks side := by
  have hone : ∀ p : String → Prop, (∃ side', Text.Trims piece side'.toList ∧ p side') = p side := by
    intro p
    apply propext
    constructor
    · rintro ⟨side', h', hp⟩
      exact h'.string_eq h ▸ hp
    · exact fun hp => ⟨side, h, hp⟩
  simp only [pieceChecks, sideChecks, hone]

theorem flatMap_pieceChecks {parts : RuleLine} (h : parts.TrimmedFrom line.toList) :
    (leftPiece line.toList :: rightPieces line.toList).flatMap D.pieceChecks =
      (parts.lhs :: parts.alternatives).flatMap D.sideChecks := by
  have halternatives : (rightPieces line.toList).map D.pieceChecks =
      parts.alternatives.map D.sideChecks := by
    rw [← List.forall₂_eq_eq_eq, List.forall₂_map_left_iff, List.forall₂_map_right_iff]
    exact h.alternatives.imp fun piece side => pieceChecks_eq
  rw [List.flatMap_cons, List.flatMap_cons, pieceChecks_eq h.lhs, List.flatMap_def,
    List.flatMap_def, halternatives]

/-- Reading a line makes its checks. -/
theorem enforces_readLine (D : Declarations) (line : String) :
    Enforces (D.lineChecks line) (D.readLine line) := by
  intro e
  unfold readLine lineChecks
  cases hparse : parse? line with
  | none =>
      have hnot : ¬IsRuleLine line.toList := by
        rw [← exists_parse?_iff, hparse]
        simp
      rw [firstFault_cons_of_fault ⟨hnot, rfl⟩ fun e he => he.2, Except.error.injEq, eq_comm]
  | some parts =>
      rcases parse?_eq_some_iff_isRuleLine.mp hparse with ⟨hrule, htrimmed⟩
      rw [firstFault_cons_of_passes fun e he => he.1 hrule, flatMap_pieceChecks htrimmed]
      have halternatives := Enforces.mapM fun side (_ : side ∈ parts.alternatives) =>
        D.enforces_readSide side
      have hparts := (D.enforces_readSide parts.lhs).bind fun lhs _ =>
        halternatives.bind fun alternatives _ => Enforces.ok (lhs, alternatives)
      rw [List.append_nil] at hparts
      exact hparts e

/-! ## Declared symbols -/

/-- The presentation with these declarations. -/
def presentation (D : Declarations) (P : Productions) (start : Symbol) : Presentation :=
  ⟨D.nonTerminals, D.terminals, P, start⟩

variable {P : Productions} {start : Symbol}

/-- The symbols of a side are declared, as the kinds as which they are read. -/
theorem SideStandsFor.declares (h : D.SideStandsFor side s) :
    ∀ x ∈ s, (D.presentation P start).Declares x := by
  cases h with
  | empty => simp
  | @word _ w _ hsplits =>
      intro x hx
      rcases List.mem_map.mp hx with ⟨a, ha, rfl⟩
      have hmem : a ∈ D.symbols := ((hsplits w).mpr rfl).symbol_mem a ha
      have hkind := mem_symbols_iff.mp hmem
      unfold asDeclared
      by_cases hnt : a ∈ D.nonTerminals
      · rw [if_pos hnt]
        exact hnt
      · rw [if_neg hnt]
        exact hkind.resolve_left hnt

/-- The rules of lines use declared symbols. -/
theorem declares_ofLines {lines : List String}
    {forms : List (SententialForm × List SententialForm)}
    (h : List.Forall₂ D.LineStandsFor lines forms) :
    ∀ entry ∈ (Productions.ofLines forms).entries,
      (∀ x ∈ entry.1, (D.presentation P start).Declares x) ∧
        ∀ rhs ∈ entry.2, ∀ x ∈ rhs, (D.presentation P start).Declares x := by
  refine Productions.forall_entries_ofLines
    (p := fun lhs => ∀ x ∈ lhs, (D.presentation P start).Declares x)
    (q := fun rhs => ∀ x ∈ rhs, (D.presentation P start).Declares x) ?_
  intro form hform
  rcases exists_mem_of_forall₂ h hform with ⟨line, -, -, parts, -, hlhs, halternatives⟩
  refine ⟨hlhs.declares, fun rhs hrhs => ?_⟩
  rcases exists_mem_of_forall₂ halternatives hrhs with ⟨side, -, hside⟩
  exact hside.declares

end Declarations

/-! ## Whole grammars -/

namespace Grammar

variable {nonTerminals terminals lines : List String} {start : String} {D : Declarations}
  {forms : List (SententialForm × List SententialForm)}

/-- Reading a grammar reads the names and then the lines, and puts the parts
together. -/
theorem read_eq (nonTerminals terminals : List String) (start : String)
    (lines : List String) :
    read nonTerminals terminals start lines =
      (do
        let ns ← nonTerminals.mapM Symbol.ofName
        let ts ← terminals.mapM Symbol.ofName
        let s ← Symbol.ofName start
        let forms ← lines.mapM (Declarations.readLine ⟨.ofList ns, .ofList ts⟩)
        ofParts ns ts (.ofLines forms) s) := by
  unfold read Symbol.ofName
  cases Symbol.ofString? start with
  | none => rfl
  | some s => rfl

/-- Reading succeeds when the names are those of symbols, the lines stand for rules, and
the parts can be put together. -/
theorem read_eq_ok_iff {g : Grammar} :
    read nonTerminals terminals start lines = .ok g ↔
      ∃ ns ts s forms, nonTerminals = ns.map Symbol.text ∧ terminals = ts.map Symbol.text ∧
        s.text = start ∧
          List.Forall₂ (Declarations.LineStandsFor ⟨.ofList ns, .ofList ts⟩) lines forms ∧
            ofParts ns ts (.ofLines forms) s = .ok g := by
  rw [read_eq]
  simp only [bind_eq_ok_iff, Symbol.mapM_ofName_eq_ok_iff]
  simp only [Symbol.ofName_eq_ok_iff, mapM_eq_ok_iff, Declarations.readLine_eq_ok_iff]
  constructor
  · intro h
    rcases h with ⟨ns, hns, ts, hts, s, hs, forms, hforms, hparts⟩
    exact ⟨ns, ts, s, forms, hns, hts, hs, hforms, hparts⟩
  · intro h
    rcases h with ⟨ns, ts, s, forms, hns, hts, hs, hforms, hparts⟩
    exact ⟨ns, hns, ts, hts, s, hs, forms, hforms, hparts⟩

/-- The check of the left-hand side of a line. -/
def lhsCheck (D : Declarations) (line : String) : Check GrammarError := fun e =>
  ∃ form, D.LineStandsFor line form ∧ Presentation.lhsCheck form.1 e

/-- The checks of the names as symbols of a grammar: the start symbol is a non-terminal,
and no terminal is one. -/
def symbolChecks (nonTerminals terminals : List String) (start : String) :
    List (Check GrammarError) :=
  (fun e => start ∉ nonTerminals ∧ ∃ a : Symbol, a.text = start ∧ e = .undeclaredStart a) ::
    terminals.map fun name e =>
      name ∈ nonTerminals ∧ ∃ a : Symbol, a.text = name ∧ e = .sharedSymbol a

/-- The checks of names and rule lines, in the order in which they are made: no name is
empty; the lines stand for rules; the start symbol is a non-terminal; no terminal is a
non-terminal; every left-hand side has a non-terminal. -/
def readChecks (nonTerminals terminals : List String) (start : String) (lines : List String) :
    List (Check GrammarError) :=
  let D := Declarations.ofNames nonTerminals terminals
  (fun e => "" ∈ nonTerminals ++ terminals ++ [start] ∧ e = .emptySymbol) ::
    lines.flatMap D.lineChecks ++ symbolChecks nonTerminals terminals start ++
      lines.map (lhsCheck D)

/-- The checks of the names make one check. -/
theorem sameFaults_nameChecks (names : List String) :
    SameFaults (names.map Symbol.nameCheck)
      [fun e => "" ∈ names ∧ e = GrammarError.emptySymbol] := by
  have hone := SameFaults.map_and_eq names (fun name => name = "") GrammarError.emptySymbol
  simp only [exists_eq_right] at hone
  exact hone

theorem ofNames_map_text (ns ts : List Symbol) :
    Declarations.ofNames (ns.map Symbol.text) (ts.map Symbol.text) =
      ⟨.ofList ns, .ofList ts⟩ := by
  have hnamed : ∀ l : List Symbol, (l.map Symbol.text).filterMap Symbol.ofString? = l := by
    intro l
    have hname : Symbol.ofString? ∘ Symbol.text = some :=
      funext fun a => Symbol.ofString?_eq_some_iff.mpr rfl
    rw [List.filterMap_map, hname, List.filterMap_some]
  rw [Declarations.ofNames, hnamed, hnamed]

/-- The checks of the symbols are those of their names. -/
theorem sameFaults_symbolChecks (ns ts : List Symbol) (s : Symbol) (P : Productions) :
    SameFaults (Presentation.symbolChecks ⟨.ofList ns, .ofList ts, P, s⟩)
      (symbolChecks (ns.map Symbol.text) (ts.map Symbol.text) s.text) := by
  have hmem : ∀ a : Symbol, a.text ∈ ns.map Symbol.text ↔ a ∈ OrderedSet.ofList ns := by
    intro a
    rw [OrderedSet.mem_ofList]
    exact List.mem_map_of_injective fun a b => Symbol.ext
  have hname : ∀ (a : Symbol) (f : Symbol → GrammarError) (e : GrammarError),
      (∃ b : Symbol, b.text = a.text ∧ e = f b) ↔ e = f a := by
    intro a f e
    simp only [← Symbol.ext_iff, exists_eq_left]
  unfold symbolChecks Presentation.symbolChecks
  rw [List.map_map, OrderedSet.toList_ofList]
  simp only [Function.comp_def, hmem, hname]
  exact SameFaults.cons fun _ => SameFaults.map_eraseDups _ ts

/-- The left-hand sides of productions are at fault as those of the lines. -/
theorem sameFaults_lhsChecks (h : List.Forall₂ D.LineStandsFor lines forms) :
    SameFaults ((Productions.ofLines forms).keys.map Presentation.lhsCheck)
      (lines.map (lhsCheck D)) := by
  have hlines : SameFaults (lines.map (lhsCheck D))
      (forms.map fun form => Presentation.lhsCheck form.1) := by
    refine SameFaults.map_map (h.imp fun line form hform e => ?_)
    constructor
    · intro he
      rcases he with ⟨form', hform', hcheck⟩
      exact hform.eq hform' ▸ hcheck
    · exact fun hcheck => ⟨form, hform, hcheck⟩
  rw [Productions.keys_ofLines]
  apply (SameFaults.map_eraseDups _ _).trans
  rw [List.map_map]
  exact hlines.symm

/-- Putting together what was read makes the checks of the names as symbols and those of
the left-hand sides; symbols that are not declared do not come up. -/
theorem enforces_ofParts {ns ts : List Symbol} {s : Symbol}
    (h : List.Forall₂ (Declarations.LineStandsFor ⟨.ofList ns, .ofList ts⟩) lines forms) :
    Enforces
      (symbolChecks (ns.map Symbol.text) (ts.map Symbol.text) s.text ++
        lines.map (lhsCheck ⟨.ofList ns, .ofList ts⟩))
      (ofParts ns ts (.ofLines forms) s) := by
  have hcheck := Presentation.enforces_check
    ⟨.ofList ns, .ofList ts, Productions.ofLines forms, s⟩
  have hdeclared := Presentation.sameFaults_checks
    (G := ⟨.ofList ns, .ofList ts, Productions.ofLines forms, s⟩) (Declarations.declares_ofLines h)
  have hsymbols := sameFaults_symbolChecks ns ts s (Productions.ofLines forms)
  exact hcheck.congr (hdeclared.trans (hsymbols.append (sameFaults_lhsChecks h)))

/-- Reading a grammar fails with the first fault that its checks find, and with nothing
else. -/
theorem enforces_read (nonTerminals terminals : List String) (start : String)
    (lines : List String) :
    Enforces (readChecks nonTerminals terminals start lines)
      (read nonTerminals terminals start lines) := by
  have hstages : Enforces
      (nonTerminals.map Symbol.nameCheck ++ (terminals.map Symbol.nameCheck ++
        ([Symbol.nameCheck start] ++
          (lines.flatMap (Declarations.ofNames nonTerminals terminals).lineChecks ++
            (symbolChecks nonTerminals terminals start ++
              lines.map (lhsCheck (Declarations.ofNames nonTerminals terminals)))))))
      (read nonTerminals terminals start lines) := by
    rw [read_eq]
    apply (Symbol.enforces_mapM_ofName nonTerminals).bind
    intro ns hns
    apply (Symbol.enforces_mapM_ofName terminals).bind
    intro ts hts
    apply (Symbol.enforces_ofName start).bind
    intro s hs
    rw [Symbol.mapM_ofName_eq_ok_iff] at hns hts
    rw [Symbol.ofName_eq_ok_iff] at hs
    rw [hns, hts, ← hs, ofNames_map_text]
    apply (Enforces.mapM fun line _ => Declarations.enforces_readLine _ line).bind
    intro forms hforms
    simp only [mapM_eq_ok_iff, Declarations.readLine_eq_ok_iff] at hforms
    exact enforces_ofParts hforms
  -- The checks of the names are one check, as they can find one fault only.
  have hnames := sameFaults_nameChecks (nonTerminals ++ terminals ++ [start])
  have hsame := hnames.append (SameFaults.refl
    (lines.flatMap (Declarations.ofNames nonTerminals terminals).lineChecks ++
      (symbolChecks nonTerminals terminals start ++
        lines.map (lhsCheck (Declarations.ofNames nonTerminals terminals)))))
  simp only [List.map_append, List.map_singleton, List.append_assoc] at hsame
  refine hstages.congr (hsame.trans ?_)
  simp only [readChecks, List.append_assoc, List.cons_append, List.nil_append]
  exact SameFaults.refl _

/-! ## The grammar that is read -/

/-- A grammar of given declarations and start symbol gathers the rules of lines: its
rules are those of the lines, and its left-hand sides and their alternatives stand in
the order in which they first come up, without repeats. -/
structure Gathers (g : Grammar) (D : Declarations) (start : String) (lines : List String) :
    Prop where
  nonTerminals_eq : g.nonTerminals = D.nonTerminals
  terminals_eq : g.terminals = D.terminals
  start_text : g.start.text = start
  hasRule_iff : ∀ lhs rhs, g.productions.HasRule lhs rhs ↔
    ∃ line ∈ lines, ∃ alternatives, D.LineStandsFor line (lhs, alternatives) ∧ rhs ∈ alternatives
  order : ∃ forms, List.Forall₂ D.LineStandsFor lines forms ∧
    g.productions.keys = (forms.map Prod.fst).eraseDups ∧
      ∀ lhs alternatives, g.productions.get? lhs = some alternatives →
        alternatives.toList = ((forms.filter fun form => form.1 = lhs).flatMap Prod.snd).eraseDups

/-- The rules of the forms of lines are those of the lines. -/
theorem hasRule_ofLines_iff_lines (h : List.Forall₂ D.LineStandsFor lines forms)
    {lhs rhs : SententialForm} :
    (Productions.ofLines forms).HasRule lhs rhs ↔
      ∃ line ∈ lines, ∃ alternatives,
        D.LineStandsFor line (lhs, alternatives) ∧ rhs ∈ alternatives := by
  rw [Productions.hasRule_ofLines_iff]
  constructor
  · intro hrule
    rcases hrule with ⟨form, hform, rfl, hrhs⟩
    rcases exists_mem_of_forall₂ h hform with ⟨line, hline, hstands⟩
    exact ⟨line, hline, form.2, hstands, hrhs⟩
  · intro hrule
    rcases hrule with ⟨line, hline, alternatives, hstands, hrhs⟩
    rcases exists_mem_of_forall₂ h.flip hline with ⟨form, hform, hstands'⟩
    have heq := hstands.eq hstands'
    exact ⟨form, hform, congrArg Prod.fst heq, heq ▸ hrhs⟩

/-- What is read gathers the rules of the lines. -/
theorem gathers_of_read {g : Grammar} (h : read nonTerminals terminals start lines = .ok g) :
    g.Gathers (Declarations.ofNames nonTerminals terminals) start lines := by
  rcases read_eq_ok_iff.mp h with ⟨ns, ts, s, forms, rfl, rfl, rfl, hforms, hparts⟩
  have hG := (Presentation.check_eq_ok_iff.mp hparts).2
  have hproductions : g.productions = .ofLines forms := by rw [hG]
  rw [ofNames_map_text]
  refine ⟨by rw [hG], by rw [hG], by rw [hG], ?_, forms, hforms, ?_, ?_⟩
  · intro lhs rhs
    rw [hproductions]
    exact hasRule_ofLines_iff_lines hforms
  · rw [hproductions, Productions.keys_ofLines]
  · intro lhs alternatives hget
    rw [hproductions, Productions.get?_ofLines] at hget
    split at hget
    · cases hget
      rw [OrderedSet.toList_ofList]
    · contradiction

/-- No check finds a symbol of a rule that is not declared. -/
theorem not_undeclaredSymbol_of_mem_readChecks {c : Check GrammarError} {lhs : SententialForm}
    {x : GrammarSymbol} (hc : c ∈ readChecks nonTerminals terminals start lines) :
    ¬c (.undeclaredSymbol lhs x) := by
  intro hfault
  unfold readChecks symbolChecks at hc
  simp only [List.mem_append, List.mem_cons, List.mem_flatMap, List.mem_map] at hc
  rcases hc with ((rfl | ⟨line, -, hc⟩) | (rfl | ⟨name, -, rfl⟩)) | ⟨line, -, rfl⟩
  · cases hfault.2
  · rcases List.mem_cons.mp hc with rfl | hc
    · cases hfault.2
    · rcases List.mem_flatMap.mp hc with ⟨piece, -, hpiece⟩
      simp only [Declarations.pieceChecks, List.mem_cons, List.not_mem_nil, or_false] at hpiece
      rcases hpiece with rfl | rfl
      · rcases hfault with ⟨side, -, -, -, heq⟩
        cases heq
      · rcases hfault with ⟨side, -, -, -, heq⟩
        cases heq
  · rcases hfault.2 with ⟨a, -, heq⟩
    cases heq
  · rcases hfault.2 with ⟨a, -, heq⟩
    cases heq
  · rcases hfault with ⟨form, -, -, heq⟩
    cases heq

/-- Reading a grammar fails with the first fault that its checks find, and never with a
symbol that is not declared.  If all checks pass, it gives the grammar that gathers the
rules of the lines. -/
theorem read_validates (nonTerminals terminals : List String) (start : String)
    (lines : List String) :
    (∀ e, read nonTerminals terminals start lines = .error e ↔
      FirstFault (readChecks nonTerminals terminals start lines) e) ∧
    (∀ lhs x, read nonTerminals terminals start lines ≠ .error (.undeclaredSymbol lhs x)) ∧
    ((∀ c ∈ readChecks nonTerminals terminals start lines, c.Passes) →
      ∃ g, read nonTerminals terminals start lines = .ok g ∧
        g.Gathers (Declarations.ofNames nonTerminals terminals) start lines) := by
  have henforces := enforces_read nonTerminals terminals start lines
  refine ⟨henforces, fun lhs x hread => ?_, fun hpass => ?_⟩
  · rcases ((henforces _).mp hread).exists_mem with ⟨c, hc, hfault⟩
    exact not_undeclaredSymbol_of_mem_readChecks hc hfault
  · rcases henforces.exists_ok_iff.mpr hpass with ⟨g, hg⟩
    exact ⟨g, hg, gathers_of_read hg⟩

/-- Two lines with one left-hand side and an alternative that comes up again. -/
def mergedLines : List String :=
  ["S → dS | ε", "S → d | ε"]

theorem mergedLines_gathered :
    (∀ c ∈ readChecks ["S"] ["d"] "S" mergedLines, c.Passes) ∧
      ∃ g, read ["S"] ["d"] "S" mergedLines = .ok g ∧
        g.Gathers (Declarations.ofNames ["S"] ["d"]) "S" mergedLines := by
  have hok : (read ["S"] ["d"] "S" mergedLines).isOk = true := by decide
  have hpass : ∀ c ∈ readChecks ["S"] ["d"] "S" mergedLines, c.Passes := by
    apply forall_passes_iff.mpr
    intro e hfault
    have herror := ((read_validates ["S"] ["d"] "S" mergedLines).1 e).mpr hfault
    rw [herror] at hok
    contradiction
  exact ⟨hpass, (read_validates ["S"] ["d"] "S" mergedLines).2.2 hpass⟩

end Grammar
end FormalLang
