import FormalLang.Automaton.Printer
import FormalLang.Proofs.Automaton.Validation
import FormalLang.Proofs.Text.Lines

/-!
# Automata and their listings

The listing of an automaton has a section for each of its parts.  It can be taken apart
again when the names in it hold no line break and do not begin like a title, and when the
names of the states hold none of the marks in a line for transitions.  A symbol may hold
them: the first colon of a line ends the name of the source, and the last arrow head comes
before the targets.  So automata with such names have different listings, unless they are
the same up to the identities of their states.

Main results:

- Theorem `OrderedMap.cells_inj`: the cells of a map of rows determine the rows.
- Theorem `Automaton.cell_eq_of_cellText_eq`: the parts of a line for transitions.
- Theorem `Automaton.sections_eq_of_listing_eq`: the sections of a listing.
- Theorem `Automaton.eq_of_listing_eq`: an automaton is determined by its listing.
-/

namespace FormalLang

/-! ## Rows and cells -/

/-- Lists whose members are told apart by a map are told apart by their images. -/
theorem eq_of_map_eq {α β : Type} {f : α → β} {l m : List α}
    (hf : ∀ a ∈ l, ∀ b ∈ m, f a = f b → a = b) (h : l.map f = m.map f) : l = m := by
  induction l generalizing m with
  | nil => exact (List.map_eq_nil_iff.mp h.symm).symm
  | cons a l ih =>
      cases m with
      | nil => exact absurd h (List.cons_ne_nil _ _)
      | cons b m =>
          have hparts := List.cons_eq_cons.mp h
          have hab : a = b := hf a List.mem_cons_self b List.mem_cons_self hparts.1
          have hlm : l = m := ih (fun c hc d hd =>
            hf c (List.mem_cons_of_mem a hc) d (List.mem_cons_of_mem b hd)) hparts.2
          rw [hab, hlm]

section Cells

variable {κ α β : Type}

/-- The cells of rows, each with the key of its row. -/
def cellsOfRows (rows : List (κ × OrderedMap α β)) : List (κ × α × β) :=
  rows.flatMap fun row => row.2.entries.map (Prod.mk row.1)

/-- The cells of a map of rows. -/
def OrderedMap.cells (m : OrderedMap κ (OrderedMap α β)) : List (κ × α × β) :=
  cellsOfRows m.entries

theorem key_mem_of_mem_cellsOfRows {rows : List (κ × OrderedMap α β)} {c : κ × α × β}
    (h : c ∈ cellsOfRows rows) : c.1 ∈ rows.map Prod.fst := by
  rcases List.mem_flatMap.mp h with ⟨row, hrow, hc⟩
  rcases List.mem_map.mp hc with ⟨cell, -, rfl⟩
  exact List.mem_map_of_mem hrow

/-- The cells of the first row are those with its key. -/
theorem filter_cellsOfRows_cons [DecidableEq κ] {k : κ} {row : OrderedMap α β}
    {rows : List (κ × OrderedMap α β)} (hk : k ∉ rows.map Prod.fst) :
    (cellsOfRows ((k, row) :: rows)).filter (fun c => c.1 = k) = row.entries.map (Prod.mk k) := by
  have hrest : (cellsOfRows rows).filter (fun c => c.1 = k) = [] := by
    rw [List.filter_eq_nil_iff]
    intro c hc hck
    exact hk (of_decide_eq_true hck ▸ key_mem_of_mem_cellsOfRows hc)
  have hcells : cellsOfRows ((k, row) :: rows) = row.entries.map (Prod.mk k) ++ cellsOfRows rows :=
    List.flatMap_cons
  rw [hcells, List.filter_append, hrest, List.append_nil, List.filter_eq_self]
  intro c hc
  rcases List.mem_map.mp hc with ⟨cell, -, rfl⟩
  exact decide_eq_true rfl

/-- Rows that are not empty are told apart by their cells.  By induction on the rows: the key
of the first cell is that of the first row, and all cells with this key are in this row. -/
theorem cellsOfRows_inj [DecidableEq κ] {rows rows' : List (κ × OrderedMap α β)}
    (hkeys : (rows.map Prod.fst).Nodup) (hkeys' : (rows'.map Prod.fst).Nodup)
    (hne : ∀ row ∈ rows, row.2.entries ≠ []) (hne' : ∀ row ∈ rows', row.2.entries ≠ [])
    (h : cellsOfRows rows = cellsOfRows rows') : rows = rows' := by
  have hcons : ∀ (k : κ) (row : OrderedMap α β) (rest : List (κ × OrderedMap α β)),
      row.entries ≠ [] → ∃ cell cells, cellsOfRows ((k, row) :: rest) = (k, cell) :: cells := by
    intro k row rest hrow
    rcases List.exists_cons_of_ne_nil hrow with ⟨cell, cells, hcells⟩
    refine ⟨cell, cells.map (Prod.mk k) ++ cellsOfRows rest, ?_⟩
    rw [cellsOfRows, List.flatMap_cons, hcells]
    rfl
  induction rows generalizing rows' with
  | nil =>
      cases rows' with
      | nil => rfl
      | cons entry' rows' =>
          rcases hcons entry'.1 entry'.2 rows' (hne' _ List.mem_cons_self) with ⟨cell, cells, hc⟩
          exact absurd (h.trans hc) (List.cons_ne_nil _ _).symm
  | cons entry rows ih =>
      rcases entry with ⟨k, row⟩
      rcases hcons k row rows (hne _ List.mem_cons_self) with ⟨cell, cells, hc⟩
      cases rows' with
      | nil => exact absurd (hc.symm.trans h) (List.cons_ne_nil _ _)
      | cons entry' rows' =>
          rcases entry' with ⟨k', row'⟩
          rcases hcons k' row' rows' (hne' _ List.mem_cons_self) with ⟨cell', cells', hc'⟩
          have hkk : k = k' := congrArg Prod.fst
            (List.head_eq_of_cons_eq (hc.symm.trans (h.trans hc')))
          subst hkk
          have hnot := List.nodup_cons.mp hkeys
          have hnot' := List.nodup_cons.mp hkeys'
          have hrow : row.entries.map (Prod.mk k) = row'.entries.map (Prod.mk k) := by
            rw [← filter_cellsOfRows_cons hnot.1, h, filter_cellsOfRows_cons hnot'.1]
          have hrest : cellsOfRows rows = cellsOfRows rows' := by
            rw [cellsOfRows, cellsOfRows, List.flatMap_cons, List.flatMap_cons, hrow] at h
            exact List.append_cancel_left h
          have hrow' : row = row' := OrderedMap.ext
            (eq_of_map_eq (fun a _ b _ hab => congrArg Prod.snd hab) hrow)
          rw [hrow', ih hnot.2 hnot'.2 (fun e he => hne e (List.mem_cons_of_mem _ he))
            (fun e he => hne' e (List.mem_cons_of_mem _ he)) hrest]

/-- A map of rows is determined by its cells, if no row is empty. -/
theorem OrderedMap.cells_inj [DecidableEq κ] {m m' : OrderedMap κ (OrderedMap α β)}
    (hm : ∀ row ∈ m.entries, row.2.entries ≠ []) (hm' : ∀ row ∈ m'.entries, row.2.entries ≠ [])
    (h : m.cells = m'.cells) : m = m' :=
  OrderedMap.ext (cellsOfRows_inj m.nodup_keys m'.nodup_keys hm hm' h)

end Cells

/-! ## Names in listings -/

/-- A symbol that fills a line of a listing: it holds no line break, and it is not taken for
a title. -/
structure Symbol.FillsLine (a : Symbol) : Prop where
  newline_not_mem : '\n' ∉ a.chars
  head?_ne : a.chars.head? ≠ some '#'

/-- A name that also stands for a state in a line for transitions. -/
structure Symbol.NamesState (a : Symbol) : Prop extends a.FillsLine where
  colon_not_mem : ':' ∉ a.chars
  arrowHead_not_mem : '>' ∉ a.chars
  comma_not_mem : ',' ∉ a.chars

instance : DecidablePred Symbol.FillsLine := fun a =>
  decidable_of_iff ('\n' ∉ a.chars ∧ a.chars.head? ≠ some '#')
    ⟨fun h => ⟨h.1, h.2⟩, fun h => ⟨h.1, h.2⟩⟩

instance : DecidablePred Symbol.NamesState := fun a =>
  decidable_of_iff (a.FillsLine ∧ ':' ∉ a.chars ∧ '>' ∉ a.chars ∧ ',' ∉ a.chars)
    ⟨fun h => ⟨h.1, h.2.1, h.2.2.1, h.2.2.2⟩, fun h => ⟨h.1, h.2, h.3, h.4⟩⟩

namespace Automaton

/-- The names and symbols of an automaton are set off from each other in its listing. -/
structure ListsPlainly (A : Automaton) : Prop where
  nodup_states : A.states.Nodup
  namesState : ∀ a ∈ A.states, a.NamesState
  fillsLine : ∀ a ∈ A.alphabet, a.FillsLine

instance : DecidablePred ListsPlainly := fun A =>
  decidable_of_iff (A.states.Nodup ∧ (∀ a ∈ A.states, a.NamesState) ∧
      ∀ a ∈ A.alphabet.toList, a.FillsLine)
    ⟨fun h => ⟨h.1, h.2.1, h.2.2⟩, fun h => ⟨h.1, h.2, h.3⟩⟩

variable {A B : Automaton} {p q : Nat} {a b : Symbol} {targets targets' : OrderedSet Nat}

theorem ListsPlainly.nameOf (h : A.ListsPlainly) (hp : p < A.states.length) :
    (A.nameOf p).NamesState := by
  rw [Diagram.nameOf_eq_getElem hp]
  exact h.namesState _ (List.getElem_mem hp)

theorem ListsPlainly.nameOf_inj (h : A.ListsPlainly) (hp : p < A.states.length)
    (hq : q < A.states.length) (heq : A.nameOf p = A.nameOf q) : p = q :=
  (Diagram.nameOf_inj h.nodup_states hp hq).mp heq

/-- Lists of states are told apart by the names of their members, if no name is there twice. -/
theorem eq_of_map_chars_eq (hnodup : A.states.Nodup) {ps qs : List Nat}
    (hps : ∀ p ∈ ps, p < A.states.length) (hqs : ∀ q ∈ qs, q < A.states.length)
    (h : ps.map (fun p => (A.nameOf p).chars) = qs.map fun q => (A.nameOf q).chars) : ps = qs :=
  eq_of_map_eq (fun p hp q hq hpq =>
    (Diagram.nameOf_inj hnodup (hps p hp) (hqs q hq)).mp (Symbol.chars_injective hpq)) h

/-! ## Lines for transitions -/

/-- The characters of the targets in a line for transitions. -/
def targetChars (A : Automaton) (targets : OrderedSet Nat) : List Char :=
  [','].intercalate (targets.toList.map fun q => (A.nameOf q).chars)

/-- The characters of a line for transitions. -/
theorem toList_cellText (A : Automaton) (p : Nat) (a : Symbol) (targets : OrderedSet Nat) :
    (A.cellText p a targets).toList =
      (A.nameOf p).chars ++ ':' :: (a.chars ++ '>' :: A.targetChars targets) := by
  have hcomma : (",").toList = [','] := rfl
  simp [cellText, targetChars, Symbol.chars, String.toList_intercalate, hcomma,
    Function.comp_def]

theorem mem_targetChars {c : Char} (h : c ∈ A.targetChars targets) :
    c = ',' ∨ ∃ q ∈ targets, c ∈ (A.nameOf q).chars := by
  rcases Text.mem_intercalate h with h | ⟨chars, hchars, h⟩
  · exact Or.inl (List.mem_singleton.mp h)
  · rcases List.mem_map.mp hchars with ⟨q, hq, rfl⟩
    exact Or.inr ⟨q, hq, h⟩

theorem arrowHead_not_mem_targetChars (h : A.ListsPlainly)
    (htargets : ∀ q ∈ targets, q < A.states.length) : '>' ∉ A.targetChars targets := by
  intro hmem
  rcases mem_targetChars hmem with hmem | ⟨q, hq, hmem⟩
  · exact absurd hmem (by decide)
  · exact (h.nameOf (htargets q hq)).arrowHead_not_mem hmem

/-- The targets are told apart by the commas between their names. -/
theorem targets_eq_of_targetChars_eq (h : A.ListsPlainly)
    (htargets : ∀ q ∈ targets, q < A.states.length)
    (htargets' : ∀ q ∈ targets', q < A.states.length) (hne : targets.toList ≠ [])
    (hne' : targets'.toList ≠ []) (heq : A.targetChars targets = A.targetChars targets') :
    targets = targets' := by
  have hcomma : ∀ qs : OrderedSet Nat, (∀ q ∈ qs, q < A.states.length) →
      ∀ chars ∈ qs.toList.map fun q => (A.nameOf q).chars, ',' ∉ chars := by
    intro qs hqs chars hchars
    rcases List.mem_map.mp hchars with ⟨q, hq, rfl⟩
    exact (h.nameOf (hqs q hq)).comma_not_mem
  have hnames := Text.intercalate_inj (hcomma _ htargets) (hcomma _ htargets') (by simpa using hne)
    (by simpa using hne') heq
  exact OrderedSet.ext (eq_of_map_chars_eq h.nodup_states htargets htargets' hnames)

/-- Lines with the same text are for the same transitions: the first colon stands behind the
name of the source, and the last arrow head in front of the targets. -/
theorem cell_eq_of_cellText_eq (h : A.ListsPlainly) (hp : p < A.states.length)
    (hq : q < A.states.length) (htargets : A.CellWellFormed a targets)
    (htargets' : A.CellWellFormed b targets')
    (heq : A.cellText p a targets = A.cellText q b targets') :
    p = q ∧ a = b ∧ targets = targets' := by
  have hchars := congrArg String.toList heq
  rw [toList_cellText, toList_cellText,
    Text.append_cons_inj (h.nameOf hp).colon_not_mem (h.nameOf hq).colon_not_mem,
    Text.append_cons_inj_of_last (arrowHead_not_mem_targetChars h htargets.target_lt)
      (arrowHead_not_mem_targetChars h htargets'.target_lt)] at hchars
  rcases hchars with ⟨hsource, hsymbol, htext⟩
  exact ⟨h.nameOf_inj hp hq (Symbol.chars_injective hsource), Symbol.chars_injective hsymbol,
    targets_eq_of_targetChars_eq h htargets.target_lt htargets'.target_lt htargets.targets_ne_nil
      htargets'.targets_ne_nil htext⟩

/-- The lines for transitions are the lines of their cells. -/
theorem transitionLines_eq (A : Automaton) :
    A.transitionLines = A.transitions.cells.map fun c => A.cellText c.1 c.2.1 c.2.2 := by
  simp [transitionLines, OrderedMap.cells, cellsOfRows, List.map_flatMap, Function.comp_def]

/-- A cell of the transitions is for a state, and it is well formed. -/
theorem cell_wellFormed {c : Nat × Symbol × OrderedSet Nat} (hc : c ∈ A.transitions.cells) :
    c.1 < A.states.length ∧ A.CellWellFormed c.2.1 c.2.2 := by
  rcases List.mem_flatMap.mp hc with ⟨row, hrow, hc⟩
  rcases List.mem_map.mp hc with ⟨cell, hcell, rfl⟩
  have hrow' := A.wellFormed.row_wellFormed row hrow
  exact ⟨hrow'.source_lt, hrow'.cell_wellFormed cell hcell⟩

theorem newline_not_mem_cellText (h : A.ListsPlainly) (hp : p < A.states.length)
    (htargets : A.CellWellFormed a targets) : '\n' ∉ (A.cellText p a targets).toList := by
  have hname := (h.nameOf hp).newline_not_mem
  have hsymbol := (h.fillsLine a htargets.symbol_mem).newline_not_mem
  have hrest : '\n' ∉ A.targetChars targets := by
    intro hmem
    rcases mem_targetChars hmem with hmem | ⟨q, hq, hmem⟩
    · exact absurd hmem (by decide)
    · exact (h.nameOf (htargets.target_lt q hq)).newline_not_mem hmem
  rw [toList_cellText]
  simp [hname, hsymbol, hrest]

/-! ## Sections -/

/-- A title stands behind no other title in its section. -/
theorem title_not_mem {symbols : List Symbol} (h : ∀ a ∈ symbols, a.FillsLine) {title : String}
    (htitle : title.toList.head? = some '#') : title ∉ symbols.map Symbol.text := by
  intro hmem
  rcases List.mem_map.mp hmem with ⟨a, ha, rfl⟩
  exact (h a ha).head?_ne htitle

theorem newline_not_mem_texts {symbols : List Symbol} (h : ∀ a ∈ symbols, a.FillsLine) :
    ∀ line ∈ symbols.map Symbol.text, '\n' ∉ line.toList := by
  intro line hline
  rcases List.mem_map.mp hline with ⟨a, ha, rfl⟩
  exact (h a ha).newline_not_mem

/-- The lines of a listing: those of its sections, each behind its title. -/
def listingLines (A : Automaton) : List String :=
  "#states" :: (A.states.map Symbol.text ++ "#initial" :: ([A.nameOf A.start].map Symbol.text ++
    "#accepting" :: ((A.accepting.toList.map A.nameOf).map Symbol.text ++
      "#alphabet" :: (A.alphabet.toList.map Symbol.text ++ "#transitions" :: A.transitionLines))))

theorem listing_eq (A : Automaton) :
    A.listing = String.join (A.listingLines.map fun line => line ++ "\n") := by
  simp [listing, listingSection, listingLines, String.append_assoc, Function.comp_def]

theorem ListsPlainly.states_fillLines (h : A.ListsPlainly) : ∀ a ∈ A.states, a.FillsLine :=
  fun a ha => (h.namesState a ha).toFillsLine

theorem ListsPlainly.start_fillsLine (h : A.ListsPlainly) :
    ∀ a ∈ [A.nameOf A.start], a.FillsLine :=
  List.forall_mem_singleton.mpr (h.nameOf A.wellFormed.start_lt).toFillsLine

theorem ListsPlainly.accepting_fillLines (h : A.ListsPlainly) :
    ∀ a ∈ A.accepting.toList.map A.nameOf, a.FillsLine := by
  intro a ha
  rcases List.mem_map.mp ha with ⟨p, hp, rfl⟩
  exact (h.nameOf (A.wellFormed.accepting_lt p hp)).toFillsLine

/-- No line of a listing holds a line break. -/
theorem newline_not_mem_listingLines (h : A.ListsPlainly) :
    ∀ line ∈ A.listingLines, '\n' ∉ line.toList := by
  have htransitions : ∀ line ∈ A.transitionLines, '\n' ∉ line.toList := by
    rw [transitionLines_eq]
    intro line hline
    rcases List.mem_map.mp hline with ⟨c, hc, rfl⟩
    exact newline_not_mem_cellText h (cell_wellFormed hc).1 (cell_wellFormed hc).2
  simp only [listingLines, List.forall_mem_cons, List.forall_mem_append]
  exact ⟨by decide, newline_not_mem_texts h.states_fillLines, by decide,
    newline_not_mem_texts h.start_fillsLine, by decide,
    newline_not_mem_texts h.accepting_fillLines, by decide,
    newline_not_mem_texts h.fillsLine, by decide, htransitions⟩

/-- A listing is taken apart at its titles, for no other line begins like a title. -/
theorem sections_eq_of_listing_eq (hA : A.ListsPlainly) (hB : B.ListsPlainly)
    (h : A.listing = B.listing) :
    A.states.map Symbol.text = B.states.map Symbol.text ∧
      [A.nameOf A.start].map Symbol.text = [B.nameOf B.start].map Symbol.text ∧
      (A.accepting.toList.map A.nameOf).map Symbol.text =
        (B.accepting.toList.map B.nameOf).map Symbol.text ∧
      A.alphabet.toList.map Symbol.text = B.alphabet.toList.map Symbol.text ∧
      A.transitionLines = B.transitionLines := by
  rw [listing_eq, listing_eq] at h
  have hlines := Text.join_lines_inj (newline_not_mem_listingLines hA)
    (newline_not_mem_listingLines hB) h
  rw [listingLines, listingLines, List.cons_eq_cons,
    Text.append_cons_inj (title_not_mem hA.states_fillLines rfl)
      (title_not_mem hB.states_fillLines rfl),
    Text.append_cons_inj (title_not_mem hA.start_fillsLine rfl)
      (title_not_mem hB.start_fillsLine rfl),
    Text.append_cons_inj (title_not_mem hA.accepting_fillLines rfl)
      (title_not_mem hB.accepting_fillLines rfl),
    Text.append_cons_inj (title_not_mem hA.fillsLine rfl)
      (title_not_mem hB.fillsLine rfl)] at hlines
  exact hlines.2

/-! ## Whole listings -/

theorem eq_of_map_text_eq {symbols symbols' : List Symbol}
    (h : symbols.map Symbol.text = symbols'.map Symbol.text) : symbols = symbols' :=
  eq_of_map_eq (fun _ _ _ _ => Symbol.ext) h

/-- Automata are the same if their parts are. -/
theorem eq_of_parts_eq (hstates : A.states = B.states) (halphabet : A.alphabet = B.alphabet)
    (hstart : A.start = B.start) (haccepting : A.accepting = B.accepting)
    (htransitions : A.transitions = B.transitions) : A = B := by
  rcases A with ⟨⟨states, alphabet, start, accepting, transitions⟩, hA⟩
  rcases B with ⟨⟨states', alphabet', start', accepting', transitions'⟩, hB⟩
  simp only at hstates halphabet hstart haccepting htransitions
  subst hstates halphabet hstart haccepting htransitions
  rfl

/-- An automaton is determined by its listing, as far as listings are unambiguous: automata
with the same listing have the same states, the same alphabet, the same start and accepting
states and the same transitions, all in the same order. -/
theorem eq_of_listing_eq (hA : A.ListsPlainly) (hB : B.ListsPlainly)
    (h : A.listing = B.listing) : A = B := by
  rcases sections_eq_of_listing_eq hA hB h with
    ⟨hstates, hstart, haccepting, halphabet, htransitions⟩
  have hstates := eq_of_map_text_eq hstates
  have halphabet := OrderedSet.ext (eq_of_map_text_eq halphabet)
  -- From here on the states of `B` are told by the names that they have in `A`.
  have hname : ∀ p, B.nameOf p = A.nameOf p := by
    intro p
    rw [Diagram.nameOf, Diagram.nameOf, hstates]
  have hlength : B.states.length = A.states.length := congrArg List.length hstates.symm
  have hstart : A.start = B.start := by
    have hnames := List.singleton_inj.mp (eq_of_map_text_eq hstart)
    rw [hname] at hnames
    exact hA.nameOf_inj A.wellFormed.start_lt (hlength ▸ B.wellFormed.start_lt) hnames
  have haccepting : A.accepting = B.accepting := by
    have hnames := eq_of_map_text_eq haccepting
    rw [funext hname] at hnames
    refine OrderedSet.ext (eq_of_map_eq (fun p hp q hq hpq => ?_) hnames)
    exact hA.nameOf_inj (A.wellFormed.accepting_lt p hp)
      (hlength ▸ B.wellFormed.accepting_lt q hq) hpq
  have htransitions : A.transitions = B.transitions := by
    refine OrderedMap.cells_inj (fun row hrow => (A.wellFormed.row_wellFormed row hrow).cells_ne_nil)
      (fun row hrow => (B.wellFormed.row_wellFormed row hrow).cells_ne_nil) ?_
    have hlines : A.transitions.cells.map (fun c => A.cellText c.1 c.2.1 c.2.2) =
        B.transitions.cells.map fun c => A.cellText c.1 c.2.1 c.2.2 := by
      rw [← transitionLines_eq, htransitions, transitionLines_eq]
      simp only [cellText, hname]
    refine eq_of_map_eq (fun c hc d hd hcd => ?_) hlines
    have hd' := cell_wellFormed hd
    rcases cell_eq_of_cellText_eq hA (cell_wellFormed hc).1 (hlength ▸ hd'.1)
      (cell_wellFormed hc).2 ⟨halphabet ▸ hd'.2.symbol_mem, hd'.2.targets_ne_nil,
        hlength ▸ hd'.2.target_lt⟩ hcd with ⟨hsource, hsymbol, htargets⟩
    exact Prod.ext hsource (Prod.ext hsymbol htargets)
  exact eq_of_parts_eq hstates halphabet hstart haccepting htransitions

/-- A symbol that is made of the marks in a line for transitions. -/
def markSymbol : Symbol :=
  ⟨":>:", by simp⟩

/-- Two states, with arrows by this symbol between some of them. -/
def marked (arrows : List (Fin 2 × Fin 2)) : Automaton :=
  Automaton.ofArrows
    { states := [⟨"l", by simp⟩, ⟨"r", by simp⟩]
      alphabet := .ofList [markSymbol]
      start := 0
      accepting := .ofList [1]
      transitions := .empty }
    (by decide) (by decide) (arrows.map fun e => ⟨e.1, markSymbol, e.2⟩)
    (by
      intro e he
      rcases List.mem_map.mp he with ⟨ends, -, rfl⟩
      exact ⟨ends.1.isLt, by simp, ends.2.isLt⟩)

/-- Arrows that are linked in another order, and once more, do not show in the listing, nor
in the automaton. -/
theorem marked_eq_marked :
    (marked [(0, 1), (1, 0), (0, 0)]).ListsPlainly ∧
      (marked [(0, 1), (0, 0), (1, 0), (0, 1)]).ListsPlainly ∧
      (marked [(0, 1), (1, 0), (0, 0)]).listing =
        (marked [(0, 1), (0, 0), (1, 0), (0, 1)]).listing ∧
      marked [(0, 1), (1, 0), (0, 0)] = marked [(0, 1), (0, 0), (1, 0), (0, 1)] := by
  have hplain : (marked [(0, 1), (1, 0), (0, 0)]).ListsPlainly := by decide
  have hplain' : (marked [(0, 1), (0, 0), (1, 0), (0, 1)]).ListsPlainly := by decide
  have hlisting : (marked [(0, 1), (1, 0), (0, 0)]).listing =
      (marked [(0, 1), (0, 0), (1, 0), (0, 1)]).listing := by decide
  exact ⟨hplain, hplain', hlisting, eq_of_listing_eq hplain hplain' hlisting⟩

end Automaton
end FormalLang
