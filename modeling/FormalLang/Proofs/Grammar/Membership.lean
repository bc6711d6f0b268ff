import FormalLang.Proofs.Grammar.Derivation
import FormalLang.Proofs.Grammar.Recognition

/-!
# Membership as derivability

A sentential form of a right-linear grammar is a word with at most one
non-terminal behind it: the state in which the recognizer of the grammar is after
that word.  A rewriting step replaces the non-terminal by a right-linear side, so
a form derives the words that go on from it as the recognizer goes on.

Main results:

- Theorem `Grammar.rewrites_ofState_iff`: the steps from such a form.
- Theorem `Grammar.derives_ofState_iff`: the words that it derives.
- Theorem `Grammar.contains_iff_derives`: a regular grammar contains the words
  that its start symbol derives, and no other ones.
-/

namespace FormalLang

/-! ## Words in sentential forms -/

namespace SententialForm

/-- A word as a sentential form. -/
def ofWord (w : Word) : SententialForm :=
  w.map GrammarSymbol.terminal

/-- A word and behind it the non-terminal in which the derivation goes on, if it
does. -/
def ofState (w : Word) : Option Symbol → SententialForm
  | none => ofWord w
  | some A => ofWord w ++ [.nonTerminal A]

@[simp]
theorem ofWord_append (v w : Word) : ofWord (v ++ w) = ofWord v ++ ofWord w :=
  List.map_append

theorem ofWord_injective {v w : Word} (h : ofWord v = ofWord w) : v = w := by
  refine (List.map_inj_right ?_).mp h
  intro a b hab
  exact GrammarSymbol.terminal.inj hab

theorem nonTerminal_not_mem_ofWord (A : Symbol) (w : Word) : .nonTerminal A ∉ ofWord w := by
  simp [ofWord]

theorem ofState_append (v w : Word) (state : Option Symbol) :
    ofState (v ++ w) state = ofWord v ++ ofState w state := by
  cases state with
  | none => exact ofWord_append v w
  | some A => rw [ofState, ofState, ofWord_append, List.append_assoc]

/-- A form without non-terminal is a word. -/
theorem ofWord_eq_ofState_iff {v w : Word} {state : Option Symbol} :
    ofWord w = ofState v state ↔ state = none ∧ w = v := by
  constructor
  · intro h
    cases state with
    | none => exact ⟨rfl, ofWord_injective h⟩
    | some A =>
        have hmem : .nonTerminal A ∈ ofWord w := by
          rw [h, ofState]
          simp
        exact (nonTerminal_not_mem_ofWord A w hmem).elim
  · intro h
    rcases h with ⟨rfl, rfl⟩
    rfl

/-- The only non-terminal stands behind the word. -/
theorem ofState_eq_append_iff {w : Word} {state : Option Symbol} {A : Symbol}
    {before after : SententialForm} :
    ofState w state = before ++ [.nonTerminal A] ++ after ↔
      state = some A ∧ before = ofWord w ∧ after = [] := by
  constructor
  · intro h
    cases state with
    | none =>
        have hmem : .nonTerminal A ∈ ofWord w := by
          rw [show ofWord w = before ++ [.nonTerminal A] ++ after from h]
          simp
        exact (nonTerminal_not_mem_ofWord A w hmem).elim
    | some B =>
        cases List.eq_nil_or_concat after with
        | inl hafter =>
            subst hafter
            rw [ofState, List.append_nil] at h
            have hlast := List.append_inj' h rfl
            have hB := List.cons.inj hlast.2
            exact ⟨congrArg some (GrammarSymbol.nonTerminal.inj hB.1), hlast.1.symm, rfl⟩
        | inr hafter =>
            -- Then the non-terminal `A` would stand within the word.
            rcases hafter with ⟨rest, x, hafter⟩
            rw [ofState, hafter, List.concat_eq_append, ← List.append_assoc] at h
            have hmem : .nonTerminal A ∈ ofWord w := by
              rw [(List.append_inj' h rfl).1]
              simp
            exact (nonTerminal_not_mem_ofWord A w hmem).elim
  · intro h
    rcases h with ⟨rfl, rfl, rfl⟩
    rw [ofState, List.append_nil]

end SententialForm

open SententialForm

theorem RegularSide.toForm_eq (side : RegularSide) :
    side.toForm = ofState side.word side.state := by
  cases side <;> rfl

namespace Grammar

variable {g : Grammar}

/-! ## Derivations of right-linear grammars -/

/-- A rule of a regular grammar has a non-terminal on its left and a right-linear
side on its right, which is empty for the start symbol only. -/
theorem exists_side_of_hasRule (h : g.grammarClass = .regular) {lhs rhs : SententialForm}
    (hrule : g.productions.HasRule lhs rhs) :
    ∃ A, ∃ side : RegularSide,
      lhs = [.nonTerminal A] ∧ rhs = side.toForm ∧ (side = .erasing → A = g.start) := by
  rw [grammarClass_eq_regular_iff, Productions.isRightLinear_iff] at h
  rcases h.1 lhs (Productions.mem_keys_of_hasRule hrule) with ⟨A, rfl⟩
  rcases h.2 A rhs hrule with ⟨side, hside, herasing⟩
  exact ⟨A, side, rfl, hside, herasing⟩

/-- A step from a form replaces the non-terminal behind its word by a
right-linear side. -/
theorem rewrites_ofState_iff (h : g.grammarClass = .regular) {v : Word}
    {state : Option Symbol} {t : SententialForm} :
    g.productions.Rewrites (ofState v state) t ↔
      ∃ A, ∃ side : RegularSide, state = some A ∧
        g.productions.HasRule [.nonTerminal A] side.toForm ∧
          t = ofState (v ++ side.word) side.state := by
  constructor
  · intro hstep
    rcases Productions.rewrites_iff.mp hstep with ⟨before, after, lhs, rhs, hrule, hform, rfl⟩
    rcases exists_side_of_hasRule h hrule with ⟨A, side, rfl, rfl, -⟩
    rcases ofState_eq_append_iff.mp hform with ⟨rfl, rfl, rfl⟩
    refine ⟨A, side, rfl, hrule, ?_⟩
    rw [List.append_nil, RegularSide.toForm_eq, ← ofState_append]
  · intro hside
    rcases hside with ⟨A, side, rfl, hrule, rfl⟩
    refine Productions.rewrites_iff.mpr ⟨ofWord v, [], _, _, hrule, ?_, ?_⟩
    · rw [ofState, List.append_nil]
    · rw [List.append_nil, RegularSide.toForm_eq, ← ofState_append]

/-- What a form derives goes on from its word as the recognizer does.  By
induction on the derivation from its first step on. -/
theorem acceptsFrom_of_derives (h : g.grammarClass = .regular) {v w : Word}
    {state : Option Symbol} (hderives : g.productions.Derives (ofState v state) (ofWord w)) :
    ∃ rest, w = v ++ rest ∧ g.recognizer.AcceptsFrom state rest := by
  generalize hs : ofState v state = s at hderives
  induction hderives using Relation.ReflTransGen.head_induction_on generalizing v state with
  | refl =>
      rcases ofWord_eq_ofState_iff.mp hs.symm with ⟨rfl, rfl⟩
      exact ⟨[], (List.append_nil w).symm, acceptsFrom_none_iff.mpr rfl⟩
  | head hstep _ ih =>
      subst hs
      rcases (rewrites_ofState_iff h).mp hstep with ⟨A, side, rfl, hrule, hnext⟩
      rcases ih hnext.symm with ⟨rest, hw, haccepts⟩
      exact ⟨side.word ++ rest, by rw [hw, List.append_assoc],
        acceptsFrom_of_hasRule hrule haccepts⟩

/-- What the recognizer accepts from a state is derived from it. -/
theorem derives_of_acceptsFrom {state : Option Symbol} {w : Word}
    (haccepts : g.recognizer.AcceptsFrom state w) :
    g.productions.Derives (ofState [] state) (ofWord w) := by
  induction w generalizing state with
  | nil =>
      cases state with
      | none => exact Productions.Derives.refl _
      | some A =>
          rw [Recognizer.acceptsFrom_nil, recognizer_final_some, hasErasingRule_iff] at haccepts
          exact Productions.Derives.of_hasRule haccepts
  | cons a w ih =>
      rcases Recognizer.acceptsFrom_cons.mp haccepts with ⟨next, hnext, haccepts⟩
      cases state with
      | none => simp [derivationSteps] at hnext
      | some A =>
          rcases mem_derivationSteps_iff.mp hnext with ⟨side, hrule, hword, rfl⟩
          have hfirst := Productions.Derives.of_hasRule hrule
          have hrest := (ih haccepts).append_left (ofWord [a])
          rw [RegularSide.toForm_eq, hword] at hfirst
          rw [← ofState_append, ← ofWord_append] at hrest
          exact hfirst.trans hrest

/-- A form derives the words that go on from it as the recognizer goes on. -/
theorem derives_ofState_iff (h : g.grammarClass = .regular) {v w : Word}
    {state : Option Symbol} :
    g.productions.Derives (ofState v state) (ofWord w) ↔
      ∃ rest, w = v ++ rest ∧ g.recognizer.AcceptsFrom state rest := by
  constructor
  · exact acceptsFrom_of_derives h
  · intro haccepts
    rcases haccepts with ⟨rest, rfl, haccepts⟩
    have hrest := (derives_of_acceptsFrom haccepts).append_left (ofWord v)
    rw [← ofState_append, ← ofWord_append, List.append_nil] at hrest
    exact hrest

/-! ## Membership -/

theorem recognizes_iff_derives (h : g.grammarClass = .regular) {w : Word} :
    g.recognizer.recognizes w = true ↔
      g.productions.Derives [.nonTerminal g.start] (ofWord w) := by
  have hstart : ([.nonTerminal g.start] : SententialForm) = ofState [] (some g.start) := rfl
  rw [Recognizer.recognizes_iff, hstart, derives_ofState_iff h, recognizer_start]
  simp

/-- A regular grammar answers every word: yes if its start symbol derives the
word, and no if not. -/
theorem contains_iff_derives (h : g.grammarClass = .regular) (w : Word) :
    (g.contains w = .ok true ↔ g.productions.Derives [.nonTerminal g.start] (ofWord w)) ∧
      (¬g.productions.Derives [.nonTerminal g.start] (ofWord w) → g.contains w = .ok false) := by
  rw [← recognizes_iff_derives h, contains_of_regular h, Except.ok.injEq, Except.ok.injEq]
  exact ⟨Iff.rfl, fun hnot => Bool.not_eq_true _ ▸ hnot⟩

/-- Two letters are derived, since the recognizer finds them. -/
theorem evenWords_derives_two :
    evenWords.grammarClass = .regular ∧
      evenWords.contains [evenLetter, evenLetter] = .ok true ∧
        evenWords.productions.Derives [.nonTerminal evenWords.start]
          (ofWord [evenLetter, evenLetter]) := by
  have hregular : evenWords.grammarClass = .regular := by decide
  have hcontains : evenWords.contains [evenLetter, evenLetter] = .ok true := by
    rw [contains_of_regular hregular, Except.ok.injEq]
    decide
  exact ⟨hregular, hcontains, (contains_iff_derives hregular _).1.mp hcontains⟩

end Grammar
end FormalLang
