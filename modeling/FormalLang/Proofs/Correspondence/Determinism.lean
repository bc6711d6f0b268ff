import FormalLang.Proofs.Correspondence.AutomatonOfGrammar
import FormalLang.Proofs.Grammar.Membership

/-!
# Grammars of deterministic automata

A state of the automaton of a regular grammar leads along a terminal to one state for every
alternative that begins with the terminal.  So the automaton is deterministic when no
non-terminal has two such alternatives.  Then the next letter of a word decides which rule a
derivation of the word applies next, and there is no other derivation.  Derivations are
written down step by step for this, each step with its rule and its place.

Main results:

- Theorem `Productions.derives_iff_exists_derivesBy`: what is derived is derived by steps
  that can be written down.
- Theorem `Grammar.automaton_isDeterministic_iff`: determinism, seen from the rules.
- Theorem `Grammar.steps_eq`: a form derives a word in one way at most.
- Theorem `Grammar.deterministic_derives_uniquely`: both of it for the automaton of a regular
  grammar.
-/

namespace FormalLang

open SententialForm

/-! ## Derivations step by step -/

/-- A rewriting step as it is written down: a rule, and what stands before and behind the
left-hand side that is replaced. -/
structure RewriteStep where
  before : SententialForm
  lhs : SententialForm
  rhs : SententialForm
  after : SententialForm

namespace RewriteStep

/-- The form that is rewritten. -/
def source (x : RewriteStep) : SententialForm :=
  x.before ++ x.lhs ++ x.after

/-- The form that comes out. -/
def target (x : RewriteStep) : SententialForm :=
  x.before ++ x.rhs ++ x.after

end RewriteStep

namespace Productions

variable {P : Productions} {s t : SententialForm} {x : RewriteStep} {steps : List RewriteStep}

/-- Given steps lead one after the other from one form to another. -/
inductive DerivesBy (P : Productions) :
    List RewriteStep → SententialForm → SententialForm → Prop
  | nil (s : SententialForm) : DerivesBy P [] s s
  | cons {x : RewriteStep} {steps : List RewriteStep} {t : SententialForm} :
      P.HasRule x.lhs x.rhs → DerivesBy P steps x.target t →
        DerivesBy P (x :: steps) x.source t

theorem derivesBy_nil_iff : P.DerivesBy [] s t ↔ s = t := by
  constructor
  · intro h
    cases h
    rfl
  · rintro rfl
    exact .nil s

theorem derivesBy_cons_iff :
    P.DerivesBy (x :: steps) s t ↔
      s = x.source ∧ P.HasRule x.lhs x.rhs ∧ P.DerivesBy steps x.target t := by
  constructor
  · intro h
    cases h with
    | cons hrule hrest => exact ⟨rfl, hrule, hrest⟩
  · intro h
    rcases h with ⟨rfl, hrule, hrest⟩
    exact .cons hrule hrest

/-- What is derived is derived by some steps. -/
theorem derives_iff_exists_derivesBy : P.Derives s t ↔ ∃ steps, P.DerivesBy steps s t := by
  constructor
  · intro h
    induction h using Relation.ReflTransGen.head_induction_on with
    | refl => exact ⟨[], .nil t⟩
    | head hstep _ ih =>
        rcases ih with ⟨steps, hsteps⟩
        cases hstep with
        | @intro before after lhs rhs hrule =>
            exact ⟨⟨before, lhs, rhs, after⟩ :: steps,
              derivesBy_cons_iff.mpr ⟨rfl, hrule, hsteps⟩⟩
  · intro h
    rcases h with ⟨steps, hsteps⟩
    induction hsteps with
    | nil s => exact .refl s
    | @cons x _ _ hrule _ ih =>
        exact Relation.ReflTransGen.head (.intro x.before x.after hrule) ih

/-- No non-terminal has two alternatives that begin with the same terminal. -/
def Unbranched (P : Productions) : Prop :=
  ∀ A a s s', P.HasRule [.nonTerminal A] (.terminal a :: s) →
    P.HasRule [.nonTerminal A] (.terminal a :: s') → s = s'

end Productions

namespace Grammar

variable {g : Grammar} {A a : Symbol} {v w : Word} {state : Option Symbol}

/-! ## Rules and moves -/

theorem ofState_nil_injective {state state' : Option Symbol}
    (h : ofState [] state = ofState [] state') : state = state' := by
  cases state <;> cases state' <;> simp_all [ofState, ofWord]

/-- A rule of a regular grammar that begins with a terminal is a move of the recognizer. -/
theorem hasRule_terminal_iff (h : g.grammarClass = .regular) {s : SententialForm} :
    g.productions.HasRule [.nonTerminal A] (.terminal a :: s) ↔
      ∃ next ∈ g.derivationSteps (some A) a, s = ofState [] next := by
  simp only [mem_derivationSteps_iff]
  constructor
  · intro hrule
    rcases exists_side_of_hasRule h hrule with ⟨B, side, -, hside, -⟩
    rw [hside] at hrule
    cases side with
    | erasing => cases hside
    | ending b =>
        cases hside
        exact ⟨none, ⟨.ending a, hrule, rfl, rfl⟩, rfl⟩
    | continuing b B =>
        cases hside
        exact ⟨some B, ⟨.continuing a B, hrule, rfl, rfl⟩, rfl⟩
  · intro hmove
    rcases hmove with ⟨next, ⟨side, hrule, hword, rfl⟩, rfl⟩
    have hform : side.toForm = .terminal a :: ofState [] side.state := by
      rw [RegularSide.toForm_eq, hword]
      exact ofState_append [a] [] side.state
    exact hform ▸ hrule

theorem placeOf_injective {p q : Option Symbol} (hp : p ∈ g.recognizer.states)
    (hq : q ∈ g.recognizer.states) (h : g.placeOf p = g.placeOf q) : p = q := by
  cases p with
  | none =>
      cases q with
      | none => rfl
      | some B =>
          have hlt := stateOf_lt_finalState (mem_recognizer_states_some.mp hq)
          exact (Nat.ne_of_gt hlt h).elim
  | some B =>
      have hB := mem_recognizer_states_some.mp hp
      cases q with
      | none => exact (Nat.ne_of_lt (stateOf_lt_finalState hB) h).elim
      | some C => exact congrArg some (stateOf_injective hB h)

/-- The automaton of a regular grammar is deterministic exactly when no non-terminal has two
alternatives that begin with the same terminal. -/
theorem automaton_isDeterministic_iff (h : g.grammarClass = .regular) :
    g.automaton.isDeterministic = true ↔ g.productions.Unbranched := by
  rw [Automaton.isDeterministic_iff]
  constructor
  · intro hdet A a s s' hrule hrule'
    have hA := mem_recognizer_states_some.mpr (nonTerminal_mem_of_hasRule hrule)
    rcases (hasRule_terminal_iff h).mp hrule with ⟨next, hnext, rfl⟩
    rcases (hasRule_terminal_iff h).mp hrule' with ⟨next', hnext', rfl⟩
    have hplaces : g.placeOf next = g.placeOf next' :=
      hdet (g.placeOf (some A)) a _ _ ((mem_targets_placeOf_iff hA).mpr ⟨next, hnext, rfl⟩)
        ((mem_targets_placeOf_iff hA).mpr ⟨next', hnext', rfl⟩)
    have hstates := g.recognizer.next_mem (some A) a
    rw [placeOf_injective (hstates next hnext) (hstates next' hnext') hplaces]
  · intro hunbranched p a q r hq hr
    rcases mem_arrows_iff.mp (mem_targets_automaton_iff.mp hq) with ⟨A, hA, rfl, next, hnext, rfl⟩
    rcases mem_arrows_iff.mp (mem_targets_automaton_iff.mp hr) with
      ⟨B, -, hplace, next', hnext', rfl⟩
    have hAB : A = B := stateOf_injective hA hplace
    subst hAB
    have hforms := hunbranched A a _ _ ((hasRule_terminal_iff h).mpr ⟨next, hnext, rfl⟩)
      ((hasRule_terminal_iff h).mpr ⟨next', hnext', rfl⟩)
    rw [ofState_nil_injective hforms]

/-! ## Steps of regular grammars -/

/-- The step by which a rule is applied to the non-terminal behind a word. -/
def stepBehind (v : Word) (A : Symbol) (side : RegularSide) : RewriteStep :=
  ⟨ofWord v, [.nonTerminal A], side.toForm, []⟩

theorem target_stepBehind (v : Word) (A : Symbol) (side : RegularSide) :
    (stepBehind v A side).target = ofState (v ++ side.word) side.state := by
  rw [stepBehind, RewriteStep.target, List.append_nil, RegularSide.toForm_eq, ← ofState_append]

/-- The first step from a word with a state behind it is a rule of the state. -/
theorem exists_stepBehind (h : g.grammarClass = .regular) {x : RewriteStep}
    {steps : List RewriteStep} {t : SententialForm}
    (hsteps : g.productions.DerivesBy (x :: steps) (ofState v state) t) :
    ∃ A side, state = some A ∧ x = stepBehind v A side ∧
      g.productions.HasRule [.nonTerminal A] side.toForm ∧
        g.productions.DerivesBy steps (ofState (v ++ side.word) side.state) t := by
  rcases Productions.derivesBy_cons_iff.mp hsteps with ⟨hsource, hrule, hrest⟩
  rcases x with ⟨before, lhs, rhs, after⟩
  rcases exists_side_of_hasRule h hrule with ⟨A, side, rfl, rfl, -⟩
  rcases ofState_eq_append_iff.mp hsource with ⟨rfl, rfl, rfl⟩
  refine ⟨A, side, rfl, rfl, hrule, ?_⟩
  rw [← target_stepBehind v A side]
  exact hrest

/-- The word of a side is the first letter of what is read by the side and after it, if there
is one. -/
theorem word_eq_take {side : RegularSide} {rest : Word}
    (haccepts : g.recognizer.AcceptsFrom side.state rest) :
    side.word = (side.word ++ rest).take 1 := by
  cases side with
  | erasing => rw [acceptsFrom_none_iff.mp haccepts]; rfl
  | ending a => rfl
  | continuing a B => rfl

/-- In an unbranched regular grammar the letters that are still to come decide the rule. -/
theorem side_eq (hunbranched : g.productions.Unbranched) {side side' : RegularSide}
    (hrule : g.productions.HasRule [.nonTerminal A] side.toForm)
    (hrule' : g.productions.HasRule [.nonTerminal A] side'.toForm)
    (hword : side.word = side'.word) : side = side' := by
  cases side <;> cases side' <;> cases hword
  case erasing.erasing => rfl
  case ending.ending a => rfl
  case ending.continuing a B => cases hunbranched A a _ _ hrule hrule'
  case continuing.ending a B => cases hunbranched A a _ _ hrule hrule'
  case continuing.continuing a B C =>
    cases hunbranched A a _ _ hrule hrule'
    rfl

/-- A word with a state behind it derives a word in one way at most.  By induction on the
steps: they are none when no state is left, and else begin with the rule that the next letter
decides. -/
theorem steps_eq (h : g.grammarClass = .regular) (hunbranched : g.productions.Unbranched)
    {steps steps' : List RewriteStep}
    (hsteps : g.productions.DerivesBy steps (ofState v state) (ofWord w))
    (hsteps' : g.productions.DerivesBy steps' (ofState v state) (ofWord w)) : steps = steps' := by
  induction steps generalizing v state steps' with
  | nil =>
      have hform := Productions.derivesBy_nil_iff.mp hsteps
      rcases ofWord_eq_ofState_iff.mp hform.symm with ⟨rfl, -⟩
      cases steps' with
      | nil => rfl
      | cons x steps' =>
          rcases exists_stepBehind h hsteps' with ⟨A, side, hstate, -⟩
          cases hstate
  | cons x steps ih =>
      rcases exists_stepBehind h hsteps with ⟨A, side, rfl, rfl, hrule, hrest⟩
      cases steps' with
      | nil =>
          have hform := Productions.derivesBy_nil_iff.mp hsteps'
          cases (ofWord_eq_ofState_iff.mp hform.symm).1
      | cons x' steps' =>
          rcases exists_stepBehind h hsteps' with ⟨B, side', hstate, rfl, hrule', hrest'⟩
          cases hstate
          have hderives := Productions.derives_iff_exists_derivesBy.mpr ⟨_, hrest⟩
          have hderives' := Productions.derives_iff_exists_derivesBy.mpr ⟨_, hrest'⟩
          rcases acceptsFrom_of_derives h hderives with ⟨rest, hw, haccepts⟩
          rcases acceptsFrom_of_derives h hderives' with ⟨rest', hw', haccepts'⟩
          rw [hw, List.append_assoc, List.append_assoc] at hw'
          have hword : side.word = side'.word := by
            rw [word_eq_take haccepts, word_eq_take haccepts', List.append_cancel_left hw']
          cases side_eq hunbranched hrule hrule' hword
          rw [ih hrest hrest']

/-- Whether the automaton of a regular grammar is deterministic is seen from the rules: it is
when no non-terminal has two alternatives that begin with the same terminal.  Then the start
symbol derives every word in one way at most. -/
theorem deterministic_derives_uniquely (h : g.grammarClass = .regular) :
    ∃ A, g.toAutomaton = .ok A ∧ (A.isDeterministic = true ↔ g.productions.Unbranched) ∧
      (A.isDeterministic = true → ∀ w steps steps',
        g.productions.DerivesBy steps [.nonTerminal g.start] (ofWord w) →
          g.productions.DerivesBy steps' [.nonTerminal g.start] (ofWord w) → steps = steps') := by
  refine ⟨g.automaton, ifRegular_of_regular h _, automaton_isDeterministic_iff h, ?_⟩
  intro hdet w steps steps' hsteps hsteps'
  have hunbranched := (automaton_isDeterministic_iff h).mp hdet
  have hstart : ([.nonTerminal g.start] : SententialForm) = ofState [] (some g.start) := rfl
  rw [hstart] at hsteps hsteps'
  exact steps_eq h hunbranched hsteps hsteps'

/-- The grammar `evenWords` without its rule that ends with a letter. -/
def pairedWords : Grammar :=
  { evenWords.toPresentation with
    productions := .ofLines
      [([.nonTerminal evenWords.start], [[.terminal evenLetter, .nonTerminal evenPartner], []]),
        ([.nonTerminal evenPartner], [[.terminal evenLetter, .nonTerminal evenWords.start]])]
    wellFormed := Presentation.fault?_eq_none_iff.mp (by decide) }

/-- Without this rule the automaton is deterministic, and there is only one derivation of two
letters. -/
theorem pairedWords_derives_uniquely :
    evenWords.grammarClass = .regular ∧ evenWords.automaton.isDeterministic = false ∧
      ¬evenWords.productions.Unbranched ∧
    pairedWords.grammarClass = .regular ∧ pairedWords.automaton.isDeterministic = true ∧
      pairedWords.productions.Unbranched ∧
      ∃ steps,
        pairedWords.productions.DerivesBy steps [.nonTerminal pairedWords.start]
          (ofWord [evenLetter, evenLetter]) ∧
        ∀ steps', pairedWords.productions.DerivesBy steps' [.nonTerminal pairedWords.start]
          (ofWord [evenLetter, evenLetter]) → steps' = steps := by
  have heven : evenWords.grammarClass = .regular := by decide
  have hpaired : pairedWords.grammarClass = .regular := by decide
  have hbranches : evenWords.automaton.isDeterministic = false := by decide
  have hdet : pairedWords.automaton.isDeterministic = true := by decide
  have hanswer : pairedWords.contains [evenLetter, evenLetter] = .ok true := by
    rw [contains_of_regular hpaired, Except.ok.injEq]
    decide
  rcases deterministic_derives_uniquely heven with ⟨A, hA, hiff, -⟩
  rcases deterministic_derives_uniquely hpaired with ⟨B, hB, hiff', hunique⟩
  rw [toAutomaton, ifRegular_of_regular heven, Except.ok.injEq] at hA
  rw [toAutomaton, ifRegular_of_regular hpaired, Except.ok.injEq] at hB
  subst hA hB
  rw [contains_of_regular hpaired, Except.ok.injEq, recognizes_iff_derives hpaired] at hanswer
  rcases Productions.derives_iff_exists_derivesBy.mp hanswer with ⟨steps, hsteps⟩
  refine ⟨heven, hbranches, ?_, hpaired, hdet, hiff'.mp hdet, steps, hsteps, ?_⟩
  · rw [← hiff, hbranches]
    exact Bool.false_ne_true
  · exact fun steps' hsteps' => hunique hdet _ _ _ hsteps' hsteps

end Grammar
end FormalLang
