import FormalLang.Grammar.Sampling
import FormalLang.Proofs.Grammar.Membership

/-!
# Words that are drawn

A word is drawn by applying rules to one non-terminal after the other.  Where a
non-terminal is met too deep, or has no alternatives, it is left as it is, which is
reported by an event, and it does not show in the word.  So the word is a form that can be
derived, less its non-terminals, and there are as many of these as events of the kind.

Main results:

- Theorem `Random.draw_below`: an index that is drawn is below its bound.
- Theorem `Grammar.deriveForm_nonTerminal_iff`: a form is dealt with from left to right.
- Theorem `Grammar.deriveBy_succ_iff`: a rule is picked for a non-terminal.
- Theorem `Grammar.deriveBy_accounts`: what a word that is drawn accounts for.
- Theorem `Grammar.drawn_words_derive`: drawing gives a word, unless a draw fails, and a
  word that is drawn without such events is derived.
-/

namespace FormalLang

/-! ## Indices that are drawn -/

namespace Random

/-- All indices are drawn below their bounds. -/
def Draw.Below (draw : Draw) : Prop :=
  ∀ n words i rest, 0 < n → draw n words = some (i, rest) → i < n

theorem index?_lt {n i : Nat} {v : UInt64} (h : index? n v = some i) (hn : 0 < n) : i < n := by
  simp only [index?, Option.ite_none_right_eq_some, Option.some.injEq] at h
  rw [← h.2]
  exact Nat.div_lt_of_lt_mul (Nat.mul_lt_mul_of_pos_right v.toNat_lt hn)

theorem draw_below : Draw.Below draw := by
  intro n words i rest hn h
  induction words with
  | nil => contradiction
  | cons v words ih =>
      rw [draw] at h
      cases hindex : index? n v with
      | none =>
          rw [hindex] at h
          exact ih h
      | some j =>
          rw [hindex] at h
          cases h
          exact index?_lt hindex hn

end Random

/-! ## Forms less their non-terminals -/

namespace SententialForm

variable {s t : SententialForm}

/-- The word of the terminals of a form. -/
def terminals : SententialForm → Word
  | [] => []
  | .terminal a :: s => a :: terminals s
  | .nonTerminal _ :: s => terminals s

/-- The number of non-terminals in a form. -/
def openCount (s : SententialForm) : Nat :=
  s.countP GrammarSymbol.isNonTerminal

@[simp]
theorem terminals_append (s t : SententialForm) :
    terminals (s ++ t) = terminals s ++ terminals t := by
  fun_induction terminals s with
  | case1 => rfl
  | case2 a s ih => exact congrArg (a :: ·) ih
  | case3 A s ih => exact ih

@[simp]
theorem openCount_append (s t : SententialForm) : openCount (s ++ t) = openCount s + openCount t :=
  List.countP_append

/-- A form without non-terminals is its word. -/
theorem ofWord_terminals (h : openCount s = 0) : ofWord (terminals s) = s := by
  fun_induction terminals s with
  | case1 => rfl
  | case2 a s ih =>
      have hrest : openCount s = 0 := by simpa [openCount, GrammarSymbol.isNonTerminal] using h
      exact congrArg (GrammarSymbol.terminal a :: ·) (ih hrest)
  | case3 A s ih => simp [openCount, GrammarSymbol.isNonTerminal] at h

end SententialForm

/-! ## Cuts -/

/-- Whether an event says that a non-terminal adds nothing to the word. -/
def Event.isCut : Event → Bool
  | depthBound _ => true
  | noProductions _ => true
  | _ => false

/-- The number of cuts on the way to a word. -/
def Generated.cuts (x : Generated) : Nat :=
  x.events.countP Event.isCut

namespace Grammar

variable {g : Grammar} {s : SententialForm} {words : List UInt64} {x : Generated}

/-! ## Forms from left to right -/

section Forms

variable {derive : Symbol → List UInt64 → Option Generated} {a A : Symbol}

theorem deriveForm_nil : deriveForm derive [] words = some ⟨[], [], words⟩ :=
  rfl

/-- A terminal in front of a form comes before its word. -/
theorem deriveForm_terminal_iff :
    deriveForm derive (.terminal a :: s) words = some x ↔
      ∃ after, deriveForm derive s words = some after ∧
        { after with word := a :: after.word } = x := by
  rw [deriveForm]
  simp [Option.bind_eq_some_iff]

/-- What comes from a non-terminal in front of a form comes before what comes from the form,
which is given the random words that are left. -/
theorem deriveForm_nonTerminal_iff :
    deriveForm derive (.nonTerminal A :: s) words = some x ↔
      ∃ here after, derive A words = some here ∧ deriveForm derive s here.rest = some after ∧
        ⟨here.word ++ after.word, here.events ++ after.events, after.rest⟩ = x := by
  rw [deriveForm]
  simp [Option.bind_eq_some_iff]

end Forms

/-! ## What a word accounts for -/

/-- A word accounts for a form: it is what is left of another form, derived from it, when
the non-terminals at which it was cut are taken out. -/
def Accounts (g : Grammar) (s : SententialForm) (x : Generated) : Prop :=
  ∃ t, g.productions.Derives s t ∧ t.terminals = x.word ∧ t.openCount = x.cuts

/-- A non-terminal at which is cut is the form that is left. -/
theorem Accounts.cut {X : Symbol} {e : Event} (he : e.isCut = true) :
    g.Accounts [.nonTerminal X] ⟨[], [e], words⟩ := by
  refine ⟨[.nonTerminal X], .refl _, rfl, ?_⟩
  simp [Generated.cuts, SententialForm.openCount, GrammarSymbol.isNonTerminal, he]

/-- A word without cuts is derived from the form for which it accounts. -/
theorem Accounts.derives (h : g.Accounts s x) (hcuts : ∀ e ∈ x.events, e.isCut = false) :
    g.productions.Derives s (.ofWord x.word) := by
  rcases h with ⟨t, ht, hword, hopen⟩
  have hnone : x.cuts = 0 := by
    rw [Generated.cuts, List.countP_eq_zero]
    intro e he
    rw [hcuts e he]
    exact Bool.false_ne_true
  rw [← hword, SententialForm.ofWord_terminals (hopen.trans hnone)]
  exact ht

/-- What accounts for a right-hand side accounts for the non-terminal. -/
theorem Accounts.applied {X : Symbol} {rhs : SententialForm}
    (hrule : g.productions.HasRule [.nonTerminal X] rhs) (h : g.Accounts rhs x) :
    g.Accounts [.nonTerminal X] { x with events := .applied X rhs :: x.events } := by
  rcases h with ⟨t, ht, hword, hcuts⟩
  refine ⟨t, (Productions.Derives.of_hasRule hrule).trans ht, hword, ?_⟩
  rw [hcuts, Generated.cuts, Generated.cuts, List.countP_cons_of_neg]
  simp [Event.isCut]

/-- A form is accounted for from left to right, if its non-terminals are. -/
theorem deriveForm_accounts {derive : Symbol → List UInt64 → Option Generated}
    (hderive : ∀ A words x, derive A words = some x → g.Accounts [.nonTerminal A] x)
    (h : deriveForm derive s words = some x) : g.Accounts s x := by
  induction s generalizing words x with
  | nil =>
      cases h
      exact ⟨[], .refl _, rfl, rfl⟩
  | cons y s ih =>
      cases y with
      | terminal a =>
          rcases deriveForm_terminal_iff.mp h with ⟨after, hafter, rfl⟩
          rcases ih hafter with ⟨t, ht, hword, hcuts⟩
          refine ⟨.terminal a :: t, ht.append_left [.terminal a], congrArg (a :: ·) hword, ?_⟩
          rw [SententialForm.openCount, List.countP_cons_of_neg Bool.false_ne_true]
          exact hcuts
      | nonTerminal A =>
          rcases deriveForm_nonTerminal_iff.mp h with ⟨here, after, hhere, hafter, rfl⟩
          rcases hderive A words here hhere with ⟨t, ht, hword, hcuts⟩
          rcases ih hafter with ⟨t', ht', hword', hcuts'⟩
          refine ⟨t ++ t', ht.append ht', ?_, ?_⟩
          · rw [SententialForm.terminals_append, hword, hword']
          · rw [SententialForm.openCount_append, hcuts, hcuts', Generated.cuts, Generated.cuts,
              Generated.cuts, List.countP_append]

/-! ## Rules that are picked -/

variable {draw : Random.Draw} {depth : Nat} {X : Symbol} {rest : List UInt64}

/-- A right-hand side of a non-terminal is picked with some random words, and the other ones
are left. -/
def Picks (draw : Random.Draw) (g : Grammar) (X : Symbol) (words : List UInt64)
    (rhs : SententialForm) (rest : List UInt64) : Prop :=
  ∃ i, draw (g.alternatives X).length words = some (i, rest) ∧ (g.alternatives X)[i]? = some rhs

theorem Picks.hasRule {rhs : SententialForm} (h : g.Picks draw X words rhs rest) :
    g.productions.HasRule [.nonTerminal X] rhs := by
  rcases h with ⟨i, -, hget⟩
  exact mem_alternatives.mp (List.mem_of_getElem? hget)

/-- Above the last level a non-terminal without alternatives is cut, and for another one a
rule is picked and its right-hand side is dealt with. -/
theorem deriveBy_succ_iff (hdraw : draw.Below) :
    g.deriveBy draw (depth + 1) X words = some x ↔
      g.alternatives X = [] ∧ x = ⟨[], [.noProductions X], words⟩ ∨
      ∃ rhs rest y, g.Picks draw X words rhs rest ∧
        deriveForm (g.deriveBy draw depth) rhs rest = some y ∧
          x = { y with events := .applied X rhs :: y.events } := by
  rw [deriveBy]
  constructor
  · intro h
    split at h
    · rename_i hnone
      cases h
      exact Or.inl ⟨List.isEmpty_iff.mp hnone, rfl⟩
    · rename_i hsome
      have hpos : 0 < (g.alternatives X).length := by
        rw [List.length_pos_iff]
        simpa using hsome
      rcases Option.bind_eq_some_iff.mp h with ⟨⟨i, rest⟩, hindex, h⟩
      rcases Option.bind_eq_some_iff.mp h with ⟨y, hy, heq⟩
      cases heq
      have hget := List.getElem?_eq_getElem (hdraw _ _ _ _ hpos hindex)
      refine Or.inr ⟨_, rest, y, ⟨i, hindex, hget⟩, ?_, ?_⟩
      · rwa [List.getD_eq_getElem?_getD, hget] at hy
      · rw [List.getD_eq_getElem?_getD, hget, Option.getD_some]
  · intro h
    rcases h with ⟨hnone, rfl⟩ | ⟨rhs, rest, y, ⟨i, hindex, hget⟩, hy, rfl⟩
    · rw [hnone]
      rfl
    · have hsome : ¬(g.alternatives X).isEmpty = true := by
        rw [List.isEmpty_iff]
        exact List.ne_nil_of_mem (List.mem_of_getElem? hget)
      rw [if_neg hsome, hindex, Option.bind_eq_bind, Option.bind_some]
      simp only [List.getD_eq_getElem?_getD, hget, Option.getD_some, hy]
      rfl

/-- A word that is drawn from a non-terminal accounts for it. -/
theorem deriveBy_accounts (hdraw : draw.Below) (h : g.deriveBy draw depth X words = some x) :
    g.Accounts [.nonTerminal X] x := by
  induction depth generalizing X words x with
  | zero =>
      cases h
      exact .cut rfl
  | succ depth ih =>
      rcases (deriveBy_succ_iff hdraw).mp h with ⟨-, rfl⟩ | ⟨rhs, rest, y, hpick, hy, rfl⟩
      · exact .cut rfl
      · exact .applied hpick.hasRule (deriveForm_accounts (fun A ws z => ih) hy)

/-! ## Draws that do not fail -/

/-- A form is dealt with, if all non-terminals are. -/
theorem deriveForm_isSome {derive : Symbol → List UInt64 → Option Generated}
    (hderive : ∀ A words, (derive A words).isSome = true) (s : SententialForm)
    (words : List UInt64) : (deriveForm derive s words).isSome = true := by
  simp only [Option.isSome_iff_exists] at hderive ⊢
  induction s generalizing words with
  | nil => exact ⟨_, rfl⟩
  | cons y s ih =>
      cases y with
      | terminal a =>
          rcases ih words with ⟨after, hafter⟩
          exact ⟨_, deriveForm_terminal_iff.mpr ⟨after, hafter, rfl⟩⟩
      | nonTerminal A =>
          rcases hderive A words with ⟨here, hhere⟩
          rcases ih here.rest with ⟨after, hafter⟩
          exact ⟨_, deriveForm_nonTerminal_iff.mpr ⟨here, after, hhere, hafter, rfl⟩⟩

/-- A word is drawn, if no draw fails. -/
theorem deriveBy_isSome (hdraw : ∀ n words, 0 < n → (draw n words).isSome = true) (depth : Nat)
    (X : Symbol) (words : List UInt64) : (g.deriveBy draw depth X words).isSome = true := by
  induction depth generalizing X words with
  | zero => rfl
  | succ depth ih =>
      rw [deriveBy]
      split
      · rfl
      · rename_i hsome
        have hpos : 0 < (g.alternatives X).length := by
          rw [List.length_pos_iff]
          simpa using hsome
        rcases Option.isSome_iff_exists.mp (hdraw _ words hpos) with ⟨⟨i, rest⟩, hindex⟩
        rcases Option.isSome_iff_exists.mp
          (deriveForm_isSome ih ((g.alternatives X).getD i []) rest) with ⟨y, hy⟩
        simp only [hindex, Option.bind_eq_bind, Option.bind_some, hy]
        rfl

/-- From every non-terminal a word is drawn, unless a draw fails.  It is what is left of a
form derived from the non-terminal when the non-terminals in the form are taken out, and
these are as many as cuts were reported.  A word without cuts is itself derived. -/
theorem drawn_words_derive (hdraw : draw.Below) (g : Grammar) (depth : Nat) (X : Symbol)
    (words : List UInt64) :
    ((∀ n words, 0 < n → (draw n words).isSome = true) →
      (g.deriveBy draw depth X words).isSome = true) ∧
    ∀ x, g.deriveBy draw depth X words = some x →
      (∃ s, g.productions.Derives [.nonTerminal X] s ∧ s.terminals = x.word ∧
        s.openCount = x.events.countP Event.isCut) ∧
      ((∀ e ∈ x.events, e.isCut = false) →
        g.productions.Derives [.nonTerminal X] (.ofWord x.word)) := by
  refine ⟨fun htotal => deriveBy_isSome htotal depth X words, fun x hx => ?_⟩
  have haccounts := deriveBy_accounts hdraw hx
  exact ⟨haccounts, haccounts.derives⟩

/-- A word of `evenWords` is drawn with the usual draws, and cut at the third level. -/
theorem evenWords_drawn :
    Random.Draw.Below Random.draw ∧
      ∃ x, evenWords.deriveBy Random.draw 2 evenWords.start [0, 0] = some x ∧
        x.word = [evenLetter, evenLetter] ∧
          ∃ s, evenWords.productions.Derives [.nonTerminal evenWords.start] s ∧
            s.terminals = [evenLetter, evenLetter] ∧ s.openCount = 1 := by
  have hx : (evenWords.deriveBy Random.draw 2 evenWords.start [0, 0]).map (fun x =>
      (x.word, x.events.countP Event.isCut)) = some ([evenLetter, evenLetter], 1) := by
    decide
  rcases Option.map_eq_some_iff.mp hx with ⟨x, hdrawn, hparts⟩
  rcases Prod.mk.inj hparts with ⟨hword, hcount⟩
  have hsound :=
    (drawn_words_derive Random.draw_below evenWords 2 evenWords.start [0, 0]).2 x hdrawn
  rw [hword, hcount] at hsound
  exact ⟨Random.draw_below, x, hdrawn, hword, hsound.1⟩

end Grammar
end FormalLang
