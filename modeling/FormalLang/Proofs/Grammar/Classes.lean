import FormalLang.Proofs.Grammar.Membership

/-!
# What the classes say about derivations

The class of a grammar is found by looking at the shapes of its rules.  In a regular
grammar all that is derived from the start symbol is a word with at most one non-terminal
behind it.  In a grammar that is regular or context-free the parts of a form are derived
apart from each other, since no left-hand side spans two of them.  A step changes the
length of a form as much as the two sides of its rule differ, so in a grammar that is
regular or context-sensitive only the erasing of the start symbol makes a form shorter,
and in an unrestricted grammar some other rule does.

Main results:

- Theorem `Grammar.derivesLinearForms_of_regular`: the forms of a regular grammar.
- Theorem `Productions.Derives.of_append`: parts are derived apart from each other.
- Theorem `SententialForm.RewritesBy.shortens_iff`: the steps that shorten a form.
- Theorem `Grammar.grammarClass_sound`: what each class says about derivations.
-/

namespace FormalLang

/-! ## Steps by a given rule -/

namespace SententialForm

variable {lhs rhs s t : SententialForm}

/-- One rewriting step by a given rule: its left-hand side, anywhere in a sentential form,
is replaced by its right-hand side. -/
inductive RewritesBy (lhs rhs : SententialForm) : SententialForm → SententialForm → Prop
  | intro (before after : SententialForm) :
      RewritesBy lhs rhs (before ++ lhs ++ after) (before ++ rhs ++ after)

/-- A step changes the length of a form as much as the sides of its rule differ. -/
theorem RewritesBy.length_eq (h : RewritesBy lhs rhs s t) :
    s.length + rhs.length = t.length + lhs.length := by
  cases h with
  | intro before after =>
      simp only [List.length_append]
      omega

theorem RewritesBy.shortens_iff (h : RewritesBy lhs rhs s t) :
    t.length < s.length ↔ rhs.length < lhs.length := by
  have hlength := h.length_eq
  omega

/-- A rule leads from one of its sides to the other. -/
theorem RewritesBy.sides (lhs rhs : SententialForm) : RewritesBy lhs rhs lhs rhs := by
  have hstep : RewritesBy lhs rhs ([] ++ lhs ++ []) ([] ++ rhs ++ []) := .intro [] []
  simpa only [List.nil_append, List.append_nil] using hstep

/-- A symbol of two parts stands in one of them. -/
theorem append_eq_append_cons_iff {x : GrammarSymbol} {u v before after : SententialForm} :
    u ++ v = before ++ x :: after ↔
      (∃ rest, u = before ++ x :: rest ∧ after = rest ++ v) ∨
        ∃ rest, v = rest ++ x :: after ∧ before = u ++ rest := by
  constructor
  · intro h
    rcases List.append_eq_append_iff.mp h with ⟨rest, hbefore, hv⟩ | ⟨rest, hu, hafter⟩
    · exact Or.inr ⟨rest, hv, hbefore⟩
    · cases rest with
      | nil => exact Or.inr ⟨[], hafter.symm, by rw [hu, List.append_nil, List.append_nil]⟩
      | cons y rest =>
          rcases List.cons.inj hafter with ⟨rfl, hrest⟩
          exact Or.inl ⟨rest, hu, hrest⟩
  · intro h
    rcases h with ⟨rest, rfl, rfl⟩ | ⟨rest, rfl, rfl⟩
    · rw [List.append_assoc, List.cons_append]
    · rw [List.append_assoc]

/-- A step that replaces a single symbol is a step in one of two parts. -/
theorem RewritesBy.of_append {x : GrammarSymbol} {u v : SententialForm}
    (h : RewritesBy [x] rhs (u ++ v) t) :
    (∃ u', RewritesBy [x] rhs u u' ∧ t = u' ++ v) ∨
      ∃ v', RewritesBy [x] rhs v v' ∧ t = u ++ v' := by
  generalize hs : u ++ v = s at h
  cases h with
  | intro before after =>
      rw [List.append_assoc, List.singleton_append, append_eq_append_cons_iff] at hs
      rcases hs with ⟨rest, rfl, rfl⟩ | ⟨rest, rfl, rfl⟩
      · have hstep : RewritesBy [x] rhs (before ++ [x] ++ rest) (before ++ rhs ++ rest) :=
          .intro before rest
        rw [List.append_assoc before, List.singleton_append] at hstep
        exact Or.inl ⟨_, hstep, (List.append_assoc _ _ _).symm⟩
      · have hstep : RewritesBy [x] rhs (rest ++ [x] ++ after) (rest ++ rhs ++ after) :=
          .intro rest after
        rw [List.append_assoc rest [x], List.singleton_append] at hstep
        exact Or.inr ⟨_, hstep, by simp only [List.append_assoc]⟩

end SententialForm

open SententialForm

/-! ## Derivations of parts -/

namespace Productions

variable {P : Productions} {s t : SententialForm}

/-- A step is a step by some rule. -/
theorem rewrites_iff_exists_rule :
    P.Rewrites s t ↔ ∃ lhs rhs, P.HasRule lhs rhs ∧ RewritesBy lhs rhs s t := by
  constructor
  · intro h
    cases h with
    | intro before after hrule => exact ⟨_, _, hrule, .intro before after⟩
  · intro h
    rcases h with ⟨lhs, rhs, hrule, hstep⟩
    cases hstep with
    | intro before after => exact .intro before after hrule

/-- Where left-hand sides are single symbols, two parts are derived apart from each other.
By induction on the derivation, each of whose steps is in one of the parts. -/
theorem Derives.of_append (hsingle : ∀ lhs rhs, P.HasRule lhs rhs → ∃ A, lhs = [.nonTerminal A])
    {x y z : SententialForm} (h : P.Derives (x ++ y) z) :
    ∃ z₁ z₂, z = z₁ ++ z₂ ∧ P.Derives x z₁ ∧ P.Derives y z₂ := by
  induction h with
  | refl => exact ⟨x, y, rfl, .refl x, .refl y⟩
  | tail _ hstep ih =>
      rcases ih with ⟨z₁, z₂, rfl, hx, hy⟩
      rcases rewrites_iff_exists_rule.mp hstep with ⟨lhs, rhs, hrule, hby⟩
      rcases hsingle lhs rhs hrule with ⟨A, rfl⟩
      rcases hby.of_append with ⟨z', hz', rfl⟩ | ⟨z', hz', rfl⟩
      · have hnext := rewrites_iff_exists_rule.mpr ⟨_, _, hrule, hz'⟩
        exact ⟨z', z₂, rfl, hx.tail hnext, hy⟩
      · have hnext := rewrites_iff_exists_rule.mpr ⟨_, _, hrule, hz'⟩
        exact ⟨z₁, z', rfl, hx, hy.tail hnext⟩

end Productions

/-! ## The conditions of the classes -/

namespace Grammar

variable {g : Grammar} {lhs rhs : SententialForm}

/-- The condition that decides for a class, once those of more restrictive classes have
failed. -/
def ClassCondition (g : Grammar) : GrammarClass → Prop
  | .regular => g.productions.isRightLinear g.start = true
  | .contextFree => g.productions.isContextFree = true
  | .contextSensitive => g.productions.isContextSensitive g.start = true
  | .unrestricted => ¬g.productions.isContextSensitive g.start = true

/-- The condition of the class that is found is met. -/
theorem classCondition_of_eq {c : GrammarClass} (h : g.grammarClass = c) :
    g.ClassCondition c := by
  subst h
  unfold grammarClass
  split
  · assumption
  · split
    · assumption
    · split <;> assumption

/-- A grammar that is regular or context-free replaces single non-terminals. -/
theorem exists_lhs_eq (h : g.grammarClass = .regular ∨ g.grammarClass = .contextFree)
    (hrule : g.productions.HasRule lhs rhs) : ∃ A, lhs = [.nonTerminal A] := by
  rcases h with hregular | hfree
  · rcases exists_side_of_hasRule hregular hrule with ⟨A, -, hlhs, -⟩
    exact ⟨A, hlhs⟩
  · have hsides : g.productions.isContextFree = true := classCondition_of_eq hfree
    exact Productions.isContextFree_iff.mp hsides lhs (Productions.mem_keys_of_hasRule hrule)

/-- In a grammar that is regular or context-sensitive the right-hand side of a rule is the
shorter one only if the start symbol is erased. -/
theorem eq_start_of_shorter
    (h : g.grammarClass = .regular ∨ g.grammarClass = .contextSensitive)
    (hrule : g.productions.HasRule lhs rhs) (hshorter : rhs.length < lhs.length) :
    lhs = [.nonTerminal g.start] ∧ rhs = [] := by
  rcases h with hregular | hsensitive
  · rcases exists_side_of_hasRule hregular hrule with ⟨A, side, rfl, rfl, hstart⟩
    cases side with
    | erasing => exact ⟨by rw [hstart rfl], rfl⟩
    | ending a => simp [RegularSide.toForm] at hshorter
    | continuing a B => simp [RegularSide.toForm] at hshorter
  · have hlengths : g.productions.isContextSensitive g.start = true :=
      classCondition_of_eq hsensitive
    rcases Productions.isContextSensitive_iff.mp hlengths lhs rhs hrule with hle | heq
    · omega
    · exact ⟨heq.2, heq.1⟩

/-- An unrestricted grammar has a rule with a shorter right-hand side, besides the one that
erases the start symbol. -/
theorem exists_shorter_of_unrestricted (h : g.grammarClass = .unrestricted) :
    ∃ lhs rhs, g.productions.HasRule lhs rhs ∧ rhs.length < lhs.length ∧
      ¬(lhs = [.nonTerminal g.start] ∧ rhs = []) := by
  have hlengths : ¬g.productions.isContextSensitive g.start = true :=
    classCondition_of_eq h
  rw [Productions.isContextSensitive_iff] at hlengths
  by_contra hnone
  apply hlengths
  intro lhs rhs hrule
  by_cases hle : lhs.length ≤ rhs.length
  · exact Or.inl hle
  · by_contra hother
    exact hnone ⟨lhs, rhs, hrule, Nat.lt_of_not_le hle,
      fun heq => hother (Or.inr ⟨heq.2, heq.1⟩)⟩

/-! ## What the classes say -/

/-- All forms that the start symbol derives are words with at most one non-terminal behind
them. -/
def DerivesLinearForms (g : Grammar) : Prop :=
  ∀ s, g.productions.Derives [.nonTerminal g.start] s → ∃ w state, s = ofState w state

/-- The two parts of any form are derived apart from each other. -/
def DerivesApart (g : Grammar) : Prop :=
  ∀ x y z, g.productions.Derives (x ++ y) z →
    ∃ z₁ z₂, z = z₁ ++ z₂ ∧ g.productions.Derives x z₁ ∧ g.productions.Derives y z₂

/-- No step shortens a form, but for the erasing of the start symbol. -/
def ShortensByErasing (g : Grammar) : Prop :=
  ∀ lhs rhs s t, g.productions.HasRule lhs rhs → RewritesBy lhs rhs s t →
    t.length < s.length → lhs = [.nonTerminal g.start] ∧ rhs = []

/-- Some form of declared symbols is shortened by another rule than the one that erases the
start symbol. -/
def ShortensOtherwise (g : Grammar) : Prop :=
  ∃ lhs rhs s t, g.productions.HasRule lhs rhs ∧
    ¬(lhs = [.nonTerminal g.start] ∧ rhs = []) ∧ (∀ x ∈ s, g.Declares x) ∧
      RewritesBy lhs rhs s t ∧ t.length < s.length

theorem derivesLinearForms_of_regular (h : g.grammarClass = .regular) :
    g.DerivesLinearForms := by
  intro s hderives
  induction hderives with
  | refl => exact ⟨[], some g.start, rfl⟩
  | tail _ hstep ih =>
      rcases ih with ⟨w, state, rfl⟩
      rcases (rewrites_ofState_iff h).mp hstep with ⟨A, side, -, -, hnext⟩
      exact ⟨w ++ side.word, side.state, hnext⟩

theorem shortensOtherwise_of_unrestricted (h : g.grammarClass = .unrestricted) :
    g.ShortensOtherwise := by
  rcases exists_shorter_of_unrestricted h with ⟨lhs, rhs, hrule, hshorter, hother⟩
  rcases id hrule with ⟨alternatives, hentry, -⟩
  exact ⟨lhs, rhs, lhs, rhs, hrule, hother, g.wellFormed.lhs_declared _ hentry, .sides lhs rhs,
    hshorter⟩

/-- The class of a grammar says what holds of all its derivations. -/
theorem grammarClass_sound (g : Grammar) :
    (g.grammarClass = .regular → g.DerivesLinearForms) ∧
      (g.grammarClass = .regular ∨ g.grammarClass = .contextFree → g.DerivesApart) ∧
        (g.grammarClass = .regular ∨ g.grammarClass = .contextSensitive → g.ShortensByErasing) ∧
          (g.grammarClass = .unrestricted → g.ShortensOtherwise) := by
  refine ⟨derivesLinearForms_of_regular, ?_, ?_, shortensOtherwise_of_unrestricted⟩
  · intro hclass x y z hderives
    exact hderives.of_append fun lhs rhs hrule => exists_lhs_eq hclass hrule
  · intro hclass lhs rhs s t hrule hstep hshorter
    exact eq_start_of_shorter hclass hrule (hstep.shortens_iff.mp hshorter)

/-- A terminal that two non-terminals together become. -/
def joinedLetter : Symbol :=
  ⟨"j", by simp⟩

def joiningPresentation : Presentation :=
  let J : Symbol := ⟨"J", by simp⟩
  let K : Symbol := ⟨"K", by simp⟩
  { nonTerminals := .ofList [J, K]
    terminals := .ofList [joinedLetter]
    productions := .ofLines
      [([.nonTerminal J], [[.nonTerminal K, .nonTerminal K]]),
        ([.nonTerminal K, .nonTerminal K], [[.terminal joinedLetter]])]
    start := J }

/-- An unrestricted grammar, in which two non-terminals become one letter. -/
def joining : Grammar :=
  { joiningPresentation with wellFormed := Presentation.fault?_eq_none_iff.mp (by decide) }

/-- A regular and an unrestricted grammar. -/
theorem evenWords_joining_derivations :
    (evenWords.grammarClass = .regular ∧ evenWords.DerivesLinearForms ∧
        evenWords.DerivesApart ∧ evenWords.ShortensByErasing) ∧
      joining.grammarClass = .unrestricted ∧ joining.ShortensOtherwise := by
  have hregular : evenWords.grammarClass = .regular := by decide
  have hunrestricted : joining.grammarClass = .unrestricted := by decide
  have heven := grammarClass_sound evenWords
  have hjoining := grammarClass_sound joining
  exact ⟨⟨hregular, heven.1 hregular, heven.2.1 (Or.inl hregular),
    heven.2.2.1 (Or.inl hregular)⟩, hunrestricted, hjoining.2.2.2 hunrestricted⟩

end Grammar
end FormalLang
