import FormalLang.Proofs.Access.Converting
import FormalLang.Proofs.Grammar.Classes

/-!
# Grammars that are refused

Reading words, reading texts and converting are for regular grammars.  Each of these
operations finds the class of a grammar first and refuses the grammar for its class.  The
conversion then looks at the shape of every rule once more, and would refuse the grammar
again for a left-hand side that is not a non-terminal, or for an alternative that is not a
right-linear side.  No regular grammar has such a rule, so a grammar is refused for its class
or not at all.  The shapes alone would let more grammars through: those in which another
non-terminal than the start symbol is erased.

Main results:

- Theorem `Grammar.exists_foldlM_addRules?_iff`: adding the rules of a grammar refuses it
  exactly if some rule is not of the right-linear shape.
- Theorem `Grammar.grammarClass_eq_regular_iff_shape`: what is asked of a regular grammar
  beyond the shape of its rules.
- Theorem `Grammar.refused_for_class_only`: the operations are all refused alike, for the
  class, or all succeed.
-/

namespace FormalLang

namespace Guarded

variable {ε α β : Type}

/-- What comes to a result goes through results. -/
theorem bind_eq_pure_iff {x : Guarded ε α} {f : α → Guarded ε β} {b : β} :
    (x >>= f) = pure b ↔ ∃ a, x = pure a ∧ f a = pure b := by
  constructor
  · intro h
    cases x with
    | none => cases h
    | some result =>
        cases result with
        | error e => cases h
        | ok a => exact ⟨a, rfl, h⟩
  · intro h
    rcases h with ⟨a, rfl, hb⟩
    rw [pure_bind, hb]

/-- If steps come to an end, there is no member of the list at which every step is refused. -/
theorem exists_eq_pure_of_foldlM {f : β → α → Guarded ε β} {l : List α} {b c : β}
    (h : l.foldlM f b = pure c) : ∀ a ∈ l, ∃ before after, f before a = pure after := by
  induction l generalizing b with
  | nil => simp
  | cons a l ih =>
      rw [List.foldlM_cons, bind_eq_pure_iff] at h
      rcases h with ⟨next, hnext, hrest⟩
      exact List.forall_mem_cons.mpr ⟨⟨b, next, hnext⟩, ih hrest⟩

end Guarded

namespace Grammar

variable {g : Grammar}

/-! ## The shape of rules -/

/-- A left-hand side whose rules are added is a non-terminal, and its alternatives are
right-linear sides. -/
theorem shape_of_addRules?_eq_pure {D D' : Diagram}
    {entry : SententialForm × OrderedSet SententialForm} (h : g.addRules? D entry = pure D') :
    (∃ A, entry.1 = [.nonTerminal A]) ∧ ∀ rhs ∈ entry.2, ∃ side : RegularSide, rhs = side.toForm := by
  unfold addRules? at h
  cases hlhs : SententialForm.single? entry.1 with
  | none =>
      rw [hlhs] at h
      cases h
  | some A =>
      rw [hlhs] at h
      rcases Guarded.bind_eq_pure_iff.mp h with ⟨p, -, hrules⟩
      refine ⟨⟨A, SententialForm.single?_eq_some_iff.mp hlhs⟩, fun rhs hrhs => ?_⟩
      rcases Guarded.exists_eq_pure_of_foldlM hrules rhs hrhs with ⟨before, after, hstep⟩
      unfold addRule? at hstep
      cases hside : RegularSide.ofForm? rhs with
      | none =>
          rw [hside] at hstep
          cases hstep
      | some side => exact ⟨side, RegularSide.ofForm?_eq_some_iff.mp hside⟩

/-- Adding the rules of a grammar comes to an end exactly if all of them have the right-linear
shape; otherwise the grammar is refused at the first rule of another shape. -/
theorem exists_foldlM_addRules?_iff :
    (∃ D, g.productions.entries.foldlM g.addRules? g.layout = pure D) ↔ g.HasLinearShape := by
  constructor
  · intro h
    rcases h with ⟨D, hD⟩
    have hentries : ∀ entry ∈ g.productions.entries, (∃ A, entry.1 = [.nonTerminal A]) ∧
        ∀ rhs ∈ entry.2, ∃ side : RegularSide, rhs = side.toForm := by
      intro entry hentry
      rcases Guarded.exists_eq_pure_of_foldlM hD entry hentry with ⟨before, after, hstep⟩
      exact shape_of_addRules?_eq_pure hstep
    constructor
    · intro lhs hlhs
      rcases List.mem_map.mp hlhs with ⟨entry, hentry, rfl⟩
      exact (hentries entry hentry).1
    · intro lhs rhs hrule
      rcases hrule with ⟨alternatives, hentry, hrhs⟩
      exact (hentries _ hentry).2 rhs hrhs
  · exact fun h => ⟨_, foldlM_addRules?_eq h⟩

/-- A grammar is regular exactly if its rules have the right-linear shape and no other
non-terminal than the start symbol is erased. -/
theorem grammarClass_eq_regular_iff_shape :
    g.grammarClass = .regular ↔
      g.HasLinearShape ∧ ∀ A, g.productions.HasRule [.nonTerminal A] [] → A = g.start := by
  constructor
  · intro h
    refine ⟨hasLinearShape_of_regular h, fun A hrule => ?_⟩
    have hlhs := (eq_start_of_shorter (Or.inl h) hrule (by simp)).1
    cases hlhs
    rfl
  · intro h
    rcases h with ⟨hshape, hstart⟩
    rw [grammarClass_eq_regular_iff, Productions.isRightLinear_iff]
    refine ⟨hshape.lhs_eq, fun A rhs hrule => ?_⟩
    rcases hshape.rhs_eq _ rhs hrule with ⟨side, rfl⟩
    refine ⟨side, rfl, fun herasing => hstart A ?_⟩
    rw [herasing] at hrule
    exact hrule

/-! ## Refusals -/

/-- Whatever the text and the word are, the three operations succeed if the grammar is
regular, and then no rule is refused while the automaton is made; if the grammar is of
another class, all three are refused for this class. -/
theorem refused_for_class_only (g : Grammar) (text : String) (w : Word) :
    (g.grammarClass = .regular ∧ (∃ b, g.containsText text = .ok b) ∧
        (∃ b, g.contains w = .ok b) ∧ ∃ A, g.toAutomaton = .ok A ∧
          g.productions.entries.foldlM g.addRules? g.layout = pure A.toDiagram) ∨
      g.grammarClass ≠ .regular ∧ g.containsText text = .error ⟨g.grammarClass⟩ ∧
        g.contains w = .error ⟨g.grammarClass⟩ ∧ g.toAutomaton = .error ⟨g.grammarClass⟩ := by
  by_cases h : g.grammarClass = .regular
  · have hloop := foldlM_addRules?_eq (grammarClass_eq_regular_iff_shape.mp h).1
    exact Or.inl ⟨h, ⟨_, ifRegular_of_regular h _⟩, ⟨_, ifRegular_of_regular h _⟩, g.automaton,
      ifRegular_of_regular h _, hloop⟩
  · exact Or.inr ⟨h, if_neg h, if_neg h, if_neg h⟩

end Grammar
end FormalLang
