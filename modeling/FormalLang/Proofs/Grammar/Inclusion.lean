import FormalLang.Proofs.Grammar.Classes

/-!
# Grammars with more rules

The conditions behind the classes are all about what must not be among the left-hand sides
and the rules, so they are kept when some of these are left out.  The class of a grammar is
the greatest one whose condition is met: of the conditions of two classes, neither of which
follows from the other, the one of the greater class is asked first.  So with more
left-hand sides and rules the class gets smaller or stays the same.

Main results:

- Theorem `Productions.isContextFree_of_isRightLinear` and Theorem
  `Productions.isContextSensitive_of_isRightLinear`: the most restrictive condition has the
  two in the middle as consequences.
- Theorem `Productions.Meets.mono`: conditions are kept when rules are left out.
- Theorem `Grammar.le_grammarClass_of_meets`: no greater class has its condition met.
- Theorem `Grammar.grammarClass_antitone`: more rules do not give a greater class.
-/

namespace FormalLang

namespace Productions

variable {P Q : Productions} {start : Symbol} {c : GrammarClass}

/-! ## Nested conditions -/

/-- Right-linear productions are context-free. -/
theorem isContextFree_of_isRightLinear (h : P.isRightLinear start = true) :
    P.isContextFree = true :=
  isContextFree_iff.mpr (isRightLinear_iff.mp h).1

/-- Right-linear productions are context-sensitive: a side is as long as its left-hand side,
or it is the empty one of the start symbol. -/
theorem isContextSensitive_of_isRightLinear (h : P.isRightLinear start = true) :
    P.isContextSensitive start = true := by
  rcases isRightLinear_iff.mp h with ⟨hkeys, hsides⟩
  rw [isContextSensitive_iff]
  intro lhs rhs hrule
  rcases hkeys lhs (mem_keys_of_hasRule hrule) with ⟨A, rfl⟩
  rcases hsides A rhs hrule with ⟨side, rfl, herasing⟩
  cases side with
  | erasing => exact Or.inr ⟨rfl, by rw [herasing rfl]⟩
  | ending a => exact Or.inl (Nat.le_refl 1)
  | continuing a B => exact Or.inl (Nat.le_succ 1)

/-! ## Leaving out rules -/

/-- Productions within other ones: every left-hand side and every rule is there as well. -/
structure Within (P Q : Productions) : Prop where
  lhs_mem : ∀ lhs ∈ P.keys, lhs ∈ Q.keys
  hasRule : ∀ lhs rhs, P.HasRule lhs rhs → Q.HasRule lhs rhs

/-- Some of the entries. -/
theorem within_of_entries (h : ∀ e ∈ P.entries, e ∈ Q.entries) : P.Within Q := by
  refine ⟨?_, ?_⟩
  · intro lhs hlhs
    rcases List.mem_map.mp hlhs with ⟨e, he, rfl⟩
    exact List.mem_map_of_mem (h e he)
  · intro lhs rhs hrule
    rcases hrule with ⟨alternatives, hentry, hrhs⟩
    exact ⟨alternatives, h _ hentry, hrhs⟩

/-- The productions meet the condition of a class. -/
def Meets (P : Productions) (start : Symbol) : GrammarClass → Prop
  | .regular => P.isRightLinear start = true
  | .contextFree => P.isContextFree = true
  | .contextSensitive => P.isContextSensitive start = true
  | .unrestricted => True

/-- A condition is still met when rules are left out. -/
theorem Meets.mono (h : Q.Meets start c) (hwithin : P.Within Q) : P.Meets start c := by
  cases c with
  | unrestricted => trivial
  | contextSensitive =>
      have hlengths := isContextSensitive_iff.mp h
      exact isContextSensitive_iff.mpr fun lhs rhs hrule =>
        hlengths lhs rhs (hwithin.hasRule lhs rhs hrule)
  | contextFree =>
      have hkeys := isContextFree_iff.mp h
      exact isContextFree_iff.mpr fun lhs hlhs => hkeys lhs (hwithin.lhs_mem lhs hlhs)
  | regular =>
      rcases isRightLinear_iff.mp h with ⟨hkeys, hsides⟩
      refine isRightLinear_iff.mpr ⟨?_, ?_⟩
      · exact fun lhs hlhs => hkeys lhs (hwithin.lhs_mem lhs hlhs)
      · exact fun A rhs hrule => hsides A rhs (hwithin.hasRule _ rhs hrule)

end Productions

/-! ## The class of a grammar -/

namespace Grammar

variable {g : Grammar} {c : GrammarClass}

/-- The condition of the class of a grammar is met. -/
theorem meets_grammarClass (g : Grammar) : g.productions.Meets g.start g.grammarClass := by
  unfold grammarClass
  split
  · assumption
  · split
    · assumption
    · split
      · assumption
      · trivial

/-- A class whose condition is met is not greater than the class of the grammar. -/
theorem le_grammarClass_of_meets (h : g.productions.Meets g.start c) : c ≤ g.grammarClass := by
  cases c with
  | unrestricted => exact Nat.zero_le _
  | contextSensitive =>
      have hlengths : g.productions.isContextSensitive g.start = true := h
      rw [grammarClass, if_pos hlengths]
      split
      · decide
      · split <;> decide
  | contextFree =>
      have hkeys : g.productions.isContextFree = true := h
      rw [grammarClass, if_pos hkeys]
      split <;> decide
  | regular =>
      rw [grammarClass_eq_regular_iff.mpr h]
      decide

/-- Right-linear productions are both context-free and context-sensitive, and with more
left-hand sides and rules the class of a grammar does not get more restrictive. -/
theorem grammarClass_antitone :
    (∀ (P : Productions) (start : Symbol), P.isRightLinear start = true →
      P.isContextFree = true ∧ P.isContextSensitive start = true) ∧
    ∀ g g' : Grammar, g.start = g'.start → g.productions.Within g'.productions →
      g'.grammarClass ≤ g.grammarClass := by
  refine ⟨fun P start h => ?_, fun g g' hstart hwithin => ?_⟩
  · exact ⟨Productions.isContextFree_of_isRightLinear h,
      Productions.isContextSensitive_of_isRightLinear h⟩
  · have hmeets : g'.productions.Meets g.start g'.grammarClass := by
      rw [hstart]
      exact g'.meets_grammarClass
    exact le_grammarClass_of_meets (hmeets.mono hwithin)

/-- The grammar `joining` without its rule for two non-terminals. -/
def unjoined : Grammar :=
  { joining.toPresentation with
    productions := ⟨joining.productions.entries.take 1, by decide⟩
    wellFormed := Presentation.fault?_eq_none_iff.mp (by decide) }

/-- A context-free grammar, which is unrestricted with one rule more. -/
theorem unjoined_joining_ordered :
    (evenWords.productions.isRightLinear evenWords.start = true ∧
      evenWords.productions.isContextFree = true ∧
        evenWords.productions.isContextSensitive evenWords.start = true) ∧
    unjoined.start = joining.start ∧ unjoined.productions.Within joining.productions ∧
      unjoined.grammarClass = .contextFree ∧ joining.grammarClass = .unrestricted ∧
        joining.grammarClass ≤ unjoined.grammarClass := by
  have hright : evenWords.productions.isRightLinear evenWords.start = true := by decide
  have hwithin : unjoined.productions.Within joining.productions :=
    Productions.within_of_entries (by decide)
  exact ⟨⟨hright, grammarClass_antitone.1 _ _ hright⟩, rfl, hwithin, by decide, by decide,
    grammarClass_antitone.2 unjoined joining rfl hwithin⟩

end Grammar
end FormalLang
