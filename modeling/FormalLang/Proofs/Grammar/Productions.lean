import FormalLang.Grammar.Membership
import FormalLang.Proofs.Ordered.FirstAppearance
import Mathlib.Data.List.Induction
import Mathlib.Tactic.ByContra

/-!
# Rules given line by line

Productions gather the lines that were given for them: a rule is there exactly
when some line has it, wherever the line stands.  The condition for right-linear
productions is read off the left-hand sides and the rules.

Main results:

- Theorem `Productions.hasRule_ofLines_iff`: the rules of the productions given
  by lines.
- Theorem `Productions.mem_keys_ofLines_iff`: their left-hand sides.
- Theorem `Productions.keys_ofLines` and Theorem `Productions.get?_ofLines`: their
  order, that of first appearance.
- Theorem `Productions.isRightLinear_iff`: productions are right-linear exactly
  when every left-hand side is a non-terminal and every rule has a right-linear
  side, which is empty for the start symbol only.
- Theorem `Productions.isContextFree_iff` and Theorem
  `Productions.isContextSensitive_iff`: the two other conditions.
- Theorem `Grammar.grammarClass_congr`: left-hand sides, rules and start symbol
  decide the class.
-/

namespace FormalLang

namespace Productions

variable {P : Productions} {lhs rhs : SententialForm}

/-! ## Rules -/

theorem hasRule_iff_get? :
    P.HasRule lhs rhs ↔ ∃ alternatives, P.get? lhs = some alternatives ∧ rhs ∈ alternatives := by
  simp only [HasRule, OrderedMap.get?_eq_some_iff]

/-- Adding alternatives for a left-hand side adds just these rules. -/
theorem hasRule_add_iff {side : SententialForm} {alternatives : List SententialForm} :
    (P.add side alternatives).HasRule lhs rhs ↔
      P.HasRule lhs rhs ∨ lhs = side ∧ rhs ∈ alternatives := by
  rw [hasRule_iff_get?, hasRule_iff_get?]
  by_cases h : lhs = side
  · subst h
    rw [add, OrderedMap.get?_upsert_self]
    cases OrderedMap.get? P lhs with
    | none => simp
    | some known => simp
  · rw [add, OrderedMap.get?_upsert_of_ne _ _ h]
    simp [h]

theorem hasRule_foldl_add_iff {lines : List (SententialForm × List SententialForm)} :
    (lines.foldl (fun P line => P.add line.1 line.2) P).HasRule lhs rhs ↔
      P.HasRule lhs rhs ∨ ∃ line ∈ lines, lhs = line.1 ∧ rhs ∈ line.2 := by
  induction lines generalizing P with
  | nil => simp
  | cons line lines ih =>
      rw [List.foldl_cons, ih, hasRule_add_iff]
      simp [or_assoc]

/-- A rule is there exactly when a line has it. -/
theorem hasRule_ofLines_iff {lines : List (SententialForm × List SententialForm)} :
    (ofLines lines).HasRule lhs rhs ↔ ∃ line ∈ lines, lhs = line.1 ∧ rhs ∈ line.2 := by
  have hempty : ¬HasRule OrderedMap.empty lhs rhs := by simp [hasRule_iff_get?]
  rw [ofLines, hasRule_foldl_add_iff]
  simp [hempty]

/-! ## Left-hand sides -/

theorem mem_keys_foldl_add_iff {lines : List (SententialForm × List SententialForm)} :
    lhs ∈ (lines.foldl (fun P line => P.add line.1 line.2) P).keys ↔
      lhs ∈ P.keys ∨ ∃ line ∈ lines, lhs = line.1 := by
  induction lines generalizing P with
  | nil => simp
  | cons line lines ih =>
      rw [List.foldl_cons, ih, add, OrderedMap.mem_keys_upsert_iff]
      simp [or_assoc]

theorem mem_keys_ofLines_iff {lines : List (SententialForm × List SententialForm)} :
    lhs ∈ (ofLines lines).keys ↔ ∃ line ∈ lines, lhs = line.1 := by
  rw [ofLines, mem_keys_foldl_add_iff]
  simp [OrderedMap.keys]

theorem mem_keys_of_hasRule (h : P.HasRule lhs rhs) : lhs ∈ P.keys := by
  rcases h with ⟨alternatives, hentry, -⟩
  exact List.mem_map.mpr ⟨_, hentry, rfl⟩

/-! ## The order of rules -/

/-- Lines are added one after the other. -/
theorem ofLines_concat (lines : List (SententialForm × List SententialForm))
    (line : SententialForm × List SententialForm) :
    ofLines (lines ++ [line]) = (ofLines lines).add line.1 line.2 := by
  rw [ofLines, List.foldl_append]
  rfl

/-- Left-hand sides stand in the order of their first lines. -/
theorem keys_ofLines (lines : List (SententialForm × List SententialForm)) :
    (ofLines lines).keys = (lines.map Prod.fst).eraseDups := by
  induction lines using List.reverseRecOn with
  | nil => rfl
  | append_singleton lines line ih =>
      rw [ofLines_concat, add, OrderedMap.keys_upsert, ih, List.map_append, List.map_singleton]
      by_cases h : line.1 ∈ lines.map Prod.fst
      · rw [if_pos (List.mem_eraseDups.mpr h), eraseDups_concat_of_mem h]
      · have hnot : line.1 ∉ (lines.map Prod.fst).eraseDups :=
          fun hmem => h (List.mem_eraseDups.mp hmem)
        rw [if_neg hnot, eraseDups_concat_of_not_mem h]

/-- The alternatives of a left-hand side are gathered from all its lines, in the order
in which they first come up. -/
theorem get?_ofLines (lines : List (SententialForm × List SententialForm)) (lhs : SententialForm) :
    (ofLines lines).get? lhs =
      if lhs ∈ lines.map Prod.fst then
        some (.ofList ((lines.filter fun line => line.1 = lhs).flatMap Prod.snd))
      else none := by
  induction lines using List.reverseRecOn with
  | nil => rfl
  | append_singleton lines line ih =>
      rw [ofLines_concat, add, List.filter_append, List.flatMap_append, List.map_append]
      by_cases h : lhs = line.1
      · subst h
        rw [OrderedMap.get?_upsert_self, ih]
        by_cases hmem : line.1 ∈ lines.map Prod.fst
        · simp [hmem, OrderedSet.ofList_append]
        · have hnone : (lines.filter fun l => l.1 = line.1) = [] := by
            rw [List.filter_eq_nil_iff]
            intro l hl hfst
            exact hmem (List.mem_map.mpr ⟨l, hl, by simpa using hfst⟩)
          simp [hmem, hnone, OrderedSet.ofList]
      · have hne : ¬line.1 = lhs := fun heq => h heq.symm
        have hmem : lhs ∈ lines.map Prod.fst ++ [line].map Prod.fst ↔
            lhs ∈ lines.map Prod.fst := by simp [h]
        rw [OrderedMap.get?_upsert_of_ne _ _ h, ih]
        simp only [hmem]
        simp [hne]

/-! ## Right-linear productions -/

/-- Productions are right-linear when every left-hand side is a non-terminal and
every rule has a right-linear side; only the start symbol may be erased. -/
theorem isRightLinear_iff {start : Symbol} :
    P.isRightLinear start = true ↔
      (∀ lhs ∈ P.keys, ∃ A, lhs = [.nonTerminal A]) ∧
        ∀ A rhs, P.HasRule [.nonTerminal A] rhs →
          ∃ side : RegularSide, rhs = side.toForm ∧ (side = .erasing → A = start) := by
  simp only [isRightLinear, List.all_eq_true]
  constructor
  · intro h
    constructor
    · intro lhs hlhs
      rcases List.mem_map.mp hlhs with ⟨e, he, rfl⟩
      have hentry := h e he
      cases hsingle : SententialForm.single? e.1 with
      | none => simp [hsingle] at hentry
      | some A => exact ⟨A, SententialForm.single?_eq_some_iff.mp hsingle⟩
    · intro A rhs hrule
      rcases hrule with ⟨alternatives, hentry, hrhs⟩
      have hside := h _ hentry
      simp only [SententialForm.single?, List.all_eq_true] at hside
      have hside := hside rhs hrhs
      cases hform : RegularSide.ofForm? rhs with
      | none => simp [hform] at hside
      | some side =>
          refine ⟨side, RegularSide.ofForm?_eq_some_iff.mp hform, ?_⟩
          intro herasing
          subst herasing
          simpa [hform] using hside
  · intro h e he
    rcases h.1 e.1 (List.mem_map.mpr ⟨e, he, rfl⟩) with ⟨A, hA⟩
    rw [SententialForm.single?_eq_some_iff.mpr hA]
    simp only [List.all_eq_true]
    intro rhs hrhs
    rcases h.2 A rhs ⟨e.2, hA ▸ he, hrhs⟩ with ⟨side, hside, herasing⟩
    rw [RegularSide.ofForm?_eq_some_iff.mpr hside]
    cases side with
    | erasing => simpa using herasing rfl
    | ending a => rfl
    | continuing a B => rfl

/-! ## The other conditions -/

/-- Productions are context-free when every left-hand side is a non-terminal. -/
theorem isContextFree_iff :
    P.isContextFree = true ↔ ∀ lhs ∈ P.keys, ∃ A, lhs = [.nonTerminal A] := by
  simp only [isContextFree, List.all_eq_true, Option.isSome_iff_exists,
    SententialForm.single?_eq_some_iff]

/-- Productions are context-sensitive when no rule shortens a form, except that the
start symbol may be erased. -/
theorem isContextSensitive_iff {start : Symbol} :
    P.isContextSensitive start = true ↔
      ∀ lhs rhs, P.HasRule lhs rhs →
        lhs.length ≤ rhs.length ∨ rhs = [] ∧ lhs = [.nonTerminal start] := by
  simp only [isContextSensitive, List.all_eq_true, Bool.or_eq_true, decide_eq_true_eq,
    Bool.and_eq_true, List.isEmpty_iff, beq_iff_eq, SententialForm.single?_eq_some_iff]
  constructor
  · intro h lhs rhs hrule
    rcases hrule with ⟨alternatives, hentry, hrhs⟩
    exact h _ hentry rhs hrhs
  · intro h e he rhs hrhs
    exact h e.1 rhs ⟨e.2, he, hrhs⟩

end Productions

/-! ## Classes of grammars -/

/-- Left-hand sides, rules and start symbol decide the class of a grammar. -/
theorem Grammar.grammarClass_congr {g g' : Grammar} (hstart : g.start = g'.start)
    (hkeys : ∀ lhs, lhs ∈ g.productions.keys ↔ lhs ∈ g'.productions.keys)
    (hrules : ∀ lhs rhs, g.productions.HasRule lhs rhs ↔ g'.productions.HasRule lhs rhs) :
    g.grammarClass = g'.grammarClass := by
  have hright : g.productions.isRightLinear g.start = g'.productions.isRightLinear g'.start := by
    rw [Bool.eq_iff_iff, Productions.isRightLinear_iff, Productions.isRightLinear_iff]
    simp only [hkeys, hrules, hstart]
  have hfree : g.productions.isContextFree = g'.productions.isContextFree := by
    rw [Bool.eq_iff_iff, Productions.isContextFree_iff, Productions.isContextFree_iff]
    simp only [hkeys]
  have hsensitive : g.productions.isContextSensitive g.start =
      g'.productions.isContextSensitive g'.start := by
    rw [Bool.eq_iff_iff, Productions.isContextSensitive_iff, Productions.isContextSensitive_iff]
    simp only [hrules, hstart]
  unfold Grammar.grammarClass
  rw [hright, hfree, hsensitive]

theorem Grammar.grammarClass_eq_regular_iff {g : Grammar} :
    g.grammarClass = .regular ↔ g.productions.isRightLinear g.start = true := by
  unfold Grammar.grammarClass
  constructor
  · intro h
    by_contra hright
    rw [if_neg hright] at h
    split at h
    · contradiction
    · split at h <;> contradiction
  · intro h
    rw [if_pos h]

/-- A regular grammar gives an answer. -/
theorem Grammar.ifRegular_of_regular {α : Type} {g : Grammar} (h : g.grammarClass = .regular)
    (answer : α) : g.ifRegular answer = .ok answer :=
  if_pos h

end FormalLang
