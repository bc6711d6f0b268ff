import FormalLang.Grammar.Hierarchy
import FormalLang.Recognizer.Text

/-!
# Membership in a regular grammar

A right-linear grammar is read as a recognizer.  A state is the non-terminal in
which the derivation of what was read so far can end; the state `none` stands
for a derivation that has ended with a terminal.
-/

namespace FormalLang

/-- The reason for which a grammar is neither read nor converted: it is of
another class than the regular one. -/
structure NotRegular where
  actual : GrammarClass
deriving DecidableEq

/-- The message for a grammar that is not right-linear. -/
def NotRegular.message (e : NotRegular) : String :=
  "grammar is not right-linear (" ++ e.actual.title ++ ")"

namespace Grammar

/-- An answer that only regular grammars give. -/
def ifRegular {α : Type} (g : Grammar) (answer : α) : Except NotRegular α :=
  if g.grammarClass = .regular then .ok answer else .error ⟨g.grammarClass⟩

/-- Whether a non-terminal has a rule for the empty word. -/
def hasErasingRule (g : Grammar) (A : Symbol) : Bool :=
  (g.alternatives A).any List.isEmpty

/-- Where the derivation of a text can be after one more terminal. -/
def derivationSteps (g : Grammar) : Option Symbol → Symbol → List (Option Symbol)
  | none, _ => []
  | some A, a =>
      (g.alternatives A).filterMap fun rhs =>
        match RegularSide.ofForm? rhs with
        | some (.ending b) => if b = a then some none else none
        | some (.continuing b B) => if b = a then some (some B) else none
        | _ => none

theorem mem_derivationSteps {g : Grammar} {A a : Symbol} {next : Option Symbol} :
    next ∈ g.derivationSteps (some A) a ↔
      (next = none ∧ [.terminal a] ∈ g.alternatives A) ∨
        ∃ B, next = some B ∧ [.terminal a, .nonTerminal B] ∈ g.alternatives A := by
  simp only [derivationSteps, List.mem_filterMap]
  constructor
  · rintro ⟨rhs, hrhs, h⟩
    split at h
    · rename_i b hside
      rw [RegularSide.ofForm?_eq_some_iff] at hside
      simp only [Option.ite_none_right_eq_some, Option.some.injEq] at h
      obtain ⟨rfl, rfl⟩ := h
      subst hside
      exact Or.inl ⟨rfl, hrhs⟩
    · rename_i b B hside
      rw [RegularSide.ofForm?_eq_some_iff] at hside
      simp only [Option.ite_none_right_eq_some, Option.some.injEq] at h
      obtain ⟨rfl, rfl⟩ := h
      subst hside
      exact Or.inr ⟨B, rfl, hrhs⟩
    · contradiction
  · rintro (⟨rfl, h⟩ | ⟨B, rfl, h⟩)
    · exact ⟨_, h, by simp [RegularSide.ofForm?]⟩
    · exact ⟨_, h, by simp [RegularSide.ofForm?]⟩

/-- The grammar as a recognizer of its language, if it is right-linear. -/
def recognizer (g : Grammar) : Recognizer (Option Symbol) where
  states := none :: g.nonTerminals.toList.map some
  alphabet := g.terminals.toList
  start := some g.start
  next := g.derivationSteps
  final
    | none => true
    | some A => g.hasErasingRule A
  start_mem := List.mem_cons_of_mem _ (List.mem_map_of_mem g.wellFormed.start_mem)
  next_mem := by
    intro p a q hq
    cases p with
    | none => simp [derivationSteps] at hq
    | some A =>
        rcases mem_derivationSteps.mp hq with ⟨rfl, -⟩ | ⟨B, rfl, h⟩
        · exact List.mem_cons_self
        · obtain ⟨alts, halts, hrhs⟩ := mem_alternatives.mp h
          have hB := g.wellFormed.rhs_declared _ halts _ hrhs (.nonTerminal B) (by simp)
          exact List.mem_cons_of_mem _ (List.mem_map_of_mem hB)

/-! ## Words and texts -/

/-- Whether a word belongs to the language of a regular grammar. -/
def contains (g : Grammar) (w : Word) : Except NotRegular Bool :=
  g.ifRegular (g.recognizer.recognizes w)

/-- Whether a split of a text belongs to the language of a regular grammar. -/
def containsText (g : Grammar) (text : String) : Except NotRegular Bool :=
  g.ifRegular (g.recognizer.recognizesText text.toList)

/-- The events of reading a word. -/
def containsEvents (g : Grammar) (w : Word) : List Event :=
  g.classEvents ++
    if g.grammarClass = .regular then
      (g.recognizer.liveSets (.ofList [g.recognizer.start]) w).map fun step =>
        .liveDerivations step.1 step.2.size
    else []

/-- The events of reading a text. -/
def containsTextEvents (g : Grammar) (text : String) : List Event :=
  g.classEvents ++
    if g.grammarClass = .regular ∧ g.recognizer.recognizesText text.toList = false then
      [.noDerivation text]
    else []

end Grammar
end FormalLang
