import FormalLang.Event

/-!
# The hierarchy of grammars

The three conditions on rules behind the classes, and the class of a grammar:
that of the first condition met, from the most restrictive on.
-/

namespace FormalLang

/-- The right-hand sides of a right-linear grammar. -/
inductive RegularSide
  /-- The empty side, of a rule that erases its non-terminal. -/
  | erasing
  /-- A terminal, with which a derivation ends. -/
  | ending (a : Symbol)
  /-- A terminal and the non-terminal with which a derivation goes on. -/
  | continuing (a A : Symbol)
deriving DecidableEq

namespace RegularSide

/-- A sentential form seen as a right-linear side. -/
def ofForm? : SententialForm → Option RegularSide
  | [] => some .erasing
  | [.terminal a] => some (.ending a)
  | [.terminal a, .nonTerminal A] => some (.continuing a A)
  | _ => none

/-- The sentential form of a right-linear side. -/
def toForm : RegularSide → SententialForm
  | .erasing => []
  | .ending a => [.terminal a]
  | .continuing a A => [.terminal a, .nonTerminal A]

theorem ofForm?_eq_some_iff {s : SententialForm} {side : RegularSide} :
    ofForm? s = some side ↔ s = side.toForm := by
  constructor
  · intro h
    unfold ofForm? at h
    split at h <;> simp_all only [Option.some.injEq, reduceCtorEq] <;> subst h <;> rfl
  · rintro rfl
    cases side <;> rfl

end RegularSide

namespace Productions

/-- Every rule is `A → a`, `A → aB`, or the rule of the start symbol for the
empty word. -/
def isRightLinear (P : Productions) (start : Symbol) : Bool :=
  P.entries.all fun e =>
    match SententialForm.single? e.1 with
    | none => false
    | some A => e.2.toList.all fun rhs =>
        match RegularSide.ofForm? rhs with
        | some .erasing => A = start
        | some _ => true
        | none => false

/-- Every left-hand side is a single non-terminal. -/
def isContextFree (P : Productions) : Bool :=
  P.keys.all fun lhs => (SententialForm.single? lhs).isSome

/-- No rule shortens a sentential form, but for the rule of the start symbol
for the empty word. -/
def isContextSensitive (P : Productions) (start : Symbol) : Bool :=
  P.entries.all fun e => e.2.toList.all fun rhs =>
    e.1.length ≤ rhs.length || (rhs.isEmpty && SententialForm.single? e.1 == some start)

end Productions

namespace Grammar

/-- The class of a grammar. -/
def grammarClass (g : Grammar) : GrammarClass :=
  if g.productions.isRightLinear g.start then .regular
  else if g.productions.isContextFree then .contextFree
  else if g.productions.isContextSensitive g.start then .contextSensitive
  else .unrestricted

/-- The events of finding the class. -/
def classEvents (g : Grammar) : List Event :=
  [.classified g.start g.grammarClass]

end Grammar
end FormalLang
