import Mathlib.Data.List.TakeWhile

/-!
# Parsers

A parser takes the front off a text, or fails.  Parsers are put together by combinators, and
what is relied on of combinators is said by their laws only: what each of them takes, in which
order it calls its parsers, and that a list of values with separators ends before the first
separator that no value follows.

Main results:

- Theorem `Combinators.plain_lawful`: there are combinators with these laws.
-/

namespace FormalLang

/-- A parser gives a value for the front of a text together with the rest of the text, or
fails. -/
abbrev Parser (α : Type) : Type :=
  List Char → Option (α × List Char)

namespace Parser

variable {α β γ : Type}

/-- A parser whose values are changed by a function. -/
def map (f : α → β) (p : Parser α) : Parser β := fun t =>
  (p t).map fun result => (f result.1, result.2)

/-- A parser that never succeeds without taking a character. -/
def Consumes (p : Parser α) : Prop :=
  ∀ t a rest, p t = some (a, rest) → rest.length < t.length

end Parser

/-- Spaces and tabs. -/
def isSpaceOrTab (c : Char) : Bool :=
  c == ' ' || c == '\t'

/-- Combinators for parsers. -/
structure Combinators where
  /-- The spaces and tabs in front of a text. -/
  spaces : Parser (List Char)
  /-- The characters in front of the first one of some kind; there must be one at least. -/
  takeTill : (Char → Bool) → Parser (List Char)
  /-- A given text. -/
  literal : List Char → Parser (List Char)
  /-- What stands between two things that are not of interest. -/
  delimited : {α β γ : Type} → Parser α → Parser β → Parser γ → Parser β
  /-- Two things with a separator between them. -/
  separatedPair : {α β γ : Type} → Parser α → Parser β → Parser γ → Parser (α × γ)
  /-- One or more things, with a separator between any two of them. -/
  separated : {α β : Type} → Parser α → Parser β → Parser (List α)
  /-- What the whole of a text stands for. -/
  parse : {α : Type} → Parser α → List Char → Option α

namespace Combinators

variable {α β γ : Type}

/-- The laws of combinators. -/
structure Lawful (K : Combinators) : Prop where
  spaces_eq : ∀ t, K.spaces t = some (t.takeWhile isSpaceOrTab, t.dropWhile isSpaceOrTab)
  takeTill_eq : ∀ (ends : Char → Bool) t, K.takeTill ends t =
    if t.takeWhile (fun c => !ends c) = [] then none
    else some (t.takeWhile fun c => !ends c, t.dropWhile fun c => !ends c)
  literal_eq : ∀ l t, K.literal l t = if l.isPrefixOf t then some (l, t.drop l.length) else none
  delimited_eq : ∀ {α β γ : Type} (p : Parser α) (q : Parser β) (r : Parser γ) t,
    K.delimited p q r t = do
      let (_, t) ← p t
      let (b, t) ← q t
      let (_, t) ← r t
      return (b, t)
  separatedPair_eq : ∀ {α β γ : Type} (p : Parser α) (q : Parser β) (r : Parser γ) t,
    K.separatedPair p q r t = do
      let (a, t) ← p t
      let (_, t) ← q t
      let (c, t) ← r t
      return ((a, c), t)
  /-- After a value, a separator is taken only together with a further value. -/
  separated_eq : ∀ {α β : Type} (p : Parser α) (sep : Parser β) t, p.Consumes → sep.Consumes →
    K.separated p sep t = do
      let (a, t) ← p t
      match (do let (_, t) ← sep t; K.separated p sep t) with
      | some (as, t) => return (a :: as, t)
      | none => return ([a], t)
  parse_eq_some_iff : ∀ {α : Type} (p : Parser α) t a, K.parse p t = some a ↔ p t = some (a, [])

/-! ## Combinators with these laws -/

/-- One or more values with separators between them.  A separator with its value has to take
something, or else the parser fails. -/
def separatedPlain (p : Parser α) (sep : Parser β) (t : List Char) :
    Option (List α × List Char) :=
  match p t with
  | none => none
  | some (a, t') =>
      match sep t' with
      | none => some ([a], t')
      | some (_, t'') =>
          if t''.length < t.length then
            match separatedPlain p sep t'' with
            | some (as, rest) => some (a :: as, rest)
            | none => some ([a], t')
          else none
termination_by t.length

/-- Combinators that are made of the operations on lists. -/
def plain : Combinators where
  spaces t := some (t.takeWhile isSpaceOrTab, t.dropWhile isSpaceOrTab)
  takeTill ends t :=
    if t.takeWhile (fun c => !ends c) = [] then none
    else some (t.takeWhile fun c => !ends c, t.dropWhile fun c => !ends c)
  literal l t := if l.isPrefixOf t then some (l, t.drop l.length) else none
  delimited p q r t := do
    let (_, t) ← p t
    let (b, t) ← q t
    let (_, t) ← r t
    return (b, t)
  separatedPair p q r t := do
    let (a, t) ← p t
    let (_, t) ← q t
    let (c, t) ← r t
    return ((a, c), t)
  separated := separatedPlain
  parse p t :=
    match p t with
    | some (a, []) => some a
    | _ => none

theorem separatedPlain_eq {p : Parser α} {sep : Parser β} (hp : p.Consumes) (hsep : sep.Consumes)
    (t : List Char) :
    separatedPlain p sep t = do
      let (a, t) ← p t
      match (do let (_, t) ← sep t; separatedPlain p sep t) with
      | some (as, t) => return (a :: as, t)
      | none => return ([a], t) := by
  rw [separatedPlain]
  cases hvalue : p t with
  | none => rfl
  | some value =>
      rcases value with ⟨a, t'⟩
      cases hseparator : sep t' with
      | none => simp [hseparator]
      | some separator =>
          rcases separator with ⟨b, t''⟩
          have hshorter : t''.length < t.length :=
            Nat.lt_trans (hsep t' b t'' hseparator) (hp t a t' hvalue)
          simp only [hseparator, if_pos hshorter, Option.bind_eq_bind, Option.bind_some]
          cases separatedPlain p sep t'' with
          | none => rfl
          | some rest => rfl

theorem plain_lawful : plain.Lawful where
  spaces_eq _ := rfl
  takeTill_eq _ _ := rfl
  literal_eq _ _ := rfl
  delimited_eq _ _ _ _ := rfl
  separatedPair_eq _ _ _ _ := rfl
  separated_eq _ _ t hp hsep := separatedPlain_eq hp hsep t
  parse_eq_some_iff p t a := by
    have hdef : plain.parse p t =
        match p t with
        | some (a, []) => some a
        | _ => none := rfl
    rw [hdef]
    rcases p t with - | ⟨b, - | ⟨c, rest⟩⟩
    · simp
    · simp
    · simp

end Combinators
end FormalLang
