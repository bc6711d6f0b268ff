import FormalLang.Grammar.Basic
import Mathlib.Logic.Relation

/-!
# Derivations

A rewriting step replaces an occurrence of the left-hand side of a rule, at any
place of a sentential form, by one of its right-hand sides; a derivation is any
number of steps in any order.  What can be derived can also be derived between
other symbols.

Main results:

- Theorem `Productions.Derives.append`: derivations side by side.
- Theorem `Productions.Derives.of_hasRule`: a rule derives its right-hand side.
- Theorem `Productions.Derives.mono`: more rules derive more.
-/

namespace FormalLang

namespace Productions

/-- One rewriting step: a left-hand side, anywhere in a sentential form, is
replaced by one of its right-hand sides. -/
inductive Rewrites (P : Productions) : SententialForm → SententialForm → Prop
  | intro (before after : SententialForm) {lhs rhs : SententialForm} :
      P.HasRule lhs rhs → Rewrites P (before ++ lhs ++ after) (before ++ rhs ++ after)

/-- Finitely many rewriting steps lead from one sentential form to another. -/
def Derives (P : Productions) : SententialForm → SententialForm → Prop :=
  Relation.ReflTransGen P.Rewrites

variable {P : Productions} {s t u lhs rhs : SententialForm}

theorem rewrites_iff :
    P.Rewrites s t ↔ ∃ before after lhs rhs, P.HasRule lhs rhs ∧
      s = before ++ lhs ++ after ∧ t = before ++ rhs ++ after := by
  constructor
  · intro h
    cases h with
    | intro before after hrule => exact ⟨before, after, _, _, hrule, rfl, rfl⟩
  · intro h
    rcases h with ⟨before, after, lhs, rhs, hrule, rfl, rfl⟩
    exact .intro before after hrule

/-- A step is still there when there are more rules. -/
theorem Rewrites.mono {Q : Productions}
    (hrules : ∀ lhs rhs, P.HasRule lhs rhs → Q.HasRule lhs rhs) (h : P.Rewrites s t) :
    Q.Rewrites s t := by
  cases h with
  | intro before after hrule => exact .intro before after (hrules _ _ hrule)

/-! ## Steps in a context -/

theorem Rewrites.append_left (h : P.Rewrites s t) (u : SententialForm) :
    P.Rewrites (u ++ s) (u ++ t) := by
  cases h with
  | intro before after hrule =>
      have hstep := Rewrites.intro (u ++ before) after hrule
      simpa only [List.append_assoc] using hstep

theorem Rewrites.append_right (h : P.Rewrites s t) (u : SententialForm) :
    P.Rewrites (s ++ u) (t ++ u) := by
  cases h with
  | intro before after hrule =>
      have hstep := Rewrites.intro before (after ++ u) hrule
      simpa only [List.append_assoc] using hstep

/-! ## Derivations in a context -/

theorem Derives.refl (s : SententialForm) : P.Derives s s :=
  Relation.ReflTransGen.refl

theorem Derives.trans (hst : P.Derives s t) (htu : P.Derives t u) : P.Derives s u :=
  Relation.ReflTransGen.trans hst htu

/-- What is derived is still derived when there are more rules. -/
theorem Derives.mono {Q : Productions}
    (hrules : ∀ lhs rhs, P.HasRule lhs rhs → Q.HasRule lhs rhs) (h : P.Derives s t) :
    Q.Derives s t :=
  Relation.ReflTransGen.mono (fun _ _ hstep => hstep.mono hrules) s t h

/-- A rule derives its right-hand side in one step. -/
theorem Derives.of_hasRule (h : P.HasRule lhs rhs) : P.Derives lhs rhs := by
  have hstep := Rewrites.intro [] [] h
  simp only [List.nil_append, List.append_nil] at hstep
  exact Relation.ReflTransGen.single hstep

theorem Derives.append_left (h : P.Derives s t) (u : SententialForm) :
    P.Derives (u ++ s) (u ++ t) := by
  induction h with
  | refl => exact Derives.refl _
  | tail _ hstep ih => exact ih.tail (hstep.append_left u)

theorem Derives.append_right (h : P.Derives s t) (u : SententialForm) :
    P.Derives (s ++ u) (t ++ u) := by
  induction h with
  | refl => exact Derives.refl _
  | tail _ hstep ih => exact ih.tail (hstep.append_right u)

/-- Two forms that stand side by side are derived one after the other. -/
theorem Derives.append {s' t' : SententialForm} (h : P.Derives s t) (h' : P.Derives s' t') :
    P.Derives (s ++ s') (t ++ t') :=
  (h.append_right s').trans (h'.append_left t)

end Productions
end FormalLang
