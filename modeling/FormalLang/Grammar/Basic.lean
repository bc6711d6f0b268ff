import FormalLang.Ordered.Map
import FormalLang.Ordered.Set
import FormalLang.Symbol

/-!
# Grammars

A grammar has non-terminals, terminals, rules and a start symbol.  Its rules
are kept by left-hand side: every left-hand side, itself a sentential form, has
a set of alternatives.  All four parts are ordered, since grammars are written
out in the order in which they were given.

A `Presentation` holds the four parts with no condition on them; a `Grammar` is
a presentation that is well formed.
-/

namespace FormalLang

/-- A symbol in a rule. -/
inductive GrammarSymbol
  | terminal (a : Symbol)
  | nonTerminal (A : Symbol)
deriving DecidableEq

namespace GrammarSymbol

/-- The symbol without its kind. -/
def symbol : GrammarSymbol → Symbol
  | terminal a => a
  | nonTerminal A => A

/-- Whether a symbol is a non-terminal. -/
def isNonTerminal : GrammarSymbol → Bool
  | terminal _ => false
  | nonTerminal _ => true

end GrammarSymbol

/-- A sentential form: terminals and non-terminals in any order. -/
abbrev SententialForm := List GrammarSymbol

namespace SententialForm

/-- The text of a sentential form. -/
def text (s : SententialForm) : String :=
  Word.text (s.map GrammarSymbol.symbol)

/-- The non-terminal of which a sentential form consists. -/
def single? : SententialForm → Option Symbol
  | [.nonTerminal A] => some A
  | _ => none

theorem single?_eq_some_iff {s : SententialForm} {A : Symbol} :
    single? s = some A ↔ s = [.nonTerminal A] := by
  constructor
  · intro h
    unfold single? at h
    split at h
    · simpa using h
    · contradiction
  · rintro rfl
    rfl

end SententialForm

/-! ## Rules -/

/-- The alternatives of every left-hand side. -/
abbrev Productions := OrderedMap SententialForm (OrderedSet SententialForm)

namespace Productions

/-- Add alternatives for a left-hand side.  The left-hand side is there from
then on, even if there is no alternative. -/
def add (P : Productions) (lhs : SententialForm) (alternatives : List SententialForm) :
    Productions :=
  P.upsert lhs fun known => (known.getD OrderedSet.empty).insertAll alternatives

/-- The productions given line by line, each line with a left-hand side and
some alternatives. -/
def ofLines (lines : List (SententialForm × List SententialForm)) : Productions :=
  lines.foldl (fun P line => P.add line.1 line.2) OrderedMap.empty

/-- A rule of the productions. -/
def HasRule (P : Productions) (lhs rhs : SententialForm) : Prop :=
  ∃ alternatives, (lhs, alternatives) ∈ P.entries ∧ rhs ∈ alternatives

theorem mem_entries_add {P : Productions} {lhs : SententialForm}
    {alternatives : List SententialForm} {e : SententialForm × OrderedSet SententialForm}
    (h : e ∈ (P.add lhs alternatives).entries) :
    e ∈ P.entries ∨
      e.1 = lhs ∧ ∀ rhs ∈ e.2,
        rhs ∈ alternatives ∨ ∃ known, (lhs, known) ∈ P.entries ∧ rhs ∈ known := by
  rcases OrderedMap.mem_upsertEntry h with h | rfl | ⟨known, hknown, rfl⟩
  · exact Or.inl h
  · refine Or.inr ⟨rfl, fun rhs hrhs => Or.inl ?_⟩
    simpa using hrhs
  · refine Or.inr ⟨rfl, fun rhs hrhs => ?_⟩
    simp only [Option.getD_some, OrderedSet.mem_insertAll] at hrhs
    rcases hrhs with hrhs | hrhs
    · exact Or.inr ⟨known, hknown, hrhs⟩
    · exact Or.inl hrhs

/-- A property of left-hand sides that all lines have is had by the productions. -/
theorem forall_entries_ofLines {p : SententialForm → Prop} {q : SententialForm → Prop}
    {lines : List (SententialForm × List SententialForm)}
    (hlines : ∀ line ∈ lines, p line.1 ∧ ∀ rhs ∈ line.2, q rhs) :
    ∀ e ∈ (ofLines lines).entries, p e.1 ∧ ∀ rhs ∈ e.2, q rhs := by
  have hfold : ∀ P : Productions, (∀ e ∈ P.entries, p e.1 ∧ ∀ rhs ∈ e.2, q rhs) →
      ∀ e ∈ (lines.foldl (fun P line => P.add line.1 line.2) P).entries,
        p e.1 ∧ ∀ rhs ∈ e.2, q rhs := by
    induction lines with
    | nil => exact fun P hP => hP
    | cons line lines ih =>
        intro P hP
        refine ih (fun l hl => hlines l (List.mem_cons_of_mem _ hl)) _ ?_
        intro e he
        have hline := hlines line List.mem_cons_self
        rcases mem_entries_add he with he | ⟨hlhs, hrhs⟩
        · exact hP e he
        · refine ⟨hlhs ▸ hline.1, fun rhs hmem => ?_⟩
          rcases hrhs rhs hmem with hnew | ⟨known, hknown, hold⟩
          · exact hline.2 rhs hnew
          · exact (hP _ hknown).2 rhs hold
  exact hfold _ (by simp)

end Productions

/-! ## Presentations -/

/-- The four parts of a grammar, with no condition on them. -/
structure Presentation where
  nonTerminals : OrderedSet Symbol
  terminals : OrderedSet Symbol
  productions : Productions
  start : Symbol
deriving DecidableEq

namespace Presentation

/-- Whether a symbol is declared, as the kind of symbol that it is. -/
def Declares (G : Presentation) : GrammarSymbol → Prop
  | .terminal a => a ∈ G.terminals
  | .nonTerminal A => A ∈ G.nonTerminals

instance (G : Presentation) : (x : GrammarSymbol) → Decidable (G.Declares x)
  | .terminal a => inferInstanceAs (Decidable (a ∈ G.terminals))
  | .nonTerminal A => inferInstanceAs (Decidable (A ∈ G.nonTerminals))

/-- The start symbol is a non-terminal, no symbol is of both kinds, every
left-hand side has a non-terminal, and the rules use declared symbols. -/
structure WellFormed (G : Presentation) : Prop where
  start_mem : G.start ∈ G.nonTerminals
  disjoint : ∀ a ∈ G.terminals, a ∉ G.nonTerminals
  lhs_nonTerminal : ∀ e ∈ G.productions.entries, e.1.any GrammarSymbol.isNonTerminal = true
  lhs_declared : ∀ e ∈ G.productions.entries, ∀ x ∈ e.1, G.Declares x
  rhs_declared : ∀ e ∈ G.productions.entries, ∀ rhs ∈ e.2, ∀ x ∈ rhs, G.Declares x

end Presentation

/-- A well-formed presentation. -/
structure Grammar extends Presentation where
  wellFormed : toPresentation.WellFormed
deriving DecidableEq

namespace Grammar

/-- The right-hand sides of the rules whose left-hand side is a single
non-terminal; nothing if there is no such left-hand side. -/
def alternatives? (g : Grammar) (A : Symbol) : Option (OrderedSet SententialForm) :=
  g.productions.get? [.nonTerminal A]

/-- The right-hand sides of a single non-terminal, in order. -/
def alternatives (g : Grammar) (A : Symbol) : List SententialForm :=
  match g.alternatives? A with
  | some alts => alts.toList
  | none => []

theorem mem_alternatives {g : Grammar} {A : Symbol} {rhs : SententialForm} :
    rhs ∈ g.alternatives A ↔ g.productions.HasRule [.nonTerminal A] rhs := by
  unfold alternatives Productions.HasRule
  split
  · rename_i alts h
    have hmem := OrderedMap.get?_eq_some_iff.mp h
    constructor
    · exact fun hrhs => ⟨alts, hmem, hrhs⟩
    · rintro ⟨alts', hmem', hrhs⟩
      have heq : g.alternatives? A = some alts' := OrderedMap.get?_eq_some_iff.mpr hmem'
      rw [h, Option.some.injEq] at heq
      exact heq ▸ hrhs
  · rename_i h
    simp only [List.not_mem_nil, false_iff]
    rintro ⟨alts, hmem, -⟩
    have heq : g.alternatives? A = some alts := OrderedMap.get?_eq_some_iff.mpr hmem
    rw [h] at heq
    contradiction

end Grammar
end FormalLang
