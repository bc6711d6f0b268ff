import FormalLang.Symbol
import FormalLang.Text.Blank

/-!
# Splits of a text

A text is split into symbols by taking off one symbol after the other.  The
blanks in front of a symbol are skipped, all of them, and the blanks at the end
of the text belong to no symbol.  Symbols may be parts of one another, so a
text can have one split, several or none.

Main results:

- Theorem `mem_continuations_iff`: the continuations listed for a text are the
  symbols that can be taken off, each with the characters this takes.
-/

namespace FormalLang

/-- After its blanks in front, the text `t` goes on with the symbol `a`, and
then with `rest`. -/
def Reads (a : Symbol) (t rest : List Char) : Prop :=
  Text.skipBlanks t = a.chars ++ rest

/-- The symbols of a word are taken off a text one after the other, and `rest`
is left. -/
inductive ReadsWord : Word → List Char → List Char → Prop
  | nil (t : List Char) : ReadsWord [] t t
  | cons {a : Symbol} {w : Word} {t u rest : List Char} :
      Reads a t u → ReadsWord w u rest → ReadsWord (a :: w) t rest

/-- A split takes off everything but the blanks at the end. -/
def IsSplit (w : Word) (t : List Char) : Prop :=
  ReadsWord w t (Text.trailingBlanks t)

/-- The symbols with which a text can go on, each with the number of
characters that it takes up together with the blanks in front of it. -/
def continuations (symbols : List Symbol) (t : List Char) : List (Symbol × Nat) :=
  let gap := (t.takeWhile Text.isBlank).length
  let rest := Text.skipBlanks t
  symbols.filterMap fun a =>
    if a.chars.isPrefixOf rest then some (a, gap + a.chars.length) else none

/-- A text is its first blanks and the text without them. -/
theorem drop_takeWhile_length (t : List Char) :
    t.drop (t.takeWhile Text.isBlank).length = Text.skipBlanks t := by
  induction t with
  | nil => rfl
  | cons c t ih =>
      by_cases h : Text.isBlank c
      · simp [Text.skipBlanks, h] at ih ⊢
        exact ih
      · simp [Text.skipBlanks, h]

theorem mem_continuations_iff {symbols : List Symbol} {t : List Char} {a : Symbol} {n : Nat} :
    (a, n) ∈ continuations symbols t ↔
      a ∈ symbols ∧ Reads a t (t.drop n) ∧
        n = (t.takeWhile Text.isBlank).length + a.chars.length := by
  simp only [continuations, List.mem_filterMap, Option.ite_none_right_eq_some,
    Option.some.injEq, Prod.mk.injEq, List.isPrefixOf_iff_prefix]
  constructor
  · rintro ⟨b, hb, ⟨rest, hrest⟩, rfl, rfl⟩
    refine ⟨hb, ?_, rfl⟩
    rw [Reads, ← List.drop_drop, drop_takeWhile_length, ← hrest, List.drop_left]
  · rintro ⟨ha, hreads, rfl⟩
    exact ⟨a, ha, ⟨_, hreads.symm⟩, rfl, rfl⟩

/-- Taking off a symbol shortens the text. -/
theorem pos_of_mem_continuations {symbols : List Symbol} {t : List Char} {a : Symbol} {n : Nat}
    (h : (a, n) ∈ continuations symbols t) : 0 < n := by
  have hn := (mem_continuations_iff.mp h).2.2
  have hpos := List.length_pos_iff.mpr a.chars_ne_nil
  omega

/-- A continuation lies within the text. -/
theorem le_length_of_mem_continuations {symbols : List Symbol} {t : List Char} {a : Symbol}
    {n : Nat} (h : (a, n) ∈ continuations symbols t) : n ≤ t.length := by
  obtain ⟨-, hreads, hn⟩ := mem_continuations_iff.mp h
  have hlen := congrArg List.length hreads
  rw [← drop_takeWhile_length, List.length_append, List.length_drop, List.length_drop] at hlen
  have hpos := List.length_pos_iff.mpr a.chars_ne_nil
  omega

end FormalLang
