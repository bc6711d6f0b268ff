import FormalLang.Split.Basic

/-!
# Taking words off a text

A symbol that is taken off a text leaves an end of it, the one behind the
continuation with this symbol.  So a word is taken off by going from place to
place, and what is left gets shorter with every symbol.

Main results:

- Theorem `readsWord_cons_iff_continuations`: a word is taken off by one of the
  continuations of the text, and then from the place where it leads.
- Theorem `ReadsWord.length_add_le`: every symbol shortens the text.
-/

namespace FormalLang

variable {symbols : List Symbol} {a : Symbol} {w : Word} {t u : List Char}

/-! ## Symbols -/

/-- What is left behind a symbol is what the continuation leads to. -/
theorem reads_iff_continuations (ha : a ∈ symbols) :
    Reads a t u ↔ ∃ n, (a, n) ∈ continuations symbols t ∧ u = t.drop n := by
  constructor
  · intro hreads
    have hdrop : t.drop ((t.takeWhile Text.isBlank).length + a.chars.length) = u := by
      rw [← List.drop_drop, drop_takeWhile_length, hreads, List.drop_left]
    refine ⟨_, mem_continuations_iff.mpr ⟨ha, ?_, rfl⟩, hdrop.symm⟩
    rw [hdrop]
    exact hreads
  · intro h
    rcases h with ⟨n, hstep, rfl⟩
    exact (mem_continuations_iff.mp hstep).2.1

/-- Taking off a symbol shortens the text. -/
theorem Reads.length_lt (h : Reads a t u) : u.length < t.length := by
  rcases (reads_iff_continuations (List.mem_singleton_self a)).mp h with ⟨n, hstep, rfl⟩
  have hpos := pos_of_mem_continuations hstep
  have hle := le_length_of_mem_continuations hstep
  rw [List.length_drop]
  omega

/-! ## Words -/

@[simp]
theorem readsWord_nil_iff : ReadsWord [] t u ↔ u = t := by
  constructor
  · intro h
    cases h
    rfl
  · rintro rfl
    exact .nil u

theorem readsWord_cons_iff :
    ReadsWord (a :: w) t u ↔ ∃ s, Reads a t s ∧ ReadsWord w s u := by
  constructor
  · intro h
    cases h with
    | cons hreads hrest => exact ⟨_, hreads, hrest⟩
  · intro h
    rcases h with ⟨s, hreads, hrest⟩
    exact .cons hreads hrest

/-- A word is taken off by a continuation with its first symbol and then from
the place where this leads. -/
theorem readsWord_cons_iff_continuations (ha : a ∈ symbols) :
    ReadsWord (a :: w) t u ↔
      ∃ n, (a, n) ∈ continuations symbols t ∧ ReadsWord w (t.drop n) u := by
  rw [readsWord_cons_iff]
  simp only [reads_iff_continuations ha]
  constructor
  · intro h
    rcases h with ⟨s, ⟨n, hstep, rfl⟩, hrest⟩
    exact ⟨n, hstep, hrest⟩
  · intro h
    rcases h with ⟨n, hstep, hrest⟩
    exact ⟨_, ⟨n, hstep, rfl⟩, hrest⟩

/-- A text is shortened by every symbol that is taken off. -/
theorem ReadsWord.length_add_le (h : ReadsWord w t u) : u.length + w.length ≤ t.length := by
  induction h with
  | nil t => exact Nat.le_refl _
  | cons hreads _ ih =>
      have hlt := hreads.length_lt
      rw [List.length_cons]
      omega

/-- Only the empty word leaves everything. -/
theorem readsWord_self_iff : ReadsWord w t t ↔ w = [] := by
  constructor
  · intro h
    have hlen := h.length_add_le
    exact List.eq_nil_of_length_eq_zero (by omega)
  · rintro rfl
    exact .nil t

/-! ## Splits over an alphabet -/

/-- A split of a text into symbols from a list. -/
structure IsSplitOver (symbols : List Symbol) (w : Word) (t : List Char) : Prop where
  symbol_mem : ∀ a ∈ w, a ∈ symbols
  isSplit : IsSplit w t

/-- The splits of a text do not depend on the order of the symbols. -/
theorem isSplitOver_congr {symbols' : List Symbol} (h : ∀ a, a ∈ symbols ↔ a ∈ symbols') :
    IsSplitOver symbols w t ↔ IsSplitOver symbols' w t := by
  constructor
  · exact fun hsplit => ⟨fun a ha => (h a).mp (hsplit.symbol_mem a ha), hsplit.isSplit⟩
  · exact fun hsplit => ⟨fun a ha => (h a).mpr (hsplit.symbol_mem a ha), hsplit.isSplit⟩

end FormalLang
