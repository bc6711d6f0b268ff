/-!
# Symbols and words

A symbol is a non-empty piece of text, a word a sequence of symbols.  Symbols
may have several characters, so a text can split into symbols in many ways or
in none; `FormalLang.Split` is about that.
-/

namespace FormalLang

/-- A symbol of an alphabet: a text with at least one character. -/
@[ext]
structure Symbol where
  text : String
  text_ne_empty : text ≠ ""
deriving DecidableEq

namespace Symbol

/-- The symbol written by a text, if the text is not empty. -/
def ofString? (s : String) : Option Symbol :=
  if h : s = "" then none else some ⟨s, h⟩

theorem ofString?_eq_some_iff {s : String} {a : Symbol} :
    ofString? s = some a ↔ a.text = s := by
  unfold ofString?
  split
  · rename_i h
    simp only [reduceCtorEq, false_iff]
    exact fun ha => a.text_ne_empty (ha.trans h)
  · simp only [Option.some.injEq]
    exact ⟨fun h => h ▸ rfl, fun h => Symbol.ext h.symm⟩

theorem ofString?_eq_none_iff {s : String} : ofString? s = none ↔ s = "" := by
  unfold ofString?
  split <;> simp_all

/-- The symbol that stands where a name is missing. -/
def unknown : Symbol :=
  ⟨"?", by decide⟩

/-- The characters of a symbol. -/
def chars (a : Symbol) : List Char :=
  a.text.toList

theorem chars_ne_nil (a : Symbol) : a.chars ≠ [] := by
  intro h
  apply a.text_ne_empty
  rw [← String.toList_inj]
  simpa [chars] using h

theorem chars_injective {a b : Symbol} (h : a.chars = b.chars) : a = b :=
  Symbol.ext (String.toList_inj.mp h)

/-- Symbols are ordered as their texts. -/
instance : Ord Symbol where
  compare := compareOn Symbol.text

instance : Std.TransOrd Symbol :=
  inferInstanceAs (Std.TransCmp (compareOn Symbol.text))

instance : Std.LawfulEqOrd Symbol where
  eq_of_compare {a b} h := by
    have htext : compare a.text b.text = .eq := h
    exact Symbol.ext (Std.LawfulEqOrd.eq_of_compare htext)

/-! ## Primed symbols -/

/-- A symbol with a prime at its end. -/
def primed (a : Symbol) : Symbol :=
  ⟨a.text ++ "'", by simp [String.append_eq_empty_iff]⟩

@[simp]
theorem text_primed (a : Symbol) : a.primed.text = a.text ++ "'" :=
  rfl

/-- The first of `a`, `a'`, `a''`, … that is not taken.  A name that has been
tried once need not be looked at again: every later one is longer. -/
def fresh (taken : List Symbol) (a : Symbol) : Symbol :=
  if a ∈ taken then fresh (taken.erase a) a.primed else a
termination_by taken.length
decreasing_by
  rename_i h
  rw [List.length_erase_of_mem h]
  have := List.length_pos_of_mem h
  omega

theorem length_text_fresh (taken : List Symbol) (a : Symbol) :
    a.text.length ≤ (fresh taken a).text.length := by
  fun_induction fresh taken a with
  | case1 taken a h ih =>
      refine Nat.le_trans ?_ ih
      simp
  | case2 taken a h => exact Nat.le_refl _

theorem fresh_not_mem (taken : List Symbol) (a : Symbol) : fresh taken a ∉ taken := by
  fun_induction fresh taken a with
  | case1 taken a h ih =>
      intro hmem
      refine ih ((List.mem_erase_of_ne ?_).mpr hmem)
      intro heq
      have hlen := length_text_fresh (taken.erase a) a.primed
      rw [heq, text_primed, String.length_append] at hlen
      exact Nat.not_succ_le_self _ hlen
  | case2 taken a h => exact h

/-- A name that is not taken is kept. -/
theorem fresh_of_not_mem {taken : List Symbol} {a : Symbol} (h : a ∉ taken) :
    fresh taken a = a := by
  rw [fresh, if_neg h]

/-- Fresh names for a list of names: each differs from what is taken and from
the names given before it. -/
def freshNames (taken : List Symbol) : List Symbol → List Symbol
  | [] => []
  | a :: names => fresh taken a :: freshNames (fresh taken a :: taken) names

@[simp]
theorem length_freshNames (taken names : List Symbol) :
    (freshNames taken names).length = names.length := by
  induction names generalizing taken with
  | nil => rfl
  | cons a names ih => simp [freshNames, ih]

theorem freshNames_not_mem (taken names : List Symbol) :
    ∀ a ∈ freshNames taken names, a ∉ taken := by
  induction names generalizing taken with
  | nil => simp [freshNames]
  | cons b names ih =>
      intro a ha
      rcases List.mem_cons.mp ha with rfl | ha
      · exact fresh_not_mem taken b
      · exact fun hmem => ih _ a ha (List.mem_cons_of_mem _ hmem)

theorem nodup_freshNames (taken names : List Symbol) : (freshNames taken names).Nodup := by
  induction names generalizing taken with
  | nil => exact List.nodup_nil
  | cons b names ih =>
      refine List.nodup_cons.mpr ⟨?_, ih _⟩
      exact fun hmem => freshNames_not_mem _ _ _ hmem List.mem_cons_self

/-- Names after others get primes because of the fresh names of these as well. -/
theorem freshNames_append (taken names names' : List Symbol) :
    freshNames taken (names ++ names') =
      freshNames taken names ++ freshNames ((freshNames taken names).reverse ++ taken) names' := by
  induction names generalizing taken with
  | nil => rfl
  | cons a names ih =>
      rw [List.cons_append, freshNames, ih, freshNames]
      simp

/-- Distinct names that are not taken are all kept. -/
theorem freshNames_of_not_mem {taken names : List Symbol} (hnodup : names.Nodup)
    (h : ∀ a ∈ names, a ∉ taken) : freshNames taken names = names := by
  induction names generalizing taken with
  | nil => rfl
  | cons a names ih =>
      have hnames := List.nodup_cons.mp hnodup
      rw [freshNames, fresh_of_not_mem (h a List.mem_cons_self)]
      refine congrArg (a :: ·) (ih hnames.2 fun b hb hmem => ?_)
      rcases List.mem_cons.mp hmem with rfl | hmem
      · exact hnames.1 hb
      · exact h b (List.mem_cons_of_mem a hb) hmem

end Symbol

/-! ## Words -/

/-- A word is a sequence of symbols. -/
abbrev Word := List Symbol

/-- The text that stands for the empty word. -/
def emptyWordText : String := "ε"

/-- The text of a word: its symbols without anything between them. -/
def Word.text (w : Word) : String :=
  if w.isEmpty then emptyWordText else String.join (w.map Symbol.text)

end FormalLang
