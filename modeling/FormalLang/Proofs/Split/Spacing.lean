import FormalLang.Proofs.Split.Counting
import FormalLang.Proofs.Split.Spelling
import Mathlib.Data.List.TakeWhile
import Mathlib.Logic.Relation

/-!
# Blanks between symbols

A split of a text into symbols without blanks is a way to write a word: its symbols one
after the other, and blanks wherever there is no symbol.  In such a writing every blank can
be replaced by other blanks, and also be left out.  So blanks that are inserted into a text
bring no new split.  They can only part the characters of a symbol, and that they cannot do
at the ends of the text or next to other blanks.

Main results:

- Theorem `isSplit_iff_written`: the splits into symbols without blanks.
- Theorem `Written.replace_blank`: a blank can be replaced by blanks.
- Theorem `Text.InsertsBlanks.isSplit`: blanks that are inserted bring no new split.
- Theorem `Text.InsertsBlanks.isSplit_iff`: at ends and next to blanks they part no symbol.
- Theorem `Splits.ofText_of_subset`: what is told of a text with fewer splits.
-/

namespace FormalLang

/-! ## Inserted blanks -/

namespace Text

variable {b s t t' : List Char}

/-- One blank is inserted into a text, between two parts for which a condition holds. -/
inductive InsertsBlank (place : List Char → List Char → Prop) : List Char → List Char → Prop
  | intro {u v : List Char} {c : Char} :
      isBlank c = true → place u v → InsertsBlank place (u ++ v) (u ++ c :: v)

/-- Finitely many blanks are inserted one after the other. -/
def InsertsBlanks (place : List Char → List Char → Prop) : List Char → List Char → Prop :=
  Relation.ReflTransGen (InsertsBlank place)

/-- Any place between two parts of a text. -/
def Anywhere (_ _ : List Char) : Prop :=
  True

/-- A place at one of the ends of a text, or next to a blank. -/
def AtBlanks (u v : List Char) : Prop :=
  u = [] ∨ v = [] ∨ (∃ c ∈ u.getLast?, isBlank c = true) ∨ ∃ c ∈ v.head?, isBlank c = true

/-- A single blank. -/
theorem InsertsBlanks.single {place : List Char → List Char → Prop} {u v : List Char} {c : Char}
    (ht : t = u ++ v) (ht' : t' = u ++ c :: v) (hc : isBlank c = true) (hplace : place u v) :
    InsertsBlanks place t t' := by
  subst ht ht'
  exact Relation.ReflTransGen.single (.intro hc hplace)

/-- Blanks that are inserted at ends and next to blanks are inserted somewhere. -/
theorem InsertsBlanks.anywhere {place : List Char → List Char → Prop}
    (h : InsertsBlanks place t t') : InsertsBlanks Anywhere t t' := by
  refine Relation.ReflTransGen.mono ?_ t t' h
  intro s s' hstep
  cases hstep with
  | intro hc _ => exact .intro hc trivial

/-- The blanks at the end of a text that has other characters. -/
theorem trailingBlanks_cons_of_not_allBlank {c : Char} (h : ¬AllBlank t) :
    trailingBlanks (c :: t) = trailingBlanks t := by
  have hne : (trimEnd t).isEmpty = false := by
    rw [List.isEmpty_eq_false_iff]
    intro hnil
    have htrailing := allBlank_trailingBlanks t
    rw [trailingBlanks, hnil] at htrailing
    exact h htrailing
  simp [trailingBlanks, trimEnd, hne]

end Text

open Text

/-! ## Writing words with blanks -/

/-- A text is written for a word: its symbols one after the other, with blanks in front of
them, between them and behind them. -/
inductive Written : Word → List Char → Prop
  | nil : Written [] []
  | blank {w : Word} {t : List Char} {c : Char} :
      isBlank c = true → Written w t → Written w (c :: t)
  | symbol {a : Symbol} {w : Word} {t : List Char} :
      Written w t → Written (a :: w) (a.chars ++ t)

variable {a : Symbol} {w : Word} {b t t' u v rest : List Char} {c : Char}

/-- Blanks can be written in front. -/
theorem Written.append_blanks (hb : AllBlank b) (h : Written w t) : Written w (b ++ t) := by
  induction b with
  | nil => exact h
  | cons c b ih =>
      exact .blank (hb c List.mem_cons_self) (ih fun d hd => hb d (List.mem_cons_of_mem c hd))

/-- A blank can be written behind. -/
theorem Written.append_blank (hc : isBlank c = true) (h : Written w t) :
    Written w (t ++ [c]) := by
  induction h with
  | nil => exact .blank hc .nil
  | blank hd _ ih => exact .blank hd ih
  | symbol _ ih =>
      rw [List.append_assoc]
      exact .symbol ih

/-- What can be taken off a text is written there, if blanks are left. -/
theorem Written.of_readsWord (h : ReadsWord w t rest) (hrest : AllBlank rest) : Written w t := by
  induction h with
  | nil t =>
      have hnil := Written.nil.append_blanks hrest
      rwa [List.append_nil] at hnil
  | @cons a w t u rest hreads _ ih =>
      have ht : t = t.takeWhile isBlank ++ (a.chars ++ u) := by
        rw [← hreads]
        exact List.takeWhile_append_dropWhile.symm
      rw [ht]
      exact (Written.symbol (ih hrest)).append_blanks fun d hd => List.mem_takeWhile_imp hd

/-- A blank in front of a text does not change what it splits into. -/
theorem IsSplit.cons_blank (hc : isBlank c = true) (h : IsSplit w t) : IsSplit w (c :: t) := by
  cases w with
  | nil =>
      rw [isSplit_nil_iff] at h ⊢
      exact List.forall_mem_cons.mpr ⟨hc, h⟩
  | cons a w =>
      have hnot : ¬AllBlank t := fun hblank =>
        List.cons_ne_nil a w ((isSplit_blank_iff hblank).mp h)
      rcases readsWord_cons_iff.mp h with ⟨u, hreads, hrest⟩
      rw [IsSplit, trailingBlanks_cons_of_not_allBlank hnot]
      refine .cons ?_ hrest
      rw [Reads, ← hreads]
      simp [skipBlanks, hc]

/-- A text splits into a word of symbols without blanks when it is written for the word. -/
theorem isSplit_iff_written (hw : ∀ a ∈ w, NoBlank a.chars) : IsSplit w t ↔ Written w t := by
  constructor
  · exact fun h => .of_readsWord h (allBlank_trailingBlanks t)
  · intro h
    induction h with
    | nil => exact .nil []
    | blank hc _ ih => exact (ih hw).cons_blank hc
    | @symbol a w t _ ih =>
        have ha := hw a List.mem_cons_self
        have hrest := ih fun b hb => hw b (List.mem_cons_of_mem a hb)
        rw [IsSplit, trailingBlanks_append_of_noBlank ha]
        exact .cons (reads_chars_append ha t) hrest

/-- In what is written for symbols without blanks, a blank can be replaced by any blanks, as
it belongs to no symbol. -/
theorem Written.replace_blank (hw : ∀ a ∈ w, NoBlank a.chars) (hc : isBlank c = true)
    (hb : AllBlank b) (h : Written w (u ++ c :: v)) : Written w (u ++ (b ++ v)) := by
  generalize ht : u ++ c :: v = t at h
  induction h generalizing u with
  | nil => simp at ht
  | @blank w t d hd hrest ih =>
      cases u with
      | nil =>
          rcases List.cons.inj ht with ⟨-, rfl⟩
          rw [List.nil_append]
          exact hrest.append_blanks hb
      | cons e u =>
          rcases List.cons.inj ht with ⟨rfl, htail⟩
          exact .blank hd (ih hw htail)
  | @symbol a w t _ ih =>
      have ha := hw a List.mem_cons_self
      have hrest := fun b hb => hw b (List.mem_cons_of_mem a hb)
      rcases List.append_eq_append_iff.mp ht with ⟨r, hchars, hv⟩ | ⟨r, rfl, htail⟩
      · cases r with
        | nil =>
            rw [List.append_nil] at hchars
            rw [← hchars]
            exact .symbol (ih (u := []) hrest hv)
        | cons d r =>
            -- Then the blank would be a character of the symbol.
            rcases List.cons.inj hv with ⟨rfl, -⟩
            have hmem : c ∈ a.chars := by
              rw [hchars]
              simp
            rw [ha c hmem] at hc
            contradiction
      · rw [List.append_assoc]
        exact .symbol (ih hrest htail.symm)

/-! ## Splits of texts with inserted blanks -/

/-- Symbols with no white space in them. -/
def BlankFree (symbols : List Symbol) : Prop :=
  ∀ a ∈ symbols, NoBlank a.chars

instance (symbols : List Symbol) : Decidable (BlankFree symbols) :=
  decidable_of_iff ((symbols.all fun a => a.chars.all fun c => !isBlank c) = true)
    (by simp [BlankFree, NoBlank])

namespace Text

/-- One blank brings no new split. -/
theorem InsertsBlank.isSplit {place : List Char → List Char → Prop}
    (hstep : InsertsBlank place t t') (hw : BlankFree w) (h : IsSplit w t') : IsSplit w t := by
  cases hstep with
  | intro hc _ =>
      rw [isSplit_iff_written hw] at h ⊢
      exact h.replace_blank hw hc (List.forall_mem_nil _)

/-- At an end of the text or next to a blank, one blank keeps all splits. -/
theorem InsertsBlank.isSplit_iff (hstep : InsertsBlank AtBlanks t t') (hw : BlankFree w) :
    IsSplit w t' ↔ IsSplit w t := by
  refine ⟨hstep.isSplit hw, fun h => ?_⟩
  rw [isSplit_iff_written hw] at h ⊢
  cases hstep with
  | @intro u v c hc hplace =>
      rcases hplace with rfl | rfl | ⟨d, hlast, hd⟩ | ⟨d, hhead, hd⟩
      · exact .blank hc h
      · rw [List.append_nil] at h
        exact h.append_blank hc
      · rcases List.getLast?_eq_some_iff.mp hlast with ⟨u, rfl⟩
        rw [List.append_assoc] at h ⊢
        exact h.replace_blank hw hd (b := [d, c]) (by simp [AllBlank, hc, hd])
      · rcases List.head?_eq_some_iff.mp hhead with ⟨v, rfl⟩
        exact h.replace_blank hw hd (b := [c, d]) (by simp [AllBlank, hc, hd])

/-- Blanks that are inserted anywhere bring no new split. -/
theorem InsertsBlanks.isSplit (hins : InsertsBlanks Anywhere t t') (hw : BlankFree w)
    (h : IsSplit w t') : IsSplit w t := by
  induction hins with
  | refl => exact h
  | tail _ hstep ih => exact ih (hstep.isSplit hw h)

/-- Blanks that are inserted at ends and next to blanks keep all splits. -/
theorem InsertsBlanks.isSplit_iff (hins : InsertsBlanks AtBlanks t t') (hw : BlankFree w) :
    IsSplit w t' ↔ IsSplit w t := by
  induction hins with
  | refl => exact Iff.rfl
  | tail _ hstep ih => exact (hstep.isSplit_iff hw).trans ih

end Text

variable {symbols : List Symbol}

theorem isSplitOver_of_insertsBlanks (hins : InsertsBlanks Anywhere t t')
    (hsymbols : BlankFree symbols) (h : IsSplitOver symbols w t') : IsSplitOver symbols w t :=
  ⟨h.symbol_mem, hins.isSplit (fun a ha => hsymbols a (h.symbol_mem a ha)) h.isSplit⟩

theorem isSplitOver_iff_of_insertsBlanks (hins : InsertsBlanks AtBlanks t t')
    (hsymbols : BlankFree symbols) : IsSplitOver symbols w t' ↔ IsSplitOver symbols w t := by
  constructor
  · exact isSplitOver_of_insertsBlanks hins.anywhere hsymbols
  · intro h
    exact ⟨h.symbol_mem,
      (hins.isSplit_iff fun a ha => hsymbols a (h.symbol_mem a ha)).mpr h.isSplit⟩

/-! ## Answers -/

namespace Splits

variable {text text' : String}

theorem blankFree_spell (hsymbols : BlankFree symbols) (indices : Indices symbols) :
    BlankFree (spell symbols indices) := by
  intro a ha
  rcases List.mem_map.mp ha with ⟨i, -, rfl⟩
  exact hsymbols _ (List.get_mem symbols i)

theorem splitIndices_subset (hins : InsertsBlanks Anywhere t t')
    (hsymbols : BlankFree symbols) : splitIndices symbols t' ⊆ splitIndices symbols t :=
  fun indices h => hins.isSplit (blankFree_spell hsymbols indices) h

theorem splitIndices_eq (hins : InsertsBlanks AtBlanks t t') (hsymbols : BlankFree symbols) :
    splitIndices symbols t' = splitIndices symbols t :=
  Set.ext fun indices => hins.isSplit_iff (blankFree_spell hsymbols indices)

/-- When a text has only splits of another one, nothing is told of it that is not told of
the other one, but that it has no split. -/
theorem ofText_of_subset
    (hsubset : splitIndices symbols text'.toList ⊆ splitIndices symbols text.toList) :
    (ofText symbols text = .none → ofText symbols text' = .none) ∧
      ∀ w, ofText symbols text = .one w →
        ofText symbols text' = .one w ∨ ofText symbols text' = .none := by
  have hcard := Set.ncard_le_ncard hsubset (finite_splitIndices symbols text.toList)
  rw [ncard_splitIndices, ncard_splitIndices] at hcard
  constructor
  · intro h
    rw [ofText_eq_none_iff] at h ⊢
    rw [h] at hcard
    exact List.eq_nil_of_length_eq_zero (Nat.le_zero.mp hcard)
  · intro w h
    have hone : (listSplits symbols text.toList).length = 1 := by
      rcases ofText_eq_one_iff.mp h with ⟨indices, hlist, -⟩
      rw [hlist]
      rfl
    cases h' : ofText symbols text' with
    | none => exact Or.inr rfl
    | one w' =>
        rcases ofText_eq_one_iff_ncard.mp h' with ⟨-, indices, hindices, rfl⟩
        have hmem := mem_listSplits_iff.mpr (hsubset hindices)
        have hsplit := isSplitOver_iff_exists_indices.mpr ⟨indices, hmem, rfl⟩
        exact Or.inl (congrArg one ((isSplitOver_iff_of_one h).mp hsplit))
    | many =>
        have htwo := ofText_eq_many_iff.mp h'
        omega

/-- The splits of a text decide what is told of it. -/
theorem ofText_congr
    (heq : splitIndices symbols text'.toList = splitIndices symbols text.toList) :
    ofText symbols text' = ofText symbols text := by
  have hfewer := ofText_of_subset heq.le
  have hmore := ofText_of_subset heq.ge
  cases h : ofText symbols text with
  | none => exact hfewer.1 h
  | one w =>
      rcases hfewer.2 w h with hone | hnone
      · exact hone
      · rw [hmore.1 hnone] at h
        contradiction
  | many =>
      cases h' : ofText symbols text' with
      | none =>
          rw [hmore.1 h'] at h
          contradiction
      | one w =>
          rcases hmore.2 w h' with hone | hnone
          · rw [hone] at h
            contradiction
          · rw [hnone] at h
            contradiction
      | many => rfl

end Splits
end FormalLang
