import FormalLang.Proofs.Grammar.Generation
import FormalLang.Proofs.Random.Windows
import Mathlib.Data.Stream.Init

/-!
# Derivation trees and words that are drawn

A word that is drawn without a cut is the yield of a derivation tree: at every non-terminal
that is met, a rule was picked, and the level at which it is met is its level in the tree.
Conversely every tree is drawn with some random words.  They are found along the tree, in the
order in which the non-terminals are met, since every alternative is picked by some word.

Main results:

- Theorem `Random.exists_draw_eq_some`: every index is drawn with some word.
- Theorem `Grammar.exists_tree_of_deriveBy`: what is drawn without a cut has a tree.
- Theorem `Grammar.drawsUncut_derive`: what has a tree is drawn.
- Theorem `Grammar.drawn_uncut_iff_tree`: the words that can be drawn without a cut.
-/

namespace FormalLang

/-! ## Words for indices -/

namespace Random

/-- Every index is drawn with some word, whatever words follow. -/
theorem exists_draw_eq_some {n i : Nat} (hi : i < n) (hn : n ≤ UInt64.size) :
    ∃ v, ∀ words, draw n (v :: words) = some (i, words) := by
  rcases exists_index?_eq_some hn hi with ⟨v, hv⟩
  refine ⟨v, fun words => ?_⟩
  rw [draw, hv]

end Random

/-! ## Trees -/

/-- The derivation trees of the symbols of a sentential form, from left to right.  A terminal
is a leaf.  Below a non-terminal stand the trees of the form by which it was replaced. -/
inductive DerivationForest
  | nil
  | terminal (a : Symbol) (rest : DerivationForest)
  | nonTerminal (A : Symbol) (children rest : DerivationForest)

namespace DerivationForest

/-- The form of the roots. -/
def form : DerivationForest → SententialForm
  | nil => []
  | terminal a rest => .terminal a :: rest.form
  | nonTerminal A _ rest => .nonTerminal A :: rest.form

/-- The word of the leaves. -/
def yield : DerivationForest → Word
  | nil => []
  | terminal a rest => a :: rest.yield
  | nonTerminal _ children rest => children.yield ++ rest.yield

/-- The greatest number of non-terminals below each other. -/
def height : DerivationForest → Nat
  | nil => 0
  | terminal _ rest => rest.height
  | nonTerminal _ children rest => max (children.height + 1) rest.height

/-- Every non-terminal is replaced by a rule. -/
def Uses (P : Productions) : DerivationForest → Prop
  | nil => True
  | terminal _ rest => rest.Uses P
  | nonTerminal A children rest =>
      P.HasRule [.nonTerminal A] children.form ∧ children.Uses P ∧ rest.Uses P

end DerivationForest

/-- A derivation tree: a non-terminal, and the trees of the form by which it was replaced. -/
structure DerivationTree where
  root : Symbol
  children : DerivationForest

namespace DerivationTree

/-- The word of the leaves. -/
def yield (t : DerivationTree) : Word :=
  t.children.yield

/-- The greatest number of non-terminals below each other, the root included. -/
def height (t : DerivationTree) : Nat :=
  t.children.height + 1

/-- Every non-terminal is replaced by a rule. -/
def Uses (P : Productions) (t : DerivationTree) : Prop :=
  P.HasRule [.nonTerminal t.root] t.children.form ∧ t.children.Uses P

end DerivationTree

/-! ## Trees of what is drawn -/

/-- A word that was drawn without a cut. -/
def Generated.Uncut (x : Generated) : Prop :=
  ∀ e ∈ x.events, e.isCut = false

namespace Grammar

variable {g : Grammar} {s : SententialForm} {w w' : Word} {words : List UInt64} {x : Generated}
  {A X : Symbol} {depth : Nat}

/-- There is a tree for a word, with so many levels at most. -/
def HasTree (g : Grammar) (depth : Nat) (X : Symbol) (w : Word) : Prop :=
  ∃ t : DerivationTree,
    t.root = X ∧ t.Uses g.productions ∧ t.yield = w ∧ t.height ≤ depth

/-- There are trees for the parts of a word that come from the symbols of a form. -/
def HasForest (g : Grammar) (depth : Nat) (s : SententialForm) (w : Word) : Prop :=
  ∃ F : DerivationForest,
    F.form = s ∧ F.Uses g.productions ∧ F.yield = w ∧ F.height ≤ depth

theorem HasForest.nil : g.HasForest depth [] [] :=
  ⟨.nil, rfl, trivial, rfl, Nat.zero_le _⟩

theorem HasForest.terminal {a : Symbol} (h : g.HasForest depth s w) :
    g.HasForest depth (.terminal a :: s) (a :: w) := by
  rcases h with ⟨F, rfl, huses, rfl, hheight⟩
  exact ⟨.terminal a F, rfl, huses, rfl, hheight⟩

theorem HasForest.nonTerminal (ht : g.HasTree depth A w) (h : g.HasForest depth s w') :
    g.HasForest depth (.nonTerminal A :: s) (w ++ w') := by
  rcases ht with ⟨t, rfl, htree, rfl, hlevels⟩
  rcases h with ⟨F, rfl, huses, rfl, hheight⟩
  exact ⟨.nonTerminal t.root t.children F, rfl, ⟨htree.1, htree.2, huses⟩, rfl,
    Nat.max_le.mpr ⟨hlevels, hheight⟩⟩

theorem HasTree.of_forest (hrule : g.productions.HasRule [.nonTerminal X] s)
    (h : g.HasForest depth s w) : g.HasTree (depth + 1) X w := by
  rcases h with ⟨F, rfl, huses, rfl, hheight⟩
  exact ⟨⟨X, F⟩, rfl, ⟨hrule, huses⟩, rfl, Nat.succ_le_succ hheight⟩

/-- What is drawn from a form has trees, if what is drawn from its non-terminals has. -/
theorem exists_forest_of_deriveForm {derive : Symbol → List UInt64 → Option Generated}
    (hderive : ∀ A words x, derive A words = some x → x.Uncut → g.HasTree depth A x.word)
    (h : deriveForm derive s words = some x) (hx : x.Uncut) : g.HasForest depth s x.word := by
  induction s generalizing words x with
  | nil =>
      cases h
      exact .nil
  | cons y s ih =>
      cases y with
      | terminal a =>
          rcases deriveForm_terminal_iff.mp h with ⟨after, hafter, rfl⟩
          exact (ih hafter hx).terminal
      | nonTerminal A =>
          rcases deriveForm_nonTerminal_iff.mp h with ⟨here, after, hhere, hafter, rfl⟩
          have htree := hderive A words here hhere fun e he => hx e (List.mem_append_left _ he)
          exact .nonTerminal htree (ih hafter fun e he => hx e (List.mem_append_right _ he))

/-- What is drawn without a cut has a tree. -/
theorem exists_tree_of_deriveBy {draw : Random.Draw} (hdraw : draw.Below)
    (h : g.deriveBy draw depth X words = some x) (hx : x.Uncut) : g.HasTree depth X x.word := by
  induction depth generalizing X words x with
  | zero =>
      cases h
      cases hx _ List.mem_cons_self
  | succ depth ih =>
      rcases (deriveBy_succ_iff hdraw).mp h with ⟨-, rfl⟩ | ⟨rhs, rest, y, hpick, hy, rfl⟩
      · cases hx _ List.mem_cons_self
      · have hforest := exists_forest_of_deriveForm (fun A ws z => ih) hy fun e he =>
          hx e (List.mem_cons_of_mem _ he)
        exact .of_forest hpick.hasRule hforest

/-! ## Trees are drawn -/

/-- With some random words a computation gives a word without a cut, and leaves all words that
follow them. -/
def DrawsUncut (ask : List UInt64 → Option Generated) (w : Word) : Prop :=
  ∃ words events, (∀ e ∈ events, e.isCut = false) ∧
    ∀ more, ask (words ++ more) = some ⟨w, events, more⟩

section Forms

variable {derive : Symbol → List UInt64 → Option Generated}

theorem DrawsUncut.nil : DrawsUncut (deriveForm derive []) [] :=
  ⟨[], [], by simp, fun _ => rfl⟩

theorem DrawsUncut.terminal {a : Symbol} (h : DrawsUncut (deriveForm derive s) w) :
    DrawsUncut (deriveForm derive (.terminal a :: s)) (a :: w) := by
  rcases h with ⟨words, events, hevents, hask⟩
  exact ⟨words, events, hevents, fun more =>
    deriveForm_terminal_iff.mpr ⟨_, hask more, rfl⟩⟩

/-- The words for a non-terminal come before those for the rest of the form. -/
theorem DrawsUncut.nonTerminal (hA : DrawsUncut (derive A) w)
    (h : DrawsUncut (deriveForm derive s) w') :
    DrawsUncut (deriveForm derive (.nonTerminal A :: s)) (w ++ w') := by
  rcases hA with ⟨words, events, hevents, hhere⟩
  rcases h with ⟨words', events', hevents', hafter⟩
  refine ⟨words ++ words', events ++ events', ?_, fun more => ?_⟩
  · exact List.forall_mem_append.mpr ⟨hevents, hevents'⟩
  · rw [List.append_assoc]
    exact deriveForm_nonTerminal_iff.mpr ⟨_, _, hhere _, hafter more, rfl⟩

end Forms

/-- A left-hand side has no more alternatives than can be told apart by a 64-bit word. -/
def Addressable (g : Grammar) : Prop :=
  ∀ entry ∈ g.productions.entries, entry.2.size ≤ UInt64.size

theorem Addressable.length_alternatives_le (hg : g.Addressable) (A : Symbol) :
    (g.alternatives A).length ≤ UInt64.size := by
  unfold alternatives
  split
  · rename_i alternatives h
    exact hg _ (OrderedMap.get?_eq_some_iff.mp h)
  · exact Nat.zero_le _

/-- The word that picks a rule comes before those for its right-hand side. -/
theorem DrawsUncut.of_rule (hg : g.Addressable) (hrule : g.productions.HasRule [.nonTerminal A] s)
    (h : DrawsUncut (deriveForm (g.derive depth) s) w) : DrawsUncut (g.derive (depth + 1) A) w := by
  rcases List.getElem_of_mem (mem_alternatives.mpr hrule) with ⟨i, hi, hget⟩
  rcases Random.exists_draw_eq_some hi (hg.length_alternatives_le A) with ⟨v, hv⟩
  rcases h with ⟨words, events, hevents, hask⟩
  refine ⟨v :: words, .applied A s :: events, List.forall_mem_cons.mpr ⟨rfl, hevents⟩, ?_⟩
  intro more
  have hpick : g.Picks Random.draw A (v :: (words ++ more)) s (words ++ more) :=
    ⟨i, hv _, List.getElem?_eq_some_iff.mpr ⟨hi, hget⟩⟩
  exact (deriveBy_succ_iff Random.draw_below).mpr (Or.inr ⟨s, _, _, hpick, hask more, rfl⟩)

/-- What has trees is drawn, as soon as there are enough levels. -/
theorem drawsUncut_deriveForm (hg : g.Addressable) {F : DerivationForest}
    (huses : F.Uses g.productions) (hheight : F.height ≤ depth) :
    DrawsUncut (deriveForm (g.derive depth) F.form) F.yield := by
  induction F generalizing depth with
  | nil => exact .nil
  | terminal a rest ih => exact (ih huses hheight).terminal
  | nonTerminal A children rest ihChildren ihRest =>
      rcases huses with ⟨hrule, hchildren, hrest⟩
      rcases Nat.max_le.mp hheight with ⟨hlevels, hheight⟩
      -- The root takes one of the levels, so there is one, and its children have the others.
      obtain ⟨depth, rfl⟩ := Nat.exists_eq_add_of_le' (Nat.le_of_add_left_le hlevels)
      have hforest := ihChildren hchildren (Nat.le_of_succ_le_succ hlevels)
      exact .nonTerminal (.of_rule hg hrule hforest) (ihRest hrest hheight)

/-- What has a tree is drawn. -/
theorem drawsUncut_derive (hg : g.Addressable) (h : g.HasTree depth X w) :
    DrawsUncut (g.derive depth X) w := by
  rcases h with ⟨t, rfl, ⟨hrule, huses⟩, rfl, hheight⟩
  obtain ⟨depth, rfl⟩ := Nat.exists_eq_add_of_le' (Nat.le_of_add_left_le hheight)
  have hforest := drawsUncut_deriveForm hg huses (Nat.le_of_succ_le_succ hheight)
  exact .of_rule hg hrule hforest

/-! ## Endless random words -/

/-- With an endless sequence of random words, a word is drawn from a non-terminal, and events
are reported: all long enough beginnings of the sequence give them. -/
def DrawsFrom (g : Grammar) (stream : Stream' UInt64) (depth : Nat) (X : Symbol) (w : Word)
    (events : List Event) : Prop :=
  ∃ n, ∀ m, n ≤ m → ∃ rest, g.derive depth X (stream.take m) = some ⟨w, events, rest⟩

/-- The words that can be drawn from a non-terminal without a cut, with whatever random words,
are the yields of its derivation trees, with no more levels than the depth down to which it is
drawn. -/
theorem drawn_uncut_iff_tree (hg : g.Addressable) (X : Symbol) (depth : Nat) (w : Word) :
    (∃ stream events, g.DrawsFrom stream depth X w events ∧ ∀ e ∈ events, e.isCut = false) ↔
      ∃ t : DerivationTree,
        t.root = X ∧ t.Uses g.productions ∧ t.yield = w ∧ t.height ≤ depth := by
  constructor
  · intro h
    rcases h with ⟨stream, events, ⟨n, hdrawn⟩, hevents⟩
    rcases hdrawn n (Nat.le_refl n) with ⟨rest, hrun⟩
    exact exists_tree_of_deriveBy Random.draw_below hrun hevents
  · intro h
    rcases drawsUncut_derive hg h with ⟨words, events, hevents, hask⟩
    refine ⟨words ++ₛ Stream'.const 0, events, ⟨words.length, fun m hm => ?_⟩, hevents⟩
    obtain ⟨k, rfl⟩ := Nat.exists_eq_add_of_le hm
    rw [← Stream'.append_take]
    exact ⟨_, hask _⟩

/-- A tree for `S → aF`, `F → aS` and `S → ε`. -/
def evenTree : DerivationTree where
  root := evenWords.start
  children :=
    .terminal evenLetter <| .nonTerminal evenPartner
      (.terminal evenLetter <| .nonTerminal evenWords.start .nil .nil) .nil

theorem evenTree_drawn :
    evenWords.Addressable ∧ evenTree.Uses evenWords.productions ∧ evenTree.height = 3 ∧
      ∃ stream events,
        evenWords.DrawsFrom stream 3 evenWords.start [evenLetter, evenLetter] events ∧
          ∀ e ∈ events, e.isCut = false := by
  have hsmall : evenWords.Addressable := by
    unfold Addressable
    decide
  have huses : evenTree.Uses evenWords.productions := by
    exact ⟨mem_alternatives.mp (by decide), mem_alternatives.mp (by decide),
      ⟨mem_alternatives.mp (by decide), trivial, trivial⟩, trivial⟩
  refine ⟨hsmall, huses, rfl, ?_⟩
  exact (drawn_uncut_iff_tree hsmall evenWords.start 3 [evenLetter, evenLetter]).mpr
    ⟨evenTree, rfl, huses, rfl, Nat.le_refl 3⟩

end Grammar
end FormalLang
