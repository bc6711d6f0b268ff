import FormalLang.Proofs.Grammar.DerivationTrees

/-!
# Endless random words

What is drawn with some random words is drawn with more of them, too, and those that follow
are left.  So an endless sequence of words gives one result at most, and some beginning of
the sequence tells which one.  The sequence gives a result if it is fair: an index below any
bound must be given again and again, since other words are refused.

Main results:

- Theorem `Grammar.deriveBy_append`: words that follow change nothing.
- Theorem `Grammar.drawsFrom_iff`: a beginning of a sequence tells its result.
- Theorem `Grammar.exists_drawsFrom`: fair sequences have results.
-/

namespace FormalLang

/-! ## Draws -/

namespace Random

/-- Words that follow those for an index are left. -/
def Draw.Extends (draw : Draw) : Prop :=
  ∀ n words i rest more, draw n words = some (i, rest) →
    draw n (words ++ more) = some (i, rest ++ more)

theorem draw_extends : Draw.Extends draw := by
  intro n words i rest more h
  induction words with
  | nil => contradiction
  | cons v words ih =>
      rw [draw] at h
      rw [List.cons_append, draw]
      cases hindex : index? n v with
      | none =>
          rw [hindex] at h
          exact ih h
      | some j =>
          rw [hindex] at h
          cases h
          rfl

/-- Behind every place of a sequence there are words that give indices below any bound. -/
def Fair (stream : Stream' UInt64) : Prop :=
  ∀ n k, 0 < n → ∃ j, (index? n ((stream.drop k).get j)).isSome = true

theorem fair_const_zero : Fair (Stream'.const 0) := by
  intro n k _
  refine ⟨0, ?_⟩
  rw [Stream'.drop_const, Stream'.get_const]
  simp [index?]

theorem Fair.drop {stream : Stream' UInt64} (h : Fair stream) (m : Nat) :
    Fair (stream.drop m) := by
  intro n k hn
  rw [Stream'.drop_drop]
  exact h n (m + k) hn

/-- The first index that is given takes the words before it, and no other ones. -/
theorem exists_draw_take {n j : Nat} {stream : Stream' UInt64}
    (h : (index? n (stream.get j)).isSome = true) :
    ∃ m i, draw n (stream.take m) = some (i, []) := by
  induction j generalizing stream with
  | zero =>
      rcases Option.isSome_iff_exists.mp h with ⟨i, hi⟩
      refine ⟨1, i, ?_⟩
      rw [Stream'.take_succ, Stream'.take_zero, draw, show index? n stream.head = some i from hi]
  | succ j ih =>
      cases hindex : index? n stream.head with
      | some i =>
          refine ⟨1, i, ?_⟩
          rw [Stream'.take_succ, Stream'.take_zero, draw, hindex]
      | none =>
          have htail : (index? n (stream.tail.get j)).isSome = true := h
          rcases ih htail with ⟨m, i, hdraw⟩
          refine ⟨m + 1, i, ?_⟩
          rw [Stream'.take_succ, draw, hindex]
          exact hdraw

end Random

/-! ## Words that follow -/

/-- What is generated when more words are there. -/
def Generated.followedBy (x : Generated) (more : List UInt64) : Generated :=
  { x with rest := x.rest ++ more }

namespace Grammar

variable {g : Grammar} {s : SententialForm} {w w' : Word} {events events' : List Event}
  {words more : List UInt64} {x : Generated} {X : Symbol} {depth : Nat}
  {stream : Stream' UInt64}

/-- Words that follow change nothing for a form, if they change nothing for its
non-terminals. -/
theorem deriveForm_append {derive : Symbol → List UInt64 → Option Generated}
    (hderive : ∀ A words x, derive A words = some x →
      derive A (words ++ more) = some (x.followedBy more))
    (h : deriveForm derive s words = some x) :
    deriveForm derive s (words ++ more) = some (x.followedBy more) := by
  induction s generalizing words x with
  | nil =>
      cases h
      rfl
  | cons y s ih =>
      cases y with
      | terminal a =>
          rcases deriveForm_terminal_iff.mp h with ⟨after, hafter, rfl⟩
          exact deriveForm_terminal_iff.mpr ⟨_, ih hafter, rfl⟩
      | nonTerminal A =>
          rcases deriveForm_nonTerminal_iff.mp h with ⟨here, after, hhere, hafter, rfl⟩
          exact deriveForm_nonTerminal_iff.mpr
            ⟨_, _, hderive A words here hhere, ih hafter, rfl⟩

theorem Picks.append {draw : Random.Draw} {rest : List UInt64} (hextends : draw.Extends)
    (h : g.Picks draw X words s rest) : g.Picks draw X (words ++ more) s (rest ++ more) := by
  rcases h with ⟨i, hindex, hget⟩
  exact ⟨i, hextends _ _ _ _ more hindex, hget⟩

/-- What is drawn from a non-terminal with some words is drawn with more of them. -/
theorem deriveBy_append {draw : Random.Draw} (hbelow : draw.Below) (hextends : draw.Extends)
    (h : g.deriveBy draw depth X words = some x) :
    g.deriveBy draw depth X (words ++ more) = some (x.followedBy more) := by
  induction depth generalizing X words x with
  | zero =>
      cases h
      rfl
  | succ depth ih =>
      rw [deriveBy_succ_iff hbelow] at h ⊢
      rcases h with ⟨hnone, rfl⟩ | ⟨rhs, rest, y, hpick, hy, rfl⟩
      · exact Or.inl ⟨hnone, rfl⟩
      · exact Or.inr ⟨rhs, rest ++ more, y.followedBy more, hpick.append hextends,
          deriveForm_append (fun A ws z => ih) hy, rfl⟩

theorem derive_append (h : g.derive depth X words = some x) :
    g.derive depth X (words ++ more) = some (x.followedBy more) :=
  deriveBy_append Random.draw_below Random.draw_extends h

/-! ## Results of sequences -/

/-- As soon as a beginning of a sequence gives a result, it is the one of the sequence. -/
theorem drawsFrom_iff :
    g.DrawsFrom stream depth X w events ↔
      ∃ n rest, g.derive depth X (stream.take n) = some ⟨w, events, rest⟩ := by
  constructor
  · intro h
    rcases h with ⟨n, hdrawn⟩
    exact ⟨n, hdrawn n (Nat.le_refl n)⟩
  · intro h
    rcases h with ⟨n, rest, hrun⟩
    refine ⟨n, fun m hm => ?_⟩
    obtain ⟨k, rfl⟩ := Nat.exists_eq_add_of_le hm
    rw [Stream'.take_add]
    exact ⟨_, derive_append hrun⟩

theorem DrawsFrom.unique (h : g.DrawsFrom stream depth X w events)
    (h' : g.DrawsFrom stream depth X w' events') : w = w' ∧ events = events' := by
  rcases h with ⟨n, hdrawn⟩
  rcases h' with ⟨n', hdrawn'⟩
  rcases hdrawn (max n n') (Nat.le_max_left n n') with ⟨rest, hrun⟩
  rcases hdrawn' (max n n') (Nat.le_max_right n n') with ⟨rest', hrun'⟩
  have hsame := Generated.mk.inj (Option.some.inj (hrun.symm.trans hrun'))
  exact ⟨hsame.1, hsame.2.1⟩

/-! ## Fair sequences -/

/-- A computation gives a result with some beginning of every fair sequence, all of whose
words it takes. -/
def TakesFair (ask : List UInt64 → Option Generated) : Prop :=
  ∀ stream, Random.Fair stream → ∃ n w events, ask (stream.take n) = some ⟨w, events, []⟩

/-- What the non-terminals of a form take stands one behind the other. -/
theorem takesFair_deriveForm (hderive : ∀ A, TakesFair (g.derive depth A)) (s : SententialForm) :
    TakesFair (deriveForm (g.derive depth) s) := by
  intro stream hfair
  induction s generalizing stream with
  | nil => exact ⟨0, [], [], rfl⟩
  | cons y s ih =>
      cases y with
      | terminal a =>
          rcases ih stream hfair with ⟨n, w, events, hafter⟩
          exact ⟨n, a :: w, events, deriveForm_terminal_iff.mpr ⟨_, hafter, rfl⟩⟩
      | nonTerminal A =>
          rcases hderive A stream hfair with ⟨n, w, events, hhere⟩
          rcases ih (stream.drop n) (hfair.drop n) with ⟨k, w', events', hafter⟩
          refine ⟨n + k, w ++ w', events ++ events', ?_⟩
          rw [Stream'.take_add]
          exact deriveForm_nonTerminal_iff.mpr ⟨_, _, derive_append hhere, hafter, rfl⟩

/-- A fair sequence picks a right-hand side, if there is one. -/
theorem exists_picks (hfair : Random.Fair stream) (hsome : g.alternatives X ≠ []) :
    ∃ n rhs, g.Picks Random.draw X (stream.take n) rhs [] := by
  have hpos := List.length_pos_iff.mpr hsome
  rcases hfair _ 0 hpos with ⟨j, hj⟩
  rcases Random.exists_draw_take hj with ⟨n, i, hindex⟩
  exact ⟨n, _, i, hindex, List.getElem?_eq_getElem (Random.draw_below _ _ _ _ hpos hindex)⟩

theorem takesFair_derive (g : Grammar) (depth : Nat) (X : Symbol) :
    TakesFair (g.derive depth X) := by
  induction depth generalizing X with
  | zero => exact fun _ _ => ⟨0, [], _, rfl⟩
  | succ depth ih =>
      intro stream hfair
      by_cases hnone : g.alternatives X = []
      · exact ⟨0, [], _, (deriveBy_succ_iff Random.draw_below).mpr (Or.inl ⟨hnone, rfl⟩)⟩
      · -- First the words for the index are taken, and then those for the right-hand side.
        rcases exists_picks hfair hnone with ⟨n, rhs, hpick⟩
        rcases takesFair_deriveForm ih rhs (stream.drop n) (hfair.drop n) with
          ⟨k, w, events, hform⟩
        refine ⟨n + k, w, .applied X rhs :: events, ?_⟩
        rw [Stream'.take_add]
        exact (deriveBy_succ_iff Random.draw_below).mpr
          (Or.inr ⟨rhs, _, _, hpick.append Random.draw_extends, hform, rfl⟩)

/-- Every fair sequence gives a word. -/
theorem exists_drawsFrom (hfair : Random.Fair stream) (g : Grammar) (depth : Nat) (X : Symbol) :
    ∃ w events, g.DrawsFrom stream depth X w events := by
  rcases takesFair_derive g depth X stream hfair with ⟨n, w, events, hrun⟩
  exact ⟨w, events, drawsFrom_iff.mpr ⟨n, [], hrun⟩⟩

end Grammar
end FormalLang
