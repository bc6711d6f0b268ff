import FormalLang.Proofs.Grammar.Membership
import FormalLang.Proofs.Grammar.Streams

/-!
# The depth bound of a regular grammar

In a regular grammar a right-hand side has one non-terminal at most, and it stands behind a
terminal.  So a word is drawn letter by letter, along one line of non-terminals, and the
levels below a depth bound are those behind so many letters.  A lower bound cuts the line
earlier and changes nothing before.  A line that ends before the bound ends with a rule, or at
a non-terminal without alternatives, which gives a warning.

Main results:

- Theorem `Grammar.deriveBy_iff_drawsLine`: words are drawn along lines.
- Theorem `Grammar.DrawsLine.exists_take`: a lower bound leaves a prefix.
- Theorem `Grammar.DrawsLine.uncut`: a short line is not cut.
- Theorem `Grammar.depth_bound_cuts_prefix`: the words that sequences of random words give
  for two bounds, and those that are members.
-/

namespace FormalLang
namespace Grammar

/-! ## Lines -/

/-- The lines along which words are drawn, down to a depth, in a regular grammar. -/
inductive DrawsLine (draw : Random.Draw) (g : Grammar) :
    Nat → Symbol → List UInt64 → Generated → Prop
  /-- No level is left. -/
  | cut {X : Symbol} {words : List UInt64} :
      DrawsLine draw g 0 X words ⟨[], [.depthBound X], words⟩
  /-- There is nothing to pick. -/
  | noProductions {depth : Nat} {X : Symbol} {words : List UInt64} (hnone : g.alternatives X = []) :
      DrawsLine draw g (depth + 1) X words ⟨[], [.noProductions X], words⟩
  /-- The line ends with the empty side. -/
  | erasing {depth : Nat} {X : Symbol} {words rest : List UInt64}
      (hpick : g.Picks draw X words [] rest) :
      DrawsLine draw g (depth + 1) X words ⟨[], [.applied X []], rest⟩
  /-- The line ends with a terminal. -/
  | ending {depth : Nat} {X a : Symbol} {words rest : List UInt64}
      (hpick : g.Picks draw X words [.terminal a] rest) :
      DrawsLine draw g (depth + 1) X words ⟨[a], [.applied X [.terminal a]], rest⟩
  /-- The line goes on with a non-terminal behind a terminal. -/
  | continuing {depth : Nat} {X a A : Symbol} {words rest : List UInt64} {y : Generated}
      (hpick : g.Picks draw X words [.terminal a, .nonTerminal A] rest)
      (hline : DrawsLine draw g depth A rest y) :
      DrawsLine draw g (depth + 1) X words
        ⟨a :: y.word, .applied X [.terminal a, .nonTerminal A] :: y.events, y.rest⟩

variable {draw : Random.Draw} {g : Grammar} {depth d d' : Nat} {X : Symbol}
  {words : List UInt64} {x x' : Generated} {stream : Stream' UInt64}

/-- A form of a terminal and a non-terminal is dealt with at its non-terminal. -/
theorem deriveForm_continuing_iff {derive : Symbol → List UInt64 → Option Generated}
    {a A : Symbol} :
    deriveForm derive [.terminal a, .nonTerminal A] words = some x ↔
      ∃ y, derive A words = some y ∧ { y with word := a :: y.word } = x := by
  rw [deriveForm_terminal_iff]
  simp [deriveForm_nonTerminal_iff, deriveForm_nil]

theorem DrawsLine.deriveBy_eq (hdraw : draw.Below) (h : DrawsLine draw g depth X words x) :
    g.deriveBy draw depth X words = some x := by
  induction h with
  | cut => rfl
  | noProductions hnone => exact (deriveBy_succ_iff hdraw).mpr (Or.inl ⟨hnone, rfl⟩)
  | erasing hpick => exact (deriveBy_succ_iff hdraw).mpr (Or.inr ⟨_, _, _, hpick, rfl, rfl⟩)
  | ending hpick => exact (deriveBy_succ_iff hdraw).mpr (Or.inr ⟨_, _, _, hpick, rfl, rfl⟩)
  | continuing hpick _ ih =>
      exact (deriveBy_succ_iff hdraw).mpr
        (Or.inr ⟨_, _, _, hpick, deriveForm_continuing_iff.mpr ⟨_, ih, rfl⟩, rfl⟩)

/-- In a regular grammar words are drawn along lines. -/
theorem deriveBy_iff_drawsLine (hdraw : draw.Below) (hregular : g.grammarClass = .regular) :
    g.deriveBy draw depth X words = some x ↔ DrawsLine draw g depth X words x := by
  refine ⟨fun h => ?_, DrawsLine.deriveBy_eq hdraw⟩
  induction depth generalizing X words x with
  | zero =>
      cases h
      exact .cut
  | succ depth ih =>
      rcases (deriveBy_succ_iff hdraw).mp h with ⟨hnone, rfl⟩ | ⟨rhs, rest, y, hpick, hy, rfl⟩
      · exact .noProductions hnone
      · rcases exists_side_of_hasRule hregular hpick.hasRule with ⟨-, side, -, rfl, -⟩
        cases side with
        | erasing =>
            cases hy
            exact .erasing hpick
        | ending a =>
            cases hy
            exact .ending hpick
        | continuing a A =>
            rcases deriveForm_continuing_iff.mp hy with ⟨z, hz, rfl⟩
            exact .continuing hpick (ih hz)

/-- With a lower bound, a line with the same random words gives as many letters of the word
as the bound allows. -/
theorem DrawsLine.exists_take (h : DrawsLine draw g d' X words x') (hle : d ≤ d') :
    ∃ x, DrawsLine draw g d X words x ∧ x.word = x'.word.take d := by
  induction h generalizing d with
  | cut =>
      obtain rfl := Nat.le_zero.mp hle
      exact ⟨_, .cut, rfl⟩
  | noProductions hnone =>
      cases d with
      | zero => exact ⟨_, .cut, rfl⟩
      | succ d => exact ⟨_, .noProductions hnone, rfl⟩
  | erasing hpick =>
      cases d with
      | zero => exact ⟨_, .cut, rfl⟩
      | succ d => exact ⟨_, .erasing hpick, rfl⟩
  | ending hpick =>
      cases d with
      | zero => exact ⟨_, .cut, rfl⟩
      | succ d => exact ⟨_, .ending hpick, by rw [List.take_succ_cons, List.take_nil]⟩
  | continuing hpick _ ih =>
      cases d with
      | zero => exact ⟨_, .cut, rfl⟩
      | succ d =>
          rcases ih (Nat.le_of_succ_le_succ hle) with ⟨y, hline, hword⟩
          exact ⟨_, .continuing hpick hline, by rw [hword, List.take_succ_cons]⟩

/-- A line with fewer letters than levels and without a warning has no cuts. -/
theorem DrawsLine.uncut (h : DrawsLine draw g depth X words x) (hshort : x.word.length < depth)
    (hwarn : ∀ e ∈ x.events, e.level ≠ .warn) : x.Uncut := by
  induction h with
  | cut => exact absurd hshort (Nat.not_lt_zero _)
  | noProductions _ => exact absurd rfl (hwarn _ List.mem_cons_self)
  | erasing _ => exact List.forall_mem_singleton.mpr rfl
  | ending _ => exact List.forall_mem_singleton.mpr rfl
  | continuing _ _ ih =>
      have hrest := ih (Nat.lt_of_succ_lt_succ hshort) fun e he =>
        hwarn e (List.mem_cons_of_mem _ he)
      exact List.forall_mem_cons.mpr ⟨rfl, hrest⟩

/-! ## Words that are drawn from the start symbol -/

/-- A word that is drawn without cuts is a member. -/
theorem contains_of_uncut (hregular : g.grammarClass = .regular) (hdraw : draw.Below)
    (h : g.deriveBy draw depth g.start words = some x) (hcuts : x.Uncut) :
    g.contains x.word = .ok true := by
  have hderives := (deriveBy_accounts hdraw h).derives hcuts
  rw [contains_of_regular hregular, (recognizes_iff_derives hregular).mpr hderives]

/-- For a lower bound, a sequence of random words gives as many letters as the bound allows. -/
theorem DrawsFrom.exists_take (hregular : g.grammarClass = .regular) (hle : d ≤ d') {w' : Word}
    {events' : List Event} (h : g.DrawsFrom stream d' X w' events') :
    ∃ events, g.DrawsFrom stream d X (w'.take d) events := by
  rcases drawsFrom_iff.mp h with ⟨n, rest', hrun⟩
  have hline := (deriveBy_iff_drawsLine Random.draw_below hregular).mp hrun
  rcases hline.exists_take hle with ⟨⟨w, events, rest⟩, hcut, rfl⟩
  exact ⟨events, drawsFrom_iff.mpr ⟨n, rest, hcut.deriveBy_eq Random.draw_below⟩⟩

/-- In a regular grammar every fair sequence of random words gives a word, whatever the depth
bound is.  When a sequence gives a word for a bound, it gives for every lower bound `d` the
first `d` letters of it, or the whole word if it is shorter, and nothing else.  A word that
has fewer letters than the bound is a member, if no warning was given. -/
theorem depth_bound_cuts_prefix (hregular : g.grammarClass = .regular) (hle : d ≤ d')
    (stream : Stream' UInt64) :
    (Random.Fair stream → ∃ w' events', g.DrawsFrom stream d' g.start w' events') ∧
    (∀ w' events', g.DrawsFrom stream d' g.start w' events' → ∀ w,
      (∃ events, g.DrawsFrom stream d g.start w events) ↔ w = w'.take (min d w'.length)) ∧
    ∀ w events, g.DrawsFrom stream d g.start w events → w.length < d →
      (∀ e ∈ events, e.level ≠ .warn) → g.contains w = .ok true := by
  refine ⟨fun hfair => exists_drawsFrom hfair g d' g.start, ?_, ?_⟩
  · intro w' events' h w
    rw [← List.take_eq_take_min]
    rcases h.exists_take hregular hle with ⟨events, hcut⟩
    constructor
    · intro hw
      rcases hw with ⟨events, hw⟩
      exact (hw.unique hcut).1
    · intro hw
      exact ⟨events, hw ▸ hcut⟩
  · intro w events h hshort hwarn
    rcases drawsFrom_iff.mp h with ⟨n, rest, hrun⟩
    have hline := (deriveBy_iff_drawsLine Random.draw_below hregular).mp hrun
    exact contains_of_uncut hregular Random.draw_below hrun (hline.uncut hshort hwarn)

/-- With zeros, `evenWords` draws three letters down to the third level, and so two down to
the second one.  With other words it stops after two letters, before the third level. -/
theorem evenWords_cut_and_ended :
    evenWords.grammarClass = .regular ∧ Random.Fair (Stream'.const 0) ∧
      (∃ w events, evenWords.DrawsFrom (Stream'.const 0) 3 evenWords.start w events) ∧
      (∃ events, evenWords.DrawsFrom (Stream'.const 0) 2 evenWords.start
        [evenLetter, evenLetter] events) ∧
      evenWords.contains [evenLetter, evenLetter] = .ok true := by
  have hregular : evenWords.grammarClass = .regular := by decide
  have hcut := depth_bound_cuts_prefix hregular (Nat.le_succ 2) (Stream'.const 0)
  have hended := depth_bound_cuts_prefix hregular (Nat.le_refl 3)
    ([0, 0x8000000000000000] ++ₛ Stream'.const 0)
  -- The rules that are applied with zeros, and the last one with the other words.
  let first := Event.applied evenWords.start [.terminal evenLetter, .nonTerminal evenPartner]
  let second := Event.applied evenPartner [.terminal evenLetter, .nonTerminal evenWords.start]
  let last := Event.applied evenPartner [.terminal evenLetter]
  have hthree : evenWords.DrawsFrom (Stream'.const 0) 3 evenWords.start
      [evenLetter, evenLetter, evenLetter] [first, second, first, .depthBound evenPartner] :=
    drawsFrom_iff.mpr ⟨3, [], by decide⟩
  have htwo : evenWords.DrawsFrom ([0, 0x8000000000000000] ++ₛ Stream'.const 0) 3
      evenWords.start [evenLetter, evenLetter] [first, last] :=
    drawsFrom_iff.mpr ⟨2, [], by decide⟩
  refine ⟨hregular, Random.fair_const_zero, hcut.1 Random.fair_const_zero, ?_, ?_⟩
  · exact (hcut.2.1 _ _ hthree _).mpr rfl
  · exact hended.2.2 _ _ htwo (Nat.lt_succ_self 2) (by decide)

end Grammar
end FormalLang
