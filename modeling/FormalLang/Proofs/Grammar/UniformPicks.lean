import FormalLang.Proofs.Grammar.Recognition
import FormalLang.Proofs.Grammar.Streams

/-!
# Alternatives are picked uniformly

When a non-terminal is met, the word that comes next gives the index of an alternative, which is
then applied with the words that follow, or it gives no index and is redrawn.  Which of these
happens can be seen from what is derived with any words that follow: the event of an alternative
tells which one it is, and a word that is redrawn might as well not be there.  So the words that
pick an alternative are those that give its index, and these are equally many for all
alternatives.

Main results:

- Theorem `Grammar.AppliesNext.not_passedOver`: a word that picks an alternative counts.
- Theorem `Grammar.appliesNext_iff`: the words that pick an alternative give its index.
- Theorem `Grammar.alternatives_picked_uniformly`: each alternative is picked by equally many
  words, and the other words are passed over.
-/

namespace FormalLang

namespace Grammar

variable {g : Grammar} {depth : Nat} {A : Symbol} {rhs rhs' : SententialForm} {v : UInt64}

/-! ## Words that come next -/

/-- The event that a right-hand side is applied comes before those of what is derived from it. -/
def appliedTo (A : Symbol) (rhs : SententialForm) (x : Generated) : Generated :=
  { x with events := .applied A rhs :: x.events }

/-- With a word that comes next, a right-hand side of a non-terminal is applied, whatever words
follow; these are for the right-hand side. -/
def AppliesNext (g : Grammar) (depth : Nat) (A : Symbol) (rhs : SententialForm) (v : UInt64) :
    Prop :=
  ∀ words, g.derive (depth + 1) A (v :: words) =
    (deriveForm (g.derive depth) rhs words).map (appliedTo A rhs)

/-- A word that comes next is as if it were not there, whatever words follow. -/
def PassedOver (g : Grammar) (depth : Nat) (A : Symbol) (v : UInt64) : Prop :=
  ∀ words, g.derive (depth + 1) A (v :: words) = g.derive (depth + 1) A words

theorem derive_succ_nil (hsome : g.alternatives A ≠ []) : g.derive (depth + 1) A [] = none := by
  rw [derive, deriveBy, if_neg (mt List.isEmpty_iff.mp hsome)]
  rfl

/-- A word that gives an index picks the alternative that is there. -/
theorem appliesNext_of_index? {i : Nat}
    (hindex : Random.index? (g.alternatives A).length v = some i)
    (hget : (g.alternatives A)[i]? = some rhs) : g.AppliesNext depth A rhs v := by
  have hsome : g.alternatives A ≠ [] := List.ne_nil_of_mem (List.mem_of_getElem? hget)
  intro words
  rw [derive, deriveBy, if_neg (mt List.isEmpty_iff.mp hsome), Random.draw, hindex,
    Option.map_eq_bind]
  simp only [Option.bind_eq_bind, Option.bind_some, List.getD_eq_getElem?_getD, hget,
    Option.getD_some]
  rfl

/-- A word that gives no index is redrawn. -/
theorem passedOver_of_index? (hindex : Random.index? (g.alternatives A).length v = none)
    (hsome : g.alternatives A ≠ []) : g.PassedOver depth A v := by
  intro words
  have hdraw : Random.draw (g.alternatives A).length (v :: words) =
      Random.draw (g.alternatives A).length words := by
    rw [Random.draw, hindex]
  have hnonempty := mt List.isEmpty_iff.mp hsome
  rw [derive, deriveBy, deriveBy, if_neg hnonempty, if_neg hnonempty, hdraw]

/-! ## One thing for each word -/

theorem appliedTo_inj {x y : Generated} :
    appliedTo A rhs x = appliedTo A rhs' y ↔ rhs = rhs' ∧ x = y := by
  cases x
  cases y
  simp only [appliedTo, Generated.mk.injEq, List.cons.injEq, Event.applied.injEq, true_and]
  tauto

/-- Only one right-hand side is applied with a word, since the event tells which one. -/
theorem AppliesNext.unique (h : g.AppliesNext depth A rhs v) (h' : g.AppliesNext depth A rhs' v) :
    rhs = rhs' := by
  rcases takesFair_deriveForm (takesFair_derive g depth) rhs _ Random.fair_const_zero with
    ⟨m, w, events, hform⟩
  have hboth := (h' ((Stream'.const 0).take m)).symm.trans (h ((Stream'.const 0).take m))
  rw [hform, Option.map_some] at hboth
  rcases Option.map_eq_some_iff.mp hboth with ⟨y, -, hy⟩
  exact (appliedTo_inj.mp hy).1.symm

/-- A word with which a right-hand side is applied is not passed over. -/
theorem AppliesNext.not_passedOver (h : g.AppliesNext depth A rhs v)
    (hsome : g.alternatives A ≠ []) : ¬g.PassedOver depth A v := by
  intro hpassed
  -- The right-hand side is dealt with by some zeros.  If the word does not count, the first of
  -- them picks the right-hand side, which is then dealt with by one zero less.
  rcases takesFair_deriveForm (takesFair_derive g depth) rhs _ Random.fair_const_zero with
    ⟨m, w, events, hform⟩
  have hderive := (hpassed ((Stream'.const 0).take m)).symm.trans (h _)
  rw [hform, Option.map_some] at hderive
  cases m with
  | zero =>
      rw [Stream'.take_zero, derive_succ_nil hsome] at hderive
      contradiction
  | succ m =>
      have hget := List.getElem?_eq_getElem (List.length_pos_iff.mpr hsome)
      have hzero : g.AppliesNext depth A _ 0 := appliesNext_of_index? (by simp [Random.index?]) hget
      have hfront : (Stream'.const (0 : UInt64)).take (m + 1) = 0 :: (Stream'.const 0).take m := rfl
      rw [hfront, hzero] at hderive
      rcases Option.map_eq_some_iff.mp hderive with ⟨y, hy, hevents⟩
      rcases appliedTo_inj.mp hevents with ⟨hrhs, rfl⟩
      rw [Stream'.take_succ', Stream'.get_const, ← hrhs,
        deriveForm_append (fun _ _ _ => derive_append) hy] at hform
      have hrest := congrArg Generated.rest (Option.some.inj hform)
      exact List.cons_ne_nil _ _ hrest

theorem nodup_alternatives (g : Grammar) (A : Symbol) : (g.alternatives A).Nodup := by
  unfold alternatives
  split
  · exact OrderedSet.nodup _
  · exact List.nodup_nil

/-- The words that pick an alternative are those that give its index. -/
theorem appliesNext_iff {i : Nat} (hget : (g.alternatives A)[i]? = some rhs) :
    g.AppliesNext depth A rhs v ↔ Random.index? (g.alternatives A).length v = some i := by
  have hsome : g.alternatives A ≠ [] := List.ne_nil_of_mem (List.mem_of_getElem? hget)
  constructor
  · intro h
    cases hindex : Random.index? (g.alternatives A).length v with
    | none => exact absurd (passedOver_of_index? hindex hsome) (h.not_passedOver hsome)
    | some j =>
        have hj := Random.index?_lt hindex (List.length_pos_iff.mpr hsome)
        have hgetj := List.getElem?_eq_getElem hj
        have hsame := h.unique (appliesNext_of_index? hindex hgetj)
        rw [← hsame, ← hget] at hgetj
        rw [(List.getElem?_inj hj (g.nodup_alternatives A)).mp hgetj]
  · intro h
    exact appliesNext_of_index? h hget

/-! ## Uniform picks -/

/-- The alternatives of a non-terminal are picked uniformly: each one is applied with equally many
words that come next, as many as the leading zeros of the number of alternatives tell, and the
words with which none is applied are passed over. -/
structure PicksUniformly (g : Grammar) (depth : Nat) (A : Symbol) : Prop where
  ncard_appliesNext : ∀ rhs ∈ g.alternatives A,
    {v | g.AppliesNext depth A rhs v}.ncard = 2 ^ Random.leadingZeros (g.alternatives A).length
  appliesNext_unique : ∀ v rhs rhs', g.AppliesNext depth A rhs v → g.AppliesNext depth A rhs' v →
    rhs = rhs'
  passedOver_iff : ∀ v, g.PassedOver depth A v ↔
    ∀ rhs ∈ g.alternatives A, ¬g.AppliesNext depth A rhs v

/-- Above the last level, the alternatives of a non-terminal are picked uniformly, if there are
some and their number is a 64-bit number. -/
theorem alternatives_picked_uniformly (hsome : g.alternatives A ≠ [])
    (hlt : (g.alternatives A).length < UInt64.size) (depth : Nat) : g.PicksUniformly depth A := by
  have hpos := List.length_pos_iff.mpr hsome
  refine ⟨fun rhs hrhs => ?_, fun v rhs rhs' h h' => h.unique h', fun v => ⟨?_, ?_⟩⟩
  · rcases List.mem_iff_getElem?.mp hrhs with ⟨i, hget⟩
    have hi : i < (g.alternatives A).length := (List.getElem?_eq_some_iff.mp hget).1
    rw [← Random.windowSize_eq hpos hlt, ← Random.ncard_index?_eq_some (Nat.le_of_lt hlt) hi]
    simp only [appliesNext_iff hget]
  · intro hpassed rhs _ h
    exact h.not_passedOver hsome hpassed
  · intro hnone
    cases hindex : Random.index? (g.alternatives A).length v with
    | none => exact passedOver_of_index? hindex hsome
    | some i =>
        have hget := List.getElem?_eq_getElem (Random.index?_lt hindex hpos)
        exact absurd (appliesNext_of_index? hindex hget) (hnone _ (List.mem_of_getElem? hget))

/-- Each of the two alternatives of the start symbol of `evenWords` is picked by a quarter of the
words, and the other half of the words is passed over. -/
theorem evenWords_start_picked_uniformly :
    evenWords.alternatives evenWords.start ≠ [] ∧
      (evenWords.alternatives evenWords.start).length < UInt64.size ∧
        evenWords.PicksUniformly 0 evenWords.start ∧
          ∀ rhs ∈ evenWords.alternatives evenWords.start,
            {v | evenWords.AppliesNext 0 evenWords.start rhs v}.ncard = 2 ^ 62 := by
  have hsome : evenWords.alternatives evenWords.start ≠ [] := by decide
  have hlength : (evenWords.alternatives evenWords.start).length = 2 := by decide
  have hlt : (evenWords.alternatives evenWords.start).length < UInt64.size := by
    rw [hlength]
    decide
  have huniform := alternatives_picked_uniformly hsome hlt 0
  refine ⟨hsome, hlt, huniform, fun rhs hrhs => ?_⟩
  rw [huniform.ncard_appliesNext rhs hrhs, hlength]
  rfl

end Grammar
end FormalLang
