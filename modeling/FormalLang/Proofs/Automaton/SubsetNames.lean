import FormalLang.Proofs.Automaton.Listing
import FormalLang.Proofs.Automaton.Redetermination

/-!
# The names of determinized states

The name of a set of states is made of the names of its members, with a comma and a blank between
them.  If no name holds a comma, the commas tell where the names of the members end, so that
different sets have different names, and a state of the determinized automaton can be found by its
name.  The names of the result may hold commas, but when it is determinized again each set has one
member, and its name is put between braces as it stands.

Main results:

- Theorem `Automaton.subsetName_inj`: sets are told apart by their names.
- Theorem `Automaton.nodup_states_iterate_determinize`: no name is there twice, however often an
  automaton is determinized.
- Theorem `Automaton.determinized_states_named_apart`: states are found by their names.
-/

namespace FormalLang

theorem Symbol.chars_braced (a : Symbol) : a.braced.chars = '\x7b' :: (a.chars ++ ['\x7d']) := by
  have hopen : ("\x7b").toList = ['\x7b'] := rfl
  have hclose : ("\x7d").toList = ['\x7d'] := rfl
  rw [chars, braced, String.toList_append, String.toList_append, hopen, hclose]
  rfl

theorem Symbol.braced_injective : Function.Injective Symbol.braced := by
  intro a b h
  have hchars := congrArg Symbol.chars h
  rw [chars_braced, chars_braced, List.cons_inj_right, List.append_left_inj] at hchars
  exact Symbol.chars_injective hchars

namespace Automaton

variable {A : Automaton} {X Y : List Nat} {p : Nat}

/-! ## Names of sets -/

/-- The characters of the names of the members of a set, as they stand between the braces. -/
def memberChars (A : Automaton) (X : List Nat) : List Char :=
  [',', ' '].intercalate (X.map fun p => (A.nameOf p).chars)

theorem chars_subsetName (A : Automaton) (X : List Nat) :
    (A.subsetName X).chars = '\x7b' :: (A.memberChars X ++ ['\x7d']) := by
  have hbetween : (", ").toList = [',', ' '] := rfl
  have hopen : ("\x7b").toList = ['\x7b'] := rfl
  have hclose : ("\x7d").toList = ['\x7d'] := rfl
  simp [subsetName, memberChars, Symbol.chars, String.toList_intercalate, hbetween, hopen, hclose,
    Function.comp_def]

/-- The members of a set that is made are states. -/
theorem lt_of_mem_subsets (hX : X ∈ A.subsets) (hp : p ∈ X) : p < A.states.length := by
  rcases mem_subsets_iff_word.mp hX with ⟨-, w, -, rfl⟩
  induction w using List.reverseRecOn with
  | nil =>
      rw [List.mem_singleton.mp hp]
      exact A.wellFormed.start_lt
  | append_singleton w a _ =>
      rw [wordSet_concat] at hp
      rcases mem_successors_iff.mp hp with ⟨q, -, hq⟩
      exact A.target_lt hq

section Names

variable (hnodup : A.states.Nodup) (hcomma : ∀ a ∈ A.states, ',' ∉ a.chars)

include hnodup hcomma

/-- Sets that are made are told apart by their names: each comma ends the name of a member. -/
theorem subsetName_inj (hX : X ∈ A.subsets) (hY : Y ∈ A.subsets)
    (h : A.subsetName X = A.subsetName Y) : X = Y := by
  have hpieces : ∀ Z ∈ A.subsets, ∀ chars ∈ Z.map fun p => (A.nameOf p).chars, ',' ∉ chars := by
    intro Z hZ chars hchars
    rcases List.mem_map.mp hchars with ⟨p, hp, rfl⟩
    rw [Diagram.nameOf_eq_getElem (lt_of_mem_subsets hZ hp)]
    exact hcomma _ (List.getElem_mem _)
  have hne : ∀ Z ∈ A.subsets, (Z.map fun p => (A.nameOf p).chars) ≠ [] := by
    intro Z hZ hnil
    exact (mem_subsets_iff_word.mp hZ).1 (List.map_eq_nil_iff.mp hnil)
  have hmembers : A.memberChars X = A.memberChars Y := by
    have hchars := congrArg Symbol.chars h
    rwa [chars_subsetName, chars_subsetName, List.cons_inj_right, List.append_left_inj] at hchars
  have hnames := Text.intercalate_cons_inj (by decide) (hpieces X hX) (hpieces Y hY) (hne X hX)
    (hne Y hY) hmembers
  exact eq_of_map_chars_eq hnodup (fun p => lt_of_mem_subsets hX) (fun q => lt_of_mem_subsets hY)
    hnames

theorem nodup_states_determinize : A.determinize.states.Nodup := by
  rw [states_determinize]
  exact A.nodup_subsets.map_on fun X hX Y hY => subsetName_inj hnodup hcomma hX hY

/-- No name is there twice, however often an automaton is determinized.  The first time commas
separate names, and each further time there is one more pair of braces around each name. -/
theorem nodup_states_iterate_determinize (k : Nat) : (determinize^[k + 1] A).states.Nodup := by
  induction k with
  | zero => exact nodup_states_determinize hnodup hcomma
  | succ k ih =>
      rw [Function.iterate_succ_apply', Function.iterate_succ_apply'] at *
      rw [states_determinize_determinize]
      exact ih.map Symbol.braced_injective

end Names

/-! ## States that are found by their names -/

/-- The names of the states are pairwise distinct, and each state is found by its name. -/
structure NamesStatesApart (A : Automaton) : Prop where
  nodup_states : A.states.Nodup
  stateNamed?_eq_some_iff : ∀ name p,
    (A.stateNamed? name = some p ↔ p < A.states.length ∧ (A.nameOf p).text = name)

/-- If the names of the states are pairwise distinct and hold no comma, the determinized automaton
names its states apart, and so does every further one. -/
theorem determinized_states_named_apart (hnodup : A.states.Nodup)
    (hcomma : ∀ a ∈ A.states, ',' ∉ a.chars) (k : Nat) :
    (determinize^[k + 1] A).NamesStatesApart := by
  have hnames := nodup_states_iterate_determinize hnodup hcomma k
  exact ⟨hnames, fun _ _ => stateNamed?_eq_some_iff hnames⟩

/-- Three states whose names begin or end like what stands around the members of a set. -/
def spacedNames : Automaton :=
  let y : Symbol := ⟨"y", by simp⟩
  Automaton.ofArrows
    { states := [⟨"d", by simp⟩, ⟨" d", by simp⟩, ⟨"d\x7d", by simp⟩]
      alphabet := .ofList [y]
      start := 0
      accepting := .ofList [2]
      transitions := .empty }
    (by decide) (by decide) [⟨0, y, 0⟩, ⟨0, y, 1⟩, ⟨1, y, 2⟩]
    (by
      intro e he
      simp only [List.mem_cons, List.not_mem_nil, or_false] at he
      rcases he with rfl | rfl | rfl
      · exact ⟨by decide, by decide, by decide⟩
      · exact ⟨by decide, by decide, by decide⟩
      · exact ⟨by decide, by decide, by decide⟩)

/-- The names of the three sets begin alike, and are apart all the same. -/
theorem spacedNames_determinized_twice :
    spacedNames.states.Nodup ∧ (∀ a ∈ spacedNames.states, ',' ∉ a.chars) ∧
      spacedNames.subsets = [[0], [0, 1], [0, 1, 2]] ∧
        (determinize^[1 + 1] spacedNames).NamesStatesApart := by
  have hnodup : spacedNames.states.Nodup := by decide
  have hcomma : ∀ a ∈ spacedNames.states, ',' ∉ a.chars := by decide
  have hsubsets : spacedNames.subsets = [[0], [0, 1], [0, 1, 2]] := by decide +kernel
  exact ⟨hnodup, hcomma, hsubsets, determinized_states_named_apart hnodup hcomma 1⟩

end Automaton
end FormalLang
