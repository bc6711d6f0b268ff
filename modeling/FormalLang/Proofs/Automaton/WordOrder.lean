import FormalLang.Proofs.Automaton.ReachedSets
import FormalLang.Proofs.Search.WordOrder

/-!
# The order of the states of a determinized automaton

The states of a determinized automaton stand in the order in which their sets were discovered.
The search follows the symbols in the order of the alphabet, so this is the order of the least
words that lead to the states: shorter words stand first, and words of the same length stand as in
a dictionary.  The accepting states and the rows of the transitions come in the same order, since
each set is made accepting and has its arrows linked when it is visited.

Main results:

- Theorem `Transitions.keys_ofArrows_sublist`: rows stand where their first arrow does.
- Theorem `Automaton.run_determinize_iff`: the words to a state are the words to its set.
- Theorem `Automaton.exists_leastWords`: the least words to the states are in order.
- Theorem `Automaton.determinize_lists_by_leastWord`: the order of states, accepting states and
  rows.
-/

namespace FormalLang

/-! ## Rows -/

/-- Each row stands where the first arrow does that starts at its state. -/
theorem Transitions.keys_ofArrows_sublist (arrows : List Arrow) :
    (ofArrows arrows).keys.Sublist (arrows.map Arrow.source) := by
  induction arrows using List.reverseRecOn with
  | nil => exact .slnil
  | append_singleton arrows e ih =>
      have hinsert : ofArrows (arrows ++ [e]) = (ofArrows arrows).insert e :=
        List.foldl_concat _ _ _ _
      rw [hinsert, insert, OrderedMap.keys_upsert, List.map_append]
      split
      · exact ih.trans (List.sublist_append_left _ _)
      · exact ih.append (List.Sublist.refl _)

namespace Automaton

variable {A : Automaton} {X : List Nat} {v w : Word} {a b : Symbol} {i j p q : Nat}

/-- A visited set has its arrows linked before the next one is visited. -/
theorem pairwise_source_subsetArrows (A : Automaton) :
    ((A.subsetArrows A.subsets).map Arrow.source).Pairwise (· ≤ ·) := by
  have hsource : ∀ Y : List Nat × Nat, ∀ p ∈ (A.setArrows Y.1 Y.2).map Arrow.source, p = Y.2 := by
    intro Y p hp
    rcases List.mem_map.mp hp with ⟨e, he, rfl⟩
    rcases List.mem_map.mp he with ⟨edge, -, rfl⟩
    rfl
  have hplaces : A.subsets.zipIdx.Pairwise fun Y Z => Y.2 < Z.2 := by
    rw [← List.pairwise_map (f := Prod.snd), List.zipIdx_map_snd]
    exact List.pairwise_lt_range'
  rw [subsetArrows_subsets, List.map_flatMap, List.pairwise_flatMap]
  constructor
  · intro Y _
    exact List.pairwise_of_forall_mem_list fun p hp q hq =>
      (hsource Y p hp).trans (hsource Y q hq).symm |>.le
  · refine hplaces.imp fun hYZ p hp q hq => ?_
    rw [hsource _ p hp, hsource _ q hq]
    exact hYZ.le

theorem pairwise_keys_determinize (A : Automaton) :
    A.determinize.transitions.keys.Pairwise (· < ·) := by
  rw [transitions_determinize]
  have hle := A.pairwise_source_subsetArrows.sublist (Transitions.keys_ofArrows_sublist _)
  exact hle.imp₂ (fun _ _ => Nat.lt_of_le_of_ne) (Transitions.ofArrows _).nodup_keys

theorem pairwise_accepting_determinize (A : Automaton) :
    A.determinize.accepting.toList.Pairwise (· < ·) := by
  have hincreasing : ((List.range A.subsets.length).filter fun i =>
      (A.subsets.getD i []).any A.isAccepting).Pairwise (· < ·) := List.pairwise_lt_range.filter _
  rw [accepting_determinize, OrderedSet.toList_ofList_of_nodup hincreasing.nodup]
  exact hincreasing

/-! ## Words in order -/

/-- A symbol stands before another one in the alphabet. -/
def SymbolBefore (A : Automaton) (a b : Symbol) : Prop :=
  A.alphabet.toList.idxOf a < A.alphabet.toList.idxOf b

instance (A : Automaton) : IsTrans Symbol A.SymbolBefore :=
  ⟨fun _ _ _ => Nat.lt_trans⟩

instance (A : Automaton) : Std.Asymm A.SymbolBefore :=
  ⟨fun _ _ => Nat.lt_asymm⟩

/-- A word stands before another one: a shorter word before a longer one, and words of the same
length as in a dictionary, by the order of the alphabet. -/
def WordBefore (A : Automaton) : Word → Word → Prop :=
  List.Shortlex A.SymbolBefore

/-- The least word that leads from the start to a state. -/
def IsLeastWordTo (A : Automaton) (p : Nat) : Word → Prop :=
  Search.IsFirst A.WordBefore fun w => A.recognizer.Run A.start w p

instance (A : Automaton) : Std.Asymm A.WordBefore :=
  inferInstanceAs (Std.Asymm (List.Shortlex A.SymbolBefore))

theorem pairwise_symbolBefore (A : Automaton) : A.alphabet.toList.Pairwise A.SymbolBefore := by
  rw [List.pairwise_iff_getElem]
  intro i j hi hj hij
  rw [SymbolBefore, A.alphabet.nodup.idxOf_getElem i hi, A.alphabet.nodup.idxOf_getElem j hj]
  exact hij

/-- The symbols are followed from a set in the order of the alphabet. -/
theorem labelsIncrease_subsetEdges (A : Automaton) (X : List Nat) :
    Search.LabelsIncrease A.SymbolBefore (A.subsetEdges X) := by
  rw [Search.LabelsIncrease, subsetEdges, List.pairwise_filterMap]
  refine A.pairwise_symbolBefore.imp fun {a b} hab e he f hf => ?_
  simp only [Option.ite_none_left_eq_some, Option.some.injEq] at he hf
  rw [← he.2, ← hf.2]
  exact hab

/-! ## Words to the states -/

/-- A word with one more symbol leads where the symbol does behind the word. -/
theorem run_start_concat_iff :
    A.recognizer.Run A.start (w ++ [a]) q ↔
      ∃ p, A.recognizer.Run A.start w p ∧ q ∈ A.targets p a := by
  simp only [← mem_wordSet_iff, wordSet_concat, mem_successors_iff]

/-- The words to a state of the result are the words along which its set is found. -/
theorem run_determinize_iff :
    A.determinize.recognizer.Run A.determinize.start w i ↔
      ∃ X, A.subsets[i]? = some X ∧ Search.WordTo A.subsetEdges [A.start] w X := by
  induction w using List.reverseRecOn generalizing i with
  | nil =>
      have hstart : A.subsets[A.determinize.start]? = some [A.start] := rfl
      simp only [Recognizer.run_nil_iff, Search.wordTo_nil_iff, exists_eq_right]
      constructor
      · rintro rfl
        exact hstart
      · exact fun hi => subsets_place_unique hi hstart
  | append_singleton w a ih =>
      simp only [run_start_concat_iff, ih, Search.wordTo_concat_iff, mem_targets_determinize_iff]
      constructor
      · rintro ⟨p, ⟨X, hX, hword⟩, X', Y, hX', hedge, hY⟩
        cases hX.symm.trans hX'
        exact ⟨Y, hY, X, hword, hedge⟩
      · rintro ⟨Y, hY, X, hword, hedge⟩
        rcases List.getElem?_of_mem (mem_subsets_iff.mpr hword.reachable) with ⟨p, hp⟩
        exact ⟨p, ⟨X, hp, hword⟩, X, Y, hp, hedge, hY⟩

theorem isLeastWordTo_determinize_iff (hX : A.subsets[i]? = some X) :
    A.determinize.IsLeastWordTo i w ↔
      Search.IsFirst (List.Shortlex A.SymbolBefore)
        (fun v => Search.WordTo A.subsetEdges [A.start] v X) w := by
  have hruns : (fun v => A.determinize.recognizer.Run A.determinize.start v i) =
      fun v => Search.WordTo A.subsetEdges [A.start] v X := by
    funext v
    rw [run_determinize_iff, hX]
    simp
  rw [IsLeastWordTo, hruns]
  rfl

/-- The states of the result have least words, and these are in order. -/
theorem exists_leastWords (A : Automaton) :
    ∃ words : List Word, words.length = A.determinize.states.length ∧
      words.Pairwise A.WordBefore ∧
      ∀ i w, words[i]? = some w → A.determinize.IsLeastWordTo i w := by
  rcases Search.exists_words_run (r := A.SymbolBefore) A.labelsIncrease_subsetEdges
    A.reachesAtMost_subsetEdges A.subsetSearch_not_reached with ⟨all, hvertices, hpairwise, hfirst⟩
  have hsets : all.map Search.Found.vertex = A.subsets := hvertices
  refine ⟨all.map Search.Found.word, ?_, List.pairwise_map.mpr hpairwise, fun i w hw => ?_⟩
  · rw [length_states_determinize, ← hsets, List.length_map, List.length_map]
  · rw [List.getElem?_map, Option.map_eq_some_iff] at hw
    rcases hw with ⟨x, hx, rfl⟩
    have hX : A.subsets[i]? = some x.vertex := by
      rw [← hsets, List.getElem?_map, hx]
      rfl
    exact (isLeastWordTo_determinize_iff hX).mpr (hfirst x (List.mem_of_getElem? hx))

/-- A state to which a word leads stands before another one exactly when its least word does. -/
theorem lt_iff_wordBefore (A : Automaton) (hv : A.determinize.IsLeastWordTo i v)
    (hw : A.determinize.IsLeastWordTo j w) : i < j ↔ A.WordBefore v w := by
  rcases A.exists_leastWords with ⟨words, hlength, hpairwise, hleast⟩
  have hword : ∀ {k : Nat} {u : Word}, A.determinize.IsLeastWordTo k u → words[k]? = some u := by
    intro k u hu
    rcases run_determinize_iff.mp hu.holds with ⟨X, hX, -⟩
    have hk : k < words.length := by
      rw [hlength, length_states_determinize]
      exact (List.getElem?_eq_some_iff.mp hX).1
    have hget := List.getElem?_eq_getElem hk
    rw [hget, (hleast k _ hget).unique hu]
  have hbefore : ∀ {k l : Nat} {t u : Word}, words[k]? = some t → words[l]? = some u → k < l →
      A.WordBefore t u := by
    intro k l t u ht hu hkl
    rcases List.getElem?_eq_some_iff.mp ht with ⟨hk, rfl⟩
    rcases List.getElem?_eq_some_iff.mp hu with ⟨hl, rfl⟩
    exact List.pairwise_iff_getElem.mp hpairwise k l hk hl hkl
  refine ⟨hbefore (hword hv) (hword hw), fun h => ?_⟩
  rcases Nat.lt_trichotomy i j with hlt | rfl | hgt
  · exact hlt
  · rw [hv.unique hw] at h
    exact absurd h (asymm_of A.WordBefore h)
  · exact absurd h (asymm_of A.WordBefore (hbefore (hword hw) (hword hv) hgt))

/-! ## The order of the parts -/

/-- An automaton lists its states in the order of the least words that lead to them, and lists
its accepting states and the rows of its transitions in the order of the states. -/
structure ListsByLeastWord (A : Automaton) : Prop where
  exists_leastWord : ∀ p < A.states.length, ∃ w, A.IsLeastWordTo p w
  lt_iff : ∀ p q v w, A.IsLeastWordTo p v → A.IsLeastWordTo q w → (p < q ↔ A.WordBefore v w)
  accepting_increasing : A.accepting.toList.Pairwise (· < ·)
  rows_increasing : A.transitions.keys.Pairwise (· < ·)

/-- The worklist makes the states in the order of the least words that lead to them, and makes
states accepting and links rows in the order of the states. -/
theorem determinize_lists_by_leastWord (A : Automaton) :
    A.determinize? = some A.determinize ∧ A.determinize.ListsByLeastWord := by
  refine ⟨A.determinize?_eq, fun p hp => ?_, fun p q v w hv hw => A.lt_iff_wordBefore hv hw,
    A.pairwise_accepting_determinize, A.pairwise_keys_determinize⟩
  rcases A.exists_leastWords with ⟨words, hlength, -, hleast⟩
  exact ⟨_, hleast p _ (List.getElem?_eq_getElem (hlength ▸ hp))⟩

end Automaton
end FormalLang
