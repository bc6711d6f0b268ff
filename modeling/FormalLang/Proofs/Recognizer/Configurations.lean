import FormalLang.Proofs.Recognizer.Language
import FormalLang.Proofs.Search.Reachability
import FormalLang.Proofs.Split.Reading
import FormalLang.Recognizer.Text

/-!
# The texts that a recognizer accepts

A configuration leads to another one when a word is taken off the text between
their places and read from state to state.  There are only so many places and
states, so the search finds a configuration at the end of the content in a
final state whenever some split of the text is accepted.

Main results:

- Theorem `Recognizer.reachable_iff`: the configurations that can be reached.
- Theorem `Recognizer.reachesAtMost_configEdges`: their number.
- Theorem `Recognizer.recognizesText_iff`: a text is recognized exactly when one
  of its splits over the alphabet is accepted.
-/

namespace FormalLang.Recognizer

variable {σ : Type} {M : Recognizer σ} {t : List Char} {c d : Config σ} {a : Symbol} {w : Word}

/-! ## Edges -/

theorem mem_configEdges_iff :
    (a, d) ∈ M.configEdges t c ↔
      ∃ n, (a, n) ∈ continuations M.alphabet (t.drop c.position) ∧
        d.position = c.position + n ∧ d.state ∈ M.next c.state a := by
  rcases d with ⟨position, state⟩
  simp only [configEdges, List.mem_flatMap, List.mem_map, Prod.mk.injEq, Config.mk.injEq,
    Prod.exists]
  constructor
  · intro h
    rcases h with ⟨b, n, hstep, q, hq, rfl, rfl, rfl⟩
    exact ⟨n, hstep, rfl, hq⟩
  · intro h
    rcases h with ⟨n, hstep, rfl, hq⟩
    exact ⟨a, n, hstep, state, hq, rfl, rfl, rfl⟩

/-- Edges do not leave the text. -/
theorem position_le_of_mem_configEdges (hc : c.position ≤ t.length)
    (hedge : (a, d) ∈ M.configEdges t c) : d.position ≤ t.length := by
  rcases mem_configEdges_iff.mp hedge with ⟨n, hstep, hposition, -⟩
  have hle := le_length_of_mem_continuations hstep
  rw [List.length_drop] at hle
  omega

/-! ## All configurations -/

/-- The configurations in a text, one for each place and each state. -/
def configs (M : Recognizer σ) (t : List Char) : List (Config σ) :=
  (List.range (t.length + 1)).flatMap fun i => M.states.map fun q => ⟨i, q⟩

theorem mem_configs_iff : c ∈ M.configs t ↔ c.position ≤ t.length ∧ c.state ∈ M.states := by
  rcases c with ⟨position, state⟩
  simp only [configs, List.mem_flatMap, List.mem_range, Nat.lt_succ_iff, List.mem_map,
    Config.mk.injEq]
  constructor
  · intro h
    rcases h with ⟨i, hi, q, hq, rfl, rfl⟩
    exact ⟨hi, hq⟩
  · intro h
    exact ⟨position, h.1, state, h.2, rfl, rfl⟩

theorem length_configs (M : Recognizer σ) (t : List Char) :
    (M.configs t).length = (t.length + 1) * M.states.length := by
  simp [configs, List.length_flatMap]

/-- The search is given enough fuel for all of them. -/
theorem reachesAtMost_configEdges (M : Recognizer σ) (t : List Char) :
    Search.ReachesAtMost (M.configEdges t) ⟨0, M.start⟩
      ((t.length + 1) * M.states.length) := by
  rw [← length_configs]
  apply Search.reachesAtMost_of_closed
  · exact mem_configs_iff.mpr ⟨Nat.zero_le _, M.start_mem⟩
  · intro c hc d hcd
    rcases hcd with ⟨a, hedge⟩
    have hposition := position_le_of_mem_configEdges (mem_configs_iff.mp hc).1 hedge
    rcases mem_configEdges_iff.mp hedge with ⟨n, -, -, hq⟩
    exact mem_configs_iff.mpr ⟨hposition, M.next_mem _ _ _ hq⟩

/-! ## Reading from one configuration to another -/

/-- A word over the alphabet leads from one configuration to another: it is
taken off the text between their places and read from state to state. -/
structure Leads (M : Recognizer σ) (t : List Char) (w : Word) (c d : Config σ) : Prop where
  symbol_mem : ∀ a ∈ w, a ∈ M.alphabet
  readsWord : ReadsWord w (t.drop c.position) (t.drop d.position)
  run : M.Run c.state w d.state

theorem leads_nil_iff (hc : c.position ≤ t.length) (hd : d.position ≤ t.length) :
    M.Leads t [] c d ↔ d = c := by
  constructor
  · intro h
    have hlen := congrArg List.length (readsWord_nil_iff.mp h.readsWord)
    rw [List.length_drop, List.length_drop] at hlen
    exact Config.ext (by omega) (run_nil_iff.mp h.run)
  · rintro rfl
    exact ⟨by simp, .nil _, .nil _⟩

/-- A word leads on by an edge with its first symbol. -/
theorem leads_cons_iff :
    M.Leads t (a :: w) c d ↔ ∃ e, (a, e) ∈ M.configEdges t c ∧ M.Leads t w e d := by
  constructor
  · intro h
    have ha : a ∈ M.alphabet := h.symbol_mem a List.mem_cons_self
    rcases (readsWord_cons_iff_continuations ha).mp h.readsWord with ⟨n, hstep, hreads⟩
    rcases run_cons_iff.mp h.run with ⟨q, hq, hrun⟩
    rw [List.drop_drop] at hreads
    exact ⟨⟨c.position + n, q⟩, mem_configEdges_iff.mpr ⟨n, hstep, rfl, hq⟩,
      fun b hb => h.symbol_mem b (List.mem_cons_of_mem a hb), hreads, hrun⟩
  · intro h
    rcases h with ⟨e, hedge, hrest⟩
    rcases mem_configEdges_iff.mp hedge with ⟨n, hstep, hposition, hq⟩
    have ha : a ∈ M.alphabet := (mem_continuations_iff.mp hstep).1
    refine ⟨?_, ?_, run_cons_iff.mpr ⟨e.state, hq, hrest.run⟩⟩
    · intro b hb
      rcases List.mem_cons.mp hb with rfl | hb
      · exact ha
      · exact hrest.symbol_mem b hb
    · refine (readsWord_cons_iff_continuations ha).mpr ⟨n, hstep, ?_⟩
      rw [List.drop_drop, ← hposition]
      exact hrest.readsWord

/-- A configuration is reached when some word leads to it. -/
theorem reachable_iff (hc : c.position ≤ t.length) :
    Search.Reachable (M.configEdges t) c d ↔ d.position ≤ t.length ∧ ∃ w, M.Leads t w c d := by
  constructor
  · intro h
    induction h using Relation.ReflTransGen.head_induction_on with
    | refl => exact ⟨hc, [], (leads_nil_iff hc hc).mpr rfl⟩
    | head hedge _ ih =>
        rcases hedge with ⟨a, hedge⟩
        rcases ih (position_le_of_mem_configEdges hc hedge) with ⟨hd, w, hleads⟩
        exact ⟨hd, a :: w, leads_cons_iff.mpr ⟨_, hedge, hleads⟩⟩
  · intro h
    rcases h with ⟨hd, w, hleads⟩
    induction w generalizing c with
    | nil =>
        rw [(leads_nil_iff hc hd).mp hleads]
        exact Relation.ReflTransGen.refl
    | cons a w ih =>
        rcases leads_cons_iff.mp hleads with ⟨e, hedge, hrest⟩
        have he := position_le_of_mem_configEdges hc hedge
        exact Relation.ReflTransGen.head ⟨a, hedge⟩ (ih he hrest)

/-! ## Recognized texts -/

/-- What leads from the start to the end of the content are the splits of the
text that can be read. -/
theorem leads_start_iff {q : σ} :
    M.Leads t w ⟨0, M.start⟩ ⟨(Text.trimEnd t).length, q⟩ ↔
      IsSplitOver M.alphabet w t ∧ M.Run M.start w q := by
  constructor
  · intro h
    exact ⟨⟨h.symbol_mem, h.readsWord⟩, h.run⟩
  · intro h
    exact ⟨h.1.symbol_mem, h.1.isSplit, h.2⟩

variable [Ord σ] [Std.TransOrd σ] [Std.LawfulEqOrd σ]

/-- A text is recognized exactly when one of its splits is accepted. -/
theorem recognizesText_iff :
    M.recognizesText t = true ↔
      ∃ w, IsSplitOver M.alphabet w t ∧ M.AcceptsFrom M.start w := by
  have hstart : ∀ d, Search.Reachable (M.configEdges t) ⟨0, M.start⟩ d ↔
      d.position ≤ t.length ∧ ∃ w, M.Leads t w ⟨0, M.start⟩ d :=
    fun d => reachable_iff (Nat.zero_le t.length)
  rw [recognizesText, searchText, Search.run_reached_iff (M.reachesAtMost_configEdges t)]
  simp only [hstart, Bool.and_eq_true, beq_iff_eq]
  constructor
  · intro h
    rcases h with ⟨⟨position, q⟩, ⟨-, w, hleads⟩, rfl, hfinal⟩
    rcases leads_start_iff.mp hleads with ⟨hsplit, hrun⟩
    exact ⟨w, hsplit, q, hrun, hfinal⟩
  · intro h
    rcases h with ⟨w, hsplit, q, hrun, hfinal⟩
    exact ⟨_, ⟨Text.length_trimEnd_le t, w, leads_start_iff.mpr ⟨hsplit, hrun⟩⟩, rfl, hfinal⟩

end FormalLang.Recognizer
