import FormalLang.Automaton.Acceptance
import FormalLang.Correspondence.AutomatonOfGrammar
import FormalLang.Proofs.Grammar.Recognition
import FormalLang.Proofs.Recognizer.Configurations
import FormalLang.Proofs.Search.Endings

/-!
# What reading a text reports

An automaton looks through a text for an accepting configuration as long as a configuration
waits.  It reports each configuration when it finds it: all of them that are reached if the
text is refused, and none of them twice.

Main results:

- Theorem `Automaton.findsOnce_searchText`: the moves along which configurations are found.
- Theorem `Automaton.mem_targets_searchText`: all are found if the text is refused.
- Theorem `Automaton.acceptsText_reports_once`: the events of reading a text.
-/

namespace FormalLang.Automaton

variable {A : Automaton} {t : List Char}

/-! ## Configurations that are found -/

/-- A configuration in a text is reached: it is a place in the text and a state such that a
word over the alphabet is taken off the text up to this place and leads to this state. -/
def ReachesConfig (A : Automaton) (t : List Char) (c : Recognizer.Config Nat) : Prop :=
  c.position ≤ t.length ∧ ∃ w, A.recognizer.Leads t w ⟨0, A.start⟩ c

theorem reachable_configEdges_iff {c : Recognizer.Config Nat} :
    Search.Reachable (A.recognizer.configEdges t) ⟨0, A.start⟩ c ↔ A.ReachesConfig t c :=
  Recognizer.reachable_iff (Nat.zero_le t.length)

/-- The moves along which a search through a text has found configurations: each of them is
a move by one symbol from a configuration that is reached, and each leads to another
configuration, which is not the first one. -/
structure FindsOnce (A : Automaton) (t : List Char)
    (moves : List (Search.Discovery (Recognizer.Config Nat) Symbol)) : Prop where
  source_reached : ∀ d ∈ moves, A.ReachesConfig t d.source
  leads : ∀ d ∈ moves, A.recognizer.Leads t [d.label] d.source d.target
  target_reached : ∀ c ∈ moves.map Search.Discovery.target, c ≠ ⟨0, A.start⟩ ∧ A.ReachesConfig t c
  nodup_targets : (moves.map Search.Discovery.target).Nodup

theorem findsOnce_searchText (A : Automaton) (t : List Char) :
    A.FindsOnce t (A.recognizer.searchText t).discoveries := by
  have hbound := A.recognizer.reachesAtMost_configEdges t
  refine ⟨?_, ?_, ?_, Search.nodup_targets_run hbound⟩
  · intro d hd
    exact reachable_configEdges_iff.mp ((Search.explores_run _ hbound).edge d hd).1
  · intro d hd
    rcases (Search.explores_run _ hbound).edge d hd with ⟨hsource, hedge⟩
    have hsource := (reachable_configEdges_iff.mp hsource).1
    have htarget := Recognizer.position_le_of_mem_configEdges hsource hedge
    exact Recognizer.leads_cons_iff.mpr
      ⟨d.target, hedge, (Recognizer.leads_nil_iff htarget htarget).mpr rfl⟩
  · intro c hc
    rcases Search.reachable_of_mem_targets_run hbound hc with ⟨hne, hreach⟩
    exact ⟨hne, reachable_configEdges_iff.mp hreach⟩

/-- A search that refuses a text has found all configurations that are reached. -/
theorem mem_targets_searchText (h : A.acceptsText (String.ofList t) = false)
    {c : Recognizer.Config Nat} (hc : A.ReachesConfig t c) (hne : c ≠ ⟨0, A.start⟩) :
    c ∈ (A.recognizer.searchText t).discoveries.map Search.Discovery.target := by
  rw [acceptsText, String.toList_ofList] at h
  exact (Search.mem_targets_run_iff (A.recognizer.reachesAtMost_configEdges t) h).mpr
    ⟨hne, reachable_configEdges_iff.mpr hc⟩

/-! ## Events -/

/-- The event of finding a configuration. -/
def moveEvent (A : Automaton) (d : Search.Discovery (Recognizer.Config Nat) Symbol) : Event :=
  .moved (A.nameOf d.source.state) d.label (A.nameOf d.target.state)

theorem acceptsTextEvents_eq (A : Automaton) (text : String) :
    A.acceptsTextEvents text =
      (A.recognizer.searchText text.toList).discoveries.map A.moveEvent ++
        if A.acceptsText text then [] else [.noRun text] :=
  rfl

/-- Reading a text ends, although the search for an accepting configuration goes on as long
as one waits.  It reports a move to every configuration that it finds, none of them twice,
and the first one never.  If the text is refused, these are all configurations that are
reached, and the failure is reported after them; if it is accepted, no failure is reported. -/
theorem acceptsText_reports_once (A : Automaton) (text : String) :
    (∀ e ∈ A.acceptsTextEvents text, e.level = .trace) ∧
    ∃ moves,
      (∀ outcome, Search.Ends (A.recognizer.configEdges text.toList)
          (fun c => c.position == (Text.trimEnd text.toList).length && A.isAccepting c.state)
          [⟨0, A.start⟩] (Search.markAll ∅ [⟨0, A.start⟩]) outcome ↔
        outcome = ⟨A.acceptsText text, moves⟩) ∧
      A.FindsOnce text.toList moves ∧
      (A.acceptsText text = true → A.acceptsTextEvents text = moves.map A.moveEvent) ∧
      (A.acceptsText text = false →
        A.acceptsTextEvents text = moves.map A.moveEvent ++ [.noRun text] ∧
          ∀ c, A.ReachesConfig text.toList c → c ≠ ⟨0, A.start⟩ →
            c ∈ moves.map Search.Discovery.target) := by
  refine ⟨fun e he => ?_, (A.recognizer.searchText text.toList).discoveries, ?_,
    A.findsOnce_searchText text.toList, fun haccepts => ?_, fun hrefuses => ⟨?_, ?_⟩⟩
  · rw [acceptsTextEvents_eq, List.mem_append] at he
    rcases he with he | he
    · rcases List.mem_map.mp he with ⟨d, -, rfl⟩
      rfl
    · split at he
      · exact absurd he List.not_mem_nil
      · rw [List.mem_singleton.mp he]
        rfl
  · exact fun outcome => Search.ends_run_iff (A.recognizer.reachesAtMost_configEdges _)
  · rw [acceptsTextEvents_eq, if_pos haccepts, List.append_nil]
  · rw [acceptsTextEvents_eq, if_neg (by simp [hrefuses])]
  · intro c hc hne
    exact mem_targets_searchText (by rwa [String.ofList_toList]) hc hne

/-- An odd number of letters, over which the arrows of the automaton lead round and round. -/
theorem evenAutomaton_reports_failure :
    Grammar.evenWords.automaton.acceptsText "a a a" = false ∧
      ∃ moves, Grammar.evenWords.automaton.FindsOnce "a a a".toList moves ∧
        Grammar.evenWords.automaton.acceptsTextEvents "a a a" =
            moves.map Grammar.evenWords.automaton.moveEvent ++ [.noRun "a a a"] ∧
          ∀ c, Grammar.evenWords.automaton.ReachesConfig "a a a".toList c → c ≠ ⟨0, 0⟩ →
            c ∈ moves.map Search.Discovery.target := by
  have hrefuses : Grammar.evenWords.automaton.acceptsText "a a a" = false := by decide
  rcases (acceptsText_reports_once Grammar.evenWords.automaton "a a a").2 with
    ⟨moves, -, hmoves, -, hall⟩
  exact ⟨hrefuses, moves, hmoves, hall hrefuses⟩

end FormalLang.Automaton
