import FormalLang.Proofs.Access.Converting
import FormalLang.Proofs.Automaton.Validation
import Mathlib.Order.Bounds.Basic

/-!
# Fresh names

A name that is taken gets primes until it is not, and the loop that does this knows no
bound.  But with every prime the name gets longer, and only finitely many names are taken.
So the loop ends with the least number of primes that makes the name free, which is not
more than the number of names that are taken.

In the grammar of an automaton, the states are named one after the other.  What is taken is
the alphabet and the non-terminals of earlier states, which may have got primes themselves
and so have taken the name of a later state.  In the automaton of a grammar, the state for
finished derivations is named last.

Main results:

- Theorem `Symbol.exists_isLeast_fresh`: a fresh name has the least number of primes.
- Theorem `Symbol.primeUntil?_of_isLeast`: so many rounds the loop makes.
- Theorem `Automaton.symbolOf_eq_fresh`: what a state's non-terminal is fresh for.
- Theorem `conversions_prime_least`: the names that both conversions give.
-/

namespace FormalLang

/-! ## Primes -/

namespace Symbol

/-- So many primes. -/
def primes (k : Nat) : String :=
  String.join (List.replicate k "'")

@[simp]
theorem append_primes_zero (name : String) : name ++ primes 0 = name := by
  simp [primes]

@[simp]
theorem append_prime_append (name : String) (k : Nat) :
    name ++ "'" ++ primes k = name ++ primes (k + 1) := by
  simp [primes, List.replicate_succ, String.append_assoc]

theorem length_primes (k : Nat) : (primes k).length = k := by
  have hprime : ("'").length = 1 := rfl
  simp [primes, hprime]

/-- A name with primes is another name. -/
theorem append_primes_succ_ne (name : String) (k : Nat) : name ++ primes (k + 1) ≠ name := by
  intro h
  have hlen := congrArg String.length h
  rw [String.length_append, length_primes] at hlen
  omega

/-! ## The least number of primes -/

/-- The numbers of primes that make a name free. -/
def freeAt (taken : List Symbol) (name : String) : Set Nat :=
  {k | ∀ b ∈ taken, b.text ≠ name ++ primes k}

theorem freeAt_congr {taken taken' : List Symbol} (h : ∀ b, b ∈ taken ↔ b ∈ taken')
    (name : String) : freeAt taken name = freeAt taken' name := by
  ext k
  simp only [freeAt, Set.mem_ofPred_eq, h]

theorem zero_mem_freeAt_iff {taken : List Symbol} {a : Symbol} :
    0 ∈ freeAt taken a.text ↔ a ∉ taken := by
  simp only [freeAt, Set.mem_ofPred_eq, append_primes_zero]
  constructor
  · exact fun h ha => h a ha rfl
  · exact fun ha b hb htext => ha (Symbol.ext htext ▸ hb)

theorem succ_mem_freeAt_iff {taken : List Symbol} {name : String} {k : Nat} :
    k + 1 ∈ freeAt taken name ↔ k ∈ freeAt taken (name ++ "'") := by
  simp only [freeAt, Set.mem_ofPred_eq, append_prime_append]

/-- A name that was tried does not matter to the names with more primes. -/
theorem succ_mem_freeAt_iff_erase {taken : List Symbol} {a : Symbol} {k : Nat} :
    k + 1 ∈ freeAt taken a.text ↔ k ∈ freeAt (taken.erase a) a.primed.text := by
  rw [succ_mem_freeAt_iff, ← text_primed]
  simp only [freeAt, Set.mem_ofPred_eq, text_primed, append_prime_append]
  constructor
  · exact fun h b hb => h b (List.mem_of_mem_erase hb)
  · intro h b hb htext
    have hne : b ≠ a := by
      rintro rfl
      exact append_primes_succ_ne b.text k htext.symm
    exact h b ((List.mem_erase_of_ne hne).mpr hb) htext

/-- A least number of primes is not zero if the name itself is not free. -/
theorem isLeast_succ {S T : Set Nat} {k : Nat} (hzero : 0 ∉ S) (hsucc : ∀ i, i + 1 ∈ S ↔ i ∈ T)
    (h : IsLeast T k) : IsLeast S (k + 1) := by
  refine ⟨(hsucc k).mpr h.1, fun j hj => ?_⟩
  cases j with
  | zero => exact (hzero hj).elim
  | succ i => exact Nat.succ_le_succ (h.2 ((hsucc i).mp hj))

/-- A fresh name has the least number of primes that makes it free.  By induction along the
search: every name that is tried is one of those taken, and is not met again. -/
theorem exists_isLeast_fresh (taken : List Symbol) (a : Symbol) :
    ∃ k, (fresh taken a).text = a.text ++ primes k ∧ k ≤ taken.length ∧
      IsLeast (freeAt taken a.text) k := by
  fun_induction fresh taken a with
  | case1 taken a hmem ih =>
      rcases ih with ⟨k, htext, hle, hleast⟩
      have hlen := List.length_erase_of_mem hmem
      have hpos := List.length_pos_of_mem hmem
      refine ⟨k + 1, ?_, by omega, isLeast_succ ?_ (fun _ => succ_mem_freeAt_iff_erase) hleast⟩
      · rw [htext, text_primed, append_prime_append]
      · exact fun hzero => zero_mem_freeAt_iff.mp hzero hmem
  | case2 taken a hnot =>
      exact ⟨0, (append_primes_zero _).symm, Nat.zero_le _, zero_mem_freeAt_iff.mpr hnot,
        fun j _ => Nat.zero_le j⟩

/-! ## The loop -/

/-- The loop goes on as long as the name is taken. -/
theorem any_text_beq_iff_zero_not_mem {taken : List Symbol} {name : String} :
    (taken.any fun a => a.text == name) = true ↔ 0 ∉ freeAt taken name := by
  simp [freeAt]

/-- The loop that primes a name ends when it has pushed the least number of primes that makes
the name free, and not before. -/
theorem primeUntil?_of_isLeast {taken : List Symbol} {name : String} {k : Nat}
    (h : IsLeast (freeAt taken name) k) (steps : Nat) :
    primeUntil? taken steps name = if k < steps then some (name ++ primes k) else none := by
  induction steps generalizing name k with
  | zero => rfl
  | succ steps ih =>
      rw [primeUntil?]
      cases k with
      | zero =>
          have hfree : ¬(taken.any fun a => a.text == name) = true :=
            any_text_beq_iff_zero_not_mem.not.mpr (not_not_intro h.1)
          rw [if_neg hfree, if_pos (Nat.succ_pos steps), append_primes_zero]
      | succ k =>
          have hzero : 0 ∉ freeAt taken name := fun hmem => Nat.not_succ_le_zero k (h.2 hmem)
          have hrest : IsLeast (freeAt taken (name ++ "'")) k :=
            ⟨succ_mem_freeAt_iff.mp h.1, fun j hj =>
              Nat.le_of_succ_le_succ (h.2 (succ_mem_freeAt_iff.mpr hj))⟩
          rw [if_pos (any_text_beq_iff_zero_not_mem.mpr hzero), ih hrest, append_prime_append]
          simp only [Nat.succ_lt_succ_iff]

/-- A symbol is a name with primes: with the least number of them that makes the name free.
The loop that pushes them ends, with one test more than primes, and no more primes are needed
than names are taken. -/
def PrimedLeast (taken : List Symbol) (name : String) (b : Symbol) : Prop :=
  ∃ k, b.text = name ++ primes k ∧ k ≤ taken.length ∧
    IsLeast {k | ∀ c ∈ taken, c.text ≠ name ++ primes k} k ∧
    ∀ steps, primeUntil? taken steps name = if k < steps then some b.text else none

/-- A fresh name has the least number of primes, in whatever order the taken names are
listed. -/
theorem primedLeast_fresh {taken all : List Symbol} (h : all.Perm taken) (a : Symbol) :
    PrimedLeast all a.text (fresh taken a) := by
  rcases exists_isLeast_fresh taken a with ⟨k, htext, hle, hleast⟩
  rw [← freeAt_congr (fun b => h.mem_iff)] at hleast
  refine ⟨k, htext, h.length_eq.symm ▸ hle, hleast, fun steps => ?_⟩
  rw [primeUntil?_of_isLeast hleast, htext]

end Symbol

/-! ## Non-terminals of states -/

namespace Automaton

variable {A : Automaton} {p : Nat}

/-- The non-terminals of the first states. -/
theorem map_symbolOf_range (hp : p ≤ A.states.length) :
    (List.range p).map A.symbolOf = A.stateSymbols.take p := by
  have hlength : p ≤ A.stateSymbols.length := by rwa [length_stateSymbols]
  refine List.ext_getElem (by simpa using hlength) fun i hi hi' => ?_
  rw [List.length_map, List.length_range] at hi
  have hget := getElem?_stateSymbols (Nat.lt_of_lt_of_le hi hp)
  rw [List.getElem?_eq_getElem (Nat.lt_of_lt_of_le hi hlength), Option.some.injEq] at hget
  rw [List.getElem_map, List.getElem_range, List.getElem_take, hget]

/-- The non-terminal of a state is fresh for the alphabet and for the non-terminals of the
states before it. -/
theorem symbolOf_eq_fresh (hp : p < A.states.length) :
    A.symbolOf p =
      Symbol.fresh (((List.range p).map A.symbolOf).reverse ++ A.alphabet.toList) (A.nameOf p) := by
  have hstates : A.states = A.states.take p ++ A.nameOf p :: A.states.drop (p + 1) := by
    rw [Diagram.nameOf_eq_getElem hp, List.getElem_cons_drop, List.take_append_drop]
  have hsymbols : A.stateSymbols = Symbol.freshNames A.alphabet.toList (A.states.take p) ++
      Symbol.freshNames ((Symbol.freshNames A.alphabet.toList (A.states.take p)).reverse ++
        A.alphabet.toList) (A.nameOf p :: A.states.drop (p + 1)) := by
    rw [← Symbol.freshNames_append, ← hstates, stateSymbols]
  have hlength : (Symbol.freshNames A.alphabet.toList (A.states.take p)).length = p := by
    rw [Symbol.length_freshNames, List.length_take_of_le (Nat.le_of_lt hp)]
  have hbefore : (List.range p).map A.symbolOf =
      Symbol.freshNames A.alphabet.toList (A.states.take p) := by
    rw [map_symbolOf_range (Nat.le_of_lt hp), hsymbols, List.take_left' hlength]
  have hget := getElem?_stateSymbols hp
  rw [hsymbols, List.getElem?_append_right (Nat.le_of_eq hlength), hlength, Nat.sub_self,
    Symbol.freshNames, List.getElem?_cons_zero, Option.some.injEq] at hget
  rw [← hget, hbefore]

theorem primedLeast_symbolOf (hp : p < A.states.length) :
    Symbol.PrimedLeast (A.alphabet.toList ++ (List.range p).map A.symbolOf) (A.nameOf p).text
      (A.symbolOf p) := by
  rw [symbolOf_eq_fresh hp]
  apply Symbol.primedLeast_fresh
  exact List.perm_append_comm.trans ((List.reverse_perm _).symm.append_right _)

/-- The non-terminals of the grammar, in the order of their states. -/
theorem toList_nonTerminals_toGrammar (A : Automaton) :
    A.toGrammar.nonTerminals.toList = (List.range A.states.length).map A.symbolOf := by
  rw [map_symbolOf_range (Nat.le_refl _), ← length_stateSymbols, List.take_length]
  rfl

end Automaton

/-! ## Both conversions -/

/-- Names are primed as little as possible.  In the grammar of an automaton, the non-terminal
of a state is its name with the least number of primes for which it is neither in the alphabet
nor the non-terminal of an earlier state, so different states have different non-terminals,
and none of these is a terminal.  In the automaton of a regular grammar, the state for finished
derivations is `F` with the least number of primes for which it is no non-terminal. -/
theorem conversions_prime_least :
    (∀ A : Automaton,
      (∀ p < A.states.length,
        Symbol.PrimedLeast (A.alphabet.toList ++ (List.range p).map A.symbolOf) (A.nameOf p).text
          (A.symbolOf p)) ∧
      A.toGrammar.nonTerminals.toList = (List.range A.states.length).map A.symbolOf ∧
      Set.InjOn A.symbolOf {p | p < A.states.length} ∧
      ∀ p < A.states.length, A.symbolOf p ∉ A.toGrammar.terminals) ∧
    ∀ g : Grammar, g.grammarClass = .regular →
      ∃ A F, g.toAutomaton = .ok A ∧ A.states = g.stateSymbols ++ [F] ∧
        Symbol.PrimedLeast g.nonTerminals.toList "F" F := by
  refine ⟨fun A => ⟨fun p hp => Automaton.primedLeast_symbolOf hp,
    A.toList_nonTerminals_toGrammar, ?_, ?_⟩, fun g hregular => ?_⟩
  · exact fun p hp q hq hpq => Automaton.symbolOf_injective hp hq hpq
  · exact fun p hp => Symbol.freshNames_not_mem _ _ _ (Automaton.symbolOf_mem hp)
  · exact ⟨g.automaton, g.finalName, Grammar.ifRegular_of_regular hregular _, rfl,
      Symbol.primedLeast_fresh (List.Perm.refl _) _⟩

/-- Two states, the first of which has the name of a symbol, and gets that of the second. -/
def passedOn : Automaton :=
  Automaton.ofArrows
    { states := [⟨"o", by simp⟩, ⟨"o'", by simp⟩]
      alphabet := .ofList [⟨"o", by simp⟩]
      start := 0
      accepting := .empty
      transitions := .empty }
    (by decide) (by simp) [] (by simp)

theorem passedOn_evenWords_primed :
    (1 < passedOn.states.length ∧
      Symbol.PrimedLeast (passedOn.alphabet.toList ++ (List.range 1).map passedOn.symbolOf)
        (passedOn.nameOf 1).text (passedOn.symbolOf 1)) ∧
    Grammar.evenWords.grammarClass = .regular ∧
      ∃ A F, Grammar.evenWords.toAutomaton = .ok A ∧
        A.states = Grammar.evenWords.stateSymbols ++ [F] ∧
          Symbol.PrimedLeast Grammar.evenWords.nonTerminals.toList "F" F := by
  have hlt : 1 < passedOn.states.length := by decide
  have hregular : Grammar.evenWords.grammarClass = .regular := by decide
  exact ⟨⟨hlt, (conversions_prime_least.1 passedOn).1 1 hlt⟩, hregular,
    conversions_prime_least.2 Grammar.evenWords hregular⟩

end FormalLang
