import FormalLang.Ordered.Set
import FormalLang.Symbol

/-!
# Recognizers

A recognizer reads a word symbol by symbol and may go several ways at each.
Finite automata and right-linear grammars are both read this way: the states of
a grammar are its non-terminals and one more for a finished derivation.

A word is read by keeping the set of all states that can be reached; it is
recognized when one of them is final at the end.
-/

namespace FormalLang

/-- A machine that reads words. -/
structure Recognizer (σ : Type) where
  states : List σ
  alphabet : List Symbol
  start : σ
  next : σ → Symbol → List σ
  final : σ → Bool
  start_mem : start ∈ states
  next_mem : ∀ p a, ∀ q ∈ next p a, q ∈ states

namespace Recognizer

variable {σ : Type}

/-- Reading a word can lead from one state to another. -/
inductive Run (M : Recognizer σ) : σ → Word → σ → Prop
  | nil (p : σ) : Run M p [] p
  | cons {p q r : σ} {a : Symbol} {w : Word} :
      q ∈ M.next p a → Run M q w r → Run M p (a :: w) r

variable [DecidableEq σ]

/-- The states reached from a set of states by one symbol. -/
def step (M : Recognizer σ) (live : OrderedSet σ) (a : Symbol) : OrderedSet σ :=
  OrderedSet.ofList (live.toList.flatMap fun p => M.next p a)

/-- The states reached from the start by a word. -/
def reached (M : Recognizer σ) (w : Word) : OrderedSet σ :=
  w.foldl M.step (OrderedSet.ofList [M.start])

/-- A word is recognized when it reaches a final state. -/
def recognizes (M : Recognizer σ) (w : Word) : Bool :=
  (M.reached w).toList.any M.final

/-- The sets of states that reading a word goes through, each with the symbol
that led there, up to the first that is empty. -/
def liveSets (M : Recognizer σ) (live : OrderedSet σ) : Word → List (Symbol × OrderedSet σ)
  | [] => []
  | a :: w =>
      let live' := M.step live a
      (a, live') :: if live'.toList.isEmpty then [] else liveSets M live' w

end Recognizer
end FormalLang
