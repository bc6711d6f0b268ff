/-!
# Sources of random words

A source gives 64-bit words without end, one after the other.  Which generator
is behind it does not matter to those who draw.
-/

namespace FormalLang.Random

/-- A generator in a state: in each state it gives a word and goes to the next
state. -/
structure Source where
  State : Type
  next : State → UInt64 × State
  state : State

namespace Source

/-- The first words that a generator gives, beginning in a state. -/
def wordsFrom {σ : Type} (next : σ → UInt64 × σ) : Nat → σ → List UInt64
  | 0, _ => []
  | n + 1, s =>
      let (word, s) := next s
      word :: wordsFrom next n s

/-- The first `n` words of a source. -/
def take (source : Source) (n : Nat) : List UInt64 :=
  wordsFrom source.next n source.state

/-- The answer to a question that needs some of the words of a source.  It is
asked with the first words, twice as many each time, until it has an answer. -/
def answer {α : Type} (source : Source) (ask : List UInt64 → Option α) : Option α :=
  (List.range 64).findSome? fun k => ask (source.take (Nat.pow 2 k))

end Source
end FormalLang.Random
