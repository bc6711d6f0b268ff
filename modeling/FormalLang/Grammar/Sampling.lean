import FormalLang.Event
import FormalLang.Random.Index

/-!
# Sampling words

A word is derived from a non-terminal by picking one of its alternatives at
random, and so on for the non-terminals in it from left to right, down to a
depth.  Only rules of single non-terminals take part.  A non-terminal that is
met too deep, or that has no alternatives, adds nothing to the word.

Room for all words of a sample is reserved before the first of them is derived.
How much room can be reserved is bounded by the addresses that there are; within
this bound, memory does not run out.
-/

namespace FormalLang

/-- What a derivation gives: a word, its events, and the random words that it
left over. -/
structure Generated where
  word : Word
  events : List Event
  rest : List UInt64
deriving DecidableEq

/-- There is no room for the words of a sample. -/
structure CapacityOverflow where
deriving DecidableEq

/-- The message of this failure. -/
def CapacityOverflow.message (_ : CapacityOverflow) : String :=
  "capacity overflow"

namespace Grammar

/-- The depth that is taken when none is given. -/
def defaultDepth : Nat := 32

/-- Derive a word from a sentential form, from left to right. -/
def deriveForm (derive : Symbol → List UInt64 → Option Generated) :
    SententialForm → List UInt64 → Option Generated
  | [], words => some ⟨[], [], words⟩
  | .terminal a :: s, words => do
      let after ← deriveForm derive s words
      return { after with word := a :: after.word }
  | .nonTerminal A :: s, words => do
      let here ← derive A words
      let after ← deriveForm derive s here.rest
      return ⟨here.word ++ after.word, here.events ++ after.events, after.rest⟩

/-- Derive a word from a non-terminal, with so many levels of non-terminals
left; nothing if the random words run out. -/
def deriveBy (draw : Random.Draw) (g : Grammar) : Nat → Symbol → List UInt64 → Option Generated
  | 0, A, words => some ⟨[], [.depthBound A], words⟩
  | depth + 1, A, words =>
      let alternatives := g.alternatives A
      if alternatives.isEmpty then some ⟨[], [.noProductions A], words⟩
      else do
        let (i, words) ← draw alternatives.length words
        let rhs := alternatives.getD i []
        let generated ← deriveForm (deriveBy draw g depth) rhs words
        return { generated with events := .applied A rhs :: generated.events }

/-- Derive several words from the start symbol, one after the other. -/
def wordsBy (draw : Random.Draw) (g : Grammar) (depth : Nat) :
    Nat → List UInt64 → Option (List Generated)
  | 0, _ => some []
  | count + 1, words => do
      let first ← deriveBy draw g depth g.start words
      let others ← wordsBy draw g depth count first.rest
      return first :: others

/-- The most bytes that a list can take up. -/
def mostBytes : Nat :=
  Nat.pow 2 63 - 1

/-- The bytes that each word takes up in a list: the place of its symbols, their
number, and the number of those for which there is room. -/
def wordBytes : Nat :=
  3 * 8

/-- The most words of a sample. -/
def mostWords : Nat :=
  mostBytes / wordBytes

/-- Reserve room for several words, and then derive them. -/
def sampleBy (draw : Random.Draw) (g : Grammar) (depth count : Nat) (words : List UInt64) :
    Option (Except CapacityOverflow (List Generated)) :=
  if mostWords < count then some (.error ⟨⟩)
  else (g.wordsBy draw depth count words).map .ok

/-- Derive a word by drawing as usual. -/
def derive (g : Grammar) : Nat → Symbol → List UInt64 → Option Generated :=
  g.deriveBy Random.draw

/-- Derive several words by drawing as usual. -/
def sample (g : Grammar) :
    Nat → Nat → List UInt64 → Option (Except CapacityOverflow (List Generated)) :=
  g.sampleBy Random.draw

end Grammar
end FormalLang
