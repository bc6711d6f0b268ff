import FormalLang.Recognizer.Basic
import FormalLang.Search
import FormalLang.Split.Basic

/-!
# Reading a text

A recognizer reads a text by reading all its splits at once.  A configuration
is a place in the text and a state; reading a symbol moves on in the text.  The
configurations are searched breadth first for one at the end of the content in
a final state.  Symbols may run past that end into the blanks behind it; such
configurations are found as well, but lead nowhere.
-/

namespace FormalLang.Recognizer

/-- A place in a text, counted in characters, and a state. -/
@[ext]
structure Config (σ : Type) where
  position : Nat
  state : σ
deriving DecidableEq

variable {σ : Type} [Ord σ]

/-- Configurations are ordered by their places, then by their states. -/
instance : Ord (Config σ) where
  compare := compareLex (compareOn Config.position) (compareOn Config.state)

instance [Std.TransOrd σ] : Std.TransOrd (Config σ) :=
  inferInstanceAs
    (Std.TransCmp (compareLex (compareOn Config.position) (compareOn Config.state)))

instance [Std.TransOrd σ] [Std.LawfulEqOrd σ] : Std.LawfulEqOrd (Config σ) where
  eq_of_compare {c d} h := by
    have hlex := compareLex_eq_eq.mp h
    exact Config.ext (Std.LawfulEqOrd.eq_of_compare hlex.1)
      (Std.LawfulEqOrd.eq_of_compare hlex.2)

/-- The configurations after one more symbol of the text. -/
def configEdges (M : Recognizer σ) (t : List Char) (c : Config σ) :
    List (Symbol × Config σ) :=
  (continuations M.alphabet (t.drop c.position)).flatMap fun step =>
    (M.next c.state step.1).map fun q => (step.1, ⟨c.position + step.2, q⟩)

/-- The search for a final state at the end of the content.  There are as many
configurations as places in the text times states. -/
def searchText (M : Recognizer σ) (t : List Char) : Search.Outcome (Config σ) Symbol :=
  let contentLength := (Text.trimEnd t).length
  Search.run (M.configEdges t)
    (fun c => c.position == contentLength && M.final c.state)
    ((t.length + 1) * M.states.length) ⟨0, M.start⟩

/-- A text is recognized when one of its splits is. -/
def recognizesText (M : Recognizer σ) (t : List Char) : Bool :=
  (M.searchText t).reached

end FormalLang.Recognizer
