import FormalLang.Automaton.Printer
import FormalLang.Proofs.Access.Guarded
import FormalLang.Proofs.Grammar.Generation

/-!
# Picking without failing

When a word is drawn, one of the alternatives of a non-terminal is picked at an index that
was drawn; when a table is written, the only target in a cell is picked at the first index.
The indices are within the lists, since an index is drawn below the number of alternatives
and only if there are any.  Beside that, the random words may run out while a word is
drawn; this is no failing access.  But reserving room for a sample is one, and it fails if
there is no room for so many words.

Main results:

- Theorem `Grammar.deriveForm?_eq`: a form is dealt with from left to right.
- Theorem `Grammar.deriveBy?_eq` and Theorem `Grammar.wordsBy?_eq`: no access fails when
  words are drawn.
- Theorem `Grammar.sampleBy?_eq`: a sample fails only if there is no room for it.
- Theorem `Automaton.table?_eq`: no access fails when a table is written.
-/

namespace FormalLang

/-! ## Draws -/

namespace Random

variable {α β : Type}

/-- A computation that draws: there is nothing if an access fails, and nothing within it if
the random words run out. -/
abbrev Drawing :=
  OptionT Option

/-- What is drawn without accesses. -/
def drawn (x : Option α) : Drawing α :=
  OptionT.mk (some x)

/-- An access fails. -/
def failing : Drawing α :=
  OptionT.mk none

theorem drawn_bind (x : Option α) (f : α → Option β) :
    drawn (x >>= f) = drawn x >>= fun a => drawn (f a) := by
  cases x with
  | none => rfl
  | some a => rfl

/-- What is drawn without accesses, if there is room for it. -/
def drawnInRoom : Option (Except CapacityOverflow α) → Drawing α
  | some (.ok a) => drawn (some a)
  | some (.error _) => failing
  | none => drawn none

/-- Draw an index below a bound; this fails if there is no such index. -/
def Draw.index? (draw : Draw) (n : Nat) (words : List UInt64) : Drawing (Nat × List UInt64) :=
  if n = 0 then failing else drawn (draw n words)

end Random

/-! ## Words -/

namespace Grammar

variable {g : Grammar}

/-- Derive a word from a sentential form, from left to right. -/
def deriveForm? (derive : Symbol → List UInt64 → Random.Drawing Generated) :
    SententialForm → List UInt64 → Random.Drawing Generated
  | [], words => return ⟨[], [], words⟩
  | .terminal a :: s, words => do
      let after ← deriveForm? derive s words
      return { after with word := a :: after.word }
  | .nonTerminal A :: s, words => do
      let here ← derive A words
      let after ← deriveForm? derive s here.rest
      return ⟨here.word ++ after.word, here.events ++ after.events, after.rest⟩

/-- Derive a word from a non-terminal, whose alternatives are picked at the indices that
are drawn. -/
def deriveBy? (draw : Random.Draw) (g : Grammar) :
    Nat → Symbol → List UInt64 → Random.Drawing Generated
  | 0, A, words => return ⟨[], [.depthBound A], words⟩
  | depth + 1, A, words =>
      let alternatives := g.alternatives A
      if alternatives.isEmpty then return ⟨[], [.noProductions A], words⟩
      else do
        let (i, words) ← draw.index? alternatives.length words
        let rhs ← OptionT.lift alternatives[i]?
        let generated ← deriveForm? (deriveBy? draw g depth) rhs words
        return { generated with events := .applied A rhs :: generated.events }

/-- Derive several words from the start symbol, one after the other. -/
def wordsBy? (draw : Random.Draw) (g : Grammar) (depth : Nat) :
    Nat → List UInt64 → Random.Drawing (List Generated)
  | 0, _ => return []
  | count + 1, words => do
      let first ← deriveBy? draw g depth g.start words
      let others ← wordsBy? draw g depth count first.rest
      return first :: others

/-- Reserve room for several words; this fails if there is not so much. -/
def reserve? (count : Nat) : Random.Drawing Unit :=
  if mostWords < count then Random.failing else return ()

/-- Reserve room for several words, and then derive them. -/
def sampleBy? (draw : Random.Draw) (g : Grammar) (depth count : Nat) (words : List UInt64) :
    Random.Drawing (List Generated) := do
  reserve? count
  g.wordsBy? draw depth count words

/-- A form is dealt with without failing, if its non-terminals are. -/
theorem deriveForm?_eq (derive : Symbol → List UInt64 → Option Generated) (s : SententialForm)
    (words : List UInt64) :
    deriveForm? (fun A words => Random.drawn (derive A words)) s words =
      Random.drawn (deriveForm derive s words) := by
  induction s generalizing words with
  | nil => rfl
  | cons x s ih =>
      cases x with
      | terminal a =>
          rw [deriveForm?, deriveForm, Random.drawn_bind, ih]
          rfl
      | nonTerminal A =>
          rw [deriveForm?, deriveForm, Random.drawn_bind]
          simp only [ih, Random.drawn_bind]
          rfl

variable {draw : Random.Draw}

/-- No access fails when a word is drawn.  By induction on the depth. -/
theorem deriveBy?_eq (hdraw : draw.Below) (g : Grammar) (depth : Nat) (X : Symbol)
    (words : List UInt64) :
    g.deriveBy? draw depth X words = Random.drawn (g.deriveBy draw depth X words) := by
  induction depth generalizing X words with
  | zero => rfl
  | succ depth ih =>
      have hderive : g.deriveBy? draw depth =
          fun A words => Random.drawn (g.deriveBy draw depth A words) :=
        funext fun A => funext fun words => ih A words
      rw [deriveBy?, deriveBy]
      by_cases hempty : (g.alternatives X).isEmpty = true
      · rw [if_pos hempty, if_pos hempty]
        rfl
      · rw [if_neg hempty, if_neg hempty]
        have hpos : 0 < (g.alternatives X).length := by
          rw [List.length_pos_iff]
          simpa using hempty
        rw [Random.Draw.index?, if_neg (Nat.ne_of_gt hpos)]
        cases hdrawn : draw (g.alternatives X).length words with
        | none => rfl
        | some drawnIndex =>
            rcases drawnIndex with ⟨i, rest⟩
            have hlt := hdraw _ _ _ _ hpos hdrawn
            have hget : (g.alternatives X)[i]? = some ((g.alternatives X).getD i []) := by
              rw [List.getD_eq_getElem?_getD, List.getElem?_eq_getElem hlt, Option.getD_some]
            change (OptionT.lift (g.alternatives X)[i]? >>= fun rhs =>
              deriveForm? (g.deriveBy? draw depth) rhs rest >>= fun generated => pure _) =
                Random.drawn
                  (deriveForm (g.deriveBy draw depth) ((g.alternatives X).getD i []) rest >>=
                    fun generated => some _)
            rw [hget, hderive, Random.drawn_bind, ← deriveForm?_eq]
            rfl

/-- No access fails when several words are drawn. -/
theorem wordsBy?_eq (hdraw : draw.Below) (g : Grammar) (depth count : Nat)
    (words : List UInt64) :
    g.wordsBy? draw depth count words = Random.drawn (g.wordsBy draw depth count words) := by
  induction count generalizing words with
  | zero => rfl
  | succ count ih =>
      rw [wordsBy?, wordsBy, Random.drawn_bind, deriveBy?_eq hdraw]
      simp only [ih, Random.drawn_bind]
      rfl

/-- A sample fails if there is no room for it, and otherwise never. -/
theorem sampleBy?_eq (hdraw : draw.Below) (g : Grammar) (depth count : Nat)
    (words : List UInt64) :
    g.sampleBy? draw depth count words =
      Random.drawnInRoom (g.sampleBy draw depth count words) := by
  rw [sampleBy?, sampleBy, reserve?]
  by_cases hroom : mostWords < count
  · rw [if_pos hroom, if_pos hroom]
    rfl
  · rw [if_neg hroom, if_neg hroom, pure_bind, wordsBy?_eq hdraw]
    cases g.wordsBy draw depth count words with
    | none => rfl
    | some sample => rfl

theorem drawnInRoom_sampleBy_eq_none_iff (draw : Random.Draw) (g : Grammar) (depth count : Nat)
    (words : List UInt64) :
    (Random.drawnInRoom (g.sampleBy draw depth count words)).run = none ↔ mostWords < count := by
  rw [sampleBy]
  by_cases hroom : mostWords < count
  · rw [if_pos hroom]
    exact iff_of_true rfl hroom
  · rw [if_neg hroom]
    cases g.wordsBy draw depth count words with
    | none => simp [hroom, Random.drawnInRoom, Random.drawn, OptionT.run, OptionT.mk]
    | some sample => simp [hroom, Random.drawnInRoom, Random.drawn, OptionT.run, OptionT.mk]

end Grammar

/-! ## Tables -/

namespace Automaton

/-- The targets in a cell of the table; the only one is picked at the first index. -/
def targetsText? (A : Automaton) (targets : OrderedSet Nat) : Option String :=
  if targets.size = 1 then do
    let q ← targets.toList[0]?
    return (A.nameOf q).text
  else return "\x7b" ++ ", ".intercalate (targets.toList.map fun q => (A.nameOf q).text) ++ "\x7d"

/-- The row of a state in the table. -/
def tableRow? (A : Automaton) (p : Nat) : Option (List String) := do
  let cells ← A.alphabet.toList.mapM fun a =>
    match A.transitions.targets? p a with
    | some targets => A.targetsText? targets
    | none => some ""
  return A.markedName p :: cells

/-- The table of transitions. -/
def table? (A : Automaton) : Option Text.Table := do
  let rows ← (List.range A.states.length).mapM A.tableRow?
  return { header := "δ" :: A.alphabet.toList.map Symbol.text, rows := rows }

theorem targetsText?_eq (A : Automaton) (targets : OrderedSet Nat) :
    A.targetsText? targets = some (A.targetsText targets.toList) := by
  unfold targetsText? targetsText OrderedSet.size
  match targets.toList with
  | [] => rfl
  | [q] => rfl
  | p :: q :: rest => rfl

theorem tableRow?_eq (A : Automaton) (p : Nat) :
    A.tableRow? p =
      some (A.markedName p ::
        A.alphabet.toList.map fun a =>
          match A.transitions.targets? p a with
          | some targets => A.targetsText targets.toList
          | none => "") := by
  rw [tableRow?, mapM_eq_pure (m := Option) (g := fun a =>
    match A.transitions.targets? p a with
    | some targets => A.targetsText targets.toList
    | none => "")]
  · rfl
  · intro a _
    cases A.transitions.targets? p a with
    | none => rfl
    | some targets => exact A.targetsText?_eq targets

/-- No access fails when a table is written. -/
theorem table?_eq (A : Automaton) : A.table? = some A.table := by
  rw [table?, mapM_eq_pure (m := Option) fun p _ => A.tableRow?_eq p]
  rfl

end Automaton
end FormalLang
