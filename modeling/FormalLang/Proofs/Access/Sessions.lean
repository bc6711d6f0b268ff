import FormalLang.Grammar.Printer
import FormalLang.Proofs.Access.Building
import FormalLang.Proofs.Access.Determinizing
import FormalLang.Proofs.Access.Picking
import FormalLang.Proofs.Access.Reading
import FormalLang.Proofs.Access.Searching

/-!
# Sessions

In a session, operations follow each other in any order.  The grammars, automata and
blueprints that they make are kept in a store, and later operations refer to them.  Some of
the operations access things: they look up keys and indices, take slices of texts at bytes,
make symbols of names, and reserve room.  A session stops where an access fails.

No access fails, but for two: a symbol cannot be made of the empty name, and room for a
sample cannot be reserved if the sample has too many words.  So a session that accesses
things goes as a session does that does not.

Main results:

- Theorem `Library.accessing_eq_plain`: operations with accesses give what they give
  without.
- Theorem `Library.step_plain_eq_none_iff`: which operations stop.
- Theorem `Library.run_plain_eq_none_iff`: where a session stops.
- Theorem `Library.run_accessing`: a session stops exactly at such an operation, and is
  otherwise not disturbed by its accesses.
- Theorem `Library.largeSample_stops`: a session that stops without a symbol of the empty
  name.
-/

namespace FormalLang

/-! ## Texts -/

/-- Whether an automaton accepts a text, found with slices of the text. -/
def Automaton.acceptsText? (A : Automaton) (text : String) : Option Bool :=
  A.recognizer.recognizesText? text.toList

/-- Whether a regular grammar contains a text, found with slices of the text. -/
def Grammar.containsText? (g : Grammar) (text : String) : Guarded NotRegular Bool :=
  if g.grammarClass = .regular then Guarded.access (g.recognizer.recognizesText? text.toList)
  else throw ⟨g.grammarClass⟩

theorem Automaton.acceptsText?_eq (A : Automaton) (text : String) :
    A.acceptsText? text = some (A.acceptsText text) :=
  A.recognizer.recognizesText?_eq text.toList

theorem Grammar.containsText?_eq (g : Grammar) (text : String) :
    g.containsText? text = .of (g.containsText text) := by
  unfold containsText? containsText ifRegular
  by_cases h : g.grammarClass = .regular
  · rw [if_pos h, if_pos h, g.recognizer.recognizesText?_eq]
    rfl
  · rw [if_neg h, if_neg h]
    rfl

/-! ## Operations -/

/-- What is asked about a grammar. -/
inductive GrammarQuery
  | parts
  | alternatives (A : Symbol)
  | listing
  | classify
  | contains (w : Word)
  | containsText (text : String)
  | derive (depth : Nat) (A : Symbol) (words : List UInt64)
  | sample (depth count : Nat) (words : List UInt64)
  | toAutomaton
deriving DecidableEq

/-- What is asked about an automaton. -/
inductive AutomatonQuery
  | parts
  | stateNamed (name : String)
  | targets (p : Nat) (a : Symbol)
  | listing
  | table
  | isDeterministic
  | accepts (w : Word)
  | acceptsText (text : String)
  | determinize
  | toGrammar
deriving DecidableEq

/-- The operations of a session; a number stands for what an earlier operation made. -/
inductive Operation
  | symbol (name : String)
  | writeWord (w : Word)
  | tokenize (symbols : List Symbol) (text : String)
  | isRightLinear (P : Productions) (start : Symbol)
  | isContextFree (P : Productions)
  | isContextSensitive (P : Productions) (start : Symbol)
  | readGrammar (nonTerminals terminals : List String) (start : String) (lines : List String)
  | assembleGrammar (nonTerminals terminals : List Symbol) (P : Productions) (start : Symbol)
  | blueprint
  | enter (i : Nat) (entry : Blueprint.Entry)
  | build (i : Nat)
  | buildLists (states alphabet : List String) (start : String) (accepting : List String)
      (transitions : List (String × String × List String))
  | grammar (i : Nat) (query : GrammarQuery)
  | automaton (i : Nat) (query : AutomatonQuery)
deriving DecidableEq

/-- The answers to operations. -/
inductive Answer
  /-- Something was made, and is kept in the store. -/
  | kept
  /-- Nothing in the store has the number. -/
  | missing
  | symbol (a : Symbol)
  | text (s : String)
  | splits (splits : Splits)
  | verdict (b : Bool)
  | grammarClass (c : GrammarClass)
  | grammar (G : Presentation)
  | automaton (D : Diagram)
  | alternatives (forms : Option (OrderedSet SententialForm))
  | place (p : Option Nat)
  | targets (qs : Option (OrderedSet Nat))
  | table (table : Text.Table)
  /-- Words that were drawn; nothing if the random words ran out. -/
  | words (generated : Option (List Generated))
  | grammarError (e : GrammarError)
  | automatonError (e : AutomatonError)
  | notRegular (e : NotRegular)

/-- The answer that only regular grammars have. -/
def Answer.ofRegular : Except NotRegular Bool → Answer
  | .ok b => .verdict b
  | .error e => .notRegular e

/-! ## The store -/

/-- What a session has made. -/
structure Store where
  grammars : List Grammar
  automata : List Automaton
  blueprints : List Blueprint

namespace Store

/-- A store of nothing. -/
def empty : Store :=
  ⟨[], [], []⟩

/-- Keep a grammar. -/
def keepGrammar (s : Store) (g : Grammar) : Store × Answer :=
  ({ s with grammars := s.grammars ++ [g] }, .kept)

/-- Keep an automaton. -/
def keepAutomaton (s : Store) (A : Automaton) : Store × Answer :=
  ({ s with automata := s.automata ++ [A] }, .kept)

/-- Keep the grammar that was made, unless it was refused. -/
def keepMade (s : Store) : Except GrammarError Grammar → Store × Answer
  | .ok g => s.keepGrammar g
  | .error e => (s, .grammarError e)

/-- Keep the automaton that was built, unless it was refused. -/
def keepBuilt (s : Store) : Except AutomatonError Automaton → Store × Answer
  | .ok A => s.keepAutomaton A
  | .error e => (s, .automatonError e)

/-- Keep the automaton of a grammar, unless the grammar is not regular. -/
def keepConverted (s : Store) : Except NotRegular Automaton → Store × Answer
  | .ok A => s.keepAutomaton A
  | .error e => (s, .notRegular e)

end Store

/-! ## Runs -/

/-- The operations with accesses; there is nothing where one of them fails. -/
@[ext]
structure Library where
  symbol : String → Option Symbol
  tokenize : List Symbol → String → Option Splits
  readGrammar : List String → List String → String → List String →
    Option (Except GrammarError Grammar)
  containsText : Grammar → String → Option (Except NotRegular Bool)
  derive : Grammar → Nat → Symbol → List UInt64 → Option (Option Generated)
  sample : Grammar → Nat → Nat → List UInt64 → Option (Option (List Generated))
  toAutomaton : Grammar → Option (Except NotRegular Automaton)
  build : Blueprint → Option (Except AutomatonError Automaton)
  acceptsText : Automaton → String → Option Bool
  determinize : Automaton → Option Automaton
  toGrammar : Automaton → Option Grammar
  table : Automaton → Option Text.Table

namespace Library

/-- The operations as they access things. -/
def accessing (draw : Random.Draw) : Library where
  symbol := Symbol.ofString?
  tokenize := Splits.ofText?
  readGrammar nonTerminals terminals start lines :=
    (Grammar.read? nonTerminals terminals start lines).run
  containsText g text := (g.containsText? text).run
  derive g depth A words := (g.deriveBy? draw depth A words).run
  sample g depth count words := (g.sampleBy? draw depth count words).run
  toAutomaton g := g.toAutomaton?.run
  build b := b.build?.run
  acceptsText := Automaton.acceptsText?
  determinize := Automaton.determinize?
  toGrammar := Automaton.toGrammar?
  table := Automaton.table?

/-- The operations without accesses, but for the name of a symbol and the room for a
sample. -/
def plain (draw : Random.Draw) : Library where
  symbol := Symbol.ofString?
  tokenize symbols text := some (Splits.ofText symbols text)
  readGrammar nonTerminals terminals start lines :=
    some (Grammar.read nonTerminals terminals start lines)
  containsText g text := some (g.containsText text)
  derive g depth A words := some (g.deriveBy draw depth A words)
  sample g depth count words := (Random.drawnInRoom (g.sampleBy draw depth count words)).run
  toAutomaton g := some g.toAutomaton
  build b := some b.toAutomaton
  acceptsText A text := some (A.acceptsText text)
  determinize A := some A.determinize
  toGrammar A := some A.toGrammar
  table A := some A.table

/-- Answer what is asked about a grammar. -/
def askGrammar (L : Library) (s : Store) (g : Grammar) : GrammarQuery → Option (Store × Answer)
  | .parts => some (s, .grammar g.toPresentation)
  | .alternatives A => some (s, .alternatives (g.alternatives? A))
  | .listing => some (s, .text g.listing)
  | .classify => some (s, .grammarClass g.grammarClass)
  | .contains w => some (s, .ofRegular (g.contains w))
  | .containsText text => (L.containsText g text).map fun answer => (s, .ofRegular answer)
  | .derive depth A words =>
      (L.derive g depth A words).map fun x => (s, .words (x.map fun generated => [generated]))
  | .sample depth count words =>
      (L.sample g depth count words).map fun generated => (s, .words generated)
  | .toAutomaton => (L.toAutomaton g).map s.keepConverted

/-- Answer what is asked about an automaton. -/
def askAutomaton (L : Library) (s : Store) (A : Automaton) :
    AutomatonQuery → Option (Store × Answer)
  | .parts => some (s, .automaton A.toDiagram)
  | .stateNamed name => some (s, .place (A.stateNamed? name))
  | .targets p a => some (s, .targets (A.transitions.targets? p a))
  | .listing => some (s, .text A.listing)
  | .table => (L.table A).map fun table => (s, .table table)
  | .isDeterministic => some (s, .verdict A.isDeterministic)
  | .accepts w => some (s, .verdict (A.accepts w))
  | .acceptsText text => (L.acceptsText A text).map fun b => (s, .verdict b)
  | .determinize => (L.determinize A).map s.keepAutomaton
  | .toGrammar => (L.toGrammar A).map s.keepGrammar

/-- Do one operation; nothing if an access fails. -/
def step (L : Library) (s : Store) : Operation → Option (Store × Answer)
  | .symbol name => (L.symbol name).map fun a => (s, .symbol a)
  | .writeWord w => some (s, .text w.text)
  | .tokenize symbols text => (L.tokenize symbols text).map fun splits => (s, .splits splits)
  | .isRightLinear P start => some (s, .verdict (P.isRightLinear start))
  | .isContextFree P => some (s, .verdict P.isContextFree)
  | .isContextSensitive P start => some (s, .verdict (P.isContextSensitive start))
  | .readGrammar nonTerminals terminals start lines =>
      (L.readGrammar nonTerminals terminals start lines).map s.keepMade
  | .assembleGrammar nonTerminals terminals P start =>
      some (s.keepMade (Grammar.ofParts nonTerminals terminals P start))
  | .blueprint => some ({ s with blueprints := s.blueprints ++ [.empty] }, .kept)
  | .enter i entry =>
      some ({ s with blueprints := s.blueprints.modify i fun b => b.enter entry },
        if i < s.blueprints.length then .kept else .missing)
  | .build i =>
      match s.blueprints[i]? with
      | some b => (L.build b).map s.keepBuilt
      | none => some (s, .missing)
  | .buildLists states alphabet start accepting transitions =>
      (L.build (.ofLists states alphabet start accepting transitions)).map s.keepBuilt
  | .grammar i query =>
      match s.grammars[i]? with
      | some g => L.askGrammar s g query
      | none => some (s, .missing)
  | .automaton i query =>
      match s.automata[i]? with
      | some A => L.askAutomaton s A query
      | none => some (s, .missing)

/-- Do operations one after the other, and collect the answers. -/
def run (L : Library) (s : Store) : List Operation → Option (Store × List Answer)
  | [] => some (s, [])
  | op :: ops => do
      let (s, answer) ← L.step s op
      let (s, answers) ← L.run s ops
      return (s, answer :: answers)

/-! ## Sessions with accesses -/

variable {draw : Random.Draw}

/-- Operations with accesses give what they give without. -/
theorem accessing_eq_plain (hdraw : draw.Below) : accessing draw = plain draw := by
  ext1
  · rfl
  · funext symbols text
    exact Splits.ofText?_eq symbols text
  · funext nonTerminals terminals start lines
    exact Grammar.read?_eq nonTerminals terminals start lines
  · funext g text
    exact g.containsText?_eq text
  · funext g depth A words
    exact g.deriveBy?_eq hdraw depth A words
  · funext g depth count words
    exact congrArg OptionT.run (g.sampleBy?_eq hdraw depth count words)
  · funext g
    exact g.toAutomaton?_eq
  · funext b
    exact b.build?_eq
  · funext A text
    exact A.acceptsText?_eq text
  · funext A
    exact A.determinize?_eq
  · funext A
    exact A.toGrammar?_eq
  · funext A
    exact A.table?_eq

/-- The operations that stop a session: a symbol is made of the empty name, or a sample of
a grammar is drawn for which there is no room. -/
inductive Stops (s : Store) : Operation → Prop
  | emptyName : Stops s (.symbol "")
  | noRoom {i depth count : Nat} {words : List UInt64} (grammar : i < s.grammars.length)
      (large : Grammar.mostWords < count) : Stops s (.grammar i (.sample depth count words))

theorem askGrammar_plain_eq_none_iff (s : Store) (g : Grammar) (query : GrammarQuery) :
    (plain draw).askGrammar s g query = none ↔
      ∃ depth count words, query = .sample depth count words ∧ Grammar.mostWords < count := by
  cases query with
  | sample depth count words =>
      rw [askGrammar, Option.map_eq_none_iff]
      simp only [GrammarQuery.sample.injEq, existsAndEq, and_true, true_and]
      exact g.drawnInRoom_sampleBy_eq_none_iff draw depth count words
  | _ => simp [askGrammar, plain]

theorem askAutomaton_plain_ne_none (s : Store) (A : Automaton) (query : AutomatonQuery) :
    (plain draw).askAutomaton s A query ≠ none := by
  cases query <;> exact Option.some_ne_none _

/-- These operations stop, and no others. -/
theorem step_plain_eq_none_iff (draw : Random.Draw) (s : Store) (op : Operation) :
    (plain draw).step s op = none ↔ Stops s op := by
  cases op with
  | symbol name =>
      rw [step, Option.map_eq_none_iff, plain, Symbol.ofString?_eq_none_iff]
      constructor
      · rintro rfl
        exact .emptyName
      · intro h
        cases h with
        | emptyName => rfl
  | grammar i query =>
      rw [step]
      constructor
      · intro h
        cases hget : s.grammars[i]? with
        | none => simp [hget] at h
        | some g =>
            rw [hget] at h
            rcases (askGrammar_plain_eq_none_iff s g query).mp h with
              ⟨depth, count, words, rfl, hlarge⟩
            exact .noRoom (List.getElem?_eq_some_iff.mp hget).1 hlarge
      · intro h
        cases h with
        | noRoom hi hlarge =>
            rw [List.getElem?_eq_getElem hi]
            exact (askGrammar_plain_eq_none_iff s _ _).mpr ⟨_, _, _, rfl, hlarge⟩
  | build i =>
      refine iff_of_false ?_ nofun
      rw [step]
      cases s.blueprints[i]? with
      | none => exact Option.some_ne_none _
      | some b => exact Option.some_ne_none _
  | automaton i query =>
      refine iff_of_false ?_ nofun
      rw [step]
      cases s.automata[i]? with
      | none => exact Option.some_ne_none _
      | some A => exact askAutomaton_plain_ne_none s A query
  | _ => exact iff_of_false (Option.some_ne_none _) nofun

theorem run_cons_of_step {L : Library} {s s' : Store} {op : Operation} {answer : Answer}
    (h : L.step s op = some (s', answer)) (ops : List Operation) :
    L.run s (op :: ops) = (L.run s' ops).map fun rest => (rest.1, answer :: rest.2) := by
  rw [run, h]
  cases hrest : L.run s' ops with
  | none => simp [hrest]
  | some rest => simp [hrest]

/-- A run gives nothing if it comes to an operation that gives nothing.  By induction on the
operations. -/
theorem run_eq_none_iff (L : Library) (s : Store) (ops : List Operation) :
    L.run s ops = none ↔
      ∃ before op after s' answers, ops = before ++ op :: after ∧
        L.run s before = some (s', answers) ∧ L.step s' op = none := by
  induction ops generalizing s with
  | nil => simp [run]
  | cons op ops ih =>
      cases hstep : L.step s op with
      | none =>
          refine iff_of_true ?_ ⟨[], op, ops, s, [], rfl, rfl, hstep⟩
          rw [run, hstep]
          rfl
      | some next =>
          rcases next with ⟨s₁, answer⟩
          rw [run_cons_of_step hstep, Option.map_eq_none_iff, ih]
          constructor
          · rintro ⟨before, stop, after, s', answers, rfl, hrun, hstop⟩
            refine ⟨op :: before, stop, after, s', answer :: answers, rfl, ?_, hstop⟩
            rw [run_cons_of_step hstep, hrun]
            rfl
          · rintro ⟨before, stop, after, s', answers, heq, hrun, hstop⟩
            cases before with
            | nil =>
                cases heq
                cases hrun
                rw [hstep] at hstop
                contradiction
            | cons first before =>
                cases heq
                rw [run_cons_of_step hstep, Option.map_eq_some_iff] at hrun
                rcases hrun with ⟨rest, hrun, heq⟩
                cases heq
                exact ⟨before, stop, after, _, _, rfl, hrun, hstop⟩

/-- A session comes to an operation that stops it. -/
def ReachesStop (L : Library) (s : Store) (ops : List Operation) : Prop :=
  ∃ before op after s' answers, ops = before ++ op :: after ∧
    L.run s before = some (s', answers) ∧ Stops s' op

/-- A session stops if it comes to such an operation, and otherwise never. -/
theorem run_plain_eq_none_iff (draw : Random.Draw) (s : Store) (ops : List Operation) :
    (plain draw).run s ops = none ↔ (plain draw).ReachesStop s ops := by
  rw [run_eq_none_iff]
  simp only [step_plain_eq_none_iff]
  rfl

/-- Whatever the operations of a session are, and whatever they are given: if all indices are
drawn below their bounds, the session stops exactly if it comes to a symbol of the empty name
or to a sample without room.  No other access fails, so it goes as it does without accesses. -/
theorem run_accessing (hdraw : draw.Below) (s : Store) (ops : List Operation) :
    ((accessing draw).run s ops = none ↔ (accessing draw).ReachesStop s ops) ∧
      (accessing draw).run s ops = (plain draw).run s ops := by
  rw [accessing_eq_plain hdraw]
  exact ⟨run_plain_eq_none_iff draw s ops, rfl⟩

/-- A session that reads a grammar, converts it there and back, draws words, and asks about
texts with characters of several bytes. -/
def roundTrip : List Operation :=
  [.readGrammar ["S", "Δ"] ["a", "aé", "→"] "S" ["S → aΔ | aéS | ε", "Δ → a | aéS"],
    .grammar 0 (.containsText " a\u3000aé "),
    .grammar 0 (.sample 3 2 [0, 1, 2, 3]),
    .grammar 0 .toAutomaton,
    .automaton 0 .determinize,
    .automaton 1 (.acceptsText "éaé"),
    .automaton 1 .table,
    .automaton 1 .toGrammar,
    .grammar 7 .listing]

theorem not_stops_of_mem_roundTrip {op : Operation} (hop : op ∈ roundTrip) (s : Store) :
    ¬Stops s op := by
  intro h
  cases h with
  | emptyName => exact absurd hop (by decide)
  | noRoom _ hlarge =>
      simp only [roundTrip, List.mem_cons, List.not_mem_nil, Operation.grammar.injEq,
        GrammarQuery.sample.injEq, reduceCtorEq, and_false, false_or, or_false] at hop
      rw [hop.2.2.1] at hlarge
      exact absurd hlarge (by decide)

/-- The session ends, until at last a symbol is made of the empty name. -/
theorem roundTrip_ends :
    Random.Draw.Below Random.draw ∧
      (accessing Random.draw).run .empty roundTrip ≠ none ∧
        (accessing Random.draw).run .empty (roundTrip ++ [.symbol ""]) = none := by
  have hends : (accessing Random.draw).run .empty roundTrip ≠ none := by
    intro h
    rcases (run_accessing Random.draw_below .empty roundTrip).1.mp h with
      ⟨before, op, after, s, -, hops, -, hstops⟩
    have hop : op ∈ roundTrip := by simp [hops]
    exact not_stops_of_mem_roundTrip hop s hstops
  rcases Option.ne_none_iff_exists'.mp hends with ⟨⟨s, answers⟩, hrun⟩
  exact ⟨Random.draw_below, hends,
    (run_accessing Random.draw_below .empty (roundTrip ++ [.symbol ""])).1.mpr
      ⟨roundTrip, .symbol "", [], s, answers, rfl, hrun, .emptyName⟩⟩

/-- A session that draws more words than there is room for. -/
def largeSample : List Operation :=
  [.readGrammar ["S"] ["a"] "S" ["S → a"], .grammar 0 (.sample 0 1000000000000000000 [])]

/-- It stops, though it makes no symbol of the empty name and all indices are drawn below
their bounds. -/
theorem largeSample_stops :
    Random.Draw.Below Random.draw ∧ Operation.symbol "" ∉ largeSample ∧
      (accessing Random.draw).run .empty largeSample = none := by
  have hstops : ((plain Random.draw).run .empty largeSample).isNone = true := by decide
  rw [accessing_eq_plain Random.draw_below]
  exact ⟨Random.draw_below, by decide, Option.isNone_iff_eq_none.mp hstops⟩

end Library
end FormalLang
