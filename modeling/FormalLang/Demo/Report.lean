import FormalLang.Automaton.Blueprint
import FormalLang.Automaton.Printer
import FormalLang.Automaton.Subset
import FormalLang.Correspondence.AutomatonOfGrammar
import FormalLang.Correspondence.GrammarOfAutomaton
import FormalLang.Demo.Options
import FormalLang.Grammar.Sampling
import FormalLang.Grammar.Printer
import FormalLang.Grammar.Reader
import FormalLang.Random.Source

/-!
# Report of the demonstration

A tour of the library: a regular grammar is listed, sampled and converted to an
automaton that tests words; an automaton that branches is tabulated, converted
to a grammar and determinized; and the two forms of a third automaton are
compared on some words.
-/

namespace FormalLang.Demo

/-- The reasons for which a report is not finished. -/
inductive Fault
  | grammar (e : GrammarError)
  | conversion (e : NotRegular)
  | automaton (e : AutomatonError)
  /-- There is no room for the sample. -/
  | noRoom (e : CapacityOverflow)
  /-- The sample needs more random words than can be supplied. -/
  | noSample

/-- The message for a report that is not finished. -/
def Fault.message : Fault → String
  | .grammar e => e.message
  | .conversion e => e.message
  | .automaton e => e.message
  | .noRoom e => e.message
  | .noSample => "not enough random words"

/-- The exit code for a report that is not finished. -/
def Fault.exitCode : Fault → Nat
  | .noRoom _ => 101
  | _ => 1

/-- A report that is not finished: the lines up to the fault, and the fault. -/
structure Unfinished where
  lines : List String
  fault : Fault

/-- The text of a report, and the lines of its comparison. -/
structure Report where
  text : String
  comparison : List String

/-! ## Grammar -/

/-- The grammar of the tour. -/
def tourGrammar : Except GrammarError Grammar :=
  Grammar.read ["S", "A", "B", "C"] ["a", "b"] "S"
    ["S → aA", "A → bS | aB", "B → bC | aB", "C → aA | b"]

/-- The words tested when none are given. -/
def defaultWords : List String :=
  ["ab", "abc", "aabb", "baba"]

/-- The line with the verdict of the grammar's automaton on a word. -/
def verdictLine (A : Automaton) (word : String) : String :=
  "  " ++ Text.quoted word ++ (if A.acceptsText word then " belongs" else " does not belong") ++
    " to the language"

/-- The numbered lines of a sample. -/
def sampleLines (sample : List Generated) : List String :=
  sample.zipIdx.map fun (generated, i) =>
    "  " ++ toString (i + 1) ++ ": " ++ String.join (generated.word.map Symbol.text)

/-- The lines about the grammar in front of its sample. -/
def listingLines (g : Grammar) : List String :=
  ["Grammar:", g.listing, "Classification: " ++ g.grammarClass.title, "Generated strings:"]

/-- The lines about the automaton of the grammar. -/
def verdictLines (A : Automaton) (words : List String) : List String :=
  ["", "Finite automaton:", A.table.text] ++
    (if words.isEmpty then defaultWords else words).map (verdictLine A)

/-! ## Automaton -/

/-- The automaton of the tour. -/
def tourAutomaton : Except AutomatonError Automaton :=
  (Blueprint.empty.enterAll
    [.state "q0", .state "q1", .state "q2", .state "q3",
      .symbol "a", .symbol "b", .symbol "c",
      .start "q0", .accepting "q3",
      .transition "q0" "a" "q1", .transition "q1" "b" "q2", .transition "q2" "c" "q0",
      .transition "q1" "a" "q3", .transition "q0" "b" "q2", .transition "q2" "c" "q3"]).toAutomaton

/-- The line with the answer of an automaton on a word. -/
def acceptedLine (A : Automaton) (word : String) : String :=
  "  " ++ Text.quoted word ++ " accepted: " ++ toString (A.acceptsText word)

/-- The lines about an automaton, its grammar and its deterministic form. -/
def automatonLines (A : Automaton) (words : List String) : List String :=
  let deterministic := A.isDeterministic
  let D := if deterministic then A else A.determinize
  ["", "Automaton:", A.table.text, "Regular grammar:", A.toGrammar.listing,
      "Classification: " ++ A.toGrammar.grammarClass.title,
      "Finite automaton is " ++ if deterministic then "deterministic" else "non-deterministic"] ++
    (if deterministic then []
      else ["Converted NFA to DFA:", D.table.text, D.listing]) ++
    words.map (acceptedLine D)

/-! ## Comparison -/

/-- The automaton that is compared with its deterministic form. -/
def comparedAutomaton : Except AutomatonError Automaton :=
  (Blueprint.ofLists ["q0", "q1", "q2"] ["a", "b"] "q0" ["q2"]
    [("q0", "a", ["q0", "q1"]), ("q0", "b", ["q0"]), ("q1", "b", ["q2"])]).toAutomaton

/-- The line that compares two automata on a word. -/
def comparisonLine (A D : Automaton) (word : String) : String :=
  Text.quoted word ++ ": nfa " ++ toString (A.acceptsText word) ++ " / dfa " ++
    toString (D.acceptsText word)

/-! ## Report -/

/-- The lines of a report, each with its end. -/
def textOfLines (lines : List String) : String :=
  String.join (lines.map fun line => line ++ "\n")

/-- The sample for some options, drawn from a source of random words. -/
def drawSample (g : Grammar) (options : Options) (source : Random.Source) :
    Except Fault (List Generated) :=
  match source.answer
      (g.sample (options.maxDepth.getD Grammar.defaultDepth) (options.count.getD 5)) with
  | some sample => sample.mapError .noRoom
  | none => .error .noSample

/-- The report for some options, with a source of random words.  Its lines are
written one after the other, so a fault leaves those before it. -/
def report (options : Options) (source : Random.Source) : Except Unfinished Report := do
  let g ← tourGrammar.mapError fun e => ⟨[], .grammar e⟩
  let lines := listingLines g
  let sample ← (drawSample g options source).mapError fun fault => ⟨lines, fault⟩
  let lines := lines ++ sampleLines sample
  let A ← g.toAutomaton.mapError fun e => ⟨lines, .conversion e⟩
  let lines := lines ++ verdictLines A options.words
  let B ← tourAutomaton.mapError fun e => ⟨lines, .automaton e⟩
  let lines := lines ++ automatonLines B options.words
  let C ← comparedAutomaton.mapError fun e => ⟨lines, .automaton e⟩
  let D := C.determinize
  return {
    text := textOfLines lines
    comparison := ["ab", "aab", "aba", "babab"].map (comparisonLine C D) }

/-! ## Command line -/

/-- The line shown for a command line that is not understood. -/
def usage : String :=
  "Usage: labs [OPTIONS]"

/-- The line that gives the version. -/
def versionLine : String :=
  "labs 0.0.0"

/-- The lines that explain the options. -/
def helpLines : List String :=
  ["Replays the regular grammar and finite automaton labs", "", usage, "", "Options:",
    "      --seed <SEED>            Seed for string generation; random when omitted",
    "      --max-depth <MAX_DEPTH>  Maximum nesting of non-terminal expansions [default: 32]",
    "      --count <COUNT>          Number of strings to generate [default: 5]",
    "      --word <WORDS>           Words to test against the automata (repeatable)",
    "  -h, --help                   Print help",
    "  -V, --version                Print version"]

/-- What a command line is answered with: an exit code, the output, the lines
of the comparison, and a complaint if something is wrong. -/
structure Response where
  exitCode : Nat
  output : String
  comparison : List String
  complaint : Option String
deriving DecidableEq

/-- The answer to a command line.  The sample is drawn from the source for the
seed that is given, or else from `entropy`. -/
def respond (seeded : UInt64 → Random.Source) (entropy : Random.Source)
    (arguments : List String) : Response :=
  match Request.parse? arguments with
  | none => ⟨2, "", [], some usage⟩
  | some .version => ⟨0, textOfLines [versionLine], [], none⟩
  | some .help => ⟨0, textOfLines helpLines, [], none⟩
  | some (.report options) =>
      let source :=
        match options.seed with
        | some seed => seeded seed.toUInt64
        | none => entropy
      match report options source with
      | .ok r => ⟨0, r.text, r.comparison, none⟩
      | .error e => ⟨e.fault.exitCode, textOfLines e.lines, [], some e.fault.message⟩

end FormalLang.Demo
