import FormalLang.Proofs.Demo.Patterns

/-!
# Verdicts of the report

Words given on the command line are tested in the order in which they are given, by the
automaton of the grammar and by the deterministic form of the other automaton.  Each test is
one line of the report.  When no sample is asked for, the rest of the report is always the same.

Main results:

- Theorem `Text.newline_not_mem_quoted`: a quoted text has no line break.
- Theorem `Request.parse?_words`: how words on the command line are read.
- Theorem `respond_words`: the report of words without a sample tells for each word which of the
  two patterns it matches.
-/

namespace FormalLang

/-! ## Quoted texts -/

namespace Text

theorem exists_digit_of_mem_toDigits {n : Nat} {c : Char} (h : c ∈ Nat.toDigits 16 n) :
    ∃ d < 16, c = Nat.digitChar d := by
  induction n using Nat.strong_induction_on with
  | _ n ih =>
      rw [Nat.toDigits_eq_if (by decide)] at h
      split at h
      · rename_i hlt
        exact ⟨n, hlt, List.mem_singleton.mp h⟩
      · rename_i hle
        rcases List.mem_append.mp h with h | h
        · exact ih (n / 16) (by omega) h
        · exact ⟨n % 16, by omega, List.mem_singleton.mp h⟩

theorem newline_not_mem_codePoint (c : Char) : '\n' ∉ (codePoint c).toList := by
  intro h
  simp only [codePoint, String.toList_append, String.toList_ofList, List.mem_append] at h
  rcases h with (h | h) | h
  · simp at h
  · rcases exists_digit_of_mem_toDigits h with ⟨d, hd, hdigit⟩
    have hne : ∀ d < 16, '\n' ≠ Nat.digitChar d := by decide
    exact hne d hd hdigit
  · simp at h

/-- A line break has an escape of its own, and no escape has a line break in it. -/
theorem newline_not_mem_escape (c : Char) : '\n' ∉ (escape c).toList := by
  unfold escape
  split
  case h_7 hnewline _ _ _ =>
    split
    · exact newline_not_mem_codePoint c
    · simpa [eq_comm] using hnewline
  all_goals decide

/-- A quoted text stands on one line. -/
theorem newline_not_mem_quoted (s : String) : '\n' ∉ (quoted s).toList := by
  simp only [quoted, String.toList_append, String.toList_join, List.mem_append, List.mem_flatMap,
    List.mem_map, not_or]
  refine ⟨⟨by decide, ?_⟩, by decide⟩
  rintro ⟨_, ⟨c, -, rfl⟩, h⟩
  exact newline_not_mem_escape c h

end Text

namespace Demo

/-! ## Command line -/

/-- The argument for a word. -/
def wordArgument (word : String) : String :=
  "--word=" ++ word

theorem toList_wordArgument (word : String) :
    (wordArgument word).toList = "--word=".toList ++ word.toList :=
  String.toList_append

namespace Request

theorem ofArgument?_wordArgument (word : String) : ofArgument? (wordArgument word) = none := by
  have hlist := toList_wordArgument word
  have hversion : wordArgument word ≠ "--version" := by
    intro h
    simp [h] at hlist
  have hhelp : wordArgument word ≠ "--help" := by
    intro h
    simp [h] at hlist
  simp [ofArgument?, hlist, hversion, hhelp]

theorem attached?_wordArgument (word : String) :
    attached? (wordArgument word) = some ("--word", word) := by
  simp [attached?, toList_wordArgument]

theorem parseAfter?_wordArgument (o : Options) (word : String) (rest : List String) :
    parseAfter? o (wordArgument word :: rest) =
      parseAfter? { o with words := o.words ++ [word] } rest := by
  rw [parseAfter?.eq_def]
  simp only [ofArgument?_wordArgument, attached?_wordArgument]
  rfl

/-- Words are added to the options in order. -/
theorem parseAfter?_words (o : Options) (words rest : List String) :
    parseAfter? o (words.map wordArgument ++ rest) =
      parseAfter? { o with words := o.words ++ words } rest := by
  induction words generalizing o with
  | nil => simp
  | cons word words ih =>
      rw [List.map_cons, List.cons_append, parseAfter?_wordArgument, ih, List.append_assoc,
        List.singleton_append]

/-- Words in front of a count and behind it are all read. -/
theorem parse?_words (before after : List String) :
    parse? (before.map wordArgument ++ ["--count", "0"] ++ after.map wordArgument) =
      some (.report ⟨none, none, some 0, before ++ after⟩) := by
  rw [parse?, List.append_assoc, parseAfter?_words, ← List.append_nil (after.map wordArgument)]
  have hcount : ∀ words rest, parseAfter? { Options.empty with words := words }
      ("--count" :: "0" :: rest) = parseAfter? ⟨none, none, some 0, words⟩ rest := by
    intro words rest
    rfl
  rw [List.cons_append, List.cons_append, List.nil_append, hcount, parseAfter?_words]
  rfl

end Request

/-! ## Verdicts -/

/-- The line with the verdict on a word in the part about the grammar. -/
def grammarVerdict (word : String) : String :=
  "  " ++ Text.quoted word ++
    (if Text.withoutBlanks word.toList ∈ grammarPattern.matches' then " belongs"
      else " does not belong") ++
    " to the language"

/-- The line with the verdict on a word in the part about the automaton. -/
def automatonVerdict (word : String) : String :=
  "  " ++ Text.quoted word ++ " accepted: " ++
    (if Text.withoutBlanks word.toList ∈ automatonPattern.matches' then "true" else "false")

theorem verdictLine_grammar (word : String) :
    verdictLine Tour.grammar.automaton word = grammarVerdict word := by
  simp only [verdictLine, grammarVerdict, Tour.grammar_acceptsText_iff]

theorem acceptedLine_automaton (word : String) :
    acceptedLine Tour.automaton.determinize word = automatonVerdict word := by
  have haccepts := Tour.determinize_acceptsText_iff word
  rw [acceptedLine, automatonVerdict]
  split
  · rename_i hmatches
    rw [haccepts.mpr hmatches]
    rfl
  · rename_i hmatches
    rw [Bool.eq_false_iff.mpr fun h => hmatches (haccepts.mp h)]
    rfl

theorem newline_not_mem_grammarVerdict (word : String) :
    '\n' ∉ (grammarVerdict word).toList := by
  have hquoted := Text.newline_not_mem_quoted word
  unfold grammarVerdict
  split <;> simp [hquoted]

theorem newline_not_mem_automatonVerdict (word : String) :
    '\n' ∉ (automatonVerdict word).toList := by
  have hquoted := Text.newline_not_mem_quoted word
  unfold automatonVerdict
  split <;> simp [hquoted]

/-! ## Report -/

/-- The lines in front of the verdicts on the words, when no sample is asked for. -/
def grammarHeading : List String :=
  ["Grammar:", Tour.grammar.listing, "Classification: " ++ Tour.grammar.grammarClass.title,
    "Generated strings:", "", "Finite automaton:", Tour.grammar.automaton.table.text]

/-- The lines about the automaton in front of the verdicts on the words. -/
def automatonHeading : List String :=
  ["", "Automaton:", Tour.automaton.table.text, "Regular grammar:",
    Tour.automaton.toGrammar.listing,
    "Classification: " ++ Tour.automaton.toGrammar.grammarClass.title,
    "Finite automaton is non-deterministic", "Converted NFA to DFA:",
    Tour.automaton.determinize.table.text, Tour.automaton.determinize.listing]

/-- The words that are tested in the part about the grammar. -/
def testedWords (words : List String) : List String :=
  if words = [] then ["ab", "abc", "aabb", "baba"] else words

theorem verdictLines_tour (words : List String) :
    listingLines Tour.grammar ++ verdictLines Tour.grammar.automaton words =
      grammarHeading ++ (testedWords words).map grammarVerdict := by
  have hverdicts : verdictLine Tour.grammar.automaton = grammarVerdict :=
    funext verdictLine_grammar
  have htested : (if words.isEmpty then defaultWords else words) = testedWords words := by
    simp [testedWords, defaultWords]
  rw [verdictLines, hverdicts, htested, ← List.append_assoc]
  rfl

theorem automatonLines_tour (words : List String) :
    automatonLines Tour.automaton words = automatonHeading ++ words.map automatonVerdict := by
  have hnot : Tour.automaton.isDeterministic = false := by decide
  have hverdicts : acceptedLine Tour.automaton.determinize = automatonVerdict :=
    funext acceptedLine_automaton
  simp [automatonLines, hnot, hverdicts, automatonHeading]

/-- No word is drawn for a sample of none, whatever the source is. -/
theorem drawSample_none (g : Grammar) {options : Options} (source : Random.Source)
    (hcount : options.count = some 0) : drawSample g options source = .ok [] := by
  have hanswer : ∀ depth, source.answer (g.sample depth 0) = some (.ok []) := fun _ => rfl
  rw [drawSample, hcount, Option.getD_some, hanswer]
  rfl

/-- The lines of the comparison. -/
def comparisonLines : List String :=
  ["ab", "aab", "aba", "babab"].map (comparisonLine Tour.compared Tour.compared.determinize)

/-- What does not fail is passed on, whatever a fault would be turned into. -/
theorem ok_mapError_bind {ε ε' α β : Type} (f : ε → ε') (a : α) (k : α → Except ε' β) :
    ((Except.ok a : Except ε α).mapError f >>= k) = k a :=
  rfl

/-- A report without a sample does not fail. -/
theorem report_no_sample (options : Options) (source : Random.Source)
    (hcount : options.count = some 0) :
    report options source = .ok
      ⟨textOfLines (grammarHeading ++ (testedWords options.words).map grammarVerdict ++
        automatonHeading ++ options.words.map automatonVerdict), comparisonLines⟩ := by
  have hsample := drawSample_none Tour.grammar source hcount
  rw [report, Tour.tourGrammar_eq, ok_mapError_bind]
  simp only [hsample, Tour.toAutomaton_grammar, Tour.tourAutomaton_eq, Tour.comparedAutomaton_eq,
    ok_mapError_bind]
  rw [sampleLines, List.zipIdx_nil, List.map_nil, List.append_nil, verdictLines_tour,
    automatonLines_tour, ← List.append_assoc]
  rfl

/-! ## Command line with words -/

/-- When words are given and no sample is asked for, the report succeeds.  Besides headings that
are always the same it has two lines for each word, in the order of the words: one that tells
whether the word without its white space matches the pattern of the grammar, and one for the
pattern of the automaton.  Without words the first part tests four words of its own. -/
theorem respond_words (seeded : UInt64 → Random.Source) (entropy : Random.Source)
    (before after : List String) :
    respond seeded entropy (before.map wordArgument ++ ["--count", "0"] ++ after.map wordArgument) =
        ⟨0, textOfLines (grammarHeading ++ (testedWords (before ++ after)).map grammarVerdict ++
          automatonHeading ++ (before ++ after).map automatonVerdict), comparisonLines, none⟩ ∧
      ∀ word, '\n' ∉ (grammarVerdict word).toList ∧ '\n' ∉ (automatonVerdict word).toList := by
  refine ⟨?_, fun word =>
    ⟨newline_not_mem_grammarVerdict word, newline_not_mem_automatonVerdict word⟩⟩
  simp only [respond, Request.parse?_words]
  rw [report_no_sample _ _ rfl]

example : grammarVerdict "aab ba" = "  \"aab ba\" does not belong to the language" := by decide

example : automatonVerdict "ab ca\ta" = "  \"ab ca\\ta\" accepted: true" := by decide

end Demo
end FormalLang
