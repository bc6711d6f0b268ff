import FormalLang.Automaton.Acceptance
import FormalLang.Automaton.Blueprint
import FormalLang.Automaton.Printer
import FormalLang.Automaton.Subset
import FormalLang.Correspondence.AutomatonOfGrammar
import FormalLang.Correspondence.GrammarOfAutomaton
import FormalLang.Demo.Report
import FormalLang.Grammar.Sampling
import FormalLang.Grammar.Membership
import FormalLang.Grammar.Printer
import FormalLang.Grammar.Reader
import FormalLang.Main
import FormalLang.Random.Source
import FormalLang.Proofs.Automaton.Acceptance
import FormalLang.Proofs.Search.Reachability
import FormalLang.Proofs.Automaton.Determinization
import FormalLang.Proofs.Grammar.Derivation
import FormalLang.Proofs.Grammar.Membership
import FormalLang.Proofs.Correspondence.AutomatonOfGrammar
import FormalLang.Proofs.Correspondence.GrammarOfAutomaton
import FormalLang.Proofs.Split.Counting
import FormalLang.Proofs.Automaton.Paths
import FormalLang.Proofs.Recognizer.Texts
import FormalLang.Proofs.Checks.FirstFault
import FormalLang.Proofs.Automaton.Construction
import FormalLang.Proofs.Correspondence.Chains
import FormalLang.Proofs.Correspondence.Refusals
import FormalLang.Proofs.Correspondence.GrammarRoundTrip
import FormalLang.Proofs.Correspondence.AutomatonRoundTrip
import FormalLang.Proofs.Grammar.Rebuilding
import FormalLang.Proofs.Grammar.Reordering
import FormalLang.Proofs.Grammar.Printing
import FormalLang.Proofs.Grammar.Generation
import FormalLang.Proofs.Access.Slices
import FormalLang.Proofs.Access.Splitting
import FormalLang.Proofs.Access.Searching
import FormalLang.Proofs.Access.Guarded
import FormalLang.Proofs.Access.Reading
import FormalLang.Proofs.Access.Building
import FormalLang.Proofs.Access.Converting
import FormalLang.Proofs.Access.Determinizing
import FormalLang.Proofs.Access.Picking
import FormalLang.Proofs.Access.Sessions
import FormalLang.Proofs.Automaton.Renumbering
import FormalLang.Proofs.Automaton.Validation
import FormalLang.Proofs.Automaton.Entries
import FormalLang.Proofs.Automaton.Reordering
import FormalLang.Proofs.Grammar.Classes
import FormalLang.Proofs.Search.Comparison
import FormalLang.Proofs.Automaton.ReachedSets
import FormalLang.Proofs.Automaton.Redetermination
import FormalLang.Proofs.Grammar.DerivationTrees
import FormalLang.Proofs.Grammar.RuleParsing
import FormalLang.Proofs.Grammar.BlankSides
import FormalLang.Proofs.Grammar.Inclusion
import FormalLang.Proofs.Split.Spacing
import FormalLang.Proofs.Recognizer.Spacing
import FormalLang.Proofs.Correspondence.Determinism
import FormalLang.Proofs.Grammar.Streams
import FormalLang.Proofs.Grammar.DepthBound
import FormalLang.Proofs.Automaton.Listing
import FormalLang.Proofs.Correspondence.FreshNames
import FormalLang.Proofs.Search.Endings
import FormalLang.Proofs.Automaton.Reports
import FormalLang.Proofs.Recognizer.StateLanguages
import FormalLang.Proofs.Demo.Patterns
import FormalLang.Proofs.Demo.Verdicts
import FormalLang.Proofs.Search.WordOrder
import FormalLang.Proofs.Automaton.WordOrder
import FormalLang.Proofs.Automaton.SubsetNames
import FormalLang.Proofs.Random.Windows
import FormalLang.Proofs.Grammar.UniformPicks
