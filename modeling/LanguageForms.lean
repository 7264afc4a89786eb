import LanguageForms.Automaton.Path
import LanguageForms.Automaton.Declared
import LanguageForms.Automaton.Reachable
import LanguageForms.Conversion.Input
import LanguageForms.Generalized.Path
import LanguageForms.Grammar.Derivation
import LanguageForms.Grammar.Written
import LanguageForms.Main
import LanguageForms.Pushdown.RuleRun
import LanguageForms.Pushdown.Run
import LanguageForms.Pushdown.Stacked
import LanguageForms.Regex.Language
import LanguageForms.Regex.Nodes
import LanguageForms.Regex.Phrase
import LanguageForms.Regex.Plain
import LanguageForms.Regex.Reduced
import LanguageForms.Text.Brackets
import LanguageForms.Text.Sets
import LanguageForms.Trace.Composition
import LanguageForms.Words
import LanguageForms.Proofs.Pushdown.Saturation
import LanguageForms.Proofs.Pushdown.Summaries
import LanguageForms.Proofs.Automaton.Run
import LanguageForms.Proofs.Pushdown.Acceptance
import LanguageForms.Proofs.Regex.Simplify
import LanguageForms.Proofs.Automaton.FreshName
import LanguageForms.Proofs.Generalized.Elimination
import LanguageForms.Proofs.Generalized.Language
import LanguageForms.Proofs.Generalized.Represents
import LanguageForms.Proofs.Automaton.Discovery
import LanguageForms.Proofs.Automaton.Determinisation
import LanguageForms.Proofs.Automaton.Fragment
import LanguageForms.Proofs.Regex.Automaton
import LanguageForms.Proofs.Grammar.Leftmost
import LanguageForms.Proofs.Grammar.Pushdown
import LanguageForms.Proofs.Regex.Reading
import LanguageForms.Proofs.Regex.Printing
import LanguageForms.Proofs.Generalized.Steps
import LanguageForms.Proofs.Trace
import LanguageForms.Proofs.Automaton.Narration
import LanguageForms.Proofs.Automaton.Random
import LanguageForms.Proofs.Regex.Steps
import LanguageForms.Proofs.Automaton.Obtained
import LanguageForms.Proofs.Automaton.Ambiguity
import LanguageForms.Proofs.Automaton.Description
import LanguageForms.Proofs.Conversion.Outcome
import LanguageForms.Proofs.Conversion.Documentation
import LanguageForms.Proofs.Conversion.Refusal
import LanguageForms.Proofs.Words
import LanguageForms.Proofs.Automaton.Breadth
import LanguageForms.Proofs.Automaton.Powerset
import LanguageForms.Proofs.Automaton.Replay
import LanguageForms.Proofs.Automaton.Trimming
import LanguageForms.Proofs.Conversion.RoundTrip
import LanguageForms.Proofs.Text.Brackets
import LanguageForms.Proofs.Regex.Faults
import LanguageForms.Proofs.Regex.Parts
import LanguageForms.Proofs.Automaton.Tidy
import LanguageForms.Proofs.Regex.Shape
import LanguageForms.Proofs.Text.Split
import LanguageForms.Proofs.Grammar.Grouping
import LanguageForms.Proofs.Grammar.Rules
import LanguageForms.Proofs.Grammar.RoundTrip
import LanguageForms.Automaton.Search
import LanguageForms.Words.Enumeration
import LanguageForms.Proofs.Regex.Reduced
import LanguageForms.Proofs.Generalized.Labels
import LanguageForms.Proofs.Automaton.Closure
import LanguageForms.Proofs.Words.Places
import LanguageForms.Proofs.Words.Enumeration
import LanguageForms.Proofs.Automaton.Sprouting
import LanguageForms.Proofs.Grammar.Arrows
import LanguageForms.Proofs.Regex.Parentheses
import LanguageForms.Proofs.Pushdown.Stacked
import LanguageForms.Regex.Descent
import LanguageForms.Proofs.Regex.Descent
import LanguageForms.Proofs.Regex.Orderly
import LanguageForms.Proofs.Generalized.Bypass
import LanguageForms.Proofs.Trace.Composition
