import SpanForest.Alphabet
import SpanForest.Basic
import SpanForest.BitSet
import SpanForest.Compiled
import SpanForest.Decimal.FloatText
import SpanForest.Decimal.Shortest
import SpanForest.Document
import SpanForest.Features
import SpanForest.Fixpoint
import SpanForest.Grammar.Basic
import SpanForest.Grammar.Builder
import SpanForest.Grammar.Error
import SpanForest.Grammar.First
import SpanForest.Grammar.Follow
import SpanForest.Grammar.Prefixes
import SpanForest.Grammar.Viability
import SpanForest.Host
import SpanForest.Host.Scripted
import SpanForest.Lr.Automaton
import SpanForest.Lr.Item
import SpanForest.Lr.PackedTable
import SpanForest.Lr.Table
import SpanForest.Parser.Greedy
import SpanForest.Parser.Input
import SpanForest.Parser.State
import SpanForest.Parser.Step
import SpanForest.Pattern.Basic
import SpanForest.Pattern.Bracket
import SpanForest.Pattern.CharSet
import SpanForest.Pattern.Escape
import SpanForest.Pattern.Property
import SpanForest.Pattern.Reader
import SpanForest.Pattern.Regex
import SpanForest.Predicate.Basic
import SpanForest.Predicate.Cache
import SpanForest.Predicate.Evaluator
import SpanForest.Predicate.Network
import SpanForest.Proofs.Alphabet
import SpanForest.Proofs.BitSet
import SpanForest.Proofs.BitSet.Iterating
import SpanForest.Proofs.BitSet.Refining
import SpanForest.Proofs.Effect
import SpanForest.Proofs.Grammar.Declarations
import SpanForest.Proofs.Grammar.Derivation
import SpanForest.Proofs.Grammar.First
import SpanForest.Proofs.Grammar.FirstFollow
import SpanForest.Proofs.Grammar.Follow
import SpanForest.Proofs.Grammar.Prefixes
import SpanForest.Proofs.Grammar.Viability
import SpanForest.Proofs.Grammar.Walk
import SpanForest.Proofs.Grammar.WellFormed
import SpanForest.Proofs.Lr.Automaton
import SpanForest.Proofs.Lr.Closure
import SpanForest.Proofs.Lr.CompiledTable
import SpanForest.Proofs.Lr.PackedTable
import SpanForest.Proofs.Lr.Packing
import SpanForest.Proofs.Lr.Starting
import SpanForest.Proofs.Lr.Table
import SpanForest.Proofs.Lr.Uniqueness
import SpanForest.Proofs.Lr.Validity
import SpanForest.Proofs.Parser.Accounting
import SpanForest.Proofs.Parser.Agreeing
import SpanForest.Proofs.Parser.Aside
import SpanForest.Proofs.Parser.Asking
import SpanForest.Proofs.Parser.Attaching
import SpanForest.Proofs.Parser.Candidates
import SpanForest.Proofs.Parser.Collecting
import SpanForest.Proofs.Parser.Completed
import SpanForest.Proofs.Parser.Completeness
import SpanForest.Proofs.Parser.Covering
import SpanForest.Proofs.Parser.Derivable
import SpanForest.Proofs.Parser.Dropping
import SpanForest.Proofs.Parser.Earliest
import SpanForest.Proofs.Parser.EchoedSteps
import SpanForest.Proofs.Parser.Echoing
import SpanForest.Proofs.Parser.Extents
import SpanForest.Proofs.Parser.Filtering
import SpanForest.Proofs.Parser.Forest
import SpanForest.Proofs.Parser.Greedy
import SpanForest.Proofs.Parser.Idling
import SpanForest.Proofs.Parser.Ignoring
import SpanForest.Proofs.Parser.Inheriting
import SpanForest.Proofs.Parser.Input
import SpanForest.Proofs.Parser.Lawful
import SpanForest.Proofs.Parser.Leading
import SpanForest.Proofs.Parser.Learning
import SpanForest.Proofs.Parser.Lockstep
import SpanForest.Proofs.Parser.Mirroring
import SpanForest.Proofs.Parser.Moving
import SpanForest.Proofs.Parser.Packing
import SpanForest.Proofs.Parser.Partition
import SpanForest.Proofs.Parser.Placing
import SpanForest.Proofs.Parser.Reachable
import SpanForest.Proofs.Parser.Reading
import SpanForest.Proofs.Parser.Recalling
import SpanForest.Proofs.Parser.Rejecting
import SpanForest.Proofs.Parser.Renumbering
import SpanForest.Proofs.Parser.Resuming
import SpanForest.Proofs.Parser.Reuse
import SpanForest.Proofs.Parser.Settings
import SpanForest.Proofs.Parser.Settling
import SpanForest.Proofs.Parser.Sound
import SpanForest.Proofs.Parser.Start
import SpanForest.Proofs.Parser.Stepping
import SpanForest.Proofs.Parser.Structure
import SpanForest.Proofs.Parser.Support
import SpanForest.Proofs.Parser.Sweeping
import SpanForest.Proofs.Parser.Synthesizing
import SpanForest.Proofs.Parser.Termination
import SpanForest.Proofs.Parser.Tracing
import SpanForest.Proofs.Parser.Unaware
import SpanForest.Proofs.Parser.Waiting
import SpanForest.Proofs.Parser.Watching
import SpanForest.Proofs.Parser.Winning
import SpanForest.Proofs.Parser.Working
import SpanForest.Proofs.Predicate.Acyclic
import SpanForest.Proofs.Predicate.Automaton
import SpanForest.Proofs.Predicate.Cache
import SpanForest.Proofs.Predicate.Evaluator
import SpanForest.Proofs.Predicate.Knowledge
import SpanForest.Proofs.Predicate.Nesting
import SpanForest.Proofs.Predicate.Network
import SpanForest.Proofs.Predicate.Plain
import SpanForest.Proofs.Predicate.Remembering
import SpanForest.Proofs.Predicate.Retaining
import SpanForest.Proofs.Predicate.Truth
import SpanForest.Proofs.Simulation
import SpanForest.Proofs.Span
import SpanForest.Proofs.Stack.Basic
import SpanForest.Proofs.Stack.Building
import SpanForest.Proofs.Stack.Consistent
import SpanForest.Proofs.Stack.Growth
import SpanForest.Proofs.Stack.Operations
import SpanForest.Proofs.Stack.Packing
import SpanForest.Proofs.Stack.Paths
import SpanForest.Proofs.Stack.Renumbering
import SpanForest.Proofs.Stack.Stripping
import SpanForest.Proofs.Stack.Support
import SpanForest.Proofs.Stack.Walking
import SpanForest.Sorting
import SpanForest.Span
import SpanForest.Stack.Basic
import SpanForest.Stack.Paths
import SpanForest.Stack.Sweep
import SpanForest.Text.CaseMapping
import SpanForest.Text.Category
import SpanForest.Text.CodePoints
import SpanForest.Text.Lowercase
import SpanForest.Text.Property
import SpanForest.Text.Quoted
import SpanForest.Text.Script
import SpanForest.Text.Slice
import SpanForest.Value
