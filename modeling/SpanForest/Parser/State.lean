import Std.Data.TreeMap
import Std.Data.TreeSet
import SpanForest.Parser.Greedy
import SpanForest.Parser.Input
import SpanForest.Predicate.Evaluator

namespace SpanForest

/-!
# The state of a parse

A parser holds the spans of one document, the stack over its words, the work
left at the current word, and what was learned so far: truth values of
predicates and outcomes of reductions.
-/

/-- Settings of a parser. -/
structure ParserConfig where
  /-- Symbol nodes that reductions may create at one word. -/
  maxReduced : Nat := 4096
  /-- Whether every word ends with a greedy pass. -/
  greedy : Bool := true
  /-- Whether parses start only at viable words. -/
  filtered : Bool := true
  deriving Repr, DecidableEq, Inhabited

/-- Counts of reductions by rule. -/
structure ReductionStats where
  attempts : Array Nat
  successes : Array Nat
  deriving Repr, DecidableEq, Inhabited

namespace ReductionStats

/-- No reductions of any rule. -/
def zero (numRules : Nat) : ReductionStats :=
  ⟨Array.replicate numRules 0, Array.replicate numRules 0⟩

/-- Sums of the counts of two parts of a parse. -/
def add (left right : ReductionStats) : ReductionStats :=
  ⟨left.attempts.zipWith (· + ·) right.attempts,
    left.successes.zipWith (· + ·) right.successes⟩

/-- Count an attempt to reduce a rule. -/
def countAttempt (stats : ReductionStats) (rule : RuleId) : ReductionStats :=
  { stats with attempts := stats.attempts.modify rule (· + 1) }

/-- Count a reduction that produced a span. -/
def countSuccess (stats : ReductionStats) (rule : RuleId) : ReductionStats :=
  { stats with successes := stats.successes.modify rule (· + 1) }

/-- Attempts over all rules. -/
def totalAttempts (stats : ReductionStats) : Nat :=
  stats.attempts.foldl (· + ·) 0

/-- Successes over all rules. -/
def totalSuccesses (stats : ReductionStats) : Nat :=
  stats.successes.foldl (· + ·) 0

end ReductionStats

/-- A reduction to be tried. -/
structure Reduction where
  rule : RuleId
  /-- The node of the last right-hand side symbol. -/
  anchor : SymbolNodeId
  /-- If given, the first step down from the anchor leads through this node. -/
  via : Option StateNodeId
  deriving Repr, DecidableEq, Inhabited

namespace Reduction

/-- The parts of a reduction, in the order in which they are compared. -/
def parts (reduction : Reduction) : RuleId × SymbolNodeId × Option StateNodeId :=
  (reduction.rule, reduction.anchor, reduction.via)

/-- Order of the parts of reductions. -/
abbrev partsOrd : Ord (RuleId × SymbolNodeId × Option StateNodeId) :=
  @lexOrd _ _ _ lexOrd

/-- Reductions are ordered by rule, then by anchor, then by the node they lead through. -/
instance : Ord Reduction :=
  ⟨@compareOn _ _ partsOrd parts⟩

instance : Std.TransOrd Reduction :=
  inferInstanceAs (Std.TransCmp (@compareOn _ _ partsOrd parts))

instance : Std.LawfulEqOrd Reduction where
  eq_of_compare {left right} same := by
    have lawful : Std.LawfulEqCmp partsOrd.compare := inferInstance
    have sameParts : left.parts = right.parts := lawful.eq_of_compare same
    cases left
    cases right
    simpa [parts] using sameParts

end Reduction

/-- A span to be read on top of a stack node. -/
structure Shift where
  origin : StateNodeId
  span : SpanId
  /-- The state that is reached. -/
  target : StateId
  deriving Repr, DecidableEq, Inhabited

/-- Why a parse stopped. -/
inductive ParseError where
  | notStarted
  /-- The action of a rule ended in a fatal error. -/
  | action (rule : RuleId) (lhs : SymbolId) (source : ActionError)
  /-- A predicate on a span ended in a fatal error. -/
  | predicate (span : SpanId) (source : ActionError)
  deriving Repr, DecidableEq

namespace ParseError

/-- The message that describes the error. -/
def message : ParseError → String
  | .notStarted =>
      "parser has no input; call \x60start\x60 first"
  | .action rule lhs _ =>
      "action for rule " ++ toString rule ++ " (lhs " ++ toString lhs ++
        ") failed"
  | .predicate span _ =>
      "predicate function failed on span " ++ toString span

/-- The error of the host behind it. -/
def source? : ParseError → Option ActionError
  | .notStarted => none
  | .action _ _ source => some source
  | .predicate _ source => some source

end ParseError

/-- A parse of one document. -/
structure Parser where
  compiled : CompiledGrammar
  config : ParserConfig
  document : Document
  spans : SpanStore
  /-- All input spans in input order. -/
  input : List SpanId
  words : List InputWord
  viable : BitSet
  stack : GraphStack
  evaluator : Evaluator
  /-- Synthesized spans by base span and symbol; none where the predicate fails. -/
  synthesized : Std.TreeMap (SpanId × SymbolId) (Option SpanId) lexOrd.compare
  /-- Spans ahead at the current word. -/
  candidates : List SpanId
  /-- State nodes that wait to act, the next one first. -/
  active : List StateNodeId
  /-- Reductions that wait to be tried, the next one first. -/
  reductions : List Reduction
  /-- Spans to be read at the end of the word, in order. -/
  shifts : List Shift
  /-- Reductions that were queued at the current word. -/
  performed : Std.TreeSet Reduction
  /-- Spans produced by rules from spans; none where the host declined. -/
  outcomes : Std.TreeMap (RuleId × List SpanId) (Option SpanId) lexOrd.compare
  /-- Nodes of the start symbol, in the order of their creation. -/
  roots : List SymbolNodeId
  /-- The next word to be processed. -/
  position : Nat
  started : Bool
  /-- Whether the current word reached its limit of nodes. -/
  capped : Bool
  current : ReductionStats
  /-- Counts of the processed words. -/
  wordStats : List ReductionStats
  totals : ReductionStats

namespace Parser

/-- A parser without a document. -/
def new (compiled : CompiledGrammar) (config : ParserConfig) : Parser where
  compiled := compiled
  config := config
  document := Document.empty
  spans := SpanStore.empty
  input := []
  words := []
  viable := BitSet.empty
  stack := GraphStack.new 1 startState
  evaluator := Evaluator.ofNetwork compiled.network
  synthesized := ∅
  candidates := []
  active := []
  reductions := []
  shifts := []
  performed := ∅
  outcomes := ∅
  roots := []
  position := 0
  started := false
  capped := false
  current := ReductionStats.zero compiled.grammar.rules.size
  wordStats := []
  totals := ReductionStats.zero compiled.grammar.rules.size

/-- Forget the document and everything learned from it. -/
def clear (parser : Parser) : Parser :=
  { parser with
    document := Document.empty
    spans := SpanStore.empty
    input := []
    words := []
    viable := BitSet.empty
    stack := GraphStack.new 1 startState
    evaluator := Evaluator.ofNetwork parser.compiled.network
    synthesized := ∅
    candidates := []
    active := []
    reductions := []
    shifts := []
    performed := ∅
    outcomes := ∅
    roots := []
    position := 0
    started := false
    capped := false
    current := ReductionStats.zero parser.compiled.grammar.rules.size
    wordStats := []
    totals := ReductionStats.zero parser.compiled.grammar.rules.size }

/-- Load a document and its input spans. -/
def start
    (parser : Parser)
    (document : Document)
    (input : List InputSpan) :
    Parser :=
  let compiled := parser.compiled
  let spans := bindInput compiled.grammar SpanStore.empty input
  let ids := sortInput spans (List.range spans.size)
  let words := wordsOf spans ids
  { parser.clear with
    document := document
    spans := spans
    input := ids
    words := words
    viable := viableWords compiled parser.config.filtered spans words
    stack := GraphStack.new (words.length + 1) startState
    started := true }

/-- Number of words, the end of the input not counted. -/
def numWords (parser : Parser) : Nat :=
  parser.words.length

/-- Whether the end of the input was processed. -/
def isFinished (parser : Parser) : Bool :=
  parser.numWords < parser.position

/-- The parse as hosts and predicates see it. -/
def context (parser : Parser) : ParseContext :=
  ⟨parser.document, parser.spans, parser.input⟩

/-- The span of a symbol node. -/
def spanOf (parser : Parser) (node : SymbolNodeId) : Span :=
  parser.spans.get (parser.stack.symbolNode node).span

/-- The derivations of a symbol node; input spans have none. -/
def derivations (parser : Parser) (node : SymbolNodeId) : List Derivation :=
  (parser.stack.symbolNode node).derivations

/-- The node of the end of the input. -/
def isAtEnd (parser : Parser) (word : Nat) : Bool :=
  word == parser.numWords

end Parser

end SpanForest
