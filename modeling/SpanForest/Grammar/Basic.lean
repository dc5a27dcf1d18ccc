import SpanForest.BitSet
import SpanForest.Predicate.Basic

namespace SpanForest

/-!
# Grammars over span types

A grammar's terminals are types of input spans, or are synthesized from input
spans on which a predicate holds. The user's rules are numbered from zero; the
root rule `S' → start $` has the number behind the last of them.
-/

/-- A symbol's name and kind. -/
structure SymbolInfo where
  name : String
  nonterminal : Bool
  deriving Repr, DecidableEq, Inhabited

/-- One position of a right-hand side. -/
structure RhsSymbol where
  symbol : SymbolId
  /-- Must hold on the span at this position for the rule to apply. -/
  predicate : Option PredicateId
  /-- Name by which actions refer to the position. -/
  label : Option String
  deriving Repr, DecidableEq, Inhabited

/-- A position without predicate and label. -/
def RhsSymbol.plain (symbol : SymbolId) : RhsSymbol :=
  ⟨symbol, none, none⟩

/-- A production. -/
structure Rule where
  id : RuleId
  lhs : SymbolId
  rhs : List RhsSymbol
  /-- Position of the child from which a produced span inherits. -/
  rootIndex : Nat
  weight : Float
  greedy : Bool
  deriving Repr, Inhabited

namespace Rule

/-- Number of right-hand side positions. -/
def length (rule : Rule) : Nat :=
  rule.rhs.length

/-- The symbols of the right-hand side. -/
def symbols (rule : Rule) : List SymbolId :=
  rule.rhs.map (·.symbol)

/-- Number of stack nodes on the path of one reduction, both ends included. -/
def reductionPathSize (rule : Rule) : Nat :=
  2 * rule.length + 1

/-- Whether the right-hand side is the empty string alone. -/
def isEpsilon (rule : Rule) : Bool :=
  rule.symbols == [emptyString]

end Rule

/-- A terminal present wherever a span of type `base` satisfies `predicate`. -/
structure Synthesized where
  symbol : SymbolId
  base : SymbolId
  predicate : PredicateId
  deriving Repr, DecidableEq, Inhabited

/-- The number of the first symbol called `name`. -/
def findSymbol? (symbols : Array SymbolInfo) (name : String) : Option SymbolId :=
  symbols.findIdx? (·.name == name)

/-- A grammar that was checked. -/
structure Grammar where
  symbols : Array SymbolInfo
  /-- The user's rules, by number. -/
  rules : Array Rule
  start : SymbolId
  predicates : PredicateAlphabet
  synthesized : List Synthesized
  outputs : BitSet
  deriving Inhabited

namespace Grammar

/-- Number of symbols, the reserved ones included. -/
def numSymbols (grammar : Grammar) : Nat :=
  grammar.symbols.size

/-- The name of a symbol. -/
def name (grammar : Grammar) (symbol : SymbolId) : String :=
  (grammar.symbols.getD symbol default).name

/-- The symbol called `name`. -/
def lookup (grammar : Grammar) (name : String) : Option SymbolId :=
  findSymbol? grammar.symbols name

/-- Whether a symbol is a nonterminal. -/
def isNonterminal (grammar : Grammar) (symbol : SymbolId) : Bool :=
  (grammar.symbols.getD symbol default).nonterminal

/-- The symbols in the order of their numbers. -/
def symbolIds (grammar : Grammar) : List SymbolId :=
  List.range grammar.numSymbols

/-- The rule `S' → start $`. -/
def rootRule (grammar : Grammar) : Rule where
  id := grammar.rules.size
  lhs := rootSymbol
  rhs := [.plain grammar.start, .plain endOfInput]
  rootIndex := 0
  weight := 1.0
  greedy := false

/-- The rule with number `id`, the root rule beyond the user's rules. -/
def rule (grammar : Grammar) (id : RuleId) : Rule :=
  grammar.rules.getD id grammar.rootRule

/-- The user's rules and then the root rule. -/
def allRules (grammar : Grammar) : List Rule :=
  grammar.rules.toList ++ [grammar.rootRule]

/-- The rules with `lhs` on the left-hand side, in the order of their numbers. -/
def rulesFor (grammar : Grammar) (lhs : SymbolId) : List Rule :=
  grammar.allRules.filter (·.lhs == lhs)

/-- Whether spans of a symbol are meant to be annotations of the result. -/
def isOutput (grammar : Grammar) (symbol : SymbolId) : Bool :=
  grammar.outputs.contains symbol

/-- A rule with the names of its symbols around an arrow. -/
def renderRule (grammar : Grammar) (rule : Rule) : String :=
  " ".intercalate
    ([grammar.name rule.lhs, "→"] ++ rule.symbols.map grammar.name)

end Grammar

end SpanForest
