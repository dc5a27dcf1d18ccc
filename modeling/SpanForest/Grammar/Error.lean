import SpanForest.Basic

namespace SpanForest

/-!
# What can be wrong with a grammar

Every fault is found while a grammar is built, before anything is parsed.
-/

/-- Settings of a grammar that may be given at most once. -/
inductive GrammarOption where
  | start
  | defaultGreedy
  | defaultWeight
  deriving Repr, DecidableEq

/-- The name under which a setting is reported. -/
def GrammarOption.name : GrammarOption → String
  | .start => "start"
  | .defaultGreedy => "default_greedy"
  | .defaultWeight => "default_weight"

/-- A fault of a grammar. -/
inductive GrammarError where
  | noProductions
  | missingStart
  | startNotNonterminal (name : String)
  | undefinedSymbol (name : String)
  /-- A name stands for a terminal and a nonterminal, or is reserved. -/
  | conflictingSymbol (name : String)
  | terminalLhs (name : String)
  | rootIndexOutOfRange (rule : RuleId) (index length : Nat)
  | duplicateOption (option : GrammarOption)
  | undefinedPredicate (id : PredicateId)
  | invalidSynthesized (name : String)
  | tooManySymbols (count : Nat)
  deriving Repr, DecidableEq

/-- A name between the marks that set it off in a message. -/
def markedName (name : String) : String :=
  "\x60" ++ name ++ "\x60"

/-- The message that describes a fault. -/
def GrammarError.message : GrammarError → String
  | .noProductions => "grammar has no productions"
  | .missingStart => "no start symbol was set"
  | .startNotNonterminal name =>
      "start symbol " ++ markedName name ++ " is not a nonterminal"
  | .undefinedSymbol name =>
      "symbol " ++ markedName name ++ " is used but never declared"
  | .conflictingSymbol name =>
      "symbol " ++ markedName name ++
        " is declared both as terminal and nonterminal"
  | .terminalLhs name =>
      "terminal " ++ markedName name ++
        " cannot be the left-hand side of a production"
  | .rootIndexOutOfRange rule index length =>
      "root index " ++ toString index ++ " is out of range for rule " ++
        toString rule ++ " with " ++ toString length ++
        " right-hand symbols"
  | .duplicateOption option =>
      "option " ++ markedName option.name ++ " is set more than once"
  | .undefinedPredicate id =>
      "predicate " ++ toString id ++ " is referenced but not defined"
  | .invalidSynthesized name =>
      "synthesized terminal " ++ markedName name ++
        " must be a terminal distinct from its base type"
  | .tooManySymbols count => "too many symbols (" ++ toString count ++ ")"

end SpanForest
