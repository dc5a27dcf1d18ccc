import SpanForest.Grammar.Basic
import SpanForest.Grammar.Error

namespace SpanForest

/-!
# Building grammars

Names on the left-hand side of some rule are nonterminals; every other name has
to be declared as a terminal, by itself or as a synthesized one. Building
numbers the symbols and checks everything that the declarations promise.
-/

/-- A right-hand side position as its author writes it. -/
structure Element where
  name : String
  predicate : Option PredicateId
  label : Option String
  deriving Repr, DecidableEq

/-- A production as its author writes it. -/
structure RuleDraft where
  lhs : String
  rhs : List Element
  rootIndex : Nat
  weight : Option Float
  greedy : Option Bool
  deriving Repr

/-- A terminal to be synthesized, by names. -/
structure SynthesizedDraft where
  name : String
  base : String
  predicate : PredicateId
  deriving Repr, DecidableEq

/-- Declarations collected so far. -/
structure GrammarBuilder where
  /-- Declared terminals, each once. -/
  terminals : List String
  rules : List RuleDraft
  predicates : PredicateAlphabet
  start : Option String
  defaultGreedy : Option Bool
  defaultWeight : Option Float
  synthesized : List SynthesizedDraft
  outputs : List String

namespace GrammarBuilder

/-- No declarations. -/
def empty : GrammarBuilder where
  terminals := []
  rules := []
  predicates := Alphabet.empty
  start := none
  defaultGreedy := none
  defaultWeight := none
  synthesized := []
  outputs := []

/-- Declare a type of input spans. -/
def terminal (builder : GrammarBuilder) (name : String) : GrammarBuilder :=
  if builder.terminals.contains name then
    builder
  else
    { builder with terminals := builder.terminals ++ [name] }

/-- Intern a predicate. -/
def predicate
    (builder : GrammarBuilder)
    (predicate : Predicate) :
    PredicateId × GrammarBuilder :=
  let (id, predicates) := builder.predicates.intern predicate
  (id, { builder with predicates := predicates })

/-- Add a rule; an empty right-hand side stands for the empty string. -/
def rule
    (builder : GrammarBuilder)
    (draft : RuleDraft) :
    RuleId × GrammarBuilder :=
  (builder.rules.length, { builder with rules := builder.rules ++ [draft] })

/-- Name the start symbol. -/
def setStart
    (builder : GrammarBuilder)
    (name : String) :
    Except GrammarError GrammarBuilder :=
  match builder.start with
  | some _ => .error (.duplicateOption .start)
  | none => .ok { builder with start := some name }

/-- Say whether rules are greedy unless they say otherwise. -/
def setDefaultGreedy
    (builder : GrammarBuilder)
    (greedy : Bool) :
    Except GrammarError GrammarBuilder :=
  match builder.defaultGreedy with
  | some _ => .error (.duplicateOption .defaultGreedy)
  | none => .ok { builder with defaultGreedy := some greedy }

/-- Say which weight rules have unless they say otherwise. -/
def setDefaultWeight
    (builder : GrammarBuilder)
    (weight : Float) :
    Except GrammarError GrammarBuilder :=
  match builder.defaultWeight with
  | some _ => .error (.duplicateOption .defaultWeight)
  | none => .ok { builder with defaultWeight := some weight }

/-- Declare a terminal present wherever a `base` span satisfies a predicate. -/
def synthesize
    (builder : GrammarBuilder)
    (draft : SynthesizedDraft) :
    GrammarBuilder :=
  { builder with synthesized := builder.synthesized ++ [draft] }

/-- Mark a symbol's spans as annotations of the result. -/
def markOutput (builder : GrammarBuilder) (name : String) : GrammarBuilder :=
  { builder with outputs := builder.outputs ++ [name] }

end GrammarBuilder

/-- The reserved symbols `$`, `ε` and `S'`. -/
def reservedSymbols : Array SymbolInfo :=
  #[⟨"$", false⟩, ⟨"ε", false⟩, ⟨"S'", true⟩]

/-- One more than the greatest number a symbol may have. -/
def maxSymbols : Nat := (1 <<< 32) - 1

/--
The number of a symbol of the given kind, a new one for an unknown name.

A known name must be of the same kind and not reserved.
-/
def addSymbol
    (symbols : Array SymbolInfo)
    (name : String)
    (nonterminal : Bool) :
    Except GrammarError (SymbolId × Array SymbolInfo) :=
  match findSymbol? symbols name with
  | some id =>
      if (symbols.getD id default).nonterminal = nonterminal ∧
          rootSymbol < id then
        .ok (id, symbols)
      else
        .error (.conflictingSymbol name)
  | none =>
      if maxSymbols ≤ symbols.size then
        .error (.tooManySymbols symbols.size)
      else
        .ok (symbols.size, symbols.push ⟨name, nonterminal⟩)

/-- The number of the symbol called `name`. -/
def requireSymbol
    (symbols : Array SymbolInfo)
    (name : String) :
    Except GrammarError SymbolId :=
  match findSymbol? symbols name with
  | some id => .ok id
  | none => .error (.undefinedSymbol name)

namespace GrammarBuilder

/-- Refuse a predicate number that was not handed out. -/
def requirePredicate
    (builder : GrammarBuilder)
    (id : PredicateId) :
    Except GrammarError Unit :=
  if id < builder.predicates.size then
    .ok ()
  else
    .error (.undefinedPredicate id)

/-- Add the left-hand sides of rules as nonterminals. -/
def addNonterminals
    (builder : GrammarBuilder) :
    List RuleDraft →
    Array SymbolInfo →
    Except GrammarError (Array SymbolInfo)
  | [], symbols => .ok symbols
  | draft :: rest, symbols =>
      if builder.terminals.contains draft.lhs ||
          builder.synthesized.any (·.name == draft.lhs) then
        .error (.terminalLhs draft.lhs)
      else do
        let (_, extended) ← addSymbol symbols draft.lhs true
        builder.addNonterminals rest extended

/-- Add declared terminals. -/
def addTerminals :
    List String →
    Array SymbolInfo →
    Except GrammarError (Array SymbolInfo)
  | [], symbols => .ok symbols
  | name :: rest, symbols => do
      let (_, extended) ← addSymbol symbols name false
      addTerminals rest extended

/-- Add synthesized terminals, each behind the terminal it is made from. -/
def addSynthesized
    (builder : GrammarBuilder) :
    List SynthesizedDraft →
    Array SymbolInfo →
    Except GrammarError (List Synthesized × Array SymbolInfo)
  | [], symbols => .ok ([], symbols)
  | draft :: rest, symbols =>
      if draft.name = draft.base ∨
          builder.terminals.contains draft.base = false then
        .error (.invalidSynthesized draft.name)
      else do
        builder.requirePredicate draft.predicate
        let (base, extended) ← addSymbol symbols draft.base false
        let (symbol, extended) ← addSymbol extended draft.name false
        let (others, complete) ← builder.addSynthesized rest extended
        return (⟨symbol, base, draft.predicate⟩ :: others, complete)

/-- Refuse operands of predicates that were not handed out. -/
def checkOperands (builder : GrammarBuilder) : Except GrammarError Unit :=
  (builder.predicates.toList.flatMap Predicate.operands).forM
    builder.requirePredicate

/-- Number the symbol of one right-hand side position. -/
def resolveElement
    (builder : GrammarBuilder)
    (symbols : Array SymbolInfo)
    (element : Element) :
    Except GrammarError RhsSymbol := do
  let symbol ← requireSymbol symbols element.name
  element.predicate.forM builder.requirePredicate
  return ⟨symbol, element.predicate, element.label⟩

/-- Number the symbols of one rule. -/
def resolveRule
    (builder : GrammarBuilder)
    (symbols : Array SymbolInfo)
    (id : RuleId)
    (draft : RuleDraft) :
    Except GrammarError Rule := do
  if max draft.rhs.length 1 ≤ draft.rootIndex then
    throw (.rootIndexOutOfRange id draft.rootIndex draft.rhs.length)
  let rhs ← draft.rhs.mapM (builder.resolveElement symbols)
  let lhs ← requireSymbol symbols draft.lhs
  return {
    id := id
    lhs := lhs
    rhs := if rhs.isEmpty then [.plain emptyString] else rhs
    rootIndex := draft.rootIndex
    weight := draft.weight.getD (builder.defaultWeight.getD 1.0)
    greedy := draft.greedy.getD (builder.defaultGreedy.getD false)
  }

/-- Number the symbols of rules; the first of them gets number `next`. -/
def resolveRules
    (builder : GrammarBuilder)
    (symbols : Array SymbolInfo) :
    (next : RuleId) →
    List RuleDraft →
    Except GrammarError (List Rule)
  | _, [] => .ok []
  | next, draft :: rest => do
      let rule ← builder.resolveRule symbols next draft
      let others ← builder.resolveRules symbols (next + 1) rest
      return rule :: others

/-- The start symbol, which must be a nonterminal of the user. -/
def resolveStart
    (symbols : Array SymbolInfo)
    (name : String) :
    Except GrammarError SymbolId := do
  let start ← requireSymbol symbols name
  if (symbols.getD start default).nonterminal ∧ rootSymbol < start then
    return start
  else
    throw (.startNotNonterminal name)

/-- Check the declarations and number everything they name. -/
def build (builder : GrammarBuilder) : Except GrammarError Grammar := do
  if builder.rules.isEmpty then
    throw .noProductions
  let startName ←
    match builder.start with
    | some name => pure name
    | none => throw .missingStart
  let symbols ← builder.addNonterminals builder.rules reservedSymbols
  let symbols ← addTerminals builder.terminals symbols
  let (synthesized, symbols) ←
    builder.addSynthesized builder.synthesized symbols
  builder.checkOperands
  let rules ← builder.resolveRules symbols 0 builder.rules
  let start ← resolveStart symbols startName
  let outputs ← builder.outputs.mapM (requireSymbol symbols)
  return {
    symbols := symbols
    rules := rules.toArray
    start := start
    predicates := builder.predicates
    synthesized := synthesized
    outputs := BitSet.ofList outputs
  }

end GrammarBuilder

end SpanForest
