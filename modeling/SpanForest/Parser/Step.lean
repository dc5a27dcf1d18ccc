import SpanForest.Parser.State
import SpanForest.Stack.Paths

namespace SpanForest

/-!
# Processing words

At each word the state nodes of its layer act: they note which spans can be
read and queue the reductions that the spans ahead allow. Reductions are tried
along every path of the stack, and what they produce is attached to it, which
may wake further state nodes. When nothing is left to do, the noted spans are
read, each up to the first word that starts where it stops or later.
-/

/-- Steps of a parse with a host state; an error keeps what was done before it. -/
abbrev Parsing (σ : Type) := ExceptT ParseError (StateM (Parser × σ))

namespace Parser

/-- The symbols of the spans ahead, and the end of the input. -/
def lookaheads (parser : Parser) : List SymbolId :=
  parser.candidates.filterMap (fun id => (parser.spans.get id).symbol) ++
    [endOfInput]

/-- The rules that a state reduces with any of the symbols ahead, each once. -/
def lookaheadRules (parser : Parser) (state : StateId) : List RuleId :=
  (parser.lookaheads.flatMap fun symbol =>
    (parser.compiled.table.get state symbol).reduces).eraseDups

/-- Queue a reduction unless it was queued before at this word. -/
def queueReduction (parser : Parser) (reduction : Reduction) : Parser :=
  if parser.performed.contains reduction then
    parser
  else
    { parser with
      performed := parser.performed.insert reduction
      reductions := reduction :: parser.reductions }

/-- Wake a state node. -/
def activate (parser : Parser) (node : StateNodeId) : Parser :=
  { parser with
    stack := parser.stack.setActive node true
    active := node :: parser.active }

/-- The spans ahead that can be read in a state, with the states reached. -/
def shiftsFrom
    (parser : Parser)
    (node : StateNodeId)
    (state : StateId) :
    List Shift :=
  parser.candidates.filterMap fun id => do
    let symbol ← (parser.spans.get id).symbol
    let target ← parser.compiled.table.goto? state symbol
    return ⟨node, id, target⟩

/-- Note what can be read on top of a node and queue what can be reduced. -/
def act (parser : Parser) (node : StateNodeId) : Parser :=
  let state := (parser.stack.stateNode node).state
  let anchors :=
    (parser.stack.stateNode node).children.filter fun child =>
      !(parser.stack.symbolNode child).removed
  let reductions :=
    (parser.lookaheadRules state).flatMap fun rule =>
      anchors.map fun anchor => Reduction.mk rule anchor none
  reductions.foldl queueReduction
    { parser with
      stack := parser.stack.setActive node false
      shifts := parser.shifts ++ parser.shiftsFrom node state }

/-- Give a derivation to a node that exists, and a new stack below it if needed. -/
def pack
    (parser : Parser)
    (node : SymbolNodeId)
    (below : StateNodeId)
    (goto : StateId)
    (derivation : Derivation) :
    Parser :=
  let (_, derived) := parser.stack.addDerivation node derivation
  let (isNew, linked) := derived.link node below
  let packed := { parser with stack := linked }
  if isNew then
    (packed.lookaheadRules goto).foldl
      (fun current rule => current.queueReduction ⟨rule, node, some below⟩)
      packed
  else
    packed

/-- Create a node for a produced span on top of a stack node. -/
def grow
    (parser : Parser)
    (word : Nat)
    (below : StateNodeId)
    (goto : StateId)
    (lhs : SymbolId)
    (span : SpanId)
    (derivation : Derivation) :
    Parser :=
  let ((top, _), withState) := parser.stack.addState word goto
  let (node, withSymbol) := withState.addSymbol top span (some lhs) below
  let (_, derived) := withSymbol.addDerivation node derivation
  let grown :=
    { parser with
      stack := derived.markReduced node
      roots :=
        if lhs = parser.compiled.grammar.start then
          parser.roots ++ [node]
        else
          parser.roots }
  if (grown.stack.stateNode top).active then
    grown
  else
    grown.activate top

/-- Give up the reductions that are left at a word. -/
def reachLimit (parser : Parser) : Parser :=
  { parser with capped := true, reductions := [] }

/--
Put a produced span on top of a stack node.

If an equivalent span stands there it receives the derivation; otherwise a new
node is created, unless the word has reached its limit.
-/
def attach
    (parser : Parser)
    (word : Nat)
    (below : StateNodeId)
    (span : SpanId)
    (derivation : Derivation) :
    Parser :=
  let lhs := (parser.compiled.grammar.rule derivation.rule).lhs
  match parser.compiled.table.goto? (parser.stack.stateNode below).state lhs with
  | none => parser
  | some goto =>
      let equivalent :=
        (parser.stack.findState? word goto).bind fun top =>
          parser.stack.findEquivalent? parser.spans top span
      match equivalent with
      | some node => parser.pack node below goto derivation
      | none =>
          if parser.config.maxReduced ≤
              (parser.stack.layer word).reduced.length then
            parser.reachLimit
          else
            parser.grow word below goto lhs span derivation

/-- Put a produced span on top of those stack nodes that are live. -/
def attachAll
    (parser : Parser)
    (word : Nat)
    (span : SpanId)
    (derivation : Derivation)
    (below : List StateNodeId) :
    Parser :=
  below.foldl
    (fun current node =>
      if (current.stack.stateNode node).removed then
        current
      else
        current.attach word node span derivation)
    parser

/-- The span that a rule would produce from spans, before its action ran. -/
def target (parser : Parser) (rule : Rule) (rhs : List Span) : Span :=
  let first := rhs.headD default
  let last := rhs.getLastD default
  { Span.new parser.spans.nextId (some rule.lhs)
      (parser.compiled.grammar.name rule.lhs) first.start
      (max last.stop first.start) with
    head := (rhs[rule.rootIndex]?.getD first).id
    weight :=
      rule.weight * rhs.foldl (fun product span => product * span.weight) 1.0 }

/-- Enter the outcome of a reduction. -/
def recordOutcome
    (parser : Parser)
    (rule : RuleId)
    (rhs : List SpanId)
    (outcome : Option SpanId) :
    Parser :=
  { parser with outcomes := parser.outcomes.insert (rule, rhs) outcome }

/-- Count an attempt at the current word. -/
def countAttempt (parser : Parser) (rule : RuleId) : Parser :=
  { parser with current := parser.current.countAttempt rule }

/-- Count a success at the current word. -/
def countSuccess (parser : Parser) (rule : RuleId) : Parser :=
  { parser with current := parser.current.countSuccess rule }

/-- Read one noted span, unless its stack node was removed. -/
def readShift (parser : Parser) (word : Nat) (shift : Shift) : Parser :=
  if (parser.stack.stateNode shift.origin).removed then
    parser
  else
    let span := parser.spans.get shift.span
    let destination := nextWord parser.words word span.stop
    let ((top, _), stack) := parser.stack.addState destination shift.target
    match stack.findSpan? top shift.span with
    | some node =>
        { parser with stack := (stack.link node shift.origin).2 }
    | none =>
        { parser with
          stack :=
            (stack.addSymbol top shift.span span.symbol shift.origin).2 }

/-- Read all noted spans. -/
def readShifts (parser : Parser) (word : Nat) : Parser :=
  parser.shifts.foldl (fun current shift => current.readShift word shift)
    { parser with shifts := [] }

/-- Remove what loses to the winners of a word. -/
def filterWord (parser : Parser) (word : Nat) : Parser :=
  let result :=
    filterGreedily parser.compiled parser.spans word parser.stack parser.roots
  { parser with stack := result.stack, roots := result.roots }

/-- Read the noted spans, filter the word and add its counts to the totals. -/
def finishWord (parser : Parser) (word : Nat) : Parser :=
  let read := parser.readShifts word
  let filtered := if read.config.greedy then read.filterWord word else read
  { filtered with
    performed := ∅
    current := ReductionStats.zero filtered.compiled.grammar.rules.size
    wordStats := filtered.wordStats ++ [filtered.current]
    totals := filtered.totals.add filtered.current }

/-- Wake the live nodes of a word, and the start node if a parse may start. -/
def wakeWord (parser : Parser) (word : Nat) : Parser :=
  let nodes :=
    (parser.stack.layer word).nodes.filter fun node =>
      !(parser.stack.stateNode node).removed
  let woken := nodes.foldl activate { parser with active := [] }
  if !parser.isAtEnd word && parser.viable.contains word then
    woken.activate GraphStack.startNode
  else
    woken

/--
Bound on the work left at a word.

A state node is woken for the layer and for each new symbol node. A reduction
is tried if it is queued already, or once for every rule, symbol node and state
node, of which each new symbol node brings at most one.
-/
def workBound (parser : Parser) (word : Nat) : Nat :=
  let fresh :=
    parser.config.maxReduced - (parser.stack.layer word).reduced.length
  let symbols := parser.stack.symbols.size + fresh
  let states := parser.stack.states.size + fresh
  parser.active.length + fresh + parser.reductions.length +
    parser.compiled.grammar.rules.size * symbols * (1 + states) + 1

end Parser

namespace Parsing

variable {σ : Type}

/-- The parser as it stands. -/
def parser : Parsing σ Parser := do
  return (← get).1

/-- Change the parser. -/
def modifyParser (change : Parser → Parser) : Parsing σ Unit :=
  modify fun (parser, host) => (change parser, host)

/-- Evaluate a predicate on a span. -/
def testPredicate
    (host : Host σ)
    (id : PredicateId)
    (span : SpanId) :
    Parsing σ Bool := do
  let (parser, state) ← get
  let (answer, evaluator, changed) :=
    (evaluatePredicate parser.compiled.network host parser.context id
      (parser.spans.get span)).run.run (parser.evaluator, state)
  set ({ parser with evaluator := evaluator }, changed)
  match answer with
  | .ok value => return value
  | .error source => throw (.predicate span source)

/-- Run the action of a rule on a span to be produced. -/
def runAction
    (host : Host σ)
    (rule : Rule)
    (target : Span)
    (rhs : List Span) :
    Parsing σ (Except ActionError (Option Span)) := do
  let (parser, state) ← get
  let (answer, changed) :=
    host.execute parser.context rule target rhs state
  set (parser, changed)
  return answer

/-- Commit a span. -/
def commit (span : Span) : Parsing σ SpanId := do
  let parser ← Parsing.parser
  let (id, spans) := parser.spans.push span
  modifyParser fun current => { current with spans := spans }
  return id

/--
The span synthesized from a base span, if the predicate holds on it.

The outcome is kept by base span and symbol.
-/
def synthesize
    (host : Host σ)
    (base : SpanId)
    (synthesized : Synthesized) :
    Parsing σ (Option SpanId) := do
  match (← parser).synthesized[(base, synthesized.symbol)]? with
  | some known => return known
  | none =>
      let holds ← testPredicate host synthesized.predicate base
      let result ←
        if holds then
          let parser ← parser
          let span := parser.spans.get base
          let id ← commit
            { Span.new parser.spans.nextId (some synthesized.symbol)
                (parser.compiled.grammar.name synthesized.symbol)
                span.start span.stop with
              features := span.features
              head := base
              weight := span.weight }
          pure (some id)
        else
          pure none
      modifyParser fun current =>
        { current with
          synthesized :=
            current.synthesized.insert (base, synthesized.symbol) result }
      return result

/-- Make spans candidates of the current word. -/
def addCandidates (ids : List SpanId) : Parsing σ Unit :=
  modifyParser fun current =>
    { current with candidates := current.candidates ++ ids }

/-- Make a base span a candidate, and all that is synthesized from it. -/
def collectFrom (host : Host σ) (base : SpanId) : Parsing σ Unit := do
  addCandidates [base]
  let current ← parser
  match (current.spans.get base).symbol with
  | some symbol =>
      (current.compiled.synthesizedFrom symbol).forM fun synthesized => do
        let made ← synthesize host base synthesized
        addCandidates made.toList
  | none => return ()

/-- Collect the spans ahead at a word; there are none at the end of the input. -/
def collectCandidates (host : Host σ) (word : Nat) : Parsing σ Unit := do
  modifyParser fun current => { current with candidates := [] }
  match (← parser).words[word]? with
  | some ahead => ahead.spans.forM (collectFrom host)
  | none => return ()

/-- Whether the predicates of a rule hold on the spans of its right-hand side. -/
def predicatesHold
    (host : Host σ)
    (rule : Rule)
    (rhs : List SpanId) :
    Parsing σ Bool :=
  (rule.rhs.zip rhs).allM fun (position, span) =>
    match position.predicate with
    | some id => testPredicate host id span
    | none => return true

/-- Run a rule's action on spans for the first time and keep the outcome. -/
def produce
    (host : Host σ)
    (rule : Rule)
    (ids : List SpanId) :
    Parsing σ (Option SpanId) := do
  let current ← parser
  let rhs := ids.map current.spans.get
  let outcome ←
    match ← runAction host rule (current.target rule rhs) rhs with
    | .ok (some span) =>
        let id ← commit span
        modifyParser (·.countSuccess rule.id)
        pure (some id)
    | .ok none => pure none
    | .error (.rejected _) => pure none
    | .error source => throw (.action rule.id rule.lhs source)
  modifyParser (·.recordOutcome rule.id ids outcome)
  return outcome

/--
The span that a rule produces from nodes, if it produces one.

The predicates are tested every time, the action runs once for the same spans.
-/
def reducePath
    (host : Host σ)
    (rule : Rule)
    (nodes : List SymbolNodeId) :
    Parsing σ (Option SpanId) := do
  modifyParser (·.countAttempt rule.id)
  let current ← parser
  let ids := nodes.map fun node => (current.stack.symbolNode node).span
  if ← predicatesHold host rule ids then
    match (← parser).outcomes[(rule.id, ids)]? with
    | some (some known) =>
        modifyParser (·.countSuccess rule.id)
        return some known
    | some none => return none
    | none => produce host rule ids
  else
    return none

/-- Reduce a rule along paths, in turn, until the word reaches its limit. -/
def reducePaths
    (host : Host σ)
    (word : Nat)
    (rule : Rule)
    (via : Option StateNodeId) :
    List (List SymbolNodeId) →
    Parsing σ Unit
  | [] => return ()
  | nodes :: rest => do
      let current ← parser
      let below :=
        match via, nodes with
        | some node, [_] => [node]
        | _, _ => (current.stack.symbolNode (nodes.headD 0)).children
      match ← reducePath host rule nodes with
      | some span =>
          modifyParser fun current =>
            current.attachAll word span ⟨rule.id, nodes⟩ below
      | none => pure ()
      if (← parser).capped then
        return ()
      else
        reducePaths host word rule via rest

/-- Try a reduction along all paths that lead down from its anchor. -/
def reduce (host : Host σ) (word : Nat) (reduction : Reduction) : Parsing σ Unit := do
  let current ← parser
  if current.capped then
    return ()
  else
    let rule := current.compiled.grammar.rule reduction.rule
    let paths :=
      current.stack.paths reduction.anchor rule.length reduction.via
    reducePaths host word rule reduction.via (paths.map List.reverse)

/-- Let nodes act and try reductions until nothing is left, nodes first. -/
def settle (host : Host σ) (word : Nat) : (fuel : Nat) → Parsing σ Unit
  | 0 => return ()
  | fuel + 1 => do
      let current ← parser
      match current.active, current.reductions with
      | node :: active, _ =>
          modifyParser fun current =>
            { current with active := active }.act node
          settle host word fuel
      | [], reduction :: reductions =>
          modifyParser fun current => { current with reductions := reductions }
          reduce host word reduction
          settle host word fuel
      | [], [] => return ()

/-- Process one word. -/
def processWord (host : Host σ) (word : Nat) : Parsing σ Unit := do
  modifyParser fun current => { current with capped := false }
  collectCandidates host word
  modifyParser (·.wakeWord word)
  settle host word ((← parser).workBound word)
  modifyParser (·.finishWord word)

/-- Process the next word; the answer says whether words remain. -/
def step (host : Host σ) : Parsing σ Bool := do
  let current ← parser
  if !current.started then
    throw .notStarted
  else if current.isFinished then
    return false
  else
    processWord host current.position
    modifyParser fun current => { current with position := current.position + 1 }
    return !(← parser).isFinished

/-- Take at most `fuel` steps, as long as words remain. -/
def stepAll (host : Host σ) : (fuel : Nat) → Parsing σ Unit
  | 0 => return ()
  | fuel + 1 => do
      if ← step host then
        stepAll host fuel
      else
        return ()

/-- Parse a document to its end; the answer holds the nodes of the start symbol. -/
def parse
    (host : Host σ)
    (document : Document)
    (input : List InputSpan) :
    Parsing σ (List SymbolNodeId) := do
  modifyParser (·.start document input)
  stepAll host ((← parser).numWords + 2)
  return (← parser).roots

end Parsing

end SpanForest
