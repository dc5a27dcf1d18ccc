import SpanForest.Compiled
import SpanForest.Stack.Sweep

namespace SpanForest

/-!
# Greedy disambiguation

Among the spans reduced at a word by greedy rules, one of each type wins: the
one that starts first and then extends furthest. Every other span of its type
that overlaps it without starting before it is removed, together with whatever
only the removed spans supported. A winner may keep derivations from its own
shorter beginnings.
-/

/-- Order of weights, the heavier first; weights without an order are equal. -/
def compareWeights (left right : Float) : Ordering :=
  if right < left then
    .lt
  else if left < right then
    .gt
  else
    .eq

/-- Order of winners: earliest start, longest, heaviest, oldest. -/
def Span.rank (left right : Span) : Ordering :=
  (((compare left.start right.start).then
      (compare right.stop left.stop)).then
    (compareWeights left.weight right.weight)).then
    (compare left.id right.id)

/--
Whether a span has to give way to a winner of its type.

It overlaps the winner, does not start before it and does not cover the same
offsets.
-/
def Span.losesTo (span winner : Span) : Bool :=
  let overlaps := span.start < winner.stop && winner.start < span.stop
  let coextensive := span.start == winner.start && span.stop == winner.stop
  overlaps && !coextensive && winner.start ≤ span.start

/-- The winners of a pass, by symbol. -/
abbrev Winners := List (SymbolId × SymbolNodeId)

/-- Let a node compete for its symbol. -/
def competeFor
    (stack : GraphStack)
    (spans : SpanStore)
    (symbol : SymbolId)
    (id : SymbolNodeId) :
    Winners →
    Winners
  | [] => [(symbol, id)]
  | (other, best) :: rest =>
      if other = symbol then
        let challenger := spans.get (stack.symbolNode id).span
        let champion := spans.get (stack.symbolNode best).span
        (other, if challenger.rank champion = .lt then id else best) :: rest
      else
        (other, best) :: competeFor stack spans symbol id rest

/-- Whether a node competes: it is live and a greedy rule derives it. -/
def isContender
    (compiled : CompiledGrammar)
    (node : SymbolNode) :
    Bool :=
  !node.removed && node.symbol.any compiled.isGreedy &&
    node.derivations.any fun derivation =>
      (compiled.grammar.rule derivation.rule).greedy

/-- The winners among the nodes reduced at a word. -/
def winnersAt
    (compiled : CompiledGrammar)
    (stack : GraphStack)
    (spans : SpanStore)
    (word : Nat) :
    Winners :=
  (stack.layer word).reduced.foldl
    (fun winners id =>
      let node := stack.symbolNode id
      match node.symbol with
      | some symbol =>
          if isContender compiled node then
            competeFor stack spans symbol id winners
          else
            winners
      | none => winners)
    []

/-- The winner of a node's symbol. -/
def winnerOf? (winners : Winners) (node : SymbolNode) : Option SymbolNodeId :=
  node.symbol.bind fun symbol => winners.lookup symbol

/-- The live nodes that lose to the winner of their symbol. -/
def losersTo
    (stack : GraphStack)
    (spans : SpanStore)
    (winners : Winners) :
    List SymbolNodeId :=
  (stack.symbolEntries.filter fun (id, node) =>
    !node.removed &&
      (winnerOf? winners node).any fun winner =>
        id != winner &&
          (spans.get node.span).losesTo
            (spans.get (stack.symbolNode winner).span)).map (·.1)

/-- A greedy pass under way. -/
structure GreedyPass where
  stack : GraphStack
  /-- The first word from which something was removed. -/
  start : Nat
  /-- The symbol nodes removed by this pass. -/
  dead : BitSet
  removed : Nat
  deriving Inhabited

namespace GreedyPass

/-- Remove a node. -/
def drop (pass : GreedyPass) (id : SymbolNodeId) : GreedyPass where
  stack := pass.stack.setSymbolRemoved id true
  start :=
    match (pass.stack.symbolNode id).word with
    | some word => min pass.start word
    | none => pass.start
  dead := (pass.dead.insert id).2
  removed := pass.removed + 1

/--
Whether a derivation stays.

It does if none of its nodes was removed by this pass, or if it builds a span
that starts with the winner of its symbol by a greedy rule.
-/
def keeps
    (pass : GreedyPass)
    (compiled : CompiledGrammar)
    (spans : SpanStore)
    (winners : Winners)
    (node : SymbolNode)
    (derivation : Derivation) :
    Bool :=
  let startOf (id : SymbolNodeId) :=
    (spans.get (pass.stack.symbolNode id).span).start
  let withWinner :=
    (winnerOf? winners node).any fun winner =>
      startOf winner == (spans.get node.span).start
  (withWinner && (compiled.grammar.rule derivation.rule).greedy) ||
    derivation.children.all fun child => !pass.dead.contains child

/-- Drop derivations of one node, and the node with its last one. -/
def prune
    (pass : GreedyPass)
    (compiled : CompiledGrammar)
    (spans : SpanStore)
    (winners : Winners)
    (id : SymbolNodeId) :
    Bool × GreedyPass :=
  let node := pass.stack.symbolNode id
  if node.removed then
    (false, pass)
  else
    let kept := node.derivations.filter (pass.keeps compiled spans winners node)
    if kept.length = node.derivations.length ∧ kept ≠ [] then
      (false, pass)
    else
      let pruned :=
        { pass with
          stack := pass.stack.modifySymbol id fun current =>
            { current with derivations := kept } }
      (true, if kept.isEmpty then pruned.drop id else pruned)

/-- One round over nodes with derivations. -/
def pruneRound
    (compiled : CompiledGrammar)
    (spans : SpanStore)
    (winners : Winners)
    (nodes : List SymbolNodeId)
    (pass : GreedyPass) :
    Bool × GreedyPass :=
  nodes.foldl
    (fun (changed, current) id =>
      let (dropped, next) := current.prune compiled spans winners id
      (changed || dropped, next))
    (false, pass)

/-- The live nodes with derivations from the first touched word on. -/
def dependents (pass : GreedyPass) : List SymbolNodeId :=
  (pass.stack.symbolEntries.filter fun (_, node) =>
    !node.removed && node.word.all (pass.start ≤ ·) &&
      !node.derivations.isEmpty).map (·.1)

/--
Drop the derivations that lead through removed nodes until none is left.

Every round but the last drops a derivation, which bounds the number of rounds.
-/
def pruneAll
    (pass : GreedyPass)
    (compiled : CompiledGrammar)
    (spans : SpanStore)
    (winners : Winners) :
    GreedyPass :=
  if pass.dead.isEmpty then
    pass
  else
    let nodes := pass.dependents
    let bound :=
      (nodes.map fun id =>
        (pass.stack.symbolNode id).derivations.length).foldr (· + ·) 0
    (repeatRounds (pruneRound compiled spans winners nodes) (bound + 1)
      pass).2

end GreedyPass

/-- What a greedy pass leaves. -/
structure GreedyResult where
  /-- Number of nodes that were removed. -/
  removed : Nat
  stack : GraphStack
  roots : List SymbolNodeId
  deriving Inhabited

/-- Filter the nodes reduced at a word; without a winner nothing changes. -/
def filterGreedily
    (compiled : CompiledGrammar)
    (spans : SpanStore)
    (word : Nat)
    (stack : GraphStack)
    (roots : List SymbolNodeId) :
    GreedyResult :=
  let winners := winnersAt compiled stack spans word
  if winners.isEmpty then
    ⟨0, stack, roots⟩
  else
    let cleared :=
      (losersTo stack spans winners).foldl GreedyPass.drop
        ⟨stack, word, .empty, 0⟩
    let pass := cleared.pruneAll compiled spans winners
    let (swept, final) := pass.stack.sweep pass.start
    ⟨pass.removed + swept, final,
      roots.filter fun root => !(final.symbolNode root).removed⟩

end SpanForest
