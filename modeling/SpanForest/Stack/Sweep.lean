import SpanForest.Fixpoint
import SpanForest.Stack.Basic

namespace SpanForest

/-!
# Sweeping unsupported nodes

A state node with children, all of which are removed, has lost its support, and
so has a symbol node all of whose child states are removed. A sweep removes
such nodes from a word on until none is left.
-/

namespace GraphStack

/-- Whether a live state node has children, and none of them is live. -/
def isStranded (stack : GraphStack) (id : StateNodeId) : Bool :=
  let node := stack.stateNode id
  !node.removed && !node.children.isEmpty &&
    node.children.all fun child => (stack.symbolNode child).removed

/-- Whether a live symbol node from word `start` on has no live child state. -/
def isFloating (stack : GraphStack) (start : Nat) (id : SymbolNodeId) : Bool :=
  let node := stack.symbolNode id
  !node.removed && node.word.any (start ≤ ·) &&
    node.children.all fun child => (stack.stateNode child).removed

/-- Remove those of some state nodes that are stranded, counting them. -/
def sweepStates :
    List StateNodeId →
    Nat × GraphStack →
    Nat × GraphStack
  | [], swept => swept
  | id :: rest, (count, stack) =>
      if stack.isStranded id then
        sweepStates rest (count + 1, stack.setStateRemoved id true)
      else
        sweepStates rest (count, stack)

/-- Remove those of some symbol nodes that are floating, counting them. -/
def sweepSymbols
    (start : Nat) :
    List SymbolNodeId →
    Nat × GraphStack →
    Nat × GraphStack
  | [], swept => swept
  | id :: rest, (count, stack) =>
      if stack.isFloating start id then
        sweepSymbols start rest (count + 1, stack.setSymbolRemoved id true)
      else
        sweepSymbols start rest (count, stack)

/-- One round over the layers from `start` on and over all symbol nodes. -/
def sweepRound (start : Nat) (swept : Nat × GraphStack) : Bool × Nat × GraphStack :=
  let states := (swept.2.layers.toList.drop start).flatMap (·.nodes)
  let result :=
    sweepSymbols start (List.range swept.2.symbols.size)
      (sweepStates states swept)
  (result.1 != swept.1, result)

/--
Remove unsupported nodes from word `start` on; the result counts them.

Every round but the last removes a node, which bounds the number of rounds.
-/
def sweep (stack : GraphStack) (start : Nat) : Nat × GraphStack :=
  (repeatRounds (sweepRound start)
    (stack.states.size + stack.symbols.size + 1) (0, stack)).2

end GraphStack

end SpanForest
