import SpanForest.Stack.Basic

namespace SpanForest

/-!
# Paths through a stack

A path of length `n` is a row of `n` symbol nodes, each one below a state node
that lies below the one before it. Below its first node a path enters live
nodes only. The paths from a node are listed in the order of child positions.
-/

namespace GraphStack

/-- The live symbol nodes below a live state node. -/
def liveChildren (stack : GraphStack) (id : StateNodeId) : List SymbolNodeId :=
  if (stack.stateNode id).removed then
    []
  else
    (stack.stateNode id).children.filter fun child =>
      !(stack.symbolNode child).removed

/-- The symbol nodes one step below a symbol node. -/
def nodesBelow (stack : GraphStack) (id : SymbolNodeId) : List SymbolNodeId :=
  (stack.symbolNode id).children.flatMap stack.liveChildren

/-- The paths of `count + 1` nodes that begin with `anchor`. -/
def pathsBelow
    (stack : GraphStack) :
    (count : Nat) →
    (anchor : SymbolNodeId) →
    List (List SymbolNodeId)
  | 0, anchor => [[anchor]]
  | count + 1, anchor =>
      (stack.nodesBelow anchor).flatMap fun next =>
        (stack.pathsBelow count next).map (anchor :: ·)

/-- The nodes one step below a node through one particular state node. -/
def nodesVia
    (stack : GraphStack)
    (anchor : SymbolNodeId)
    (via : StateNodeId) :
    List SymbolNodeId :=
  ((stack.symbolNode anchor).children.filter (· == via)).flatMap
    stack.liveChildren

/--
The paths of `length` nodes that begin with `anchor`.

If `via` is given, the first step must lead through that state node; a path of
a single node makes no step.
-/
def paths
    (stack : GraphStack)
    (anchor : SymbolNodeId)
    (length : Nat)
    (via : Option StateNodeId) :
    List (List SymbolNodeId) :=
  match length, via with
  | 0, _ => []
  | count + 1, none => stack.pathsBelow count anchor
  | 1, some _ => [[anchor]]
  | count + 2, some via =>
      (stack.nodesVia anchor via).flatMap fun next =>
        (stack.pathsBelow count next).map (anchor :: ·)

end GraphStack

end SpanForest
