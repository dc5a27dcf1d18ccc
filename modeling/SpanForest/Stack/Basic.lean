import SpanForest.Span

namespace SpanForest

/-!
# Graph structured stacks

A stack is a graph of two kinds of nodes. Below a state node lie the symbol
nodes that were read or reduced into it; below a symbol node lie the state
nodes on top of which it was put. A symbol node with several derivations stands
for an ambiguity. State nodes are arranged in layers, one for each word; the
start node lies below all layers. Nodes are never deleted but marked removed.
-/

/-- Position of a state node in its graph. -/
abbrev StateNodeId := Nat

/-- Position of a symbol node in its graph. -/
abbrev SymbolNodeId := Nat

/-- A state on top of a stack. -/
structure StateNode where
  state : StateId
  /-- The layer of the node; none for the start node. -/
  word : Option Nat
  children : List SymbolNodeId
  /-- Waiting to act. -/
  active : Bool
  removed : Bool
  deriving Repr, DecidableEq, Inhabited

/-- One way in which a symbol node was reduced. -/
structure Derivation where
  rule : RuleId
  /-- The nodes of the right-hand side, from left to right. -/
  children : List SymbolNodeId
  deriving Repr, DecidableEq, Inhabited

/-- A symbol above some state nodes. -/
structure SymbolNode where
  span : SpanId
  /-- The symbol of the span; none if the grammar ignores it. -/
  symbol : Option SymbolId
  word : Option Nat
  children : List StateNodeId
  /-- Empty for symbols that were read. -/
  derivations : List Derivation
  removed : Bool
  deriving Repr, DecidableEq, Inhabited

/-- Whether the symbol was read, not reduced. -/
def SymbolNode.isLeaf (node : SymbolNode) : Bool :=
  node.derivations.isEmpty

/-- The state nodes of one word and what was reduced there. -/
structure Layer where
  nodes : List StateNodeId
  reduced : List SymbolNodeId
  deriving Repr, DecidableEq, Inhabited

/-- A graph structured stack. -/
structure GraphStack where
  states : Array StateNode
  symbols : Array SymbolNode
  layers : Array Layer
  deriving Repr, DecidableEq, Inhabited

namespace GraphStack

/-- The start node, which is the first of all state nodes. -/
abbrev startNode : StateNodeId := 0

/-- The stack of the start node alone, with room for `count` words. -/
def new (count : Nat) (start : StateId) : GraphStack where
  states := #[⟨start, none, [], false, false⟩]
  symbols := #[]
  layers := Array.replicate count ⟨[], []⟩

/-- The state node with a given number. -/
def stateNode (stack : GraphStack) (id : StateNodeId) : StateNode :=
  stack.states.getD id default

/-- The symbol node with a given number. -/
def symbolNode (stack : GraphStack) (id : SymbolNodeId) : SymbolNode :=
  stack.symbols.getD id default

/-- The layer of a word. -/
def layer (stack : GraphStack) (word : Nat) : Layer :=
  stack.layers.getD word ⟨[], []⟩

/-- Change a state node. -/
def modifyState
    (stack : GraphStack)
    (id : StateNodeId)
    (change : StateNode → StateNode) :
    GraphStack :=
  { stack with states := stack.states.modify id change }

/-- Change a symbol node. -/
def modifySymbol
    (stack : GraphStack)
    (id : SymbolNodeId)
    (change : SymbolNode → SymbolNode) :
    GraphStack :=
  { stack with symbols := stack.symbols.modify id change }

/-- Change a layer. -/
def modifyLayer
    (stack : GraphStack)
    (word : Nat)
    (change : Layer → Layer) :
    GraphStack :=
  { stack with layers := stack.layers.modify word change }

/-- The node of a state in the layer of a word. -/
def findState?
    (stack : GraphStack)
    (word : Nat)
    (state : StateId) :
    Option StateNodeId :=
  (stack.layer word).nodes.find? fun id =>
    (stack.stateNode id).state == state

/--
The node of a state in the layer of a word, a new one if there is none.

A removed node is revived. The flag says whether the node is new.
-/
def addState
    (stack : GraphStack)
    (word : Nat)
    (state : StateId) :
    (StateNodeId × Bool) × GraphStack :=
  match stack.findState? word state with
  | some id =>
      ((id, false),
        stack.modifyState id fun node => { node with removed := false })
  | none =>
      let id := stack.states.size
      let extended :=
        { stack with
          states := stack.states.push ⟨state, some word, [], false, false⟩ }
      ((id, true),
        extended.modifyLayer word fun layer =>
          { layer with nodes := layer.nodes ++ [id] })

/-- Put a symbol on top of `child` and below `parent`. -/
def addSymbol
    (stack : GraphStack)
    (parent : StateNodeId)
    (span : SpanId)
    (symbol : Option SymbolId)
    (child : StateNodeId) :
    SymbolNodeId × GraphStack :=
  let id := stack.symbols.size
  let word := (stack.stateNode parent).word
  let extended :=
    { stack with
      symbols := stack.symbols.push ⟨span, symbol, word, [child], [], false⟩ }
  (id,
    extended.modifyState parent fun node =>
      { node with children := node.children ++ [id] })

/-- List a symbol node among those reduced at its word. -/
def markReduced (stack : GraphStack) (id : SymbolNodeId) : GraphStack :=
  match (stack.symbolNode id).word with
  | some word =>
      stack.modifyLayer word fun layer =>
        { layer with reduced := layer.reduced ++ [id] }
  | none => stack

/-- Put a symbol node on top of one more state node; the flag says if it was not. -/
def link
    (stack : GraphStack)
    (node : SymbolNodeId)
    (child : StateNodeId) :
    Bool × GraphStack :=
  if (stack.symbolNode node).children.contains child then
    (false, stack)
  else
    (true,
      stack.modifySymbol node fun current =>
        { current with children := current.children ++ [child] })

/-- The first live child of a state node with the given property. -/
def findChild?
    (stack : GraphStack)
    (parent : StateNodeId)
    (accepts : SymbolNode → Bool) :
    Option SymbolNodeId :=
  (stack.stateNode parent).children.find? fun id =>
    !(stack.symbolNode id).removed && accepts (stack.symbolNode id)

/-- The live child of a state node for one particular span. -/
def findSpan?
    (stack : GraphStack)
    (parent : StateNodeId)
    (span : SpanId) :
    Option SymbolNodeId :=
  stack.findChild? parent (·.span == span)

/-- The live child of a state node whose span can stand for the given one. -/
def findEquivalent?
    (stack : GraphStack)
    (spans : SpanStore)
    (parent : StateNodeId)
    (span : SpanId) :
    Option SymbolNodeId :=
  stack.findChild? parent fun node =>
    (spans.get node.span).equivalent (spans.get span)

/-- Add a derivation to a symbol node; the flag says whether it was missing. -/
def addDerivation
    (stack : GraphStack)
    (node : SymbolNodeId)
    (derivation : Derivation) :
    Bool × GraphStack :=
  if (stack.symbolNode node).derivations.contains derivation then
    (false, stack)
  else
    (true,
      stack.modifySymbol node fun current =>
        { current with derivations := current.derivations ++ [derivation] })

/-- Mark a state node as waiting to act, or as not waiting. -/
def setActive
    (stack : GraphStack)
    (id : StateNodeId)
    (active : Bool) :
    GraphStack :=
  stack.modifyState id fun node => { node with active := active }

/-- Mark a state node as removed, or as live. -/
def setStateRemoved
    (stack : GraphStack)
    (id : StateNodeId)
    (removed : Bool) :
    GraphStack :=
  stack.modifyState id fun node => { node with removed := removed }

/-- Mark a symbol node as removed, or as live. -/
def setSymbolRemoved
    (stack : GraphStack)
    (id : SymbolNodeId)
    (removed : Bool) :
    GraphStack :=
  stack.modifySymbol id fun node => { node with removed := removed }

/-- Symbol nodes with their numbers. -/
def symbolEntries (stack : GraphStack) : List (SymbolNodeId × SymbolNode) :=
  stack.symbols.toList.zipIdx.map fun (node, id) => (id, node)

end GraphStack

end SpanForest
