import SpanForest.Proofs.Parser.Sweeping

namespace SpanForest

/-!
# Building stacks

A stack comes of operations on its start node alone. However it was put together, a
symbol node has one holder at most, and no list of children repeats a node.
-/

namespace GraphStack

/-- A stack on which every node has its own place. -/
structure HeldOnce (stack : GraphStack) : Prop where
  known :
    ∀ holder node : Nat, node ∈ (stack.stateNode holder).children →
      node < stack.symbols.size
  /-- A symbol node is a child of one state node at most. -/
  holder :
    ∀ first second node : Nat, node ∈ (stack.stateNode first).children →
      node ∈ (stack.stateNode second).children → first = second
  held : ∀ holder : Nat, (stack.stateNode holder).children.Nodup
  linked : ∀ node : Nat, (stack.symbolNode node).children.Nodup

section Operations

variable {stack : GraphStack}

/-- One operation on a stack. -/
inductive Operation where
  | addState (word : Nat) (state : StateId)
  | addSymbol
      (parent : StateNodeId)
      (span : SpanId)
      (symbol : Option SymbolId)
      (child : StateNodeId)
  | markReduced (node : SymbolNodeId)
  | link (node : SymbolNodeId) (child : StateNodeId)
  | addDerivation (node : SymbolNodeId) (derivation : Derivation)
  | setActive (state : StateNodeId) (active : Bool)
  | setStateRemoved (state : StateNodeId) (removed : Bool)
  | setSymbolRemoved (node : SymbolNodeId) (removed : Bool)
  | sweep (start : Nat)

/-- The stack after an operation. -/
def perform (stack : GraphStack) : Operation → GraphStack
  | .addState word state => (stack.addState word state).2
  | .addSymbol parent span symbol child =>
      (stack.addSymbol parent span symbol child).2
  | .markReduced node => stack.markReduced node
  | .link node child => (stack.link node child).2
  | .addDerivation node derivation => (stack.addDerivation node derivation).2
  | .setActive state active => stack.setActive state active
  | .setStateRemoved state removed => stack.setStateRemoved state removed
  | .setSymbolRemoved node removed => stack.setSymbolRemoved node removed
  | .sweep start => (stack.sweep start).2

/-- The stack that comes of some operations on the start node alone. -/
def built (count : Nat) (start : StateId) (operations : List Operation) : GraphStack :=
  operations.foldl perform (new count start)

theorem heldOnce_new (count : Nat) (start : StateId) :
    (new count start).HeldOnce := by
  have noChildren : ∀ holder : Nat,
      ((new count start).stateNode holder).children = [] := by
    intro holder
    cases holder <;> rfl
  constructor
  case known => simp [noChildren]
  case holder => simp [noChildren]
  case held => simp [noChildren]
  case linked => exact fun _ => List.nodup_nil

/-- Places depend on children alone. -/
theorem HeldOnce.of_children
    {after : GraphStack}
    (heldOnce : stack.HeldOnce)
    (size : stack.symbols.size ≤ after.symbols.size)
    (state : ∀ holder : Nat,
      (after.stateNode holder).children = (stack.stateNode holder).children)
    (linked : ∀ node : Nat, (after.symbolNode node).children.Nodup) :
    after.HeldOnce where
  known holder node isChild := by
    rw [state] at isChild
    exact Nat.lt_of_lt_of_le (heldOnce.known holder node isChild) size
  holder first second node isFirst isSecond := by
    rw [state] at isFirst isSecond
    exact heldOnce.holder first second node isFirst isSecond
  held holder := by
    rw [state]
    exact heldOnce.held holder
  linked := linked

theorem HeldOnce.sameShape
    {after : GraphStack}
    (heldOnce : stack.HeldOnce)
    (shape : stack.SameShape after) :
    after.HeldOnce :=
  heldOnce.of_children (Nat.le_of_eq shape.symbols_size.symm)
    (fun holder => (shape.state holder).2.2)
    fun node => by
      rw [(shape.symbol node).2.2.2]
      exact heldOnce.linked node

/-- A new symbol node is held by its parent alone. -/
theorem HeldOnce.addSymbol
    (heldOnce : stack.HeldOnce)
    (parent : StateNodeId)
    (span : SpanId)
    (symbol : Option SymbolId)
    (child : StateNodeId) :
    (stack.addSymbol parent span symbol child).2.HeldOnce := by
  have larger : stack.symbols.size ≤
      (stack.addSymbol parent span symbol child).2.symbols.size :=
    size_symbols_addSymbol.symm ▸ Nat.le_succ _
  have linked : ∀ node : Nat,
      ((stack.addSymbol parent span symbol child).2.symbolNode node).children.Nodup := by
    intro node
    rw [symbolNode_addSymbol]
    split
    · simp
    · exact heldOnce.linked node
  by_cases inside : parent < stack.states.size
  · have atParent : ∀ holder node : Nat,
        node ∈ ((stack.addSymbol parent span symbol child).2.stateNode holder).children →
          node ∈ (stack.stateNode holder).children ∨
            holder = parent ∧ node = stack.symbols.size := by
      intro holder node isChild
      rw [stateNode_addSymbol inside] at isChild
      split at isChild
      · rename_i same
        rw [same]
        exact (List.mem_append.mp isChild).imp id
          fun isNew => ⟨rfl, List.mem_singleton.mp isNew⟩
      · exact .inl isChild
    have old : ∀ holder : Nat, stack.symbols.size ∉ (stack.stateNode holder).children :=
      fun holder isChild => Nat.lt_irrefl _ (heldOnce.known holder _ isChild)
    constructor
    case known =>
      intro holder node isChild
      rw [size_symbols_addSymbol]
      rcases atParent holder node isChild with isOld | ⟨-, rfl⟩
      · exact Nat.lt_succ_of_lt (heldOnce.known holder node isOld)
      · exact Nat.lt_succ_self _
    case holder =>
      intro first second node isFirst isSecond
      rcases atParent first node isFirst with firstOld | ⟨rfl, rfl⟩
      · rcases atParent second node isSecond with secondOld | ⟨-, rfl⟩
        · exact heldOnce.holder first second node firstOld secondOld
        · exact absurd firstOld (old first)
      · rcases atParent second _ isSecond with secondOld | ⟨rfl, -⟩
        · exact absurd secondOld (old second)
        · rfl
    case held =>
      intro holder
      rw [stateNode_addSymbol inside]
      split
      · exact nodup_append_singleton ⟨heldOnce.held parent, old parent⟩
      · exact heldOnce.held holder
    case linked => exact linked
  · exact heldOnce.of_children larger
      (fun holder => congrArg StateNode.children
        (modifyState_of_le (Nat.le_of_not_lt inside))) linked

/-- A link is made where there is none. -/
theorem HeldOnce.link
    (heldOnce : stack.HeldOnce)
    (node : SymbolNodeId)
    (child : StateNodeId) :
    (stack.link node child).2.HeldOnce := by
  refine heldOnce.of_children (Nat.le_of_eq size_symbols_link.symm)
    (fun holder => by rw [stateNode, states_link]; rfl) fun other => ?_
  unfold GraphStack.link
  split
  · exact heldOnce.linked other
  · rename_i notLinked
    by_cases inside : node < stack.symbols.size
    · rw [symbolNode_modifySymbol inside]
      split
      · exact nodup_append_singleton
          ⟨heldOnce.linked node, by simpa using notLinked⟩
      · exact heldOnce.linked other
    · rw [modifySymbol_of_le (Nat.le_of_not_lt inside)]
      exact heldOnce.linked other

/-- Every operation keeps nodes in their own places. -/
theorem HeldOnce.perform
    (heldOnce : stack.HeldOnce)
    (operation : Operation) :
    (stack.perform operation).HeldOnce := by
  cases operation with
  | addState word state =>
      refine heldOnce.of_children (Nat.le_of_eq (by
        rw [GraphStack.perform, symbols_addState]))
        (children_addState state) fun node => ?_
      rw [GraphStack.perform, symbolNode, symbols_addState]
      exact heldOnce.linked node
  | addSymbol parent span symbol child =>
      exact heldOnce.addSymbol parent span symbol child
  | markReduced node =>
      refine heldOnce.of_children (Nat.le_of_eq (by
        rw [GraphStack.perform, symbols_markReduced]))
        (fun holder => by rw [GraphStack.perform, stateNode_markReduced])
        fun other => ?_
      rw [GraphStack.perform, symbolNode_markReduced]
      exact heldOnce.linked other
  | link node child => exact heldOnce.link node child
  | addDerivation node derivation =>
      exact heldOnce.sameShape (sameShape_addDerivation node derivation)
  | setActive state active =>
      exact heldOnce.sameShape (sameShape_setActive state active)
  | setStateRemoved state removed =>
      exact heldOnce.sameShape (sameShape_setStateRemoved state removed)
  | setSymbolRemoved node removed =>
      exact heldOnce.sameShape (sameShape_setSymbolRemoved node removed)
  | sweep start => exact heldOnce.sameShape (swept_sweep start).1.trimmed.shape

/-- On every stack nodes are in their own places. -/
theorem heldOnce_built
    (count : Nat)
    (start : StateId)
    (operations : List Operation) :
    (built count start operations).HeldOnce := by
  have each : ∀ (operations : List Operation) (stack : GraphStack), stack.HeldOnce →
      (operations.foldl GraphStack.perform stack).HeldOnce := by
    intro operations
    induction operations with
    | nil => exact fun _ heldOnce => heldOnce
    | cons operation rest inductionHypothesis =>
        exact fun stack heldOnce =>
          inductionHypothesis _ (heldOnce.perform operation)
  exact each operations _ (heldOnce_new count start)

end Operations

end GraphStack

end SpanForest
