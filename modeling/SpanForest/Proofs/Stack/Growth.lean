import SpanForest.Proofs.Stack.Operations

namespace SpanForest

/-!
# How a stack grows

A reduction either extends a symbol node by a derivation and a state node below
it, or grows a new symbol node in the layer of its word. A span that is read is
put on top of a state node in the layer of a later word.
-/

namespace GraphStack

variable {stack : GraphStack} {table : PackedTable}
variable {node below holder word : Nat} {derivation : Derivation}

/-- A node with one more derivation, put on top of one more state node. -/
def extendNode
    (stack : GraphStack)
    (node : SymbolNodeId)
    (derivation : Derivation)
    (below : StateNodeId) :
    Bool × GraphStack :=
  (stack.addDerivation node derivation).2.link node below

/-- What extending a node brings about. -/
structure NodeExtended
    (word : Nat)
    (node : Nat)
    (derivation : Derivation)
    (below : Nat)
    (before after : GraphStack) : Prop where
  grows : before.Extends word after
  states : after.states = before.states
  layers : after.layers = before.layers
  symbols : after.symbols.size = before.symbols.size
  derivations :
    ∀ (other : Nat) (held : Derivation),
      held ∈ (after.symbolNode other).derivations ↔
        held ∈ (before.symbolNode other).derivations ∨
          other = node ∧ held = derivation
  once :
    ∀ other : Nat, (before.symbolNode other).derivations.Nodup →
      (after.symbolNode other).derivations.Nodup
  removed :
    ∀ other : Nat,
      (after.symbolNode other).removed = (before.symbolNode other).removed
  children :
    ∀ other child : Nat,
      child ∈ (after.symbolNode other).children ↔
        child ∈ (before.symbolNode other).children ∨
          other = node ∧ child = below

theorem Consistent.extendNode
    (consistent : stack.Consistent table)
    (held : node ∈ (stack.stateNode holder).children)
    (belowInside : below < stack.states.size)
    (isWord : (stack.stateNode holder).word = some word)
    (before : WordBefore (stack.stateNode below).word word)
    (leads : Leads table stack below (stack.symbolNode node).symbol holder)
    (derivation : Derivation) :
    (stack.extendNode node derivation below).2.Consistent table ∧
      NodeExtended word node derivation below stack
        (stack.extendNode node derivation below).2 := by
  have shape : stack.SameShape (stack.addDerivation node derivation).2 :=
    sameShape_addDerivation node derivation
  have inside := consistent.child_known holder node held
  have derivedInside :
      node < (stack.addDerivation node derivation).2.symbols.size :=
    shape.symbols_size ▸ inside
  have stateNode : ∀ id : Nat,
      (stack.addDerivation node derivation).2.stateNode id =
        stack.stateNode id := by
    intro id
    rw [GraphStack.stateNode, states_addDerivation]
    rfl
  have derivedLeads :
      Leads table (stack.addDerivation node derivation).2 below
        ((stack.addDerivation node derivation).2.symbolNode node).symbol
        holder := by
    unfold Leads
    rw [stateNode, stateNode, (shape.symbol node).2.1]
    exact leads
  obtain ⟨linkedConsistent, linkExtends⟩ :=
    (shape.consistent consistent).link (stateNode holder ▸ held)
      (shape.states_size ▸ belowInside) (stateNode holder ▸ isWord)
      (stateNode below ▸ before) derivedLeads
  refine ⟨linkedConsistent, ?_⟩
  unfold GraphStack.extendNode
  constructor
  case grows => exact (shape.extends word).trans linkExtends
  case states => exact states_link.trans states_addDerivation
  case layers => exact layers_link.trans shape.layers
  case symbols => exact size_symbols_link.trans shape.symbols_size
  case derivations =>
    intro other held
    rw [derivations_link derivedInside]
    exact mem_derivations_addDerivation inside other held
  case once =>
    intro other isOnce
    rw [derivations_link derivedInside]
    exact nodup_derivations_addDerivation isOnce
  case removed =>
    intro other
    rw [removed_link derivedInside]
    exact removed_addDerivation other
  case children =>
    intro other child
    rw [mem_children_link derivedInside, (shape.symbol other).2.2.2]

/-- A new node in the layer of a word, on top of a state node. -/
def growNode
    (stack : GraphStack)
    (word : Nat)
    (goto : StateId)
    (span : SpanId)
    (lhs : SymbolId)
    (below : StateNodeId)
    (derivation : Derivation) :
    GraphStack :=
  let ((top, _), withState) := stack.addState word goto
  let (node, withSymbol) := withState.addSymbol top span (some lhs) below
  (withSymbol.addDerivation node derivation).2.markReduced node

/-- What growing a node brings about. -/
structure NodeGrown
    (word : Nat)
    (goto : StateId)
    (content : SymbolNode)
    (top : Nat)
    (before after : GraphStack) : Prop where
  grows : before.Extends word after
  listed : top ∈ (after.layer word).nodes
  state : (after.stateNode top).state = goto
  live : (after.stateNode top).removed = false
  active : (after.stateNode top).active = (before.stateNode top).active
  children :
    (after.stateNode top).children =
      (before.stateNode top).children ++ [before.symbols.size]
  other_state :
    ∀ other : Nat, other < before.states.size → other ≠ top →
      after.stateNode other = before.stateNode other
  states : after.states.size ≤ before.states.size + 1
  only_top :
    ∀ other : Nat, before.states.size ≤ other → other < after.states.size →
      other = top
  symbols : after.symbols.size = before.symbols.size + 1
  symbol :
    ∀ other : Nat, after.symbolNode other =
      if other = before.symbols.size then content else before.symbolNode other
  reduced :
    ∀ own : Nat, (after.layer own).reduced =
      if own = word then
        (before.layer word).reduced ++ [before.symbols.size]
      else
        (before.layer own).reduced

section PlaceNode

variable {parent child : Nat} {span : SpanId} {symbol : Option SymbolId}

/-- A new node with its first derivation, put on top of a state node. -/
def placeNode
    (stack : GraphStack)
    (parent : StateNodeId)
    (span : SpanId)
    (symbol : Option SymbolId)
    (child : StateNodeId)
    (derivation : Derivation) :
    GraphStack :=
  ((stack.addSymbol parent span symbol child).2.addDerivation
    stack.symbols.size derivation).2

theorem sameShape_placeNode :
    (stack.addSymbol parent span symbol child).2.SameShape
      (stack.placeNode parent span symbol child derivation) :=
  sameShape_addDerivation stack.symbols.size derivation

theorem states_placeNode :
    (stack.placeNode parent span symbol child derivation).states =
      (stack.addSymbol parent span symbol child).2.states :=
  states_addDerivation

@[simp] theorem size_states_placeNode :
    (stack.placeNode parent span symbol child derivation).states.size =
      stack.states.size := by
  rw [states_placeNode, size_states_addSymbol]

@[simp] theorem size_symbols_placeNode :
    (stack.placeNode parent span symbol child derivation).symbols.size =
      stack.symbols.size + 1 :=
  sameShape_placeNode.symbols_size.trans size_symbols_addSymbol

theorem layers_placeNode :
    (stack.placeNode parent span symbol child derivation).layers =
      stack.layers :=
  sameShape_placeNode.layers

@[simp] theorem layer_placeNode (own : Nat) :
    (stack.placeNode parent span symbol child derivation).layer own =
      stack.layer own :=
  sameShape_placeNode.layer own

theorem stateNode_placeNode
    (inside : parent < stack.states.size)
    (other : Nat) :
    (stack.placeNode parent span symbol child derivation).stateNode other =
      if other = parent then
        { stack.stateNode parent with
          children :=
            (stack.stateNode parent).children ++ [stack.symbols.size] }
      else
        stack.stateNode other := by
  rw [stateNode, states_placeNode]
  exact stateNode_addSymbol inside other

theorem symbolNode_placeNode (other : Nat) :
    (stack.placeNode parent span symbol child derivation).symbolNode other =
      if other = stack.symbols.size then
        ⟨span, symbol, (stack.stateNode parent).word, [child], [derivation],
          false⟩
      else
        stack.symbolNode other := by
  have inside : stack.symbols.size <
      (stack.addSymbol parent span symbol child).2.symbols.size := by
    rw [size_symbols_addSymbol]
    exact Nat.lt_succ_self _
  have isNew :
      (stack.addSymbol parent span symbol child).2.symbolNode
          stack.symbols.size =
        ⟨span, symbol, (stack.stateNode parent).word, [child], [], false⟩ :=
    (symbolNode_addSymbol _).trans (if_pos rfl)
  rw [placeNode, addDerivation, isNew]
  simp only [List.contains_nil, Bool.false_eq_true, if_false]
  rw [symbolNode_modifySymbol inside, isNew]
  split
  · rfl
  · rename_i isOld
    rw [symbolNode_addSymbol, if_neg isOld]

theorem Consistent.placeNode
    (consistent : stack.Consistent table)
    (inside : parent < stack.states.size)
    (isWord : (stack.stateNode parent).word = some word)
    (bears : Bears table stack child symbol parent) :
    (stack.placeNode parent span symbol child derivation).Consistent table ∧
      stack.Extends word
        (stack.placeNode parent span symbol child derivation) := by
  obtain ⟨childInside, ⟨own, isOwn, below⟩, leads⟩ := bears
  obtain rfl : own = word := Option.some.inj (isOwn.symm.trans isWord)
  obtain ⟨addedConsistent, addExtends⟩ :
      (stack.addSymbol parent span symbol child).2.Consistent table ∧
        stack.Extends own (stack.addSymbol parent span symbol child).2 :=
    consistent.addSymbol inside childInside isWord below leads
  exact ⟨sameShape_placeNode.consistent addedConsistent,
    addExtends.trans (sameShape_placeNode.extends own)⟩

/-- What growing a node brings about once its state is in the layer. -/
theorem StateAdded.grown
    {withState : GraphStack}
    {goto : StateId}
    {top : Nat}
    (added : StateAdded word goto stack withState top)
    (extended :
      stack.Extends word
        (withState.placeNode top span symbol below derivation))
    (topInside : top < withState.states.size)
    (topWord : (withState.stateNode top).word = some word)
    (inLayers : word < withState.layers.size) :
    NodeGrown word goto ⟨span, symbol, some word, [below], [derivation], false⟩
      top stack
      ((withState.placeNode top span symbol below derivation).markReduced
        withState.symbols.size) := by
  have size : withState.symbols.size = stack.symbols.size :=
    congrArg Array.size added.symbols
  rw [size]
  have stateNode : ∀ other : Nat,
      (withState.placeNode top span symbol below derivation).stateNode other =
        _ :=
    stateNode_placeNode topInside
  have symbolNode : ∀ other : Nat,
      (withState.placeNode top span symbol below derivation).symbolNode other =
        _ :=
    symbolNode_placeNode
  rw [size] at stateNode
  rw [size, topWord] at symbolNode
  have isWord :
      ((withState.placeNode top span symbol below derivation).symbolNode
        stack.symbols.size).word = some word := by
    rw [symbolNode, if_pos rfl]
  have inPlaced : word <
      (withState.placeNode top span symbol below derivation).layers.size := by
    rw [layers_placeNode]
    exact inLayers
  have layer := layer_markReduced isWord inPlaced
  simp only [layer_placeNode] at layer
  constructor
  case grows => exact extended.markReduced (Nat.le_refl _) isWord inPlaced
  case listed =>
    rw [layer, if_pos rfl]
    exact added.listed
  case state =>
    rw [stateNode_markReduced, stateNode, if_pos rfl]
    exact added.state
  case live =>
    rw [stateNode_markReduced, stateNode, if_pos rfl]
    exact added.live
  case active =>
    rw [stateNode_markReduced, stateNode, if_pos rfl]
    exact added.unchanged.1
  case children =>
    rw [stateNode_markReduced, stateNode, if_pos rfl]
    exact congrArg (· ++ [stack.symbols.size]) added.unchanged.2
  case other_state =>
    intro other otherInside differs
    rw [stateNode_markReduced, stateNode, if_neg differs]
    exact added.other other otherInside differs
  case states =>
    rw [states_markReduced, size_states_placeNode]
    exact added.only_new.1
  case only_top =>
    intro other isNew otherInside
    rw [states_markReduced, size_states_placeNode] at otherInside
    exact added.only_new.2 other isNew otherInside
  case symbols => rw [symbols_markReduced, size_symbols_placeNode, size]
  case symbol =>
    intro other
    rw [symbolNode_markReduced, symbolNode, added.symbolNode]
  case reduced =>
    intro own
    rw [layer]
    split
    · exact congrArg (· ++ [stack.symbols.size]) (added.reduced word)
    · exact added.reduced own

end PlaceNode

/-- Growing a node adds its state, places it there and lists it. -/
theorem growNode_eq
    {goto : StateId}
    {span : SpanId}
    {lhs : SymbolId} :
    stack.growNode word goto span lhs below derivation =
      ((stack.addState word goto).2.placeNode (stack.addState word goto).1.1
        span (some lhs) below derivation).markReduced
        (stack.addState word goto).2.symbols.size :=
  rfl

theorem Consistent.growNode
    (consistent : stack.Consistent table)
    (inLayers : word < stack.layers.size)
    (belowInside : below < stack.states.size)
    (before : WordBefore (stack.stateNode below).word word)
    {goto : StateId}
    {lhs : SymbolId}
    (leads : table.goto? (stack.stateNode below).state lhs = some goto)
    (span : SpanId)
    (derivation : Derivation) :
    (stack.growNode word goto span lhs below derivation).Consistent table ∧
      NodeGrown word goto
        ⟨span, some lhs, some word, [below], [derivation], false⟩
        (stack.addState word goto).1.1 stack
        (stack.growNode word goto span lhs below derivation) := by
  obtain ⟨addedConsistent, addExtends, added⟩ :=
    consistent.addState inLayers goto
  rw [growNode_eq]
  generalize (stack.addState word goto) = result
    at addedConsistent addExtends added ⊢
  obtain ⟨⟨top, flag⟩, withState⟩ := result
  simp only at addedConsistent addExtends added ⊢
  obtain ⟨topInside, topWord⟩ :=
    (addedConsistent.mem_layer top word).mp added.listed
  have bears : Bears table withState below (some lhs) top :=
    added.bears addExtends topWord belowInside before leads
  obtain ⟨placedConsistent, placedExtends⟩ :
      (withState.placeNode top span (some lhs) below derivation).Consistent
          table ∧
        withState.Extends word
          (withState.placeNode top span (some lhs) below derivation) :=
    addedConsistent.placeNode topInside topWord bears
  have stillInLayers : word < withState.layers.size :=
    addExtends.layers_size ▸ inLayers
  have grown := added.grown (addExtends.trans placedExtends) topInside topWord
    stillInLayers
  have inside : withState.symbols.size <
      (withState.placeNode top span (some lhs) below
        derivation).symbols.size := by
    rw [size_symbols_placeNode]
    exact Nat.lt_succ_self _
  have isWord :
      ((withState.placeNode top span (some lhs) below derivation).symbolNode
        withState.symbols.size).word = some word := by
    rw [symbolNode_placeNode, if_pos rfl]
    exact topWord
  have inPlaced : word <
      (withState.placeNode top span (some lhs) below
        derivation).layers.size := by
    rw [layers_placeNode]
    exact stillInLayers
  exact ⟨placedConsistent.markReduced inside isWord inPlaced, grown⟩

theorem NodeExtended.sameState
    {before after : GraphStack}
    (extended : NodeExtended word node derivation below before after)
    (id : Nat) :
    after.stateNode id = before.stateNode id := by
  rw [stateNode, extended.states]
  rfl

theorem NodeExtended.sameLayer
    {before after : GraphStack}
    (extended : NodeExtended word node derivation below before after)
    (own : Nat) :
    after.layer own = before.layer own := by
  rw [layer, extended.layers]
  rfl

theorem NodeExtended.unharmed
    {before after : GraphStack}
    (extended : NodeExtended word node derivation below before after) :
    before.Unharmed after where
  live live := by
    refine ⟨fun own => ?_, fun own => extended.removed own ▸ live.symbol own⟩
    rw [extended.sameState]
    exact live.state own
  symbol own inside := ⟨extended.symbols ▸ inside, extended.removed own⟩

/-- Growing a node changes no state node but the one on top of it. -/
theorem NodeGrown.stateNode_of_ne
    {before after : GraphStack}
    {goto : StateId}
    {content : SymbolNode}
    {top id : Nat}
    (grown : NodeGrown word goto content top before after)
    (differs : id ≠ top) :
    after.stateNode id = before.stateNode id := by
  by_cases inside : id < before.states.size
  · exact grown.other_state id inside differs
  · have outside : after.states.size ≤ id := by
      refine Nat.le_of_not_lt fun isNew => ?_
      exact differs (grown.only_top id (Nat.le_of_not_lt inside) isNew)
    rw [stateNode_of_le outside, stateNode_of_le (Nat.le_of_not_lt inside)]

theorem NodeGrown.live_of_live
    {before after : GraphStack}
    {goto : StateId}
    {content : SymbolNode}
    {top : Nat}
    (grown : NodeGrown word goto content top before after)
    (isLive : content.removed = false)
    (live : before.Live) :
    after.Live where
  state id := by
    by_cases isTop : id = top
    · rw [isTop]
      exact grown.live
    · rw [grown.stateNode_of_ne isTop]
      exact live.state id
  symbol id := by
    rw [grown.symbol]
    split
    · exact isLive
    · exact live.symbol id

theorem NodeGrown.unharmed
    {before after : GraphStack}
    {goto : StateId}
    {content : SymbolNode}
    {top : Nat}
    (grown : NodeGrown word goto content top before after)
    (isLive : content.removed = false) :
    before.Unharmed after where
  live := grown.live_of_live isLive
  symbol own inside := by
    refine ⟨?_, ?_⟩
    · rw [grown.symbols]
      exact Nat.lt_succ_of_lt inside
    · rw [grown.symbol, if_neg (Nat.ne_of_lt inside)]

/-- A span in the layer of a word, put on top of one more state node. -/
def readNode
    (stack : GraphStack)
    (word : Nat)
    (target : StateId)
    (span : SpanId)
    (symbol : Option SymbolId)
    (below : StateNodeId) :
    GraphStack :=
  let ((top, _), added) := stack.addState word target
  match added.findSpan? top span with
  | some node => (added.link node below).2
  | none => (added.addSymbol top span symbol below).2

/-- What reading a span brings about. -/
structure NodeRead
    (word : Nat)
    (target : StateId)
    (content : SymbolNode)
    (below : Nat)
    (before after : GraphStack) : Prop where
  grows : before.Extends word after
  rests :
    ∃ top node : Nat, top ∈ (after.layer word).nodes ∧
      (after.stateNode top).state = target ∧
      node ∈ (after.stateNode top).children ∧
      below ∈ (after.symbolNode node).children ∧
      (after.symbolNode node).span = content.span
  symbol :
    ∀ other : Nat, other < before.symbols.size →
      (after.symbolNode other).derivations =
          (before.symbolNode other).derivations ∧
        (after.symbolNode other).removed = (before.symbolNode other).removed
  linked :
    ∀ other child : Nat, other < before.symbols.size →
      child ∈ (after.symbolNode other).children →
        child ∈ (before.symbolNode other).children ∨
          child = below ∧ (before.symbolNode other).span = content.span
  added :
    ∀ other : Nat, before.symbols.size ≤ other → other < after.symbols.size →
      after.symbolNode other = content
  held :
    ∀ parent child : Nat, child ∈ (after.stateNode parent).children →
      child ∈ (before.stateNode parent).children ∨
        child = before.symbols.size ∧
          (after.stateNode parent).state = target ∧
          ∀ other ∈ (before.stateNode parent).children,
            (before.symbolNode other).removed = false →
              (before.symbolNode other).span ≠ content.span
  reduced :
    ∀ own : Nat, (after.layer own).reduced = (before.layer own).reduced
  live : before.Live → after.Live

theorem NodeRead.unharmed
    {before after : GraphStack}
    {target : StateId}
    {content : SymbolNode}
    (read : NodeRead word target content below before after) :
    before.Unharmed after where
  live := read.live
  symbol own inside :=
    ⟨Nat.lt_of_lt_of_le inside read.grows.symbols_size, (read.symbol own inside).2⟩

/-- All that a state node holds has the one symbol that leads to its state. -/
theorem Consistent.symbol_of_held
    (consistent : stack.Consistent table)
    {symbol : SymbolId}
    (unique : ∀ (state : StateId) (own : SymbolId),
      table.goto? state own = some (stack.stateNode holder).state →
        own = symbol)
    (held : node ∈ (stack.stateNode holder).children) :
    (stack.symbolNode node).symbol = some symbol := by
  have fits := consistent.fits_of_mem held
  obtain ⟨child, isChild⟩ := List.exists_mem_of_ne_nil _ fits.supported
  obtain ⟨-, -, own, isOwn, leads⟩ := fits.child child isChild
  rw [isOwn, unique _ own leads]

section Read

variable {withState : GraphStack} {target : StateId} {top : Nat}
variable {span : SpanId} {symbol : Option SymbolId}

/-- A span that its state node holds already is linked once more. -/
theorem StateAdded.read_link
    (added : StateAdded word target stack withState top)
    (extended : stack.Extends word (withState.link node below).2)
    (inside : node < withState.symbols.size)
    (held : node ∈ (withState.stateNode top).children)
    (isSpan : (withState.symbolNode node).span = span) :
    NodeRead word target ⟨span, symbol, some word, [below], [], false⟩ below
      stack (withState.link node below).2 := by
  constructor
  case grows => exact extended
  case rests =>
    refine ⟨top, node, ?_, ?_, ?_, ?_, ?_⟩
    · rw [layer_link]
      exact added.listed
    · rw [stateNode_link]
      exact added.state
    · rw [stateNode_link]
      exact held
    · exact (mem_children_link inside node below).mpr (.inr ⟨rfl, rfl⟩)
    · rw [symbolNode_link inside, if_pos rfl]
      exact isSpan
  case symbol =>
    intro other _
    rw [derivations_link inside, removed_link inside, added.symbolNode]
    exact ⟨rfl, rfl⟩
  case linked =>
    intro other child _ isChild
    rcases (mem_children_link inside other child).mp isChild with
      old | ⟨rfl, isBelow⟩
    · exact .inl (added.symbolNode other ▸ old)
    · exact .inr ⟨isBelow, added.symbolNode other ▸ isSpan⟩
  case added =>
    intro other isNew otherInside
    rw [size_symbols_link, added.symbols] at otherInside
    exact absurd otherInside (Nat.not_lt_of_le isNew)
  case held =>
    intro parent child isChild
    rw [stateNode_link, added.children] at isChild
    exact .inl isChild
  case reduced =>
    intro own
    rw [layer_link]
    exact added.reduced own
  case live =>
    intro live
    constructor
    · intro other
      rw [stateNode_link]
      exact (added.live_of_live live).state other
    · intro other
      rw [removed_link inside, added.symbolNode]
      exact live.symbol other

/-- A span that its state node does not hold gets a symbol node. -/
theorem StateAdded.read_addSymbol
    (added : StateAdded word target stack withState top)
    (extended :
      stack.Extends word (withState.addSymbol top span symbol below).2)
    (topInside : top < withState.states.size)
    (topWord : (withState.stateNode top).word = some word)
    (unheld :
      ∀ other ∈ (withState.stateNode top).children,
        (withState.symbolNode other).removed = false →
          (withState.symbolNode other).span ≠ span) :
    NodeRead word target ⟨span, symbol, some word, [below], [], false⟩ below
      stack (withState.addSymbol top span symbol below).2 := by
  have size : withState.symbols.size = stack.symbols.size :=
    congrArg Array.size added.symbols
  have stateNode : ∀ other : Nat,
      (withState.addSymbol top span symbol below).2.stateNode other = _ :=
    stateNode_addSymbol topInside
  have symbolNode : ∀ other : Nat,
      (withState.addSymbol top span symbol below).2.symbolNode other = _ :=
    symbolNode_addSymbol
  rw [size] at stateNode
  simp only [size, topWord, added.symbolNode] at symbolNode
  constructor
  case grows => exact extended
  case rests =>
    refine ⟨top, stack.symbols.size, added.listed, ?_, ?_, ?_, ?_⟩
    · rw [stateNode, if_pos rfl]
      exact added.state
    · rw [stateNode, if_pos rfl]
      exact List.mem_append_right _ List.mem_cons_self
    · rw [symbolNode, if_pos rfl]
      exact List.mem_cons_self
    · rw [symbolNode, if_pos rfl]
  case symbol =>
    intro other inside
    rw [symbolNode, if_neg (Nat.ne_of_lt inside)]
    exact ⟨rfl, rfl⟩
  case linked =>
    intro other child inside isChild
    rw [symbolNode, if_neg (Nat.ne_of_lt inside)] at isChild
    exact .inl isChild
  case added =>
    intro other isNew inside
    rw [size_symbols_addSymbol, size] at inside
    rw [symbolNode, if_pos (Nat.le_antisymm (Nat.le_of_lt_succ inside) isNew)]
  case held =>
    intro parent child isChild
    rw [stateNode] at isChild ⊢
    split at isChild
    · rename_i isTop
      subst isTop
      rw [if_pos rfl]
      rcases List.mem_append.mp isChild with old | isNew
      · exact .inl (added.children parent ▸ old)
      · refine .inr ⟨List.mem_singleton.mp isNew, added.state,
          fun other isOther live => ?_⟩
        rw [← added.symbolNode] at live ⊢
        exact unheld other (added.children parent ▸ isOther) live
    · exact .inl (added.children parent ▸ isChild)
  case reduced => exact added.reduced
  case live =>
    intro live
    constructor
    · intro other
      rw [removed_addSymbol topInside]
      exact (added.live_of_live live).state other
    · intro other
      rw [symbolNode]
      split
      · rfl
      · exact live.symbol other

end Read

/-- Reading a span keeps a stack consistent if one symbol alone leads to its state. -/
theorem Consistent.readNode
    (consistent : stack.Consistent table)
    (inLayers : word < stack.layers.size)
    (belowInside : below < stack.states.size)
    (before : WordBefore (stack.stateNode below).word word)
    {target : StateId}
    {symbol : SymbolId}
    (leads : table.goto? (stack.stateNode below).state symbol = some target)
    (unique : ∀ (state : StateId) (own : SymbolId),
      table.goto? state own = some target → own = symbol)
    (span : SpanId) :
    (stack.readNode word target span (some symbol) below).Consistent table ∧
      NodeRead word target ⟨span, some symbol, some word, [below], [], false⟩
        below stack
        (stack.readNode word target span (some symbol) below) := by
  obtain ⟨addedConsistent, addExtends, added⟩ :=
    consistent.addState inLayers target
  unfold GraphStack.readNode
  generalize (stack.addState word target) = result
    at addedConsistent addExtends added ⊢
  obtain ⟨⟨top, flag⟩, withState⟩ := result
  simp only at addedConsistent addExtends added ⊢
  obtain ⟨topInside, topWord⟩ :=
    (addedConsistent.mem_layer top word).mp added.listed
  obtain ⟨stillInside, ⟨own, isOwn, stillBefore⟩, topLeads⟩ :
      Bears table withState below (some symbol) top :=
    added.bears addExtends topWord belowInside before leads
  obtain rfl : own = word := Option.some.inj (isOwn.symm.trans topWord)
  split
  · rename_i node found
    obtain ⟨held, -, isSpan⟩ := findChild?_eq_some found
    have isSymbol : (withState.symbolNode node).symbol = some symbol :=
      addedConsistent.symbol_of_held (added.state ▸ unique) held
    obtain ⟨linkedConsistent, linkExtends⟩ := addedConsistent.link held
      stillInside topWord stillBefore (isSymbol.symm ▸ topLeads)
    exact ⟨linkedConsistent, added.read_link (addExtends.trans linkExtends)
      (addedConsistent.child_known top node held) held (eq_of_beq isSpan)⟩
  · rename_i notFound
    obtain ⟨placedConsistent, placedExtends⟩ :
        (withState.addSymbol top span (some symbol) below).2.Consistent table ∧
          withState.Extends own
            (withState.addSymbol top span (some symbol) below).2 :=
      addedConsistent.addSymbol topInside stillInside topWord stillBefore
        topLeads
    refine ⟨placedConsistent, added.read_addSymbol
      (addExtends.trans placedExtends) topInside topWord
      fun other isOther live => ?_⟩
    simpa using findChild?_eq_none notFound other isOther live

end GraphStack

end SpanForest
