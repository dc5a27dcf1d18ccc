import SpanForest.Proofs.Stack.Consistent

namespace SpanForest

/-!
# The operations of a parse keep stacks consistent

Marks and derivations leave the shape of a stack alone. A new state node joins
a layer that has no node of its state, and a symbol node is put on top of state
nodes from which the table leads to its holder.
-/

namespace GraphStack

variable {table : PackedTable} {stack : GraphStack}

section Shape

theorem sameShape_modifyState
    {id : Nat}
    {change : StateNode → StateNode}
    (state : ∀ node, (change node).state = node.state)
    (word : ∀ node, (change node).word = node.word)
    (children : ∀ node, (change node).children = node.children) :
    stack.SameShape (stack.modifyState id change) where
  layers := rfl
  states_size := size_states_modifyState
  symbols_size := rfl
  state other := by
    by_cases inside : id < stack.states.size
    · rw [stateNode_modifyState inside]
      split
      · rename_i same
        rw [same]
        exact ⟨state _, word _, children _⟩
      · exact ⟨rfl, rfl, rfl⟩
    · rw [modifyState_of_le (Nat.le_of_not_lt inside)]
      exact ⟨rfl, rfl, rfl⟩
  symbol _ := ⟨rfl, rfl, rfl, rfl⟩

theorem sameShape_modifySymbol
    {id : Nat}
    {change : SymbolNode → SymbolNode}
    (span : ∀ node, (change node).span = node.span)
    (symbol : ∀ node, (change node).symbol = node.symbol)
    (word : ∀ node, (change node).word = node.word)
    (children : ∀ node, (change node).children = node.children) :
    stack.SameShape (stack.modifySymbol id change) where
  layers := rfl
  states_size := rfl
  symbols_size := size_symbols_modifySymbol
  state _ := ⟨rfl, rfl, rfl⟩
  symbol other := by
    by_cases inside : id < stack.symbols.size
    · rw [symbolNode_modifySymbol inside]
      split
      · rename_i same
        rw [same]
        exact ⟨span _, symbol _, word _, children _⟩
      · exact ⟨rfl, rfl, rfl, rfl⟩
    · rw [modifySymbol_of_le (Nat.le_of_not_lt inside)]
      exact ⟨rfl, rfl, rfl, rfl⟩

theorem sameShape_setActive (id : Nat) (active : Bool) :
    stack.SameShape (stack.setActive id active) :=
  sameShape_modifyState (fun _ => rfl) (fun _ => rfl) fun _ => rfl

theorem sameShape_setStateRemoved (id : Nat) (removed : Bool) :
    stack.SameShape (stack.setStateRemoved id removed) :=
  sameShape_modifyState (fun _ => rfl) (fun _ => rfl) fun _ => rfl

theorem sameShape_setSymbolRemoved (id : Nat) (removed : Bool) :
    stack.SameShape (stack.setSymbolRemoved id removed) :=
  sameShape_modifySymbol (fun _ => rfl) (fun _ => rfl) (fun _ => rfl)
    fun _ => rfl

theorem sameShape_addDerivation
    (node : Nat)
    (derivation : Derivation) :
    stack.SameShape (stack.addDerivation node derivation).2 := by
  unfold addDerivation
  split
  · exact .refl stack
  · exact sameShape_modifySymbol (fun _ => rfl) (fun _ => rfl)
      (fun _ => rfl) fun _ => rfl

end Shape

theorem removed_setActive (id other : Nat) (active : Bool) :
    ((stack.setActive id active).stateNode other).removed =
      (stack.stateNode other).removed := by
  unfold GraphStack.setActive
  by_cases inside : id < stack.states.size
  · rw [stateNode_modifyState inside]
    split
    · rename_i same
      rw [same]
    · rfl
  · rw [modifyState_of_le (Nat.le_of_not_lt inside)]

theorem Live.setActive
    (live : stack.Live)
    (id : Nat)
    (active : Bool) :
    (stack.setActive id active).Live where
  state other := (removed_setActive id other active).trans (live.state other)
  symbol := live.symbol

/-- A state node that is marked as active was just marked, or was so before. -/
theorem active_of_setActive
    {id other : Nat}
    {mark : Bool}
    (isActive : ((stack.setActive id mark).stateNode other).active = true) :
    other = id ∧ mark = true ∨
      other ≠ id ∧ (stack.stateNode other).active = true := by
  unfold GraphStack.setActive at isActive
  by_cases inside : id < stack.states.size
  · rw [stateNode_modifyState inside] at isActive
    split at isActive
    · rename_i same
      exact .inl ⟨same, isActive⟩
    · rename_i differs
      exact .inr ⟨differs, isActive⟩
  · rw [modifyState_of_le (Nat.le_of_not_lt inside)] at isActive
    refine .inr ⟨fun same => ?_, isActive⟩
    rw [same, stateNode_of_le (Nat.le_of_not_lt inside)] at isActive
    cases isActive

theorem stateNode_setActive_of_ne
    {id other : Nat}
    (differs : other ≠ id)
    (mark : Bool) :
    (stack.setActive id mark).stateNode other = stack.stateNode other := by
  unfold GraphStack.setActive
  by_cases inside : id < stack.states.size
  · rw [stateNode_modifyState inside, if_neg differs]
  · exact modifyState_of_le (Nat.le_of_not_lt inside)

theorem unharmed_setActive (id : Nat) (active : Bool) :
    stack.Unharmed (stack.setActive id active) where
  live live := live.setActive id active
  symbol _ inside := ⟨inside, rfl⟩

/-- What adding a state node to a layer brings about. -/
structure StateAdded
    (word : Nat)
    (target : StateId)
    (before after : GraphStack)
    (id : Nat) : Prop where
  listed : id ∈ (after.layer word).nodes
  state : (after.stateNode id).state = target
  live : (after.stateNode id).removed = false
  symbols : after.symbols = before.symbols
  other :
    ∀ other : Nat, other < before.states.size → other ≠ id →
      after.stateNode other = before.stateNode other
  known :
    id < before.states.size →
      after.stateNode id = { before.stateNode id with removed := false } ∧
        after.states.size = before.states.size
  fresh :
    ¬ id < before.states.size →
      id = before.states.size ∧ after.stateNode id =
        ⟨target, some word, [], false, false⟩ ∧
        after.states.size = before.states.size + 1
  reduced :
    ∀ other : Nat, (after.layer other).reduced = (before.layer other).reduced

section StateAdded

variable {before after : GraphStack} {target : StateId}
variable {word id other : Nat}

/-- A state node that is added, or found, has the mark and the children it had. -/
theorem StateAdded.unchanged
    (added : StateAdded word target before after id) :
    (after.stateNode id).active = (before.stateNode id).active ∧
      (after.stateNode id).children = (before.stateNode id).children := by
  by_cases inside : id < before.states.size
  · rw [(added.known inside).1]
    exact ⟨rfl, rfl⟩
  · rw [(added.fresh inside).2.1, stateNode_of_le (Nat.le_of_not_lt inside)]
    exact ⟨rfl, rfl⟩

theorem StateAdded.symbolNode
    (added : StateAdded word target before after id)
    (node : Nat) :
    after.symbolNode node = before.symbolNode node := by
  rw [GraphStack.symbolNode, added.symbols]
  rfl

/-- At most one state node is new. -/
theorem StateAdded.only_new
    (added : StateAdded word target before after id) :
    after.states.size ≤ before.states.size + 1 ∧
      ∀ other : Nat, before.states.size ≤ other → other < after.states.size →
        other = id := by
  by_cases inside : id < before.states.size
  · have same := (added.known inside).2
    exact ⟨by omega, fun other isNew otherInside => by omega⟩
  · obtain ⟨isId, -, larger⟩ := added.fresh inside
    exact ⟨by omega, fun other isNew otherInside => by omega⟩

/-- Adding a state changes no other state node. -/
theorem StateAdded.stateNode_of_ne
    (added : StateAdded word target before after id)
    (differs : other ≠ id) :
    after.stateNode other = before.stateNode other := by
  by_cases inside : other < before.states.size
  · exact added.other other inside differs
  · have outside : after.states.size ≤ other := by
      refine Nat.le_of_not_lt fun isNew => ?_
      exact differs (added.only_new.2 other (Nat.le_of_not_lt inside) isNew)
    rw [stateNode_of_le outside, stateNode_of_le (Nat.le_of_not_lt inside)]

/-- Adding a state changes the children of no state node. -/
theorem StateAdded.children
    (added : StateAdded word target before after id)
    (other : Nat) :
    (after.stateNode other).children = (before.stateNode other).children := by
  by_cases isAdded : other = id
  · rw [isAdded]
    exact added.unchanged.2
  · rw [added.stateNode_of_ne isAdded]

theorem StateAdded.lt_size_of_ne
    (added : StateAdded word target before after id)
    (differs : other ≠ id)
    (inside : other < after.states.size) :
    other < before.states.size :=
  Nat.lt_of_not_le fun isNew => differs (added.only_new.2 other isNew inside)

/-- A live state node stays live, and the added one becomes live. -/
theorem StateAdded.stays_live
    (added : StateAdded word target before after id)
    (isLive : (before.stateNode other).removed = false) :
    (after.stateNode other).removed = false := by
  by_cases isAdded : other = id
  · rw [isAdded]
    exact added.live
  · rw [added.stateNode_of_ne isAdded]
    exact isLive

theorem StateAdded.live_of_live
    (added : StateAdded word target before after id)
    (live : before.Live) :
    after.Live where
  state other := added.stays_live (live.state other)
  symbol other := by
    rw [added.symbolNode]
    exact live.symbol other

/-- The states from which the table leads to an added one bear the symbol. -/
theorem StateAdded.bears
    (added : StateAdded word target before after id)
    (extended : before.Extends word after)
    (isWord : (after.stateNode id).word = some word)
    (inside : other < before.states.size)
    (below : WordBefore (before.stateNode other).word word)
    {symbol : SymbolId}
    (leads :
      table.goto? (before.stateNode other).state symbol = some target) :
    Bears table after other (some symbol) id := by
  have grows := extended.state other inside
  refine ⟨Nat.lt_of_lt_of_le inside extended.states_size,
    ⟨word, isWord, grows.word.symm ▸ below⟩, symbol, rfl, ?_⟩
  rw [grows.state, added.state]
  exact leads

end StateAdded

section PushState

variable {word : Nat} {state : StateId}

/-- A stack with one more node, for a state in the layer of a word. -/
def pushState (stack : GraphStack) (word : Nat) (state : StateId) : GraphStack :=
  GraphStack.modifyLayer
    { stack with
      states := stack.states.push ⟨state, some word, [], false, false⟩ }
    word fun layer => { layer with nodes := layer.nodes ++ [stack.states.size] }

/-- A state that its layer has is looked up, and its node revived. -/
theorem addState_of_found
    {id : Nat}
    (found : stack.findState? word state = some id) :
    stack.addState word state =
      ((id, false), stack.setStateRemoved id false) := by
  rw [addState, found]
  rfl

/-- A state that its layer lacks gets a new node. -/
theorem addState_of_missing
    (missing : stack.findState? word state = none) :
    stack.addState word state =
      ((stack.states.size, true), stack.pushState word state) := by
  rw [addState, missing]
  rfl

@[simp] theorem size_states_pushState :
    (stack.pushState word state).states.size = stack.states.size + 1 :=
  Array.size_push _

@[simp] theorem size_layers_pushState :
    (stack.pushState word state).layers.size = stack.layers.size :=
  Array.size_modify

theorem stateNode_pushState (id : Nat) :
    (stack.pushState word state).stateNode id =
      if id = stack.states.size then
        ⟨state, some word, [], false, false⟩
      else
        stack.stateNode id :=
  getD_push

@[simp] theorem stateNode_pushState_new :
    (stack.pushState word state).stateNode stack.states.size =
      ⟨state, some word, [], false, false⟩ := by
  rw [stateNode_pushState, if_pos rfl]

theorem stateNode_pushState_of_ne
    {id : Nat}
    (isOld : id ≠ stack.states.size) :
    (stack.pushState word state).stateNode id = stack.stateNode id := by
  rw [stateNode_pushState, if_neg isOld]

/-- The new node has no children, and the others keep theirs. -/
@[simp] theorem children_pushState (id : Nat) :
    ((stack.pushState word state).stateNode id).children =
      (stack.stateNode id).children := by
  rw [stateNode_pushState]
  split
  · rename_i isNew
    rw [isNew, stateNode_of_le (Nat.le_refl _)]
    rfl
  · rfl

theorem layer_pushState
    (inLayers : word < stack.layers.size)
    (other : Nat) :
    (stack.pushState word state).layer other =
      if other = word then
        { stack.layer word with
          nodes := (stack.layer word).nodes ++ [stack.states.size] }
      else
        stack.layer other :=
  getD_modify (α := Layer) inLayers

theorem mem_layer_pushState
    (inLayers : word < stack.layers.size)
    {other id : Nat} :
    id ∈ ((stack.pushState word state).layer other).nodes ↔
      id ∈ (stack.layer other).nodes ∨
        other = word ∧ id = stack.states.size := by
  rw [layer_pushState inLayers]
  split
  · rename_i same
    simp [same]
  · rename_i differs
    simp [differs]

theorem reduced_pushState
    (inLayers : word < stack.layers.size)
    (other : Nat) :
    ((stack.pushState word state).layer other).reduced =
      (stack.layer other).reduced := by
  rw [layer_pushState inLayers]
  split
  · rename_i same
    rw [same]
  · rfl

/-- A new state node stands at its word. -/
theorem extends_pushState (inLayers : word < stack.layers.size) :
    stack.Extends word (stack.pushState word state) where
  layers_size := size_layers_pushState
  states_size := by
    rw [size_states_pushState]
    exact Nat.le_succ _
  symbols_size := Nat.le_refl _
  state id inside := by
    rw [stateNode_pushState_of_ne (Nat.ne_of_lt inside)]
    exact .refl _ _
  symbol _ _ := .refl _ _
  reduced _ _ other := by rw [reduced_pushState inLayers]
  added id isNew inside := by
    have isId : id = stack.states.size := by
      rw [size_states_pushState] at inside
      omega
    subst isId
    exact ⟨word, by simp, Nat.le_refl _⟩

/-- A layer gets no second node of a state if it had none. -/
theorem Consistent.state_unique_pushState
    (consistent : stack.Consistent table)
    (inLayers : word < stack.layers.size)
    (missing :
      ∀ id ∈ (stack.layer word).nodes, (stack.stateNode id).state ≠ state)
    {own left right : Nat}
    (leftMember : left ∈ ((stack.pushState word state).layer own).nodes)
    (rightMember : right ∈ ((stack.pushState word state).layer own).nodes)
    (sameState :
      ((stack.pushState word state).stateNode left).state =
        ((stack.pushState word state).stateNode right).state) :
    left = right := by
  have isOld : ∀ id ∈ (stack.layer own).nodes, id ≠ stack.states.size :=
    fun id member =>
      Nat.ne_of_lt ((consistent.mem_layer id own).mp member).1
  rcases (mem_layer_pushState inLayers).mp leftMember with
    leftOld | ⟨isWord, rfl⟩ <;>
  rcases (mem_layer_pushState inLayers).mp rightMember with
    rightOld | ⟨isWord', rfl⟩
  · rw [stateNode_pushState_of_ne (isOld left leftOld),
      stateNode_pushState_of_ne (isOld right rightOld)] at sameState
    exact consistent.state_unique own left right leftOld rightOld sameState
  · subst isWord'
    rw [stateNode_pushState_of_ne (isOld left leftOld),
      stateNode_pushState_new] at sameState
    exact absurd sameState (missing left leftOld)
  · subst isWord
    rw [stateNode_pushState_of_ne (isOld right rightOld),
      stateNode_pushState_new] at sameState
    exact absurd sameState.symm (missing right rightOld)
  · rfl

/-- Adding a node for a state that its layer lacks. -/
theorem Consistent.pushState
    (consistent : stack.Consistent table)
    (inLayers : word < stack.layers.size)
    (missing :
      ∀ id ∈ (stack.layer word).nodes, (stack.stateNode id).state ≠ state) :
    (stack.pushState word state).Consistent table := by
  have start : (stack.pushState word state).stateNode startNode =
      stack.stateNode startNode :=
    stateNode_pushState_of_ne (Nat.ne_of_lt consistent.start_inside)
  constructor
  case start_inside =>
    rw [size_states_pushState]
    exact Nat.succ_pos _
  case start_state => rw [start]; exact consistent.start_state
  case start_word => rw [start]; exact consistent.start_word
  case start_children => rw [start]; exact consistent.start_children
  case only_start =>
    intro id inside noWord
    rw [size_states_pushState] at inside
    rw [stateNode_pushState] at noWord
    split at noWord
    · cases noWord
    · exact consistent.only_start id (by omega) noWord
  case mem_layer =>
    intro id own
    rw [mem_layer_pushState inLayers, consistent.mem_layer,
      size_states_pushState]
    by_cases isNew : id = stack.states.size
    · subst isNew
      simp [eq_comm]
    · rw [stateNode_pushState_of_ne isNew]
      have sameBound :
          id < stack.states.size + 1 ↔ id < stack.states.size := by omega
      simp [isNew, sameBound]
  case state_unique =>
    exact fun own left right leftMember rightMember sameState =>
      consistent.state_unique_pushState inLayers missing leftMember rightMember
        sameState
  case child_known =>
    intro parent node member
    rw [children_pushState] at member
    exact consistent.child_known parent node member
  case fits =>
    intro node inside
    obtain ⟨holder, fits⟩ := consistent.fits node inside
    refine ⟨holder, fits.extends (extends_pushState inLayers) inside
      (fun other => ?_) fun child member => .inl member⟩
    rw [children_pushState]
  case reduced_known =>
    intro own node member
    rw [reduced_pushState inLayers] at member
    exact consistent.reduced_known own node member
  case listed_once =>
    intro own
    rw [layer_pushState inLayers]
    split
    · refine nodup_append_singleton
        ⟨consistent.listed_once word, fun member => ?_⟩
      exact Nat.lt_irrefl _ ((consistent.mem_layer _ word).mp member).1
    · exact consistent.listed_once own
  case held_once =>
    intro parent
    rw [children_pushState]
    exact consistent.held_once parent
  case linked_once => exact consistent.linked_once

theorem stateAdded_pushState (inLayers : word < stack.layers.size) :
    StateAdded word state stack (stack.pushState word state)
      stack.states.size where
  listed := (mem_layer_pushState inLayers).mpr (.inr ⟨rfl, rfl⟩)
  state := by rw [stateNode_pushState_new]
  live := by rw [stateNode_pushState_new]
  symbols := rfl
  other _ _ isOld := stateNode_pushState_of_ne isOld
  known inside := absurd inside (Nat.lt_irrefl _)
  fresh _ := ⟨rfl, stateNode_pushState_new, size_states_pushState⟩
  reduced := reduced_pushState inLayers

end PushState

/-- A node that is looked up in its layer is revived. -/
theorem stateAdded_revived
    {word id : Nat}
    {state : StateId}
    (inside : id < stack.states.size)
    (listed : id ∈ (stack.layer word).nodes)
    (isState : (stack.stateNode id).state = state) :
    StateAdded word state stack (stack.setStateRemoved id false) id := by
  have revived : (stack.setStateRemoved id false).stateNode id =
      { stack.stateNode id with removed := false } :=
    (stateNode_modifyState inside).trans (if_pos rfl)
  constructor
  case listed => exact listed
  case state => rw [revived]; exact isState
  case live => rw [revived]
  case symbols => rfl
  case other =>
    exact fun other _ differs =>
      (stateNode_modifyState inside).trans (if_neg differs)
  case known => exact fun _ => ⟨revived, size_states_modifyState⟩
  case fresh => exact fun outside => absurd inside outside
  case reduced => exact fun _ => rfl

/-- A state node that is added has no children, and the others keep theirs. -/
theorem children_addState
    {word : Nat}
    (state : StateId)
    (parent : StateNodeId) :
    ((stack.addState word state).2.stateNode parent).children =
      (stack.stateNode parent).children := by
  cases found : stack.findState? word state with
  | some id =>
      rw [addState_of_found found]
      exact ((sameShape_setStateRemoved id false).state parent).2.2
  | none =>
      rw [addState_of_missing found]
      exact children_pushState parent

theorem symbols_addState
    {word : Nat}
    (state : StateId) :
    (stack.addState word state).2.symbols = stack.symbols := by
  unfold addState
  split <;> rfl

/-- Looking a state up in a layer, or adding it there. -/
theorem Consistent.addState
    (consistent : stack.Consistent table)
    {word : Nat}
    (inLayers : word < stack.layers.size)
    (state : StateId) :
    (stack.addState word state).2.Consistent table ∧
      stack.Extends word (stack.addState word state).2 ∧
      StateAdded word state stack (stack.addState word state).2
        (stack.addState word state).1.1 := by
  cases found : stack.findState? word state with
  | some id =>
      obtain ⟨listed, isState⟩ := findState?_eq_some found
      have inside := ((consistent.mem_layer id word).mp listed).1
      have shape : stack.SameShape (stack.setStateRemoved id false) :=
        sameShape_setStateRemoved id false
      rw [addState_of_found found]
      exact ⟨shape.consistent consistent, shape.extends word,
        stateAdded_revived inside listed isState⟩
  | none =>
      rw [addState_of_missing found]
      exact ⟨consistent.pushState inLayers (findState?_eq_none found),
        extends_pushState inLayers, stateAdded_pushState inLayers⟩

section AddSymbol

variable {parent child word : Nat} {span : SpanId} {symbol : Option SymbolId}

theorem layers_addSymbol :
    (stack.addSymbol parent span symbol child).2.layers = stack.layers :=
  rfl

theorem size_states_addSymbol :
    (stack.addSymbol parent span symbol child).2.states.size =
      stack.states.size :=
  size_states_modifyState

theorem size_symbols_addSymbol :
    (stack.addSymbol parent span symbol child).2.symbols.size =
      stack.symbols.size + 1 :=
  Array.size_push _

theorem stateNode_addSymbol
    (inside : parent < stack.states.size)
    (other : Nat) :
    (stack.addSymbol parent span symbol child).2.stateNode other =
      if other = parent then
        { stack.stateNode parent with
          children :=
            (stack.stateNode parent).children ++ [stack.symbols.size] }
      else
        stack.stateNode other :=
  stateNode_modifyState inside

theorem symbolNode_addSymbol (other : Nat) :
    (stack.addSymbol parent span symbol child).2.symbolNode other =
      if other = stack.symbols.size then
        ⟨span, symbol, (stack.stateNode parent).word, [child], [], false⟩
      else
        stack.symbolNode other :=
  getD_push

theorem symbolNode_addSymbol_of_lt
    {node : Nat}
    (inside : node < stack.symbols.size) :
    (stack.addSymbol parent span symbol child).2.symbolNode node =
      stack.symbolNode node := by
  rw [symbolNode_addSymbol, if_neg (Nat.ne_of_lt inside)]

/-- The children of state nodes after one symbol was added. -/
theorem mem_children_addSymbol
    (inside : parent < stack.states.size)
    (other node : Nat) :
    node ∈ ((stack.addSymbol parent span symbol child).2.stateNode
        other).children ↔
      node ∈ (stack.stateNode other).children ∨
        other = parent ∧ node = stack.symbols.size := by
  rw [stateNode_addSymbol inside]
  split
  · rename_i same
    simp [same]
  · rename_i differs
    simp [differs]

/-- A new symbol gives its parent one more child, and nothing else. -/
theorem sameStates_addSymbol (inside : parent < stack.states.size) :
    stack.SameStates (stack.addSymbol parent span symbol child).2 where
  size := size_states_addSymbol
  state other := by
    rw [stateNode_addSymbol inside]
    split
    · rename_i same
      rw [same]
    · rfl
  word other := by
    rw [stateNode_addSymbol inside]
    split
    · rename_i same
      rw [same]
    · rfl
  nodes _ := rfl

theorem removed_addSymbol
    (inside : parent < stack.states.size)
    (other : Nat) :
    ((stack.addSymbol parent span symbol child).2.stateNode other).removed =
      (stack.stateNode other).removed := by
  rw [stateNode_addSymbol inside]
  split
  · rename_i same
    rw [same]
  · rfl

/-- A new symbol stands where its parent does. -/
theorem extends_addSymbol
    (inside : parent < stack.states.size)
    (isWord : (stack.stateNode parent).word = some word) :
    stack.Extends word (stack.addSymbol parent span symbol child).2 where
  layers_size := congrArg Array.size layers_addSymbol
  states_size := Nat.le_of_eq size_states_addSymbol.symm
  symbols_size := by
    rw [size_symbols_addSymbol]
    exact Nat.le_succ _
  state id _ := by
    have same :
        stack.SameStates (stack.addSymbol parent span symbol child).2 :=
      sameStates_addSymbol inside
    refine ⟨same.state id, same.word id, fun node member => ?_, fun early => ?_⟩
    · exact (mem_children_addSymbol inside id node).mpr (.inl member)
    · have notParent : id ≠ parent := by
        rintro rfl
        exact Nat.lt_irrefl _ (early word isWord)
      rw [stateNode_addSymbol inside, if_neg notParent]
  symbol node nodeInside := by
    rw [symbolNode_addSymbol_of_lt nodeInside]
    exact .refl _ _
  reduced _ _ _ := Iff.rfl
  added id isNew idInside :=
    absurd (size_states_addSymbol ▸ idInside) (Nat.not_lt_of_le isNew)

/-- A new symbol fits if the table leads from its child to its parent. -/
theorem Consistent.fits_addSymbol
    (consistent : stack.Consistent table)
    (inside : parent < stack.states.size)
    (isWord : (stack.stateNode parent).word = some word)
    (bears : Bears table stack child symbol parent) :
    Fits table (stack.addSymbol parent span symbol child).2 stack.symbols.size
      parent := by
  have same :
      stack.SameStates (stack.addSymbol parent span symbol child).2 :=
    sameStates_addSymbol inside
  have unheld : ∀ other : Nat,
      stack.symbols.size ∉ (stack.stateNode other).children :=
    fun other member =>
      Nat.lt_irrefl _ (consistent.child_known other _ member)
  have isNew :
      (stack.addSymbol parent span symbol child).2.symbolNode
          stack.symbols.size =
        ⟨span, symbol, (stack.stateNode parent).word, [child], [], false⟩ :=
    (symbolNode_addSymbol _).trans (if_pos rfl)
  constructor
  case inside => exact same.size.symm ▸ inside
  case holds =>
    intro other
    rw [mem_children_addSymbol inside]
    simp [unheld other]
  case word => rw [isNew, same.word]
  case supported => simp [isNew]
  case child =>
    intro other member
    rw [isNew] at member ⊢
    rw [List.mem_singleton.mp member]
    exact bears.extends inside (extends_addSymbol inside isWord)

/-- Putting a symbol on top of a state from which the table leads to its holder. -/
theorem Consistent.addSymbol
    (consistent : stack.Consistent table)
    (inside : parent < stack.states.size)
    (childInside : child < stack.states.size)
    (isWord : (stack.stateNode parent).word = some word)
    (below : WordBefore (stack.stateNode child).word word)
    (leads : Leads table stack child symbol parent) :
    (stack.addSymbol parent span symbol child).2.Consistent table ∧
      stack.Extends word (stack.addSymbol parent span symbol child).2 := by
  have extended :
      stack.Extends word (stack.addSymbol parent span symbol child).2 :=
    extends_addSymbol inside isWord
  refine ⟨?_, extended⟩
  refine (sameStates_addSymbol inside).consistent consistent ?start_children
    ?child_known ?fits ?reduced_known ?held_once ?linked_once
  case start_children =>
    have startNotParent : startNode ≠ parent := by
      rintro rfl
      rw [consistent.start_word] at isWord
      cases isWord
    rw [stateNode_addSymbol inside, if_neg startNotParent]
    exact consistent.start_children
  case child_known =>
    intro id node member
    rw [size_symbols_addSymbol]
    rcases (mem_children_addSymbol inside id node).mp member with
      known | ⟨-, isNew⟩
    · exact Nat.lt_succ_of_lt (consistent.child_known id node known)
    · omega
  case fits =>
    intro node nodeInside
    rw [size_symbols_addSymbol] at nodeInside
    by_cases isNew : node = stack.symbols.size
    · subst isNew
      exact ⟨parent, consistent.fits_addSymbol inside isWord
        ⟨childInside, ⟨word, isWord, below⟩, leads⟩⟩
    · have isOld : node < stack.symbols.size := by omega
      obtain ⟨holder, fits⟩ := consistent.fits node isOld
      refine ⟨holder, fits.extends extended isOld (fun other => ?_)
        fun other member => .inl ?_⟩
      · rw [mem_children_addSymbol inside]
        simp [isNew]
      · exact symbolNode_addSymbol_of_lt isOld ▸ member
  case reduced_known =>
    intro own node member
    obtain ⟨isOld, sameWord⟩ := consistent.reduced_known own node member
    rw [size_symbols_addSymbol, symbolNode_addSymbol_of_lt isOld]
    exact ⟨Nat.lt_succ_of_lt isOld, sameWord⟩
  case held_once =>
    intro id
    rw [stateNode_addSymbol inside]
    split
    · refine nodup_append_singleton
        ⟨consistent.held_once parent, fun member => ?_⟩
      exact Nat.lt_irrefl _ (consistent.child_known parent _ member)
    · exact consistent.held_once id
  case linked_once =>
    intro node
    rw [symbolNode_addSymbol]
    split
    · simp
    · exact consistent.linked_once node

end AddSymbol

section Link

variable {node child holder word : Nat}

theorem layers_link :
    (stack.link node child).2.layers = stack.layers := by
  unfold link
  split <;> rfl

theorem states_link :
    (stack.link node child).2.states = stack.states := by
  unfold link
  split <;> rfl

theorem size_symbols_link :
    (stack.link node child).2.symbols.size = stack.symbols.size := by
  unfold link
  split
  · rfl
  · exact size_symbols_modifySymbol

theorem symbolNode_link
    (inside : node < stack.symbols.size)
    (other : Nat) :
    (stack.link node child).2.symbolNode other =
      if other = node then
        { stack.symbolNode node with
          children :=
            if (stack.symbolNode node).children.contains child then
              (stack.symbolNode node).children
            else
              (stack.symbolNode node).children ++ [child] }
      else
        stack.symbolNode other := by
  unfold link
  split
  · split
    · rename_i same
      simp [same]
    · rfl
  · exact symbolNode_modifySymbol inside

/-- Whether a link is new. -/
theorem link_fst :
    (stack.link node child).1 = true ↔
      child ∉ (stack.symbolNode node).children := by
  unfold link
  split
  · rename_i linked
    simpa using linked
  · rename_i notLinked
    simpa using notLinked

/-- The child states of a node after linking it. -/
theorem mem_children_link
    (inside : node < stack.symbols.size)
    (other below : Nat) :
    below ∈ ((stack.link node child).2.symbolNode other).children ↔
      below ∈ (stack.symbolNode other).children ∨
        other = node ∧ below = child := by
  rw [symbolNode_link inside]
  split
  · rename_i same
    subst same
    by_cases known : child ∈ (stack.symbolNode other).children
    · simp only [List.contains_iff_mem, known, if_true, true_and]
      constructor
      · exact .inl
      · rintro (member | rfl)
        · exact member
        · exact known
    · simp [known]
  · rename_i differs
    simp [differs]

@[simp] theorem stateNode_link (id : Nat) :
    (stack.link node child).2.stateNode id = stack.stateNode id := by
  rw [stateNode, states_link]
  rfl

@[simp] theorem layer_link (other : Nat) :
    (stack.link node child).2.layer other = stack.layer other := by
  rw [layer, layers_link]
  rfl

theorem sameStates_link : stack.SameStates (stack.link node child).2 where
  size := congrArg Array.size states_link
  state id := congrArg StateNode.state (stateNode_link id)
  word id := congrArg StateNode.word (stateNode_link id)
  nodes other := congrArg Layer.nodes (layer_link other)

theorem derivations_link
    (inside : node < stack.symbols.size)
    (other : Nat) :
    ((stack.link node child).2.symbolNode other).derivations =
      (stack.symbolNode other).derivations := by
  rw [symbolNode_link inside]
  split
  · rename_i same
    rw [same]
  · rfl

theorem removed_link
    (inside : node < stack.symbols.size)
    (other : Nat) :
    ((stack.link node child).2.symbolNode other).removed =
      (stack.symbolNode other).removed := by
  rw [symbolNode_link inside]
  split
  · rename_i same
    rw [same]
  · rfl

/-- A link matters to the children of the node only. -/
theorem grows_link
    (inside : node < stack.symbols.size)
    (isWord : (stack.symbolNode node).word = some word)
    (other : Nat) :
    (stack.symbolNode other).Grows word
      ((stack.link node child).2.symbolNode other) := by
  by_cases same : other = node
  · subst same
    have kept : (stack.symbolNode other).children ⊆
        ((stack.link other child).2.symbolNode other).children :=
      fun low member => (mem_children_link inside other low).mpr (.inl member)
    rw [symbolNode_link inside, if_pos rfl] at kept ⊢
    exact ⟨rfl, rfl, rfl, kept,
      fun early => absurd (early word isWord) (Nat.lt_irrefl _)⟩
  · rw [symbolNode_link inside, if_neg same]
    exact .refl _ _

theorem extends_link
    (inside : node < stack.symbols.size)
    (isWord : (stack.symbolNode node).word = some word) :
    stack.Extends word (stack.link node child).2 where
  layers_size := congrArg Array.size layers_link
  states_size := Nat.le_of_eq (congrArg Array.size states_link.symm)
  symbols_size := Nat.le_of_eq size_symbols_link.symm
  state id _ := by
    rw [stateNode_link]
    exact .refl _ _
  symbol other _ := grows_link inside isWord other
  reduced _ _ own := by rw [layer_link]
  added id isNew idInside :=
    absurd (states_link ▸ idInside) (Nat.not_lt_of_le isNew)

/-- Putting a node on top of one more state that leads to its holder. -/
theorem Consistent.link
    (consistent : stack.Consistent table)
    (held : node ∈ (stack.stateNode holder).children)
    (childInside : child < stack.states.size)
    (isWord : (stack.stateNode holder).word = some word)
    (below : WordBefore (stack.stateNode child).word word)
    (leads : Leads table stack child (stack.symbolNode node).symbol holder) :
    (stack.link node child).2.Consistent table ∧
      stack.Extends word (stack.link node child).2 := by
  have inside := consistent.child_known holder node held
  have extended : stack.Extends word (stack.link node child).2 :=
    extends_link inside ((consistent.fits_of_mem held).word.trans isWord)
  refine ⟨?_, extended⟩
  refine sameStates_link.consistent consistent ?start_children ?child_known
    ?fits ?reduced_known ?held_once ?linked_once
  case start_children =>
    rw [stateNode_link]
    exact consistent.start_children
  case child_known =>
    intro id other member
    rw [stateNode_link] at member
    rw [size_symbols_link]
    exact consistent.child_known id other member
  case fits =>
    intro other otherInside
    rw [size_symbols_link] at otherInside
    obtain ⟨own, fits⟩ := consistent.fits other otherInside
    refine ⟨own, fits.extends extended otherInside (fun parent => ?_)
      fun low member => ?_⟩
    · rw [stateNode_link]
    · rcases (mem_children_link inside other low).mp member with
        known | ⟨rfl, rfl⟩
      · exact .inl known
      · have sameHolder := (fits.holds holder).mp held
        subst sameHolder
        exact .inr ⟨childInside, ⟨word, isWord, below⟩, leads⟩
  case reduced_known =>
    intro own other member
    rw [layer_link] at member
    obtain ⟨otherInside, sameWord⟩ := consistent.reduced_known own other member
    rw [size_symbols_link, (extended.symbol other otherInside).word]
    exact ⟨otherInside, sameWord⟩
  case held_once =>
    intro parent
    rw [stateNode_link]
    exact consistent.held_once parent
  case linked_once =>
    intro other
    rw [symbolNode_link inside]
    split
    · simp only [List.contains_iff_mem]
      split
      · exact consistent.linked_once node
      · rename_i notLinked
        exact nodup_append_singleton
          ⟨consistent.linked_once node, notLinked⟩
    · exact consistent.linked_once other

end Link

section MarkReduced

variable {node word : Nat}

theorem states_markReduced : (stack.markReduced node).states = stack.states := by
  unfold markReduced
  split <;> rfl

theorem symbols_markReduced :
    (stack.markReduced node).symbols = stack.symbols := by
  unfold markReduced
  split <;> rfl

@[simp] theorem stateNode_markReduced (id : Nat) :
    (stack.markReduced node).stateNode id = stack.stateNode id := by
  rw [stateNode, states_markReduced]
  rfl

@[simp] theorem symbolNode_markReduced (id : Nat) :
    (stack.markReduced node).symbolNode id = stack.symbolNode id := by
  rw [symbolNode, symbols_markReduced]
  rfl

theorem size_layers_markReduced :
    (stack.markReduced node).layers.size = stack.layers.size := by
  unfold markReduced
  split
  · exact Array.size_modify
  · rfl

theorem layer_markReduced
    (isWord : (stack.symbolNode node).word = some word)
    (inLayers : word < stack.layers.size)
    (other : Nat) :
    (stack.markReduced node).layer other =
      if other = word then
        { stack.layer word with
          reduced := (stack.layer word).reduced ++ [node] }
      else
        stack.layer other := by
  unfold markReduced
  rw [isWord]
  exact getD_modify (α := Layer) inLayers

theorem sameStates_markReduced
    (isWord : (stack.symbolNode node).word = some word)
    (inLayers : word < stack.layers.size) :
    stack.SameStates (stack.markReduced node) where
  size := congrArg Array.size states_markReduced
  state id := congrArg StateNode.state (stateNode_markReduced id)
  word id := congrArg StateNode.word (stateNode_markReduced id)
  nodes other := by
    rw [layer_markReduced isWord inLayers]
    split
    · rename_i same
      rw [same]
    · rfl

/-- What is listed among the reduced nodes does not matter to fitting. -/
theorem Fits.markReduced
    {other holder : Nat}
    (fits : Fits table stack other holder) :
    Fits table (stack.markReduced node) other holder := by
  constructor
  case inside => rw [states_markReduced]; exact fits.inside
  case holds => simpa [Holds] using fits.holds
  case word => simpa using fits.word
  case supported => simpa using fits.supported
  case child => simpa [Leads, states_markReduced] using fits.child

/-- Listing a node among those reduced at its word. -/
theorem Consistent.markReduced
    (consistent : stack.Consistent table)
    (inside : node < stack.symbols.size)
    (isWord : (stack.symbolNode node).word = some word)
    (inLayers : word < stack.layers.size) :
    (stack.markReduced node).Consistent table := by
  refine (sameStates_markReduced isWord inLayers).consistent consistent
    ?start_children ?child_known ?fits ?reduced_known ?held_once ?linked_once
  case start_children =>
    rw [stateNode_markReduced]
    exact consistent.start_children
  case child_known =>
    intro parent other member
    rw [stateNode_markReduced] at member
    rw [symbols_markReduced]
    exact consistent.child_known parent other member
  case fits =>
    intro other otherInside
    rw [symbols_markReduced] at otherInside
    obtain ⟨holder, fits⟩ := consistent.fits other otherInside
    exact ⟨holder, fits.markReduced⟩
  case reduced_known =>
    intro own other member
    rw [symbols_markReduced, symbolNode_markReduced]
    rw [layer_markReduced isWord inLayers] at member
    split at member
    · rename_i same
      subst same
      rcases List.mem_append.mp member with known | isNode
      · exact consistent.reduced_known own other known
      · rw [List.mem_singleton.mp isNode]
        exact ⟨inside, isWord⟩
    · exact consistent.reduced_known own other member
  case held_once =>
    intro parent
    rw [stateNode_markReduced]
    exact consistent.held_once parent
  case linked_once =>
    intro other
    rw [symbolNode_markReduced]
    exact consistent.linked_once other

/-- Listing a node that came later. -/
theorem Extends.markReduced
    {base : GraphStack}
    {since : Nat}
    (extended : base.Extends since stack)
    (isNew : base.symbols.size ≤ node)
    (isWord : (stack.symbolNode node).word = some word)
    (inLayers : word < stack.layers.size) :
    base.Extends since (stack.markReduced node) where
  layers_size := size_layers_markReduced.trans extended.layers_size
  states_size := by
    rw [states_markReduced]
    exact extended.states_size
  symbols_size := by
    rw [symbols_markReduced]
    exact extended.symbols_size
  state id inside := by
    rw [stateNode_markReduced]
    exact extended.state id inside
  symbol id inside := by
    rw [symbolNode_markReduced]
    exact extended.symbol id inside
  reduced id inside own := by
    rw [← extended.reduced id inside own, layer_markReduced isWord inLayers]
    split
    · rename_i same
      subst same
      have notNode : id ≠ node := by omega
      simp [notNode]
    · exact Iff.rfl
  added id isNew inside := by
    rw [states_markReduced] at inside
    rw [stateNode_markReduced]
    exact extended.added id isNew inside

end MarkReduced

section AddDerivation

variable {node : Nat} {derivation : Derivation}

/-- The derivations of nodes after one more was added. -/
theorem mem_derivations_addDerivation
    (inside : node < stack.symbols.size)
    (other : Nat)
    (held : Derivation) :
    held ∈ ((stack.addDerivation node derivation).2.symbolNode
        other).derivations ↔
      held ∈ (stack.symbolNode other).derivations ∨
        other = node ∧ held = derivation := by
  unfold addDerivation
  split
  · rename_i known
    have listed : derivation ∈ (stack.symbolNode node).derivations := by
      simpa using known
    constructor
    · exact .inl
    · rintro (member | ⟨rfl, rfl⟩)
      · exact member
      · exact listed
  · rw [symbolNode_modifySymbol inside]
    split
    · rename_i same
      simp [same]
    · rename_i differs
      simp [differs]

/-- No node gets a derivation that it has. -/
theorem nodup_derivations_addDerivation
    {other : Nat}
    (once : (stack.symbolNode other).derivations.Nodup) :
    ((stack.addDerivation node derivation).2.symbolNode
      other).derivations.Nodup := by
  unfold addDerivation
  split
  · exact once
  · rename_i unknown
    by_cases inside : node < stack.symbols.size
    · rw [symbolNode_modifySymbol inside]
      split
      · rename_i same
        exact nodup_append_singleton ⟨same ▸ once, by simpa using unknown⟩
      · exact once
    · rw [modifySymbol_of_le (Nat.le_of_not_lt inside)]
      exact once

theorem removed_addDerivation (other : Nat) :
    ((stack.addDerivation node derivation).2.symbolNode other).removed =
      (stack.symbolNode other).removed := by
  unfold addDerivation
  split
  · rfl
  · by_cases inside : node < stack.symbols.size
    · rw [symbolNode_modifySymbol inside]
      split
      · rename_i same
        rw [same]
      · rfl
    · rw [modifySymbol_of_le (Nat.le_of_not_lt inside)]

theorem states_addDerivation :
    (stack.addDerivation node derivation).2.states = stack.states := by
  unfold addDerivation
  split <;> rfl

end AddDerivation

/-- The layers of a new stack are empty. -/
theorem layer_new (count word : Nat) :
    (GraphStack.new count startState).layer word = ⟨[], []⟩ := by
  by_cases inside : word < count <;> simp [layer, GraphStack.new, inside]

/-- The stack of the start node alone is consistent. -/
theorem consistent_new (count : Nat) :
    (GraphStack.new count startState).Consistent table := by
  have noLayer := layer_new count
  have stateNode : ∀ id : Nat,
      ((GraphStack.new count startState).stateNode id).word = none ∧
        ((GraphStack.new count startState).stateNode id).children = [] := by
    intro id
    cases id with
    | zero => exact ⟨rfl, rfl⟩
    | succ id =>
        rw [stateNode_of_le (by simp [GraphStack.new])]
        exact ⟨rfl, rfl⟩
  constructor
  case start_inside => simp [GraphStack.new]
  case start_state => rfl
  case start_word => rfl
  case start_children => rfl
  case only_start =>
    intro id inside _
    have isFirst : id < 1 := inside
    exact Nat.lt_one_iff.mp isFirst
  case mem_layer =>
    intro id word
    rw [noLayer, (stateNode id).1]
    simp
  case state_unique =>
    intro word left right member
    rw [noLayer] at member
    simp at member
  case child_known =>
    intro parent node member
    rw [(stateNode parent).2] at member
    simp at member
  case fits =>
    intro node inside
    simp [GraphStack.new] at inside
  case reduced_known =>
    intro word node member
    rw [noLayer] at member
    simp at member
  case listed_once =>
    intro word
    rw [noLayer]
    exact .nil
  case held_once =>
    intro parent
    rw [(stateNode parent).2]
    exact .nil
  case linked_once =>
    intro node
    rw [symbolNode_of_le (by simp [GraphStack.new])]
    exact .nil

theorem live_new (count : Nat) : (GraphStack.new count startState).Live where
  state id := by
    cases id with
    | zero => rfl
    | succ id =>
        rw [stateNode_of_le (by simp [GraphStack.new])]
        rfl
  symbol id := by
    rw [symbolNode_of_le (by simp [GraphStack.new])]
    rfl

end GraphStack

end SpanForest
