import SpanForest.Stack.Paths

namespace SpanForest

/-!
# What the operations on a stack change

Every operation is described by what it leaves in each state node, each symbol
node and each layer.
-/

/-- A list stays free of repetitions if a new item is put behind it. -/
theorem nodup_append_singleton
    {α : Type}
    {list : List α}
    {item : α}
    (once : list.Nodup ∧ item ∉ list) :
    (list ++ [item]).Nodup := by
  refine List.nodup_append.mpr ⟨once.1, by simp, fun other member => ?_⟩
  simp only [List.mem_singleton]
  rintro _ rfl same
  exact once.2 (same ▸ member)

section Arrays

variable {α : Type} [Inhabited α] {items : Array α} {index other : Nat}

theorem getD_modify
    {change : α → α}
    (inside : index < items.size) :
    (items.modify index change).getD other default =
      if other = index then
        change (items.getD index default)
      else
        items.getD other default := by
  simp only [Array.getD_eq_getD_getElem?, Array.getElem?_modify]
  by_cases same : other = index
  · subst same
    simp [inside]
  · simp [same, Ne.symm same]

theorem getD_push {item : α} :
    (items.push item).getD other default =
      if other = items.size then item else items.getD other default := by
  simp only [Array.getD_eq_getD_getElem?, Array.getElem?_push]
  split <;> rfl

end Arrays

namespace GraphStack

variable {stack : GraphStack} {id other word : Nat}

theorem stateNode_of_le
    (outside : stack.states.size ≤ id) :
    stack.stateNode id = default := by
  rw [stateNode, Array.getD_eq_getD_getElem?,
    Array.getElem?_eq_none outside, Option.getD_none]

theorem symbolNode_of_le
    (outside : stack.symbols.size ≤ id) :
    stack.symbolNode id = default := by
  rw [symbolNode, Array.getD_eq_getD_getElem?,
    Array.getElem?_eq_none outside, Option.getD_none]

/-- Only nodes of the stack have derivations. -/
theorem lt_size_of_mem_derivations
    {derivation : Derivation}
    (member : derivation ∈ (stack.symbolNode id).derivations) :
    id < stack.symbols.size := by
  refine Nat.lt_of_not_le fun outside => ?_
  rw [symbolNode_of_le outside] at member
  cases member

/-- Only nodes of the stack have a symbol. -/
theorem lt_size_of_symbol
    {symbol : SymbolId}
    (isSymbol : (stack.symbolNode id).symbol = some symbol) :
    id < stack.symbols.size := by
  refine Nat.lt_of_not_le fun outside => ?_
  rw [symbolNode_of_le outside] at isSymbol
  cases isSymbol

section Modify

variable {changeState : StateNode → StateNode}
variable {changeSymbol : SymbolNode → SymbolNode}

theorem stateNode_modifyState
    (inside : id < stack.states.size) :
    (stack.modifyState id changeState).stateNode other =
      if other = id then
        changeState (stack.stateNode id)
      else
        stack.stateNode other :=
  getD_modify inside

theorem modifyState_of_le
    (outside : stack.states.size ≤ id) :
    (stack.modifyState id changeState).stateNode other =
      stack.stateNode other := by
  simp only [stateNode, modifyState, Array.getD_eq_getD_getElem?,
    Array.getElem?_modify]
  split
  · rename_i same
    subst same
    simp [Array.getElem?_eq_none outside]
  · rfl

@[simp] theorem symbolNode_modifyState :
    (stack.modifyState id changeState).symbolNode other =
      stack.symbolNode other :=
  rfl

@[simp] theorem layer_modifyState :
    (stack.modifyState id changeState).layer word = stack.layer word :=
  rfl

@[simp] theorem size_states_modifyState :
    (stack.modifyState id changeState).states.size = stack.states.size :=
  Array.size_modify

@[simp] theorem symbols_modifyState :
    (stack.modifyState id changeState).symbols = stack.symbols :=
  rfl

@[simp] theorem layers_modifyState :
    (stack.modifyState id changeState).layers = stack.layers :=
  rfl

theorem symbolNode_modifySymbol
    (inside : id < stack.symbols.size) :
    (stack.modifySymbol id changeSymbol).symbolNode other =
      if other = id then
        changeSymbol (stack.symbolNode id)
      else
        stack.symbolNode other :=
  getD_modify inside

theorem modifySymbol_of_le
    (outside : stack.symbols.size ≤ id) :
    (stack.modifySymbol id changeSymbol).symbolNode other =
      stack.symbolNode other := by
  simp only [symbolNode, modifySymbol, Array.getD_eq_getD_getElem?,
    Array.getElem?_modify]
  split
  · rename_i same
    subst same
    simp [Array.getElem?_eq_none outside]
  · rfl

@[simp] theorem stateNode_modifySymbol :
    (stack.modifySymbol id changeSymbol).stateNode other =
      stack.stateNode other :=
  rfl

@[simp] theorem layer_modifySymbol :
    (stack.modifySymbol id changeSymbol).layer word = stack.layer word :=
  rfl

@[simp] theorem size_symbols_modifySymbol :
    (stack.modifySymbol id changeSymbol).symbols.size = stack.symbols.size :=
  Array.size_modify

@[simp] theorem states_modifySymbol :
    (stack.modifySymbol id changeSymbol).states = stack.states :=
  rfl

@[simp] theorem layers_modifySymbol :
    (stack.modifySymbol id changeSymbol).layers = stack.layers :=
  rfl

end Modify

/-- Entries are the symbol nodes under their numbers. -/
theorem mem_symbolEntries
    {node : SymbolNode} :
    (id, node) ∈ stack.symbolEntries ↔
      id < stack.symbols.size ∧ node = stack.symbolNode id := by
  simp only [symbolEntries, List.mem_map, Prod.mk.injEq, Prod.exists,
    List.mem_zipIdx_iff_getElem?, Array.getElem?_toList]
  constructor
  · rintro ⟨_, _, stored, rfl, rfl⟩
    obtain ⟨inside, isNode⟩ := Array.getElem?_eq_some_iff.mp stored
    exact ⟨inside, by simp [symbolNode, Array.getD_eq_getD_getElem?, stored]⟩
  · rintro ⟨inside, rfl⟩
    exact ⟨_, id, by
      simp [symbolNode, Array.getD_eq_getD_getElem?, inside], rfl, rfl⟩

/-- The node of a state that is found in a layer. -/
theorem findState?_eq_some
    {state : StateId}
    (found : stack.findState? word state = some id) :
    id ∈ (stack.layer word).nodes ∧ (stack.stateNode id).state = state :=
  ⟨List.mem_of_find?_eq_some found, by
    simpa using List.find?_some found⟩

theorem findState?_eq_none
    {state : StateId}
    (missing : stack.findState? word state = none) :
    ∀ id ∈ (stack.layer word).nodes, (stack.stateNode id).state ≠ state := by
  intro id member same
  have differs := List.find?_eq_none.mp missing id member
  exact differs (by simpa using same)

/-- The live child that is found below a state node. -/
theorem findChild?_eq_some
    {parent : StateNodeId}
    {accepts : SymbolNode → Bool}
    (found : stack.findChild? parent accepts = some id) :
    id ∈ (stack.stateNode parent).children ∧
      (stack.symbolNode id).removed = false ∧
      accepts (stack.symbolNode id) = true := by
  have accepted := List.find?_some found
  simp only [Bool.and_eq_true, Bool.not_eq_true'] at accepted
  exact ⟨List.mem_of_find?_eq_some found, accepted⟩

theorem findChild?_eq_none
    {parent : StateNodeId}
    {accepts : SymbolNode → Bool}
    (missing : stack.findChild? parent accepts = none) :
    ∀ id ∈ (stack.stateNode parent).children,
      (stack.symbolNode id).removed = false →
      accepts (stack.symbolNode id) = false := by
  intro id member live
  have refused := List.find?_eq_none.mp missing id member
  simpa [live] using refused

end GraphStack

end SpanForest
