import SpanForest.Lr.PackedTable
import SpanForest.Proofs.Stack.Basic

namespace SpanForest

/-!
# Consistent stacks

In a consistent stack every symbol node is held by one state node, and the
table leads from each state below the symbol node, by its symbol, to the state
of the holder. Nodes below a symbol node stand at earlier words than its holder,
so a stack has no cycles. The operations of a parse keep stacks consistent, and
never touch what stands at earlier words.
-/

/-- A word that is missing or earlier than another. -/
def WordBefore (word : Option Nat) (bound : Nat) : Prop :=
  ∀ own, word = some own → own < bound

namespace GraphStack

/-- One state node, and no other, has the symbol node as a child. -/
def Holds
    (stack : GraphStack)
    (holder : Nat)
    (node : Nat) : Prop :=
  ∀ other : Nat, node ∈ (stack.stateNode other).children ↔ other = holder

/-- Whether the table lets a symbol lead from one state node to another. -/
def Leads
    (table : PackedTable)
    (stack : GraphStack)
    (child : Nat)
    (symbol : Option SymbolId)
    (holder : Nat) : Prop :=
  ∃ own, symbol = some own ∧
    table.goto? (stack.stateNode child).state own =
      some (stack.stateNode holder).state

/-- A symbol node fits between its children and its holder. -/
structure Fits
    (table : PackedTable)
    (stack : GraphStack)
    (node : Nat)
    (holder : Nat) : Prop where
  inside : holder < stack.states.size
  holds : stack.Holds holder node
  word : (stack.symbolNode node).word = (stack.stateNode holder).word
  supported : (stack.symbolNode node).children ≠ []
  child :
    ∀ child : Nat, child ∈ (stack.symbolNode node).children →
      child < stack.states.size ∧
        (∃ word, (stack.stateNode holder).word = some word ∧
          WordBefore (stack.stateNode child).word word) ∧
        Leads table stack child (stack.symbolNode node).symbol holder

/-- A state node from which a symbol leads to a later node, which holds it. -/
def Bears
    (table : PackedTable)
    (stack : GraphStack)
    (child : Nat)
    (symbol : Option SymbolId)
    (holder : Nat) : Prop :=
  child < stack.states.size ∧
    (∃ word, (stack.stateNode holder).word = some word ∧
      WordBefore (stack.stateNode child).word word) ∧
    Leads table stack child symbol holder

/-- Stacks whose nodes fit together. -/
structure Consistent (table : PackedTable) (stack : GraphStack) : Prop where
  start_inside : 0 < stack.states.size
  start_state : (stack.stateNode startNode).state = startState
  start_word : (stack.stateNode startNode).word = none
  start_children : (stack.stateNode startNode).children = []
  only_start :
    ∀ id : Nat, id < stack.states.size → (stack.stateNode id).word = none →
      id = startNode
  mem_layer :
    ∀ id word : Nat, id ∈ (stack.layer word).nodes ↔
      id < stack.states.size ∧ (stack.stateNode id).word = some word
  state_unique :
    ∀ word left right : Nat, left ∈ (stack.layer word).nodes →
      right ∈ (stack.layer word).nodes →
      (stack.stateNode left).state = (stack.stateNode right).state →
      left = right
  child_known :
    ∀ parent node : Nat, node ∈ (stack.stateNode parent).children →
      node < stack.symbols.size
  fits :
    ∀ node : Nat, node < stack.symbols.size →
      ∃ holder : Nat, Fits table stack node holder
  reduced_known :
    ∀ word node : Nat, node ∈ (stack.layer word).reduced →
      node < stack.symbols.size ∧ (stack.symbolNode node).word = some word
  listed_once : ∀ word : Nat, (stack.layer word).nodes.Nodup
  held_once : ∀ parent : Nat, (stack.stateNode parent).children.Nodup
  linked_once : ∀ node : Nat, (stack.symbolNode node).children.Nodup

/-- Nothing in the stack was removed. -/
structure Live (stack : GraphStack) : Prop where
  state : ∀ id : Nat, (stack.stateNode id).removed = false
  symbol : ∀ id : Nat, (stack.symbolNode id).removed = false

/-- It suffices that no node that is in the stack was removed. -/
theorem live_iff
    {stack : GraphStack} :
    stack.Live ↔
      (∀ id < stack.states.size, (stack.stateNode id).removed = false) ∧
        ∀ id < stack.symbols.size, (stack.symbolNode id).removed = false := by
  refine ⟨fun live => ⟨fun id _ => live.state id, fun id _ => live.symbol id⟩,
    fun ⟨states, symbols⟩ => ⟨fun id => ?_, fun id => ?_⟩⟩
  · by_cases inside : id < stack.states.size
    · exact states id inside
    · rw [stateNode_of_le (Nat.le_of_not_lt inside)]
      rfl
  · by_cases inside : id < stack.symbols.size
    · exact symbols id inside
    · rw [symbolNode_of_le (Nat.le_of_not_lt inside)]
      rfl

instance (stack : GraphStack) : Decidable stack.Live :=
  decidable_of_iff _ live_iff.symm

/-- A stack from which no symbol node was removed since. -/
structure Unharmed (before after : GraphStack) : Prop where
  live : before.Live → after.Live
  symbol :
    ∀ id : Nat, id < before.symbols.size →
      id < after.symbols.size ∧
        (after.symbolNode id).removed = (before.symbolNode id).removed

end GraphStack

/-- A state node that may have got further children, unless it is settled. -/
structure StateNode.Grows (since : Nat) (before after : StateNode) : Prop where
  state : after.state = before.state
  word : after.word = before.word
  children : before.children ⊆ after.children
  settled : WordBefore before.word since → after.children = before.children

/-- A symbol node that may have got further children, unless it is settled. -/
structure SymbolNode.Grows (since : Nat) (before after : SymbolNode) : Prop where
  span : after.span = before.span
  symbol : after.symbol = before.symbol
  word : after.word = before.word
  children : before.children ⊆ after.children
  settled : WordBefore before.word since → after.children = before.children

theorem StateNode.Grows.refl (since : Nat) (node : StateNode) :
    node.Grows since node :=
  ⟨rfl, rfl, List.Subset.refl _, fun _ => rfl⟩

theorem SymbolNode.Grows.refl (since : Nat) (node : SymbolNode) :
    node.Grows since node :=
  ⟨rfl, rfl, rfl, List.Subset.refl _, fun _ => rfl⟩

theorem StateNode.Grows.trans
    {since : Nat}
    {first second third : StateNode}
    (early : first.Grows since second)
    (late : second.Grows since third) :
    first.Grows since third where
  state := late.state.trans early.state
  word := late.word.trans early.word
  children := List.Subset.trans early.children late.children
  settled old :=
    (late.settled (early.word ▸ old)).trans (early.settled old)

theorem SymbolNode.Grows.trans
    {since : Nat}
    {first second third : SymbolNode}
    (early : first.Grows since second)
    (late : second.Grows since third) :
    first.Grows since third where
  span := late.span.trans early.span
  symbol := late.symbol.trans early.symbol
  word := late.word.trans early.word
  children := List.Subset.trans early.children late.children
  settled old :=
    (late.settled (early.word ▸ old)).trans (early.settled old)

namespace GraphStack

/-- A stack that has grown at some word or later. -/
structure Extends (since : Nat) (before after : GraphStack) : Prop where
  layers_size : after.layers.size = before.layers.size
  states_size : before.states.size ≤ after.states.size
  symbols_size : before.symbols.size ≤ after.symbols.size
  state :
    ∀ id : Nat, id < before.states.size →
      (before.stateNode id).Grows since (after.stateNode id)
  symbol :
    ∀ id : Nat, id < before.symbols.size →
      (before.symbolNode id).Grows since (after.symbolNode id)
  reduced :
    ∀ id : Nat, id < before.symbols.size → ∀ word : Nat,
      id ∈ (after.layer word).reduced ↔ id ∈ (before.layer word).reduced
  added :
    ∀ id : Nat, before.states.size ≤ id → id < after.states.size →
      ∃ word, (after.stateNode id).word = some word ∧ since ≤ word

/-- A stack that differs in marks and derivations only. -/
structure SameShape (before after : GraphStack) : Prop where
  layers : after.layers = before.layers
  states_size : after.states.size = before.states.size
  symbols_size : after.symbols.size = before.symbols.size
  state :
    ∀ id : Nat, (after.stateNode id).state = (before.stateNode id).state ∧
      (after.stateNode id).word = (before.stateNode id).word ∧
      (after.stateNode id).children = (before.stateNode id).children
  symbol :
    ∀ id : Nat, (after.symbolNode id).span = (before.symbolNode id).span ∧
      (after.symbolNode id).symbol = (before.symbolNode id).symbol ∧
      (after.symbolNode id).word = (before.symbolNode id).word ∧
      (after.symbolNode id).children = (before.symbolNode id).children

/-- A stack with the same state nodes in its layers. -/
structure SameStates (before after : GraphStack) : Prop where
  size : after.states.size = before.states.size
  state :
    ∀ id : Nat, (after.stateNode id).state = (before.stateNode id).state
  word : ∀ id : Nat, (after.stateNode id).word = (before.stateNode id).word
  nodes : ∀ word : Nat, (after.layer word).nodes = (before.layer word).nodes

section Relations

variable {table : PackedTable} {since : Nat}
variable {first second third before after : GraphStack}

theorem Extends.refl (since : Nat) (stack : GraphStack) :
    stack.Extends since stack where
  layers_size := rfl
  states_size := Nat.le_refl _
  symbols_size := Nat.le_refl _
  state _ _ := .refl _ _
  symbol _ _ := .refl _ _
  reduced _ _ _ := Iff.rfl
  added _ isNew inside := absurd inside (Nat.not_lt_of_le isNew)

theorem Extends.trans
    (early : first.Extends since second)
    (late : second.Extends since third) :
    first.Extends since third where
  layers_size := late.layers_size.trans early.layers_size
  states_size := Nat.le_trans early.states_size late.states_size
  symbols_size := Nat.le_trans early.symbols_size late.symbols_size
  state id inside :=
    (early.state id inside).trans
      (late.state id (Nat.lt_of_lt_of_le inside early.states_size))
  symbol id inside :=
    (early.symbol id inside).trans
      (late.symbol id (Nat.lt_of_lt_of_le inside early.symbols_size))
  reduced id inside word :=
    (late.reduced id (Nat.lt_of_lt_of_le inside early.symbols_size) word).trans
      (early.reduced id inside word)
  added id isNew inside := by
    by_cases known : id < second.states.size
    · obtain ⟨word, isWord, le⟩ := early.added id isNew known
      exact ⟨word, (late.state id known).word.trans isWord, le⟩
    · exact late.added id (Nat.le_of_not_lt known) inside

/-- What has grown late has grown since any earlier word. -/
theorem Extends.since_le
    {earlier : Nat}
    (le : earlier ≤ since)
    (extended : before.Extends since after) :
    before.Extends earlier after where
  layers_size := extended.layers_size
  states_size := extended.states_size
  symbols_size := extended.symbols_size
  state id inside :=
    let grows := extended.state id inside
    { grows with
      settled := fun old => grows.settled fun word same =>
        Nat.lt_of_lt_of_le (old word same) le }
  symbol id inside :=
    let grows := extended.symbol id inside
    { grows with
      settled := fun old => grows.settled fun word same =>
        Nat.lt_of_lt_of_le (old word same) le }
  reduced := extended.reduced
  added id isNew inside :=
    let ⟨word, isWord, after⟩ := extended.added id isNew inside
    ⟨word, isWord, Nat.le_trans le after⟩

/-- State nodes stay in their layers. -/
theorem Extends.mem_layer
    {otherTable : PackedTable}
    (extended : before.Extends since after)
    (consistent : before.Consistent table)
    (consistentAfter : after.Consistent otherTable)
    {id : Nat}
    (inside : id < before.states.size)
    (word : Nat) :
    id ∈ (after.layer word).nodes ↔ id ∈ (before.layer word).nodes := by
  rw [consistentAfter.mem_layer, consistent.mem_layer,
    (extended.state id inside).word]
  exact and_congr_left fun _ => iff_of_true
    (Nat.lt_of_lt_of_le inside extended.states_size) inside

/-- Early layers get no further state nodes. -/
theorem Extends.mem_layer_of_lt
    {otherTable : PackedTable}
    (extended : before.Extends since after)
    (consistent : before.Consistent table)
    (consistentAfter : after.Consistent otherTable)
    {word : Nat}
    (early : word < since)
    (id : Nat) :
    id ∈ (after.layer word).nodes ↔ id ∈ (before.layer word).nodes := by
  by_cases inside : id < before.states.size
  · exact extended.mem_layer consistent consistentAfter inside word
  · refine iff_of_false (fun listed => ?_) fun listed =>
      inside ((consistent.mem_layer id word).mp listed).1
    obtain ⟨insideAfter, isWord⟩ :=
      (consistentAfter.mem_layer id word).mp listed
    obtain ⟨own, isOwn, late⟩ :=
      extended.added id (Nat.le_of_not_lt inside) insideAfter
    rw [isWord] at isOwn
    cases isOwn
    exact Nat.not_lt_of_le late early

theorem Unharmed.refl (stack : GraphStack) : stack.Unharmed stack where
  live := id
  symbol _ inside := ⟨inside, rfl⟩

theorem Unharmed.trans
    (early : first.Unharmed second)
    (late : second.Unharmed third) :
    first.Unharmed third where
  live live := late.live (early.live live)
  symbol id inside :=
    have ⟨known, same⟩ := early.symbol id inside
    have ⟨stillKnown, stillSame⟩ := late.symbol id known
    ⟨stillKnown, stillSame.trans same⟩

theorem Unharmed.removed
    (unharmed : before.Unharmed after)
    {id : Nat}
    (isRemoved : (before.symbolNode id).removed = true) :
    (after.symbolNode id).removed = true := by
  have inside : id < before.symbols.size := by
    refine Nat.lt_of_not_le fun outside => ?_
    rw [symbolNode_of_le outside] at isRemoved
    cases isRemoved
  exact (unharmed.symbol id inside).2.trans isRemoved

theorem SameShape.refl (stack : GraphStack) : stack.SameShape stack where
  layers := rfl
  states_size := rfl
  symbols_size := rfl
  state _ := ⟨rfl, rfl, rfl⟩
  symbol _ := ⟨rfl, rfl, rfl, rfl⟩

theorem SameShape.trans
    (early : first.SameShape second)
    (late : second.SameShape third) :
    first.SameShape third where
  layers := late.layers.trans early.layers
  states_size := late.states_size.trans early.states_size
  symbols_size := late.symbols_size.trans early.symbols_size
  state id :=
    let ⟨state, word, children⟩ := early.state id
    let ⟨state', word', children'⟩ := late.state id
    ⟨state'.trans state, word'.trans word, children'.trans children⟩
  symbol id :=
    let ⟨span, symbol, word, children⟩ := early.symbol id
    let ⟨span', symbol', word', children'⟩ := late.symbol id
    ⟨span'.trans span, symbol'.trans symbol, word'.trans word,
      children'.trans children⟩

theorem SameShape.layer
    (same : before.SameShape after)
    (word : Nat) :
    after.layer word = before.layer word := by
  rw [GraphStack.layer, same.layers]
  rfl

/-- Marks and derivations do not matter to growth. -/
theorem SameShape.extends
    (same : before.SameShape after)
    (since : Nat) :
    before.Extends since after where
  layers_size := congrArg Array.size same.layers
  states_size := Nat.le_of_eq same.states_size.symm
  symbols_size := Nat.le_of_eq same.symbols_size.symm
  state id _ :=
    let ⟨state, word, children⟩ := same.state id
    ⟨state, word, fun _ member => children.symm ▸ member, fun _ => children⟩
  symbol id _ :=
    let ⟨span, symbol, word, children⟩ := same.symbol id
    ⟨span, symbol, word, fun _ member => children.symm ▸ member,
      fun _ => children⟩
  reduced id _ word := by rw [same.layer]
  added id isNew inside :=
    absurd (same.states_size ▸ inside) (Nat.not_lt_of_le isNew)

/-- Growth does not matter to the state nodes that bear a symbol. -/
theorem Bears.extends
    {child holder : Nat}
    {symbol : Option SymbolId}
    (bears : Bears table before child symbol holder)
    (holderInside : holder < before.states.size)
    (extended : before.Extends since after) :
    Bears table after child symbol holder := by
  obtain ⟨inside, below, leads⟩ := bears
  have childGrows := extended.state child inside
  have holderGrows := extended.state holder holderInside
  refine ⟨Nat.lt_of_lt_of_le inside extended.states_size, ?_, ?_⟩
  · rw [childGrows.word, holderGrows.word]
    exact below
  · unfold Leads
    rw [childGrows.state, holderGrows.state]
    exact leads

/-- A node still fits if it is held as before and further states bear it. -/
theorem Fits.extends
    {node holder : Nat}
    (fits : Fits table before node holder)
    (extended : before.Extends since after)
    (known : node < before.symbols.size)
    (held :
      ∀ other : Nat, node ∈ (after.stateNode other).children ↔
        node ∈ (before.stateNode other).children)
    (borne :
      ∀ child ∈ (after.symbolNode node).children,
        child ∈ (before.symbolNode node).children ∨
          Bears table before child (before.symbolNode node).symbol holder) :
    Fits table after node holder := by
  have grows := extended.symbol node known
  constructor
  case inside => exact Nat.lt_of_lt_of_le fits.inside extended.states_size
  case holds => exact fun other => (held other).trans (fits.holds other)
  case word =>
    rw [grows.word, (extended.state holder fits.inside).word]
    exact fits.word
  case supported =>
    obtain ⟨child, member⟩ := List.exists_mem_of_ne_nil _ fits.supported
    exact List.ne_nil_of_mem (grows.children member)
  case child =>
    intro child member
    have bears :
        Bears table before child (before.symbolNode node).symbol holder :=
      (borne child member).elim (fits.child child) id
    rw [grows.symbol]
    exact bears.extends fits.inside extended

/-- With the same state nodes, only what is held and linked needs a proof. -/
theorem SameStates.consistent
    (same : before.SameStates after)
    (consistent : before.Consistent table)
    (start_children : (after.stateNode startNode).children = [])
    (child_known :
      ∀ parent node : Nat, node ∈ (after.stateNode parent).children →
        node < after.symbols.size)
    (fits :
      ∀ node : Nat, node < after.symbols.size →
        ∃ holder : Nat, Fits table after node holder)
    (reduced_known :
      ∀ word node : Nat, node ∈ (after.layer word).reduced →
        node < after.symbols.size ∧ (after.symbolNode node).word = some word)
    (held_once : ∀ parent : Nat, (after.stateNode parent).children.Nodup)
    (linked_once : ∀ node : Nat, (after.symbolNode node).children.Nodup) :
    after.Consistent table where
  start_inside := same.size ▸ consistent.start_inside
  start_state := (same.state startNode).trans consistent.start_state
  start_word := (same.word startNode).trans consistent.start_word
  start_children := start_children
  only_start id inside noWord :=
    consistent.only_start id (same.size ▸ inside) (same.word id ▸ noWord)
  mem_layer id word := by
    rw [same.nodes, same.size, same.word]
    exact consistent.mem_layer id word
  state_unique word left right leftMember rightMember sameState := by
    rw [same.nodes] at leftMember rightMember
    rw [same.state, same.state] at sameState
    exact consistent.state_unique word left right leftMember rightMember
      sameState
  child_known := child_known
  fits := fits
  reduced_known := reduced_known
  listed_once word := by
    rw [same.nodes]
    exact consistent.listed_once word
  held_once := held_once
  linked_once := linked_once

/-- Marks and derivations do not matter to consistency. -/
theorem SameShape.consistent
    (same : before.SameShape after)
    (consistent : before.Consistent table) :
    after.Consistent table := by
  have children := fun id => (same.state id).2.2
  have sameStates : before.SameStates after :=
    ⟨same.states_size, fun id => (same.state id).1,
      fun id => (same.state id).2.1,
      fun word => congrArg Layer.nodes (same.layer word)⟩
  refine sameStates.consistent consistent ?start_children ?child_known ?fits
    ?reduced_known ?held_once ?linked_once
  case start_children =>
    rw [children]
    exact consistent.start_children
  case child_known =>
    intro parent node member
    rw [children] at member
    rw [same.symbols_size]
    exact consistent.child_known parent node member
  case fits =>
    intro node inside
    rw [same.symbols_size] at inside
    obtain ⟨holder, fits⟩ := consistent.fits node inside
    refine ⟨holder, fits.extends (same.extends 0) inside (fun other => ?_)
      fun child member => .inl ?_⟩
    · rw [children]
    · exact (same.symbol node).2.2.2 ▸ member
  case reduced_known =>
    intro word node member
    rw [same.layer] at member
    rw [same.symbols_size, (same.symbol node).2.2.1]
    exact consistent.reduced_known word node member
  case held_once =>
    intro parent
    rw [children]
    exact consistent.held_once parent
  case linked_once =>
    intro node
    rw [(same.symbol node).2.2.2]
    exact consistent.linked_once node

/-- A child below a consistent stack's state node is held by it. -/
theorem Consistent.fits_of_mem
    (consistent : before.Consistent table)
    {holder : Nat}
    {node : Nat}
    (member : node ∈ (before.stateNode holder).children) :
    Fits table before node holder := by
  obtain ⟨own, fits⟩ :=
    consistent.fits node (consistent.child_known holder node member)
  have same := (fits.holds holder).mp member
  exact same ▸ fits

end Relations

end GraphStack

end SpanForest
