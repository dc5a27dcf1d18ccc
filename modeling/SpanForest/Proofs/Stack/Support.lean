import SpanForest.Proofs.Stack.Growth

namespace SpanForest

/-!
# Supported stacks

A stack is supported if every live node rests on a live node: a state node on
one of the symbols below it, a symbol node on one of the states below it. Words
fall along the way down, so that each live node rests on the start node in the
end. Growing a stack keeps its support, even where it revives a removed state,
because what is put below that state is live.
-/

namespace GraphStack

variable {stack before after : GraphStack} {table : PackedTable}

/-- A stack each live node of which rests on a live node. -/
structure Supported (stack : GraphStack) : Prop where
  start : (stack.stateNode startNode).removed = false
  state :
    ∀ id : Nat, id < stack.states.size → id ≠ startNode →
      (stack.stateNode id).removed = false →
      ∃ child ∈ (stack.stateNode id).children,
        (stack.symbolNode child).removed = false
  symbol :
    ∀ id : Nat, id < stack.symbols.size →
      (stack.symbolNode id).removed = false →
      ∃ child ∈ (stack.symbolNode id).children,
        (stack.stateNode child).removed = false

/-- The start node alone is supported. -/
theorem supported_new (count : Nat) (start : StateId) :
    (GraphStack.new count start).Supported where
  start := rfl
  state id inside isOther := by
    have isStart : id = 0 := Nat.lt_one_iff.mp inside
    exact absurd isStart isOther
  symbol id inside := absurd inside (Nat.not_lt_zero id)

/-- A stack that grew is supported if what is newly live in it rests on live nodes. -/
theorem Supported.grows
    {since : Nat}
    (supported : before.Supported)
    (extended : before.Extends since after)
    (stateStays :
      ∀ id : Nat, (before.stateNode id).removed = false →
        (after.stateNode id).removed = false)
    (symbolStays :
      ∀ id : Nat, (before.symbolNode id).removed = false →
        (after.symbolNode id).removed = false)
    (state :
      ∀ id : Nat, id < after.states.size →
        (after.stateNode id).removed = false →
          (id < before.states.size ∧
            (before.stateNode id).removed = false) ∨
          ∃ child ∈ (after.stateNode id).children,
            (after.symbolNode child).removed = false)
    (symbol :
      ∀ id : Nat, id < after.symbols.size →
        (after.symbolNode id).removed = false →
          (id < before.symbols.size ∧
            (before.symbolNode id).removed = false) ∨
          ∃ child ∈ (after.symbolNode id).children,
            (after.stateNode child).removed = false) :
    after.Supported where
  start := stateStays startNode supported.start
  state id isInside isOther isLive := by
    rcases state id isInside isLive with ⟨wasInside, wasLive⟩ | rests
    · obtain ⟨child, isChild, childLive⟩ :=
        supported.state id wasInside isOther wasLive
      exact ⟨child, (extended.state id wasInside).children isChild,
        symbolStays child childLive⟩
    · exact rests
  symbol id isInside isLive := by
    rcases symbol id isInside isLive with ⟨wasInside, wasLive⟩ | rests
    · obtain ⟨child, isChild, childLive⟩ :=
        supported.symbol id wasInside wasLive
      exact ⟨child, (extended.symbol id wasInside).children isChild,
        stateStays child childLive⟩
    · exact rests

/-- Marks of nodes that wait to act are no support. -/
theorem Supported.sameShape
    (supported : before.Supported)
    (shape : before.SameShape after)
    (state :
      ∀ id : Nat, (after.stateNode id).removed = (before.stateNode id).removed)
    (symbol :
      ∀ id : Nat, (after.symbolNode id).removed =
        (before.symbolNode id).removed) :
    after.Supported where
  start := (state startNode).trans supported.start
  state id inside isOther isLive := by
    rw [shape.states_size] at inside
    rw [state] at isLive
    obtain ⟨child, isChild, childLive⟩ := supported.state id inside isOther isLive
    exact ⟨child, (shape.state id).2.2 ▸ isChild, (symbol child).trans childLive⟩
  symbol id inside isLive := by
    rw [shape.symbols_size] at inside
    rw [symbol] at isLive
    obtain ⟨child, isChild, childLive⟩ := supported.symbol id inside isLive
    exact ⟨child, (shape.symbol id).2.2.2 ▸ isChild,
      (state child).trans childLive⟩

/-- A node stays on what it rests on when it is put on more. -/
theorem Supported.nodeExtended
    {word node below : Nat}
    {derivation : Derivation}
    (supported : before.Supported)
    (extended : NodeExtended word node derivation below before after) :
    after.Supported := by
  have sameState : ∀ id : Nat, after.stateNode id = before.stateNode id :=
    fun id => by rw [stateNode, extended.states, stateNode]
  refine supported.grows extended.grows ?_ ?_ ?_ ?_
  · exact fun id isLive => sameState id ▸ isLive
  · exact fun id isLive => (extended.removed id).trans isLive
  · intro id isInside isLive
    rw [extended.states] at isInside
    exact .inl ⟨isInside, sameState id ▸ isLive⟩
  · intro id isInside isLive
    rw [extended.symbols] at isInside
    exact .inl ⟨isInside, extended.removed id ▸ isLive⟩

/-- A node that is grown on a live state supports the state above it. -/
theorem Supported.nodeGrown
    {word top below : Nat}
    {goto : StateId}
    {content : SymbolNode}
    (supported : before.Supported)
    (grown : NodeGrown word goto content top before after)
    (isLive : content.removed = false)
    (rests : below ∈ content.children)
    (belowLive : (before.stateNode below).removed = false) :
    after.Supported := by
  have newNode : after.symbolNode before.symbols.size = content := by
    rw [grown.symbol, if_pos rfl]
  have stateStays : ∀ id : Nat, (before.stateNode id).removed = false →
      (after.stateNode id).removed = false := by
    intro id wasLive
    by_cases isTop : id = top
    · exact isTop ▸ grown.live
    · rw [grown.stateNode_of_ne isTop]
      exact wasLive
  refine supported.grows grown.grows stateStays ?_ ?_ ?_
  · intro id wasLive
    rw [grown.symbol]
    split
    · exact isLive
    · exact wasLive
  · intro id inside nowLive
    by_cases isTop : id = top
    · refine .inr ⟨before.symbols.size, ?_, newNode ▸ isLive⟩
      rw [isTop, grown.children]
      exact List.mem_append_right _ List.mem_cons_self
    · rw [grown.stateNode_of_ne isTop] at nowLive
      refine .inl ⟨Nat.lt_of_not_le fun isNew => ?_, nowLive⟩
      exact isTop (grown.only_top id isNew inside)
  · intro id inside nowLive
    by_cases isNew : id = before.symbols.size
    · refine .inr ⟨below, ?_, stateStays below belowLive⟩
      rw [isNew, newNode]
      exact rests
    · rw [grown.symbol, if_neg isNew] at nowLive
      rw [grown.symbols] at inside
      exact .inl ⟨by omega, nowLive⟩

section Read

variable {withState : GraphStack} {since word top node below : Nat}
variable {target : StateId} {symbol : Option SymbolId} {span : SpanId}

/-- A state on which a live node is linked once more is supported by it. -/
theorem Supported.read_link
    (supported : stack.Supported)
    (added : StateAdded word target stack withState top)
    (extended : stack.Extends since (withState.link node below).2)
    (inside : node < withState.symbols.size)
    (held : node ∈ (withState.stateNode top).children)
    (isLive : (withState.symbolNode node).removed = false) :
    (withState.link node below).2.Supported := by
  refine supported.grows extended ?_ ?_ ?_ ?_
  · intro id wasLive
    rw [stateNode_link]
    exact added.stays_live wasLive
  · intro id wasLive
    rw [removed_link inside, added.symbolNode]
    exact wasLive
  · intro id idInside nowLive
    rw [states_link] at idInside
    rw [stateNode_link] at nowLive ⊢
    by_cases isTop : id = top
    · refine .inr ⟨node, isTop ▸ held, ?_⟩
      rw [removed_link inside]
      exact isLive
    · rw [added.stateNode_of_ne isTop] at nowLive
      exact .inl ⟨added.lt_size_of_ne isTop idInside, nowLive⟩
  · intro id idInside nowLive
    rw [size_symbols_link, added.symbols] at idInside
    rw [removed_link inside, added.symbolNode] at nowLive
    exact .inl ⟨idInside, nowLive⟩

/-- A state on which a symbol is put, on top of a live state, is supported by it. -/
theorem Supported.read_addSymbol
    (supported : stack.Supported)
    (added : StateAdded word target stack withState top)
    (extended :
      stack.Extends since (withState.addSymbol top span symbol below).2)
    (topInside : top < withState.states.size)
    (belowLive : (stack.stateNode below).removed = false) :
    (withState.addSymbol top span symbol below).2.Supported := by
  have newNode :
      (withState.addSymbol top span symbol below).2.symbolNode
          stack.symbols.size =
        ⟨span, symbol, (withState.stateNode top).word, [below], [], false⟩ := by
    rw [symbolNode_addSymbol, if_pos (by rw [added.symbols])]
  have stays : ∀ id : Nat, (stack.stateNode id).removed = false →
      ((withState.addSymbol top span symbol below).2.stateNode id).removed =
        false := by
    intro id wasLive
    rw [removed_addSymbol topInside]
    exact added.stays_live wasLive
  refine supported.grows extended stays ?_ ?_ ?_
  · intro id wasLive
    rw [symbolNode_addSymbol]
    split
    · rfl
    · rw [added.symbolNode]
      exact wasLive
  · intro id inside nowLive
    rw [size_states_addSymbol] at inside
    rw [removed_addSymbol topInside] at nowLive
    by_cases isTop : id = top
    · refine .inr ⟨stack.symbols.size, ?_, by rw [newNode]⟩
      rw [isTop, stateNode_addSymbol topInside, if_pos rfl, added.symbols]
      exact List.mem_append_right _ List.mem_cons_self
    · rw [added.stateNode_of_ne isTop] at nowLive
      exact .inl ⟨added.lt_size_of_ne isTop inside, nowLive⟩
  · intro id inside nowLive
    by_cases isNew : id = stack.symbols.size
    · refine .inr ⟨below, ?_, stays below belowLive⟩
      rw [isNew, newNode]
      exact List.mem_cons_self
    · rw [symbolNode_addSymbol, added.symbols, if_neg isNew, added.symbolNode]
        at nowLive
      rw [size_symbols_addSymbol, added.symbols] at inside
      exact .inl ⟨by omega, nowLive⟩

/-- A span that is read on a live state supports the state above it. -/
theorem Supported.readNode
    (supported : stack.Supported)
    (consistent : stack.Consistent table)
    (inLayers : word < stack.layers.size)
    (extended : stack.Extends since
      (stack.readNode word target span symbol below))
    (belowLive : (stack.stateNode below).removed = false) :
    (stack.readNode word target span symbol below).Supported := by
  obtain ⟨addedConsistent, -, added⟩ := consistent.addState inLayers target
  unfold GraphStack.readNode at extended ⊢
  generalize stack.addState word target = result at addedConsistent added extended ⊢
  obtain ⟨⟨top, isNew⟩, withState⟩ := result
  simp only at addedConsistent added extended ⊢
  cases found : withState.findSpan? top span with
  | some node =>
      rw [found] at extended
      obtain ⟨held, isLive, -⟩ := findChild?_eq_some found
      exact supported.read_link added extended
        (addedConsistent.child_known top node held) held isLive
  | none =>
      rw [found] at extended
      have topInside := (addedConsistent.mem_layer top word).mp added.listed |>.1
      exact supported.read_addSymbol added extended topInside belowLive

end Read

/-- A symbol node from which live nodes lead down to the start node. -/
inductive Grounded (stack : GraphStack) : Nat → Prop where
  | onStart {node : Nat} :
      (stack.symbolNode node).removed = false →
      startNode ∈ (stack.symbolNode node).children →
      (stack.stateNode startNode).removed = false →
      Grounded stack node
  | onState {node below next : Nat} :
      (stack.symbolNode node).removed = false →
      below ∈ (stack.symbolNode node).children →
      (stack.stateNode below).removed = false →
      next ∈ (stack.stateNode below).children →
      Grounded stack next →
      Grounded stack node

/-- Every live symbol node of a supported stack is grounded, since words fall below it. -/
theorem Supported.grounded
    (supported : stack.Supported)
    (consistent : stack.Consistent table)
    {node : Nat}
    (inside : node < stack.symbols.size)
    (isLive : (stack.symbolNode node).removed = false) :
    stack.Grounded node := by
  have worded : ∃ word, (stack.symbolNode node).word = some word := by
    obtain ⟨holder, fits⟩ := consistent.fits node inside
    obtain ⟨below, isBelow, -⟩ := supported.symbol node inside isLive
    obtain ⟨-, ⟨word, isWord, -⟩, -⟩ := fits.child below isBelow
    exact ⟨word, fits.word.trans isWord⟩
  obtain ⟨word, atWord⟩ := worded
  induction word using Nat.strongRecOn generalizing node with
  | _ word inductionHypothesis =>
      obtain ⟨holder, fits⟩ := consistent.fits node inside
      obtain ⟨below, isBelow, belowLive⟩ := supported.symbol node inside isLive
      obtain ⟨belowInside, ⟨upper, isUpper, before⟩, -⟩ := fits.child below isBelow
      obtain rfl : word = upper :=
        Option.some.inj (atWord.symm.trans (fits.word.trans isUpper))
      by_cases isStart : below = startNode
      · exact .onStart isLive (isStart ▸ isBelow) supported.start
      · obtain ⟨next, isNext, nextLive⟩ :=
          supported.state below belowInside isStart belowLive
        have nextFits := consistent.fits_of_mem isNext
        have nextInside := consistent.child_known below next isNext
        cases lower : (stack.stateNode below).word with
        | none => exact absurd (consistent.only_start below belowInside lower) isStart
        | some least =>
            exact .onState isLive isBelow belowLive isNext
              (inductionHypothesis least (before least lower) nextInside nextLive
                (nextFits.word.trans lower))

end GraphStack

end SpanForest
