import Mathlib.Data.Finset.Card
import Mathlib.Order.Bounds.Defs
import SpanForest.Proofs.Stack.Building

namespace SpanForest

/-!
# Nodes that lose their support

A sweep goes over the nodes of a stack again and again and removes one node at a
time. What it removes does not depend on the order: it is the least set of nodes
that holds every node whose support is removed or in the set, whether or not the
stack has cycles.
-/

/-- Rounds that are made until one of them reports no change lead from state to state. -/
inductive RoundsEnd (round : σ → Bool × σ) : σ → σ → Prop where
  | quiet {state final : σ} :
      round state = (false, final) →
      RoundsEnd round state final
  | again {state next final : σ} :
      round state = (true, next) →
      RoundsEnd round next final →
      RoundsEnd round state final

/-- Rounds that lower a measure whenever they report a change come to an end. -/
theorem roundsEnd_repeatRounds
    {round : σ → Bool × σ}
    (measure : σ → Nat)
    (falls : ∀ state, (round state).1 = true →
      measure (round state).2 < measure state)
    {fuel : Nat}
    {start : σ}
    (enough : measure start < fuel) :
    RoundsEnd round start (repeatRounds round fuel start).2 := by
  induction fuel generalizing start with
  | zero => omega
  | succ fuel inductionHypothesis =>
      unfold repeatRounds
      split
      · rename_i final isQuiet
        exact .quiet isQuiet
      · rename_i next changed
        have fewer := falls start (by rw [changed])
        rw [changed] at fewer
        exact .again changed (inductionHypothesis (by simp at fewer; omega))

namespace GraphStack

variable {stack : GraphStack} {start id : Nat}
variable {states : Finset StateNodeId} {symbols : Finset SymbolNodeId}

/--
Nodes among which is every live node from a word on that has lost its support.

A state node loses its support when it has children and all of them go, a symbol
node when all the states below it go; what is removed already counts as gone.
-/
structure ClosedUnderLoss
    (stack : GraphStack)
    (start : Nat)
    (states : Set StateNodeId)
    (symbols : Set SymbolNodeId) : Prop where
  state :
    ∀ word id : Nat, start ≤ word → id ∈ (stack.layer word).nodes →
      (stack.stateNode id).removed = false →
      (stack.stateNode id).children ≠ [] →
      (∀ child ∈ (stack.stateNode id).children,
        (stack.symbolNode child).removed = true ∨ child ∈ symbols) →
      id ∈ states
  symbol :
    ∀ word id : Nat, start ≤ word → (stack.symbolNode id).word = some word →
      (stack.symbolNode id).removed = false →
      (∀ child ∈ (stack.symbolNode id).children,
        (stack.stateNode child).removed = true ∨ child ∈ states) →
      id ∈ symbols

/-- The stack with some more nodes marked as removed. -/
def without
    (stack : GraphStack)
    (states : Finset StateNodeId)
    (symbols : Finset SymbolNodeId) :
    GraphStack :=
  { stack with
    states := stack.states.mapIdx fun id node =>
      { node with removed := node.removed || decide (id ∈ states) }
    symbols := stack.symbols.mapIdx fun id node =>
      { node with removed := node.removed || decide (id ∈ symbols) } }

section Without

theorem without_empty : stack.without ∅ ∅ = stack := by
  obtain ⟨stateNodes, symbolNodes, layers⟩ := stack
  simp only [without, Finset.notMem_empty, decide_false, Bool.or_false,
    GraphStack.mk.injEq, and_true]
  exact ⟨Array.ext (by simp) fun _ _ _ => by simp,
    Array.ext (by simp) fun _ _ _ => by simp⟩

theorem stateNode_without :
    (stack.without states symbols).stateNode id =
      { stack.stateNode id with
        removed := (stack.stateNode id).removed ||
          decide (id < stack.states.size ∧ id ∈ states) } := by
  by_cases inside : id < stack.states.size
  · simp [without, stateNode, Array.getD_eq_getD_getElem?, inside]
  · have outside : (stack.without states symbols).states.size ≤ id := by
      simpa [without] using inside
    rw [stateNode_of_le outside, stateNode_of_le (Nat.le_of_not_lt inside)]
    simp [inside]

theorem symbolNode_without :
    (stack.without states symbols).symbolNode id =
      { stack.symbolNode id with
        removed := (stack.symbolNode id).removed ||
          decide (id < stack.symbols.size ∧ id ∈ symbols) } := by
  by_cases inside : id < stack.symbols.size
  · simp [without, symbolNode, Array.getD_eq_getD_getElem?, inside]
  · have outside : (stack.without states symbols).symbols.size ≤ id := by
      simpa [without] using inside
    rw [symbolNode_of_le outside, symbolNode_of_le (Nat.le_of_not_lt inside)]
    simp [inside]

/-- Removing one more state node. -/
theorem setStateRemoved_without :
    (stack.without states symbols).setStateRemoved id true =
      stack.without (insert id states) symbols := by
  simp only [setStateRemoved, modifyState, without, GraphStack.mk.injEq, and_true]
  refine Array.ext (by simp) fun other _ _ => ?_
  by_cases same : id = other
  · simp [Array.getElem_modify, same]
  · simp [Array.getElem_modify, same, Ne.symm same]

/-- Removing one more symbol node. -/
theorem setSymbolRemoved_without :
    (stack.without states symbols).setSymbolRemoved id true =
      stack.without states (insert id symbols) := by
  simp only [setSymbolRemoved, modifySymbol, without, GraphStack.mk.injEq, true_and,
    and_true]
  refine Array.ext (by simp) fun other _ _ => ?_
  by_cases same : id = other
  · simp [Array.getElem_modify, same]
  · simp [Array.getElem_modify, same, Ne.symm same]

/-- A state node is stranded if it was not left out and everything below it was. -/
theorem isStranded_without :
    (stack.without states symbols).isStranded id = true ↔
      ((stack.stateNode id).removed = false ∧
          ¬(id < stack.states.size ∧ id ∈ states)) ∧
        (stack.stateNode id).children ≠ [] ∧
          ∀ child ∈ (stack.stateNode id).children,
            (stack.symbolNode child).removed = true ∨
              child < stack.symbols.size ∧ child ∈ symbols := by
  simp only [isStranded, stateNode_without, symbolNode_without, Bool.and_eq_true,
    Bool.not_eq_true', Bool.or_eq_false_iff, decide_eq_false_iff_not,
    List.isEmpty_eq_false_iff, List.all_eq_true, Bool.or_eq_true,
    decide_eq_true_eq, and_assoc]

theorem isFloating_without :
    (stack.without states symbols).isFloating start id = true ↔
      ((stack.symbolNode id).removed = false ∧
          ¬(id < stack.symbols.size ∧ id ∈ symbols)) ∧
        (∃ word, (stack.symbolNode id).word = some word ∧ start ≤ word) ∧
          ∀ child ∈ (stack.symbolNode id).children,
            (stack.stateNode child).removed = true ∨
              child < stack.states.size ∧ child ∈ states := by
  simp only [isFloating, stateNode_without, symbolNode_without, Bool.and_eq_true,
    Bool.not_eq_true', Bool.or_eq_false_iff, decide_eq_false_iff_not,
    Option.any_eq_true, List.all_eq_true, Bool.or_eq_true, decide_eq_true_eq,
    and_assoc]

end Without

/--
What a sweep has come to.

Some nodes that were live are removed, each of them was counted, and nothing else
changed. Whatever is closed under loss of support holds them all.
-/
structure Strips
    (stack : GraphStack)
    (start : Nat)
    (swept : Nat × GraphStack)
    (states : Finset StateNodeId)
    (symbols : Finset SymbolNodeId) : Prop where
  left : swept.2 = stack.without states symbols
  counted : swept.1 = states.card + symbols.card
  states_live :
    ∀ id ∈ states,
      id < stack.states.size ∧ (stack.stateNode id).removed = false
  symbols_live :
    ∀ id ∈ symbols,
      id < stack.symbols.size ∧ (stack.symbolNode id).removed = false
  bound :
    ∀ (lostStates : Set StateNodeId) (lostSymbols : Set SymbolNodeId),
      stack.ClosedUnderLoss start lostStates lostSymbols →
      ↑states ⊆ lostStates ∧ ↑symbols ⊆ lostSymbols

section Strips

variable {swept : Nat × GraphStack}

theorem Strips.nothing : stack.Strips start (0, stack) ∅ ∅ where
  left := without_empty.symm
  counted := rfl
  states_live := by simp
  symbols_live := by simp
  bound _ _ _ := by simp

/-- A state node that was found stranded is one more that has to go. -/
theorem Strips.stranded
    (strips : stack.Strips start swept states symbols)
    (listed : id ∈ stack.statesFrom start)
    (stranded : swept.2.isStranded id = true) :
    stack.Strips start (swept.1 + 1, swept.2.setStateRemoved id true)
      (insert id states) symbols := by
  rw [strips.left, isStranded_without] at stranded
  obtain ⟨⟨isLive, notLost⟩, hasChildren, allGone⟩ := stranded
  have inside : id < stack.states.size := by
    refine Nat.lt_of_not_le fun outside => hasChildren ?_
    rw [stateNode_of_le outside]
    rfl
  obtain ⟨word, late, inLayer⟩ := mem_statesFrom.mp listed
  constructor
  case left =>
    simp only
    rw [strips.left, setStateRemoved_without]
  case counted =>
    rw [Finset.card_insert_of_notMem fun isLost => notLost ⟨inside, isLost⟩,
      strips.counted, Nat.add_right_comm]
  case states_live =>
    exact (Finset.forall_mem_insert _ _ _).mpr
      ⟨⟨inside, isLive⟩, strips.states_live⟩
  case symbols_live => exact strips.symbols_live
  case bound =>
    intro lostStates lostSymbols closed
    obtain ⟨statesLost, symbolsLost⟩ := strips.bound lostStates lostSymbols closed
    have goes := closed.state word id late inLayer isLive hasChildren
      fun child isChild => (allGone child isChild).imp_right
        fun isLost => symbolsLost isLost.2
    rw [Finset.coe_insert]
    exact ⟨Set.insert_subset goes statesLost, symbolsLost⟩

/-- A symbol node that was found floating is one more that has to go. -/
theorem Strips.floating
    (strips : stack.Strips start swept states symbols)
    (floating : swept.2.isFloating start id = true) :
    stack.Strips start (swept.1 + 1, swept.2.setSymbolRemoved id true)
      states (insert id symbols) := by
  rw [strips.left, isFloating_without] at floating
  obtain ⟨⟨isLive, notLost⟩, ⟨word, isWord, late⟩, allGone⟩ := floating
  have inside : id < stack.symbols.size := by
    refine Nat.lt_of_not_le fun outside => ?_
    rw [symbolNode_of_le outside] at isWord
    cases isWord
  constructor
  case left =>
    simp only
    rw [strips.left, setSymbolRemoved_without]
  case counted =>
    rw [Finset.card_insert_of_notMem fun isLost => notLost ⟨inside, isLost⟩,
      strips.counted, Nat.add_assoc]
  case states_live => exact strips.states_live
  case symbols_live =>
    exact (Finset.forall_mem_insert _ _ _).mpr
      ⟨⟨inside, isLive⟩, strips.symbols_live⟩
  case bound =>
    intro lostStates lostSymbols closed
    obtain ⟨statesLost, symbolsLost⟩ := strips.bound lostStates lostSymbols closed
    have goes := closed.symbol word id late isWord isLive
      fun child isChild => (allGone child isChild).imp_right
        fun isLost => statesLost isLost.2
    rw [Finset.coe_insert]
    exact ⟨statesLost, Set.insert_subset goes symbolsLost⟩

/-- A sweep so far, whichever nodes it removed. -/
def Stripped (stack : GraphStack) (start : Nat) (swept : Nat × GraphStack) : Prop :=
  ∃ states symbols, stack.Strips start swept states symbols

theorem Stripped.sweepStates
    (ids : List StateNodeId)
    (listed : ids ⊆ stack.statesFrom start)
    (stripped : stack.Stripped start swept) :
    stack.Stripped start (GraphStack.sweepStates ids swept) := by
  induction ids generalizing swept with
  | nil => exact stripped
  | cons id rest inductionHypothesis =>
      have restListed : rest ⊆ stack.statesFrom start :=
        fun _ member => listed (List.mem_cons_of_mem id member)
      unfold GraphStack.sweepStates
      split
      · rename_i stranded
        obtain ⟨states, symbols, strips⟩ := stripped
        exact inductionHypothesis restListed
          ⟨_, _, strips.stranded (listed List.mem_cons_self) stranded⟩
      · exact inductionHypothesis restListed stripped

theorem Stripped.sweepSymbols
    (ids : List SymbolNodeId)
    (stripped : stack.Stripped start swept) :
    stack.Stripped start (GraphStack.sweepSymbols start ids swept) := by
  induction ids generalizing swept with
  | nil => exact stripped
  | cons id rest inductionHypothesis =>
      unfold GraphStack.sweepSymbols
      split
      · rename_i floating
        obtain ⟨states, symbols, strips⟩ := stripped
        exact inductionHypothesis ⟨_, _, strips.floating floating⟩
      · exact inductionHypothesis stripped

/-- A round goes over the state nodes that the stack had in its layers. -/
theorem Stripped.sweepRound (stripped : stack.Stripped start swept) :
    stack.Stripped start (GraphStack.sweepRound start swept).2 := by
  have sameStates : swept.2.statesFrom start = stack.statesFrom start := by
    obtain ⟨states, symbols, strips⟩ := stripped
    rw [strips.left]
    rfl
  rw [sweepRound_eq, sameStates]
  exact (stripped.sweepStates _ (List.Subset.refl _)).sweepSymbols _

theorem stripped_sweep (stack : GraphStack) (start : Nat) :
    stack.Stripped start (stack.sweep start) :=
  repeatRounds_induction (fun _ stripped => stripped.sweepRound) _
    ⟨∅, ∅, .nothing⟩

/-- When nothing unsupported is left, all that lost its support was removed. -/
theorem Strips.closedUnderLoss
    (strips : stack.Strips start swept states symbols)
    (stable : swept.2.Stable start) :
    stack.ClosedUnderLoss start states symbols := by
  rw [strips.left] at stable
  constructor
  case state =>
    intro word id late inLayer isLive hasChildren allGone
    refine Decidable.byContradiction fun notLost => ?_
    have supported := stable.state word late id inLayer
    rw [← Bool.not_eq_true, isStranded_without] at supported
    exact supported ⟨⟨isLive, fun isLost => notLost isLost.2⟩, hasChildren,
      fun child isChild => (allGone child isChild).imp_right
        fun isLost => ⟨(strips.symbols_live child isLost).1, isLost⟩⟩
  case symbol =>
    intro word id late isWord isLive allGone
    refine Decidable.byContradiction fun notLost => ?_
    have supported := stable.symbol id
    rw [← Bool.not_eq_true, isFloating_without] at supported
    exact supported ⟨⟨isLive, fun isLost => notLost isLost.2⟩,
      ⟨word, isWord, late⟩, fun child isChild => (allGone child isChild).imp_right
        fun isLost => ⟨(strips.states_live child isLost).1, isLost⟩⟩

end Strips

/-- Where nothing is unsupported a sweep does nothing. -/
theorem Stable.sweep (stable : stack.Stable start) :
    stack.sweep start = (0, stack) := by
  obtain ⟨states, symbols, strips⟩ := stripped_sweep stack start
  -- Nothing at all is closed under loss here, and what is removed is part of that.
  have nothingLost : stack.ClosedUnderLoss start ∅ ∅ := by
    have strips : stack.Strips start (0, stack) ∅ ∅ := .nothing
    simpa using strips.closedUnderLoss stable
  obtain ⟨noStates, noSymbols⟩ := strips.bound ∅ ∅ nothingLost
  rw [Set.subset_empty_iff, Finset.coe_eq_empty] at noStates noSymbols
  subst noStates noSymbols
  exact Prod.ext strips.counted (strips.left.trans without_empty)

/--
A sweep removes the least set of nodes that is closed under loss of support.

On every stack its rounds come to an end; then it has counted the nodes of that
set, all of them live before, and marked them as removed, and it has changed
nothing else, so that a second sweep finds nothing to do.
-/
theorem sweep_isLeast (stack : GraphStack) (start : Nat) :
    ∃ (states : Finset StateNodeId) (symbols : Finset SymbolNodeId),
      IsLeast
          {lost : Set StateNodeId × Set SymbolNodeId |
            stack.ClosedUnderLoss start lost.1 lost.2}
          (↑states, ↑symbols) ∧
        (∀ id ∈ states, (stack.stateNode id).removed = false) ∧
        (∀ id ∈ symbols, (stack.symbolNode id).removed = false) ∧
        RoundsEnd (sweepRound start) (0, stack) (stack.sweep start) ∧
        stack.sweep start =
          (states.card + symbols.card, stack.without states symbols) ∧
        (stack.without states symbols).sweep start =
          (0, stack.without states symbols) := by
  obtain ⟨states, symbols, strips⟩ := stripped_sweep stack start
  have stable : (stack.sweep start).2.Stable start := (swept_sweep start).2
  refine ⟨states, symbols, ⟨strips.closedUnderLoss stable, ?_⟩,
    fun id isLost => (strips.states_live id isLost).2,
    fun id isLost => (strips.symbols_live id isLost).2, ?_,
    Prod.ext strips.counted strips.left, ?_⟩
  · rintro ⟨lostStates, lostSymbols⟩ closed
    exact strips.bound lostStates lostSymbols closed
  · have falls : ∀ swept : Nat × GraphStack, (sweepRound start swept).1 = true →
        (sweepRound start swept).2.2.liveNodes < swept.2.liveNodes :=
      fun _ => liveNodes_sweepRound
    exact roundsEnd_repeatRounds (fun swept => swept.2.liveNodes) falls
      (Nat.lt_succ_of_le stack.liveNodes_le)
  · rw [← strips.left]
    exact stable.sweep

/-- A state stands on either of two symbols; with both it takes what is above it. -/
example :
    let operations : List Operation :=
      [.addState 1 5, .addSymbol 1 0 (some 3) 0, .addSymbol 1 1 (some 3) 0,
        .addState 2 6, .addSymbol 2 2 (some 4) 1, .setSymbolRemoved 0 true]
    ((built 3 0 operations).sweep 1).1 = 0 ∧
      ((built 3 0 (operations ++ [.setSymbolRemoved 1 true])).sweep 1).1 = 3 := by
  decide

end GraphStack

end SpanForest
