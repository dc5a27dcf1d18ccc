import SpanForest.Parser.Greedy
import SpanForest.Proofs.Stack.Operations

namespace SpanForest

/-!
# A greedy pass trims the stack

A pass marks nodes as removed and drops derivations; it changes nothing else. A
node that loses its last derivation is removed.
-/

namespace GraphStack

/-- A stack with fewer derivations and more nodes marked as removed. -/
structure Pruned (before after : GraphStack) : Prop where
  shape : before.SameShape after
  derivations :
    ∀ id : Nat, (after.symbolNode id).derivations.Sublist
      (before.symbolNode id).derivations
  removed :
    ∀ id : Nat, (before.symbolNode id).removed = true →
      (after.symbolNode id).removed = true

/-- A pruned stack in which nodes without derivations are removed. -/
structure Trimmed (before after : GraphStack) : Prop extends
    Pruned before after where
  emptied :
    ∀ id : Nat, (after.symbolNode id).derivations = [] →
      (before.symbolNode id).derivations = [] ∨
        (after.symbolNode id).removed = true

variable {first second third stack : GraphStack}

theorem Pruned.refl (stack : GraphStack) : stack.Pruned stack where
  shape := .refl stack
  derivations _ := List.Sublist.refl _
  removed _ := id

theorem Pruned.trans
    (early : first.Pruned second)
    (late : second.Pruned third) :
    first.Pruned third where
  shape := early.shape.trans late.shape
  derivations id := (late.derivations id).trans (early.derivations id)
  removed id isRemoved := late.removed id (early.removed id isRemoved)

theorem Trimmed.refl (stack : GraphStack) : stack.Trimmed stack :=
  ⟨.refl stack, fun _ => .inl⟩

theorem Trimmed.trans
    (early : first.Trimmed second)
    (late : second.Trimmed third) :
    first.Trimmed third := by
  refine ⟨early.toPruned.trans late.toPruned, ?_⟩
  intro id isEmpty
  rcases late.emptied id isEmpty with earlyEmpty | isRemoved
  · exact (early.emptied id earlyEmpty).imp_right (late.removed id)
  · exact .inr isRemoved

/-- Restricting the derivations of one node. -/
theorem pruned_restrict
    {id : Nat}
    {kept : List Derivation}
    (keptFrom : kept.Sublist (stack.symbolNode id).derivations) :
    stack.Pruned
      (stack.modifySymbol id fun current =>
        { current with derivations := kept }) := by
  have changed : ∀ other : Nat,
      ((stack.modifySymbol id fun current =>
          { current with derivations := kept }).symbolNode
            other).derivations.Sublist (stack.symbolNode other).derivations ∧
        ((stack.modifySymbol id fun current =>
          { current with derivations := kept }).symbolNode other).removed =
            (stack.symbolNode other).removed := by
    intro other
    by_cases inside : id < stack.symbols.size
    · rw [symbolNode_modifySymbol inside]
      split
      · rename_i same
        rw [same]
        exact ⟨keptFrom, rfl⟩
      · exact ⟨List.Sublist.refl _, rfl⟩
    · rw [modifySymbol_of_le (Nat.le_of_not_lt inside)]
      exact ⟨List.Sublist.refl _, rfl⟩
  constructor
  case shape =>
    exact sameShape_modifySymbol (fun _ => rfl) (fun _ => rfl)
      (fun _ => rfl) fun _ => rfl
  case derivations => exact fun other => (changed other).1
  case removed =>
    intro other wasRemoved
    rw [(changed other).2]
    exact wasRemoved

theorem trimmed_setStateRemoved (id : Nat) :
    stack.Trimmed (stack.setStateRemoved id true) :=
  ⟨⟨sameShape_setStateRemoved id true, fun _ => List.Sublist.refl _,
    fun _ isRemoved => isRemoved⟩, fun _ => .inl⟩

theorem trimmed_setSymbolRemoved (id : Nat) :
    stack.Trimmed (stack.setSymbolRemoved id true) := by
  have changed : ∀ other : Nat,
      ((stack.setSymbolRemoved id true).symbolNode other).derivations =
          (stack.symbolNode other).derivations ∧
        ((stack.symbolNode other).removed = true →
          ((stack.setSymbolRemoved id true).symbolNode other).removed =
            true) := by
    intro other
    unfold setSymbolRemoved
    by_cases inside : id < stack.symbols.size
    · rw [symbolNode_modifySymbol inside]
      split
      · rename_i same
        rw [same]
        exact ⟨rfl, fun _ => rfl⟩
      · exact ⟨rfl, fun isRemoved => isRemoved⟩
    · rw [modifySymbol_of_le (Nat.le_of_not_lt inside)]
      exact ⟨rfl, fun isRemoved => isRemoved⟩
  refine ⟨⟨sameShape_setSymbolRemoved id true, ?_,
    fun other => (changed other).2⟩, ?_⟩
  · intro other
    simp only [(changed other).1, List.Sublist.refl]
  · intro other isEmpty
    rw [(changed other).1] at isEmpty
    exact .inl isEmpty

/-- A node that was removed is marked as such. -/
theorem removed_setSymbolRemoved
    {id : Nat}
    (inside : id < stack.symbols.size) :
    ((stack.setSymbolRemoved id true).symbolNode id).removed = true := by
  rw [setSymbolRemoved, symbolNode_modifySymbol inside, if_pos rfl]

theorem trimmed_sweepStates
    (ids : List StateNodeId)
    {swept : Nat × GraphStack} :
    swept.2.Trimmed (sweepStates ids swept).2 := by
  induction ids generalizing swept with
  | nil =>
      exact .refl _
  | cons id rest inductionHypothesis =>
      unfold sweepStates
      split
      · exact (trimmed_setStateRemoved id).trans
          (@inductionHypothesis (_, _))
      · exact inductionHypothesis

theorem trimmed_sweepSymbols
    (start : Nat)
    (ids : List SymbolNodeId)
    {swept : Nat × GraphStack} :
    swept.2.Trimmed (sweepSymbols start ids swept).2 := by
  induction ids generalizing swept with
  | nil =>
      exact .refl _
  | cons id rest inductionHypothesis =>
      unfold sweepSymbols
      split
      · exact (trimmed_setSymbolRemoved id).trans
          (@inductionHypothesis (_, _))
      · exact inductionHypothesis

/-- A sweep trims. -/
theorem trimmed_sweep (start : Nat) :
    stack.Trimmed (stack.sweep start).2 := by
  unfold sweep
  refine repeatRounds_induction
    (motive := fun swept : Nat × GraphStack => stack.Trimmed swept.2)
    ?_ _ (.refl stack)
  intro swept trimmed
  exact trimmed.trans
    ((trimmed_sweepStates _).trans (trimmed_sweepSymbols start _))

/-- What is missing before is missing after, or was gained. -/
theorem missingFacts_eq_add
    {α : Type}
    {domain : List α}
    {before after : α → Bool}
    (kept : ∀ fact, before fact = true → after fact = true) :
    missingFacts domain before =
      missingFacts domain after +
        domain.countP fun fact => !before fact && after fact := by
  unfold missingFacts
  induction domain with
  | nil => rfl
  | cons first rest inductionHypothesis =>
      simp only [List.countP_cons, inductionHypothesis]
      cases held : before first with
      | true => simp [kept first held]
      | false => cases after first <;> simp <;> omega

/-- Marking one of the first numbers leaves one fewer without a mark. -/
theorem missingFacts_mark
    {bound id : Nat}
    {before after : Nat → Bool}
    (inside : id < bound)
    (lacked : before id = false)
    (marked : ∀ other, after other = (other == id || before other)) :
    missingFacts (List.range bound) after + 1 =
      missingFacts (List.range bound) before := by
  have gained : (fun other => !before other && after other) = (· == id) := by
    funext other
    by_cases same : other = id
    · simp [marked, same, lacked]
    · simp [marked, beq_false_of_ne same]
  have once : (List.range bound).countP (· == id) = 1 :=
    List.nodup_range.count.trans (if_pos (List.mem_range.mpr inside))
  have kept : ∀ other, before other = true → after other = true :=
    fun other held => by rw [marked, held, Bool.or_true]
  rw [missingFacts_eq_add kept, gained, once]

/-- Nodes that are live. -/
def liveNodes (stack : GraphStack) : Nat :=
  missingFacts (List.range stack.states.size)
      (fun id => (stack.stateNode id).removed) +
    missingFacts (List.range stack.symbols.size)
      fun id => (stack.symbolNode id).removed

theorem liveNodes_le (stack : GraphStack) :
    stack.liveNodes ≤ stack.states.size + stack.symbols.size := by
  have states : missingFacts (List.range stack.states.size)
      (fun id => (stack.stateNode id).removed) ≤ _ :=
    List.countP_le_length
  have symbols : missingFacts (List.range stack.symbols.size)
      (fun id => (stack.symbolNode id).removed) ≤ _ :=
    List.countP_le_length
  rw [List.length_range] at states symbols
  exact Nat.add_le_add states symbols

/-- Marking a node that was live leaves one fewer. -/
theorem liveNodes_setStateRemoved
    {id : Nat}
    (inside : id < stack.states.size)
    (live : (stack.stateNode id).removed = false) :
    (stack.setStateRemoved id true).liveNodes + 1 = stack.liveNodes := by
  have marked : ∀ other : Nat,
      ((stack.setStateRemoved id true).stateNode other).removed =
        (other == id || (stack.stateNode other).removed) := by
    intro other
    rw [setStateRemoved, stateNode_modifyState inside]
    split
    · rename_i same
      simp [same]
    · rename_i differs
      simp [differs]
  have fewer := missingFacts_mark inside live marked
  have sameSize : (stack.setStateRemoved id true).states.size =
      stack.states.size :=
    size_states_modifyState
  have sameSymbols : ∀ other : Nat,
      (stack.setStateRemoved id true).symbolNode other =
        stack.symbolNode other :=
    fun _ => rfl
  have sameSymbolsSize : (stack.setStateRemoved id true).symbols.size =
      stack.symbols.size :=
    rfl
  unfold liveNodes
  simp only [sameSize, sameSymbols, sameSymbolsSize]
  omega

theorem liveNodes_setSymbolRemoved
    {id : Nat}
    (inside : id < stack.symbols.size)
    (live : (stack.symbolNode id).removed = false) :
    (stack.setSymbolRemoved id true).liveNodes + 1 = stack.liveNodes := by
  have marked : ∀ other : Nat,
      ((stack.setSymbolRemoved id true).symbolNode other).removed =
        (other == id || (stack.symbolNode other).removed) := by
    intro other
    rw [setSymbolRemoved, symbolNode_modifySymbol inside]
    split
    · rename_i same
      simp [same]
    · rename_i differs
      simp [differs]
  have fewer := missingFacts_mark inside live marked
  have sameSize : (stack.setSymbolRemoved id true).symbols.size =
      stack.symbols.size :=
    size_symbols_modifySymbol
  have sameStates : ∀ other : Nat,
      (stack.setSymbolRemoved id true).stateNode other =
        stack.stateNode other :=
    fun _ => rfl
  have sameStatesSize : (stack.setSymbolRemoved id true).states.size =
      stack.states.size :=
    rfl
  unfold liveNodes
  simp only [sameSize, sameStates, sameStatesSize]
  omega

/-- A sweep counts the nodes that it removes. -/
theorem liveNodes_sweepStates
    (ids : List StateNodeId)
    {swept : Nat × GraphStack} :
    swept.1 ≤ (sweepStates ids swept).1 ∧
      (sweepStates ids swept).1 + (sweepStates ids swept).2.liveNodes =
        swept.1 + swept.2.liveNodes := by
  induction ids generalizing swept with
  | nil =>
      exact ⟨Nat.le_refl _, rfl⟩
  | cons id rest inductionHypothesis =>
      obtain ⟨count, stack⟩ := swept
      unfold sweepStates
      split
      · rename_i stranded
        simp only [isStranded, Bool.and_eq_true, Bool.not_eq_true'] at stranded
        obtain ⟨⟨live, hasChildren⟩, -⟩ := stranded
        have inside : id < stack.states.size := by
          refine Nat.lt_of_not_le fun outside => ?_
          rw [stateNode_of_le outside] at hasChildren
          cases hasChildren
        have fewer := liveNodes_setStateRemoved inside live
        obtain ⟨counted, fewerStill⟩ := @inductionHypothesis
          (count + 1, stack.setStateRemoved id true)
        simp only at counted fewerStill ⊢
        omega
      · exact inductionHypothesis

theorem liveNodes_sweepSymbols
    (start : Nat)
    (ids : List SymbolNodeId)
    {swept : Nat × GraphStack} :
    swept.1 ≤ (sweepSymbols start ids swept).1 ∧
      (sweepSymbols start ids swept).1 +
          (sweepSymbols start ids swept).2.liveNodes =
        swept.1 + swept.2.liveNodes := by
  induction ids generalizing swept with
  | nil =>
      exact ⟨Nat.le_refl _, rfl⟩
  | cons id rest inductionHypothesis =>
      obtain ⟨count, stack⟩ := swept
      unfold sweepSymbols
      split
      · rename_i floating
        simp only [isFloating, Bool.and_eq_true, Bool.not_eq_true'] at floating
        obtain ⟨⟨live, hasWord⟩, -⟩ := floating
        have inside : id < stack.symbols.size := by
          refine Nat.lt_of_not_le fun outside => ?_
          rw [symbolNode_of_le outside] at hasWord
          cases hasWord
        have fewer := liveNodes_setSymbolRemoved inside live
        obtain ⟨counted, fewerStill⟩ := @inductionHypothesis
          (count + 1, stack.setSymbolRemoved id true)
        simp only at counted fewerStill ⊢
        omega
      · exact inductionHypothesis

/-- A round that changes something leaves fewer nodes live. -/
theorem liveNodes_sweepRound
    {start : Nat}
    {swept : Nat × GraphStack}
    (changed : (sweepRound start swept).1 = true) :
    (sweepRound start swept).2.2.liveNodes < swept.2.liveNodes := by
  have states := @liveNodes_sweepStates
    ((swept.2.layers.toList.drop start).flatMap (·.nodes)) swept
  have symbols := @liveNodes_sweepSymbols start
    (List.range swept.2.symbols.size)
    (sweepStates ((swept.2.layers.toList.drop start).flatMap (·.nodes)) swept)
  simp only [sweepRound, bne_iff_ne, ne_eq] at changed ⊢
  omega

/-- A sweep ends by itself: more rounds would change nothing. -/
theorem repeatRounds_sweepRound (start more : Nat) :
    (repeatRounds (sweepRound start)
        (stack.states.size + stack.symbols.size + 1 + more) (0, stack)).2 =
      stack.sweep start := by
  unfold sweep
  rw [@repeatRounds_add _ _ (fun _ => True) (fun swept => swept.2.liveNodes)
    (fun _ _ => trivial) (fun _ _ => liveNodes_sweepRound) _ _ trivial
    (Nat.lt_succ_of_le stack.liveNodes_le)]

theorem derivations_setSymbolRemoved (id other : Nat) (removed : Bool) :
    ((stack.setSymbolRemoved id removed).symbolNode other).derivations =
      (stack.symbolNode other).derivations := by
  unfold setSymbolRemoved
  by_cases inside : id < stack.symbols.size
  · rw [symbolNode_modifySymbol inside]
    split
    · rename_i same
      rw [same]
    · rfl
  · rw [modifySymbol_of_le (Nat.le_of_not_lt inside)]

theorem derivations_sweepStates
    (ids : List StateNodeId)
    {swept : Nat × GraphStack}
    (other : Nat) :
    ((sweepStates ids swept).2.symbolNode other).derivations =
      (swept.2.symbolNode other).derivations := by
  induction ids generalizing swept with
  | nil =>
      rfl
  | cons id rest inductionHypothesis =>
      unfold sweepStates
      split
      · exact @inductionHypothesis (_, _)
      · exact inductionHypothesis

theorem derivations_sweepSymbols
    (start : Nat)
    (ids : List SymbolNodeId)
    {swept : Nat × GraphStack}
    (other : Nat) :
    ((sweepSymbols start ids swept).2.symbolNode other).derivations =
      (swept.2.symbolNode other).derivations := by
  induction ids generalizing swept with
  | nil =>
      rfl
  | cons id rest inductionHypothesis =>
      unfold sweepSymbols
      split
      · exact (@inductionHypothesis (_, _)).trans
          (derivations_setSymbolRemoved id other true)
      · exact inductionHypothesis

/-- A sweep takes no derivations away. -/
theorem derivations_sweep (start other : Nat) :
    ((stack.sweep start).2.symbolNode other).derivations =
      (stack.symbolNode other).derivations := by
  unfold sweep
  refine repeatRounds_induction
    (motive := fun swept : Nat × GraphStack =>
      (swept.2.symbolNode other).derivations =
        (stack.symbolNode other).derivations)
    ?_ _ rfl
  intro swept same
  exact (derivations_sweepSymbols start _ other).trans
    ((derivations_sweepStates _ other).trans same)

end GraphStack

namespace GreedyPass

variable {pass : GreedyPass} {compiled : CompiledGrammar} {spans : SpanStore}
variable {winners : Winners}

theorem trimmed_drop (id : Nat) :
    pass.stack.Trimmed (pass.drop id).stack :=
  GraphStack.trimmed_setSymbolRemoved id

theorem trimmed_foldl_drop (ids : List SymbolNodeId) :
    pass.stack.Trimmed (ids.foldl drop pass).stack := by
  induction ids generalizing pass with
  | nil =>
      exact .refl _
  | cons id rest inductionHypothesis =>
      exact (trimmed_drop id).trans inductionHypothesis

/-- Pruning a node removes it together with its last derivation. -/
theorem trimmed_prune (id : Nat) :
    pass.stack.Trimmed (pass.prune compiled spans winners id).2.stack := by
  unfold prune
  simp only
  split
  · exact .refl _
  · split
    · exact .refl _
    · generalize isKept : ((pass.stack.symbolNode id).derivations.filter
        (pass.keeps compiled spans winners (pass.stack.symbolNode id))) = kept
      have keptFrom : kept.Sublist (pass.stack.symbolNode id).derivations :=
        isKept ▸ List.filter_sublist
      have restricted := GraphStack.pruned_restrict keptFrom
      split
      · refine ⟨restricted.trans (GraphStack.trimmed_setSymbolRemoved id).1, ?_⟩
        intro other isEmpty
        by_cases inside : id < pass.stack.symbols.size
        · by_cases same : other = id
          · rw [same]
            refine .inr (GraphStack.removed_setSymbolRemoved ?_)
            rw [GraphStack.size_symbols_modifySymbol]
            exact inside
          · have middle := (GraphStack.trimmed_setSymbolRemoved id).emptied
              other isEmpty
            rw [GraphStack.symbolNode_modifySymbol inside, if_neg same]
              at middle
            exact middle
        · have middle := (GraphStack.trimmed_setSymbolRemoved id).emptied
            other isEmpty
          rw [GraphStack.modifySymbol_of_le (Nat.le_of_not_lt inside)]
            at middle
          exact middle
      · rename_i notEmpty
        refine ⟨restricted, ?_⟩
        intro other isEmpty
        by_cases inside : id < pass.stack.symbols.size
        · rw [GraphStack.symbolNode_modifySymbol inside] at isEmpty
          split at isEmpty
          · exact absurd (List.isEmpty_iff.mpr isEmpty) notEmpty
          · exact .inl isEmpty
        · rw [GraphStack.modifySymbol_of_le (Nat.le_of_not_lt inside)]
            at isEmpty
          exact .inl isEmpty

theorem trimmed_pruneRound (nodes : List SymbolNodeId) :
    pass.stack.Trimmed
      (pruneRound compiled spans winners nodes pass).2.stack := by
  unfold pruneRound
  refine List.foldlRecOn
    (motive := fun state : Bool × GreedyPass =>
      pass.stack.Trimmed state.2.stack) _ _ (.refl _) ?_
  intro state trimmed id _
  exact trimmed.trans (trimmed_prune id)

theorem trimmed_pruneAll :
    pass.stack.Trimmed (pass.pruneAll compiled spans winners).stack := by
  unfold pruneAll
  split
  · exact .refl _
  · exact repeatRounds_induction
      (motive := fun current : GreedyPass =>
        pass.stack.Trimmed current.stack)
      (fun _ trimmed => trimmed.trans (trimmed_pruneRound _)) _ (.refl _)

end GreedyPass

/-- A greedy pass trims. -/
theorem trimmed_filterGreedily
    (compiled : CompiledGrammar)
    (spans : SpanStore)
    (word : Nat)
    (stack : GraphStack)
    (roots : List SymbolNodeId) :
    stack.Trimmed
      (filterGreedily compiled spans word stack roots).stack := by
  unfold filterGreedily
  simp only
  split
  · exact .refl _
  · exact (@GreedyPass.trimmed_foldl_drop ⟨stack, word, .empty, 0⟩ _).trans
      (GreedyPass.trimmed_pruneAll.trans (GraphStack.trimmed_sweep _))

/-- A greedy pass keeps the roots that it leaves live. -/
theorem mem_roots_filterGreedily
    {compiled : CompiledGrammar}
    {spans : SpanStore}
    {word : Nat}
    {stack : GraphStack}
    {roots : List SymbolNodeId}
    (live : ∀ root ∈ roots, (stack.symbolNode root).removed = false)
    (node : SymbolNodeId) :
    node ∈ (filterGreedily compiled spans word stack roots).roots ↔
      node ∈ roots ∧
        ((filterGreedily compiled spans word stack roots).stack.symbolNode
          node).removed = false := by
  unfold filterGreedily
  simp only
  split
  · exact ⟨fun listed => ⟨listed, live node listed⟩, (·.1)⟩
  · simp [List.mem_filter]

end SpanForest
