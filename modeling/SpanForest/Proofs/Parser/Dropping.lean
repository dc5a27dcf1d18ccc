import Mathlib.Algebra.Order.BigOperators.Group.List
import Mathlib.Algebra.Order.Group.Nat
import SpanForest.Proofs.BitSet
import SpanForest.Proofs.Parser.Sweeping

namespace SpanForest

/-!
# What a greedy pass drops

A pass drops the nodes that lose, and then every node all of whose derivations
lead through dropped nodes. When it comes to an end, the nodes that are still
live have no derivation through a dropped node, apart from those by which a
greedy rule builds a span from the start of a winner.
-/

namespace GreedyPass

variable {pass : GreedyPass} {base : GraphStack} {start : Nat}
variable {compiled : CompiledGrammar} {spans : SpanStore} {winners : Winners}

/-- A node that a pass dropped. -/
def Dropped (pass : GreedyPass) (id : Nat) : Prop :=
  pass.dead.contains id = true

/-- A pass under way that dropped nodes of some word or later only. -/
structure Drops (base : GraphStack) (start : Nat) (pass : GreedyPass) : Prop where
  trimmed : base.Trimmed pass.stack
  states : pass.stack.states = base.states
  removed :
    ∀ id : Nat, pass.Dropped id → (pass.stack.symbolNode id).removed = true
  wasLive :
    ∀ id : Nat, pass.Dropped id → (base.symbolNode id).removed = false
  only :
    ∀ id : Nat, (pass.stack.symbolNode id).removed = true →
      (base.symbolNode id).removed = true ∨ pass.Dropped id
  late :
    ∀ id : Nat, pass.Dropped id → ∀ word : Nat,
      (base.symbolNode id).word = some word → start ≤ word
  emptied :
    ∀ id : Nat, (pass.stack.symbolNode id).derivations = [] →
      (base.symbolNode id).derivations = [] ∨ pass.Dropped id
  lost :
    ∀ id : Nat, ∀ derivation ∈ (base.symbolNode id).derivations,
      derivation ∈ (pass.stack.symbolNode id).derivations ∨
        ∃ child ∈ derivation.children, pass.Dropped child

/-- A node that needs no pruning. -/
def Clean
    (pass : GreedyPass)
    (compiled : CompiledGrammar)
    (spans : SpanStore)
    (winners : Winners)
    (id : Nat) : Prop :=
  (pass.stack.symbolNode id).removed = true ∨
    ∀ derivation ∈ (pass.stack.symbolNode id).derivations,
      pass.keeps compiled spans winners (pass.stack.symbolNode id)
        derivation = true

theorem dropped_drop {id other : Nat} :
    (pass.drop id).Dropped other ↔ other = id ∨ pass.Dropped other := by
  simp [Dropped, drop]

theorem symbolNode_drop
    {id : Nat}
    (inside : id < pass.stack.symbols.size)
    (other : Nat) :
    (pass.drop id).stack.symbolNode other =
      if other = id then
        { pass.stack.symbolNode id with removed := true }
      else
        pass.stack.symbolNode other :=
  GraphStack.symbolNode_modifySymbol inside

theorem Drops.drop
    (drops : pass.Drops base start)
    {id : Nat}
    (inside : id < base.symbols.size)
    (isLive : (base.symbolNode id).removed = false)
    (late : ∀ word : Nat, (base.symbolNode id).word = some word → start ≤ word) :
    (pass.drop id).Drops base start := by
  rw [← drops.trimmed.shape.symbols_size] at inside
  constructor
  case trimmed => exact drops.trimmed.trans (trimmed_drop id)
  case states => exact drops.states
  case wasLive =>
    intro other isDropped
    rcases dropped_drop.mp isDropped with isId | old
    · exact isId ▸ isLive
    · exact drops.wasLive other old
  case only =>
    intro other isRemoved
    rw [symbolNode_drop inside] at isRemoved
    split at isRemoved
    · rename_i isId
      exact .inr (dropped_drop.mpr (.inl isId))
    · exact (drops.only other isRemoved).imp_right fun old =>
        dropped_drop.mpr (.inr old)
  case removed =>
    intro other isDropped
    rw [symbolNode_drop inside]
    split
    · rfl
    · rename_i differs
      exact drops.removed other ((dropped_drop.mp isDropped).resolve_left differs)
  case late =>
    intro other isDropped
    rcases dropped_drop.mp isDropped with isId | old
    · exact isId ▸ late
    · exact drops.late other old
  case emptied =>
    intro other isEmpty
    rw [symbolNode_drop inside] at isEmpty
    split at isEmpty
    · rename_i isId
      exact .inr (dropped_drop.mpr (.inl isId))
    · exact (drops.emptied other isEmpty).imp_right fun old =>
        dropped_drop.mpr (.inr old)
  case lost =>
    intro other derivation member
    rw [GreedyPass.drop, GraphStack.derivations_setSymbolRemoved]
    refine (drops.lost other derivation member).imp_right ?_
    rintro ⟨child, isChild, isDropped⟩
    exact ⟨child, isChild, dropped_drop.mpr (.inr isDropped)⟩

/-- Dropping several nodes moves the start of a pass before all of them. -/
theorem drops_foldl_drop
    (ids : List SymbolNodeId)
    (known : ∀ id : Nat, id ∈ ids →
      id < base.symbols.size ∧ (base.symbolNode id).removed = false)
    (drops : ∀ early : Nat, early ≤ pass.start → pass.Drops base early) :
    ∀ early : Nat, early ≤ (ids.foldl GreedyPass.drop pass).start →
      (ids.foldl GreedyPass.drop pass).Drops base early := by
  induction ids generalizing pass with
  | nil =>
      exact drops
  | cons id rest inductionHypothesis =>
      refine inductionHypothesis
        (fun other member => known other (List.mem_cons_of_mem _ member)) ?_
      intro early isEarly
      have same := ((drops pass.start (Nat.le_refl _)).trimmed.shape.symbol id).2.2.1
      have starts : early ≤ pass.start ∧
          ∀ word : Nat, (base.symbolNode id).word = some word →
            early ≤ word := by
        rw [← same]
        simp only [GreedyPass.drop] at isEarly
        split at isEarly
        · rename_i word isWord
          rw [isWord]
          refine ⟨by omega, fun own isOwn => ?_⟩
          obtain rfl := Option.some.inj isOwn
          omega
        · rename_i noWord
          rw [noWord]
          exact ⟨isEarly, fun own isOwn => by cases isOwn⟩
      obtain ⟨inside, isLive⟩ := known id List.mem_cons_self
      exact (drops early starts.1).drop inside isLive starts.2

/-- A greedy rule builds a span that starts with the winner of its symbol. -/
def Spares
    (compiled : CompiledGrammar)
    (spans : SpanStore)
    (winners : Winners)
    (stack : GraphStack)
    (node : SymbolNode)
    (derivation : Derivation) : Prop :=
  (∃ winner, winnerOf? winners node = some winner ∧
    (spans.get (stack.symbolNode winner).span).start =
      (spans.get node.span).start) ∧
    (compiled.grammar.rule derivation.rule).greedy = true

/-- A derivation that goes is not spared and leads through a dropped node. -/
theorem keeps_eq_false {node : SymbolNode} {derivation : Derivation} :
    pass.keeps compiled spans winners node derivation = false ↔
      ¬ Spares compiled spans winners pass.stack node derivation ∧
        ∃ child ∈ derivation.children, pass.Dropped child := by
  have spares : ((winnerOf? winners node).any (fun winner =>
        (spans.get (pass.stack.symbolNode winner).span).start ==
          (spans.get node.span).start) &&
        (compiled.grammar.rule derivation.rule).greedy) = true ↔
      Spares compiled spans winners pass.stack node derivation := by
    simp only [Spares, Bool.and_eq_true, Option.any_eq_true, beq_iff_eq]
  rw [keeps, Bool.or_eq_false_iff, ← spares, Bool.not_eq_true]
  simp [Dropped]

/-- Pruning leaves a node alone if it is clean, or takes derivations from it. -/
theorem prune_cases
    {id : Nat}
    (inside : id < pass.stack.symbols.size)
    (derived : (pass.stack.symbolNode id).removed = false →
      (pass.stack.symbolNode id).derivations ≠ []) :
    (pass.prune compiled spans winners id = (false, pass) ∧
      pass.Clean compiled spans winners id) ∨
    ∃ kept : List Derivation,
      (pass.prune compiled spans winners id).1 = true ∧
        kept.length < (pass.stack.symbolNode id).derivations.length ∧
        (pass.stack.symbolNode id).removed = false ∧
        (∀ derivation ∈ (pass.stack.symbolNode id).derivations,
          derivation ∈ kept ∨
            pass.keeps compiled spans winners (pass.stack.symbolNode id)
              derivation = false) ∧
        (∀ other : Nat,
          ((pass.prune compiled spans winners id).2.stack.symbolNode
              other).derivations =
            if other = id then kept
            else (pass.stack.symbolNode other).derivations) ∧
        (∀ other : Nat,
          ((pass.prune compiled spans winners id).2.stack.symbolNode
              other).removed =
            if other = id ∧ kept = [] then true
            else (pass.stack.symbolNode other).removed) ∧
        ∀ other : Nat, (pass.prune compiled spans winners id).2.Dropped other ↔
          (other = id ∧ kept = []) ∨ pass.Dropped other := by
  unfold prune
  simp only
  split
  · rename_i isRemoved
    exact .inl ⟨rfl, .inl isRemoved⟩
  · rename_i notRemoved
    generalize isKept : ((pass.stack.symbolNode id).derivations.filter
      (pass.keeps compiled spans winners (pass.stack.symbolNode id))) = kept
    split
    · rename_i isWhole
      refine .inl ⟨rfl, .inr ?_⟩
      rw [← isKept] at isWhole
      exact List.length_filter_eq_length_iff.mp isWhole.1
    · rename_i notWhole
      have fewer : kept.length < (pass.stack.symbolNode id).derivations.length := by
        have le : kept.length ≤ (pass.stack.symbolNode id).derivations.length :=
          isKept ▸ List.length_filter_le _ _
        refine Nat.lt_of_le_of_ne le fun same => ?_
        refine notWhole ⟨same, fun isEmpty => ?_⟩
        rw [isEmpty, List.length_nil] at same
        exact derived (by simpa using notRemoved)
          (List.length_eq_zero_iff.mp same.symm)
      have keptOrNot : ∀ derivation ∈ (pass.stack.symbolNode id).derivations,
          derivation ∈ kept ∨
            pass.keeps compiled spans winners (pass.stack.symbolNode id)
              derivation = false := by
        intro derivation member
        rw [← isKept, List.mem_filter, ← Bool.not_eq_true]
        exact (em _).imp_left fun stays => ⟨member, stays⟩
      refine .inr ⟨kept, rfl, fewer, by simpa using notRemoved, keptOrNot, ?_⟩
      have content : ∀ other : Nat,
          (pass.stack.modifySymbol id fun current =>
              { current with derivations := kept }).symbolNode other =
            if other = id then
              { pass.stack.symbolNode id with derivations := kept }
            else
              pass.stack.symbolNode other :=
        fun other => GraphStack.symbolNode_modifySymbol inside
      split
      · rename_i isEmpty
        have keptNone := List.isEmpty_iff.mp isEmpty
        have dropped := fun other => @symbolNode_drop
          { pass with
            stack := pass.stack.modifySymbol id fun current =>
              { current with derivations := kept } }
          id (by simpa using inside) other
        refine ⟨fun other => ?_, fun other => ?_, fun other => ?_⟩
        · rw [dropped, content, content, if_pos rfl]
          split <;> rfl
        · rw [dropped, content, content, if_pos rfl]
          by_cases isId : other = id
          · rw [if_pos isId, if_pos ⟨isId, keptNone⟩]
          · rw [if_neg isId, if_neg isId, if_neg (isId ·.1)]
        · rw [dropped_drop]
          simp only [keptNone, and_true]
          exact Iff.rfl
      · rename_i notEmpty
        have keptSome : kept ≠ [] := fun isNone => notEmpty (by simp [isNone])
        refine ⟨fun other => ?_, fun other => ?_, fun other => ?_⟩
        · rw [content]
          split <;> rfl
        · have notBoth : ¬ (other = id ∧ kept = []) := (keptSome ·.2)
          rw [content, if_neg notBoth]
          split
          · rename_i isId
            rw [isId]
          · rfl
        · exact ⟨.inr, fun old => old.resolve_left (keptSome ·.2)⟩

/-- Pruning leaves the state nodes alone. -/
theorem states_prune {id : Nat} :
    (pass.prune compiled spans winners id).2.stack.states = pass.stack.states := by
  unfold prune
  simp only
  split
  · rfl
  · split
    · rfl
    · split <;> rfl

/-- A pass that went on from another: it dropped what that dropped, perhaps earlier. -/
structure Continues (before after : GreedyPass) : Prop where
  dropped : ∀ id : Nat, before.Dropped id → after.Dropped id
  start : after.start ≤ before.start

theorem Continues.refl (pass : GreedyPass) : pass.Continues pass :=
  ⟨fun _ isDropped => isDropped, Nat.le_refl _⟩

theorem Continues.trans
    {first second third : GreedyPass}
    (early : first.Continues second)
    (late : second.Continues third) :
    first.Continues third :=
  ⟨fun id isDropped => late.dropped id (early.dropped id isDropped),
    Nat.le_trans late.start early.start⟩

theorem continues_drop (id : Nat) : pass.Continues (pass.drop id) := by
  refine ⟨fun other old => dropped_drop.mpr (.inr old), ?_⟩
  simp only [drop]
  split
  · exact Nat.min_le_left _ _
  · exact Nat.le_refl _

theorem continues_foldl_drop (ids : List SymbolNodeId) :
    pass.Continues (ids.foldl drop pass) ∧
      ∀ id ∈ ids, (ids.foldl drop pass).Dropped id := by
  induction ids generalizing pass with
  | nil => exact ⟨.refl pass, fun _ member => nomatch member⟩
  | cons id rest inductionHypothesis =>
      obtain ⟨continues, all⟩ := @inductionHypothesis (pass.drop id)
      refine ⟨(continues_drop id).trans continues, fun other member => ?_⟩
      rcases List.mem_cons.mp member with isId | inRest
      · exact continues.dropped other (dropped_drop.mpr (.inl isId))
      · exact all other inRest

theorem continues_prune (id : Nat) :
    pass.Continues (pass.prune compiled spans winners id).2 := by
  unfold prune
  simp only
  split
  · exact .refl pass
  · split
    · exact .refl pass
    · have restricted : ∀ stack : GraphStack,
          pass.Continues { pass with stack := stack } :=
        fun _ => ⟨fun _ isDropped => isDropped, Nat.le_refl _⟩
      split
      · refine (restricted (pass.stack.modifySymbol id _)).trans
          (continues_drop id)
      · exact restricted _

theorem continues_pruneAll :
    pass.Continues (pass.pruneAll compiled spans winners) := by
  unfold pruneAll
  split
  · exact .refl pass
  · refine repeatRounds_induction (motive := fun current => pass.Continues current)
      (fun current continues => ?_) _ (.refl pass)
    unfold pruneRound
    exact List.foldlRecOn
      (motive := fun state : Bool × GreedyPass => pass.Continues state.2) _ _
      continues fun _ soFar id _ => soFar.trans (continues_prune id)

/-- Derivations that a list of nodes has left. -/
def derivationsLeft (nodes : List SymbolNodeId) (pass : GreedyPass) : Nat :=
  (nodes.map fun id => (pass.stack.symbolNode id).derivations.length).foldr (· + ·) 0

/-- Nodes of the stack that have derivations as long as they are live. -/
structure Derived (nodes : List SymbolNodeId) (pass : GreedyPass) : Prop where
  inside : ∀ id : Nat, id ∈ nodes → id < pass.stack.symbols.size
  derived :
    ∀ id ∈ nodes, (pass.stack.symbolNode id).removed = false →
      (pass.stack.symbolNode id).derivations ≠ []

/-- Pruning a node leaves it clean, or fewer derivations in all. -/
theorem Derived.prune
    {nodes : List SymbolNodeId}
    (derived : pass.Derived nodes)
    {id : Nat}
    (member : id ∈ nodes) :
    (pass.prune compiled spans winners id).2.Derived nodes ∧
      ((pass.prune compiled spans winners id = (false, pass) ∧
        pass.Clean compiled spans winners id) ∨
        (pass.prune compiled spans winners id).1 = true ∧
          derivationsLeft nodes (pass.prune compiled spans winners id).2 <
            derivationsLeft nodes pass) := by
  have trimmed := @trimmed_prune pass compiled spans winners id
  rcases @prune_cases pass compiled spans winners id
    (derived.inside id member) (derived.derived id member) with
      ⟨same, clean⟩ | ⟨kept, changed, fewer, -, -, derivations, removed, -⟩
  · exact ⟨same ▸ derived, .inl ⟨same, clean⟩⟩
  · generalize (pass.prune compiled spans winners id).2 = pruned
      at trimmed derivations removed ⊢
    refine ⟨⟨?_, ?_⟩, .inr ⟨changed, ?_⟩⟩
    · intro other isNode
      rw [trimmed.shape.symbols_size]
      exact derived.inside other isNode
    · intro other isNode isLive
      rw [removed] at isLive
      rw [derivations]
      split at isLive
      · cases isLive
      · rename_i notBoth
        split
        · rename_i isId
          exact fun isEmpty => notBoth ⟨isId, isEmpty⟩
        · exact derived.derived other isNode isLive
    · unfold derivationsLeft
      simp only [derivations, ← List.sum_eq_foldr]
      refine List.sum_lt_sum _ _ (fun other _ => ?_) ⟨id, member, by simpa using fewer⟩
      split
      · rename_i isId
        rw [isId]
        exact Nat.le_of_lt fewer
      · exact Nat.le_refl _

/--
Pruning nodes in turn finds all of them clean, or leaves fewer derivations. It
keeps whatever pruning one of them keeps.
-/
theorem pruneAlong
    {nodes rest : List SymbolNodeId}
    {motive : GreedyPass → Prop}
    (derived : ∀ current : GreedyPass, motive current → current.Derived nodes)
    (kept : ∀ (current : GreedyPass) (id : Nat), id ∈ nodes → motive current →
      motive (current.prune compiled spans winners id).2)
    (holds : motive pass)
    (subset : rest ⊆ nodes)
    (flag : Bool)
    {result : Bool × GreedyPass}
    (isResult :
      rest.foldl
        (fun (changed, current) id =>
          let (dropped, next) := current.prune compiled spans winners id
          (changed || dropped, next))
        (flag, pass) = result) :
    motive result.2 ∧
      ((result = (flag, pass) ∧
        ∀ id ∈ rest, pass.Clean compiled spans winners id) ∨
        result.1 = true ∧
          derivationsLeft nodes result.2 < derivationsLeft nodes pass) := by
  induction rest generalizing pass flag with
  | nil =>
      subst isResult
      exact ⟨holds, .inl ⟨rfl, by simp⟩⟩
  | cons id rest inductionHypothesis =>
      have member := subset List.mem_cons_self
      have restSubset : rest ⊆ nodes :=
        fun _ inRest => subset (List.mem_cons_of_mem id inRest)
      have prunes := kept pass id member holds
      obtain ⟨-, settled⟩ := @Derived.prune _ compiled spans winners _
        (derived pass holds) id member
      rw [List.foldl_cons] at isResult
      simp only at isResult
      rcases settled with ⟨same, clean⟩ | ⟨changed, fewer⟩
      · rw [same, Bool.or_false] at isResult
        obtain ⟨after, outcome⟩ :=
          inductionHypothesis holds restSubset flag isResult
        refine ⟨after, outcome.imp_left ?_⟩
        rintro ⟨isSame, restClean⟩
        refine ⟨isSame, fun other isOther => ?_⟩
        rcases List.mem_cons.mp isOther with isId | inRest
        · exact isId ▸ clean
        · exact restClean other inRest
      · rw [changed, Bool.or_true] at isResult
        obtain ⟨after, outcome⟩ :=
          inductionHypothesis prunes restSubset true isResult
        refine ⟨after, .inr ?_⟩
        rcases outcome with ⟨isSame, -⟩ | ⟨isChanged, fewerStill⟩
        · rw [isSame]
          exact ⟨rfl, fewer⟩
        · exact ⟨isChanged, Nat.lt_trans fewerStill fewer⟩

/-- A round that changes something leaves fewer derivations. -/
theorem derivationsLeft_pruneRound
    {nodes : List SymbolNodeId}
    (derived : pass.Derived nodes)
    (changed : (pruneRound compiled spans winners nodes pass).1 = true) :
    derivationsLeft nodes (pruneRound compiled spans winners nodes pass).2 <
      derivationsLeft nodes pass := by
  have pruned := @pruneAlong pass compiled spans winners nodes nodes
    (Derived nodes) (fun _ isDerived => isDerived)
    (fun _ _ member isDerived => (isDerived.prune member).1) derived
    (List.Subset.refl _) false _ rfl
  rcases pruned.2 with ⟨same, -⟩ | fewer
  · rw [pruneRound, same] at changed
    cases changed
  · exact fewer.2

/-- The nodes that may depend on what a pass dropped. -/
theorem mem_dependents
    {id : Nat}
    (member : id ∈ pass.dependents) :
    id < pass.stack.symbols.size ∧
      (∀ word : Nat, (pass.stack.symbolNode id).word = some word →
        pass.start ≤ word) ∧
      (pass.stack.symbolNode id).derivations ≠ [] := by
  obtain ⟨⟨own, node⟩, isEntry, rfl⟩ := List.mem_map.mp member
  obtain ⟨isEntry, accepted⟩ := List.mem_filter.mp isEntry
  obtain ⟨inside, rfl⟩ := GraphStack.mem_symbolEntries.mp isEntry
  simp only [Bool.and_eq_true, Bool.not_eq_true', List.isEmpty_eq_false_iff,
    Option.all_eq_true, decide_eq_true_eq] at accepted
  exact ⟨inside, accepted.1.2, accepted.2⟩

theorem derived_dependents : pass.Derived pass.dependents :=
  ⟨fun _ member => (mem_dependents member).1,
    fun _ member _ => (mem_dependents member).2.2⟩

/-- Pruning ends by itself: more rounds would change nothing. -/
theorem repeatRounds_pruneRound
    (someDead : pass.dead.isEmpty = false)
    (more : Nat) :
    (repeatRounds (pruneRound compiled spans winners pass.dependents)
        ((pass.dependents.map fun id =>
          (pass.stack.symbolNode id).derivations.length).foldr (· + ·) 0 + 1 + more)
        pass).2 =
      pass.pruneAll compiled spans winners := by
  have kept : ∀ current : GreedyPass, current.Derived pass.dependents →
      (pruneRound compiled spans winners pass.dependents
        current).2.Derived pass.dependents :=
    fun current derived => (@pruneAlong current compiled spans winners _ _
      (Derived pass.dependents) (fun _ isDerived => isDerived)
      (fun _ _ member isDerived => (isDerived.prune member).1) derived
      (List.Subset.refl _) false _ rfl).1
  have ended := repeatRounds_add kept
    (fun _ derived changed => derivationsLeft_pruneRound derived changed)
    (@derived_dependents pass) (Nat.lt_succ_self _) more
  unfold pruneAll
  rw [someDead]
  exact congrArg Prod.snd ended

/-- What pruning keeps, over nodes of a start or later that had derivations. -/
structure Pruning
    (base : GraphStack)
    (start : Nat)
    (nodes : List SymbolNodeId)
    (pass : GreedyPass) : Prop where
  drops : pass.Drops base start
  derived : pass.Derived nodes

/-- Pruning a node of the start or later. -/
theorem Pruning.prune
    {nodes : List SymbolNodeId}
    (pruning : pass.Pruning base start nodes)
    {id : Nat}
    (member : id ∈ nodes)
    (late : ∀ word : Nat, (base.symbolNode id).word = some word → start ≤ word) :
    (pass.prune compiled spans winners id).2.Pruning base start nodes := by
  have drops := pruning.drops
  have derived := pruning.derived
  refine ⟨?_, (derived.prune member).1⟩
  have trimmed := @trimmed_prune pass compiled spans winners id
  have states := @states_prune pass compiled spans winners id
  rcases @prune_cases pass compiled spans winners id
    (derived.inside id member) (derived.derived id member) with
      ⟨same, -⟩ | ⟨kept, -, -, isLive, keptOrNot, derivations, removed, dropped⟩
  · exact same ▸ drops
  · generalize (pass.prune compiled spans winners id).2 = pruned
      at trimmed states derivations removed dropped ⊢
    have stillDropped : ∀ other : Nat, pass.Dropped other →
        pruned.Dropped other :=
      fun other old => (dropped other).mpr (.inr old)
    constructor
    case trimmed => exact drops.trimmed.trans trimmed
    case states => exact states.trans drops.states
    case removed =>
      intro other isDropped
      rw [removed]
      split
      · rfl
      · rename_i notBoth
        exact drops.removed other
          (((dropped other).mp isDropped).resolve_left notBoth)
    case wasLive =>
      intro other isDropped
      rcases (dropped other).mp isDropped with ⟨isId, -⟩ | old
      · refine isId ▸ Bool.eq_false_iff.mpr fun wasRemoved => ?_
        rw [drops.trimmed.removed id wasRemoved] at isLive
        cases isLive
      · exact drops.wasLive other old
    case only =>
      intro other isRemoved
      rw [removed] at isRemoved
      split at isRemoved
      · rename_i isBoth
        exact .inr ((dropped other).mpr (.inl isBoth))
      · exact (drops.only other isRemoved).imp_right (stillDropped other)
    case late =>
      intro other isDropped
      rcases (dropped other).mp isDropped with ⟨isId, -⟩ | old
      · exact isId ▸ late
      · exact drops.late other old
    case emptied =>
      intro other isEmpty
      rw [derivations] at isEmpty
      split at isEmpty
      · rename_i isId
        exact .inr ((dropped other).mpr (.inl ⟨isId, isEmpty⟩))
      · exact (drops.emptied other isEmpty).imp_right (stillDropped other)
    case lost =>
      intro other derivation wasMember
      rw [derivations]
      rcases drops.lost other derivation wasMember with still | loses
      · split
        · rename_i isId
          refine (keptOrNot derivation (isId ▸ still)).imp_right fun severed => ?_
          obtain ⟨-, child, isChild, old⟩ := keeps_eq_false.mp severed
          exact ⟨child, isChild, stillDropped child old⟩
        · exact .inl still
      · obtain ⟨child, isChild, old⟩ := loses
        exact .inr ⟨child, isChild, stillDropped child old⟩

/-- A pass that comes to an end leaves the nodes clean that depended on others. -/
theorem Drops.pruneAll
    (drops : pass.Drops base pass.start) :
    (pass.pruneAll compiled spans winners).Drops base pass.start ∧
      ∀ id ∈ pass.dependents,
        (pass.pruneAll compiled spans winners).Clean compiled spans winners id ∨
          ∀ other : Nat,
            ¬ (pass.pruneAll compiled spans winners).Dropped other := by
  unfold GreedyPass.pruneAll
  split
  · rename_i noneDead
    refine ⟨drops, fun _ _ => .inr fun other isDropped => ?_⟩
    rw [Dropped, BitSet.contains_of_isEmpty noneDead] at isDropped
    cases isDropped
  · have shape := drops.trimmed.shape
    have late : ∀ id : Nat, id ∈ pass.dependents → ∀ word : Nat,
        (base.symbolNode id).word = some word → pass.start ≤ word := by
      intro id member word isWord
      rw [← (shape.symbol id).2.2.1] at isWord
      exact (mem_dependents member).2.1 word isWord
    have pruneRounds : ∀ current : GreedyPass,
        current.Pruning base pass.start pass.dependents →
        _ :=
      fun current pruning => @pruneAlong current compiled spans winners _ _
        (Pruning base pass.start pass.dependents)
        (fun _ isPruning => isPruning.derived)
        (fun _ id member isPruning => isPruning.prune member (late id member))
        pruning (List.Subset.refl _) false _ rfl
    have kept : ∀ current : GreedyPass,
        current.Pruning base pass.start pass.dependents →
        (pruneRound compiled spans winners pass.dependents
          current).2.Pruning base pass.start pass.dependents :=
      fun current pruning => (pruneRounds current pruning).1
    obtain ⟨last, pruning, stable⟩ :=
      exists_stable_repeatRounds kept
        (fun _ pruning changed =>
          derivationsLeft_pruneRound pruning.derived changed)
        ⟨drops, derived_dependents⟩ (Nat.lt_succ_self _)
    obtain ⟨after, outcome⟩ := pruneRounds last pruning
    rw [pruneRound] at stable
    rw [stable] at after outcome
    refine ⟨after.drops, fun id member => .inl ?_⟩
    rcases outcome with ⟨isSame, clean⟩ | ⟨changed, -⟩
    · have isLast := congrArg Prod.snd isSame
      simp only at isLast
      rw [derivationsLeft] at isLast
      rw [isLast]
      exact clean id member
    · cases changed

/-- A pass that begins has dropped nothing. -/
theorem drops_begin (word : Nat) (start : Nat) :
    (GreedyPass.mk base word .empty 0).Drops base start where
  trimmed := .refl base
  states := rfl
  removed _ isDropped := by simp [Dropped] at isDropped
  wasLive _ isDropped := by simp [Dropped] at isDropped
  only _ := .inl
  late _ isDropped := by simp [Dropped] at isDropped
  emptied _ := .inl
  lost _ _ := .inl

end GreedyPass

namespace GraphStack

/--
A stack after a greedy pass that dropped some nodes: only dropped nodes lost all
their derivations, and live nodes depend on dropped ones of their word or of
earlier words by greedy rules only.
-/
structure Sheds
    (grammar : Grammar)
    (dropped : Nat → Prop)
    (before after : GraphStack) : Prop where
  removed : ∀ id : Nat, dropped id → (after.symbolNode id).removed = true
  emptied :
    ∀ id : Nat, (after.symbolNode id).derivations = [] →
      (before.symbolNode id).derivations = [] ∨ dropped id
  spared :
    ∀ id : Nat, (after.symbolNode id).removed = false →
      ∀ derivation ∈ (after.symbolNode id).derivations,
        ∀ child ∈ derivation.children, dropped child →
          (∀ word : Nat, (before.symbolNode id).word = some word →
            ∃ own, (before.symbolNode child).word = some own ∧ own ≤ word) →
          (grammar.rule derivation.rule).greedy = true

end GraphStack

/-- How a greedy pass that had winners came to its end. -/
structure GreedyPass.Ended
    (compiled : CompiledGrammar)
    (spans : SpanStore)
    (winners : Winners)
    (base final : GraphStack)
    (start : Nat)
    (pass : GreedyPass) : Prop where
  drops : pass.Drops base start
  starts : pass.start ≤ start
  losers : ∀ id ∈ losersTo base spans winners, pass.Dropped id
  clean :
    ∀ id : Nat, (pass.stack.symbolNode id).removed = false →
      (∀ word : Nat, (base.symbolNode id).word = some word → start ≤ word) →
      (∀ derivation ∈ (pass.stack.symbolNode id).derivations,
        pass.keeps compiled spans winners (pass.stack.symbolNode id)
          derivation = true) ∨
        ∀ other : Nat, ¬ pass.Dropped other
  swept : pass.stack.Swept pass.start final
  derivations :
    ∀ id : Nat, (final.symbolNode id).derivations =
      (pass.stack.symbolNode id).derivations
  stable : final.Stable pass.start

/-- A greedy pass that dropped the losers and pruned what depends on them. -/
def GreedyPass.last
    (compiled : CompiledGrammar)
    (spans : SpanStore)
    (word : Nat)
    (stack : GraphStack)
    (winners : Winners) : GreedyPass :=
  ((losersTo stack spans winners).foldl GreedyPass.drop
    ⟨stack, word, .empty, 0⟩).pruneAll compiled spans winners

/-- A greedy pass without a winner changes nothing; any other one ends with a sweep. -/
theorem filterGreedily_eq
    (compiled : CompiledGrammar)
    (spans : SpanStore)
    (word : Nat)
    (stack : GraphStack)
    (roots : List SymbolNodeId) :
    filterGreedily compiled spans word stack roots =
      let winners := winnersAt compiled stack spans word
      if winners.isEmpty then
        ⟨0, stack, roots⟩
      else
        let pass := GreedyPass.last compiled spans word stack winners
        let swept := pass.stack.sweep pass.start
        ⟨pass.removed + swept.1, swept.2,
          roots.filter fun root => !(swept.2.symbolNode root).removed⟩ :=
  rfl

/-- The losers of a pass are live nodes. -/
theorem known_of_mem_losersTo
    {spans : SpanStore}
    {stack : GraphStack}
    {winners : Winners}
    {id : Nat}
    (member : id ∈ losersTo stack spans winners) :
    id < stack.symbols.size ∧ (stack.symbolNode id).removed = false := by
  obtain ⟨⟨own, node⟩, isEntry, rfl⟩ := List.mem_map.mp member
  obtain ⟨listed, loses⟩ := List.mem_filter.mp isEntry
  obtain ⟨inside, isNode⟩ := GraphStack.mem_symbolEntries.mp listed
  simp only [Bool.and_eq_true, Bool.not_eq_true'] at loses
  exact ⟨inside, isNode ▸ loses.1⟩

/-- A greedy pass comes to its end. -/
theorem GreedyPass.ended_last
    (compiled : CompiledGrammar)
    (spans : SpanStore)
    (word : Nat)
    (stack : GraphStack)
    (winners : Winners) :
    let pass := last compiled spans word stack winners
    ∃ start, Ended compiled spans winners stack (pass.stack.sweep pass.start).2
      start pass := by
  have cleared := GreedyPass.drops_foldl_drop (losersTo stack spans winners)
    (fun _ => known_of_mem_losersTo)
    (fun early _ => GreedyPass.drops_begin word early) _ (Nat.le_refl _)
  have losers := (@GreedyPass.continues_foldl_drop ⟨stack, word, .empty, 0⟩
    (losersTo stack spans winners)).2
  unfold last
  generalize (losersTo stack spans winners).foldl GreedyPass.drop
    ⟨stack, word, .empty, 0⟩ = pass at cleared losers
  obtain ⟨drops, clean⟩ := @GreedyPass.Drops.pruneAll pass stack compiled
    spans winners cleared
  have continues := @GreedyPass.continues_pruneAll pass compiled spans winners
  have pruned := @GreedyPass.trimmed_pruneAll pass compiled spans winners
  generalize pass.pruneAll compiled spans winners = last
    at drops clean continues pruned
  obtain ⟨swept, stable⟩ := @GraphStack.swept_sweep last.stack last.start
  refine ⟨pass.start, drops, continues.start,
    fun id member => continues.dropped id (losers id member), ?_, swept,
    GraphStack.derivations_sweep last.start, stable⟩
  intro id isLive late
  by_cases derived : (last.stack.symbolNode id).derivations = []
  · exact .inl fun derivation member => by simp [derived] at member
  have depends : id ∈ pass.dependents := by
    have wasDerived : (pass.stack.symbolNode id).derivations ≠ [] :=
      fun isEmpty => derived (List.subset_nil.mp
        (isEmpty ▸ (pruned.derivations id).subset))
    refine List.mem_map.mpr ⟨(id, pass.stack.symbolNode id),
      List.mem_filter.mpr ⟨GraphStack.mem_symbolEntries.mpr ⟨?_, rfl⟩, ?_⟩, rfl⟩
    · refine Nat.lt_of_not_le fun outside => wasDerived ?_
      rw [GraphStack.symbolNode_of_le outside]
      rfl
    · simp only [Bool.and_eq_true, Bool.not_eq_true',
        List.isEmpty_eq_false_iff, Option.all_eq_true, decide_eq_true_eq]
      refine ⟨⟨Bool.eq_false_iff.mpr fun wasRemoved =>
        Bool.eq_false_iff.mp isLive (pruned.removed id wasRemoved), ?_⟩, wasDerived⟩
      intro own isOwn
      rw [(cleared.trimmed.shape.symbol id).2.2.1] at isOwn
      exact late own isOwn
  refine (clean id depends).imp_left fun isClean => isClean.resolve_left ?_
  simp [isLive]

/-- A greedy pass without a winner changes nothing; any other one comes to its end. -/
theorem filterGreedily_cases
    (compiled : CompiledGrammar)
    (spans : SpanStore)
    (word : Nat)
    (stack : GraphStack)
    (roots : List SymbolNodeId) :
    filterGreedily compiled spans word stack roots = ⟨0, stack, roots⟩ ∨
      ∃ start pass, GreedyPass.Ended compiled spans
        (winnersAt compiled stack spans word) stack
        (filterGreedily compiled spans word stack roots).stack start pass := by
  rw [filterGreedily_eq]
  simp only
  split
  · exact .inl rfl
  · obtain ⟨start, ended⟩ := GreedyPass.ended_last compiled spans word stack
      (winnersAt compiled stack spans word)
    exact .inr ⟨start, _, ended⟩

/-- A greedy pass sheds what it drops. -/
theorem sheds_filterGreedily
    (compiled : CompiledGrammar)
    (spans : SpanStore)
    (word : Nat)
    (stack : GraphStack)
    (roots : List SymbolNodeId) :
    ∃ dropped, stack.Sheds compiled.grammar dropped
      (filterGreedily compiled spans word stack roots).stack := by
  rcases filterGreedily_cases compiled spans word stack roots with
    unchanged | ⟨start, pass, ended⟩
  · rw [unchanged]
    refine ⟨fun _ => False, fun _ isDropped => isDropped.elim, fun _ => .inl, ?_⟩
    exact fun _ _ _ _ _ _ isDropped => isDropped.elim
  generalize (filterGreedily compiled spans word stack roots).stack = final at ended
  have drops := ended.drops
  have swept := ended.swept.trimmed
  refine ⟨pass.Dropped, ?_, ?_, ?_⟩
  · exact fun id isDropped => swept.removed id (drops.removed id isDropped)
  · intro id isEmpty
    rw [ended.derivations] at isEmpty
    exact drops.emptied id isEmpty
  · intro id isLive derivation member child isChild isDropped precedes
    rw [ended.derivations] at member
    have liveAtLast : (pass.stack.symbolNode id).removed = false :=
      Bool.eq_false_iff.mpr fun wasRemoved =>
        Bool.eq_false_iff.mp isLive (swept.removed id wasRemoved)
    have late : ∀ own : Nat, (stack.symbolNode id).word = some own →
        start ≤ own := by
      intro own isOwn
      obtain ⟨childWord, isChildWord, le⟩ := precedes own isOwn
      exact Nat.le_trans (drops.late child isDropped childWord isChildWord) le
    rcases ended.clean id liveAtLast late with keepsAll | nothing
    · have kept := keepsAll derivation member
      unfold GreedyPass.keeps at kept
      simp only [Bool.or_eq_true, Bool.and_eq_true] at kept
      rcases kept with ⟨-, isGreedy⟩ | noneDead
      · exact isGreedy
      · have notDead := List.all_eq_true.mp noneDead child isChild
        rw [GreedyPass.Dropped] at isDropped
        simp [isDropped] at notDead
    · exact absurd isDropped (nothing child)

end SpanForest
