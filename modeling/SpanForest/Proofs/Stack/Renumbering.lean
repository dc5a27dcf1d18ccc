import Mathlib.Data.List.Find
import Mathlib.Order.Monotone.Basic
import SpanForest.Proofs.Span
import SpanForest.Proofs.Stack.Growth
import SpanForest.Stack.Sweep

namespace SpanForest

/-!
# Stacks under other span numbers

Spans may get other numbers, in the same order. An operation on a stack does the
same under the new numbers: it looks at numbers of spans only to find out whether
they are the same.
-/

/-- New numbers for spans, in the same order and from `count` on without gaps. -/
structure Renumbers (rename : SpanId → SpanId) (count : Nat) : Prop where
  increasing : StrictMono rename
  gapless : ∀ id, count ≤ id → rename (id + 1) = rename id + 1

/-- The span with new numbers for itself and its head. -/
def Span.renumbered (rename : SpanId → SpanId) (span : Span) : Span :=
  { span with id := rename span.id, head := rename span.head }

namespace SpanStore

variable {rename : SpanId → SpanId} {count : Nat} {store other : SpanStore}

/-- A store with the spans of another under new numbers, and as many as that takes. -/
structure Renumbered (rename : SpanId → SpanId) (store other : SpanStore) : Prop where
  size : other.size = rename store.size
  get :
    ∀ id < store.size,
      other.get (rename id) = (store.get id).renumbered rename

theorem get_of_le
    {id : SpanId}
    (outside : store.size ≤ id) :
    store.get id = default := by
  rw [SpanStore.get, Array.getD_eq_getD_getElem?,
    Array.getElem?_eq_none outside, Option.getD_none]

theorem Renumbered.inside_iff
    (renumbers : Renumbers rename count)
    (renumbered : store.Renumbered rename other)
    {id : SpanId} :
    rename id < other.size ↔ id < store.size := by
  rw [renumbered.size]
  exact renumbers.increasing.lt_iff_lt

/-- Spans differ in their number and their head at most. -/
theorem Renumbered.alike
    (renumbers : Renumbers rename count)
    (renumbered : store.Renumbered rename other)
    (id : SpanId) :
    ∃ number head,
      other.get (rename id) =
        { store.get id with id := number, head := head } := by
  by_cases inside : id < store.size
  · exact ⟨_, _, renumbered.get id inside⟩
  · have outside : other.size ≤ rename id :=
      Nat.le_of_not_lt fun isInside =>
        inside ((renumbered.inside_iff renumbers).mp isInside)
    rw [get_of_le outside, get_of_le (Nat.le_of_not_lt inside)]
    exact ⟨_, _, rfl⟩

section Fields

variable (renumbers : Renumbers rename count)
variable (renumbered : store.Renumbered rename other)
variable (id : SpanId)
include renumbers renumbered

theorem Renumbered.start_eq :
    (other.get (rename id)).start = (store.get id).start := by
  obtain ⟨_, _, same⟩ := renumbered.alike renumbers id
  rw [same]

theorem Renumbered.stop_eq :
    (other.get (rename id)).stop = (store.get id).stop := by
  obtain ⟨_, _, same⟩ := renumbered.alike renumbers id
  rw [same]

theorem Renumbered.symbol_eq :
    (other.get (rename id)).symbol = (store.get id).symbol := by
  obtain ⟨_, _, same⟩ := renumbered.alike renumbers id
  rw [same]

end Fields

/-- A committed span gets the new number of the one that it stands for. -/
theorem Renumbered.push
    (renumbers : Renumbers rename count)
    (renumbered : store.Renumbered rename other)
    (enough : count ≤ store.size)
    (span : Span) :
    (store.push span).2.Renumbered rename
      (other.push (span.renumbered rename)).2 where
  size := by
    rw [size_push, size_push, renumbers.gapless _ enough, renumbered.size]
  get := by
    have sameNext : other.nextId = rename store.nextId := renumbered.size
    have sameCommitted : other.committed (span.renumbered rename) =
        (store.committed span).renumbered rename := by
      unfold committed Span.renumbered
      simp only [sameNext, renumbers.increasing.injective.eq_iff,
        apply_ite rename]
    intro id inside
    rw [size_push] at inside
    rcases Nat.lt_succ_iff_lt_or_eq.mp inside with old | isNew
    · rw [((extends_push _).get ((renumbered.inside_iff renumbers).mpr old)).2,
        ((extends_push _).get old).2]
      exact renumbered.get id old
    · subst isNew
      have pushed := @get_push other (span.renumbered rename)
      rw [sameNext, sameCommitted] at pushed
      rw [show store.size = store.nextId from rfl, pushed, get_push]

end SpanStore

/-- The node with a new number for its span. -/
def SymbolNode.renumbered
    (rename : SpanId → SpanId)
    (node : SymbolNode) :
    SymbolNode :=
  { node with span := rename node.span }

namespace GraphStack

/-- The stack with new numbers for the spans of its nodes. -/
def renumbered (rename : SpanId → SpanId) (stack : GraphStack) : GraphStack :=
  { stack with symbols := stack.symbols.map (SymbolNode.renumbered rename) }

variable {rename : SpanId → SpanId} {stack : GraphStack}
variable {word node below : Nat}

/-- A stack without symbol nodes is the same under other numbers. -/
@[simp] theorem renumbered_new
    (rename : SpanId → SpanId)
    (count : Nat)
    (start : StateId) :
    (new count start).renumbered rename = new count start :=
  congrArg (fun symbols => { new count start with symbols := symbols })
    Array.map_empty

@[simp] theorem stateNode_renumbered (id : StateNodeId) :
    (stack.renumbered rename).stateNode id = stack.stateNode id :=
  rfl

@[simp] theorem layer_renumbered :
    (stack.renumbered rename).layer word = stack.layer word :=
  rfl

@[simp] theorem states_renumbered :
    (stack.renumbered rename).states = stack.states :=
  rfl

@[simp] theorem size_symbols_renumbered :
    (stack.renumbered rename).symbols.size = stack.symbols.size :=
  Array.size_map

theorem symbolNode_renumbered
    (inside : node < stack.symbols.size) :
    (stack.renumbered rename).symbolNode node =
      (stack.symbolNode node).renumbered rename := by
  simp only [symbolNode, renumbered, Array.getD_eq_getD_getElem?,
    Array.getElem?_map, Array.getElem?_eq_getElem inside]
  rfl

/-- Nodes differ in the numbers of their spans at most. -/
theorem symbolNode_alike (node : SymbolNodeId) :
    ∃ span, (stack.renumbered rename).symbolNode node =
      { stack.symbolNode node with span := span } := by
  by_cases inside : node < stack.symbols.size
  · exact ⟨_, symbolNode_renumbered inside⟩
  · have outside := Nat.le_of_not_lt inside
    rw [symbolNode_of_le (size_symbols_renumbered.trans_le outside),
      symbolNode_of_le outside]
    exact ⟨_, rfl⟩

@[simp] theorem removed_renumbered (node : SymbolNodeId) :
    ((stack.renumbered rename).symbolNode node).removed =
      (stack.symbolNode node).removed := by
  obtain ⟨_, same⟩ := @symbolNode_alike rename stack node
  rw [same]

@[simp] theorem children_renumbered (node : SymbolNodeId) :
    ((stack.renumbered rename).symbolNode node).children =
      (stack.symbolNode node).children := by
  obtain ⟨_, same⟩ := @symbolNode_alike rename stack node
  rw [same]

@[simp] theorem derivations_renumbered (node : SymbolNodeId) :
    ((stack.renumbered rename).symbolNode node).derivations =
      (stack.symbolNode node).derivations := by
  obtain ⟨_, same⟩ := @symbolNode_alike rename stack node
  rw [same]

@[simp] theorem symbol_renumbered (node : SymbolNodeId) :
    ((stack.renumbered rename).symbolNode node).symbol =
      (stack.symbolNode node).symbol := by
  obtain ⟨_, same⟩ := @symbolNode_alike rename stack node
  rw [same]

@[simp] theorem word_renumbered (node : SymbolNodeId) :
    ((stack.renumbered rename).symbolNode node).word =
      (stack.symbolNode node).word := by
  obtain ⟨_, same⟩ := @symbolNode_alike rename stack node
  rw [same]

theorem symbolEntries_renumbered :
    (stack.renumbered rename).symbolEntries =
      stack.symbolEntries.map (Prod.map id (SymbolNode.renumbered rename)) := by
  simp only [symbolEntries, renumbered, Array.toList_map, List.zipIdx_map,
    List.map_map]
  rfl

/-- Changes that leave the span of a node alone do the same under new numbers. -/
theorem modifySymbol_renumbered
    {change : SymbolNode → SymbolNode}
    (commutes : ∀ current : SymbolNode,
      change (current.renumbered rename) = (change current).renumbered rename)
    (node : SymbolNodeId) :
    (stack.renumbered rename).modifySymbol node change =
      (stack.modifySymbol node change).renumbered rename := by
  have sameSymbols :
      (stack.symbols.map (SymbolNode.renumbered rename)).modify node change =
        (stack.symbols.modify node change).map
          (SymbolNode.renumbered rename) := by
    apply Array.ext_getElem?
    intro index
    simp only [Array.getElem?_modify, Array.getElem?_map]
    split
    · cases stack.symbols[index]? with
      | none => rfl
      | some current => exact congrArg some (commutes current)
    · rfl
  rw [modifySymbol, renumbered, sameSymbols]
  rfl

theorem setSymbolRemoved_renumbered
    (node : SymbolNodeId)
    (removed : Bool) :
    (stack.renumbered rename).setSymbolRemoved node removed =
      (stack.setSymbolRemoved node removed).renumbered rename :=
  modifySymbol_renumbered (by exact fun _ => rfl) node

theorem addState_renumbered (state : StateId) :
    (stack.renumbered rename).addState word state =
      ((stack.addState word state).1,
        (stack.addState word state).2.renumbered rename) := by
  have sameFound : (stack.renumbered rename).findState? word state =
      stack.findState? word state :=
    rfl
  unfold addState
  rw [sameFound]
  cases stack.findState? word state <;> rfl

theorem addSymbol_renumbered
    (parent : StateNodeId)
    (span : SpanId)
    (symbol : Option SymbolId)
    (child : StateNodeId) :
    (stack.renumbered rename).addSymbol parent (rename span) symbol child =
      ((stack.addSymbol parent span symbol child).1,
        (stack.addSymbol parent span symbol child).2.renumbered rename) := by
  simp only [addSymbol, size_symbols_renumbered, stateNode_renumbered]
  simp only [renumbered, modifyState, Array.map_push]
  rfl

theorem markReduced_renumbered (node : SymbolNodeId) :
    (stack.renumbered rename).markReduced node =
      (stack.markReduced node).renumbered rename := by
  unfold markReduced
  rw [word_renumbered]
  cases (stack.symbolNode node).word <;> rfl

theorem link_renumbered
    (node : SymbolNodeId)
    (child : StateNodeId) :
    (stack.renumbered rename).link node child =
      ((stack.link node child).1,
        (stack.link node child).2.renumbered rename) := by
  unfold link
  rw [children_renumbered]
  split
  · rfl
  · exact congrArg (true, ·) (modifySymbol_renumbered (by exact fun _ => rfl) node)

theorem addDerivation_renumbered
    (node : SymbolNodeId)
    (derivation : Derivation) :
    (stack.renumbered rename).addDerivation node derivation =
      ((stack.addDerivation node derivation).1,
        (stack.addDerivation node derivation).2.renumbered rename) := by
  unfold addDerivation
  rw [derivations_renumbered]
  split
  · rfl
  · exact congrArg (true, ·) (modifySymbol_renumbered (by exact fun _ => rfl) node)

theorem extendNode_renumbered
    (node : SymbolNodeId)
    (derivation : Derivation)
    (below : StateNodeId) :
    (stack.renumbered rename).extendNode node derivation below =
      ((stack.extendNode node derivation below).1,
        (stack.extendNode node derivation below).2.renumbered rename) := by
  unfold extendNode
  rw [addDerivation_renumbered, link_renumbered]

theorem growNode_renumbered
    (goto : StateId)
    (span : SpanId)
    (lhs : SymbolId)
    (below : StateNodeId)
    (derivation : Derivation) :
    (stack.renumbered rename).growNode word goto (rename span) lhs below
        derivation =
      (stack.growNode word goto span lhs below derivation).renumbered
        rename := by
  simp only [growNode, addState_renumbered, addSymbol_renumbered,
    addDerivation_renumbered, markReduced_renumbered]

/-- The child for a span is the one for the span with its new number. -/
theorem findSpan?_renumbered
    (injective : Function.Injective rename)
    {parent : StateNodeId}
    (known : ∀ child ∈ (stack.stateNode parent).children,
      child < stack.symbols.size)
    (span : SpanId) :
    (stack.renumbered rename).findSpan? parent (rename span) =
      stack.findSpan? parent span := by
  refine List.find?_congr fun child member => ?_
  rw [symbolNode_renumbered (known child member)]
  have sameSpan : (rename (stack.symbolNode child).span == rename span) =
      ((stack.symbolNode child).span == span) :=
    Bool.eq_iff_iff.mpr (by simp [injective.eq_iff])
  exact congrArg _ sameSpan

theorem readNode_renumbered
    (injective : Function.Injective rename)
    (known : ∀ parent : StateNodeId, ∀ child ∈ (stack.stateNode parent).children,
      child < stack.symbols.size)
    (target : StateId)
    (span : SpanId)
    (symbol : Option SymbolId)
    (below : StateNodeId) :
    (stack.renumbered rename).readNode word target (rename span) symbol below =
      (stack.readNode word target span symbol below).renumbered rename := by
  have stillKnown : ∀ parent : StateNodeId,
      ∀ child ∈ ((stack.addState word target).2.stateNode parent).children,
        child < (stack.addState word target).2.symbols.size := by
    intro parent child member
    rw [children_addState] at member
    rw [symbols_addState]
    exact known parent child member
  simp only [readNode, addState_renumbered,
    findSpan?_renumbered injective (stillKnown _)]
  cases (stack.addState word target).2.findSpan?
      (stack.addState word target).1.1 span with
  | some node => exact congrArg Prod.snd (link_renumbered node below)
  | none =>
      exact congrArg Prod.snd (addSymbol_renumbered _ span symbol below)

/-- Paths do not depend on the numbers of spans. -/
theorem paths_renumbered
    (anchor : SymbolNodeId)
    (length : Nat)
    (via : Option StateNodeId) :
    (stack.renumbered rename).paths anchor length via =
      stack.paths anchor length via := by
  have liveChildren : (stack.renumbered rename).liveChildren =
      stack.liveChildren := by
    funext id
    simp only [GraphStack.liveChildren, stateNode_renumbered,
      removed_renumbered]
  have pathsBelow : ∀ count anchor,
      (stack.renumbered rename).pathsBelow count anchor =
        stack.pathsBelow count anchor := by
    intro count
    induction count with
    | zero => exact fun _ => rfl
    | succ count inductionHypothesis =>
        intro anchor
        simp only [GraphStack.pathsBelow, nodesBelow, children_renumbered,
          liveChildren, inductionHypothesis]
  unfold paths
  split <;> simp only [pathsBelow, nodesVia, children_renumbered, liveChildren]

section Sweep

variable (start : Nat)

theorem sweepStates_renumbered
    (ids : List StateNodeId)
    (count : Nat)
    (stack : GraphStack) :
    sweepStates ids (count, stack.renumbered rename) =
      ((sweepStates ids (count, stack)).1,
        (sweepStates ids (count, stack)).2.renumbered rename) := by
  induction ids generalizing count stack with
  | nil => rfl
  | cons id rest inductionHypothesis =>
      have sameStranded : (stack.renumbered rename).isStranded id =
          stack.isStranded id := by
        simp only [isStranded, stateNode_renumbered, removed_renumbered]
      unfold sweepStates
      rw [sameStranded]
      split
      · exact inductionHypothesis (count + 1) (stack.setStateRemoved id true)
      · exact inductionHypothesis count stack

theorem sweepSymbols_renumbered
    (ids : List SymbolNodeId)
    (count : Nat)
    (stack : GraphStack) :
    sweepSymbols start ids (count, stack.renumbered rename) =
      ((sweepSymbols start ids (count, stack)).1,
        (sweepSymbols start ids (count, stack)).2.renumbered rename) := by
  induction ids generalizing count stack with
  | nil => rfl
  | cons id rest inductionHypothesis =>
      have sameFloating : (stack.renumbered rename).isFloating start id =
          stack.isFloating start id := by
        simp only [isFloating, removed_renumbered, word_renumbered,
          children_renumbered, stateNode_renumbered]
      unfold sweepSymbols
      rw [sameFloating, setSymbolRemoved_renumbered]
      split <;> exact inductionHypothesis _ _

theorem sweepRound_renumbered (swept : Nat × GraphStack) :
    sweepRound start (Prod.map id (GraphStack.renumbered rename) swept) =
      ((sweepRound start swept).1,
        Prod.map id (GraphStack.renumbered rename)
          (sweepRound start swept).2) := by
  obtain ⟨count, stack⟩ := swept
  have sameLayers : (stack.renumbered rename).layers = stack.layers := rfl
  simp only [sweepRound, Prod.map_apply, id_eq, sameLayers,
    size_symbols_renumbered, sweepStates_renumbered, sweepSymbols_renumbered]
  rfl

theorem sweep_renumbered :
    (stack.renumbered rename).sweep start =
      ((stack.sweep start).1, (stack.sweep start).2.renumbered rename) := by
  have rounds := repeatRounds_map (motive := fun _ => True)
    (fun _ _ => trivial) (fun swept _ => @sweepRound_renumbered rename start swept)
    (stack.states.size + stack.symbols.size + 1) (0, stack) trivial
  unfold sweep
  rw [states_renumbered, size_symbols_renumbered]
  exact congrArg Prod.snd rounds

end Sweep

end GraphStack

end SpanForest
