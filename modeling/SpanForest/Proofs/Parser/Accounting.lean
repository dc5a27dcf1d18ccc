import SpanForest.Proofs.Parser.Lawful
import SpanForest.Proofs.Parser.Winning

namespace SpanForest

/-!
# Why a greedy pass removes a node

A pass removes losers, nodes all of whose derivations it takes away, and nodes
that have nothing live left to stand on; it counts each of them once. After it no
live node loses to a winner.
-/

namespace GraphStack

variable {stack : GraphStack} {start : Nat}

/-- The nodes that are live on one stack and removed on another. -/
def newlyRemoved (before after : GraphStack) : Nat :=
  (List.range before.states.size).countP
      (fun id => !(before.stateNode id).removed && (after.stateNode id).removed) +
    (List.range before.symbols.size).countP
      fun id => !(before.symbolNode id).removed && (after.symbolNode id).removed

/-- Nodes that were live are live or newly removed. -/
theorem liveNodes_eq_add_newlyRemoved
    {before after : GraphStack}
    (shape : before.SameShape after)
    (states : ∀ id : Nat, (before.stateNode id).removed = true →
      (after.stateNode id).removed = true)
    (symbols : ∀ id : Nat, (before.symbolNode id).removed = true →
      (after.symbolNode id).removed = true) :
    before.liveNodes = after.liveNodes + before.newlyRemoved after := by
  unfold liveNodes newlyRemoved
  rw [shape.states_size, shape.symbols_size, missingFacts_eq_add states,
    missingFacts_eq_add symbols, Nat.add_add_add_comm]

/-- A sweep counts what it removes. -/
theorem liveNodes_sweep :
    (stack.sweep start).1 + (stack.sweep start).2.liveNodes = stack.liveNodes := by
  unfold sweep
  refine repeatRounds_induction
    (motive := fun swept : Nat × GraphStack =>
      swept.1 + swept.2.liveNodes = stack.liveNodes)
    (fun swept counted => ?_) _ (Nat.zero_add _)
  rw [sweepRound_eq, ← counted]
  exact (liveNodes_sweepSymbols start _).2.trans (liveNodes_sweepStates _).2

theorem liveNodes_restrict
    {id : Nat}
    {kept : List Derivation} :
    (stack.modifySymbol id fun current =>
      { current with derivations := kept }).liveNodes = stack.liveNodes := by
  have sameRemoved : ∀ other : Nat,
      ((stack.modifySymbol id fun current =>
        { current with derivations := kept }).symbolNode other).removed =
          (stack.symbolNode other).removed := by
    intro other
    by_cases inside : id < stack.symbols.size
    · rw [symbolNode_modifySymbol inside]
      split
      · rename_i same
        rw [same]
      · rfl
    · rw [modifySymbol_of_le (Nat.le_of_not_lt inside)]
  unfold liveNodes
  simp only [sameRemoved, size_symbols_modifySymbol]
  rfl

end GraphStack

namespace GreedyPass

variable {compiled : CompiledGrammar} {spans : SpanStore} {winners : Winners}
variable {base : GraphStack} {losers : List SymbolNodeId} {pass : GreedyPass}

/-- Dropping a live node is counted. -/
theorem counted_drop
    {id : Nat}
    (inside : id < pass.stack.symbols.size)
    (isLive : (pass.stack.symbolNode id).removed = false) :
    (pass.drop id).removed + (pass.drop id).stack.liveNodes =
      pass.removed + pass.stack.liveNodes := by
  have fewer := GraphStack.liveNodes_setSymbolRemoved inside isLive
  simp only [drop]
  omega

/-- Pruning a node counts it if it is dropped. -/
theorem counted_prune
    {id : Nat}
    (inside : id < pass.stack.symbols.size) :
    (pass.prune compiled spans winners id).2.removed +
        (pass.prune compiled spans winners id).2.stack.liveNodes =
      pass.removed + pass.stack.liveNodes := by
  unfold prune
  simp only
  split
  · rfl
  · rename_i notRemoved
    generalize (pass.stack.symbolNode id).derivations.filter
      (pass.keeps compiled spans winners (pass.stack.symbolNode id)) = kept
    split
    · rfl
    · split
      · refine (counted_drop ?_ ?_).trans ?_
        · rw [GraphStack.size_symbols_modifySymbol]
          exact inside
        · rw [GraphStack.symbolNode_modifySymbol inside, if_pos rfl]
          simpa using notRemoved
        · rw [GraphStack.liveNodes_restrict]
      · rw [GraphStack.liveNodes_restrict]

/-- Whether a derivation is spared does not depend on what was removed. -/
theorem spares_sameShape
    {stack : GraphStack}
    (shape : base.SameShape stack)
    {id : SymbolNodeId}
    {derivation : Derivation} :
    Spares compiled spans winners stack (stack.symbolNode id) derivation ↔
      Spares compiled spans winners base (base.symbolNode id) derivation := by
  unfold Spares winnerOf?
  simp only [(shape.symbol _).1, (shape.symbol id).2.1]

/-- A derivation that a pass takes away: not spared, and through a dropped node. -/
def Severs
    (compiled : CompiledGrammar)
    (spans : SpanStore)
    (winners : Winners)
    (base : GraphStack)
    (pass : GreedyPass)
    (id : SymbolNodeId)
    (derivation : Derivation) : Prop :=
  ¬ Spares compiled spans winners base (base.symbolNode id) derivation ∧
    ∃ child ∈ derivation.children, pass.Dropped child

/-- What a pass has dropped so far, and why. -/
structure Accounts
    (compiled : CompiledGrammar)
    (spans : SpanStore)
    (winners : Winners)
    (base : GraphStack)
    (losers : List SymbolNodeId)
    (pass : GreedyPass) : Prop where
  trimmed : base.Trimmed pass.stack
  only :
    ∀ id : Nat, (pass.stack.symbolNode id).removed = true →
      (base.symbolNode id).removed = true ∨ pass.Dropped id
  lost :
    ∀ id : Nat, ∀ derivation ∈ (base.symbolNode id).derivations,
      derivation ∈ (pass.stack.symbolNode id).derivations ∨
        pass.Severs compiled spans winners base id derivation
  cause :
    ∀ id : Nat, pass.Dropped id →
      id ∈ losers ∨ (base.symbolNode id).derivations ≠ [] ∧
        ∀ derivation ∈ (base.symbolNode id).derivations,
          pass.Severs compiled spans winners base id derivation
  counted : pass.removed + pass.stack.liveNodes = base.liveNodes

/-- A pass that begins has nothing to account for. -/
theorem accounts_begin (word : Nat) :
    Accounts compiled spans winners base losers ⟨base, word, .empty, 0⟩ where
  trimmed := .refl base
  only _ := .inl
  lost _ _ := .inl
  cause _ isDropped := by simp [Dropped] at isDropped
  counted := Nat.zero_add _

/-- Derivations stay severed as a pass goes on. -/
theorem Severs.continues
    {later : GreedyPass}
    (continues : ∀ id : Nat, pass.Dropped id → later.Dropped id)
    {id : SymbolNodeId}
    {derivation : Derivation}
    (severs : pass.Severs compiled spans winners base id derivation) :
    later.Severs compiled spans winners base id derivation :=
  ⟨severs.1, severs.2.imp fun child ⟨isChild, old⟩ =>
    ⟨isChild, continues child old⟩⟩

/-- Dropping a loser. -/
theorem Accounts.drop
    (accounts : Accounts compiled spans winners base losers pass)
    {id : Nat}
    (inside : id < base.symbols.size)
    (isLive : (base.symbolNode id).removed = false)
    (notDropped : ¬ pass.Dropped id)
    (loses : id ∈ losers) :
    Accounts compiled spans winners base losers (pass.drop id) := by
  rw [← accounts.trimmed.shape.symbols_size] at inside
  have still : (pass.stack.symbolNode id).removed = false := by
    refine Bool.eq_false_iff.mpr fun isRemoved => ?_
    rcases accounts.only id isRemoved with old | isDropped
    · rw [isLive] at old
      cases old
    · exact notDropped isDropped
  have continues := (@continues_drop pass id).dropped
  constructor
  case trimmed => exact accounts.trimmed.trans (trimmed_drop id)
  case only =>
    intro other isRemoved
    rw [symbolNode_drop inside] at isRemoved
    split at isRemoved
    · rename_i isId
      exact .inr (dropped_drop.mpr (.inl isId))
    · exact (accounts.only other isRemoved).imp_right (continues other)
  case lost =>
    intro other derivation member
    rw [GreedyPass.drop, GraphStack.derivations_setSymbolRemoved]
    exact (accounts.lost other derivation member).imp_right (.continues continues)
  case cause =>
    intro other isDropped
    rcases dropped_drop.mp isDropped with rfl | old
    · exact .inl loses
    · refine (accounts.cause other old).imp_right ?_
      rintro ⟨derived, allSevered⟩
      exact ⟨derived, fun derivation member =>
        (allSevered derivation member).continues continues⟩
  case counted => exact (counted_drop inside still).trans accounts.counted

/-- Dropping several losers. -/
theorem Accounts.foldl_drop
    (ids : List SymbolNodeId)
    (distinct : ids.Nodup)
    (known : ∀ id ∈ ids, id < base.symbols.size ∧
      (base.symbolNode id).removed = false ∧ ¬ pass.Dropped id ∧ id ∈ losers)
    (accounts : Accounts compiled spans winners base losers pass) :
    Accounts compiled spans winners base losers (ids.foldl GreedyPass.drop pass) := by
  induction ids generalizing pass with
  | nil => exact accounts
  | cons id rest inductionHypothesis =>
      obtain ⟨fresh, restDistinct⟩ := List.nodup_cons.mp distinct
      obtain ⟨inside, isLive, notDropped, loses⟩ := known id List.mem_cons_self
      refine inductionHypothesis restDistinct (fun other member => ?_)
        (accounts.drop inside isLive notDropped loses)
      obtain ⟨otherInside, otherLive, otherNotDropped, otherLoses⟩ :=
        known other (List.mem_cons_of_mem _ member)
      refine ⟨otherInside, otherLive, fun isDropped => ?_, otherLoses⟩
      rcases dropped_drop.mp isDropped with rfl | old
      · exact fresh member
      · exact otherNotDropped old

/-- Pruning a node that has derivations as long as it is live. -/
theorem Accounts.prune
    (accounts : Accounts compiled spans winners base losers pass)
    {id : Nat}
    (inside : id < pass.stack.symbols.size)
    (derived : (pass.stack.symbolNode id).removed = false →
      (pass.stack.symbolNode id).derivations ≠ []) :
    Accounts compiled spans winners base losers
      (pass.prune compiled spans winners id).2 := by
  have trimmed := @trimmed_prune pass compiled spans winners id
  have counted := @counted_prune compiled spans winners pass id inside
  have shape := accounts.trimmed.shape
  rcases @prune_cases pass compiled spans winners id inside derived with
      ⟨same, -⟩ | ⟨kept, -, -, isLive, keptOrNot, derivations, removed, dropped⟩
  · exact same ▸ accounts
  · generalize (pass.prune compiled spans winners id).2 = pruned
      at trimmed counted derivations removed dropped ⊢
    have continues : ∀ other : Nat, pass.Dropped other →
        pruned.Dropped other :=
      fun other old => (dropped other).mpr (.inr old)
    have severed : ∀ derivation ∈ (base.symbolNode id).derivations,
        derivation ∈ kept ∨
          pruned.Severs compiled spans winners base id derivation := by
      intro derivation member
      rcases accounts.lost id derivation member with still | severs
      · refine (keptOrNot derivation still).imp_right fun goes => ?_
        obtain ⟨notSpared, child, isChild, old⟩ := keeps_eq_false.mp goes
        rw [spares_sameShape shape] at notSpared
        exact ⟨notSpared, child, isChild, continues child old⟩
      · exact .inr (severs.continues continues)
    constructor
    case trimmed => exact accounts.trimmed.trans trimmed
    case only =>
      intro other isRemoved
      rw [removed] at isRemoved
      split at isRemoved
      · rename_i isBoth
        exact .inr ((dropped other).mpr (.inl isBoth))
      · exact (accounts.only other isRemoved).imp_right (continues other)
    case lost =>
      intro other derivation member
      rw [derivations]
      split
      · rename_i isId
        exact isId ▸ severed derivation (isId ▸ member)
      · exact (accounts.lost other derivation member).imp_right
          (.continues continues)
    case cause =>
      intro other isDropped
      rcases (dropped other).mp isDropped with ⟨rfl, isEmpty⟩ | old
      · refine .inr ⟨fun noneBefore => ?_, fun derivation member => ?_⟩
        · have stillDerived := derived isLive
          refine stillDerived (List.subset_nil.mp ?_)
          exact noneBefore ▸ (accounts.trimmed.derivations other).subset
        · refine (severed derivation member).resolve_left ?_
          simp [isEmpty]
      · refine (accounts.cause other old).imp_right ?_
        rintro ⟨had, allSevered⟩
        exact ⟨had, fun derivation member =>
          (allSevered derivation member).continues continues⟩
    case counted => exact counted.trans accounts.counted

/-- What pruning one node keeps, pruning all of them keeps. -/
theorem pruneAll_induction
    {motive : GreedyPass → Prop}
    (kept : ∀ (current : GreedyPass) (id : Nat), id ∈ pass.dependents →
      current.Derived pass.dependents → motive current →
      motive (current.prune compiled spans winners id).2)
    (holds : motive pass) :
    motive (pass.pruneAll compiled spans winners) := by
  unfold pruneAll
  split
  · exact holds
  · have rounds : ∀ current : GreedyPass,
        current.Derived pass.dependents ∧ motive current →
        (pruneRound compiled spans winners pass.dependents
            current).2.Derived pass.dependents ∧
          motive (pruneRound compiled spans winners pass.dependents current).2 :=
      fun current both => (@pruneAlong current compiled spans winners _ _
        (fun current => current.Derived pass.dependents ∧ motive current)
        (fun _ => And.left)
        (fun next id member ⟨derived, here⟩ =>
          ⟨(derived.prune member).1, kept next id member derived here⟩)
        both (List.Subset.refl _) false _ rfl).1
    exact (repeatRounds_induction rounds _ ⟨derived_dependents, holds⟩).2

/-- Pruning all nodes that may depend on dropped ones. -/
theorem Accounts.pruneAll
    (accounts : Accounts compiled spans winners base losers pass) :
    Accounts compiled spans winners base losers
      (pass.pruneAll compiled spans winners) :=
  pruneAll_induction
    (motive := fun current => Accounts compiled spans winners base losers current)
    (fun _ id member derived current =>
      current.prune (derived.inside id member) (derived.derived id member))
    accounts

end GreedyPass

section Law

variable (compiled : CompiledGrammar) (spans : SpanStore)

namespace GraphStack

/-- A node that overlaps the winner of its symbol and has to give way to it. -/
def Loses (stack : GraphStack) (nodes : List SymbolNodeId) (id : SymbolNodeId) : Prop :=
  ∃ symbol winner, stack.Wins compiled spans nodes symbol winner ∧
    (stack.symbolNode id).symbol = some symbol ∧
    (spans.get (stack.symbolNode id).span).losesTo
      (spans.get (stack.symbolNode winner).span) = true

/-- A greedy rule builds a span that starts with the winner of its symbol. -/
def Exempts
    (stack : GraphStack)
    (nodes : List SymbolNodeId)
    (id : SymbolNodeId)
    (derivation : Derivation) : Prop :=
  (compiled.grammar.rule derivation.rule).greedy = true ∧
    ∃ symbol winner, stack.Wins compiled spans nodes symbol winner ∧
      (stack.symbolNode id).symbol = some symbol ∧
      (spans.get (stack.symbolNode winner).span).start =
        (spans.get (stack.symbolNode id).span).start

/-- A symbol node that is live on one stack and removed on another. -/
def Removes (before after : GraphStack) (id : SymbolNodeId) : Prop :=
  (before.symbolNode id).removed = false ∧ (after.symbolNode id).removed = true

end GraphStack

/--
What a greedy pass makes of a stack, given the nodes reduced at its word.

Symbols with a contender have winners; no live node loses to one. A symbol node is
removed because it loses, because every derivation it had was not exempt and led
through a node removed by the pass, or because no child state is live; a state
node because none of its children is. What was removed stays so, the removed nodes
are counted, and without a winner nothing changes.
-/
structure PassLaw
    (nodes : List SymbolNodeId)
    (before : GraphStack)
    (roots : List SymbolNodeId)
    (result : GreedyResult) : Prop where
  claimed :
    ∀ symbol, (∃ id ∈ nodes, before.Contends compiled symbol id) →
      ∃ winner, before.Wins compiled spans nodes symbol winner
  beaten :
    ∀ id, (result.stack.symbolNode id).removed = false →
      ¬ before.Loses compiled spans nodes id
  symbols :
    ∀ id, before.Removes result.stack id →
      before.Loses compiled spans nodes id ∨
        ((before.symbolNode id).derivations ≠ [] ∧
          ∀ derivation ∈ (before.symbolNode id).derivations,
            ¬ before.Exempts compiled spans nodes id derivation ∧
              ∃ child ∈ derivation.children, before.Removes result.stack child) ∨
        ∀ child ∈ (before.symbolNode id).children,
          (result.stack.stateNode child).removed = true
  states :
    ∀ id, (before.stateNode id).removed = false →
      (result.stack.stateNode id).removed = true →
        (before.stateNode id).children ≠ [] ∧
          ∀ child ∈ (before.stateNode id).children,
            (result.stack.symbolNode child).removed = true
  trimmed : before.Trimmed result.stack
  stays :
    ∀ id, (before.stateNode id).removed = true →
      (result.stack.stateNode id).removed = true
  counted : result.removed = before.newlyRemoved result.stack
  unchanged :
    (∀ symbol id, ¬ before.Wins compiled spans nodes symbol id) →
      result = ⟨0, before, roots⟩

variable {compiled : CompiledGrammar} {spans : SpanStore}
variable {stack : GraphStack} {word : Nat}

/-- Whether a span loses depends on its extent and that of the winner. -/
theorem Span.losesTo_congr
    {span winner best : Span}
    (start : winner.start = best.start)
    (stop : winner.stop = best.stop) :
    span.losesTo winner = span.losesTo best := by
  unfold losesTo
  rw [start, stop]

/-- No span loses to itself. -/
theorem Span.losesTo_self (span : Span) : span.losesTo span = false := by
  simp [losesTo]

theorem winnerOf?_eq_some
    {winners : Winners}
    {node : SymbolNode}
    {winner : SymbolNodeId} :
    winnerOf? winners node = some winner ↔
      ∃ symbol, node.symbol = some symbol ∧
        winners.lookup symbol = some winner :=
  Option.bind_eq_some_iff

/-- No node loses twice. -/
theorem nodup_losersTo {winners : Winners} :
    (losersTo stack spans winners).Nodup := by
  have ids : stack.symbolEntries.map (·.1) = List.range stack.symbols.size := by
    unfold GraphStack.symbolEntries
    rw [List.map_map]
    exact (List.zipIdx_map_snd 0 _).trans (by simp [List.range_eq_range'])
  exact (ids ▸ List.nodup_range).sublist (List.filter_sublist.map _)

section Numbers

variable (numbers : ∀ id : Nat, (spans.get id).weight.isNaN = false)
include numbers

/-- The winner that was found for a symbol covers what any winner of it covers. -/
theorem exists_lookup_of_wins
    {symbol : SymbolId}
    {best : SymbolNodeId}
    (wins : stack.Wins compiled spans (stack.layer word).reduced symbol best) :
    ∃ winner,
      (winnersAt compiled stack spans word).lookup symbol = some winner ∧
        (spans.get (stack.symbolNode winner).span).start =
            (spans.get (stack.symbolNode best).span).start ∧
        (spans.get (stack.symbolNode winner).span).stop =
            (spans.get (stack.symbolNode best).span).stop := by
  have among := among_winnersAt compiled stack word numbers
  cases found : (winnersAt compiled stack spans word).lookup symbol with
  | none =>
      exact absurd wins.contends (among.unclaimed symbol found best wins.listed)
  | some winner =>
      exact ⟨winner, rfl, (among.wins symbol winner found).same_extent numbers wins⟩

/-- The losers of a pass are the live nodes that lose to a winner. -/
theorem mem_losersTo_iff {id : SymbolNodeId} :
    id ∈ losersTo stack spans (winnersAt compiled stack spans word) ↔
      (stack.symbolNode id).removed = false ∧
        stack.Loses compiled spans (stack.layer word).reduced id := by
  have among := among_winnersAt compiled stack word numbers
  simp only [losersTo, List.mem_map, List.mem_filter, Prod.exists,
    GraphStack.mem_symbolEntries, Bool.and_eq_true, Bool.not_eq_true',
    Option.any_eq_true, winnerOf?_eq_some, bne_iff_ne, exists_and_right,
    exists_eq_right]
  constructor
  · rintro ⟨_, ⟨-, rfl⟩, isLive, winner, ⟨symbol, isSymbol, found⟩, -, loses⟩
    exact ⟨isLive, symbol, winner, among.wins symbol winner found, isSymbol, loses⟩
  · rintro ⟨isLive, symbol, best, wins, isSymbol, loses⟩
    obtain ⟨winner, found, start, stop⟩ := exists_lookup_of_wins numbers wins
    rw [← Span.losesTo_congr start stop] at loses
    have inside := GraphStack.lt_size_of_symbol isSymbol
    refine ⟨_, ⟨inside, rfl⟩, isLive, winner, ⟨symbol, isSymbol, found⟩, ?_, loses⟩
    rintro rfl
    rw [Span.losesTo_self] at loses
    cases loses

/-- The derivations that a pass spares are the exempt ones. -/
theorem spares_iff_exempts
    {id : SymbolNodeId}
    {derivation : Derivation} :
    GreedyPass.Spares compiled spans (winnersAt compiled stack spans word) stack
        (stack.symbolNode id) derivation ↔
      stack.Exempts compiled spans (stack.layer word).reduced id derivation := by
  have among := among_winnersAt compiled stack word numbers
  constructor
  · rintro ⟨⟨winner, isWinner, sameStart⟩, isGreedy⟩
    obtain ⟨symbol, isSymbol, found⟩ := winnerOf?_eq_some.mp isWinner
    exact ⟨isGreedy, symbol, winner, among.wins symbol winner found, isSymbol,
      sameStart⟩
  · rintro ⟨isGreedy, symbol, best, wins, isSymbol, sameStart⟩
    obtain ⟨winner, found, start, -⟩ := exists_lookup_of_wins numbers wins
    exact ⟨⟨winner, winnerOf?_eq_some.mpr ⟨symbol, isSymbol, found⟩,
      start.trans sameStart⟩, isGreedy⟩

end Numbers

/-- A pass accounts for all that it dropped. -/
theorem GreedyPass.accounts_last {winners : Winners} :
    (last compiled spans word stack winners).Accounts compiled spans winners stack
      (losersTo stack spans winners) := by
  have begun := @GreedyPass.accounts_begin compiled spans winners stack
    (losersTo stack spans winners) word
  refine (begun.foldl_drop _ nodup_losersTo fun id member => ?_).pruneAll
  obtain ⟨inside, isLive⟩ := known_of_mem_losersTo member
  exact ⟨inside, isLive, by simp [GreedyPass.Dropped], member⟩

/--
What holds of losers, and of a node one of whose derivations goes through a node
of which it holds, holds of all that a pass drops.
-/
theorem GreedyPass.last_induction
    {winners : Winners}
    {motive : Nat → Prop}
    (losers : ∀ id ∈ losersTo stack spans winners, motive id)
    (through : ∀ id : Nat, ∀ derivation ∈ (stack.symbolNode id).derivations,
      ∀ child ∈ derivation.children, motive child → motive id)
    {id : Nat}
    (isDropped : (last compiled spans word stack winners).Dropped id) :
    motive id := by
  have cleared : ∀ other : Nat,
      ((losersTo stack spans winners).foldl GreedyPass.drop
        ⟨stack, word, .empty, 0⟩).Dropped other → motive other := by
    have begun : ∀ other : Nat,
        (GreedyPass.mk stack word .empty 0).Dropped other → motive other := by
      simp [GreedyPass.Dropped]
    generalize GreedyPass.mk stack word .empty 0 = pass at begun ⊢
    generalize losersTo stack spans winners = ids at losers ⊢
    induction ids generalizing pass with
    | nil => exact begun
    | cons first rest inductionHypothesis =>
        refine inductionHypothesis _ (fun other dropped => ?_)
          fun other member => losers other (List.mem_cons_of_mem _ member)
        rcases GreedyPass.dropped_drop.mp dropped with rfl | old
        · exact losers other List.mem_cons_self
        · exact begun other old
  have trimmed := @GreedyPass.trimmed_foldl_drop ⟨stack, word, .empty, 0⟩
    (losersTo stack spans winners)
  -- A node that is pruned away has lost a derivation that it had from the start.
  refine (GreedyPass.pruneAll_induction
    (motive := fun current : GreedyPass => stack.Trimmed current.stack ∧
      ∀ other : Nat, current.Dropped other → motive other)
    ?_ ⟨trimmed, cleared⟩).2 id isDropped
  rintro current own member derived ⟨fewer, holds⟩
  refine ⟨fewer.trans (GreedyPass.trimmed_prune own), fun other dropped => ?_⟩
  rcases @GreedyPass.prune_cases current compiled spans winners own
    (derived.inside own member) (derived.derived own member) with
      ⟨same, -⟩ | ⟨kept, -, -, isLive, keptOrNot, -, -, pruned⟩
  · rw [same] at dropped
    exact holds other dropped
  · rcases (pruned other).mp dropped with ⟨rfl, isEmpty⟩ | old
    · obtain ⟨derivation, listed⟩ :=
        List.exists_mem_of_ne_nil _ (derived.derived other member isLive)
      have goes := (keptOrNot derivation listed).resolve_left (by simp [isEmpty])
      obtain ⟨-, child, isChild, childDropped⟩ := GreedyPass.keeps_eq_false.mp goes
      exact through other derivation
        ((fewer.derivations other).subset listed) child isChild
        (holds child childDropped)
    · exact holds other old

/-- Without a winner a pass obeys its law by doing nothing. -/
theorem passLaw_unchanged
    (nodes : List SymbolNodeId)
    (unclaimed : ∀ symbol, ∀ id ∈ nodes, ¬ stack.Contends compiled symbol id)
    (roots : List SymbolNodeId) :
    PassLaw compiled spans nodes stack roots ⟨0, stack, roots⟩ where
  claimed symbol := fun ⟨id, listed, contends⟩ =>
    absurd contends (unclaimed symbol id listed)
  beaten _ _ := fun ⟨symbol, winner, wins, _⟩ =>
    unclaimed symbol winner wins.listed wins.contends
  symbols id removes := by
    obtain ⟨isLive, isRemoved⟩ := removes
    rw [isLive] at isRemoved
    cases isRemoved
  states id isLive isRemoved := by
    rw [isLive] at isRemoved
    cases isRemoved
  trimmed := .refl stack
  stays _ := id
  counted := by simp [GraphStack.newlyRemoved]
  unchanged _ := rfl

section Ended

variable {winners : Winners} {base final : GraphStack} {start : Nat}
variable {pass : GreedyPass}

/-- What a pass dropped was live and is removed at its end. -/
theorem GreedyPass.Ended.removes
    (ended : pass.Ended compiled spans winners base final start)
    {id : Nat}
    (isDropped : pass.Dropped id) :
    base.Removes final id :=
  ⟨ended.drops.wasLive id isDropped,
    ended.swept.trimmed.removed id (ended.drops.removed id isDropped)⟩

/-- A symbol node that a pass removed was dropped, or has no live child state. -/
theorem GreedyPass.Ended.dropped_or_floats
    (ended : pass.Ended compiled spans winners base final start)
    {id : Nat}
    (removes : base.Removes final id) :
    pass.Dropped id ∨
      ∀ child ∈ (base.symbolNode id).children,
        (final.stateNode child).removed = true := by
  obtain ⟨wasLive, isRemoved⟩ := removes
  rcases ended.swept.symbol id isRemoved with before | ⟨-, floats⟩
  · refine .inl ((ended.drops.only id before).resolve_left fun old => ?_)
    rw [wasLive] at old
    cases old
  · rw [(ended.drops.trimmed.shape.symbol id).2.2.2] at floats
    exact .inr floats

/-- A state node that a pass removed lost all its children. -/
theorem GreedyPass.Ended.stranded
    (ended : pass.Ended compiled spans winners base final start)
    {id : Nat}
    (wasLive : (base.stateNode id).removed = false)
    (isRemoved : (final.stateNode id).removed = true) :
    (base.stateNode id).children ≠ [] ∧
      ∀ child ∈ (base.stateNode id).children,
        (final.symbolNode child).removed = true := by
  have same : pass.stack.stateNode id = base.stateNode id := by
    rw [GraphStack.stateNode, ended.drops.states, GraphStack.stateNode]
  have stranded := ended.swept.stranded id isRemoved
  rw [same, wasLive] at stranded
  exact stranded.resolve_left Bool.false_ne_true

end Ended

/-- A greedy pass obeys its law, whatever the stack and its roots. -/
theorem passLaw_filterGreedily
    (noNaN : ∀ span ∈ spans.toList, span.weight.isNaN = false)
    (stack : GraphStack)
    (word : Nat)
    (roots : List SymbolNodeId) :
    PassLaw compiled spans (stack.layer word).reduced stack roots
      (filterGreedily compiled spans word stack roots) := by
  have numbers := SpanStore.get_isNaN noNaN
  have among := among_winnersAt compiled stack word numbers
  have losers := fun id => @mem_losersTo_iff compiled spans stack word numbers id
  have spared := fun id derivation =>
    @spares_iff_exempts compiled spans stack word numbers id derivation
  rw [filterGreedily_eq]
  simp only
  split
  · rename_i noWinner
    rw [List.isEmpty_iff.mp noWinner] at among
    exact passLaw_unchanged _ (fun symbol => among.unclaimed symbol rfl) roots
  generalize winnersAt compiled stack spans word = winners at *
  rename_i someWinner
  obtain ⟨start, ended⟩ :=
    GreedyPass.ended_last compiled spans word stack winners
  have accounts := @GreedyPass.accounts_last compiled spans stack word winners
  generalize GreedyPass.last compiled spans word stack winners = pass
    at ended accounts ⊢
  have trimmed := ended.drops.trimmed.trans ended.swept.trimmed
  have stays : ∀ id : Nat, (stack.stateNode id).removed = true →
      ((pass.stack.sweep pass.start).2.stateNode id).removed = true := by
    intro id wasRemoved
    refine ended.swept.stays id ?_
    rw [GraphStack.stateNode, ended.drops.states]
    exact wasRemoved
  constructor
  case claimed =>
    rintro symbol ⟨id, listed, contends⟩
    cases found : winners.lookup symbol with
    | none => exact absurd contends (among.unclaimed symbol found id listed)
    | some winner => exact ⟨winner, among.wins symbol winner found⟩
  case beaten =>
    intro id isLive loses
    have wasLive : (stack.symbolNode id).removed = false :=
      Bool.eq_false_iff.mpr fun wasRemoved =>
        Bool.eq_false_iff.mp isLive (trimmed.removed id wasRemoved)
    obtain ⟨-, isRemoved⟩ :=
      ended.removes (ended.losers id ((losers id).mpr ⟨wasLive, loses⟩))
    rw [isLive] at isRemoved
    cases isRemoved
  case symbols =>
    intro id removes
    rcases ended.dropped_or_floats removes with isDropped | floats
    · rcases accounts.cause id isDropped with loses | ⟨derived, allSevered⟩
      · exact .inl ((losers id).mp loses).2
      · refine .inr (.inl ⟨derived, fun derivation member => ?_⟩)
        obtain ⟨notSpared, child, isChild, childDropped⟩ :=
          allSevered derivation member
        exact ⟨mt (spared id derivation).mpr notSpared, child, isChild,
          ended.removes childDropped⟩
    · exact .inr (.inr floats)
  case states => exact fun id => ended.stranded
  case trimmed => exact trimmed
  case stays => exact stays
  case counted =>
    have newly := GraphStack.liveNodes_eq_add_newlyRemoved trimmed.shape stays
      trimmed.removed
    have swept := @GraphStack.liveNodes_sweep pass.stack pass.start
    have dropped := accounts.counted
    simp only
    omega
  case unchanged =>
    intro noWins
    cases winners with
    | nil => exact absurd rfl someWinner
    | cons first _ =>
        obtain ⟨symbol, winner⟩ := first
        exact absurd (among.wins symbol winner List.lookup_cons_self)
          (noWins symbol winner)

end Law

namespace Parser

/-- What the last greedy pass of a parse leaves. -/
def sharedResult : GreedyResult :=
  filterGreedily sharedRead.compiled sharedRead.spans 2 sharedRead.stack
    sharedRead.roots

private theorem sharedResult_facts :
    (sharedRead.spans.toList.all fun span => !span.weight.isNaN) = true ∧
      sharedResult.removed = 9 ∧
      (sharedRead.stack.symbolNode 8).removed = false ∧
      (sharedResult.stack.symbolNode 8).removed = true := by
  decide +kernel

/-- The pass removed nine nodes, among them the `X` for one of the lawful reasons. -/
theorem passLaw_shared :
    (∀ span ∈ sharedRead.spans.toList, span.weight.isNaN = false) ∧
      sharedRead.stack.newlyRemoved sharedResult.stack = 9 ∧
      sharedRead.stack.Removes sharedResult.stack 8 ∧
      (sharedRead.stack.Loses sharedRead.compiled sharedRead.spans
          (sharedRead.stack.layer 2).reduced 8 ∨
        ((sharedRead.stack.symbolNode 8).derivations ≠ [] ∧
          ∀ derivation ∈ (sharedRead.stack.symbolNode 8).derivations,
            ¬ sharedRead.stack.Exempts sharedRead.compiled sharedRead.spans
                (sharedRead.stack.layer 2).reduced 8 derivation ∧
              ∃ child ∈ derivation.children,
                sharedRead.stack.Removes sharedResult.stack child) ∨
        ∀ child ∈ (sharedRead.stack.symbolNode 8).children,
          (sharedResult.stack.stateNode child).removed = true) := by
  obtain ⟨allNumbers, removed, wasLive, isRemoved⟩ := sharedResult_facts
  have noNaN : ∀ span ∈ sharedRead.spans.toList, span.weight.isNaN = false := by
    simpa using allNumbers
  have law := @passLaw_filterGreedily sharedRead.compiled _ noNaN sharedRead.stack
    2 sharedRead.roots
  exact ⟨noNaN, law.counted.symm.trans removed, ⟨wasLive, isRemoved⟩,
    law.symbols 8 ⟨wasLive, isRemoved⟩⟩

end Parser

end SpanForest
