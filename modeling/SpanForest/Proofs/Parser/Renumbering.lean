import SpanForest.Proofs.Parser.Settings
import SpanForest.Proofs.Parser.Stepping
import SpanForest.Proofs.Parser.Winning
import SpanForest.Proofs.Stack.Renumbering

namespace SpanForest

/-!
# Working under other span numbers

Whatever a parser does to its stack it does in the same way if its spans have
other numbers, in the same order. A greedy pass compares numbers of spans, but
only their order counts.
-/

variable {rename : SpanId → SpanId} {count : Nat}
variable {spans other : SpanStore}

/-- New numbers in the same order leave it open who wins as it was. -/
theorem Span.rank_renumbered
    (increasing : StrictMono rename)
    (left right : Span) :
    (left.renumbered rename).rank (right.renumbered rename) =
      left.rank right := by
  have sameOrder : compare (rename left.id) (rename right.id) =
      compare left.id right.id := by
    rcases Nat.lt_trichotomy left.id right.id with less | same | more
    · rw [Nat.compare_eq_lt.mpr less,
        Nat.compare_eq_lt.mpr (increasing less)]
    · rw [same, Nat.compare_eq_eq.mpr rfl, Nat.compare_eq_eq.mpr rfl]
    · rw [Nat.compare_eq_gt.mpr more,
        Nat.compare_eq_gt.mpr (increasing more)]
  simp only [Span.rank, Span.renumbered, sameOrder]

/-- New numbers for the spans of a stack and their store, of spans that are known. -/
structure GraphStack.Rewrites
    (rename : SpanId → SpanId)
    (count : Nat)
    (spans other : SpanStore)
    (stack : GraphStack) : Prop where
  renumbers : Renumbers rename count
  store : spans.Renumbered rename other
  known :
    ∀ node < stack.symbols.size, (stack.symbolNode node).span < spans.size

section Greedy

variable {stack : GraphStack} {compiled : CompiledGrammar}
variable {winners : Winners} {word : Nat}

/-- Winners that are nodes of a stack. -/
def Winners.Known (stack : GraphStack) (winners : Winners) : Prop :=
  ∀ entry ∈ winners, entry.2 < stack.symbols.size

theorem Winners.Known.winnerOf?
    (known : winners.Known stack)
    {node : SymbolNode}
    {winner : SymbolNodeId}
    (isWinner : SpanForest.winnerOf? winners node = some winner) :
    winner < stack.symbols.size := by
  obtain ⟨symbol, -, found⟩ := Option.bind_eq_some_iff.mp isWinner
  obtain ⟨before, after, isWinners, -⟩ := List.lookup_eq_some_iff.mp found
  exact known (symbol, winner) (by simp [isWinners])

theorem Winners.Known.competeFor
    (known : winners.Known stack)
    {id : SymbolNodeId}
    (inside : id < stack.symbols.size)
    (spans : SpanStore)
    (symbol : SymbolId) :
    Winners.Known stack (competeFor stack spans symbol id winners) := by
  induction winners with
  | nil => exact fun entry member => List.mem_singleton.mp member ▸ inside
  | cons first rest inductionHypothesis =>
      obtain ⟨own, best⟩ := first
      have restKnown := inductionHypothesis fun entry member =>
        known entry (List.mem_cons_of_mem _ member)
      have bestInside := known (own, best) List.mem_cons_self
      unfold SpanForest.competeFor
      split
      · intro entry member
        rcases List.mem_cons.mp member with rfl | later
        · dsimp only
          split
          · exact inside
          · exact bestInside
        · exact known entry (List.mem_cons_of_mem _ later)
      · intro entry member
        rcases List.mem_cons.mp member with rfl | later
        · exact bestInside
        · exact restKnown entry later

namespace GraphStack.Rewrites

/-- The span of a node has a new number and a new head. -/
theorem spanOf
    (rewrites : stack.Rewrites rename count spans other)
    {node : SymbolNodeId}
    (inside : node < stack.symbols.size) :
    other.get ((stack.renumbered rename).symbolNode node).span =
      (spans.get (stack.symbolNode node).span).renumbered rename := by
  rw [symbolNode_renumbered inside]
  exact rewrites.store.get _ (rewrites.known node inside)

theorem competeFor
    (rewrites : stack.Rewrites rename count spans other)
    (known : winners.Known stack)
    {id : SymbolNodeId}
    (inside : id < stack.symbols.size)
    (symbol : SymbolId) :
    SpanForest.competeFor (stack.renumbered rename) other symbol id winners =
      SpanForest.competeFor stack spans symbol id winners := by
  induction winners with
  | nil => rfl
  | cons first rest inductionHypothesis =>
      obtain ⟨own, best⟩ := first
      have restSame := inductionHypothesis fun entry member =>
        known entry (List.mem_cons_of_mem _ member)
      unfold SpanForest.competeFor
      simp only [rewrites.spanOf inside,
        rewrites.spanOf (known (own, best) List.mem_cons_self),
        Span.rank_renumbered rewrites.renumbers.increasing, restSame]

theorem contend
    (rewrites : stack.Rewrites rename count spans other)
    (known : winners.Known stack)
    {id : SymbolNodeId}
    (inside : id < stack.symbols.size) :
    SpanForest.contend compiled (stack.renumbered rename) other winners id =
        SpanForest.contend compiled stack spans winners id ∧
      Winners.Known stack
        (SpanForest.contend compiled stack spans winners id) := by
  have sameContender : isContender compiled
      ((stack.renumbered rename).symbolNode id) =
        isContender compiled (stack.symbolNode id) := by
    simp only [isContender, removed_renumbered, symbol_renumbered,
      derivations_renumbered]
  unfold SpanForest.contend
  rw [symbol_renumbered, sameContender]
  split
  · split
    · exact ⟨rewrites.competeFor known inside _,
        known.competeFor inside spans _⟩
    · exact ⟨rfl, known⟩
  · exact ⟨rfl, known⟩

/-- The winners of a word are the same nodes, and they are nodes of the stack. -/
theorem winnersAt
    (rewrites : stack.Rewrites rename count spans other)
    (reducedKnown : ∀ node ∈ (stack.layer word).reduced,
      node < stack.symbols.size) :
    SpanForest.winnersAt compiled (stack.renumbered rename) other word =
        SpanForest.winnersAt compiled stack spans word ∧
      Winners.Known stack (SpanForest.winnersAt compiled stack spans word) := by
  rw [winnersAt_eq, winnersAt_eq, layer_renumbered]
  have begins : Winners.Known stack [] := by simp [Winners.Known]
  generalize ([] : Winners) = winners at begins
  generalize (stack.layer word).reduced = reduced at reducedKnown
  induction reduced generalizing winners with
  | nil => exact ⟨rfl, begins⟩
  | cons id rest inductionHypothesis =>
      obtain ⟨same, known⟩ := @rewrites.contend _ _ _ _ _ compiled _ begins _
        (reducedKnown id List.mem_cons_self)
      rw [List.foldl_cons, List.foldl_cons, same]
      exact inductionHypothesis _ known fun node member =>
        reducedKnown node (List.mem_cons_of_mem _ member)

/-- The losers are the same nodes. -/
theorem losersTo
    (rewrites : stack.Rewrites rename count spans other)
    (known : winners.Known stack) :
    SpanForest.losersTo (stack.renumbered rename) other winners =
      SpanForest.losersTo stack spans winners := by
  unfold SpanForest.losersTo
  rw [symbolEntries_renumbered, List.filter_map, List.map_map]
  refine congrArg (List.map Prod.fst) (List.filter_congr ?_)
  rintro ⟨id, node⟩ listed
  obtain ⟨inside, rfl⟩ := mem_symbolEntries.mp listed
  have sameWinner : winnerOf? winners ((stack.symbolNode id).renumbered rename) =
      winnerOf? winners (stack.symbolNode id) :=
    rfl
  have sameSpan := rewrites.spanOf inside
  rw [symbolNode_renumbered inside] at sameSpan
  simp only [Function.comp_apply, Prod.map_apply, id_eq, sameWinner, sameSpan]
  refine congrArg _ ?_
  cases isWinner : winnerOf? winners (stack.symbolNode id) with
  | none => rfl
  | some winner =>
      simp only [Option.any_some, rewrites.spanOf (known.winnerOf? isWinner)]
      rfl

end GraphStack.Rewrites

namespace GreedyPass

variable {pass : GreedyPass}

/-- A pass under way with new numbers for the spans of its stack. -/
def renumbered (rename : SpanId → SpanId) (pass : GreedyPass) : GreedyPass :=
  { pass with stack := pass.stack.renumbered rename }

theorem drop_renumbered (id : SymbolNodeId) :
    (pass.renumbered rename).drop id = (pass.drop id).renumbered rename := by
  simp only [drop, renumbered, GraphStack.setSymbolRemoved_renumbered,
    GraphStack.word_renumbered]

theorem foldl_drop_renumbered (ids : List SymbolNodeId) :
    ids.foldl drop (pass.renumbered rename) =
      (ids.foldl drop pass).renumbered rename := by
  induction ids generalizing pass with
  | nil => rfl
  | cons id rest inductionHypothesis =>
      rw [List.foldl_cons, List.foldl_cons, drop_renumbered]
      exact inductionHypothesis

section Pruning

variable (rewrites : pass.stack.Rewrites rename count spans other)
variable (known : winners.Known pass.stack)
include rewrites known

theorem keeps_renumbered
    (node : SymbolNode)
    (derivation : Derivation) :
    (pass.renumbered rename).keeps compiled other winners
        (node.renumbered rename) derivation =
      pass.keeps compiled spans winners node derivation := by
  have sameStart : (other.get (node.renumbered rename).span).start =
      (spans.get node.span).start :=
    rewrites.store.start_eq rewrites.renumbers node.span
  have sameWinner : winnerOf? winners (node.renumbered rename) =
      winnerOf? winners node :=
    rfl
  have withWinner :
      ((winnerOf? winners node).any fun winner =>
        (other.get ((pass.stack.renumbered rename).symbolNode
          winner).span).start == (spans.get node.span).start) =
      ((winnerOf? winners node).any fun winner =>
        (spans.get (pass.stack.symbolNode winner).span).start ==
          (spans.get node.span).start) := by
    cases isWinner : winnerOf? winners node with
    | none => rfl
    | some winner =>
        simp only [Option.any_some, rewrites.spanOf (known.winnerOf? isWinner)]
        rfl
  simp only [keeps, sameStart, sameWinner]
  exact congrArg (fun flag : Bool => (flag &&
    (compiled.grammar.rule derivation.rule).greedy) || _) withWinner

theorem prune_renumbered
    {id : SymbolNodeId}
    (inside : id < pass.stack.symbols.size) :
    (pass.renumbered rename).prune compiled other winners id =
      ((pass.prune compiled spans winners id).1,
        (pass.prune compiled spans winners id).2.renumbered rename) := by
  have isNode : (pass.renumbered rename).stack.symbolNode id =
      (pass.stack.symbolNode id).renumbered rename :=
    GraphStack.symbolNode_renumbered inside
  have sameRemoved : ((pass.stack.symbolNode id).renumbered rename).removed =
      (pass.stack.symbolNode id).removed :=
    rfl
  have sameDerivations :
      ((pass.stack.symbolNode id).renumbered rename).derivations =
        (pass.stack.symbolNode id).derivations :=
    rfl
  have sameKept : (pass.stack.symbolNode id).derivations.filter
      ((pass.renumbered rename).keeps compiled other winners
        ((pass.stack.symbolNode id).renumbered rename)) =
      (pass.stack.symbolNode id).derivations.filter
        (pass.keeps compiled spans winners (pass.stack.symbolNode id)) :=
    List.filter_congr fun derivation _ =>
      keeps_renumbered rewrites known _ derivation
  simp only [prune, isNode, sameRemoved, sameDerivations, sameKept]
  generalize (pass.stack.symbolNode id).derivations.filter
    (pass.keeps compiled spans winners (pass.stack.symbolNode id)) = kept
  have pruned : (pass.renumbered rename).stack.modifySymbol id
      (fun current => { current with derivations := kept }) =
      (pass.stack.modifySymbol id fun current =>
        { current with derivations := kept }).renumbered rename :=
    GraphStack.modifySymbol_renumbered (by exact fun _ => rfl) id
  rw [pruned]
  split
  · rfl
  · split
    · rfl
    · split
      · exact congrArg (true, ·) (@drop_renumbered rename
          { pass with
            stack := pass.stack.modifySymbol id fun current =>
              { current with derivations := kept } } id)
      · rfl

end Pruning

/-- What a round or a pass begins with it keeps. -/
theorem rewrites_of_trimmed
    {before after : GraphStack}
    (trimmed : before.Trimmed after)
    (rewrites : before.Rewrites rename count spans other)
    (known : winners.Known before) :
    after.Rewrites rename count spans other ∧ winners.Known after := by
  have shape := trimmed.shape
  refine ⟨⟨rewrites.renumbers, rewrites.store, fun node inside => ?_⟩,
    fun entry member => shape.symbols_size ▸ known entry member⟩
  rw [(shape.symbol node).1]
  exact rewrites.known node (shape.symbols_size ▸ inside)

theorem pruneRound_renumbered
    (rewrites : pass.stack.Rewrites rename count spans other)
    (known : winners.Known pass.stack)
    {nodes : List SymbolNodeId}
    (inside : ∀ id ∈ nodes, id < pass.stack.symbols.size) :
    pruneRound compiled other winners nodes (pass.renumbered rename) =
      ((pruneRound compiled spans winners nodes pass).1,
        (pruneRound compiled spans winners nodes pass).2.renumbered
          rename) := by
  unfold pruneRound
  generalize false = changed
  induction nodes generalizing pass changed with
  | nil => rfl
  | cons id rest inductionHypothesis =>
      have trimmed := @trimmed_prune pass compiled spans winners id
      obtain ⟨nextRewrites, nextKnown⟩ :=
        rewrites_of_trimmed trimmed rewrites known
      have pruned := @prune_renumbered _ _ _ _ compiled _ _ rewrites known id
        (inside id List.mem_cons_self)
      simp only [List.foldl_cons, pruned]
      exact inductionHypothesis nextRewrites nextKnown (fun node member =>
        trimmed.shape.symbols_size ▸ inside node (List.mem_cons_of_mem _ member)) _

theorem pruneAll_renumbered
    (rewrites : pass.stack.Rewrites rename count spans other)
    (known : winners.Known pass.stack) :
    (pass.renumbered rename).pruneAll compiled other winners =
      (pass.pruneAll compiled spans winners).renumbered rename := by
  have sameDead : (pass.renumbered rename).dead = pass.dead := rfl
  have sameDependents : (pass.renumbered rename).dependents = pass.dependents := by
    unfold dependents
    simp only [renumbered, GraphStack.symbolEntries_renumbered,
      List.filter_map, List.map_map]
    rfl
  have sameBound : ∀ id, ((pass.renumbered rename).stack.symbolNode id).derivations =
      (pass.stack.symbolNode id).derivations :=
    fun id => GraphStack.derivations_renumbered id
  have rounds := fun fuel => repeatRounds_map
    (motive := fun current : GreedyPass => pass.stack.Trimmed current.stack)
    (fun current trimmed => trimmed.trans (trimmed_pruneRound pass.dependents))
    (fun current trimmed => by
      obtain ⟨currentRewrites, currentKnown⟩ :=
        rewrites_of_trimmed trimmed rewrites known
      exact @pruneRound_renumbered _ _ _ _ compiled _ _ currentRewrites
        currentKnown _ fun id member =>
          trimmed.shape.symbols_size ▸ (mem_dependents member).1)
    fuel pass (.refl _)
  unfold pruneAll
  rw [sameDead, sameDependents]
  simp only [sameBound]
  split
  · rfl
  · exact congrArg Prod.snd (rounds _)

end GreedyPass

/-- What a greedy pass leaves, with new numbers for the spans of the stack. -/
def GreedyResult.renumbered
    (rename : SpanId → SpanId)
    (result : GreedyResult) :
    GreedyResult :=
  { result with stack := result.stack.renumbered rename }

/-- A greedy pass does the same under new numbers. -/
theorem GraphStack.Rewrites.filterGreedily
    (rewrites : stack.Rewrites rename count spans other)
    (reducedKnown : ∀ node ∈ (stack.layer word).reduced,
      node < stack.symbols.size)
    (roots : List SymbolNodeId) :
    SpanForest.filterGreedily compiled other word (stack.renumbered rename)
        roots =
      (SpanForest.filterGreedily compiled spans word stack roots).renumbered
        rename := by
  obtain ⟨sameWinners, known⟩ :=
    @rewrites.winnersAt _ _ _ _ _ compiled word reducedKnown
  simp only [SpanForest.filterGreedily, sameWinners]
  generalize SpanForest.winnersAt compiled stack spans word = winners at known
  rw [rewrites.losersTo known]
  split
  · rfl
  · have cleared := @GreedyPass.foldl_drop_renumbered rename
      ⟨stack, word, .empty, 0⟩ (SpanForest.losersTo stack spans winners)
    have trimmed := @GreedyPass.trimmed_foldl_drop ⟨stack, word, .empty, 0⟩
      (SpanForest.losersTo stack spans winners)
    obtain ⟨passRewrites, passKnown⟩ :=
      GreedyPass.rewrites_of_trimmed trimmed rewrites known
    have pruned := @GreedyPass.pruneAll_renumbered _ _ _ _ compiled _ _
      passRewrites passKnown
    rw [← cleared] at pruned
    have swept := @GraphStack.sweep_renumbered rename
    simp only [GreedyPass.renumbered] at pruned
    rw [pruned]
    simp only [swept, GraphStack.removed_renumbered]
    rfl

end Greedy

/-- A word with new numbers for its spans. -/
def InputWord.renumbered
    (rename : SpanId → SpanId)
    (word : InputWord) :
    InputWord :=
  { word with spans := word.spans.map rename }

/-- A noted span with its new number. -/
def Shift.renumbered (rename : SpanId → SpanId) (shift : Shift) : Shift :=
  { shift with span := rename shift.span }

theorem nextWord_renumbered
    (words : List InputWord)
    (word stop : Nat) :
    nextWord (words.map (InputWord.renumbered rename)) word stop =
      nextWord words word stop := by
  simp only [nextWord, ← List.map_drop, List.takeWhile_map, List.length_map]
  rfl

/-- New numbers leave it open which spans are interchangeable as it was. -/
theorem Span.equivalent_renumbered
    (injective : Function.Injective rename)
    (left right : Span) :
    (left.renumbered rename).equivalent (right.renumbered rename) =
      left.equivalent right := by
  have sameHead : (rename left.head == rename right.head) =
      (left.head == right.head) :=
    Bool.eq_iff_iff.mpr (by simp [injective.eq_iff])
  simp only [Span.equivalent, Span.renumbered, sameHead]

namespace Parser

variable {parser : Parser} {aside : Parser} {word : Nat}

/--
The parse with new numbers for its spans. The spans themselves and the input are
those of another parse, and so is what is remembered of spans.
-/
def renumbered
    (rename : SpanId → SpanId)
    (parser aside : Parser) :
    Parser :=
  { parser with
    spans := aside.spans
    input := aside.input
    words := parser.words.map (InputWord.renumbered rename)
    stack := parser.stack.renumbered rename
    evaluator := aside.evaluator
    synthesized := aside.synthesized
    candidates := parser.candidates.map rename
    shifts := parser.shifts.map (Shift.renumbered rename)
    outcomes := aside.outcomes }

/-- Changes that do the same under new numbers, one after the other. -/
theorem foldl_renumbered
    {α : Type}
    {change : Parser → α → Parser}
    (commutes : ∀ parser item,
      change (renumbered rename parser aside) item =
        (change parser item).renumbered rename aside)
    (items : List α) :
    items.foldl change (parser.renumbered rename aside) =
      (items.foldl change parser).renumbered rename aside := by
  induction items generalizing parser with
  | nil => rfl
  | cons item rest inductionHypothesis =>
      rw [List.foldl_cons, List.foldl_cons, commutes]
      exact inductionHypothesis

theorem queueReduction_renumbered
    (parser : Parser)
    (reduction : Reduction) :
    (parser.renumbered rename aside).queueReduction reduction =
      (parser.queueReduction reduction).renumbered rename aside := by
  change (if parser.performed.contains reduction then _ else _) = _
  unfold queueReduction
  split <;> rfl

theorem wakeWord_renumbered :
    (parser.renumbered rename aside).wakeWord word =
      (parser.wakeWord word).renumbered rename aside := by
  have sameEnd : (parser.renumbered rename aside).isAtEnd word =
      parser.isAtEnd word := by
    simp only [isAtEnd, numWords, renumbered, List.length_map]
  have woken := fun nodes => @foldl_renumbered rename
    { parser with active := [] } aside _ activate (fun _ _ => rfl) nodes
  unfold wakeWord
  rw [sameEnd, apply_ite (renumbered rename · aside)]
  refine if_congr Iff.rfl ?_ (woken _)
  exact congrArg (activate · GraphStack.startNode) (woken _)

theorem workBound_renumbered :
    (parser.renumbered rename aside).workBound word = parser.workBound word := by
  have sameSize : (parser.renumbered rename aside).stack.symbols.size =
      parser.stack.symbols.size :=
    GraphStack.size_symbols_renumbered
  unfold workBound
  rw [sameSize]
  rfl

theorem activate_renumbered (node : StateNodeId) :
    (parser.renumbered rename aside).activate node =
      (parser.activate node).renumbered rename aside :=
  rfl

theorem sprout_renumbered
    (below : StateNodeId)
    (goto : StateId)
    (lhs : SymbolId)
    (span : SpanId)
    (derivation : Derivation) :
    (parser.renumbered rename aside).sprout word below goto lhs (rename span)
        derivation =
      (parser.sprout word below goto lhs span derivation).renumbered rename
        aside := by
  simp only [sprout, renumbered, GraphStack.growNode_renumbered,
    GraphStack.addState_renumbered, GraphStack.size_symbols_renumbered]

theorem grow_renumbered
    (below : StateNodeId)
    (goto : StateId)
    (lhs : SymbolId)
    (span : SpanId)
    (derivation : Derivation) :
    (parser.renumbered rename aside).grow word below goto lhs (rename span)
        derivation =
      (parser.grow word below goto lhs span derivation).renumbered rename
        aside := by
  have sameTop : ((parser.renumbered rename aside).stack.addState word goto).1 =
      (parser.stack.addState word goto).1 := by
    have sameStack : (parser.renumbered rename aside).stack =
        parser.stack.renumbered rename :=
      rfl
    rw [sameStack, GraphStack.addState_renumbered]
  rw [grow_eq, grow_eq, sprout_renumbered, sameTop, activate_renumbered,
    ← apply_ite (renumbered rename · aside)]
  rfl

section Reading

variable (renumbers : Renumbers rename count)
variable (store : parser.spans.Renumbered rename aside.spans)
include renumbers store

theorem lookaheadRules_renumbered (state : StateId) :
    (parser.renumbered rename aside).lookaheadRules state =
      parser.lookaheadRules state := by
  have sameAhead : (parser.renumbered rename aside).lookaheads =
      parser.lookaheads := by
    simp only [lookaheads, renumbered, List.filterMap_map]
    congr 2
    funext id
    exact store.symbol_eq renumbers id
  unfold lookaheadRules
  rw [sameAhead]
  rfl

theorem shiftsFrom_renumbered
    (node : StateNodeId)
    (state : StateId) :
    (parser.renumbered rename aside).shiftsFrom node state =
      (parser.shiftsFrom node state).map (Shift.renumbered rename) := by
  simp only [shiftsFrom, renumbered, List.filterMap_map, List.map_filterMap]
  congr 1
  funext id
  simp only [Function.comp_apply, store.symbol_eq renumbers id]
  cases (parser.spans.get id).symbol with
  | none => rfl
  | some symbol =>
      cases isTarget : parser.compiled.table.goto? state symbol with
      | none => simp [isTarget]
      | some target => simp [isTarget, Shift.renumbered]

theorem act_renumbered (node : StateNodeId) :
    (parser.renumbered rename aside).act node =
      (parser.act node).renumbered rename aside := by
  have sameStack : (parser.renumbered rename aside).stack =
      parser.stack.renumbered rename :=
    rfl
  unfold act
  simp only [sameStack, GraphStack.stateNode_renumbered,
    GraphStack.removed_renumbered, lookaheadRules_renumbered renumbers store,
    shiftsFrom_renumbered renumbers store]
  rw [← foldl_renumbered queueReduction_renumbered]
  simp only [renumbered, List.map_append]
  rfl

theorem pack_renumbered
    (node : SymbolNodeId)
    (below : StateNodeId)
    (goto : StateId)
    (derivation : Derivation) :
    (parser.renumbered rename aside).pack node below goto derivation =
      (parser.pack node below goto derivation).renumbered rename aside := by
  have sameStack : (parser.renumbered rename aside).stack =
      parser.stack.renumbered rename :=
    rfl
  rw [pack_eq, pack_eq, sameStack, GraphStack.extendNode_renumbered,
    apply_ite (renumbered rename · aside)]
  refine if_congr Iff.rfl ?_ rfl
  have extended : Parser.renumbered rename
      { parser with stack := (parser.stack.extendNode node derivation below).2 }
      aside =
      { parser.renumbered rename aside with
        stack := (parser.stack.extendNode node derivation
          below).2.renumbered rename } :=
    rfl
  rw [← foldl_renumbered queueReduction_renumbered, ← extended]
  rw [@lookaheadRules_renumbered rename count
    { parser with stack := (parser.stack.extendNode node derivation below).2 }
    aside renumbers store]

/-- What stands for a span under its new number is what stood for it. -/
theorem findEquivalent?_renumbered
    (rewrites : parser.stack.Rewrites rename count parser.spans aside.spans)
    (childKnown : ∀ parent : StateNodeId,
      ∀ child ∈ (parser.stack.stateNode parent).children,
        child < parser.stack.symbols.size)
    {span : SpanId}
    (committed : span < parser.spans.size)
    (top : StateNodeId) :
    (parser.stack.renumbered rename).findEquivalent? aside.spans top
        (rename span) =
      parser.stack.findEquivalent? parser.spans top span := by
  refine List.find?_congr fun child member => ?_
  dsimp only
  rw [GraphStack.removed_renumbered, rewrites.spanOf (childKnown top child member),
    store.get span committed,
    Span.equivalent_renumbered renumbers.increasing.injective]

theorem attach_renumbered
    (rewrites : parser.stack.Rewrites rename count parser.spans aside.spans)
    (childKnown : ∀ parent : StateNodeId,
      ∀ child ∈ (parser.stack.stateNode parent).children,
        child < parser.stack.symbols.size)
    {span : SpanId}
    (committed : span < parser.spans.size)
    (below : StateNodeId)
    (derivation : Derivation) :
    (parser.renumbered rename aside).attach word below (rename span) derivation =
      (parser.attach word below span derivation).renumbered rename aside := by
  have sameCompiled : (parser.renumbered rename aside).compiled =
      parser.compiled :=
    rfl
  have sameStack : (parser.renumbered rename aside).stack =
      parser.stack.renumbered rename :=
    rfl
  have sameSpans : (parser.renumbered rename aside).spans = aside.spans := rfl
  have sameFound : ∀ goto,
      (parser.stack.renumbered rename).findState? word goto =
        parser.stack.findState? word goto :=
    fun _ => rfl
  simp only [attach, sameCompiled, sameStack, sameSpans, sameFound,
    GraphStack.stateNode_renumbered, pack_renumbered renumbers store,
    grow_renumbered,
    findEquivalent?_renumbered renumbers store rewrites childKnown committed]
  cases parser.compiled.table.goto? (parser.stack.stateNode below).state
    (parser.compiled.grammar.rule derivation.rule).lhs with
  | none => rfl
  | some goto =>
      dsimp only
      cases (parser.stack.findState? word goto).bind fun top =>
          parser.stack.findEquivalent? parser.spans top span with
      | some node => rfl
      | none =>
          dsimp only
          rw [apply_ite (renumbered rename · aside)]
          rfl

end Reading

section Sound

variable {σ : Type} {host : Host σ}
variable {grammar : Grammar} {options : CompileOptions}

/-- The stack of a sound parse is rewritten if the spans are. -/
theorem Sound.rewrites
    (sound : parser.Sound host grammar options)
    (renumbers : Renumbers rename count)
    {other : SpanStore}
    (store : parser.spans.Renumbered rename other) :
    parser.stack.Rewrites rename count parser.spans other :=
  ⟨renumbers, store, fun node inside => (sound.forest node inside).span_known⟩

theorem attachAll_renumbered
    (wellFormed : grammar.WellFormed)
    (working : parser.Working host grammar options word)
    (renumbers : Renumbers rename count)
    (store : parser.spans.Renumbered rename aside.spans)
    {span : SpanId}
    {derivation : Derivation}
    (below : List StateNodeId)
    (attachable : ∀ node ∈ below,
      parser.Attachable host word node derivation span) :
    (parser.renumbered rename aside).attachAll word (rename span) derivation
        below =
      (parser.attachAll word span derivation below).renumbered rename aside := by
  unfold attachAll
  induction below generalizing parser with
  | nil => rfl
  | cons node rest inductionHypothesis =>
      rw [List.foldl_cons, List.foldl_cons]
      have sameNode : (parser.renumbered rename aside).stack.stateNode node =
          parser.stack.stateNode node :=
        rfl
      rw [sameNode]
      split
      · exact inductionHypothesis working store fun other member =>
          attachable other (List.mem_cons_of_mem _ member)
      · have nodeAttachable := attachable node List.mem_cons_self
        obtain ⟨attached, proceeds, -⟩ :=
          working.attach wellFormed nodeAttachable
        rw [attach_renumbered renumbers store
          (working.sound.rewrites renumbers store)
          working.sound.stack.child_known
          nodeAttachable.yields.accepted.committed]
        have sameSpans : (parser.attach word node span derivation).spans =
            parser.spans := by
          have only := @onlyWork_attach parser word node span derivation
          rw [only]
        refine inductionHypothesis attached (sameSpans ▸ store)
          fun other member =>
            (attachable other (List.mem_cons_of_mem _ member)).grows
              working.sound proceeds.grows proceeds.unharmed attached.sound.stack

theorem readShift_renumbered
    (sound : parser.Sound host grammar options)
    (renumbers : Renumbers rename count)
    (store : parser.spans.Renumbered rename aside.spans)
    (shift : Shift) :
    (parser.renumbered rename aside).readShift word (shift.renumbered rename) =
      (parser.readShift word shift).renumbered rename aside := by
  cases isRemoved : (parser.stack.stateNode shift.origin).removed with
  | true =>
      have skipped : ∀ (current : Parser) (shift : Shift),
          (current.stack.stateNode shift.origin).removed = true →
          current.readShift word shift = current := by
        intro current shift removed
        unfold readShift
        exact if_pos removed
      rw [skipped parser shift isRemoved]
      exact skipped _ _ isRemoved
  | false =>
      have isLive : ((parser.renumbered rename aside).stack.stateNode
          (shift.renumbered rename).origin).removed = false :=
        isRemoved
      have sameDestination : (parser.renumbered rename aside).destination word
          (shift.renumbered rename) = parser.destination word shift := by
        have sameStop := store.stop_eq renumbers shift.span
        simp only [destination, renumbered, Shift.renumbered,
          nextWord_renumbered, sameStop]
      have read := @GraphStack.readNode_renumbered rename parser.stack
        (parser.destination word shift) renumbers.increasing.injective
        sound.stack.child_known shift.target shift.span
        (parser.spans.get shift.span).symbol shift.origin
      rw [← store.symbol_eq renumbers shift.span] at read
      rw [readShift_eq shift isRemoved, readShift_eq _ isLive, sameDestination,
        ← store.symbol_eq renumbers shift.span]
      exact congrArg
        (fun stack => { parser.renumbered rename aside with stack := stack })
        read

theorem readShifts_renumbered
    (wellFormed : grammar.WellFormed)
    (sound : parser.Sound host grammar options)
    (position : parser.position = word)
    (renumbers : Renumbers rename count)
    (store : parser.spans.Renumbered rename aside.spans) :
    (parser.renumbered rename aside).readShifts word =
      (parser.readShifts word).renumbered rename aside := by
  obtain ⟨taken, ready⟩ := sound.takeShifts position
  have noted : (parser.renumbered rename aside).shifts =
      parser.shifts.map (Shift.renumbered rename) :=
    rfl
  unfold readShifts
  rw [noted, List.foldl_map]
  generalize parser.shifts = shifts at ready
  have without : Parser.renumbered rename { parser with shifts := [] } aside =
      { parser.renumbered rename aside with shifts := [] } :=
    rfl
  rw [← without]
  have takenPosition : Parser.position { parser with shifts := [] } = word :=
    position
  have takenStore :
      (Parser.spans { parser with shifts := [] }).Renumbered rename
        aside.spans :=
    store
  generalize ({ parser with shifts := [] } : Parser) = current
    at taken ready takenPosition takenStore
  induction shifts generalizing current with
  | nil => rfl
  | cons shift rest inductionHypothesis =>
      obtain ⟨readSound, reads, -⟩ := taken.readShift wellFormed takenPosition
        (ready shift List.mem_cons_self)
      rw [List.foldl_cons, List.foldl_cons,
        readShift_renumbered taken renumbers takenStore]
      refine inductionHypothesis _ readSound (fun other member =>
          (ready other (List.mem_cons_of_mem _ member)).grows reads.grows
            taken.loaded.ordered)
        (reads.position.trans takenPosition) ?_
      rw [reads.only_stack]
      exact takenStore

theorem filterWord_renumbered
    (sound : parser.Sound host grammar options)
    (renumbers : Renumbers rename count)
    (store : parser.spans.Renumbered rename aside.spans) :
    (parser.renumbered rename aside).filterWord word =
      (parser.filterWord word).renumbered rename aside := by
  have filtered := @GraphStack.Rewrites.filterGreedily _ _ _ _ _ parser.compiled
    word (sound.rewrites renumbers store)
    (fun node listed => (sound.stack.reduced_known word node listed).1)
    parser.roots
  exact congrArg
    (fun result : GreedyResult =>
      { parser.renumbered rename aside with
        stack := result.stack, roots := result.roots })
    filtered

theorem finishWord_renumbered
    (wellFormed : grammar.WellFormed)
    (sound : parser.Sound host grammar options)
    (position : parser.position = word)
    (renumbers : Renumbers rename count)
    (store : parser.spans.Renumbered rename aside.spans) :
    (parser.renumbered rename aside).finishWord word =
      (parser.finishWord word).renumbered rename aside := by
  obtain ⟨readSound, reads, -⟩ := sound.readShifts wellFormed position
  have readStore : (parser.readShifts word).spans.Renumbered rename
      aside.spans := by
    rw [reads.only_stack]
    exact store
  have filtered := @filterWord_renumbered _ _ (parser.readShifts word) aside word
    _ _ _ _ readSound renumbers readStore
  have readOrFiltered :
      (if ((parser.readShifts word).renumbered rename aside).config.greedy then
          ((parser.readShifts word).renumbered rename aside).filterWord word
        else
          (parser.readShifts word).renumbered rename aside) =
        (if (parser.readShifts word).config.greedy then
            (parser.readShifts word).filterWord word
          else
            parser.readShifts word).renumbered rename aside := by
    rw [filtered, apply_ite (renumbered rename · aside)]
    rfl
  simp only [finishWord,
    readShifts_renumbered wellFormed sound position renumbers store,
    readOrFiltered]
  rfl

end Sound

end Parser

end SpanForest
