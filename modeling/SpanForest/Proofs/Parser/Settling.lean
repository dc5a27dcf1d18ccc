import SpanForest.Proofs.Parser.Attaching

namespace SpanForest

/-!
# Settling a word

The paths of a reduction spell the right-hand side of its rule, so what the
rule yields from them can be attached to the stack. A word is settled when no
node waits to act and no reduction waits to be tried, and the bound on the work
of a word is large enough to get there.
-/

namespace Parser

variable {σ : Type} {host : Host σ}
variable {grammar : Grammar} {options : CompileOptions} {word : Nat}
variable {before after parser : Parser}

/-- The state nodes on top of which a span goes that was reduced along nodes. -/
def basesOf
    (parser : Parser)
    (via : Option StateNodeId)
    (nodes : List SymbolNodeId) :
    List StateNodeId :=
  match via, nodes with
  | some node, [_] => [node]
  | _, _ => (parser.stack.symbolNode (nodes.headD 0)).children

/-- Nodes along which a rule can be reduced at a word. -/
structure Handle
    (word : Nat)
    (parser : Parser)
    (rule : RuleId)
    (via : Option StateNodeId)
    (nodes : List SymbolNodeId) : Prop where
  user : rule < parser.compiled.grammar.rules.size
  nonempty : nodes ≠ []
  symbols :
    nodes.map (fun node => (parser.stack.symbolNode node).symbol) =
      (parser.compiled.grammar.rule rule).symbols.map some
  known : ∀ node : Nat, node ∈ nodes → node < parser.stack.symbols.size
  top : ∀ last ∈ nodes.getLast?, (parser.stack.symbolNode last).word = some word
  low :
    ∀ node : Nat, node ∈ nodes → ∀ own : Nat,
      (parser.stack.symbolNode node).word = some own → own ≤ word
  linked : nodes.IsChain parser.stack.Linked
  live : ∀ node ∈ nodes, (parser.stack.symbolNode node).removed = false
  begun :
    ∃ holder, nodes.headD 0 ∈ (parser.stack.stateNode holder).children ∧
      ⟨rule, 1⟩ ∈ ((Automaton.ofGrammar parser.compiled.grammar).state
        (parser.stack.stateNode holder).state).items
  bases :
    parser.basesOf via nodes ⊆
      (parser.stack.symbolNode (nodes.headD 0)).children

/-- The ways from the anchor of a reduction that it takes, one by one. -/
def waysOf (parser : Parser) (reduction : Reduction) : List Reduction :=
  match reduction.via with
  | some _ => [reduction]
  | none =>
      (parser.stack.symbolNode reduction.anchor).children.map fun below =>
        { reduction with via := some below }

/--
A rule was applied to nodes: it was forbidden or declined, or what it yielded
stands on top of some state nodes.
-/
def Settled
    (host : Host σ)
    (word : Nat)
    (parser : Parser)
    (rule : Rule)
    (nodes : List SymbolNodeId)
    (bases : List StateNodeId) : Prop :=
  parser.Forbids host rule (parser.spansOf nodes) ∨
    parser.Declines host rule (parser.spansOf nodes) ∨
    ∃ id, parser.Accepts host rule (parser.spansOf nodes) id ∧
      ∀ below ∈ bases, parser.Rests word below rule.lhs id

theorem Handle.first
    {rule : RuleId}
    {via : Option StateNodeId}
    {nodes : List SymbolNodeId}
    (handle : parser.Handle word rule via nodes) :
    nodes.headD 0 ∈ nodes := by
  rw [List.headD_eq_head?_getD, List.head?_eq_some_head handle.nonempty]
  exact List.head_mem handle.nonempty

/-- A span goes on top of what lies below the nodes, or of a given node. -/
theorem mem_basesOf
    {via : Option StateNodeId}
    {nodes : List SymbolNodeId}
    {below : Nat}
    (member : below ∈ parser.basesOf via nodes) :
    below ∈ (parser.stack.symbolNode (nodes.headD 0)).children ∨
      ∀ other : Parser, below ∈ other.basesOf via nodes := by
  unfold basesOf at member
  split at member
  · exact .inr fun _ => member
  · exact .inl member

theorem Handle.grows
    {since : Nat}
    {table : PackedTable}
    {rule : RuleId}
    {via : Option StateNodeId}
    {nodes : List SymbolNodeId}
    (grows : before.Grows since after)
    (unharmed : before.stack.Unharmed after.stack)
    (consistent : after.stack.Consistent table)
    (handle : before.Handle word rule via nodes) :
    after.Handle word rule via nodes := by
  have known := handle.known
  constructor
  case user =>
    rw [grows.compiled]
    exact handle.user
  case nonempty => exact handle.nonempty
  case symbols =>
    rw [grows.compiled, ← handle.symbols]
    exact List.map_congr_left fun node member =>
      (grows.stack.symbol node (known node member)).symbol
  case known =>
    intro node member
    exact Nat.lt_of_lt_of_le (known node member) grows.stack.symbols_size
  case top =>
    intro last isLast
    rw [(grows.stack.symbol last
      (known last (List.mem_of_getLast? isLast))).word]
    exact handle.top last isLast
  case low =>
    intro node member own isOwn
    rw [(grows.stack.symbol node (known node member)).word] at isOwn
    exact handle.low node member own isOwn
  case linked =>
    refine handle.linked.imp_of_mem_imp fun left right _ rightMember linked => ?_
    exact grows.linked consistent (known right rightMember) linked
  case live =>
    intro node member
    exact (unharmed.symbol node (known node member)).2.trans
      (handle.live node member)
  case begun =>
    obtain ⟨holder, held, item⟩ := handle.begun
    have inside : holder < before.stack.states.size := by
      refine Nat.lt_of_not_le fun outside => ?_
      rw [GraphStack.stateNode_of_le outside] at held
      cases held
    have same := grows.stack.state holder inside
    refine ⟨holder, same.children held, ?_⟩
    rw [grows.compiled, same.state]
    exact item
  case bases =>
    have first := grows.stack.symbol _ (known _ handle.first)
    intro below member
    rcases after.mem_basesOf member with isBelow | isVia
    · exact isBelow
    · exact first.children (handle.bases (isVia before))

theorem Settled.grows
    {since : Nat}
    {table : PackedTable}
    {rule : Rule}
    {nodes : List SymbolNodeId}
    {bases : List StateNodeId}
    (sound : before.Sound host grammar options)
    (grows : before.Grows since after)
    (consistent : after.stack.Consistent table)
    (known : ∀ node : Nat, node ∈ nodes → node < before.stack.symbols.size)
    (inside : ∀ below : Nat, below ∈ bases → below < before.stack.states.size)
    (settled : before.Settled host word rule nodes bases) :
    after.Settled host word rule nodes bases := by
  have ordered := sound.loaded.ordered
  unfold Settled
  rw [grows.spansOf known]
  rcases settled with forbids | declines | ⟨id, accepts, rests⟩
  · exact .inl (forbids.grows grows ordered (sound.spansOf_known known))
  · exact .inr (.inl (declines.grows grows))
  · refine .inr (.inr ⟨id, accepts.grows grows, fun below member => ?_⟩)
    exact (rests below member).grows sound grows consistent (inside below member)
      accepts.committed

theorem Settled.of_subset
    {rule : Rule}
    {nodes : List SymbolNodeId}
    {bases more : List StateNodeId}
    (settled : parser.Settled host word rule nodes more)
    (subset : bases ⊆ more) :
    parser.Settled host word rule nodes bases :=
  settled.imp_right fun settled => settled.imp_right
    fun ⟨id, accepts, rests⟩ =>
      ⟨id, accepts, fun below member => rests below (subset member)⟩

/-- More may lie below the nodes as the parse goes on. -/
theorem Handle.basesOf_subset
    {since : Nat}
    {rule : RuleId}
    {via : Option StateNodeId}
    {nodes : List SymbolNodeId}
    (handle : before.Handle word rule via nodes)
    (grows : before.Grows since after) :
    before.basesOf via nodes ⊆ after.basesOf via nodes := by
  have first := grows.stack.symbol _ (handle.known _ handle.first)
  unfold basesOf
  split
  · exact List.Subset.refl _
  · exact first.children

/-- Nodes along which a rule was reduced later yielded what the host agreed to. -/
theorem Handle.yields_later
    {since : Nat}
    {rule : RuleId}
    {via : Option StateNodeId}
    {nodes : List SymbolNodeId}
    {id : Nat}
    (handle : before.Handle word rule via nodes)
    (grows : before.Grows since after)
    (unharmed : before.stack.Unharmed after.stack)
    (sound : after.Sound host grammar options)
    (permits :
      after.Permits host (grammar.rule rule) (before.spansOf nodes))
    (accepts :
      after.Accepts host (grammar.rule rule) (before.spansOf nodes) id) :
    after.Yields host ⟨rule, nodes⟩ (some word) id := by
  have later := handle.grows grows unharmed sound.stack
  rw [← grows.spansOf handle.known, ← sound.loaded.isGrammar] at permits accepts
  exact ⟨later.user, later.symbols, later.known, later.top, later.linked, permits,
    accepts⟩

/-- What was reduced along nodes can be put on top of what lies below them. -/
theorem Handle.attachable
    {rule : RuleId}
    {via : Option StateNodeId}
    {nodes : List SymbolNodeId}
    {id : Nat}
    (handle : parser.Handle word rule via nodes)
    (sound : parser.Sound host grammar options)
    (wellFormed : grammar.WellFormed)
    (yields : parser.Yields host ⟨rule, nodes⟩ (some word) id)
    {below : Nat}
    (isBase : below ∈ parser.basesOf via nodes) :
    parser.Attachable host word below ⟨rule, nodes⟩ id := by
  obtain ⟨holder, held, item⟩ := handle.begun
  have fits := sound.stack.fits_of_mem held
  obtain ⟨inside, ⟨own, isOwn, before⟩, symbol, -, leads⟩ :=
    fits.child below (handle.bases isBase)
  have le := handle.low _ handle.first own (fits.word.trans isOwn)
  constructor
  case inside => exact inside
  case before =>
    exact fun some isSome => Nat.lt_of_lt_of_le (before some isSome) le
  case yields => exact yields
  case live => exact handle.live
  case leads =>
    have user := handle.user
    rw [sound.loaded.compiled] at user item leads ⊢
    exact CompiledGrammar.exists_goto?_lhs wellFormed user
      (CompiledGrammar.reader_of_goto? wellFormed leads item).1
  case rests => exact handle.bases isBase

/-- What nodes yielded later can be put on top of what lay below them before. -/
theorem Handle.attachable_later
    {since : Nat}
    {rule : RuleId}
    {via : Option StateNodeId}
    {nodes : List SymbolNodeId}
    {id : Nat}
    (handle : before.Handle word rule via nodes)
    (wellFormed : grammar.WellFormed)
    (grows : before.Grows since after)
    (unharmed : before.stack.Unharmed after.stack)
    (sound : after.Sound host grammar options)
    (permits :
      after.Permits host (grammar.rule rule) (before.spansOf nodes))
    (accepts :
      after.Accepts host (grammar.rule rule) (before.spansOf nodes) id)
    {below : Nat}
    (isBase : below ∈ before.basesOf via nodes) :
    after.Attachable host word below ⟨rule, nodes⟩ id :=
  (handle.grows grows unharmed sound.stack).attachable sound wellFormed
    (handle.yields_later grows unharmed sound permits accepts)
    (handle.basesOf_subset grows isBase)

/-- The paths of a reduction can be reduced. -/
theorem Sound.handle
    (sound : parser.Sound host grammar options)
    (wellFormed : grammar.WellFormed)
    {reduction : Reduction}
    (ready : parser.ReductionReady word reduction)
    {path : List SymbolNodeId}
    (member :
      path ∈ parser.stack.paths reduction.anchor
        (parser.compiled.grammar.rule reduction.rule).length reduction.via) :
    parser.Handle word reduction.rule reduction.via path.reverse := by
  obtain ⟨user, anchorLive, ⟨holder, held, isWord, item⟩, through⟩ := ready
  have isGrammar : parser.compiled.grammar = grammar := sound.loaded.isGrammar
  have consistent := sound.stack
  rw [sound.loaded.compiled] at consistent
  have nonempty := wellFormed.length_pos
    (Grammar.mem_allRules.mpr (.inl (Grammar.rule_mem (isGrammar ▸ user))))
  rw [isGrammar] at member item
  obtain ⟨count, isCount⟩ : ∃ count,
      (grammar.rule reduction.rule).length = count + 1 :=
    ⟨_, (Nat.succ_pred_eq_of_pos nonempty).symm⟩
  rw [isCount] at member item
  have isPath := GraphStack.mem_pathsBelow_of_mem_paths member
  have startItem : (⟨reduction.rule, 0 + count + 1⟩ : Item) ∈
      ((Automaton.ofGrammar grammar).state
        (parser.stack.stateNode holder).state).items := by
    rw [Nat.zero_add]
    exact item
  obtain ⟨isHead, spells⟩ :=
    consistent.spells wellFormed held isWord startItem isPath
  have anchorWord := (consistent.fits_of_mem held).word.trans isWord
  have low := consistent.word_le_of_pathsBelow anchorWord isPath
  have symbols :
      path.reverse.map (fun node => (parser.stack.symbolNode node).symbol) =
        (parser.compiled.grammar.rule reduction.rule).symbols.map some := by
    rw [spells.symbols, isGrammar, List.drop_zero, List.take_of_length_le]
    rw [Rule.symbols, List.length_map]
    exact Nat.le_of_eq isCount
  constructor
  case user => exact user
  case nonempty =>
    intro isEmpty
    rw [List.reverse_eq_nil_iff.mp isEmpty] at isHead
    cases isHead
  case symbols => exact symbols
  case known =>
    intro node isNode
    refine Nat.lt_of_not_le fun outside => ?_
    have hasSymbol := symbols ▸ List.mem_map_of_mem isNode
    rw [GraphStack.symbolNode_of_le outside] at hasSymbol
    obtain ⟨symbol, -, isSymbol⟩ := List.mem_map.mp hasSymbol
    cases isSymbol
  case top =>
    intro last isLast
    rw [List.getLast?_reverse, isHead] at isLast
    rw [← Option.mem_some_iff.mp isLast]
    exact anchorWord
  case low =>
    intro node isNode
    exact low node (List.mem_reverse.mp isNode)
  case linked =>
    rw [List.isChain_reverse]
    exact spells.chain
  case live =>
    intro node isNode
    exact GraphStack.live_of_pathsBelow anchorLive isPath node
      (List.mem_reverse.mp isNode)
  case begun =>
    rw [List.headD_eq_head?_getD, List.head?_reverse, isGrammar]
    cases isLast : path.getLast? with
    | none =>
        rw [List.getLast?_eq_none_iff.mp isLast] at isHead
        cases isHead
    | some last => exact spells.begun last isLast
  case bases =>
    intro below isBase
    unfold basesOf at isBase
    split at isBase
    · rename_i node single isVia isSingle
      have isAnchor : single = reduction.anchor := by
        rw [← List.reverse_reverse path, isSingle] at isHead
        exact Option.some.inj isHead
      rw [List.mem_singleton.mp isBase, isSingle, isAnchor]
      exact through _ isVia
    · exact isBase

/-- What is kept while a word is worked on, and some ways are being tried. -/
structure Kept
    (host : Host σ)
    (grammar : Grammar)
    (options : CompileOptions)
    (word : Nat)
    (holds : List Reduction → Parser → Prop) : Prop where
  learns :
    ∀ {trying : List Reduction} {before after : Parser},
      before.Working host grammar options word → before.Learns after →
      after.Sound host grammar options →
      holds trying before → holds trying after
  attaches :
    ∀ {trying : List Reduction} {before : Parser} {below : Nat}
      {derivation : Derivation} {id : Nat},
      before.Working host grammar options word →
      before.Attachable host word below derivation id →
      holds trying before → holds trying (before.attach word below id derivation)
  acts :
    ∀ {before : Parser} {node : StateNodeId} {rest : List StateNodeId},
      before.Working host grammar options word →
      before.active = node :: rest → holds [] before →
      holds [] ({ before with active := rest }.act node)
  takes :
    ∀ {before : Parser} {reduction : Reduction} {rest : List Reduction},
      before.Working host grammar options word →
      before.active = [] → before.reductions = reduction :: rest →
      holds [] before →
      holds (before.waysOf reduction) { before with reductions := rest }
  tries :
    ∀ {before after : Parser} {reduction : Reduction},
      before.Working host grammar options word →
      before.ReductionReady word reduction → before.Proceeds word after →
      after.Working host grammar options word →
      (before.stack.Live → after.capped = true ∨
        ∀ path ∈ before.stack.paths reduction.anchor
            (grammar.rule reduction.rule).length reduction.via,
          after.Settled host word (grammar.rule reduction.rule)
            path.reverse (before.basesOf reduction.via path.reverse)) →
      holds (before.waysOf reduction) before →
      holds (before.waysOf reduction) after → holds [] after

/-- Nothing in particular is kept whatever is done. -/
theorem Kept.anything : Kept host grammar options word fun _ _ => True where
  learns _ _ _ _ := trivial
  attaches _ _ _ := trivial
  acts _ _ _ := trivial
  takes _ _ _ _ := trivial
  tries _ _ _ _ _ _ _ := trivial

/-- Work may be taken out. -/
theorem Working.drop
    (working : parser.Working host grammar options word)
    {active : List StateNodeId}
    {reductions : List Reduction}
    (lessActive : active <:+ parser.active)
    (lessReductions : reductions <:+ parser.reductions) :
    Parser.Working host grammar options word
        { parser with active := active, reductions := reductions } ∧
      parser.Proceeds word
        { parser with active := active, reductions := reductions } := by
  have proceeds : parser.Proceeds word
      { parser with active := active, reductions := reductions } := by
    refine ⟨{ Grows.refl word parser with }, rfl, rfl, Nat.le_refl _,
      Nat.le_refl _, ?_, id, .refl _⟩
    intro symbols states _ _
    have fewerActive := lessActive.length_le
    have fewerReductions := lessReductions.length_le
    simp only [Parser.weight, fresh]
    omega
  exact ⟨working.proceeds proceeds
    (working.sound.dropWork _ _ lessReductions.subset _)
    fun _ member => .inl (lessActive.subset member), proceeds⟩

end Parser

namespace Parsing

variable {σ : Type} {host : Host σ}
variable {grammar : Grammar} {options : CompileOptions} {mayStop : Prop}
variable {word : Nat} {parser : Parser}
variable {holds : List Reduction → Parser → Prop}

/-- What attaching keeps holds after attaching to several nodes. -/
theorem holds_attachAll
    (wellFormed : grammar.WellFormed)
    (kept : Parser.Kept host grammar options word holds)
    {trying : List Reduction}
    (working : parser.Working host grammar options word)
    {derivation : Derivation}
    {id : Nat}
    (below : List StateNodeId)
    (attachable : ∀ node ∈ below,
      parser.Attachable host word node derivation id)
    (isKept : holds trying parser) :
    holds trying (parser.attachAll word id derivation below) := by
  unfold Parser.attachAll
  induction below generalizing parser with
  | nil =>
      exact isKept
  | cons node rest inductionHypothesis =>
      rw [List.foldl_cons]
      have nodeAttachable := attachable node List.mem_cons_self
      split
      · exact inductionHypothesis working
          (fun other member => attachable other (List.mem_cons_of_mem _ member))
          isKept
      · obtain ⟨attached, proceeds, -⟩ := working.attach wellFormed nodeAttachable
        exact inductionHypothesis attached
          (fun other member =>
            (attachable other (List.mem_cons_of_mem _ member)).grows
              working.sound proceeds.grows proceeds.unharmed
              attached.sound.stack)
          (kept.attaches working nodeAttachable isKept)

/-- Behind a path that was settled the others are reduced, unless at the limit. -/
theorem ensures_reduceRest
    {trying : List Reduction}
    {rule : RuleId}
    {via : Option StateNodeId}
    {nodes : List SymbolNodeId}
    {rest : List (List SymbolNodeId)}
    {middle : Parser}
    (working : parser.Working host grammar options word)
    (handles : ∀ other ∈ nodes :: rest, parser.Handle word rule via other)
    (middleWorking : middle.Working host grammar options word)
    (proceeds : parser.Proceeds word middle)
    (isKept : holds trying middle)
    (settled :
      parser.stack.Live → middle.capped = true ∨
        middle.Settled host word (grammar.rule rule) nodes
          (parser.basesOf via nodes))
    (reduces :
      Ensures middle (reducePaths host word (grammar.rule rule) via rest)
        (fun _ after =>
          after.Working host grammar options word ∧
            middle.Proceeds word after ∧ holds trying after ∧
            (middle.stack.Live → after.capped = true ∨
              ∀ other ∈ rest,
                after.Settled host word (grammar.rule rule) other
                  (middle.basesOf via other)))
        (Stopped host grammar options mayStop)) :
    Ensures middle (do
        let current ← Parsing.parser
        if current.capped then
          return ()
        else
          reducePaths host word (grammar.rule rule) via rest)
      (fun _ after =>
        after.Working host grammar options word ∧
          parser.Proceeds word after ∧ holds trying after ∧
          (parser.stack.Live → after.capped = true ∨
            ∀ other ∈ nodes :: rest,
              after.Settled host word (grammar.rule rule) other
                (parser.basesOf via other)))
      (Stopped host grammar options mayStop) := by
  have grows := proceeds.grows
  have handle := handles nodes List.mem_cons_self
  have basesInside : ∀ below : Nat, below ∈ parser.basesOf via nodes →
      below < parser.stack.states.size := by
    intro below isBase
    obtain ⟨holder, fits⟩ :=
      working.sound.stack.fits _ (handle.known _ handle.first)
    exact (fits.child below (handle.bases isBase)).1
  refine ensures_get ?_
  split
  · rename_i capped
    exact .pure ⟨middleWorking, proceeds, isKept, fun _ => .inl capped⟩
  · rename_i notCapped
    refine reduces.imp ?_ fun _ stopped => stopped
    rintro _ after ⟨afterWorking, later, afterKept, restSettled⟩
    refine ⟨afterWorking, proceeds.trans later, afterKept, fun live => ?_⟩
    refine (restSettled (proceeds.unharmed.live live)).imp_right
      fun restSettled other member => ?_
    rcases List.mem_cons.mp member with rfl | inRest
    · refine ((settled live).resolve_left notCapped).grows middleWorking.sound
        later.grows afterWorking.sound.stack ?_ ?_
      · exact fun node isNode => Nat.lt_of_lt_of_le (handle.known node isNode)
          grows.stack.symbols_size
      · exact fun below isBase => Nat.lt_of_lt_of_le (basesInside below isBase)
          grows.stack.states_size
    · exact (restSettled other inRest).of_subset
        ((handles other member).basesOf_subset grows)

/-- Reducing a rule along paths settles them, unless the word is at its limit. -/
theorem ensures_reducePaths
    (terms : host.Terms grammar mayStop)
    (kept : Parser.Kept host grammar options word holds)
    {trying : List Reduction}
    {rule : RuleId}
    {via : Option StateNodeId}
    (user : rule < grammar.rules.size)
    (paths : List (List SymbolNodeId))
    (working : parser.Working host grammar options word)
    (handles : ∀ nodes ∈ paths, parser.Handle word rule via nodes)
    (isKept : holds trying parser) :
    Ensures parser (reducePaths host word (grammar.rule rule) via paths)
      (fun _ after =>
        after.Working host grammar options word ∧
          parser.Proceeds word after ∧ holds trying after ∧
          (parser.stack.Live → after.capped = true ∨
            ∀ nodes ∈ paths,
              after.Settled host word (grammar.rule rule) nodes
                (parser.basesOf via nodes)))
      (Stopped host grammar options mayStop) := by
  induction paths generalizing parser with
  | nil =>
      exact .pure ⟨working, .refl _ _, isKept, fun _ => .inr (by simp)⟩
  | cons nodes rest inductionHypothesis =>
      have handle := handles nodes List.mem_cons_self
      have isGrammar : parser.compiled.grammar = grammar :=
        working.sound.loaded.isGrammar
      have carried : ∀ {middle : Parser},
          middle.Working host grammar options word →
          parser.Proceeds word middle →
          ∀ other ∈ rest, middle.Handle word rule via other :=
        fun middleWorking proceeds other member =>
          (handles other (List.mem_cons_of_mem _ member)).grows proceeds.grows
            proceeds.unharmed middleWorking.sound.stack
      have known := working.sound.spansOf_known handle.known
      unfold reducePaths
      refine ensures_get (.bind (ensures_reducePath terms working.sound user
        known) ?_)
      rintro outcome reduced ⟨learns, reducedSound, isOutcome⟩
      have proceeds := learns.proceeds word
      have grows := proceeds.grows
      have reducedWorking := working.proceeds proceeds reducedSound
        fun _ member => .inl (learns.active ▸ member)
      have reducedKept := kept.learns working learns reducedSound isKept
      have isRule : (grammar.rule rule).id = rule :=
        terms.wellFormed.id_rule (Nat.le_of_lt user)
      cases outcome with
      | none =>
          refine ensures_reduceRest working handles reducedWorking proceeds
            reducedKept (fun _ => .inr ?_) (inductionHypothesis reducedWorking
              (carried reducedWorking proceeds) reducedKept)
          unfold Parser.Settled
          rw [grows.spansOf handle.known]
          exact isOutcome.imp_right .inl
      | some id =>
          obtain ⟨permits, accepts⟩ := isOutcome
          rw [isRule]
          have attachable : ∀ below ∈ parser.basesOf via nodes,
              reduced.Attachable host word below ⟨rule, nodes⟩ id :=
            fun below isBase => handle.attachable_later terms.wellFormed grows
              proceeds.unharmed reducedSound permits accepts isBase
          obtain ⟨attached, attaches, rests⟩ :=
            reducedWorking.attachAll terms.wellFormed _ attachable
          have attachedKept := holds_attachAll terms.wellFormed kept
            reducedWorking _ attachable reducedKept
          have both := proceeds.trans attaches
          have stillAccepts := accepts.grows attaches.grows
          rw [← both.grows.spansOf handle.known] at stillAccepts
          refine ensures_modify (ensures_reduceRest working handles attached both
            attachedKept (fun live => ?_) (inductionHypothesis attached
              (carried attached both) attachedKept))
          exact (rests (proceeds.unharmed.live live)).imp_right fun rests =>
            .inr (.inr ⟨id, stillAccepts, rests⟩)

/-- Trying a reduction settles its paths, unless the word is at its limit. -/
theorem ensures_reduce
    (terms : host.Terms grammar mayStop)
    (kept : Parser.Kept host grammar options word holds)
    {trying : List Reduction}
    (working : parser.Working host grammar options word)
    {reduction : Reduction}
    (ready : parser.ReductionReady word reduction)
    (isKept : holds trying parser) :
    Ensures parser (reduce host word reduction)
      (fun _ after =>
        after.Working host grammar options word ∧
          parser.Proceeds word after ∧ holds trying after ∧
          (parser.stack.Live → after.capped = true ∨
            ∀ path ∈ parser.stack.paths reduction.anchor
                (grammar.rule reduction.rule).length reduction.via,
              after.Settled host word (grammar.rule reduction.rule)
                path.reverse (parser.basesOf reduction.via path.reverse)))
      (Stopped host grammar options mayStop) := by
  have isGrammar : parser.compiled.grammar = grammar :=
    working.sound.loaded.isGrammar
  unfold reduce
  refine ensures_get ?_
  split
  · rename_i capped
    exact .pure ⟨working, .refl _ _, isKept, fun _ => .inl capped⟩
  · have handle := fun path =>
      @Parser.Sound.handle _ _ _ _ _ _ working.sound terms.wellFormed _ ready path
    simp only [isGrammar] at handle ⊢
    refine (ensures_reducePaths terms kept (isGrammar ▸ ready.user) _ working
      ?_ isKept).imp ?_ fun _ stopped => stopped
    · intro nodes member
      obtain ⟨path, isPath, rfl⟩ := List.mem_map.mp member
      exact handle path isPath
    · rintro _ after ⟨afterWorking, proceeds, afterKept, settled⟩
      refine ⟨afterWorking, proceeds, afterKept, fun live => ?_⟩
      exact (settled live).imp_right fun settled path isPath =>
        settled _ (List.mem_map_of_mem isPath)

/-- Enough fuel settles a word. -/
theorem ensures_settle
    (terms : host.Terms grammar mayStop)
    (kept : Parser.Kept host grammar options word holds)
    (working : parser.Working host grammar options word)
    (isKept : holds [] parser)
    (symbols states fuel : Nat)
    (symbolsFit : parser.stack.symbols.size + parser.fresh word ≤ symbols)
    (statesFit : parser.stack.states.size + parser.fresh word ≤ states)
    (enough : parser.weight word symbols states < fuel) :
    Ensures parser (settle host word fuel)
      (fun _ after =>
        after.Working host grammar options word ∧
          parser.Proceeds word after ∧ holds [] after ∧
          after.active = [] ∧ after.reductions = [])
      (Stopped host grammar options mayStop) := by
  induction fuel generalizing parser with
  | zero => exact absurd enough (Nat.not_lt_zero _)
  | succ fuel inductionHypothesis =>
      unfold settle
      refine ensures_get ?_
      split
      · rename_i node rest isActive
        obtain ⟨taken, takes⟩ := working.drop
          (isActive ▸ List.suffix_cons node rest) (List.suffix_refl _)
        have lighter : Parser.weight
            { parser with active := rest } word symbols states + 1 =
            parser.weight word symbols states := by
          simp only [Parser.weight, isActive, List.length_cons, Parser.fresh]
          omega
        have actsKept := kept.acts working isActive isKept
        have isNode : node = GraphStack.startNode ∨
            node ∈ (Parser.stack { parser with active := rest }
              |>.layer word).nodes :=
          working.active node (isActive ▸ List.mem_cons_self)
        refine ensures_modify ?_
        generalize ({ parser with active := rest } : Parser) = light
          at taken takes lighter actsKept isNode ⊢
        obtain ⟨acted, acts⟩ := taken.act terms.wellFormed isNode
        have actsLight := acts.weight symbols states
          (Nat.le_trans takes.symbols symbolsFit)
          (Nat.le_trans takes.states statesFit)
        have both := takes.trans acts
        refine (inductionHypothesis acted actsKept
          (Nat.le_trans both.symbols symbolsFit)
          (Nat.le_trans both.states statesFit) (by omega)).imp ?_
          fun _ stopped => stopped
        rintro _ after ⟨afterWorking, later, settled⟩
        exact ⟨afterWorking, both.trans later, settled⟩
      · rename_i reduction rest noneActive isNext
        obtain ⟨taken, takes⟩ := working.drop (List.suffix_refl _)
          (isNext ▸ List.suffix_cons reduction rest)
        have lighter : Parser.weight
            { parser with reductions := rest } word symbols states + 1 =
            parser.weight word symbols states := by
          simp only [Parser.weight, isNext, List.length_cons, Parser.fresh]
          omega
        have takenKept := kept.takes working noneActive isNext isKept
        have sameWays : parser.waysOf reduction =
            Parser.waysOf { parser with reductions := rest } reduction :=
          rfl
        rw [sameWays] at takenKept
        have ready : Parser.ReductionReady { parser with reductions := rest }
            word reduction := by
          rw [← working.position]
          exact (working.sound.reductions reduction
            (isNext ▸ List.mem_cons_self)).grows takes.grows takes.unharmed
              working.sound.stack
        refine ensures_modify ?_
        generalize ({ parser with reductions := rest } : Parser) = light
          at taken takes lighter takenKept ready ⊢
        refine .bind (ensures_reduce terms kept taken ready takenKept) ?_
        rintro _ tried ⟨triedWorking, tries, triedKept, settled⟩
        have triedLight := tries.weight symbols states
          (Nat.le_trans takes.symbols symbolsFit)
          (Nat.le_trans takes.states statesFit)
        have both := takes.trans tries
        refine (inductionHypothesis triedWorking
          (kept.tries taken ready tries triedWorking settled takenKept triedKept)
          (Nat.le_trans both.symbols symbolsFit)
          (Nat.le_trans both.states statesFit) (by omega)).imp ?_
          fun _ stopped => stopped
        rintro _ after ⟨afterWorking, later, rested⟩
        exact ⟨afterWorking, both.trans later, rested⟩
      · rename_i noneActive noneLeft
        exact .pure ⟨working, .refl _ _, isKept, noneActive, noneLeft⟩

end Parsing

end SpanForest
