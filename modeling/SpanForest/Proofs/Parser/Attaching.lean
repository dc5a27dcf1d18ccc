import SpanForest.Proofs.Parser.Working
import SpanForest.Proofs.Stack.Growth

namespace SpanForest

/-!
# Attaching produced spans

A span that a derivation yielded is put on top of a state node. If an equivalent
span stands there the derivation is packed into it, otherwise a new node grows.
Either way what is then on top of the state node accounts for the derivation,
unless the word has reached its limit.
-/

namespace Parser

variable {σ : Type} {host : Host σ}
variable {grammar : Grammar} {options : CompileOptions} {word : Nat}
variable {before after parser : Parser}

/--
A span that a derivation yielded, to be put on top of an earlier state node, from
which the table leads on by the symbol of the derivation.
-/
structure Attachable
    (host : Host σ)
    (word : Nat)
    (parser : Parser)
    (below : Nat)
    (derivation : Derivation)
    (id : Nat) : Prop where
  inside : below < parser.stack.states.size
  before : WordBefore (parser.stack.stateNode below).word word
  yields : parser.Yields host derivation (some word) id
  live :
    ∀ child ∈ derivation.children,
      (parser.stack.symbolNode child).removed = false
  leads :
    ∃ goto,
      parser.compiled.table.goto? (parser.stack.stateNode below).state
          (parser.compiled.grammar.rule derivation.rule).lhs =
        some goto
  rests :
    below ∈ (parser.stack.symbolNode (derivation.children.headD 0)).children

/-- A span stands on top of a state node, or one that is equivalent to it does. -/
structure RestsOn
    (parser : Parser)
    (word below : Nat)
    (goto : StateId)
    (id top node : Nat) : Prop where
  listed : top ∈ (parser.stack.layer word).nodes
  state : (parser.stack.stateNode top).state = goto
  held : node ∈ (parser.stack.stateNode top).children
  below : below ∈ (parser.stack.symbolNode node).children
  span :
    (parser.stack.symbolNode node).span = id ∨
      (parser.spans.get (parser.stack.symbolNode node).span).equivalent
        (parser.spans.get id) = true

/-- A span stands on top of a state node wherever its symbol leads to. -/
def Rests (parser : Parser) (word below : Nat) (lhs : SymbolId) (id : Nat) : Prop :=
  ∀ goto,
    parser.compiled.table.goto? (parser.stack.stateNode below).state lhs =
        some goto →
      ∃ top node, parser.RestsOn word below goto id top node

theorem Attachable.grows
    {since : Nat}
    (sound : before.Sound host grammar options)
    (grows : before.Grows since after)
    (unharmed : before.stack.Unharmed after.stack)
    {table : PackedTable}
    (consistent : after.stack.Consistent table)
    {below : Nat}
    {derivation : Derivation}
    {id : Nat}
    (attachable : before.Attachable host word below derivation id) :
    after.Attachable host word below derivation id := by
  have same := grows.stack.state below attachable.inside
  constructor
  case inside =>
    exact Nat.lt_of_lt_of_le attachable.inside grows.stack.states_size
  case before =>
    rw [same.word]
    exact attachable.before
  case yields =>
    exact attachable.yields.grows grows sound.loaded.ordered consistent
      fun node inside => (sound.forest node inside).span_known
  case live =>
    intro child isChild
    have inside := attachable.yields.known child isChild
    exact (unharmed.symbol child inside).2.trans (attachable.live child isChild)
  case leads =>
    rw [grows.compiled, same.state]
    exact attachable.leads
  case rests =>
    have inside : derivation.children.headD 0 < before.stack.symbols.size := by
      refine Nat.lt_of_not_le fun outside => ?_
      have rests := attachable.rests
      rw [GraphStack.symbolNode_of_le outside] at rests
      cases rests
    exact (grows.stack.symbol _ inside).children attachable.rests

theorem RestsOn.grows
    {since : Nat}
    (sound : before.Sound host grammar options)
    (grows : before.Grows since after)
    {table : PackedTable}
    (consistent : after.stack.Consistent table)
    {below top node : Nat}
    {goto : StateId}
    {id : Nat}
    (committed : id < before.spans.size)
    (rests : before.RestsOn word below goto id top node) :
    after.RestsOn word below goto id top node := by
  obtain ⟨inside, isWord⟩ :=
    (sound.stack.mem_layer top word).mp rests.listed
  have nodeInside := sound.stack.child_known top node rests.held
  have sameTop := grows.stack.state top inside
  have sameNode := grows.stack.symbol node nodeInside
  constructor
  case listed =>
    exact (consistent.mem_layer top word).mpr
      ⟨Nat.lt_of_lt_of_le inside grows.stack.states_size,
        sameTop.word.trans isWord⟩
  case state => exact sameTop.state.trans rests.state
  case held => exact sameTop.children rests.held
  case below => exact sameNode.children rests.below
  case span =>
    rw [sameNode.span, (grows.spans.get
      (sound.forest node nodeInside).span_known).2,
      (grows.spans.get committed).2]
    exact rests.span

theorem Rests.grows
    {since : Nat}
    (sound : before.Sound host grammar options)
    (grows : before.Grows since after)
    {table : PackedTable}
    (consistent : after.stack.Consistent table)
    {below : Nat}
    (inside : below < before.stack.states.size)
    {lhs : SymbolId}
    {id : Nat}
    (committed : id < before.spans.size)
    (rests : before.Rests word below lhs id) :
    after.Rests word below lhs id := by
  intro goto leads
  rw [grows.compiled, (grows.stack.state below inside).state] at leads
  obtain ⟨top, node, restsOn⟩ := rests goto leads
  exact ⟨top, node, restsOn.grows sound grows consistent committed⟩

/-- The symbol that leads to the holder of a node is that of the node. -/
theorem Sound.symbol_of_leads
    (sound : parser.Sound host grammar options)
    (wellFormed : grammar.WellFormed)
    {top node : Nat}
    (held : node ∈ (parser.stack.stateNode top).children)
    {state : StateId}
    {symbol : SymbolId}
    (leads :
      parser.compiled.table.goto? state symbol =
        some (parser.stack.stateNode top).state) :
    (parser.stack.symbolNode node).symbol = some symbol := by
  have fits := sound.stack.fits_of_mem held
  obtain ⟨child, isChild⟩ := List.exists_mem_of_ne_nil _ fits.supported
  obtain ⟨-, -, own, isOwn, ownLeads⟩ := fits.child child isChild
  rw [sound.loaded.compiled] at leads ownLeads
  rw [isOwn, CompiledGrammar.goto?_symbol_unique wellFormed ownLeads leads]

/-- What was read is of a terminal. -/
theorem Readable.terminal
    (loaded : parser.Loaded grammar options)
    (wellFormed : grammar.WellFormed)
    {id : Nat}
    {symbol : SymbolId}
    (readable : parser.Readable host id symbol) :
    grammar.isNonterminal symbol = false := by
  cases readable with
  | input member isSymbol =>
      exact (loaded.input_terminal id member symbol isSymbol).1
  | synthesized synthesizes =>
      have declared := synthesizes.declared
      rw [loaded.compiled] at declared
      exact (wellFormed.synthesized_terminal declared).1

/-- A node of a nonterminal was not read. -/
theorem Sound.not_shifted
    (sound : parser.Sound host grammar options)
    (wellFormed : grammar.WellFormed)
    {node : Nat}
    (inside : node < parser.stack.symbols.size)
    {symbol : SymbolId}
    (nonterminal : grammar.isNonterminal symbol = true)
    (isSymbol : (parser.stack.symbolNode node).symbol = some symbol) :
    ¬ parser.Shifted node := by
  intro shifted
  obtain ⟨-, own, isOwn, readable⟩ :=
    (sound.forest node inside).shifted shifted
  have terminal := readable.terminal sound.loaded wellFormed
  rw [isSymbol] at isOwn
  rw [Option.some.inj isOwn, terminal] at nonterminal
  cases nonterminal

section Extended

variable {stack : GraphStack} {node below id : Nat} {derivation : Derivation}

/-- Extending a node uses up nothing. -/
theorem proceeds_nodeExtended
    (extended :
      GraphStack.NodeExtended word node derivation below parser.stack stack) :
    parser.Proceeds word { parser with stack := stack } := by
  have sameFresh : Parser.fresh { parser with stack := stack } word =
      parser.fresh word := by
    simp only [Parser.fresh, extended.sameLayer]
  constructor
  case grows => exact { Grows.refl word parser with stack := extended.grows }
  case position => rfl
  case candidates => rfl
  case symbols => rw [sameFresh, extended.symbols]
  case states => rw [sameFresh, extended.states]
  case weight =>
    intro symbols states _ _
    simp only [Parser.weight, sameFresh, Nat.le_refl]
  case capped => exact fun isCapped => isCapped
  case unharmed => exact extended.unharmed

/-- A derivation from live nodes does no harm to the node that gets it. -/
theorem carries_nodeExtended
    (extended :
      GraphStack.NodeExtended word node derivation below parser.stack stack)
    (live :
      ∀ child ∈ derivation.children,
        (parser.stack.symbolNode child).removed = false) :
    parser.Carries { parser with stack := stack } := by
  have grows := (proceeds_nodeExtended extended).grows
  constructor
  case unharmed => exact extended.unharmed
  case spared =>
    intro dropped spares
    refine spares.grows grows (fun _ => extended.unharmed.removed) ?_ ?_
    · intro other held member
      rcases (extended.derivations other held).mp member with old | ⟨-, isNew⟩
      · exact .inl old
      · exact .inr (isNew ▸ live)
    · intro other inside _ isEmpty
      refine ⟨extended.symbols ▸ inside,
        List.eq_nil_iff_forall_not_mem.mpr fun held member => ?_⟩
      have after := (extended.derivations other held).mpr (.inl member)
      rw [isEmpty] at after
      cases after
  case bounded =>
    intro bounded own
    rw [extended.sameLayer]
    exact bounded own
  case rooted =>
    intro rooted other
    by_cases inside : other < parser.stack.symbols.size
    · exact (rooted other).trans
        (IsRoot.iff_grows grows extended.unharmed inside).symm
    · exact ⟨fun isRoot => absurd ((rooted other).mp isRoot).inside inside,
        fun isRoot => absurd (extended.symbols ▸ isRoot.inside) inside⟩

/-- The node that gets a derivation is accounted for if that yielded its span. -/
theorem Sound.accounted_nodeExtended
    (wellFormed : grammar.WellFormed)
    (sound : parser.Sound host grammar options)
    (attachable : parser.Attachable host word below derivation id)
    (extended :
      GraphStack.NodeExtended word node derivation below parser.stack stack)
    (consistent : stack.Consistent parser.compiled.table)
    (inside : node < parser.stack.symbols.size)
    (isSymbol :
      (parser.stack.symbolNode node).symbol =
        some (parser.compiled.grammar.rule derivation.rule).lhs)
    (isWord : (parser.stack.symbolNode node).word = some word)
    (isSpan :
      (parser.stack.symbolNode node).span = id ∨
        (parser.spans.get (parser.stack.symbolNode node).span).equivalent
          (parser.spans.get id) = true) :
    Parser.Accounted host { parser with stack := stack } node := by
  have ordered := sound.loaded.ordered
  have isGrammar : parser.compiled.grammar = grammar := sound.loaded.isGrammar
  have grows := (proceeds_nodeExtended extended).grows
  have spanKnown := fun own known => (sound.forest own known).span_known
  have accounted := sound.forest node inside
  have same := grows.stack.symbol node inside
  have user := isGrammar ▸ attachable.yields.user
  have notShifted := sound.not_shifted wellFormed inside
    (wellFormed.lhs_nonterminal (Grammar.rule_mem user)).1
    (isGrammar ▸ isSymbol)
  constructor
  case span_known =>
    rw [same.span]
    exact accounted.span_known
  case shifted =>
    intro shifted
    exact absurd ((Shifted.iff_grows grows inside).mp shifted) notShifted
  case justified =>
    intro held member
    rcases (extended.derivations node held).mp member with old | ⟨-, isNew⟩
    · exact (accounted.justified held old).grows grows ordered consistent
        inside spanKnown
    · subst isNew
      refine Justifies.grows grows ordered consistent inside spanKnown ?_
      exact ⟨isSymbol, id, isWord ▸ attachable.yields, isSpan⟩
  case born =>
    intro _
    obtain ⟨birth, isBirth, yields, earlier⟩ := accounted.born notShifted
    rw [same.symbol, same.word, same.span]
    exact ⟨birth, isBirth, yields.grows grows ordered consistent spanKnown,
      earlier⟩

/-- A node that gets a derivation that yielded its span. -/
theorem Working.extendNode
    (wellFormed : grammar.WellFormed)
    (working : parser.Working host grammar options word)
    {top : Nat}
    (attachable : parser.Attachable host word below derivation id)
    (listed : top ∈ (parser.stack.layer word).nodes)
    (held : node ∈ (parser.stack.stateNode top).children)
    (leads :
      parser.compiled.table.goto? (parser.stack.stateNode below).state
          (parser.compiled.grammar.rule derivation.rule).lhs =
        some (parser.stack.stateNode top).state)
    (isSpan :
      (parser.stack.symbolNode node).span = id ∨
        (parser.spans.get (parser.stack.symbolNode node).span).equivalent
          (parser.spans.get id) = true) :
    Parser.Working host grammar options word
        { parser with
          stack := (parser.stack.extendNode node derivation below).2 } ∧
      parser.Proceeds word
        { parser with
          stack := (parser.stack.extendNode node derivation below).2 } ∧
      Parser.RestsOn
        { parser with
          stack := (parser.stack.extendNode node derivation below).2 }
        word below (parser.stack.stateNode top).state id top node := by
  have sound := working.sound
  have isWord := ((sound.stack.mem_layer top word).mp listed).2
  have nodeInside := sound.stack.child_known top node held
  have isSymbol := sound.symbol_of_leads wellFormed held leads
  have nodeWord : (parser.stack.symbolNode node).word = some word :=
    (sound.stack.fits_of_mem held).word.trans isWord
  obtain ⟨consistent, extended⟩ := sound.stack.extendNode held
    attachable.inside isWord attachable.before ⟨_, isSymbol, leads⟩ derivation
  generalize (parser.stack.extendNode node derivation below).2 = stack
    at consistent extended ⊢
  have proceeds : parser.Proceeds word { parser with stack := stack } :=
    proceeds_nodeExtended extended
  have forest : Parser.Forest host { parser with stack := stack } := by
    intro other inside
    rw [extended.symbols] at inside
    by_cases isNode : other = node
    · exact isNode ▸ sound.accounted_nodeExtended wellFormed attachable extended
        consistent nodeInside isSymbol nodeWord isSpan
    · refine Accounted.grows sound.forest proceeds.grows sound.loaded.ordered
        consistent inside fun held => ?_
      simp [extended.derivations other held, isNode]
  have afterSound : Parser.Sound host { parser with stack := stack }
      grammar options :=
    sound.sameMemory working.position proceeds.grows ⟨rfl, rfl, rfl, rfl, rfl⟩
      consistent forest (carries_nodeExtended extended attachable.live)
      (fun _ queued => .inl queued) fun _ noted => .inl noted
  refine ⟨working.proceeds proceeds afterSound fun _ member => .inl member,
    proceeds, ?_⟩
  constructor
  case listed => rw [extended.sameLayer]; exact listed
  case state => rw [extended.sameState]
  case held => rw [extended.sameState]; exact held
  case below => exact (extended.children node below).mpr (.inr ⟨rfl, rfl⟩)
  case span =>
    rw [(proceeds.grows.stack.symbol node nodeInside).span]
    exact isSpan

end Extended

/-- Packing queues the reductions that lead through a link that is new. -/
theorem pack_eq
    (node : SymbolNodeId)
    (below : StateNodeId)
    (goto : StateId)
    (derivation : Derivation) :
    parser.pack node below goto derivation =
      if (parser.stack.extendNode node derivation below).1 then
        ((Parser.lookaheadRules { parser with
            stack := (parser.stack.extendNode node derivation below).2 }
          goto).map fun rule => Reduction.mk rule node (some below)).foldl
          queueReduction { parser with
            stack := (parser.stack.extendNode node derivation below).2 }
      else
        { parser with
          stack := (parser.stack.extendNode node derivation below).2 } := by
  rw [List.foldl_map]
  rfl

/-- Packing a derivation into a node on top of one more state node. -/
theorem Working.pack
    (wellFormed : grammar.WellFormed)
    (working : parser.Working host grammar options word)
    {top node below : Nat}
    {derivation : Derivation}
    {id : Nat}
    (attachable : parser.Attachable host word below derivation id)
    (listed : top ∈ (parser.stack.layer word).nodes)
    (held : node ∈ (parser.stack.stateNode top).children)
    (live : (parser.stack.symbolNode node).removed = false)
    (leads :
      parser.compiled.table.goto? (parser.stack.stateNode below).state
          (parser.compiled.grammar.rule derivation.rule).lhs =
        some (parser.stack.stateNode top).state)
    (isSpan :
      (parser.stack.symbolNode node).span = id ∨
        (parser.spans.get (parser.stack.symbolNode node).span).equivalent
          (parser.spans.get id) = true) :
    (parser.pack node below (parser.stack.stateNode top).state
        derivation).Working host grammar options word ∧
      parser.Proceeds word (parser.pack node below
        (parser.stack.stateNode top).state derivation) ∧
      (parser.pack node below (parser.stack.stateNode top).state
        derivation).RestsOn word below (parser.stack.stateNode top).state id
          top node := by
  obtain ⟨extended, proceeds, rests⟩ := working.extendNode wellFormed attachable
    listed held leads isSpan
  have nodeInside := working.sound.stack.child_known top node held
  have stillLive := (proceeds.unharmed.symbol node nodeInside).2.trans live
  rw [pack_eq]
  split
  · generalize ({ parser with
      stack := (parser.stack.extendNode node derivation below).2 } : Parser) =
        packed at extended proceeds rests stillLive ⊢
    have isGrammar : packed.compiled.grammar = grammar :=
      extended.sound.loaded.isGrammar
    have ready : ∀ reduction ∈
        (packed.lookaheadRules (parser.stack.stateNode top).state).map
          (fun rule => Reduction.mk rule node (some below)),
        packed.ReductionReady word reduction := by
      intro reduction member
      obtain ⟨rule, isRule, rfl⟩ := List.mem_map.mp member
      obtain ⟨user, item⟩ :=
        extended.sound.loaded.complete_of_mem_lookaheadRules wellFormed isRule
      have isWord :=
        ((extended.sound.stack.mem_layer top word).mp rests.listed).2
      refine ⟨isGrammar.symm ▸ user, stillLive,
        ⟨top, rests.held, isWord, ?_⟩, ?_⟩
      · rw [isGrammar, rests.state]
        exact item
      · intro own isOwn
        cases isOwn
        exact rests.below
    obtain ⟨queuedWorking, queues⟩ := extended.queueAll _ ready
    exact ⟨queuedWorking, proceeds.trans queues,
      rests.grows extended.sound queues.grows queuedWorking.sound.stack
        (proceeds.grows.spans.get attachable.yields.accepted.committed).1⟩
  · exact ⟨extended, proceeds, rests⟩

/-- Marking a state node as active or not does not matter to soundness. -/
theorem Sound.setActive
    (sound : parser.Sound host grammar options)
    (node : Nat)
    (mark : Bool)
    (active : List StateNodeId) :
    (∀ since : Nat, parser.Grows since
        { parser with
          stack := parser.stack.setActive node mark
          active := active }) ∧
      Parser.Sound host
        { parser with
          stack := parser.stack.setActive node mark
          active := active }
        grammar options := by
  have shape : parser.stack.SameShape (parser.stack.setActive node mark) :=
    GraphStack.sameShape_setActive node mark
  have consistent := shape.consistent sound.stack
  have grows : ∀ since : Nat, parser.Grows since
      { parser with
        stack := parser.stack.setActive node mark
        active := active } :=
    fun since =>
      { Grows.refl since parser with stack := shape.extends since }
  refine ⟨grows, sound.sameMemory rfl (grows 0) ⟨rfl, rfl, rfl, rfl, rfl⟩ consistent
    ?_ ((grows 0).carries (GraphStack.unharmed_setActive node mark) rfl
      (fun _ => rfl) (fun _ => rfl) rfl)
    (fun _ queued => .inl queued) fun _ noted => .inl noted⟩
  intro other inside
  exact Accounted.grows sound.forest (grows 0) sound.loaded.ordered consistent
    inside (List.Subset.refl _)

section Grown

variable {stack : GraphStack} {goto : StateId} {content : SymbolNode}
variable {below id top : Nat} {derivation : Derivation}
variable {roots : List SymbolNodeId}

theorem grows_nodeGrown
    (grown :
      GraphStack.NodeGrown word goto content top parser.stack stack) :
    parser.Grows word { parser with stack := stack, roots := roots } :=
  { Grows.refl word parser with stack := grown.grows }

/-- A node that has grown is listed as reduced, so it was not read. -/
theorem not_shifted_nodeGrown
    (roots : List SymbolNodeId)
    (grown :
      GraphStack.NodeGrown word goto content top parser.stack stack) :
    ¬ Parser.Shifted { parser with stack := stack, roots := roots }
      parser.stack.symbols.size := by
  intro shifted
  refine shifted word ?_
  rw [grown.reduced, if_pos rfl]
  exact List.mem_append_right _ List.mem_cons_self

/-- The node that has grown is a root if its symbol is the start symbol. -/
theorem Rooted.nodeGrown
    (rooted : parser.Rooted)
    {lhs : SymbolId}
    (grown : GraphStack.NodeGrown word goto content top parser.stack stack)
    (isSymbol : content.symbol = some lhs)
    (isLive : content.removed = false)
    (isRoots :
      roots =
        if lhs = parser.compiled.grammar.start then
          parser.roots ++ [parser.stack.symbols.size]
        else
          parser.roots) :
    Parser.Rooted { parser with stack := stack, roots := roots } := by
  intro other
  have isContent := grown.symbol parser.stack.symbols.size
  rw [if_pos rfl] at isContent
  rcases Nat.lt_trichotomy other parser.stack.symbols.size with
    old | isNew | outside
  · rw [IsRoot.iff_grows (grows_nodeGrown grown) (grown.unharmed isLive) old,
      ← rooted other]
    simp only [isRoots]
    split <;> simp [Nat.ne_of_lt old]
  · have unlisted : other ∉ parser.roots := fun listed =>
      Nat.lt_irrefl _ (isNew ▸ ((rooted other).mp listed).inside)
    subst isNew
    simp only [isRoots]
    split
    · rename_i isStart
      refine ⟨fun _ => ⟨?_, not_shifted_nodeGrown roots grown, ?_, ?_⟩,
        fun _ => by simp⟩
      · rw [grown.symbols]
        exact Nat.lt_succ_self _
      · rw [isContent, isSymbol]
        exact congrArg some isStart
      · rw [isContent]
        exact isLive
    · rename_i notStart
      refine ⟨fun listed => absurd listed unlisted, fun isRoot => ?_⟩
      have isStart := isRoot.symbol
      rw [isContent, isSymbol] at isStart
      exact absurd (Option.some.inj isStart) notStart
  · refine ⟨fun listed => ?_, fun isRoot => ?_⟩
    · simp only [isRoots] at listed
      split at listed
      · rcases List.mem_append.mp listed with old | isNew
        · have inside := ((rooted other).mp old).inside
          omega
        · have same := List.mem_singleton.mp isNew
          omega
      · have inside := ((rooted other).mp listed).inside
        omega
    · have inside := isRoot.inside
      rw [grown.symbols] at inside
      omega

/-- A node that grows from a derivation from live nodes does no harm. -/
theorem carries_nodeGrown
    {lhs : SymbolId}
    (grown :
      GraphStack.NodeGrown word goto
        ⟨id, some lhs, some word, [below], [derivation], false⟩ top
        parser.stack stack)
    (live :
      ∀ child ∈ derivation.children,
        (parser.stack.symbolNode child).removed = false)
    (room :
      (parser.stack.layer word).reduced.length < parser.config.maxReduced)
    (isRoots :
      roots =
        if lhs = parser.compiled.grammar.start then
          parser.roots ++ [parser.stack.symbols.size]
        else
          parser.roots) :
    parser.Carries { parser with stack := stack, roots := roots } := by
  have unharmed := grown.unharmed rfl
  constructor
  case unharmed => exact unharmed
  case spared =>
    intro dropped spares
    refine spares.grows (grows_nodeGrown grown) (fun _ => unharmed.removed)
      ?_ ?_
    · intro other held member
      rw [grown.symbol] at member
      split at member
      · exact .inr (List.mem_singleton.mp member ▸ live)
      · exact .inl member
    · intro other inside _ isEmpty
      rw [grown.symbol] at isEmpty
      split at isEmpty
      · cases isEmpty
      · rename_i old
        rw [grown.symbols] at inside
        exact ⟨Nat.lt_of_le_of_ne (Nat.le_of_lt_succ inside) old, isEmpty⟩
  case bounded =>
    intro bounded own
    rw [grown.reduced]
    split
    · rw [List.length_append, List.length_singleton]
      exact room
    · exact bounded own
  case rooted => exact fun rooted => rooted.nodeGrown grown rfl rfl isRoots

/-- What grew from a derivation that yielded its span is accounted for. -/
theorem Sound.forest_nodeGrown
    (sound : parser.Sound host grammar options)
    (attachable : parser.Attachable host word below derivation id)
    (grown :
      GraphStack.NodeGrown word goto
        ⟨id, some (parser.compiled.grammar.rule derivation.rule).lhs, some word,
          [below], [derivation], false⟩
        top parser.stack stack)
    (consistent : stack.Consistent parser.compiled.table) :
    Parser.Forest host { parser with stack := stack, roots := roots } := by
  intro other inside
  have ordered := sound.loaded.ordered
  have grows : parser.Grows word
      { parser with stack := stack, roots := roots } :=
    grows_nodeGrown grown
  have spanKnown := fun own known => (sound.forest own known).span_known
  have isContent := grown.symbol other
  rw [grown.symbols] at inside
  rcases Nat.lt_succ_iff_lt_or_eq.mp inside with old | isNew
  · rw [if_neg (Nat.ne_of_lt old)] at isContent
    refine Accounted.grows sound.forest grows ordered consistent old ?_
    rw [isContent]
    exact List.Subset.refl _
  · rw [if_pos isNew] at isContent
    constructor
    case span_known =>
      rw [isContent]
      exact attachable.yields.accepted.committed
    case shifted =>
      exact fun shifted =>
        absurd (isNew ▸ shifted) (not_shifted_nodeGrown roots grown)
    case justified =>
      intro held member
      rw [isContent] at member
      rw [List.mem_singleton.mp member]
      refine ⟨congrArg SymbolNode.symbol isContent, id, ?_,
        .inl (congrArg SymbolNode.span isContent)⟩
      rw [isContent]
      exact attachable.yields.grows grows ordered consistent spanKnown
    case born =>
      intro _
      rw [isContent]
      exact ⟨derivation, rfl,
        attachable.yields.grows grows ordered consistent spanKnown,
        isNew ▸ attachable.yields.known⟩

/-- A node that grows keeps a parse sound. -/
theorem Sound.growNode
    (sound : parser.Sound host grammar options)
    (position : parser.position = word)
    (known : word ≤ parser.words.length)
    (attachable : parser.Attachable host word below derivation id)
    (leads :
      parser.compiled.table.goto? (parser.stack.stateNode below).state
          (parser.compiled.grammar.rule derivation.rule).lhs =
        some goto)
    (room :
      (parser.stack.layer word).reduced.length < parser.config.maxReduced)
    (isRoots :
      roots =
        if (parser.compiled.grammar.rule derivation.rule).lhs =
            parser.compiled.grammar.start then
          parser.roots ++ [parser.stack.symbols.size]
        else
          parser.roots) :
    GraphStack.NodeGrown word goto
        ⟨id, some (parser.compiled.grammar.rule derivation.rule).lhs, some word,
          [below], [derivation], false⟩
        (parser.stack.addState word goto).1.1 parser.stack
        (parser.stack.growNode word goto id
          (parser.compiled.grammar.rule derivation.rule).lhs below
          derivation) ∧
      Parser.Sound host
        { parser with
          stack := parser.stack.growNode word goto id
            (parser.compiled.grammar.rule derivation.rule).lhs below derivation
          roots := roots }
        grammar options := by
  have inLayers : word < parser.stack.layers.size := by
    rw [sound.loaded.layers]
    omega
  obtain ⟨consistent, grown⟩ := sound.stack.growNode inLayers attachable.inside
    attachable.before leads id derivation
  generalize parser.stack.growNode word goto id
    (parser.compiled.grammar.rule derivation.rule).lhs below derivation = stack
      at consistent grown ⊢
  exact ⟨grown, sound.sameMemory position (grows_nodeGrown grown)
    ⟨rfl, rfl, rfl, rfl, rfl⟩ consistent
    (sound.forest_nodeGrown attachable grown consistent)
    (carries_nodeGrown grown attachable.live room isRoots)
    (fun _ queued => .inl queued) fun _ noted => .inl noted⟩

/-- What grew for a span rests on the state node below it. -/
theorem restsOn_nodeGrown
    (roots : List SymbolNodeId)
    {symbol : Option SymbolId}
    (grown :
      GraphStack.NodeGrown word goto
        ⟨id, symbol, some word, [below], [derivation], false⟩ top parser.stack
        stack) :
    Parser.RestsOn { parser with stack := stack, roots := roots } word below
      goto id top parser.stack.symbols.size := by
  have isContent := grown.symbol parser.stack.symbols.size
  rw [if_pos rfl] at isContent
  constructor
  case listed => exact grown.listed
  case state => exact grown.state
  case held =>
    rw [grown.children]
    exact List.mem_append_right _ List.mem_cons_self
  case below =>
    rw [isContent]
    exact List.mem_cons_self
  case span => exact .inl (congrArg SymbolNode.span isContent)

theorem fresh_nodeGrown
    (roots : List SymbolNodeId)
    (grown : GraphStack.NodeGrown word goto content top parser.stack stack)
    (room :
      (parser.stack.layer word).reduced.length < parser.config.maxReduced) :
    Parser.fresh { parser with stack := stack, roots := roots } word + 1 =
      parser.fresh word := by
  simp only [Parser.fresh, grown.reduced, if_true, List.length_append,
    List.length_singleton]
  omega

/-- A node that has grown is paid for by the place below the limit. -/
theorem proceeds_nodeGrown
    (grown : GraphStack.NodeGrown word goto content top parser.stack stack)
    (isLive : content.removed = false)
    (room :
      (parser.stack.layer word).reduced.length < parser.config.maxReduced) :
    parser.Proceeds word { parser with stack := stack, roots := roots } := by
  have freshLess := fresh_nodeGrown roots grown room
  have symbols := grown.symbols
  have states := grown.states
  constructor
  case grows => exact grows_nodeGrown grown
  case position => rfl
  case candidates => rfl
  case symbols => simp only; omega
  case states => simp only; omega
  case weight =>
    intro symbols states _ _
    simp only [Parser.weight]
    omega
  case capped => exact id
  case unharmed => exact grown.unharmed isLive

/-- The place below the limit also pays for waking the holder. -/
theorem proceeds_activate_nodeGrown
    (grown : GraphStack.NodeGrown word goto content top parser.stack stack)
    (isLive : content.removed = false)
    (room :
      (parser.stack.layer word).reduced.length < parser.config.maxReduced) :
    parser.Proceeds word
      (Parser.activate { parser with stack := stack, roots := roots } top) := by
  have freshLess := fresh_nodeGrown roots grown room
  have sameFresh :
      (Parser.activate { parser with stack := stack, roots := roots }
          top).fresh word =
        Parser.fresh { parser with stack := stack, roots := roots } word :=
    rfl
  have shape : stack.SameShape (stack.setActive top true) :=
    GraphStack.sameShape_setActive top true
  have symbols := grown.symbols
  have states := grown.states
  constructor
  case grows =>
    exact { Grows.refl word parser with
      stack := grown.grows.trans (shape.extends word) }
  case position => rfl
  case candidates => rfl
  case symbols =>
    rw [sameFresh]
    change stack.symbols.size + _ ≤ _
    omega
  case states =>
    rw [sameFresh]
    change (stack.setActive top true).states.size + _ ≤ _
    rw [shape.states_size]
    omega
  case weight =>
    intro symbols states _ _
    simp only [Parser.weight, sameFresh]
    simp only [Parser.activate, List.length_cons]
    omega
  case capped => exact id
  case unharmed =>
    exact (grown.unharmed isLive).trans (GraphStack.unharmed_setActive top true)

end Grown

/-- A parse whose stack grew a node for a produced span. -/
def sprout
    (parser : Parser)
    (word : Nat)
    (below : StateNodeId)
    (goto : StateId)
    (lhs : SymbolId)
    (span : SpanId)
    (derivation : Derivation) :
    Parser :=
  { parser with
    stack := parser.stack.growNode word goto span lhs below derivation
    roots :=
      if lhs = parser.compiled.grammar.start then
        parser.roots ++ [(parser.stack.addState word goto).2.symbols.size]
      else
        parser.roots }

theorem sprout_eq
    (below : StateNodeId)
    (goto : StateId)
    (lhs : SymbolId)
    (span : SpanId)
    (derivation : Derivation) :
    parser.sprout word below goto lhs span derivation =
      { parser with
        stack := parser.stack.growNode word goto span lhs below derivation
        roots :=
          if lhs = parser.compiled.grammar.start then
            parser.roots ++ [parser.stack.symbols.size]
          else
            parser.roots } := by
  unfold sprout
  rw [GraphStack.symbols_addState]

/-- Growing a node wakes its holder. -/
theorem grow_eq
    (below : StateNodeId)
    (goto : StateId)
    (lhs : SymbolId)
    (span : SpanId)
    (derivation : Derivation) :
    parser.grow word below goto lhs span derivation =
      if ((parser.sprout word below goto lhs span derivation).stack.stateNode
          (parser.stack.addState word goto).1.1).active then
        parser.sprout word below goto lhs span derivation
      else
        (parser.sprout word below goto lhs span derivation).activate
          (parser.stack.addState word goto).1.1 :=
  rfl

/-- Growing a node uses up a place below the limit of the word. -/
theorem Working.grow
    (working : parser.Working host grammar options word)
    {below : Nat}
    {derivation : Derivation}
    {id : Nat}
    (attachable : parser.Attachable host word below derivation id)
    {goto : StateId}
    (leads :
      parser.compiled.table.goto? (parser.stack.stateNode below).state
          (parser.compiled.grammar.rule derivation.rule).lhs =
        some goto)
    (room :
      (parser.stack.layer word).reduced.length < parser.config.maxReduced) :
    (parser.grow word below goto
        (parser.compiled.grammar.rule derivation.rule).lhs id
        derivation).Working host grammar options word ∧
      parser.Proceeds word (parser.grow word below goto
        (parser.compiled.grammar.rule derivation.rule).lhs id derivation) ∧
      (parser.grow word below goto
        (parser.compiled.grammar.rule derivation.rule).lhs id
        derivation).RestsOn word below goto id
          (parser.stack.addState word goto).1.1 parser.stack.symbols.size := by
  obtain ⟨grown, sound⟩ := working.sound.growNode working.position working.known
    attachable leads room rfl
  rw [grow_eq, sprout_eq]
  generalize parser.stack.growNode word goto id
    (parser.compiled.grammar.rule derivation.rule).lhs below derivation = stack
      at grown sound ⊢
  generalize (if (parser.compiled.grammar.rule derivation.rule).lhs =
      parser.compiled.grammar.start then
    parser.roots ++ [parser.stack.symbols.size] else parser.roots) = roots
      at sound ⊢
  generalize (parser.stack.addState word goto).1.1 = top at grown ⊢
  have rests := restsOn_nodeGrown roots grown
  split
  · have proceeds : parser.Proceeds word
        { parser with stack := stack, roots := roots } :=
      proceeds_nodeGrown grown rfl room
    exact ⟨working.proceeds proceeds sound fun _ member => .inl member,
      proceeds, rests⟩
  · obtain ⟨wakes, awakeSound⟩ := sound.setActive top true (top :: parser.active)
    have proceeds : parser.Proceeds word
        (Parser.activate { parser with stack := stack, roots := roots } top) :=
      proceeds_activate_nodeGrown grown rfl room
    refine ⟨working.proceeds proceeds awakeSound ?_, proceeds, ?_⟩
    · intro node member
      rcases List.mem_cons.mp member with isTop | old
      · exact .inr (isTop ▸ grown.listed)
      · exact .inl old
    · exact rests.grows sound (wakes word) awakeSound.stack
        attachable.yields.accepted.committed

/-- Giving up the reductions that are left. -/
theorem Working.reachLimit
    (working : parser.Working host grammar options word) :
    parser.reachLimit.Working host grammar options word ∧
      parser.Proceeds word parser.reachLimit := by
  have proceeds : parser.Proceeds word parser.reachLimit := by
    refine ⟨{ Grows.refl word parser with }, rfl, rfl, Nat.le_refl _,
      Nat.le_refl _, ?_, fun _ => rfl, .refl _⟩
    intro symbols states _ _
    have same : parser.reachLimit.fresh word = parser.fresh word := rfl
    simp only [Parser.weight, same]
    simp only [Parser.reachLimit, List.length_nil]
    omega
  exact ⟨working.proceeds proceeds
    (working.sound.dropWork _ _ (List.nil_subset _) true)
    fun _ member => .inl member, proceeds⟩

/-- Attaching a produced span to a state node. -/
theorem Working.attach
    (wellFormed : grammar.WellFormed)
    (working : parser.Working host grammar options word)
    {below : Nat}
    {derivation : Derivation}
    {id : Nat}
    (attachable : parser.Attachable host word below derivation id) :
    (parser.attach word below id derivation).Working host grammar
        options word ∧
      parser.Proceeds word (parser.attach word below id derivation) ∧
      ((parser.attach word below id derivation).capped = true ∨
        (parser.attach word below id derivation).Rests word below
          (grammar.rule derivation.rule).lhs id) := by
  have isGrammar : parser.compiled.grammar = grammar :=
    working.sound.loaded.isGrammar
  have resting : ∀ {after : Parser} {top node : Nat} {goto : StateId},
      after.Working host grammar options word →
      parser.Proceeds word after →
      parser.compiled.table.goto? (parser.stack.stateNode below).state
        (parser.compiled.grammar.rule derivation.rule).lhs = some goto →
      after.RestsOn word below goto id top node →
      after.Rests word below (grammar.rule derivation.rule).lhs id := by
    intro after top node goto _ proceeds leads rests other otherLeads
    rw [isGrammar] at leads
    rw [proceeds.grows.compiled,
      (proceeds.grows.stack.state below attachable.inside).state, leads]
      at otherLeads
    obtain rfl := Option.some.inj otherLeads
    exact ⟨top, node, rests⟩
  unfold Parser.attach
  simp only
  split
  · rename_i leadsNowhere
    refine ⟨working, .refl _ _, .inr ?_⟩
    intro goto leads
    rw [isGrammar] at leadsNowhere
    rw [leadsNowhere] at leads
    cases leads
  · rename_i goto leads
    split
    · rename_i node isEquivalent
      obtain ⟨top, found, stands⟩ := Option.bind_eq_some_iff.mp isEquivalent
      obtain ⟨listed, isState⟩ := GraphStack.findState?_eq_some found
      obtain ⟨held, live, alike⟩ := GraphStack.findChild?_eq_some stands
      subst isState
      obtain ⟨packed, proceeds, rests⟩ :=
        working.pack wellFormed attachable listed held live leads (.inr alike)
      exact ⟨packed, proceeds, .inr (resting packed proceeds leads rests)⟩
    · split
      · obtain ⟨limited, proceeds⟩ := working.reachLimit
        exact ⟨limited, proceeds, .inl rfl⟩
      · rename_i room
        obtain ⟨grown, proceeds, rests⟩ :=
          working.grow attachable leads (Nat.lt_of_not_le room)
        exact ⟨grown, proceeds, .inr (resting grown proceeds leads rests)⟩

/-- Attaching a produced span to state nodes, one after the other. -/
theorem Working.attachAll
    (wellFormed : grammar.WellFormed)
    (working : parser.Working host grammar options word)
    {derivation : Derivation}
    {id : Nat}
    (below : List StateNodeId)
    (attachable : ∀ node ∈ below,
      parser.Attachable host word node derivation id) :
    (parser.attachAll word id derivation below).Working host grammar
        options word ∧
      parser.Proceeds word (parser.attachAll word id derivation below) ∧
      (parser.stack.Live →
        (parser.attachAll word id derivation below).capped = true ∨
          ∀ node ∈ below,
            (parser.attachAll word id derivation below).Rests word node
              (grammar.rule derivation.rule).lhs id) := by
  unfold Parser.attachAll
  induction below generalizing parser with
  | nil =>
      exact ⟨working, .refl _ _, fun _ => .inr fun _ member => by cases member⟩
  | cons node rest inductionHypothesis =>
      rw [List.foldl_cons]
      have nodeAttachable := attachable node List.mem_cons_self
      split
      · rename_i removed
        obtain ⟨restWorking, proceeds, -⟩ := inductionHypothesis working
          fun other member => attachable other (List.mem_cons_of_mem _ member)
        refine ⟨restWorking, proceeds, fun live => ?_⟩
        rw [live.state node] at removed
        cases removed
      · obtain ⟨attached, first, settled⟩ :=
          working.attach wellFormed nodeAttachable
        obtain ⟨restWorking, later, restSettled⟩ :=
          inductionHypothesis attached fun other member =>
            (attachable other (List.mem_cons_of_mem _ member)).grows
              working.sound first.grows first.unharmed attached.sound.stack
        refine ⟨restWorking, first.trans later, fun live => ?_⟩
        rcases restSettled (first.unharmed.live live) with capped | rests
        · exact .inl capped
        · rcases settled with capped | rested
          · exact .inl (later.capped capped)
          · refine .inr fun other member => ?_
            rcases List.mem_cons.mp member with isNode | inRest
            · subst isNode
              exact rested.grows attached.sound later.grows
                restWorking.sound.stack
                (Nat.lt_of_lt_of_le nodeAttachable.inside
                  first.grows.stack.states_size)
                (first.grows.spans.get
                  nodeAttachable.yields.accepted.committed).1
            · exact rests other inRest

end Parser

end SpanForest
