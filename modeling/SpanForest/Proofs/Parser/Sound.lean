import Mathlib.Data.List.Chain
import SpanForest.Proofs.Predicate.Evaluator
import SpanForest.Proofs.Span
import SpanForest.Proofs.Stack.Operations
import SpanForest.Proofs.Stack.Paths

namespace SpanForest

/-!
# Sound parses

A parse is sound if everything it holds can be accounted for: every derivation
by symbols, stack links, predicates and the host's consent, every symbol node
that was read by an input span, and whatever is remembered or queued by the
facts that it stands for. What accounts for these stays true while the parse
goes on, because spans and stack nodes are only ever added.
-/

namespace Parser

/-- What settles the truth of predicates in a parse. -/
def situation (parser : Parser) (decide : String → Span → Bool) : Situation :=
  parser.context.situation parser.compiled.grammar.predicates decide

/-- A parse of the same document that went on at some word or later. -/
structure Grows (since : Nat) (before after : Parser) : Prop where
  compiled : after.compiled = before.compiled
  config : after.config = before.config
  document : after.document = before.document
  input : after.input = before.input
  words : after.words = before.words
  viable : after.viable = before.viable
  started : after.started = before.started
  spans : before.spans.Extends after.spans
  stack : before.stack.Extends since after.stack

/-- A document and its input spans, bound to the symbols of a grammar. -/
structure Loaded
    (grammar : Grammar)
    (options : CompileOptions)
    (parser : Parser) : Prop where
  compiled : parser.compiled = grammar.compile options
  ordered : parser.context.Ordered
  layers : parser.stack.layers.size = parser.words.length + 1
  input_terminal :
    ∀ id ∈ parser.input, ∀ symbol, (parser.spans.get id).symbol = some symbol →
      grammar.isNonterminal symbol = false ∧ symbol ≠ endOfInput ∧
        symbol ≠ emptyString
  word_input :
    ∀ word ∈ parser.words, ∀ id ∈ word.spans, id ∈ parser.input ∧
      (parser.spans.get id).start = word.start
  input_worded :
    ∀ id ∈ parser.input, ∀ symbol, (parser.spans.get id).symbol = some symbol →
      ∃ word ∈ parser.words, id ∈ word.spans
  words_sorted :
    parser.words.Pairwise fun left right => left.start < right.start

section Judgements

variable {σ : Type} (host : Host σ)
variable (parser : Parser)

/-- What is true of a predicate and a span if the host decides tests by name and span. -/
def Tells (id : PredicateId) (span : SpanId) (value : Bool) : Prop :=
  ∀ decide, host.Decides decide →
    Truth (parser.situation decide) id (parser.spans.get span) value

/-- A span that a declaration let be synthesized from an input span. -/
structure Synthesizes (base : Nat) (declaration : Synthesized) (id : Nat) : Prop where
  declared : declaration ∈ parser.compiled.grammar.synthesized
  from_input : base ∈ parser.input
  isBase : (parser.spans.get base).symbol = some declaration.base
  truth : parser.Tells host declaration.predicate base true
  stored :
    parser.spans.get? id =
      some { Span.new id (some declaration.symbol)
          (parser.compiled.grammar.name declaration.symbol)
          (parser.spans.get base).start (parser.spans.get base).stop with
        features := (parser.spans.get base).features
        head := base
        weight := (parser.spans.get base).weight }

/-- A span of a terminal: from the input, or synthesized from the input. -/
inductive Readable : Nat → SymbolId → Prop where
  | input {id : Nat} {symbol : SymbolId} :
      id ∈ parser.input →
      (parser.spans.get id).symbol = some symbol →
      Readable id symbol
  | synthesized {id base : Nat} {declaration : Synthesized} :
      parser.Synthesizes host base declaration id →
      Readable id declaration.symbol

/-- What the host is asked when a rule is about to produce a span from spans. -/
def asked
    (spans : SpanStore)
    (rule : Rule)
    (ids : List SpanId)
    (state : σ) :
    Except ActionError (Option Span) × σ :=
  host.execute ⟨parser.document, spans, parser.input⟩ rule
    ({ parser with spans := spans }.target rule (ids.map spans.get))
    (ids.map spans.get) state

/-- Once the host accepted a rule on spans, and its answer was committed as `id`. -/
def Accepts (rule : Rule) (ids : List SpanId) (id : SpanId) : Prop :=
  ∃ spans state answer, (∀ own : Nat, own ∈ ids → own < spans.size) ∧
    (parser.asked host spans rule ids state).1 = .ok (some answer) ∧
    spans.nextId = id ∧ (spans.push answer).2.Extends parser.spans

/-- Once the host declined a rule on spans. -/
def Declines (rule : Rule) (ids : List SpanId) : Prop :=
  ∃ spans state, (∀ own : Nat, own ∈ ids → own < spans.size) ∧
    spans.Extends parser.spans ∧
    ((parser.asked host spans rule ids state).1 = .ok none ∨
      ∃ reason, (parser.asked host spans rule ids state).1 =
        .error (.rejected reason))

/-- Once some predicate of a rule did not hold on its span. -/
def Forbids (rule : Rule) (ids : List SpanId) : Prop :=
  ∃ pair ∈ rule.rhs.zip ids, ∃ id, pair.1.predicate = some id ∧
    parser.Tells host id pair.2 false

/-- Whether the predicates of a rule hold on spans. -/
def Permits (rule : Rule) (ids : List SpanId) : Prop :=
  ∀ pair ∈ rule.rhs.zip ids, ∀ id, pair.1.predicate = some id →
    parser.Tells host id pair.2 true

/-- The spans of symbol nodes. -/
def spansOf (nodes : List SymbolNodeId) : List SpanId :=
  nodes.map fun node => (parser.stack.symbolNode node).span

/--
What accounts for a derivation that yielded a span at a word.

The nodes of the derivation spell the right-hand side of its rule and lie on one
another in the stack, the last of them at the word. The predicates of the rule
hold on their spans, and the host produced the span from them.
-/
structure Yields (derivation : Derivation) (word : Option Nat) (id : Nat) : Prop where
  user : derivation.rule < parser.compiled.grammar.rules.size
  symbols :
    derivation.children.map (fun child =>
        (parser.stack.symbolNode child).symbol) =
      (parser.compiled.grammar.rule derivation.rule).symbols.map some
  known :
    ∀ child : Nat, child ∈ derivation.children →
      child < parser.stack.symbols.size
  word :
    ∀ last ∈ derivation.children.getLast?,
      (parser.stack.symbolNode last).word = word
  linked : derivation.children.IsChain parser.stack.Linked
  permitted :
    parser.Permits host (parser.compiled.grammar.rule derivation.rule)
      (parser.spansOf derivation.children)
  accepted :
    parser.Accepts host (parser.compiled.grammar.rule derivation.rule)
      (parser.spansOf derivation.children) id

/-- A derivation yielded the span of a node at its word, or an equivalent one. -/
structure Justifies (node : Nat) (derivation : Derivation) : Prop where
  lhs :
    (parser.stack.symbolNode node).symbol =
      some (parser.compiled.grammar.rule derivation.rule).lhs
  yielded :
    ∃ id, parser.Yields host derivation
        (parser.stack.symbolNode node).word id ∧
      ((parser.stack.symbolNode node).span = id ∨
        (parser.spans.get (parser.stack.symbolNode node).span).equivalent
          (parser.spans.get id) = true)

/-- A symbol node that was read, not reduced. -/
def Shifted (node : Nat) : Prop :=
  ∀ word : Nat, node ∉ (parser.stack.layer word).reduced

/-- What accounts for a symbol node. -/
structure Accounted (node : Nat) : Prop where
  span_known : (parser.stack.symbolNode node).span < parser.spans.size
  shifted :
    parser.Shifted node →
      (parser.stack.symbolNode node).derivations = [] ∧
        ∃ symbol, (parser.stack.symbolNode node).symbol = some symbol ∧
          parser.Readable host (parser.stack.symbolNode node).span symbol
  justified :
    ∀ derivation ∈ (parser.stack.symbolNode node).derivations,
      parser.Justifies host node derivation
  born :
    ¬ parser.Shifted node →
      ∃ derivation,
        (parser.stack.symbolNode node).symbol =
            some (parser.compiled.grammar.rule derivation.rule).lhs ∧
          parser.Yields host derivation (parser.stack.symbolNode node).word
            (parser.stack.symbolNode node).span ∧
          ∀ child : Nat, child ∈ derivation.children → child < node

/-- Everything in the forest can be accounted for. -/
def Forest : Prop :=
  ∀ node : Nat, node < parser.stack.symbols.size →
    parser.Accounted host node

/--
What greedy passes dropped: only dropped nodes lost all their derivations, and
only derivations by greedy rules lead to them from nodes that are live.
-/
structure Spares (dropped : Nat → Prop) : Prop where
  removed :
    ∀ node : Nat, dropped node →
      (parser.stack.symbolNode node).removed = true
  emptied :
    ∀ node : Nat, node < parser.stack.symbols.size → ¬ parser.Shifted node →
      (parser.stack.symbolNode node).derivations = [] → dropped node
  spared :
    ∀ node : Nat, (parser.stack.symbolNode node).removed = false →
      ∀ derivation ∈ (parser.stack.symbolNode node).derivations,
        (∃ child ∈ derivation.children, dropped child) →
          (parser.compiled.grammar.rule derivation.rule).greedy = true

/-- A live node that was reduced to the start symbol. -/
structure IsRoot (node : Nat) : Prop where
  inside : node < parser.stack.symbols.size
  reduced : ¬ parser.Shifted node
  symbol :
    (parser.stack.symbolNode node).symbol = some parser.compiled.grammar.start
  live : (parser.stack.symbolNode node).removed = false

/-- No more symbol nodes were reduced at a word than its limit allows. -/
def Bounded : Prop :=
  ∀ word : Nat,
    (parser.stack.layer word).reduced.length ≤ parser.config.maxReduced

/-- The roots that are listed are all there are. -/
def Rooted : Prop :=
  ∀ node : Nat, node ∈ parser.roots ↔ parser.IsRoot node

/-- Everything that is remembered is true. -/
structure Remembers : Prop where
  evaluator :
    ∀ decide, host.Decides decide →
      parser.evaluator.Sound (parser.situation decide) parser.spans
  synthesized :
    ∀ (base : SpanId) (symbol : SymbolId) (id : SpanId),
      parser.synthesized[(base, symbol)]? = some (some id) →
        ∃ declaration, declaration.symbol = symbol ∧
          parser.Synthesizes host base declaration id
  produced :
    ∀ (rule : RuleId) (ids : List SpanId) (id : SpanId),
      parser.outcomes[(rule, ids)]? = some (some id) →
        parser.Accepts host (parser.compiled.grammar.rule rule) ids id
  declined :
    ∀ (rule : RuleId) (ids : List SpanId),
      parser.outcomes[(rule, ids)]? = some none →
        parser.Declines host (parser.compiled.grammar.rule rule) ids

/-- A queued reduction of a complete item of the state that holds its anchor. -/
structure ReductionReady (word : Nat) (reduction : Reduction) : Prop where
  user : reduction.rule < parser.compiled.grammar.rules.size
  live : (parser.stack.symbolNode reduction.anchor).removed = false
  held :
    ∃ holder, reduction.anchor ∈ (parser.stack.stateNode holder).children ∧
      (parser.stack.stateNode holder).word = some word ∧
      ⟨reduction.rule,
          (parser.compiled.grammar.rule reduction.rule).length⟩ ∈
        ((Automaton.ofGrammar parser.compiled.grammar).state
          (parser.stack.stateNode holder).state).items
  via :
    ∀ below, reduction.via = some below →
      below ∈ (parser.stack.symbolNode reduction.anchor).children

/-- A noted span that can be read on top of a node of the word or before it. -/
structure ShiftReady (word : Nat) (shift : Shift) : Prop where
  ahead : word < parser.words.length
  inside : (shift.origin : Nat) < parser.stack.states.size
  below : WordBefore (parser.stack.stateNode shift.origin).word (word + 1)
  leads :
    ∃ symbol, parser.Readable host shift.span symbol ∧
      parser.compiled.table.goto?
        (parser.stack.stateNode shift.origin).state symbol =
          some shift.target

/-- Sound parses. -/
structure Sound (grammar : Grammar) (options : CompileOptions) : Prop where
  loaded : parser.Loaded grammar options
  stack : parser.stack.Consistent parser.compiled.table
  forest : parser.Forest host
  live : parser.config.greedy = false → parser.stack.Live
  spared : ∃ dropped, parser.Spares dropped
  bounded : parser.Bounded
  rooted : parser.Rooted
  remembers : parser.Remembers host
  reductions :
    ∀ reduction ∈ parser.reductions,
      parser.ReductionReady parser.position reduction
  shifts :
    ∀ shift ∈ parser.shifts, parser.ShiftReady host parser.position shift

end Judgements

section Growth

variable {σ : Type} {host : Host σ}
variable {since : Nat} {first second third before after : Parser}

theorem Grows.refl (since : Nat) (parser : Parser) : parser.Grows since parser where
  compiled := rfl
  config := rfl
  document := rfl
  input := rfl
  words := rfl
  viable := rfl
  started := rfl
  spans := .refl _
  stack := .refl _ _

theorem Grows.trans
    (early : first.Grows since second)
    (late : second.Grows since third) :
    first.Grows since third where
  compiled := late.compiled.trans early.compiled
  config := late.config.trans early.config
  document := late.document.trans early.document
  input := late.input.trans early.input
  words := late.words.trans early.words
  viable := late.viable.trans early.viable
  started := late.started.trans early.started
  spans := early.spans.trans late.spans
  stack := early.stack.trans late.stack

/-- A loaded parser parses the grammar that was compiled for it. -/
theorem Loaded.isGrammar
    {grammar : Grammar}
    {options : CompileOptions}
    {parser : Parser}
    (loaded : parser.Loaded grammar options) :
    parser.compiled.grammar = grammar := by
  rw [loaded.compiled]
  rfl

/-- Input spans of the words are committed. -/
theorem Loaded.word_known
    {grammar : Grammar}
    {options : CompileOptions}
    {parser : Parser}
    (loaded : parser.Loaded grammar options)
    {word : Nat}
    {ahead : InputWord}
    (isAhead : parser.words[word]? = some ahead)
    {id : Nat}
    (member : id ∈ ahead.spans) :
    id ∈ parser.input ∧ id < parser.spans.size := by
  have inInput := (loaded.word_input ahead (List.mem_of_getElem? isAhead) id
    member).1
  exact ⟨inInput, loaded.ordered.input_known id inInput⟩

/-- The context of a parse that went on is in order if its new spans are. -/
theorem Loaded.grows
    {grammar : Grammar}
    {options : CompileOptions}
    (loaded : before.Loaded grammar options)
    (grows : before.Grows since after)
    (span_id : ∀ id : Nat, id < after.spans.size →
      (after.spans.get id).id = id) :
    after.Loaded grammar options := by
  have known := loaded.ordered.input_known
  have same : ∀ id ∈ before.input,
      after.spans.get id = before.spans.get id :=
    fun id member => (grows.spans.get (known id member)).2
  have spansSame : after.input.map after.spans.get =
      before.input.map before.spans.get := by
    rw [grows.input]
    exact List.map_congr_left same
  constructor
  case compiled => exact grows.compiled.trans loaded.compiled
  case ordered =>
    constructor
    case span_id => exact span_id
    case input_known =>
      intro id member
      change id ∈ after.input at member
      rw [grows.input] at member
      exact (grows.spans.get (known id member)).1
    case input_sorted =>
      change (after.input.map after.spans.get).Pairwise _
      rw [spansSame]
      exact loaded.ordered.input_sorted
    case input_proper =>
      intro id member
      change id ∈ after.input at member
      rw [grows.input] at member
      change (after.spans.get id).start ≤ (after.spans.get id).stop
      rw [same id member]
      exact loaded.ordered.input_proper id member
  case layers =>
    rw [grows.stack.layers_size, grows.words]
    exact loaded.layers
  case input_terminal =>
    intro id member symbol isSymbol
    rw [grows.input] at member
    rw [same id member] at isSymbol
    exact loaded.input_terminal id member symbol isSymbol
  case word_input =>
    intro word isWord id member
    rw [grows.words] at isWord
    obtain ⟨inInput, isStart⟩ := loaded.word_input word isWord id member
    rw [grows.input, same id inInput]
    exact ⟨inInput, isStart⟩
  case input_worded =>
    intro id member symbol isSymbol
    rw [grows.input] at member
    rw [same id member] at isSymbol
    rw [grows.words]
    exact loaded.input_worded id member symbol isSymbol
  case words_sorted =>
    rw [grows.words]
    exact loaded.words_sorted

/-- What settles the truth of predicates does not change. -/
theorem Grows.situation
    (grows : before.Grows since after)
    (ordered : before.context.Ordered)
    (decide : String → Span → Bool) :
    after.situation decide = before.situation decide := by
  have spansSame : after.input.map after.spans.get =
      before.input.map before.spans.get := by
    rw [grows.input]
    exact List.map_congr_left fun id member =>
      (grows.spans.get (ordered.input_known id member)).2
  simp only [Parser.situation, ParseContext.situation, context,
    grows.compiled, grows.document, spansSame]

theorem Tells.grows
    (grows : before.Grows since after)
    (ordered : before.context.Ordered)
    {id : PredicateId}
    {span : Nat}
    (committed : span < before.spans.size)
    {value : Bool}
    (tells : before.Tells host id span value) :
    after.Tells host id span value := by
  intro decide decides
  rw [grows.situation ordered, (grows.spans.get committed).2]
  exact tells decide decides

theorem Synthesizes.grows
    (grows : before.Grows since after)
    (ordered : before.context.Ordered)
    {base id : Nat}
    {declaration : Synthesized}
    (synthesizes : before.Synthesizes host base declaration id) :
    after.Synthesizes host base declaration id := by
  have same : after.spans.get base = before.spans.get base :=
    (grows.spans.get (ordered.input_known base synthesizes.from_input)).2
  constructor
  case declared => exact grows.compiled ▸ synthesizes.declared
  case from_input => exact grows.input ▸ synthesizes.from_input
  case isBase =>
    rw [same]
    exact synthesizes.isBase
  case truth =>
    exact synthesizes.truth.grows grows ordered
      (ordered.input_known base synthesizes.from_input)
  case stored =>
    rw [same, grows.compiled]
    exact grows.spans _ _ synthesizes.stored

theorem Readable.grows
    (grows : before.Grows since after)
    (ordered : before.context.Ordered)
    {id : Nat}
    {symbol : SymbolId}
    (readable : before.Readable host id symbol) :
    after.Readable host id symbol := by
  cases readable with
  | input member isSymbol =>
      refine .input (grows.input ▸ member) ?_
      rw [(grows.spans.get (ordered.input_known id member)).2]
      exact isSymbol
  | synthesized synthesizes =>
      exact .synthesized (synthesizes.grows grows ordered)

/-- A readable span is committed and has the symbol as which it is read. -/
theorem Readable.stored
    (ordered : before.context.Ordered)
    {id : Nat}
    {symbol : SymbolId}
    (readable : before.Readable host id symbol) :
    id < before.spans.size ∧ (before.spans.get id).symbol = some symbol := by
  cases readable with
  | input member isSymbol => exact ⟨ordered.input_known id member, isSymbol⟩
  | synthesized synthesizes =>
      have stored := synthesizes.stored
      exact ⟨SpanStore.lt_of_get? stored, by
        rw [SpanStore.get_of_get? stored]
        rfl⟩

theorem Grows.asked
    (grows : before.Grows since after)
    (spans : SpanStore)
    (rule : Rule)
    (ids : List SpanId)
    (state : σ) :
    after.asked host spans rule ids state =
      before.asked host spans rule ids state := by
  simp only [Parser.asked, target, grows.document, grows.input,
    grows.compiled]

theorem Accepts.grows
    (grows : before.Grows since after)
    {rule : Rule}
    {ids : List SpanId}
    {id : SpanId}
    (accepts : before.Accepts host rule ids id) :
    after.Accepts host rule ids id := by
  obtain ⟨spans, state, answer, known, answered, isId, extended⟩ := accepts
  exact ⟨spans, state, answer, known, by rw [grows.asked]; exact answered,
    isId, extended.trans grows.spans⟩

theorem Declines.grows
    (grows : before.Grows since after)
    {rule : Rule}
    {ids : List SpanId}
    (declines : before.Declines host rule ids) :
    after.Declines host rule ids := by
  obtain ⟨spans, state, known, extended, answered⟩ := declines
  refine ⟨spans, state, known, extended.trans grows.spans, ?_⟩
  rw [grows.asked]
  exact answered

theorem Permits.grows
    (grows : before.Grows since after)
    (ordered : before.context.Ordered)
    {rule : Rule}
    {ids : List SpanId}
    (known : ∀ id : Nat, id ∈ ids → id < before.spans.size)
    (permits : before.Permits host rule ids) :
    after.Permits host rule ids := by
  intro pair member id isPredicate
  exact (permits pair member id isPredicate).grows grows ordered
    (known pair.2 (List.of_mem_zip member).2)

theorem Forbids.grows
    (grows : before.Grows since after)
    (ordered : before.context.Ordered)
    {rule : Rule}
    {ids : List SpanId}
    (known : ∀ id : Nat, id ∈ ids → id < before.spans.size)
    (forbids : before.Forbids host rule ids) :
    after.Forbids host rule ids := by
  obtain ⟨pair, member, id, isPredicate, tells⟩ := forbids
  exact ⟨pair, member, id, isPredicate,
    tells.grows grows ordered (known pair.2 (List.of_mem_zip member).2)⟩

/-- Stack nodes keep their spans. -/
theorem Grows.spansOf
    (grows : before.Grows since after)
    {nodes : List SymbolNodeId}
    (known : ∀ node : Nat, node ∈ nodes → node < before.stack.symbols.size) :
    after.spansOf nodes = before.spansOf nodes :=
  List.map_congr_left fun node member =>
    (grows.stack.symbol node (known node member)).span

/-- A node that is linked to another stays so. -/
theorem Grows.linked
    {table : PackedTable}
    (grows : before.Grows since after)
    (consistent : after.stack.Consistent table)
    {left right : Nat}
    (rightInside : right < before.stack.symbols.size)
    (linked : before.stack.Linked left right) :
    after.stack.Linked left right := by
  obtain ⟨holder, holds, below⟩ := linked
  have member := (holds holder).mpr rfl
  have inside : holder < before.stack.states.size := by
    refine Nat.lt_of_not_le fun outside => ?_
    rw [GraphStack.stateNode_of_le outside] at member
    cases member
  have memberAfter := (grows.stack.state holder inside).children member
  exact ⟨holder, (consistent.fits_of_mem memberAfter).holds,
    (grows.stack.symbol right rightInside).children below⟩

theorem Shifted.iff_grows
    (grows : before.Grows since after)
    {node : Nat}
    (inside : node < before.stack.symbols.size) :
    after.Shifted node ↔ before.Shifted node :=
  forall_congr' fun word =>
    not_congr (grows.stack.reduced node inside word)

/-- The span that a host produced is committed. -/
theorem Accepts.committed
    {rule : Rule}
    {ids : List SpanId}
    {id : Nat}
    (accepts : before.Accepts host rule ids id) :
    id < before.spans.size := by
  obtain ⟨spans, _, answer, -, -, rfl, extended⟩ := accepts
  exact SpanStore.lt_of_get? (extended _ _ (SpanStore.get?_push answer))

/-- What a host accepted when it was shown spans that are stored as they were then. -/
theorem Accepts.shown
    {rule : Rule}
    {ids : List SpanId}
    {id : Nat}
    (accepts : before.Accepts host rule ids id) :
    ∃ spans state answer,
      (before.asked host spans rule ids state).1 = .ok (some answer) ∧
        spans.nextId = id ∧
        (∀ own : Nat, own ∈ ids → own < id) ∧
        ids.map spans.get = ids.map before.spans.get ∧
        before.spans.get? id = some (spans.committed answer) := by
  obtain ⟨spans, state, answer, known, answered, rfl, extended⟩ := accepts
  refine ⟨spans, state, answer, answered, rfl, known, ?_,
    extended _ _ (SpanStore.get?_push answer)⟩
  refine List.map_congr_left fun own member => ?_
  exact (((SpanStore.extends_push answer).trans extended).get
    (known own member)).2.symm

theorem Yields.grows
    {table : PackedTable}
    (grows : before.Grows since after)
    (ordered : before.context.Ordered)
    (consistent : after.stack.Consistent table)
    (spanKnown : ∀ node : Nat, node < before.stack.symbols.size →
      (before.stack.symbolNode node).span < before.spans.size)
    {derivation : Derivation}
    {word : Option Nat}
    {id : Nat}
    (yields : before.Yields host derivation word id) :
    after.Yields host derivation word id := by
  have known := yields.known
  have spansSame := grows.spansOf known
  have spansKnown : ∀ id : Nat, id ∈ before.spansOf derivation.children →
      id < before.spans.size := by
    intro id member
    obtain ⟨child, isChild, rfl⟩ := List.mem_map.mp member
    exact spanKnown child (known child isChild)
  constructor
  case user =>
    rw [grows.compiled]
    exact yields.user
  case symbols =>
    rw [grows.compiled, ← yields.symbols]
    exact List.map_congr_left fun child member =>
      (grows.stack.symbol child (known child member)).symbol
  case known =>
    intro child member
    exact Nat.lt_of_lt_of_le (known child member) grows.stack.symbols_size
  case word =>
    intro last isLast
    rw [(grows.stack.symbol last
      (known last (List.mem_of_getLast? isLast))).word]
    exact yields.word last isLast
  case linked =>
    refine yields.linked.imp_of_mem_imp fun left right _ rightMember linked => ?_
    exact grows.linked consistent (known right rightMember) linked
  case permitted =>
    rw [spansSame, grows.compiled]
    exact yields.permitted.grows grows ordered spansKnown
  case accepted =>
    rw [spansSame, grows.compiled]
    exact yields.accepted.grows grows

theorem Justifies.grows
    {table : PackedTable}
    (grows : before.Grows since after)
    (ordered : before.context.Ordered)
    (consistent : after.stack.Consistent table)
    {node : Nat}
    (inside : node < before.stack.symbols.size)
    (spanKnown : ∀ node : Nat, node < before.stack.symbols.size →
      (before.stack.symbolNode node).span < before.spans.size)
    {derivation : Derivation}
    (justifies : before.Justifies host node derivation) :
    after.Justifies host node derivation := by
  have same := grows.stack.symbol node inside
  obtain ⟨lhs, id, yields, isSpan⟩ := justifies
  refine ⟨?_, id, ?_, ?_⟩
  · rw [same.symbol, grows.compiled]
    exact lhs
  · rw [same.word]
    exact yields.grows grows ordered consistent spanKnown
  · rw [same.span, (grows.spans.get (spanKnown node inside)).2,
      (grows.spans.get yields.accepted.committed).2]
    exact isSpan

/-- A node that at most lost derivations is still accounted for. -/
theorem Accounted.grows
    {table : PackedTable}
    (forest : before.Forest host)
    (grows : before.Grows since after)
    (ordered : before.context.Ordered)
    (consistent : after.stack.Consistent table)
    {node : Nat}
    (inside : node < before.stack.symbols.size)
    (fewer :
      (after.stack.symbolNode node).derivations ⊆
        (before.stack.symbolNode node).derivations) :
    after.Accounted host node := by
  have same := grows.stack.symbol node inside
  have accounted := forest node inside
  constructor
  case span_known =>
    rw [same.span]
    exact (grows.spans.get accounted.span_known).1
  case shifted =>
    intro shifted
    obtain ⟨noDerivations, symbol, isSymbol, readable⟩ :=
      accounted.shifted ((Shifted.iff_grows grows inside).mp shifted)
    rw [noDerivations] at fewer
    rw [same.span, same.symbol]
    exact ⟨List.subset_nil.mp fewer, symbol, isSymbol,
      readable.grows grows ordered⟩
  case justified =>
    intro derivation member
    exact (accounted.justified derivation (fewer member)).grows grows ordered
      consistent inside fun other known => (forest other known).span_known
  case born =>
    intro notShifted
    obtain ⟨derivation, isSymbol, yields, earlier⟩ := accounted.born
      fun shifted => notShifted ((Shifted.iff_grows grows inside).mpr shifted)
    rw [same.symbol, same.word, same.span, grows.compiled]
    exact ⟨derivation, isSymbol, yields.grows grows ordered consistent
      (fun other known => (forest other known).span_known), earlier⟩

/-- The spans of nodes that a sound parse holds are committed. -/
theorem Sound.spansOf_known
    {grammar : Grammar}
    {options : CompileOptions}
    (sound : before.Sound host grammar options)
    {nodes : List SymbolNodeId}
    (known : ∀ node : Nat, node ∈ nodes → node < before.stack.symbols.size)
    (id : Nat)
    (member : id ∈ before.spansOf nodes) :
    id < before.spans.size := by
  obtain ⟨node, isNode, rfl⟩ := List.mem_map.mp member
  exact (sound.forest node (known node isNode)).span_known

/-- Derivations that are added lead to nodes that were not dropped. -/
theorem Spares.grows
    {dropped : Nat → Prop}
    (spares : before.Spares dropped)
    (grows : before.Grows since after)
    (removed : ∀ node : Nat, (before.stack.symbolNode node).removed = true →
      (after.stack.symbolNode node).removed = true)
    (derivations : ∀ (node : Nat) (derivation : Derivation),
      derivation ∈ (after.stack.symbolNode node).derivations →
        derivation ∈ (before.stack.symbolNode node).derivations ∨
          ∀ child ∈ derivation.children,
            (before.stack.symbolNode child).removed = false)
    (emptied : ∀ node : Nat, node < after.stack.symbols.size →
      ¬ after.Shifted node →
      (after.stack.symbolNode node).derivations = [] →
        node < before.stack.symbols.size ∧
          (before.stack.symbolNode node).derivations = []) :
    after.Spares dropped := by
  constructor
  case removed =>
    exact fun node isDropped => removed node (spares.removed node isDropped)
  case emptied =>
    intro node inside notShifted isEmpty
    obtain ⟨wasInside, wasEmpty⟩ := emptied node inside notShifted isEmpty
    exact spares.emptied node wasInside (fun shifted =>
      notShifted ((Shifted.iff_grows grows wasInside).mpr shifted)) wasEmpty
  case spared =>
    intro node isLive derivation member leadsToDropped
    rw [grows.compiled]
    have wasLive : (before.stack.symbolNode node).removed = false :=
      Bool.eq_false_iff.mpr fun wasRemoved =>
        Bool.eq_false_iff.mp isLive (removed node wasRemoved)
    rcases derivations node derivation member with old | live
    · exact spares.spared node wasLive derivation old leadsToDropped
    · obtain ⟨child, isChild, isDropped⟩ := leadsToDropped
      have isLive := live child isChild
      rw [spares.removed child isDropped] at isLive
      cases isLive

/-- A node that was there is a root if and only if it was one. -/
theorem IsRoot.iff_grows
    (grows : before.Grows since after)
    (unharmed : before.stack.Unharmed after.stack)
    {node : Nat}
    (inside : node < before.stack.symbols.size) :
    after.IsRoot node ↔ before.IsRoot node := by
  have same := grows.stack.symbol node inside
  obtain ⟨stillInside, removed⟩ := unharmed.symbol node inside
  have shifted := Shifted.iff_grows grows inside
  constructor
  · rintro ⟨-, reduced, symbol, live⟩
    exact ⟨inside, fun isShifted => reduced (shifted.mpr isShifted),
      by rw [← same.symbol, symbol, grows.compiled], removed.symm.trans live⟩
  · rintro ⟨-, reduced, symbol, live⟩
    exact ⟨stillInside, fun isShifted => reduced (shifted.mp isShifted),
      by rw [same.symbol, symbol, grows.compiled], removed.trans live⟩

/-- A parse that goes on without harm to what accounts for its forest. -/
structure Carries (before after : Parser) : Prop where
  unharmed : before.stack.Unharmed after.stack
  spared : ∀ dropped, before.Spares dropped → after.Spares dropped
  bounded : before.Bounded → after.Bounded
  rooted : before.Rooted → after.Rooted

/-- Nothing is lost if no nodes are added and no derivations. -/
theorem Grows.carries
    (grows : before.Grows since after)
    (unharmed : before.stack.Unharmed after.stack)
    (size : after.stack.symbols.size = before.stack.symbols.size)
    (derivations : ∀ node : Nat, (after.stack.symbolNode node).derivations =
      (before.stack.symbolNode node).derivations)
    (reduced : ∀ word : Nat, (after.stack.layer word).reduced =
      (before.stack.layer word).reduced)
    (roots : after.roots = before.roots) :
    before.Carries after := by
  constructor
  case unharmed => exact unharmed
  case spared =>
    intro dropped spares
    refine spares.grows grows (fun _ => unharmed.removed) ?_ ?_
    · intro node derivation member
      exact .inl (derivations node ▸ member)
    · intro node inside _ isEmpty
      exact ⟨size ▸ inside, derivations node ▸ isEmpty⟩
  case bounded =>
    intro bounded word
    rw [reduced, grows.config]
    exact bounded word
  case rooted =>
    intro rooted node
    rw [roots, rooted node]
    by_cases inside : node < before.stack.symbols.size
    · exact (IsRoot.iff_grows grows unharmed inside).symm
    · exact ⟨fun isRoot => absurd isRoot.inside inside,
        fun isRoot => absurd (size ▸ isRoot.inside) inside⟩

theorem ReductionReady.grows
    {word : Nat}
    (grows : before.Grows since after)
    (unharmed : before.stack.Unharmed after.stack)
    {table : PackedTable}
    (consistent : before.stack.Consistent table)
    {reduction : Reduction}
    (ready : before.ReductionReady word reduction) :
    after.ReductionReady word reduction := by
  obtain ⟨user, live, ⟨holder, held, isWord, item⟩, via⟩ := ready
  have fits := consistent.fits_of_mem held
  have same := grows.stack.state holder fits.inside
  have inside := consistent.child_known holder _ held
  refine ⟨?_, (unharmed.symbol _ inside).2.trans live,
    ⟨holder, same.children held, same.word.trans isWord, ?_⟩, ?_⟩
  · rw [grows.compiled]
    exact user
  · rw [grows.compiled, same.state]
    exact item
  · intro below isVia
    exact (grows.stack.symbol _ inside).children (via below isVia)

theorem ShiftReady.grows
    {word : Nat}
    (grows : before.Grows since after)
    (ordered : before.context.Ordered)
    {shift : Shift}
    (ready : before.ShiftReady host word shift) :
    after.ShiftReady host word shift := by
  obtain ⟨ahead, inside, below, symbol, readable, leads⟩ := ready
  have same := grows.stack.state shift.origin inside
  refine ⟨?_, Nat.lt_of_lt_of_le inside grows.stack.states_size, ?_,
    symbol, readable.grows grows ordered, ?_⟩
  · rw [grows.words]
    exact ahead
  · rw [same.word]
    exact below
  · rw [grows.compiled, same.state]
    exact leads

end Growth

end Parser

end SpanForest
