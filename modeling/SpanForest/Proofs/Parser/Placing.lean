import SpanForest.Proofs.Parser.Inheriting
import SpanForest.Proofs.Parser.Leading
import SpanForest.Proofs.Parser.Reachable

namespace SpanForest

/-!
# Where nodes stand

With a host that keeps extents, such as the inheriting one, a symbol node stands on
state nodes of the one word that begins where its span does. What was read stands
at the first word behind its span. So the words between which a node lies can be
told from its span alone.
-/

/-- A host that lets rules produce spans with the extent of their target only. -/
structure Host.KeepsExtent {σ : Type} (host : Host σ) : Prop where
  start :
    ∀ context rule target rhs state answer,
      (host.execute context rule target rhs state).1 = .ok (some answer) →
        answer.start = target.start
  stop :
    ∀ context rule target rhs state answer,
      (host.execute context rule target rhs state).1 = .ok (some answer) →
        answer.stop = target.stop

/-- The inheriting host changes nothing but features. -/
theorem Host.keepsExtent_inheriting {σ : Type} :
    (Host.inheriting : Host σ).KeepsExtent where
  start _ _ _ _ _ _ answered := by
    cases answered
    unfold inheritFeatures
    split <;> rfl
  stop _ _ _ _ _ _ answered := by
    cases answered
    unfold inheritFeatures
    split <;> rfl

namespace Parser

variable {σ : Type} {host : Host σ}
variable {grammar : Grammar} {options : CompileOptions} {word : Nat}
variable {config : ParserConfig}
variable {before after parser : Parser}

/-- What a host that keeps extents accepted reaches from the first span to the last. -/
theorem Accepts.extent
    (keeps : host.KeepsExtent)
    {rule : Rule}
    {ids : List SpanId}
    {id : Nat}
    (accepts : parser.Accepts host rule ids id)
    {first last : SpanId}
    (isFirst : ids.head? = some first)
    (isLast : ids.getLast? = some last) :
    (parser.spans.get id).start = (parser.spans.get first).start ∧
      (parser.spans.get id).stop =
        max (parser.spans.get last).stop (parser.spans.get first).start := by
  obtain ⟨spans, state, answer, answered, rfl, -, same, stored⟩ := accepts.shown
  rw [SpanStore.get_of_get? stored]
  constructor
  · refine (keeps.start _ _ _ _ _ _ answered).trans ?_
    simp [same, target, Span.new, List.headD_eq_head?_getD, isFirst]
  · refine (keeps.stop _ _ _ _ _ _ answered).trans ?_
    simp [same, target, Span.new, List.headD_eq_head?_getD,
      List.getLastD_eq_getLast?, isFirst, isLast]

/-- A word begins at an offset. -/
def Opens (parser : Parser) (word offset : Nat) : Prop :=
  ∃ ahead, parser.words[word]? = some ahead ∧ ahead.start = offset

/-- No two words begin at the same offset. -/
theorem Loaded.opens_unique
    (loaded : parser.Loaded grammar options)
    {other offset : Nat}
    (opens : parser.Opens word offset)
    (otherOpens : parser.Opens other offset) :
    word = other := by
  obtain ⟨ahead, isAhead, isStart⟩ := opens
  obtain ⟨otherAhead, isOther, isOtherStart⟩ := otherOpens
  obtain ⟨inside, isWord⟩ := List.getElem?_eq_some_iff.mp isAhead
  obtain ⟨otherInside, isOtherWord⟩ := List.getElem?_eq_some_iff.mp isOther
  have sorted := List.pairwise_iff_getElem.mp loaded.words_sorted
  rcases Nat.lt_trichotomy word other with lower | same | higher
  · have apart := sorted word other inside otherInside lower
    rw [isWord, isOtherWord, isStart, isOtherStart] at apart
    exact absurd apart (Nat.lt_irrefl _)
  · exact same
  · have apart := sorted other word otherInside inside higher
    rw [isWord, isOtherWord, isStart, isOtherStart] at apart
    exact absurd apart (Nat.lt_irrefl _)

/-- What was given and can be read is a span of the word that begins where it does. -/
theorem Loaded.mem_spans
    (loaded : parser.Loaded grammar options)
    {base : Nat}
    (fromInput : base ∈ parser.input)
    {symbol : SymbolId}
    (isSymbol : (parser.spans.get base).symbol = some symbol)
    (opens : parser.Opens word (parser.spans.get base).start) :
    ∃ ahead, parser.words[word]? = some ahead ∧ base ∈ ahead.spans := by
  obtain ⟨ahead, isWord, member⟩ :=
    loaded.input_worded base fromInput symbol isSymbol
  obtain ⟨place, isAhead⟩ := List.mem_iff_getElem?.mp isWord
  have isStart := (loaded.word_input ahead isWord base member).2
  obtain rfl := loaded.opens_unique opens ⟨ahead, isAhead, isStart.symm⟩
  exact ⟨ahead, isAhead, member⟩

/-- A symbol node that begins at a word. -/
structure PlacedAt (parser : Parser) (word node : Nat) : Prop where
  opens : parser.Opens word (parser.spanOf node).start
  rests :
    ∀ below : Nat, below ∈ (parser.stack.symbolNode node).children →
      ∀ own, (parser.stack.stateNode below).word = some own → own = word
  ends :
    parser.Shifted node →
      (parser.stack.symbolNode node).word =
        some (nextWord parser.words word (parser.spanOf node).stop)

/-- A span that was noted on a node of the current word, where it begins. -/
structure NotedAt (parser : Parser) (word : Nat) (shift : Shift) : Prop where
  opens : parser.Opens word (parser.spans.get shift.span).start
  rests :
    ∀ own, (parser.stack.stateNode shift.origin).word = some own → own = word

/-- A parser whose nodes begin where their spans do. -/
structure Placed (parser : Parser) : Prop where
  nodes :
    ∀ node : Nat, node < parser.stack.symbols.size →
      ∃ word, parser.PlacedAt word node
  noted : ∀ shift ∈ parser.shifts, parser.NotedAt parser.position shift

/-- What was noted stays noted. -/
theorem NotedAt.grows
    {since : Nat}
    (noted : before.NotedAt word shift)
    (ordered : before.context.Ordered)
    (ready : before.ShiftReady host word shift)
    (grows : before.Grows since after) :
    after.NotedAt word shift := by
  obtain ⟨symbol, readable, -⟩ := ready.leads
  have committed := (readable.stored ordered).1
  constructor
  case opens =>
    unfold Opens
    rw [grows.words, (grows.spans.get committed).2]
    exact noted.opens
  case rests =>
    rw [(grows.stack.state _ ready.inside).word]
    exact noted.rests

/-- A node begins where it did if what it was put upon since is of the same word. -/
theorem PlacedAt.grows
    {since node : Nat}
    (placed : before.PlacedAt word node)
    (sound : before.Sound host grammar options)
    (inside : node < before.stack.symbols.size)
    (grows : before.Grows since after)
    (linked : ∀ below : Nat, below ∈ (after.stack.symbolNode node).children →
      below ∉ (before.stack.symbolNode node).children →
      ∀ own, (after.stack.stateNode below).word = some own →
        before.Opens own (before.spanOf node).start) :
    after.PlacedAt word node := by
  have same := grows.stack.symbol node inside
  have sameSpan : after.spanOf node = before.spanOf node := by
    rw [spanOf, spanOf, same.span]
    exact (grows.spans.get (sound.forest node inside).span_known).2
  constructor
  case opens =>
    unfold Opens
    rw [grows.words, sameSpan]
    exact placed.opens
  case rests =>
    intro below isBelow own isOwn
    by_cases old : below ∈ (before.stack.symbolNode node).children
    · obtain ⟨holder, fits⟩ := sound.stack.fits node inside
      rw [(grows.stack.state below (fits.child below old).1).word] at isOwn
      exact placed.rests below old own isOwn
    · exact sound.loaded.opens_unique (linked below isBelow old own isOwn)
        placed.opens
  case ends =>
    rw [Shifted.iff_grows grows inside, same.word, grows.words, sameSpan]
    exact placed.ends

/-- A parse that grew, by nodes that begin where they should. -/
theorem Placed.grows
    {since : Nat}
    (placed : before.Placed)
    (sound : before.Sound host grammar options)
    (grows : before.Grows since after)
    (position : after.position = before.position)
    (linked : ∀ node : Nat, node < before.stack.symbols.size →
      ∀ below : Nat, below ∈ (after.stack.symbolNode node).children →
        below ∉ (before.stack.symbolNode node).children →
        ∀ own, (after.stack.stateNode below).word = some own →
          before.Opens own (before.spanOf node).start)
    (added : ∀ node : Nat, before.stack.symbols.size ≤ node →
      node < after.stack.symbols.size → ∃ word, after.PlacedAt word node)
    (noted : ∀ shift ∈ after.shifts, shift ∈ before.shifts ∨
      after.NotedAt after.position shift) :
    after.Placed where
  nodes node inside := by
    by_cases old : node < before.stack.symbols.size
    · obtain ⟨word, placedAt⟩ := placed.nodes node old
      exact ⟨word, placedAt.grows sound old grows (linked node old)⟩
    · exact added node (Nat.le_of_not_lt old) inside
  noted shift listed := by
    refine (noted shift listed).elim (fun old => ?_) id
    rw [position]
    exact (placed.noted shift old).grows sound.loaded.ordered
      (sound.shifts shift old) grows

/-- A parse whose stack kept its shape, and for which spans were noted in their place. -/
theorem Placed.sameShape
    (placed : before.Placed)
    (shape : before.stack.SameShape after.stack)
    (words : after.words = before.words)
    (spans : after.spans = before.spans)
    (position : after.position = before.position)
    (noted : ∀ shift ∈ after.shifts, shift ∈ before.shifts ∨
      before.NotedAt before.position shift) :
    after.Placed where
  nodes node inside := by
    rw [shape.symbols_size] at inside
    obtain ⟨word, placedAt⟩ := placed.nodes node inside
    obtain ⟨sameSpan, -, sameWord, sameChildren⟩ := shape.symbol node
    have isSpan : after.spanOf node = before.spanOf node := by
      rw [spanOf, spanOf, sameSpan, spans]
    refine ⟨word, ?_, ?_, ?_⟩
    · unfold Opens
      rw [words, isSpan]
      exact placedAt.opens
    · intro below isBelow own isOwn
      rw [sameChildren] at isBelow
      rw [(shape.state below).2.1] at isOwn
      exact placedAt.rests below isBelow own isOwn
    · unfold Shifted
      simp only [shape.layer]
      rw [sameWord, words, isSpan]
      exact placedAt.ends
  noted shift listed := by
    have notedAt := (noted shift listed).elim (placed.noted shift) id
    constructor
    case opens =>
      unfold Opens
      rw [words, spans, position]
      exact notedAt.opens
    case rests =>
      rw [(shape.state shift.origin).2.1, position]
      exact notedAt.rests

/-- Asking the host moves nothing. -/
theorem Placed.asks
    (placed : before.Placed)
    (sound : before.Sound host grammar options)
    (asks : before.Asks after) :
    after.Placed := by
  have grows := asks.grows 0
  refine placed.grows sound grows (by rw [asks.same]) ?_ ?_ ?_
  · intro node _ below isBelow isNew
    rw [asks.stack] at isBelow
    exact absurd isBelow isNew
  · intro node isNew inside
    rw [asks.stack] at inside
    exact absurd inside (Nat.not_lt_of_le isNew)
  · intro shift listed
    rw [asks.same] at listed
    exact .inl listed

/-- What accounts for a derivation are some nodes, since right-hand sides are not empty. -/
theorem Yields.children_ne_nil
    (wellFormed : grammar.WellFormed)
    (loaded : parser.Loaded grammar options)
    {derivation : Derivation}
    {at? : Option Nat}
    {id : Nat}
    (yields : parser.Yields host derivation at? id) :
    derivation.children ≠ [] := by
  intro isEmpty
  have user := yields.user
  have symbols := congrArg List.length yields.symbols
  rw [loaded.isGrammar] at user symbols
  have nonempty := wellFormed.length_pos
    (Grammar.mem_allRules.mpr (.inl (Grammar.rule_mem user)))
  simp only [isEmpty, List.map_nil, List.length_nil, List.length_map,
    Rule.symbols] at symbols
  exact absurd nonempty (symbols ▸ Nat.lt_irrefl 0)

/-- What is produced from nodes begins where the node stands that they stand on. -/
theorem Placed.attachable
    (wellFormed : grammar.WellFormed)
    (keeps : host.KeepsExtent)
    (sound : parser.Sound host grammar options)
    (placed : parser.Placed)
    {below : Nat}
    {derivation : Derivation}
    {id : Nat}
    (attachable : parser.Attachable host word below derivation id) :
    ∃ first, parser.Opens first (parser.spans.get id).start ∧
      ∀ own, (parser.stack.stateNode below).word = some own → own = first := by
  obtain ⟨-, -, yields, -, -, rests⟩ := attachable
  have nonempty := yields.children_ne_nil wellFormed sound.loaded
  obtain ⟨rule, children⟩ := derivation
  cases children with
  | nil => exact absurd rfl nonempty
  | cons child others =>
      have inside := yields.known child List.mem_cons_self
      obtain ⟨first, placedAt⟩ := placed.nodes child inside
      obtain ⟨isStart, -⟩ := yields.accepted.extent keeps rfl
        (List.getLast?_eq_some_getLast (List.cons_ne_nil _ _))
      exact ⟨first, isStart ▸ placedAt.opens, placedAt.rests below rests⟩

/-- Marks of state nodes that wait to act move nothing. -/
theorem Placed.wakes
    (placed : before.Placed)
    (wakes : before.Wakes after) :
    after.Placed := by
  refine placed.sameShape wakes.shape ?_ ?_ ?_ fun shift listed => .inl ?_
  · rw [wakes.only_marks]
  · rw [wakes.only_marks]
  · rw [wakes.only_marks]
  · rw [wakes.only_marks] at listed
    exact listed

/-- Reductions that are queued move nothing. -/
theorem Placed.queues
    {reductions : List Reduction}
    (placed : before.Placed)
    (queues : before.Queues reductions after) :
    after.Placed := by
  refine placed.sameShape ?_ ?_ ?_ ?_ fun shift listed => .inl ?_
  · rw [queues.only]
    exact .refl _
  · rw [queues.only]
  · rw [queues.only]
  · rw [queues.only]
  · rw [queues.only] at listed
    exact listed

/-- A node that acts notes spans that begin at its word. -/
theorem Placed.act
    (working : parser.Working host grammar options word)
    {node : Nat}
    (isNode : node = GraphStack.startNode ∨
      node ∈ (parser.stack.layer word).nodes)
    (placed : parser.Placed) :
    (parser.act node).Placed := by
  unfold Parser.act
  refine Placed.queues ?_ (queues_foldl _)
  refine placed.sameShape (GraphStack.sameShape_setActive node false) rfl rfl
    rfl fun shift listed => ?_
  refine (List.mem_append.mp listed).imp_right fun isNew => ?_
  obtain ⟨id, candidate, -, -, -, -, rfl⟩ := mem_shiftsFrom.mp isNew
  rw [working.position]
  refine ⟨working.begins id candidate, ?_⟩
  intro own isOwn
  rcases isNode with isStart | inLayer
  · subst isStart
    rw [working.sound.stack.start_word] at isOwn
    cases isOwn
  · rw [((working.sound.stack.mem_layer node word).mp inLayer).2] at isOwn
    exact (Option.some.inj isOwn).symm

section Attach

variable {stack : GraphStack} {goto : StateId}
variable {below node id top first : Nat} {derivation : Derivation}
variable {roots : List SymbolNodeId}

/-- A node stays where it begins if the state it is put on opens at its span. -/
theorem Placed.nodeExtended
    (sound : parser.Sound host grammar options)
    (placed : parser.Placed)
    (extended :
      GraphStack.NodeExtended word node derivation below parser.stack stack)
    (equivalent :
      (parser.spans.get (parser.stack.symbolNode node).span).equivalent
        (parser.spans.get id) = true)
    (opens : parser.Opens first (parser.spans.get id).start)
    (rests :
      ∀ own, (parser.stack.stateNode below).word = some own → own = first) :
    Placed { parser with stack := stack } := by
  have grows : parser.Grows word { parser with stack := stack } :=
    { Grows.refl word parser with stack := extended.grows }
  refine placed.grows sound grows rfl ?_ ?_ fun _ listed => .inl listed
  · intro other _ child isChild isNew own isOwn
    rcases (extended.children other child).mp isChild with old | ⟨rfl, rfl⟩
    · exact absurd old isNew
    · simp only [extended.sameState] at isOwn
      simp only [Span.equivalent, Bool.and_eq_true, beq_iff_eq] at equivalent
      rw [rests own isOwn, spanOf, equivalent.1.1.1.1.1]
      exact opens
  · intro other isNew inside
    rw [extended.symbols] at inside
    exact absurd inside (Nat.not_lt_of_le isNew)

/-- A node that grows begins where the state node does that it rests on. -/
theorem Placed.nodeGrown
    {symbol : Option SymbolId}
    (sound : parser.Sound host grammar options)
    (placed : parser.Placed)
    (inside : below < parser.stack.states.size)
    (grown :
      GraphStack.NodeGrown word goto
        ⟨id, symbol, some word, [below], [derivation], false⟩ top parser.stack
        stack)
    (opens : parser.Opens first (parser.spans.get id).start)
    (rests :
      ∀ own, (parser.stack.stateNode below).word = some own → own = first) :
    Placed { parser with stack := stack, roots := roots } := by
  have isContent := grown.symbol parser.stack.symbols.size
  rw [if_pos rfl] at isContent
  refine placed.grows sound (grows_nodeGrown grown) rfl ?_ ?_
    fun _ listed => .inl listed
  · intro other otherInside child isChild isNew
    rw [grown.symbol, if_neg (Nat.ne_of_lt otherInside)] at isChild
    exact absurd isChild isNew
  · intro other isNew otherInside
    rw [grown.symbols] at otherInside
    obtain rfl := Nat.le_antisymm (Nat.le_of_lt_succ otherInside) isNew
    refine ⟨first, ?_, ?_, fun isShifted => ?_⟩
    · rw [spanOf, isContent]
      exact opens
    · intro child isChild own isOwn
      rw [isContent] at isChild
      obtain rfl := List.mem_singleton.mp isChild
      rw [(grown.grows.state child inside).word] at isOwn
      exact rests own isOwn
    · exact absurd isShifted (not_shifted_nodeGrown roots grown)

/-- Attaching puts a node where its first child stands. -/
theorem Placed.attach
    (wellFormed : grammar.WellFormed)
    (keeps : host.KeepsExtent)
    (working : parser.Working host grammar options word)
    (attachable : parser.Attachable host word below derivation id)
    (placed : parser.Placed) :
    (parser.attach word below id derivation).Placed := by
  have sound := working.sound
  obtain ⟨first, opens, rests⟩ := placed.attachable wellFormed keeps sound attachable
  have attaches := working.attaches wellFormed attachable
  generalize parser.attach word below id derivation = after at attaches ⊢
  cases attaches with
  | packs _ _ equivalent _ extended _ _ queues =>
      exact (placed.nodeExtended sound extended equivalent opens rests).queues
        queues
  | limits =>
      exact placed.sameShape (.refl _) rfl rfl rfl fun _ listed => .inl listed
  | grows _ _ grown _ wakes =>
      exact (placed.nodeGrown sound attachable.inside grown opens rests).wakes
        wakes

end Attach

/-- Everything that is done at a word leaves nodes where they stand. -/
theorem leads_placed
    (wellFormed : grammar.WellFormed)
    (keeps : host.KeepsExtent) :
    Leads host grammar options word
      fun before after => before.1.Placed → after.1.Placed where
  refl _ := id
  trans _ _ _ early late placed := late (early placed)
  begins _ _ placed :=
    placed.sameShape (.refl _) rfl rfl rfl fun _ listed => .inl listed
  collects {parser} sound state placed :=
    placed.asks sound
      ((Parsing.asks_collectCandidates host word parser).leadsTo state)
  wakes {before} _ sound placed := by
    have idle : { before with active := [] }.Placed :=
      placed.sameShape (.refl _) rfl rfl rfl fun _ listed => .inl listed
    exact idle.wakes (sound.wakeWord word).2.wakes
  acts {before node rest} _ working isActive placed := by
    have taken := (working.drop (isActive ▸ List.suffix_cons node rest)
      (List.suffix_refl _)).1
    have idle : { before with active := rest }.Placed :=
      placed.sameShape (.refl _) rfl rfl rfl fun _ listed => .inl listed
    exact idle.act taken (working.active node (isActive ▸ List.mem_cons_self))
  takes _ _ _ placed :=
    placed.sameShape (.refl _) rfl rfl rfl fun _ listed => .inl listed
  reduces {before rule nodes _} working _ _ :=
    (Parsing.attempts_reducePath host (grammar.rule rule)
      nodes).follows fun _ attempts _ _ placed =>
        placed.asks working.sound attempts.toAsks
  attaches _ working attachable _ placed :=
    placed.attach wellFormed keeps working attachable

/-- Reading a noted span puts it where it begins, and what follows behind it. -/
theorem Placed.readShift
    (wellFormed : grammar.WellFormed)
    (sound : parser.Sound host grammar options)
    {shift : Shift}
    (ready : parser.ShiftReady host parser.position shift)
    (notedAt : parser.NotedAt parser.position shift)
    (placed : parser.Placed) :
    (parser.readShift parser.position shift).Placed := by
  cases isRemoved : (parser.stack.stateNode shift.origin).removed with
  | true =>
      rw [readShift_of_removed isRemoved]
      exact placed
  | false =>
      obtain ⟨symbol, readable, leads⟩ := ready.leads
      obtain ⟨-, read⟩ := sound.readNode wellFormed ready
        (readable.stored sound.loaded.ordered).2 leads
      rw [readShift_eq shift isRemoved]
      generalize parser.stack.readNode _ _ _ _ _ = stack at read ⊢
      refine placed.grows sound (grows_nodeRead read) rfl ?_ ?_
        fun _ listed => .inl listed
      · intro node inside below isBelow isNew own isOwn
        rcases read.linked node below inside isBelow with old | ⟨rfl, isSpan⟩
        · exact absurd old isNew
        · rw [(read.grows.state shift.origin ready.inside).word] at isOwn
          rw [notedAt.rests own isOwn, spanOf, isSpan]
          exact notedAt.opens
      · intro node isNew inside
        have content := read.added node isNew inside
        refine ⟨parser.position, ?_, ?_, fun _ => ?_⟩
        · rw [spanOf, content]
          exact notedAt.opens
        · intro below isBelow own isOwn
          rw [content] at isBelow
          obtain rfl := List.mem_singleton.mp isBelow
          rw [(read.grows.state shift.origin ready.inside).word] at isOwn
          exact notedAt.rests own isOwn
        · rw [spanOf, content]
          rfl

/-- Reading all noted spans puts each where it begins. -/
theorem Placed.readAll
    (wellFormed : grammar.WellFormed)
    (sound : parser.Sound host grammar options)
    (position : parser.position = word)
    (shifts : List Shift)
    (ready : ∀ shift ∈ shifts, parser.ShiftReady host word shift)
    (notedAt : ∀ shift ∈ shifts, parser.NotedAt word shift)
    (placed : parser.Placed) :
    Placed (shifts.foldl (fun current shift => current.readShift word shift)
      parser) := by
  refine sound.readAll_keeps wellFormed position shifts ready ?_ placed
  intro current currentSound isPosition reads shift member isReady currentPlaced
  subst isPosition
  exact currentPlaced.readShift wellFormed currentSound isReady
    ((notedAt shift member).grows sound.loaded.ordered (ready shift member)
      reads.grows)

/-- A greedy pass moves nothing. -/
theorem Placed.filterWord
    (placed : parser.Placed)
    (word : Nat) :
    (parser.filterWord word).Placed :=
  placed.sameShape
    (trimmed_filterGreedily parser.compiled parser.spans word parser.stack
      parser.roots).shape
    rfl rfl rfl fun _ listed => .inl listed

/-- Reading all that was noted at a word puts each span where it begins. -/
theorem Placed.readShifts
    (wellFormed : grammar.WellFormed)
    (sound : parser.Sound host grammar options)
    (position : parser.position = word)
    (placed : parser.Placed) :
    (parser.readShifts word).Placed := by
  obtain ⟨taken, ready⟩ := sound.takeShifts position
  have none : Placed { parser with shifts := [] } :=
    placed.sameShape (.refl _) rfl rfl rfl fun _ noted => by cases noted
  refine none.readAll wellFormed taken position parser.shifts ready ?_
  intro shift noted
  have notedAt := placed.noted shift noted
  rw [position] at notedAt
  exact ⟨notedAt.opens, notedAt.rests⟩

/-- Finishing a word reads what was noted, and moves nothing. -/
theorem Placed.finishWord
    (wellFormed : grammar.WellFormed)
    (sound : parser.Sound host grammar options)
    (position : parser.position = word)
    (placed : parser.Placed) :
    (parser.finishWord word).Placed := by
  have read := placed.readShifts wellFormed sound position
  simp only [Parser.finishWord]
  split
  · exact (read.filterWord word).sameShape (.refl _) rfl rfl rfl
      fun _ listed => .inl listed
  · exact read.sameShape (.refl _) rfl rfl rfl fun _ listed => .inl listed

/-- A parser has its nodes in place before it did anything. -/
theorem Fresh.placed
    (fresh : parser.Fresh grammar options) :
    parser.Placed where
  nodes node inside := by
    rw [fresh.stack] at inside
    exact absurd inside (Nat.not_lt_zero node)
  noted := by simp [fresh.shifts]

/-- Whatever is reached with such a host has its nodes where their spans begin. -/
theorem Reachable.placed
    (wellFormed : grammar.WellFormed)
    (keeps : host.KeepsExtent)
    (reachable : Reachable host (grammar.compile options) config parser) :
    parser.Placed := by
  induction reachable with
  | new => exact (fresh_new config).placed
  | clear _ _ =>
      exact ⟨fun _ inside => absurd inside (Nat.not_lt_zero _),
        fun _ noted => by cases noted⟩
  | @start parser document input reached _ =>
      exact (fresh_start (reached.sound wellFormed).loaded.compiled document
        input).placed
  | @step parser state reached placed =>
      have stepped := Parsing.stepped_step wellFormed (leads_placed wellFormed keeps)
        (reached.sound wellFormed) state
      generalize ((Parsing.step host).run.run (parser, state)).1 =
        answer at stepped
      generalize ((Parsing.step host).run.run (parser, state)).2 =
        after at stepped
      cases stepped with
      | notStarted _ => exact placed
      | finished _ _ => exact placed
      | failed _ _ leads _ => exact leads placed
      | @processed settled _ _ _ _ leads working _ reductions isAfter =>
          subst isAfter
          have finished := (leads placed).finishWord wellFormed working.sound
            working.position
          have shifts := (working.sound.finishWord wellFormed working.position
            reductions).2.shifts
          refine ⟨fun node inside => ?_, fun shift listed => ?_⟩
          · obtain ⟨word, placedAt⟩ := finished.nodes node inside
            exact ⟨word, placedAt.opens, placedAt.rests, placedAt.ends⟩
          · simp only [shifts] at listed
            cases listed

end Parser

end SpanForest
