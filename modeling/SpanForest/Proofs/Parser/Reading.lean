import SpanForest.Proofs.Parser.Attaching
import SpanForest.Proofs.Parser.Dropping

namespace SpanForest

/-!
# Finishing a word

When a word is settled the spans that were noted are read, each into the layer
of a later word. A greedy pass may then trim the stack. Neither takes anything
away that accounts for what stays in the forest.
-/

section Words

variable {words : List InputWord} {word stop : Nat}

theorem lt_nextWord : word < nextWord words word stop := by
  unfold nextWord
  omega

/-- The word behind a span is a word, or the end of the input. -/
theorem nextWord_le_length
    (inside : word < words.length) :
    nextWord words word stop ≤ words.length := by
  unfold nextWord
  have shorter := (List.takeWhile_prefix (l := words.drop (word + 1))
    (·.start < stop)).length_le
  rw [List.length_drop] at shorter
  omega

/-- The word behind a span starts where the span stops, or later. -/
theorem le_start_nextWord
    {ahead : InputWord}
    (isNext : words[nextWord words word stop]? = some ahead) :
    stop ≤ ahead.start := by
  have behind : ∀ list : List InputWord,
      list[(list.takeWhile (·.start < stop)).length]? = some ahead →
        stop ≤ ahead.start := by
    intro list
    induction list with
    | nil => exact fun isNone => by cases isNone
    | cons first rest inductionHypothesis =>
        rw [List.takeWhile_cons]
        split
        · exact inductionHypothesis
        · rename_i notBefore
          intro isFirst
          cases isFirst
          exact Nat.le_of_not_lt (by simpa using notBefore)
  unfold nextWord at isNext
  rw [← List.getElem?_drop] at isNext
  exact behind _ isNext

end Words

namespace Parser

variable {σ : Type} {host : Host σ}
variable {grammar : Grammar} {options : CompileOptions} {word : Nat}
variable {first second third before after parser : Parser}

/-- A parse whose stack grew behind a word, and nothing else changed. -/
structure Reads (word : Nat) (before after : Parser) : Prop where
  only_stack : after = { before with stack := after.stack }
  stack : before.stack.Extends (word + 1) after.stack
  unharmed : before.stack.Unharmed after.stack

/-- The word behind a span that was noted at a word. -/
def destination (parser : Parser) (word : Nat) (shift : Shift) : Nat :=
  nextWord parser.words word (parser.spans.get shift.span).stop

/-- A noted span was read. -/
def HasRead (parser : Parser) (word : Nat) (shift : Shift) : Prop :=
  ∃ top node : Nat,
    parser.RestsOn (parser.destination word shift) shift.origin shift.target
        shift.span top node ∧
      (parser.stack.symbolNode node).span = shift.span

theorem Reads.refl (word : Nat) (parser : Parser) : parser.Reads word parser where
  only_stack := rfl
  stack := .refl _ _
  unharmed := .refl _

theorem Reads.trans
    (early : first.Reads word second)
    (late : second.Reads word third) :
    first.Reads word third where
  only_stack := by
    rw [late.only_stack, early.only_stack]
  stack := early.stack.trans late.stack
  unharmed := early.unharmed.trans late.unharmed

theorem Reads.grows
    (reads : before.Reads word after) :
    before.Grows (word + 1) after := by
  rw [reads.only_stack]
  exact { Grows.refl (word + 1) before with stack := reads.stack }

theorem Reads.position
    (reads : before.Reads word after) :
    after.position = before.position := by
  rw [reads.only_stack]

theorem readShift_eq
    (shift : Shift)
    (isLive : (parser.stack.stateNode shift.origin).removed = false) :
    parser.readShift word shift =
      { parser with
        stack := parser.stack.readNode (parser.destination word shift)
          shift.target shift.span (parser.spans.get shift.span).symbol
          shift.origin } := by
  unfold readShift GraphStack.readNode destination
  simp only [isLive, Bool.false_eq_true, if_false]
  generalize parser.stack.addState
    (nextWord parser.words word (parser.spans.get shift.span).stop)
    shift.target = added
  obtain ⟨⟨top, flag⟩, withState⟩ := added
  cases withState.findSpan? top shift.span <;> rfl

/-- What reading a noted span makes of the stack, if it is read. -/
theorem Sound.readNode
    (wellFormed : grammar.WellFormed)
    (sound : parser.Sound host grammar options)
    {shift : Shift}
    (ready : parser.ShiftReady host word shift)
    {symbol : SymbolId}
    (isSymbol : (parser.spans.get shift.span).symbol = some symbol)
    (leads :
      parser.compiled.table.goto?
          (parser.stack.stateNode shift.origin).state symbol =
        some shift.target) :
    (parser.stack.readNode (parser.destination word shift) shift.target
        shift.span (parser.spans.get shift.span).symbol
        shift.origin).Consistent parser.compiled.table ∧
      GraphStack.NodeRead (parser.destination word shift) shift.target
        ⟨shift.span, some symbol, some (parser.destination word shift),
          [shift.origin], [], false⟩
        shift.origin parser.stack
        (parser.stack.readNode (parser.destination word shift) shift.target
          shift.span (parser.spans.get shift.span).symbol shift.origin) := by
  have inLayers : parser.destination word shift <
      parser.stack.layers.size := by
    rw [sound.loaded.layers]
    exact Nat.lt_succ_of_le (nextWord_le_length ready.ahead)
  rw [isSymbol]
  refine sound.stack.readNode inLayers ready.inside ?_ leads ?_ shift.span
  · exact fun own isOwn => Nat.lt_of_lt_of_le (ready.below own isOwn) lt_nextWord
  · intro _ _ otherLeads
    rw [sound.loaded.compiled] at leads otherLeads
    exact CompiledGrammar.goto?_symbol_unique wellFormed otherLeads leads

section Read

variable {stack : GraphStack} {content : SymbolNode} {target : StateId}
variable {below behind : Nat}

theorem grows_nodeRead
    (read : GraphStack.NodeRead behind target content below parser.stack stack) :
    parser.Grows behind { parser with stack := stack } :=
  { Grows.refl behind parser with stack := read.grows }

/-- A node that is new was read, since it is not listed as reduced. -/
theorem Sound.shifted_nodeRead
    (sound : parser.Sound host grammar options)
    (read : GraphStack.NodeRead behind target content below parser.stack stack)
    {other : Nat}
    (isNew : ¬ other < parser.stack.symbols.size) :
    Parser.Shifted { parser with stack := stack } other := by
  intro own listed
  rw [read.reduced] at listed
  exact isNew (sound.stack.reduced_known own other listed).1

/-- A node that was read has no derivations, and the others keep theirs. -/
theorem carries_nodeRead
    (sound : parser.Sound host grammar options)
    (read : GraphStack.NodeRead behind target content below parser.stack stack)
    (noDerivations : content.derivations = []) :
    parser.Carries { parser with stack := stack } := by
  have grows := grows_nodeRead read
  constructor
  case unharmed => exact read.unharmed
  case spared =>
    intro dropped spares
    refine spares.grows grows (fun _ => read.unharmed.removed) ?_ ?_
    · intro other derivation member
      by_cases old : other < parser.stack.symbols.size
      · exact .inl ((read.symbol other old).1 ▸ member)
      · by_cases inside : other < stack.symbols.size
        · rw [read.added other (Nat.le_of_not_lt old) inside, noDerivations]
            at member
          cases member
        · rw [GraphStack.symbolNode_of_le (Nat.le_of_not_lt inside)] at member
          cases member
    · intro other _ notShifted isEmpty
      by_cases old : other < parser.stack.symbols.size
      · exact ⟨old, (read.symbol other old).1 ▸ isEmpty⟩
      · exact absurd (sound.shifted_nodeRead read old) notShifted
  case bounded =>
    intro bounded own
    rw [read.reduced]
    exact bounded own
  case rooted =>
    intro rooted other
    by_cases old : other < parser.stack.symbols.size
    · exact (rooted other).trans
        (IsRoot.iff_grows grows read.unharmed old).symm
    · exact ⟨fun listed => absurd ((rooted other).mp listed).inside old,
        fun isRoot => absurd (sound.shifted_nodeRead read old) isRoot.reduced⟩

/-- What is read accounts for itself. -/
theorem Sound.forest_nodeRead
    (sound : parser.Sound host grammar options)
    {span : SpanId}
    {symbol : SymbolId}
    (readable : parser.Readable host span symbol)
    (read :
      GraphStack.NodeRead behind target
        ⟨span, some symbol, some behind, [below], [], false⟩ below parser.stack
        stack)
    (consistent : stack.Consistent parser.compiled.table) :
    Parser.Forest host { parser with stack := stack } := by
  intro other inside
  have grows := grows_nodeRead read
  have ordered := sound.loaded.ordered
  by_cases old : other < parser.stack.symbols.size
  · refine Accounted.grows sound.forest grows ordered consistent old ?_
    rw [(read.symbol other old).1]
    exact List.Subset.refl _
  · have isContent := read.added other (Nat.le_of_not_lt old) inside
    constructor
    case span_known =>
      rw [isContent]
      exact (readable.stored ordered).1
    case shifted =>
      rw [isContent]
      exact fun _ => ⟨rfl, symbol, rfl, readable.grows grows ordered⟩
    case justified =>
      intro derivation member
      rw [isContent] at member
      cases member
    case born =>
      exact fun notShifted =>
        absurd (sound.shifted_nodeRead read old) notShifted

end Read

/-- Nothing is read on a node that was removed. -/
theorem readShift_of_removed
    {shift : Shift}
    (isRemoved : (parser.stack.stateNode shift.origin).removed = true) :
    parser.readShift word shift = parser := by
  simp [Parser.readShift, isRemoved]

/-- Reading a noted span. -/
theorem Sound.readShift
    (wellFormed : grammar.WellFormed)
    (sound : parser.Sound host grammar options)
    (position : parser.position = word)
    {shift : Shift}
    (ready : parser.ShiftReady host word shift) :
    (parser.readShift word shift).Sound host grammar options ∧
      parser.Reads word (parser.readShift word shift) ∧
      (parser.stack.Live → (parser.readShift word shift).HasRead word shift) := by
  cases isRemoved : (parser.stack.stateNode shift.origin).removed with
  | true =>
      rw [readShift_of_removed isRemoved]
      refine ⟨sound, .refl _ _, fun live => ?_⟩
      rw [live.state] at isRemoved
      cases isRemoved
  | false =>
      obtain ⟨symbol, readable, leads⟩ := ready.leads
      obtain ⟨consistent, read⟩ := sound.readNode wellFormed ready
        (readable.stored sound.loaded.ordered).2 leads
      have behind : word + 1 ≤ parser.destination word shift := lt_nextWord
      rw [readShift_eq shift isRemoved]
      generalize isDestination : parser.destination word shift = destination
        at behind read consistent ⊢
      generalize parser.stack.readNode destination shift.target shift.span
        (parser.spans.get shift.span).symbol shift.origin = stack
          at read consistent ⊢
      have reads : parser.Reads word { parser with stack := stack } :=
        ⟨rfl, read.grows.since_le behind, read.unharmed⟩
      refine ⟨sound.sameMemory position reads.grows ⟨rfl, rfl, rfl, rfl, rfl⟩
        consistent (sound.forest_nodeRead readable read consistent)
        (carries_nodeRead sound read rfl) (fun _ queued => .inl queued)
        fun _ noted => .inl noted, reads, fun _ => ?_⟩
      obtain ⟨top, node, listed, isState, held, isBelow, isSpan⟩ := read.rests
      refine ⟨top, node, ?_⟩
      have same : Parser.destination { parser with stack := stack } word shift =
          destination :=
        isDestination
      rw [same]
      exact ⟨⟨listed, isState, held, isBelow, .inl isSpan⟩, isSpan⟩

/-- What reading one of the noted spans keeps is kept when all of them are read. -/
theorem Sound.readAll_keeps
    {holds : Parser → Prop}
    (wellFormed : grammar.WellFormed)
    (sound : parser.Sound host grammar options)
    (position : parser.position = word)
    (shifts : List Shift)
    (ready : ∀ shift ∈ shifts, parser.ShiftReady host word shift)
    (keeps :
      ∀ current : Parser, current.Sound host grammar options →
        current.position = word → parser.Reads word current →
        ∀ shift ∈ shifts, current.ShiftReady host word shift →
          holds current → holds (current.readShift word shift))
    (held : holds parser) :
    holds
      (shifts.foldl (fun current shift => current.readShift word shift)
        parser) := by
  induction shifts generalizing parser with
  | nil => exact held
  | cons shift rest inductionHypothesis =>
      have isReady := ready shift List.mem_cons_self
      obtain ⟨readSound, reads, -⟩ := sound.readShift wellFormed position isReady
      refine inductionHypothesis readSound (reads.position.trans position) ?_ ?_
        (keeps parser sound position (.refl _ _) shift List.mem_cons_self isReady
          held)
      · exact fun other member =>
          (ready other (List.mem_cons_of_mem _ member)).grows reads.grows
            sound.loaded.ordered
      · exact fun current currentSound isPosition later other member =>
          keeps current currentSound isPosition (reads.trans later) other
            (List.mem_cons_of_mem _ member)

theorem HasRead.grows
    {since : Nat}
    {table : PackedTable}
    (sound : before.Sound host grammar options)
    (grows : before.Grows since after)
    (consistent : after.stack.Consistent table)
    {shift : Shift}
    (committed : (shift.span : Nat) < before.spans.size)
    (hasRead : before.HasRead word shift) :
    after.HasRead word shift := by
  obtain ⟨top, node, rests, isSpan⟩ := hasRead
  have same : after.destination word shift = before.destination word shift := by
    simp only [destination, grows.words, (grows.spans.get committed).2]
  have inside := sound.stack.child_known top node rests.held
  refine ⟨top, node, ?_, (grows.stack.symbol node inside).span.trans isSpan⟩
  rw [same]
  exact rests.grows sound grows consistent committed

/-- Reading noted spans, one after the other. -/
theorem Sound.readAll
    (wellFormed : grammar.WellFormed)
    (sound : parser.Sound host grammar options)
    (position : parser.position = word)
    (shifts : List Shift)
    (ready : ∀ shift ∈ shifts, parser.ShiftReady host word shift) :
    Sound host
        (shifts.foldl (fun current shift => current.readShift word shift) parser)
        grammar options ∧
      parser.Reads word
        (shifts.foldl (fun current shift => current.readShift word shift)
          parser) ∧
      (parser.stack.Live → ∀ shift ∈ shifts,
        HasRead
          (shifts.foldl (fun current shift => current.readShift word shift)
            parser)
          word shift) := by
  induction shifts generalizing parser with
  | nil =>
      exact ⟨sound, .refl _ _, fun _ _ noted => by cases noted⟩
  | cons shift rest inductionHypothesis =>
      rw [List.foldl_cons]
      have firstReady := ready shift List.mem_cons_self
      obtain ⟨readSound, reads, hasRead⟩ :=
        sound.readShift wellFormed position firstReady
      obtain ⟨restSound, later, restRead⟩ := inductionHypothesis readSound
        (reads.position.trans position) fun other noted =>
          (ready other (List.mem_cons_of_mem _ noted)).grows reads.grows
            sound.loaded.ordered
      refine ⟨restSound, reads.trans later, fun live other noted => ?_⟩
      rcases List.mem_cons.mp noted with isFirst | inRest
      · subst isFirst
        obtain ⟨symbol, readable, -⟩ := firstReady.leads
        exact (hasRead live).grows readSound later.grows restSound.stack
          (reads.grows.spans.get
            (readable.stored sound.loaded.ordered).1).1
      · exact restRead (reads.unharmed.live live) other inRest

/-- What finishing a word brings about. -/
structure Finishes (word : Nat) (before after : Parser) : Prop where
  grows : before.Grows (word + 1) after
  position : after.position = before.position
  spans : after.spans = before.spans
  synthesized : after.synthesized = before.synthesized
  candidates : after.candidates = before.candidates
  active : after.active = before.active
  reductions : after.reductions = before.reductions
  capped : after.capped = before.capped
  shifts : after.shifts = []
  performed : after.performed = ∅
  reads :
    before.stack.Live → ∀ shift ∈ before.shifts, after.HasRead word shift

/-- The nodes of a derivation stand at the word of the node it derives, or before it. -/
theorem Yields.word_le
    {table : PackedTable}
    {derivation : Derivation}
    {id : Nat}
    (consistent : parser.stack.Consistent table)
    (yields : parser.Yields host derivation (some word) id) :
    ∀ child : Nat, child ∈ derivation.children →
      ∃ own, (parser.stack.symbolNode child).word = some own ∧ own ≤ word := by
  obtain ⟨-, -, known, last, linked, -, -⟩ := yields
  revert known last linked
  generalize derivation.children = children
  intro known last linked
  induction children with
  | nil =>
      intro child isChild
      cases isChild
  | cons first rest inductionHypothesis =>
      have restBelow : ∀ child : Nat, child ∈ rest →
          ∃ own, (parser.stack.symbolNode child).word = some own ∧ own ≤ word := by
        refine inductionHypothesis
          (fun child member => known child (List.mem_cons_of_mem _ member))
          (fun final isFinal => ?_) linked.tail
        refine last final ?_
        rw [List.getLast?_cons_of_ne_nil (by rintro rfl; cases isFinal)]
        exact isFinal
      intro child isChild
      rcases List.mem_cons.mp isChild with isFirst | inRest
      · rw [isFirst]
        cases rest with
        | nil => exact ⟨word, last first (by simp), Nat.le_refl _⟩
        | cons second rest =>
            obtain ⟨holder, holds, below⟩ := (List.isChain_cons_cons.mp linked).1
            have fits := consistent.fits_of_mem ((holds holder).mpr rfl)
            obtain ⟨upper, upperFits⟩ := consistent.fits second (known second (by simp))
            obtain ⟨-, ⟨bound, isBound, before⟩, -⟩ := upperFits.child holder below
            obtain ⟨low, isLow⟩ := List.exists_mem_of_ne_nil _ fits.supported
            obtain ⟨-, ⟨own, isOwn, -⟩, -⟩ := fits.child low isLow
            obtain ⟨secondWord, isSecond, le⟩ := restBelow second (by simp)
            rw [upperFits.word, isBound] at isSecond
            obtain rfl := Option.some.inj isSecond
            exact ⟨own, fits.word.trans isOwn,
              Nat.le_trans (Nat.le_of_lt (before own isOwn)) le⟩
      · exact restBelow child inRest

/-- What was dropped before a greedy pass, and what the pass drops. -/
theorem Spares.filterWord
    {table : PackedTable}
    {dropped : Nat → Prop}
    (spares : parser.Spares dropped)
    (forest : parser.Forest host)
    (consistent : parser.stack.Consistent table)
    (word : Nat) :
    ∃ droppedSince, (parser.filterWord word).Spares droppedSince := by
  obtain ⟨lost, sheds⟩ := sheds_filterGreedily parser.compiled parser.spans word
    parser.stack parser.roots
  have trimmed := trimmed_filterGreedily parser.compiled parser.spans word
    parser.stack parser.roots
  unfold Parser.filterWord
  simp only
  generalize filterGreedily parser.compiled parser.spans word parser.stack
    parser.roots = result at trimmed sheds ⊢
  refine ⟨fun node => dropped node ∨ lost node, ?_, ?_, ?_⟩
  · rintro node (old | isLost)
    · exact trimmed.removed node (spares.removed node old)
    · exact sheds.removed node isLost
  · intro node inside notShifted isEmpty
    rw [trimmed.shape.symbols_size] at inside
    refine (sheds.emptied node isEmpty).imp_left
      (spares.emptied node inside fun shifted => notShifted fun own => ?_)
    rw [trimmed.shape.layer]
    exact shifted own
  · rintro node isLive derivation member ⟨child, isChild, isDropped⟩
    have wasLive : (parser.stack.symbolNode node).removed = false :=
      Bool.eq_false_iff.mpr fun wasRemoved =>
        Bool.eq_false_iff.mp isLive (trimmed.removed node wasRemoved)
    have wasMember := (trimmed.derivations node).subset member
    have inside := GraphStack.lt_size_of_mem_derivations wasMember
    rcases isDropped with old | isLost
    · exact spares.spared node wasLive derivation wasMember ⟨child, isChild, old⟩
    · refine sheds.spared node isLive derivation member child isChild isLost ?_
      intro own isOwn
      obtain ⟨-, id, yields, -⟩ := (forest node inside).justified derivation wasMember
      exact (isOwn ▸ yields).word_le consistent child isChild

/-- A greedy pass leaves what accounts for the forest. -/
theorem Sound.filterWord
    (sound : parser.Sound host grammar options)
    (isGreedy : parser.config.greedy = true)
    (settled : parser.reductions = [])
    (word : Nat) :
    (parser.filterWord word).Sound host grammar options := by
  obtain ⟨dropped, spares⟩ := sound.spared
  have spared := spares.filterWord sound.forest sound.stack word
  unfold Parser.filterWord at spared ⊢
  simp only at spared ⊢
  have trimmed := trimmed_filterGreedily parser.compiled parser.spans word
    parser.stack parser.roots
  have roots := @mem_roots_filterGreedily parser.compiled parser.spans word
    parser.stack _ fun root listed => ((sound.rooted root).mp listed).live
  generalize filterGreedily parser.compiled parser.spans word parser.stack
    parser.roots = result at trimmed spared roots ⊢
  have consistent := trimmed.shape.consistent sound.stack
  have grows : parser.Grows 0
      { parser with stack := result.stack, roots := result.roots } :=
    { Grows.refl 0 parser with stack := trimmed.shape.extends 0 }
  have ordered := sound.loaded.ordered
  constructor
  case loaded => exact sound.loaded.grows grows sound.loaded.numbered
  case stack => exact consistent
  case forest =>
    intro other inside
    rw [trimmed.shape.symbols_size] at inside
    exact Accounted.grows sound.forest grows ordered consistent inside
      (trimmed.derivations other).subset
  case live =>
    intro isCalm
    rw [isGreedy] at isCalm
    cases isCalm
  case spared => exact spared
  case bounded =>
    intro own
    rw [trimmed.shape.layer]
    exact sound.bounded own
  case rooted =>
    intro node
    rw [roots, sound.rooted node]
    have shape := trimmed.shape
    constructor
    · rintro ⟨⟨inside, reduced, symbol, -⟩, live⟩
      refine ⟨?_, fun shifted => reduced fun own => ?_, ?_, live⟩
      · rw [shape.symbols_size]
        exact inside
      · rw [← shape.layer own]
        exact shifted own
      · rw [(shape.symbol node).2.1]
        exact symbol
    · rintro ⟨inside, reduced, symbol, live⟩
      refine ⟨⟨?_, fun shifted => reduced fun own => ?_, ?_, ?_⟩, live⟩
      · rw [← shape.symbols_size]
        exact inside
      · rw [shape.layer own]
        exact shifted own
      · rw [← (shape.symbol node).2.1]
        exact symbol
      · exact Bool.eq_false_iff.mpr fun wasRemoved =>
          Bool.eq_false_iff.mp live (trimmed.removed node wasRemoved)
  case remembers =>
    exact sound.remembers.grows ordered grows sound.remembers.evaluator
      (fun _ _ _ stored => .inl stored) fun _ _ _ stored => .inl stored
  case reductions =>
    intro reduction queued
    rw [settled] at queued
    cases queued
  case shifts =>
    exact fun shift noted => (sound.shifts shift noted).grows grows ordered

/-- The spans that were noted can be read once they are no longer noted. -/
theorem Sound.takeShifts
    (sound : parser.Sound host grammar options)
    (position : parser.position = word) :
    Parser.Sound host { parser with shifts := [] } grammar options ∧
      ∀ shift ∈ parser.shifts,
        Parser.ShiftReady host { parser with shifts := [] } word shift := by
  have grows : parser.Grows 0 { parser with shifts := [] } :=
    { Grows.refl 0 parser with }
  refine ⟨sound.sameStack grows rfl rfl rfl sound.loaded.numbered ?_
    (List.Subset.refl _) (List.nil_subset _), fun shift noted =>
    (position ▸ sound.shifts shift noted).grows grows sound.loaded.ordered⟩
  exact sound.remembers.grows sound.loaded.ordered grows
    sound.remembers.evaluator (fun _ _ _ stored => .inl stored)
    fun _ _ _ stored => .inl stored

theorem Sound.readShifts
    (wellFormed : grammar.WellFormed)
    (sound : parser.Sound host grammar options)
    (position : parser.position = word) :
    (parser.readShifts word).Sound host grammar options ∧
      Parser.Reads word { parser with shifts := [] } (parser.readShifts word) ∧
      (parser.stack.Live → ∀ shift ∈ parser.shifts,
        (parser.readShifts word).HasRead word shift) := by
  obtain ⟨taken, ready⟩ := sound.takeShifts position
  exact taken.readAll wellFormed position parser.shifts ready

/-- What was queued at a word and the counts of it do not matter to soundness. -/
theorem Sound.closeWord
    (sound : parser.Sound host grammar options)
    (current : ReductionStats)
    (wordStats : List ReductionStats)
    (totals : ReductionStats) :
    Parser.Sound host
      { parser with
        performed := ∅, current := current, wordStats := wordStats
        totals := totals }
      grammar options := by
  have grows : parser.Grows 0
      { parser with
        performed := ∅, current := current, wordStats := wordStats
        totals := totals } :=
    { Grows.refl 0 parser with }
  exact sound.sameStack grows rfl rfl rfl sound.loaded.numbered
    (sound.remembers.grows sound.loaded.ordered grows sound.remembers.evaluator
      (fun _ _ _ stored => .inl stored) fun _ _ _ stored => .inl stored)
    (List.Subset.refl _) (List.Subset.refl _)

/-- Finishing a word keeps a parse sound. -/
theorem Sound.finishWord
    (wellFormed : grammar.WellFormed)
    (sound : parser.Sound host grammar options)
    (position : parser.position = word)
    (settled : parser.reductions = []) :
    (parser.finishWord word).Sound host grammar options ∧
      parser.Finishes word (parser.finishWord word) := by
  obtain ⟨readSound, reads, hasRead⟩ := sound.readShifts wellFormed position
  obtain ⟨stack, roots, filteredSound, isFiltered, extended⟩ :
      ∃ stack roots,
        Parser.Sound host
            { parser with shifts := [], stack := stack, roots := roots }
            grammar options ∧
          (if (parser.readShifts word).config.greedy then
              (parser.readShifts word).filterWord word
            else
              parser.readShifts word) =
            { parser with shifts := [], stack := stack, roots := roots } ∧
          ∀ since, (parser.readShifts word).stack.Extends since stack := by
    have isRead := reads.only_stack
    generalize parser.readShifts word = read at readSound isRead ⊢
    split
    · rename_i isGreedy
      have trimmed := trimmed_filterGreedily read.compiled read.spans word
        read.stack read.roots
      refine ⟨(read.filterWord word).stack, (read.filterWord word).roots, ?_, ?_,
        fun since => trimmed.shape.extends since⟩
      · have filtered := readSound.filterWord isGreedy
          (by rw [isRead]; exact settled) word
        rw [isRead] at filtered ⊢
        exact filtered
      · rw [isRead]
        rfl
    · refine ⟨read.stack, parser.roots, ?_, isRead, fun _ => .refl _ _⟩
      exact isRead ▸ readSound
  unfold Parser.finishWord
  simp only [isFiltered]
  have grows : parser.Grows (word + 1)
      { parser with shifts := [], stack := stack, roots := roots } :=
    { Grows.refl (word + 1) parser with stack := reads.stack.trans (extended _) }
  have finishes : ∀ current wordStats totals, Parser.Finishes word parser
      { parser with
        shifts := [], stack := stack, roots := roots, performed := ∅
        current := current, wordStats := wordStats, totals := totals } := by
    intro current wordStats totals
    refine ⟨{ grows with }, rfl, rfl, rfl, rfl, rfl, rfl, rfl, rfl, rfl,
      fun live shift noted => ?_⟩
    have again : (parser.readShifts word).Grows 0
        { parser with
          shifts := [], stack := stack, roots := roots, performed := ∅
          current := current, wordStats := wordStats, totals := totals } := by
      have isRead := reads.only_stack
      have stackGrows := extended 0
      generalize parser.readShifts word = read at isRead stackGrows ⊢
      generalize read.stack = readStack at isRead stackGrows
      subst isRead
      exact { Grows.refl 0 _ with stack := stackGrows }
    obtain ⟨symbol, readable, -⟩ := (sound.shifts shift noted).leads
    have committed := (readable.stored sound.loaded.ordered).1
    exact (hasRead live shift noted).grows readSound again filteredSound.stack
      (reads.grows.spans.get committed).1
  exact ⟨filteredSound.closeWord _ _ _, finishes _ _ _⟩

end Parser

end SpanForest
