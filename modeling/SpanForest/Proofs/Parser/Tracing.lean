import SpanForest.Proofs.Parser.Extents
import SpanForest.Proofs.Parser.Packing

namespace SpanForest

/-!
# Where spans come from

Every span of a parse was read from the input, synthesized from an input span, or
produced from nodes that can still be told. So with a host that leaves the number,
the extent and the head of its target alone, a span takes its features from an older
span within its extent, and following heads comes down to the input.
-/

/-- A host that lets rules produce spans with the frame of their target only. -/
structure Host.KeepsFrame {σ : Type} (host : Host σ) : Prop
    extends host.KeepsExtent where
  id :
    ∀ context rule target rhs state answer,
      (host.execute context rule target rhs state).1 = .ok (some answer) →
        answer.id = target.id
  head :
    ∀ context rule target rhs state answer,
      (host.execute context rule target rhs state).1 = .ok (some answer) →
        answer.head = target.head

/-- The inheriting host changes nothing but features. -/
theorem Host.keepsFrame_inheriting {σ : Type} :
    (Host.inheriting : Host σ).KeepsFrame where
  toKeepsExtent := Host.keepsExtent_inheriting
  id _ _ _ _ _ _ answered := by
    cases answered
    unfold inheritFeatures
    split <;> rfl
  head _ _ _ _ _ _ answered := by
    cases answered
    unfold inheritFeatures
    split <;> rfl

namespace Parser

variable {σ : Type} {host : Host σ}
variable {grammar : Grammar} {options : CompileOptions} {word : Nat}
variable {config : ParserConfig}
variable {first second third before after parser : Parser}

section Origins

/-- How a span came to be stored. -/
inductive Origin (host : Host σ) (parser : Parser) (id : Nat) : Prop where
  | input :
      id ∈ parser.input →
      Origin host parser id
  | synthesized {base : Nat} {declaration : Synthesized} :
      base < id →
      parser.Synthesizes host base declaration id →
      Origin host parser id
  | produced {derivation : Derivation} {at? : Option Nat} :
      parser.Yields host derivation at? id →
      Origin host parser id

/-- A sound parse in which every span came from somewhere. -/
structure Traced
    (host : Host σ)
    (grammar : Grammar)
    (options : CompileOptions)
    (parser : Parser) : Prop where
  sound : parser.Sound host grammar options
  origin : ∀ id : Nat, id < parser.spans.size → parser.Origin host id

/-- A span that was committed since. -/
def IsNew (before after : Parser) (id : Nat) : Prop :=
  before.spans.size ≤ id ∧ id < after.spans.size

/-- No span is new where none was committed. -/
theorem not_isNew
    {id : Nat}
    (spans : after.spans = before.spans) :
    ¬ before.IsNew after id := by
  rintro ⟨isNew, inside⟩
  rw [spans] at inside
  exact absurd inside (Nat.not_lt_of_le isNew)

/-- The only new span is the one that was committed. -/
theorem IsNew.eq_nextId
    {id : Nat}
    {span : Span}
    (isNew : before.IsNew after id)
    (spans : after.spans = (before.spans.push span).2) :
    id = before.spans.nextId := by
  obtain ⟨fromThere, inside⟩ := isNew
  rw [spans, SpanStore.size_push] at inside
  exact Nat.le_antisymm (Nat.le_of_lt_succ inside) fromThere

/-- Where a span came from does not change. -/
theorem Origin.grows
    {since id : Nat}
    (origin : before.Origin host id)
    (sound : before.Sound host grammar options)
    (grows : before.Grows since after)
    (afterSound : after.Sound host grammar options) :
    after.Origin host id := by
  have ordered := sound.loaded.ordered
  cases origin with
  | input member => exact .input (grows.input ▸ member)
  | synthesized older synthesizes =>
      exact .synthesized older (synthesizes.grows grows ordered)
  | produced yields =>
      exact .produced (yields.grows grows ordered afterSound.stack
        fun node inside => (sound.forest node inside).span_known)

/-- A parse that went on is traced if its new spans came from somewhere. -/
theorem Traced.gains
    {since : Nat}
    (traced : before.Traced host grammar options)
    (grows : before.Grows since after)
    (sound : after.Sound host grammar options)
    (gained : ∀ id, before.IsNew after id → after.Origin host id) :
    after.Traced host grammar options where
  sound := sound
  origin id inside := by
    by_cases old : id < before.spans.size
    · exact (traced.origin id old).grows traced.sound grows sound
    · exact gained id ⟨Nat.le_of_not_lt old, inside⟩

/-- A parse that went on without committing spans is still traced. -/
theorem Traced.stays
    {since : Nat}
    (traced : before.Traced host grammar options)
    (grows : before.Grows since after)
    (sound : after.Sound host grammar options)
    (spans : after.spans = before.spans) :
    after.Traced host grammar options :=
  traced.gains grows sound fun _ isNew => absurd isNew (not_isNew spans)

end Origins

section Synthesis

/-- A parse that asked, and in which every span that is new was synthesized. -/
structure Enters (before after : Parser) : Prop extends before.Asks after where
  entered :
    ∀ id, before.IsNew after id →
      ∃ key : SpanId × SymbolId, after.synthesized[key]? = some (some id)

theorem Enters.of_spans
    (asks : before.Asks after)
    (spans : after.spans = before.spans) :
    before.Enters after :=
  ⟨asks, fun _ isNew => absurd isNew (not_isNew spans)⟩

theorem Enters.trans
    (early : first.Enters second)
    (late : second.Enters third) :
    first.Enters third where
  toAsks := early.toAsks.trans late.toAsks
  entered id isNew := by
    by_cases old : id < second.spans.size
    · obtain ⟨key, stored⟩ := early.entered id ⟨isNew.1, old⟩
      exact ⟨key, late.synthesized key _ stored⟩
    · exact late.entered id ⟨Nat.le_of_not_lt old, isNew.2⟩

/-- Synthesized spans came from the input. -/
theorem Traced.enters
    (traced : before.Traced host grammar options)
    (enters : before.Enters after)
    (sound : after.Sound host grammar options) :
    after.Traced host grammar options := by
  refine traced.gains (enters.grows 0) sound fun id isNew => ?_
  obtain ⟨⟨base, symbol⟩, stored⟩ := enters.entered id isNew
  obtain ⟨declaration, -, synthesizes⟩ :=
    sound.remembers.synthesized base symbol id stored
  have fromInput := synthesizes.from_input
  rw [enters.same] at fromInput
  exact .synthesized (Nat.lt_of_lt_of_le
    (traced.sound.loaded.ordered.input_known base fromInput) isNew.1) synthesizes

end Synthesis

end Parser

namespace Parsing

variable {σ : Type} {host : Host σ} {before : Parser}
variable {grammar : Grammar} {options : CompileOptions}

theorem composes_enters : Composes Parser.Enters where
  refl parser := .of_spans (.refl parser) rfl
  trans _ _ _ := .trans

/-- A span that is synthesized for the first time is entered. -/
theorem enters_synthesize
    (base : SpanId)
    (declaration : Synthesized) :
    Keeps Parser.Enters (synthesize host base declaration) := by
  intro before
  have recorded : ∀ (current : Parser) (made : Option SpanId),
      before.Asks current →
      current.synthesized[(base, declaration.symbol)]? = none →
      (∀ id, before.IsNew current id → made = some id) →
      Ensures current
        (do
          modifyParser fun current =>
            { current with
              synthesized :=
                current.synthesized.insert (base, declaration.symbol) made }
          return made : Parsing σ (Option SpanId))
        (fun _ after => before.Enters after) before.Enters := by
    intro current made asks unknown only
    refine ensures_modify (.pure ⟨asks.trans (.synthesize unknown made), ?_⟩)
    intro id isNew
    rw [only id isNew]
    exact ⟨(base, declaration.symbol), Std.TreeMap.getElem?_insert_self⟩
  unfold synthesize
  refine ensures_get ?_
  split
  · exact .pure (.of_spans (.refl before) rfl)
  · rename_i unknown
    refine .bind ((evaluates_testPredicate host _ _ before).imp
      (fun _ _ evaluates => evaluates) ?_) ?_
    · rintro _ ⟨evaluator, retains, rfl⟩
      exact .of_spans (Parser.Evaluates.asks ⟨evaluator, retains, rfl⟩) rfl
    · rintro holds _ ⟨evaluator, retains, rfl⟩
      have asks := Parser.Evaluates.asks ⟨evaluator, retains, rfl⟩
      cases holds with
      | true =>
          refine ensures_get (ensures_commit (recorded _ _
            (asks.trans (.commit _ _)) unknown fun id isNew => ?_))
          rw [isNew.eq_nextId rfl]
      | false =>
          exact recorded _ _ asks unknown
            fun _ isNew => absurd isNew (Parser.not_isNew rfl)

theorem enters_collectCandidates (word : Nat) :
    Keeps Parser.Enters (collectCandidates host word) :=
  keeps_collectCandidates host composes_enters
    (fun _ _ => .of_spans (.ofNotes rfl) rfl) enters_synthesize word

/-- An action that runs commits nothing but its outcome. -/
theorem ensures_produce_new
    (rule : Rule)
    (ids : List SpanId) :
    Ensures before (produce host rule ids)
      (fun outcome after => ∀ id, before.IsNew after id → outcome = some id)
      (fun after => after.spans = before.spans) := by
  have recorded : ∀ (current : Parser) (outcome : Option SpanId),
      (∀ id, before.IsNew current id → outcome = some id) →
      Ensures current
        (do
          modifyParser (·.recordOutcome rule.id ids outcome)
          return outcome : Parsing σ (Option SpanId))
        (fun outcome after => ∀ id, before.IsNew after id → outcome = some id)
        (fun after => after.spans = before.spans) :=
    fun _ _ only => ensures_modify (.pure only)
  have nothing : ∀ id, before.IsNew before id → (none : Option SpanId) = some id :=
    fun _ isNew => absurd isNew (Parser.not_isNew rfl)
  unfold produce
  refine ensures_get (ensures_runAction fun state => ?_)
  split
  · refine ensures_commit (ensures_modify (recorded _ _ fun id isNew => ?_))
    rw [isNew.eq_nextId rfl]
  · exact recorded _ _ nothing
  · exact recorded _ _ nothing
  · exact fun _ => rfl

/-- Reducing along a path commits nothing but its outcome. -/
theorem ensures_reducePath_new
    (rule : Rule)
    (nodes : List SymbolNodeId) :
    Ensures before (reducePath host rule nodes)
      (fun outcome after => ∀ id, before.IsNew after id → outcome = some id)
      (fun after => after.spans = before.spans) := by
  unfold reducePath
  refine ensures_modify (ensures_get (.bind
    ((evaluates_predicatesHold host rule _ _).imp (fun _ _ evaluates => evaluates)
      ?_) ?_))
  · rintro _ ⟨evaluator, -, rfl⟩
    rfl
  · rintro holds _ ⟨evaluator, -, rfl⟩
    cases holds with
    | false => exact .pure fun _ isNew => absurd isNew (Parser.not_isNew rfl)
    | true =>
        refine ensures_get ?_
        split
        · exact ensures_modify
            (.pure fun _ isNew => absurd isNew (Parser.not_isNew rfl))
        · exact .pure fun _ isNew => absurd isNew (Parser.not_isNew rfl)
        · exact ensures_produce_new rule _

end Parsing

namespace Parser

variable {σ : Type} {host : Host σ}
variable {grammar : Grammar} {options : CompileOptions} {word : Nat}
variable {config : ParserConfig}
variable {parser : Parser}

/-- Everything that is done at a word commits spans that came from somewhere. -/
theorem leads_traced
    (wellFormed : grammar.WellFormed) :
    Leads host grammar options word fun before after =>
      before.1.Traced host grammar options →
        after.1.Traced host grammar options where
  refl _ := id
  trans _ _ _ early late traced := late (early traced)
  begins parser _ traced :=
    traced.stays { Grows.refl 0 parser with }
      (traced.sound.dropWork _ _ (List.Subset.refl _) _) rfl
  collects {parser} sound state traced := by
    have terms : host.Terms grammar True := ⟨wellFormed, .inr trivial⟩
    have collectedSound := ((Parsing.ensures_collectCandidates terms.tests sound
      word).imp (fun _ _ collected => collected.2.1)
      fun _ stopped => stopped.1).leadsTo state
    exact traced.enters ((Parsing.enters_collectCandidates word parser).leadsTo
      state) collectedSound
  wakes {parser} _ sound traced := by
    obtain ⟨wokenSound, woken⟩ := sound.wakeWord word
    have idle : Traced host grammar options { parser with active := [] } :=
      traced.stays { Grows.refl 0 parser with }
        (sound.dropWork _ _ (List.Subset.refl _) _) rfl
    refine idle.stays (woken.wakes.grows 0) wokenSound ?_
    rw [woken.wakes.only_marks]
  acts {parser node rest} _ working isActive traced := by
    obtain ⟨taken, takes⟩ := working.drop
      (isActive ▸ List.suffix_cons node rest) (List.suffix_refl _)
    obtain ⟨acted, acts⟩ := taken.act wellFormed
      (working.active node (isActive ▸ List.mem_cons_self))
    exact traced.stays (takes.grows.trans acts.grows) acted.sound
      (onlyWork_act node).spans
  takes {parser reduction rest} _ working isNext traced := by
    obtain ⟨taken, takes⟩ := working.drop (List.suffix_refl _)
      (isNext ▸ List.suffix_cons reduction rest)
    exact traced.stays takes.grows taken.sound rfl
  reduces {parser rule nodes via} working user handle state traced := by
    have terms : host.Terms grammar True := ⟨wellFormed, .inr trivial⟩
    have traces : Ensures parser
        (Parsing.reducePath host (grammar.rule rule) nodes)
        (fun _ after => after.Traced host grammar options)
        (·.Traced host grammar options) := by
      refine ((Parsing.ensures_reducePath terms working.sound user
        (working.sound.spansOf_known handle.known)).and
        ((Parsing.asks_reducePath host (grammar.rule rule) nodes parser).and
          (Parsing.ensures_reducePath_new (grammar.rule rule) nodes))).imp ?_ ?_
      · rintro outcome after ⟨⟨learns, sound, isOutcome⟩, asks, only⟩
        refine traced.gains (asks.grows word) sound fun id isNew => ?_
        obtain rfl := only id isNew
        exact .produced (handle.yields_later (asks.grows word)
          (learns.proceeds word).unharmed sound isOutcome.1 isOutcome.2)
      · rintro after ⟨⟨sound, -⟩, asks, spans⟩
        exact traced.stays (asks.grows word) sound spans
    exact traces.leadsTo state
  attaches {parser below derivation id} _ working attachable _ traced := by
    obtain ⟨attached, proceeds, -⟩ := working.attach wellFormed attachable
    exact traced.stays proceeds.grows attached.sound
      (onlyWork_attach word below id derivation).spans

/-- A document that was just loaded has the spans of the input only. -/
theorem traced_start
    (host : Host σ)
    (compiled : parser.compiled = grammar.compile options)
    (document : Document)
    (input : List InputSpan) :
    (parser.start document input).Traced host grammar options where
  sound := (fresh_start compiled document input).sound host
  origin _ inside := .input (mem_sortBy.mpr (List.mem_range.mpr inside))

/-- In whatever is reached, every span came from somewhere. -/
theorem Reachable.traced
    (wellFormed : grammar.WellFormed)
    (reachable : Reachable host (grammar.compile options) config parser) :
    parser.Traced host grammar options := by
  have sound := reachable.sound wellFormed
  induction reachable with
  | new => exact ⟨sound, fun _ inside => absurd inside (Nat.not_lt_zero _)⟩
  | clear _ _ => exact ⟨sound, fun _ inside => absurd inside (Nat.not_lt_zero _)⟩
  | start document input reached _ =>
      exact traced_start host (reached.sound wellFormed).loaded.compiled document
        input
  | @step parser state reached traced =>
      have reachedSound := reached.sound wellFormed
      have stepped := Parsing.stepped_step wellFormed (leads_traced wellFormed)
        reachedSound state
      generalize ((Parsing.step host).run.run (parser, state)).1 = answer at stepped
      generalize ((Parsing.step host).run.run (parser, state)).2 = after
        at stepped sound ⊢
      cases stepped with
      | notStarted _ => exact traced reachedSound
      | finished _ _ => exact traced reachedSound
      | failed _ _ leads _ => exact leads (traced reachedSound)
      | processed _ _ leads working _ reductions isAfter =>
          subst isAfter
          have finishes := (working.sound.finishWord wellFormed working.position
            reductions).2
          exact (leads (traced reachedSound)).stays
            { finishes.grows with } sound finishes.spans

section Heads

/-- A span whose head is an older span within its extent. -/
structure HeadWithin (parser : Parser) (id : Nat) : Prop where
  older : (parser.spans.get id).head < id
  start_le :
    (parser.spans.get id).start ≤
      (parser.spans.get (parser.spans.get id).head).start
  stop_le :
    (parser.spans.get (parser.spans.get id).head).stop ≤
      (parser.spans.get id).stop

/--
Following heads a number of times, each to an older span, leads from a span to an
input span within its extent, which is its own head.
-/
structure HeadsDownTo
    (parser : Parser)
    (id count : Nat)
    (base : Span) : Prop where
  ends : parser.spans.nthHead? id count = some base
  falls :
    ∀ step < count, ∃ upper lower,
      parser.spans.nthHead? id step = some upper ∧
        parser.spans.nthHead? id (step + 1) = some lower ∧
        lower.id = upper.head ∧ lower.id < upper.id
  from_input : base.id ∈ parser.input
  own_head : base.head = base.id
  start_le : (parser.spans.get id).start ≤ base.start
  stop_le : base.stop ≤ (parser.spans.get id).stop

/-- No head needs to be followed from an input span. -/
theorem headsDownTo_of_input
    (ordered : parser.context.Ordered)
    (heads : parser.OwnHeads)
    {id : Nat}
    (member : id ∈ parser.input) :
    parser.HeadsDownTo id 0 (parser.spans.get id) := by
  have inside := ordered.input_known id member
  have isOwn : (parser.spans.get id).id = id := ordered.span_id id inside
  constructor
  case ends => exact SpanStore.get?_of_lt inside
  case falls => exact fun step early => absurd early (Nat.not_lt_zero step)
  case from_input => exact isOwn.symm ▸ member
  case own_head => exact (heads id member).trans isOwn.symm
  case start_le => exact Nat.le_refl _
  case stop_le => exact Nat.le_refl _

/-- A span leads where its head leads, by one more head. -/
theorem HeadsDownTo.climb
    (ordered : parser.context.Ordered)
    {id count : Nat}
    {base : Span}
    (inside : id < parser.spans.size)
    (within : parser.HeadWithin id)
    (headsDown : parser.HeadsDownTo (parser.spans.get id).head count base) :
    parser.HeadsDownTo id (count + 1) base := by
  have follow := SpanStore.nthHead?_succ inside
  have headInside := Nat.lt_trans within.older inside
  constructor
  case ends => exact (follow count).trans headsDown.ends
  case falls =>
    intro step early
    cases step with
    | zero =>
        refine ⟨parser.spans.get id, parser.spans.get (parser.spans.get id).head,
          SpanStore.get?_of_lt inside, ?_, ordered.span_id _ headInside, ?_⟩
        · exact (follow 0).trans (SpanStore.get?_of_lt headInside)
        · rw [show (parser.spans.get id).id = id from ordered.span_id id inside,
            show (parser.spans.get (parser.spans.get id).head).id =
              (parser.spans.get id).head from ordered.span_id _ headInside]
          exact within.older
    | succ step =>
        rw [follow, follow]
        exact headsDown.falls step (Nat.lt_of_succ_lt_succ early)
  case from_input => exact headsDown.from_input
  case own_head => exact headsDown.own_head
  case start_le => exact Nat.le_trans within.start_le headsDown.start_le
  case stop_le => exact Nat.le_trans headsDown.stop_le within.stop_le

/-- What a host that keeps frames accepted has one of the spans as its head. -/
theorem Accepts.head
    (keeps : host.KeepsFrame)
    (ordered : parser.context.Ordered)
    {rule : Rule}
    {ids : List SpanId}
    {id : Nat}
    (accepts : parser.Accepts host rule ids id)
    (nonempty : ids ≠ []) :
    (parser.spans.get id).head ∈ ids ∧ (parser.spans.get id).head < id := by
  obtain ⟨spans, state, answer, answered, rfl, older, same, stored⟩ :=
    accepts.shown
  have isNext : answer.id = spans.nextId := keeps.id _ _ _ _ _ _ answered
  rw [SpanStore.committed_eq isNext] at stored
  have committed := SpanStore.lt_of_get? stored
  have numbered : ∀ own ∈ ids, (parser.spans.get own).id = own :=
    fun own member =>
      ordered.span_id own (Nat.lt_trans (older own member) committed)
  have isHead : answer.head =
      ((ids.map parser.spans.get)[rule.rootIndex]?.getD
        ((ids.map parser.spans.get).headD default)).id :=
    same ▸ keeps.head _ _ _ _ _ _ answered
  have member : answer.head ∈ ids := by
    rw [isHead, List.getElem?_map]
    cases isRoot : ids[rule.rootIndex]? with
    | some root =>
        have listed := List.mem_of_getElem? isRoot
        exact (numbered root listed).symm ▸ listed
    | none =>
        obtain ⟨first, rest, rfl⟩ := List.exists_cons_of_ne_nil nonempty
        exact (numbered first List.mem_cons_self).symm ▸ List.mem_cons_self
  rw [SpanStore.get_of_get? stored]
  exact ⟨member, older _ member⟩

variable (wellFormed : grammar.WellFormed)
variable (placed : parser.Placed)
variable (traced : parser.Traced host grammar options)
include wellFormed placed traced

/-- With a host that keeps extents, no span stops before it starts. -/
theorem Traced.proper
    (keeps : host.KeepsExtent)
    {id : Nat}
    (inside : id < parser.spans.size) :
    (parser.spans.get id).start ≤ (parser.spans.get id).stop := by
  have sound := traced.sound
  cases traced.origin id inside with
  | input member => exact sound.loaded.ordered.input_proper id member
  | synthesized _ synthesizes =>
      exact (Readable.synthesized synthesizes).start_le_stop sound
  | produced yields =>
      exact (sound.covers_of_yields wellFormed keeps placed yields).proper
        fun child member => (sound.spread wellFormed keeps placed
          (yields.known child member)).proper

/-- A span is from the input, or its head is an older span within its extent. -/
theorem Traced.headWithin
    (keeps : host.KeepsFrame)
    {id : Nat}
    (inside : id < parser.spans.size) :
    id ∈ parser.input ∨ parser.HeadWithin id := by
  have sound := traced.sound
  cases traced.origin id inside with
  | input member => exact .inl member
  | @synthesized base declaration older synthesizes =>
      have isSpan := SpanStore.get_of_get? synthesizes.stored
      refine .inr ⟨?_, ?_, ?_⟩ <;> rw [isSpan]
      · exact older
      · exact Nat.le_refl _
      · exact Nat.le_refl _
  | @produced derivation _ yields =>
      have nonempty := yields.children_ne_nil wellFormed sound.loaded
      obtain ⟨member, older⟩ := yields.accepted.head keeps sound.loaded.ordered
        (List.map_eq_nil_iff.not.mpr nonempty)
      obtain ⟨child, isChild, isHead⟩ := List.mem_map.mp member
      have covers := sound.covers_of_yields wellFormed keeps.toKeepsExtent placed
        yields
      obtain ⟨start_le, stop_le⟩ := covers.within (fun other member =>
        (sound.spread wellFormed keeps.toKeepsExtent placed
          (yields.known other member)).proper) isChild
      refine .inr ⟨older, ?_, ?_⟩ <;> rw [← isHead]
      · exact start_le
      · exact stop_le

/-- Following heads from a span comes down to the input. -/
theorem Traced.exists_headsDownTo
    (keeps : host.KeepsFrame)
    (heads : parser.OwnHeads)
    {id : Nat}
    (inside : id < parser.spans.size) :
    ∃ count base, parser.HeadsDownTo id count base := by
  have ordered := traced.sound.loaded.ordered
  induction id using Nat.strong_induction_on with
  | _ id earlier =>
      rcases traced.headWithin wellFormed placed keeps inside with
        isInput | within
      · exact ⟨0, _, headsDownTo_of_input ordered heads isInput⟩
      · obtain ⟨count, base, headsDown⟩ :=
          earlier _ within.older (Nat.lt_trans within.older inside)
        exact ⟨count + 1, base, headsDown.climb ordered inside within⟩

end Heads

/--
Spans are nested in the order of the text: none stops before it starts, whatever a
node can be derived from covers it, and following heads from a span leads down to
an input span within its extent.
-/
theorem Reachable.spans_nested
    {builder : GrammarBuilder}
    (built : builder.build = .ok grammar)
    (keeps : host.KeepsFrame)
    (reachable : Reachable host (grammar.compile options) config parser) :
    (∀ id : Nat, id < parser.spans.size →
      (parser.spans.get id).start ≤ (parser.spans.get id).stop) ∧
      (∀ node : Nat, ∀ derivation ∈ (parser.stack.symbolNode node).derivations,
        parser.Covers derivation.children (parser.spanOf node)) ∧
      ∀ id : Nat, id < parser.spans.size →
        ∃ count base, parser.HeadsDownTo id count base := by
  have wellFormed := GrammarBuilder.wellFormed_of_build built
  have extents := keeps.toKeepsExtent
  have traced := reachable.traced wellFormed
  have placed := reachable.placed wellFormed extents
  have heads := (reachable.packed wellFormed).heads
  refine ⟨fun id inside => ?_, fun node derivation member => ?_,
    fun id inside => ?_⟩
  · exact traced.proper wellFormed placed extents inside
  · exact traced.sound.covers wellFormed extents placed member
  · exact traced.exists_headsDownTo wellFormed placed keeps heads inside

private theorem nestedSpans_facts :
    nestedEnd.spans.size = 6 ∧
      (nestedEnd.stack.symbolNode 6).derivations = [⟨1, [2, 4]⟩] ∧
      (nestedEnd.stack.symbolNode 6).span = 5 ∧
      (nestedEnd.spans.nthHead? 5 2).map (·.id) = some 2 ∧
      (nestedEnd.spans.nthHead? 5 3).map (·.id) = some 0 := by
  decide +kernel

/-- The phrases read from two words cover them both, and come down to the first. -/
theorem spans_nested_nested :
    nestedBuilder.build = .ok nestedGrammar ∧
      (Host.inheriting : Host Unit).KeepsFrame ∧
      Reachable (Host.inheriting : Host Unit) (nestedGrammar.compile {}) {}
        nestedEnd ∧
      (nestedEnd.spans.get 5).start ≤ (nestedEnd.spans.get 5).stop ∧
      (nestedEnd.stack.symbolNode 6).span = 5 ∧
      nestedEnd.Covers [2, 4] (nestedEnd.spanOf 6) ∧
      (nestedEnd.spans.nthHead? 5 2).map (·.id) = some 2 ∧
      (nestedEnd.spans.nthHead? 5 3).map (·.id) = some 0 ∧
      ∃ count base, nestedEnd.HeadsDownTo 5 count base := by
  obtain ⟨size, derivations, isSpan, isPhrase, isWord⟩ := nestedSpans_facts
  obtain ⟨proper, covers, headsDown⟩ := Reachable.spans_nested build_nestedBuilder
    Host.keepsFrame_inheriting reachable_nestedEnd
  exact ⟨build_nestedBuilder, Host.keepsFrame_inheriting, reachable_nestedEnd,
    proper 5 (by simp [size]), isSpan,
    covers 6 ⟨1, [2, 4]⟩ (by simp [derivations]), isPhrase, isWord,
    headsDown 5 (by simp [size])⟩

end Parser

end SpanForest
