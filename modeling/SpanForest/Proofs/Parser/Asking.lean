import SpanForest.Proofs.Parser.Learning

namespace SpanForest

/-!
# What a parse asks and gets to know

The steps that ask a host or a predicate return what holds: the truth of the
predicate, a span that the host agreed to, or a reason why there is none. They
end a parse only where that is granted.
-/

namespace Parsing

variable {σ α : Type} {host : Host σ}
variable {grammar : Grammar} {options : CompileOptions} {mayStop : Prop}
variable {parser : Parser}

/-- What holds if a step ends the parse. -/
def Stopped
    (host : Host σ)
    (grammar : Grammar)
    (options : CompileOptions)
    (mayStop : Prop)
    (after : Parser) : Prop :=
  after.Sound host grammar options ∧ mayStop

/-- The answer of a test, or the error that ends the parse. -/
def answerTest (span : SpanId) : Except ActionError Bool → Parsing σ Bool
  | .ok value => pure value
  | .error source => throw (.predicate span source)

/-- A test enters what the evaluation found and changes nothing else. -/
theorem run_testPredicate
    (id : PredicateId)
    (span : SpanId)
    (state : σ) :
    (testPredicate host id span).run.run (parser, state) =
      let outcome :=
        (evaluatePredicate parser.compiled.network host parser.context id
          (parser.spans.get span)).run.run (parser.evaluator, state)
      (outcome.1.mapError (ParseError.predicate span),
        { parser with evaluator := outcome.2.1 }, outcome.2.2) := by
  let outcome :=
    (evaluatePredicate parser.compiled.network host parser.context id
      (parser.spans.get span)).run.run (parser.evaluator, state)
  change (answerTest span outcome.1).run.run
    ({ parser with evaluator := outcome.2.1 }, outcome.2.2) = _
  simp only [outcome]
  generalize (evaluatePredicate parser.compiled.network host parser.context id
    (parser.spans.get span)).run.run (parser.evaluator, state) = outcome
  obtain ⟨answer, evaluator, changed⟩ := outcome
  cases answer <;> rfl

/-- Evaluating a predicate on a committed span finds the truth. -/
theorem findsTruth_evaluatePredicate
    {decide : String → Span → Bool}
    (wellFormed : grammar.WellFormed)
    (calm : host.Responsive grammar ∨ mayStop)
    (decides : host.Decides decide)
    (isCompiled : parser.compiled = grammar.compile options)
    (ordered : parser.context.Ordered)
    {id : PredicateId}
    (inside : id < grammar.predicates.size)
    {span : SpanId}
    (committed : span < parser.spans.size) :
    FindsTruth grammar.predicates decide parser.context mayStop id
      (parser.spans.get span)
      (evaluatePredicate parser.compiled.network host parser.context id
        (parser.spans.get span)) := by
  rw [isCompiled]
  have spanKnown : (parser.spans.get span).id < parser.context.spans.size ∧
      parser.context.spans.get (parser.spans.get span).id =
        parser.spans.get span := by
    rw [show (parser.spans.get span).id = span from
      ordered.span_id span committed]
    exact ⟨committed, rfl⟩
  rcases calm with responsive | stop
  · obtain ⟨rank, bounded, falls⟩ :=
      responsive.operands.exists_ranked wellFormed.operand_known
    refine findsTruth_evaluateWithin decides (.inl responsive.tests)
      ordered wellFormed.operand_known (.inl falls)
      inside spanKnown.1 spanKnown.2 (.inl ?_)
    exact Nat.lt_of_lt_of_le (bounded id inside)
      (Nat.le_mul_of_pos_right _ (Nat.succ_pos _))
  · exact @findsTruth_evaluateWithin _ _ _ _ _ _ _ decides (.inr stop)
      ordered wellFormed.operand_known (fun _ => 0)
      (.inr stop) _ _ inside _ spanKnown.1 spanKnown.2 (.inr stop)

/-- A test finds the truth. -/
theorem ensures_testPredicate
    (terms : host.TestTerms grammar mayStop)
    (sound : parser.Sound host grammar options)
    {id : PredicateId}
    (inside : id < grammar.predicates.size)
    {span : SpanId}
    (committed : span < parser.spans.size) :
    Ensures parser (testPredicate host id span)
      (fun value after =>
        (∃ evaluator, after = { parser with evaluator := evaluator }) ∧
          after.Sound host grammar options ∧
          parser.Tells host id span value)
      (Stopped host grammar options mayStop) := by
  have isCompiled := sound.loaded.compiled
  have evaluated : ∀ evaluator : Evaluator,
      (∀ decide, host.Decides decide →
        evaluator.Sound (parser.situation decide) parser.spans) →
      Parser.Sound host { parser with evaluator := evaluator }
        grammar options := by
    intro evaluator evaluatorSound
    have learns := parser.learns_evaluator evaluator
    exact sound.learns learns sound.loaded.numbered
      (sound.remembers.grows sound.loaded.ordered (learns.grows 0)
        evaluatorSound
        (fun _ _ _ stored => .inl stored) fun _ _ _ stored => .inl stored)
  have isSituation : ∀ decide : String → Span → Bool,
      parser.context.situation grammar.predicates decide =
        parser.situation decide := by
    intro decide
    rw [Parser.situation, isCompiled]
    rfl
  have found : ∀ decide, host.Decides decide →
      FindsTruth grammar.predicates decide parser.context mayStop id
        (parser.spans.get span)
        (evaluatePredicate parser.compiled.network host parser.context id
          (parser.spans.get span)) :=
    fun _ decides => findsTruth_evaluatePredicate terms.wellFormed
      (terms.calm.imp_left And.left) decides isCompiled sound.loaded.ordered
      inside committed
  intro state
  have outcome := fun decide decides => found decide decides parser.evaluator
    (isSituation decide ▸ sound.remembers.evaluator decide decides) state
  rw [run_testPredicate]
  simp only [isSituation] at outcome
  generalize (evaluatePredicate parser.compiled.network host parser.context id
    (parser.spans.get span)).run.run (parser.evaluator, state) = result
    at outcome
  obtain ⟨answer, evaluator, changed⟩ := result
  cases answer with
  | ok value =>
      exact ⟨⟨evaluator, rfl⟩,
        evaluated evaluator fun decide decides => (outcome decide decides).1,
        fun decide decides => (outcome decide decides).2⟩
  | error source =>
      refine ⟨evaluated evaluator fun decide decides =>
        (outcome decide decides).1, ?_⟩
      rcases terms.calm with ⟨-, decide, decides⟩ | stop
      · exact (outcome decide decides).2
      · exact stop

/-- Going on with a span committed. -/
theorem ensures_commit
    {span : Span}
    {rest : SpanId → Parsing σ α}
    {returns : α → Parser → Prop}
    {stops : Parser → Prop}
    (ensures :
      Ensures { parser with spans := (parser.spans.push span).2 }
        (rest parser.spans.nextId) returns stops) :
    Ensures parser (commit span >>= rest) returns stops :=
  ensures

/-- Going on with the answer of an action. -/
theorem ensures_runAction
    {rule : Rule}
    {target : Span}
    {rhs : List Span}
    {rest : Except ActionError (Option Span) → Parsing σ α}
    {returns : α → Parser → Prop}
    {stops : Parser → Prop}
    (ensures : ∀ state : σ,
      Ensures parser
        (rest (host.execute parser.context rule target rhs state).1)
        returns stops) :
    Ensures parser (runAction host rule target rhs >>= rest) returns stops :=
  fun state => ensures state (host.execute parser.context rule target rhs state).2

/-- Synthesizing a span, or finding out that there is none. -/
theorem ensures_synthesize
    (terms : host.TestTerms grammar mayStop)
    (sound : parser.Sound host grammar options)
    {base : Nat}
    (fromInput : base ∈ parser.input)
    {declaration : Synthesized}
    (declared : declaration ∈ grammar.synthesized)
    (isBase : (parser.spans.get base).symbol = some declaration.base) :
    Ensures parser (synthesize host base declaration)
      (fun made after =>
        parser.Learns after ∧ after.Sound host grammar options ∧
          after.synthesized[(base, declaration.symbol)]? = some made)
      (Stopped host grammar options mayStop) := by
  have isGrammar : parser.compiled.grammar = grammar := sound.loaded.isGrammar
  have committed := sound.loaded.ordered.input_known base fromInput
  unfold synthesize
  refine ensures_get ?_
  split
  · rename_i known stored
    exact .pure ⟨.refl parser, sound, stored⟩
  · rename_i unknown
    refine .bind (ensures_testPredicate terms sound
      (terms.wellFormed.synthesized_terminal declared).2.2.2 committed) ?_
    rintro holds tested ⟨⟨evaluator, isTested⟩, testedSound, truth⟩
    have learns : parser.Learns tested :=
      isTested ▸ parser.learns_evaluator evaluator
    have stillUnknown :
        tested.synthesized[(base, declaration.symbol)]? = none := by
      rw [isTested]
      exact unknown
    have sameSpan : tested.spans.get base = parser.spans.get base := by
      rw [isTested]
    cases holds with
    | false =>
        simp only [Bool.false_eq_true, if_false, pure_bind]
        refine ensures_modify ?_
        have noSpan : ∀ id : Nat, (none : Option SpanId) = some id →
            tested.Synthesizes host base declaration id :=
          fun id isMade => by cases isMade
        obtain ⟨entered, afterSound⟩ :=
          testedSound.synthesized stillUnknown noSpan
        exact .pure ⟨learns.trans entered, afterSound,
          Std.TreeMap.getElem?_insert_self⟩
    | true =>
        simp only [if_true, pure_bind]
        refine ensures_get (ensures_commit (ensures_modify ?_))
        generalize isSpan :
          ({ Span.new tested.spans.nextId (some declaration.symbol)
              (tested.compiled.grammar.name declaration.symbol)
              (tested.spans.get base).start (tested.spans.get base).stop with
            features := (tested.spans.get base).features
            head := base
            weight := (tested.spans.get base).weight } : Span) = span
        obtain ⟨commits, committedSound⟩ := testedSound.commit span
        have isSynthesized : ∀ id : Nat, some tested.spans.nextId = some id →
            Parser.Synthesizes host
              { tested with spans := (tested.spans.push span).2 }
              base declaration id := by
          intro id isNext
          obtain rfl := Option.some.inj isNext
          have same := (commits.spans.get
            (isTested ▸ committed : base < tested.spans.size)).2
          constructor
          case declared =>
            rw [commits.compiled, learns.compiled, isGrammar]
            exact declared
          case from_input =>
            rw [commits.input, learns.input]
            exact fromInput
          case isBase =>
            rw [same, sameSpan]
            exact isBase
          case truth =>
            exact (truth.grows (learns.grows 0) sound.loaded.ordered
              committed).grows (commits.grows 0) testedSound.loaded.ordered
              (learns.spans.get committed).1
          case stored =>
            rw [same, commits.compiled, isSpan]
            refine (SpanStore.get?_push span).trans
              (congrArg some (SpanStore.committed_eq ?_))
            rw [← isSpan]
            rfl
        obtain ⟨entered, afterSound⟩ :=
          committedSound.synthesized stillUnknown isSynthesized
        exact .pure ⟨learns.trans (commits.trans entered), afterSound,
          Std.TreeMap.getElem?_insert_self⟩

/-- What is told of the predicate at a position on the span there, if it has one. -/
def Parser.Answers
    (host : Host σ)
    (parser : Parser)
    (pair : RhsSymbol × SpanId)
    (answer : Bool) : Prop :=
  match pair.1.predicate with
  | some id => parser.Tells host id pair.2 answer
  | none => answer = true

/-- Testing the predicates of a rule tells whether they permit its reduction. -/
theorem ensures_predicatesHold
    (terms : host.TestTerms grammar mayStop)
    (sound : parser.Sound host grammar options)
    {rule : Rule}
    (user : rule ∈ grammar.rules)
    {ids : List SpanId}
    (known : ∀ id : Nat, id ∈ ids → id < parser.spans.size) :
    Ensures parser (predicatesHold host rule ids)
      (fun answer after =>
        ((∃ evaluator, after = { parser with evaluator := evaluator }) ∧
          after.Sound host grammar options) ∧
          if answer then
            parser.Permits host rule ids
          else
            parser.Forbids host rule ids)
      (Stopped host grammar options mayStop) := by
  unfold predicatesHold
  refine (Ensures.allM (fun current =>
    (∃ evaluator, current = { parser with evaluator := evaluator }) ∧
      current.Sound host grammar options) (Parser.Answers host parser) _ ?_
    ⟨⟨parser.evaluator, rfl⟩, sound⟩).imp ?_ fun _ stopped => stopped
  · rintro ⟨position, span⟩ listed _ ⟨⟨evaluator, rfl⟩, currentSound⟩
    have isPart := List.of_mem_zip listed
    simp only [Parser.Answers]
    cases isPredicate : position.predicate with
    | some id =>
        refine (ensures_testPredicate terms currentSound
          (terms.wellFormed.rhs_predicate user position isPart.1 id isPredicate)
          (known span isPart.2)).imp ?_ fun _ stopped => stopped
        rintro value _ ⟨⟨tested, rfl⟩, testedSound, truth⟩
        exact ⟨⟨⟨tested, rfl⟩, testedSound⟩, truth⟩
    | none => exact .pure ⟨⟨⟨evaluator, rfl⟩, currentSound⟩, rfl⟩
  · rintro answer after ⟨afterHolds, answered⟩
    refine ⟨afterHolds, ?_⟩
    cases answer with
    | true =>
        intro pair listed id isPredicate
        have holds := answered pair listed
        simp only [Parser.Answers, isPredicate] at holds
        exact holds
    | false =>
        obtain ⟨pair, listed, fails⟩ := answered
        simp only [Parser.Answers] at fails
        split at fails
        · rename_i id isPredicate
          exact ⟨pair, listed, id, isPredicate, fails⟩
        · cases fails

/-- Running an action yields a span that the host agreed to, or the refusal. -/
theorem ensures_produce
    (terms : host.Terms grammar mayStop)
    (sound : parser.Sound host grammar options)
    {rule : RuleId}
    (user : rule < grammar.rules.size)
    {ids : List SpanId}
    (known : ∀ id : Nat, id ∈ ids → id < parser.spans.size) :
    Ensures parser (produce host (grammar.rule rule) ids)
      (fun outcome after =>
        parser.Learns after ∧ after.Sound host grammar options ∧
          match outcome with
          | some id => after.Accepts host (grammar.rule rule) ids id
          | none => after.Declines host (grammar.rule rule) ids)
      (Stopped host grammar options mayStop) := by
  have isGrammar : parser.compiled.grammar = grammar := sound.loaded.isGrammar
  have isRule : (grammar.rule rule).id = rule := 
    terms.wellFormed.id_rule (Nat.le_of_lt user)
  have recorded : ∀ {current : Parser} {outcome : Option SpanId},
      parser.Learns current →
      current.Sound host grammar options →
      (match outcome with
        | some id => current.Accepts host (grammar.rule rule) ids id
        | none => current.Declines host (grammar.rule rule) ids) →
      parser.Learns (current.recordOutcome (grammar.rule rule).id ids outcome) ∧
        (current.recordOutcome (grammar.rule rule).id ids outcome).Sound host
          grammar options ∧
        match outcome with
        | some id =>
            (current.recordOutcome (grammar.rule rule).id ids outcome).Accepts
              host (grammar.rule rule) ids id
        | none =>
            (current.recordOutcome (grammar.rule rule).id ids outcome).Declines
              host (grammar.rule rule) ids := by
    intro current outcome learns currentSound isOutcome
    have currentGrammar : current.compiled.grammar = grammar := by
      rw [learns.compiled, isGrammar]
    rw [isRule]
    have isNew := isOutcome
    rw [← currentGrammar] at isNew
    obtain ⟨records, recordedSound⟩ := currentSound.recordOutcome isNew
    refine ⟨learns.trans records, recordedSound, ?_⟩
    cases outcome with
    | some id => exact isOutcome.grows (records.grows 0)
    | none => exact isOutcome.grows (records.grows 0)
  unfold produce
  refine ensures_get (ensures_runAction fun state => ?_)
  split
  · rename_i span answered
    simp only [pure_bind]
    refine ensures_commit (ensures_modify (ensures_modify (.pure ?_)))
    obtain ⟨commits, committedSound⟩ := sound.commit span
    obtain ⟨counts, countedSound⟩ := committedSound.count
      (parser.current.countSuccess (grammar.rule rule).id)
    refine recorded (commits.trans counts) countedSound ?_
    exact ⟨parser.spans, state, span, known, answered, rfl, .refl _⟩
  · rename_i answered
    simp only [pure_bind]
    refine ensures_modify (.pure (recorded (.refl parser) sound ?_))
    exact ⟨parser.spans, state, known, .refl _, .inl answered⟩
  · rename_i reason answered
    simp only [pure_bind]
    refine ensures_modify (.pure (recorded (.refl parser) sound ?_))
    exact ⟨parser.spans, state, known, .refl _, .inr ⟨reason, answered⟩⟩
  · rename_i source notRejected answered
    have stops : mayStop := by
      refine terms.calm.resolve_left fun undisturbed => ?_
      cases source with
      | rejected reason => exact notRejected reason rfl
      | fatal reason =>
          exact undisturbed.1.actions _ _ _ _ state reason answered
    exact fun _ => ⟨sound, stops⟩

/--
Reducing along a path yields a span that the rule permits and the host agreed
to, or there is a reason why there is none.
-/
theorem ensures_reducePath
    (terms : host.Terms grammar mayStop)
    (sound : parser.Sound host grammar options)
    {rule : RuleId}
    (user : rule < grammar.rules.size)
    {nodes : List SymbolNodeId}
    (known : ∀ id : Nat, id ∈ parser.spansOf nodes → id < parser.spans.size) :
    Ensures parser (reducePath host (grammar.rule rule) nodes)
      (fun outcome after =>
        parser.Learns after ∧ after.Sound host grammar options ∧
          match outcome with
          | some id =>
              after.Permits host (grammar.rule rule)
                (parser.spansOf nodes) ∧
              after.Accepts host (grammar.rule rule) (parser.spansOf nodes) id
          | none =>
              after.Forbids host (grammar.rule rule)
                (parser.spansOf nodes) ∨
              after.Declines host (grammar.rule rule) (parser.spansOf nodes))
      (Stopped host grammar options mayStop) := by
  have isGrammar : parser.compiled.grammar = grammar := sound.loaded.isGrammar
  unfold reducePath
  refine ensures_modify (ensures_get ?_)
  obtain ⟨counts, countedSound⟩ := sound.count
    (parser.current.countAttempt (grammar.rule rule).id)
  have sameIds : nodes.map (fun node =>
      ((parser.countAttempt (grammar.rule rule).id).stack.symbolNode
        node).span) =
      parser.spansOf nodes :=
    rfl
  simp only [sameIds]
  refine .bind (ensures_predicatesHold terms.tests countedSound
    (Grammar.rule_mem user) known) ?_
  rintro answer tested ⟨⟨⟨evaluator, isTested⟩, testedSound⟩, answered⟩
  have learns : parser.Learns tested :=
    isTested ▸ counts.trans (Parser.learns_evaluator _ evaluator)
  have ordered := sound.loaded.ordered
  have testedKnown : ∀ id : Nat, id ∈ parser.spansOf nodes →
      id < tested.spans.size :=
    fun id member => (learns.spans.get (known id member)).1
  have isRule : (grammar.rule rule).id = rule :=
    terms.wellFormed.id_rule (Nat.le_of_lt user)
  have testedGrammar : tested.compiled.grammar = grammar := by
    rw [learns.compiled, isGrammar]
  cases answer with
  | false =>
      simp only [Bool.false_eq_true, if_false]
      have forbids : parser.Forbids host (grammar.rule rule)
          (parser.spansOf nodes) :=
        answered
      exact .pure ⟨learns, testedSound,
        .inl (forbids.grows (learns.grows 0) ordered known)⟩
  | true =>
      simp only [if_true]
      have permits : tested.Permits host (grammar.rule rule)
          (parser.spansOf nodes) := by
        have permitted : parser.Permits host (grammar.rule rule)
            (parser.spansOf nodes) :=
          answered
        exact permitted.grows (learns.grows 0) ordered known
      refine ensures_get ?_
      split
      · rename_i id stored
        rw [isRule] at stored
        have accepts := testedSound.remembers.produced rule _ id stored
        rw [testedGrammar] at accepts
        obtain ⟨counted, countedAgain⟩ := testedSound.count
          (tested.current.countSuccess (grammar.rule rule).id)
        refine ensures_modify (.pure ⟨learns.trans counted, countedAgain, ?_, ?_⟩)
        · exact permits.grows (counted.grows 0) testedSound.loaded.ordered
            testedKnown
        · exact accepts.grows (counted.grows 0)
      · rename_i stored
        rw [isRule] at stored
        have declines := testedSound.remembers.declined rule _ stored
        rw [testedGrammar] at declines
        exact .pure ⟨learns, testedSound, .inr declines⟩
      · refine (ensures_produce terms testedSound user testedKnown).imp ?_
          fun _ stopped => stopped
        rintro outcome after ⟨produces, afterSound, isOutcome⟩
        refine ⟨learns.trans produces, afterSound, ?_⟩
        cases outcome with
        | some id =>
            exact ⟨permits.grows (produces.grows 0) testedSound.loaded.ordered
              testedKnown, isOutcome⟩
        | none => exact .inr isOutcome

end Parsing

end SpanForest
