import SpanForest.Proofs.Parser.Mirroring

namespace SpanForest

/-!
# Hosts that agree

Hosts agree if they decide named predicates alike, by name and span alone, and
answer the same when they are asked to run the same action. A parse cannot tell
such hosts apart: as long as neither of them ends it, it does the same with both
of them, and may differ only in the truth values that it came to know on the way.
-/

/-- A host whose actions answer like those of another one, or end the parse. -/
def Host.ActsAs {σ τ : Type} (other : Host τ) (host : Host σ) : Prop :=
  ∀ context rule target rhs left right,
    (other.execute context rule target rhs left).1 =
        (host.execute context rule target rhs right).1 ∨
      ∃ reason, (other.execute context rule target rhs left).1 =
        .error (.fatal reason)

/-- A host that gives the answers of another one, unless it ends the parse. -/
structure Host.AnswersAs
    {σ τ : Type}
    (other : Host τ)
    (host : Host σ)
    (decide : String → Span → Bool) : Prop where
  decides : host.Decides decide
  otherDecides : other.Decides decide
  acts : other.ActsAs host

namespace Parser

variable {σ τ : Type} {host : Host σ} {other : Host τ}
variable {grammar : Grammar} {options : CompileOptions}
variable {decide : String → Span → Bool} {mayStop : Prop}
variable {before after : Parser}

/-- The context of a parse stays in order if its new spans are. -/
theorem SameFacts.ordered
    (same : before.SameFacts after)
    (ordered : before.context.Ordered) :
    after.context.Ordered := by
  have sameSpan : ∀ id ∈ before.input,
      after.spans.get id = before.spans.get id :=
    fun id member => (same.spans.get (ordered.input_known id member)).2
  constructor
  case span_id => exact same.numbered ordered.span_id
  case input_known =>
    intro id member
    change id ∈ after.input at member
    rw [same.input] at member
    exact (same.spans.get (ordered.input_known id member)).1
  case input_sorted =>
    change (after.input.map after.spans.get).Pairwise _
    rw [same.input, List.map_congr_left sameSpan]
    exact ordered.input_sorted
  case input_proper =>
    intro id member
    change id ∈ after.input at member
    rw [same.input] at member
    change (after.spans.get id).start ≤ (after.spans.get id).stop
    rw [sameSpan id member]
    exact ordered.input_proper id member

/-- What settles the truth of predicates does not change. -/
theorem SameFacts.situation
    (same : before.SameFacts after)
    (ordered : before.context.Ordered)
    (decide : String → Span → Bool) :
    after.situation decide = before.situation decide := by
  have spansSame : after.input.map after.spans.get =
      before.input.map before.spans.get := by
    rw [same.input]
    exact List.map_congr_left fun id member =>
      (same.spans.get (ordered.input_known id member)).2
  simp only [Parser.situation, ParseContext.situation, context,
    same.compiled, same.document, spansSame]

/-- The same parse, where all that either run of it came to know is true. -/
structure Agrees
    (grammar : Grammar)
    (options : CompileOptions)
    (decide : String → Span → Bool)
    (first : Parser × τ)
    (second : Parser × σ) : Prop where
  same : first.1 = second.1.withEvaluator first.1.evaluator
  compiled : second.1.compiled = grammar.compile options
  ordered : second.1.context.Ordered
  left :
    first.1.evaluator.Sound (second.1.situation decide) second.1.spans
  right :
    second.1.evaluator.Sound (second.1.situation decide) second.1.spans

end Parser

/-- A test finds the truth, given that all that is known is true. -/
theorem Parsing.ensures_testPredicate_truth
    {σ : Type}
    {host : Host σ}
    {grammar : Grammar}
    {options : CompileOptions}
    {decide : String → Span → Bool}
    {mayStop : Prop}
    {parser : Parser}
    (wellFormed : grammar.WellFormed)
    (calm : host.Undisturbed grammar ∨ mayStop)
    (decides : host.Decides decide)
    (compiled : parser.compiled = grammar.compile options)
    (ordered : parser.context.Ordered)
    (sound : parser.evaluator.Sound (parser.situation decide) parser.spans)
    {id : PredicateId}
    (inside : id < grammar.predicates.size)
    {span : SpanId}
    (committed : span < parser.spans.size) :
    Ensures parser (testPredicate host id span)
      (fun value after =>
        (∃ evaluator, after = parser.withEvaluator evaluator ∧
          evaluator.Sound (parser.situation decide) parser.spans) ∧
        Truth (parser.situation decide) id (parser.spans.get span) value)
      fun _ => mayStop := by
  have isSituation : parser.context.situation grammar.predicates decide =
      parser.situation decide := by
    rw [Parser.situation, compiled]
    rfl
  intro state
  have found := findsTruth_evaluatePredicate wellFormed
    (calm.imp_left Host.Undisturbed.responsive) decides compiled ordered inside
    committed parser.evaluator (isSituation ▸ sound) state
  rw [run_testPredicate]
  rw [isSituation] at found
  generalize (evaluatePredicate parser.compiled.network host parser.context id
    (parser.spans.get span)).run.run (parser.evaluator, state) = outcome
    at found
  obtain ⟨answer, evaluator, changed⟩ := outcome
  cases answer with
  | ok value => exact ⟨⟨evaluator, rfl, found.1⟩, found.2⟩
  | error error => exact found.2

namespace Parser

variable {σ τ : Type} {host : Host σ} {other : Host τ}
variable {grammar : Grammar} {options : CompileOptions}
variable {decide : String → Span → Bool} {mayStop : Prop}
variable {before after : Parser}

/-- A sound parse agrees with itself, whatever the states of the hosts. -/
theorem Sound.agrees
    (sound : before.Sound host grammar options)
    (decides : host.Decides decide)
    (left : τ)
    (right : σ) :
    Agrees grammar options decide (before, left) (before, right) where
  same := rfl
  compiled := sound.loaded.compiled
  ordered := sound.loaded.ordered
  left := sound.remembers.evaluator decide decides
  right := sound.remembers.evaluator decide decides

namespace Agrees

/-- Knowing no more truths, the runs still agree. -/
theorem sameFacts
    {evaluator : Evaluator}
    {left : τ}
    {right : σ}
    (agrees : Agrees grammar options decide
      (before.withEvaluator evaluator, left) (before, right))
    (same : before.SameFacts after)
    (leftState : τ)
    (rightState : σ) :
    Agrees grammar options decide (after.withEvaluator evaluator, leftState)
      (after, rightState) := by
  have situation := same.situation agrees.ordered decide
  constructor
  case same => rfl
  case compiled => exact same.compiled.trans agrees.compiled
  case ordered => exact same.ordered agrees.ordered
  case left =>
    change evaluator.Sound (after.situation decide) after.spans
    rw [situation]
    exact agrees.left.grows same.spans
  case right =>
    change after.evaluator.Sound (after.situation decide) after.spans
    rw [situation, same.evaluator]
    exact agrees.right.grows same.spans

variable {first : Parser × τ} {second : Parser × σ}

/-- A test finds the same with both hosts, as there is one truth to be found. -/
theorem tests
    (agrees : Agrees grammar options decide first second)
    (wellFormed : grammar.WellFormed)
    (answers : other.AnswersAs host decide)
    (calm : (host.Undisturbed grammar ∧ other.Undisturbed grammar) ∨ mayStop)
    {id : PredicateId}
    (inside : id < grammar.predicates.size)
    {span : SpanId}
    (committed : span < second.1.spans.size) :
    Mirrors mayStop (Agrees grammar options decide) first second
      (Parsing.testPredicate other id span)
      (Parsing.testPredicate host id span) := by
  obtain ⟨leftParser, left⟩ := first
  obtain ⟨parser, right⟩ := second
  obtain ⟨evaluator, rfl⟩ : ∃ evaluator,
      leftParser = parser.withEvaluator evaluator :=
    ⟨_, agrees.same⟩
  have leftTested := @Parsing.ensures_testPredicate_truth _ other _ _ _ _
    (parser.withEvaluator evaluator) wellFormed (calm.imp_left And.right)
    answers.otherDecides agrees.compiled agrees.ordered agrees.left _ inside _ committed
    left
  have rightTested := @Parsing.ensures_testPredicate_truth _ host _ _ _ _ parser
    wellFormed (calm.imp_left And.left) answers.decides agrees.compiled
    agrees.ordered agrees.right _ inside _ committed right
  unfold Mirrors StopsFrom
  generalize (Parsing.testPredicate other id span).run.run
    (parser.withEvaluator evaluator, left) = leftOutcome at leftTested ⊢
  generalize (Parsing.testPredicate host id span).run.run (parser, right) =
    rightOutcome at rightTested ⊢
  obtain ⟨leftAnswer, leftAfter, leftState⟩ := leftOutcome
  obtain ⟨rightAnswer, rightAfter, rightState⟩ := rightOutcome
  cases leftAnswer with
  | error error => exact .inr ⟨leftTested, .inl ⟨error, rfl⟩⟩
  | ok value =>
      cases rightAnswer with
      | error error => exact .inr ⟨rightTested, .inr ⟨error, rfl⟩⟩
      | ok otherValue =>
          obtain ⟨⟨leftKnown, rfl, leftSound⟩, leftTruth⟩ := leftTested
          obtain ⟨⟨rightKnown, rfl, rightSound⟩, rightTruth⟩ := rightTested
          obtain rfl : value = otherValue := leftTruth.unique rightTruth
          exact .inl ⟨rfl, rfl, agrees.compiled, agrees.ordered, leftSound,
            rightSound⟩

/-- Entering an outcome that both runs came to, they still agree. -/
theorem recordOutcome
    {evaluator : Evaluator}
    {left : τ}
    {right : σ}
    (agrees : Agrees grammar options decide
      (before.withEvaluator evaluator, left) (before, right))
    (rule : RuleId)
    (ids : List SpanId)
    (outcome : Option SpanId) :
    Agrees grammar options decide
      ((before.recordOutcome rule ids outcome).withEvaluator evaluator, left)
      (before.recordOutcome rule ids outcome, right) :=
  ⟨rfl, agrees.compiled, agrees.ordered, agrees.left, agrees.right⟩

/-- An action that is run for the first time yields the same with both hosts. -/
theorem produces
    (agrees : Agrees grammar options decide first second)
    (acts : other.ActsAs host)
    (calm : (host.Undisturbed grammar ∧ other.Undisturbed grammar) ∨ mayStop)
    (rule : Rule)
    (ids : List SpanId) :
    Mirrors mayStop (Agrees grammar options decide) first second
      (Parsing.produce other rule ids) (Parsing.produce host rule ids) := by
  obtain ⟨leftParser, left⟩ := first
  obtain ⟨parser, right⟩ := second
  obtain ⟨evaluator, rfl⟩ : ∃ evaluator,
      leftParser = parser.withEvaluator evaluator :=
    ⟨_, agrees.same⟩
  have asked := acts parser.context rule
    (parser.target rule (ids.map parser.spans.get)) (ids.map parser.spans.get)
    left right
  unfold Parsing.produce
  refine Parsing.mirrors_get (Parsing.mirrors_runAction ?_)
  intro leftOutcome rightOutcome
  have answered : leftOutcome.1 = rightOutcome.1 ∨
      ∃ reason, leftOutcome.1 = .error (.fatal reason) :=
    asked
  have undisturbed : mayStop ∨
      ∀ reason, leftOutcome.1 ≠ .error (.fatal reason) :=
    calm.symm.imp_right fun undisturbed =>
      undisturbed.2.actions parser.context rule _ _ left
  clear_value leftOutcome rightOutcome
  obtain ⟨leftAnswer, left⟩ := leftOutcome
  obtain ⟨answer, right⟩ := rightOutcome
  have recorded : ∀ (later : Parser) (outcome : Option SpanId),
      parser.SameFacts later →
      Agrees grammar options decide
        ((later.recordOutcome rule.id ids outcome).withEvaluator evaluator, left)
        (later.recordOutcome rule.id ids outcome, right) :=
    fun _ outcome same => (agrees.sameFacts same left right).recordOutcome
      rule.id ids outcome
  rcases answered with rfl | ⟨reason, rfl⟩
  · cases leftAnswer with
    | ok answered =>
        cases answered with
        | some span =>
            have same : parser.SameFacts (countSuccess
                { parser with spans := (parser.spans.push span).2 } rule.id) :=
              ⟨rfl, rfl, rfl, SpanStore.extends_push span,
                fun numbered => numbered.push span, rfl, rfl⟩
            exact .both rfl (recorded _ _ same)
        | none => exact .both rfl (recorded _ _ (OnlyWork.refl _).sameFacts)
    | error error =>
        cases error with
        | rejected reason =>
            exact .both rfl (recorded _ _ (OnlyWork.refl _).sameFacts)
        | fatal reason =>
            exact .both rfl
              (agrees.sameFacts (OnlyWork.refl _).sameFacts left right)
  · exact .inr ⟨undisturbed.resolve_right fun never => never reason rfl,
      .inl ⟨_, rfl⟩⟩

end Agrees

/-- Hosts that agree keep the runs of a parse alike, unless one of them ends it. -/
theorem asksAlike_agrees
    (wellFormed : grammar.WellFormed)
    (answers : other.AnswersAs host decide)
    (calm : (host.Undisturbed grammar ∧ other.Undisturbed grammar) ∨ mayStop) :
    Parsing.AsksAlike mayStop host other grammar options
      (Agrees grammar options decide) where
  same first _ agrees := ⟨first.1.evaluator, agrees.same⟩
  compiled _ _ agrees := agrees.compiled
  moves _ _ _ left right agrees same := agrees.sameFacts same left right
  tests _ _ _ _ agrees inside committed :=
    agrees.tests wellFormed answers calm inside committed
  produces _ _ _ ids agrees _ _ _ := agrees.produces answers.acts calm _ ids

/-- Steps with hosts that agree keep the runs of a parse alike. -/
theorem lockstep_agrees
    (wellFormed : grammar.WellFormed)
    (answers : other.AnswersAs host decide)
    (calm : (host.Undisturbed grammar ∧ other.Undisturbed grammar) ∨ mayStop) :
    Parsing.Lockstep mayStop host other grammar options
      (Parsing.reducePath other) (Agrees grammar options decide) :=
  (asksAlike_agrees wellFormed answers calm).lockstep wellFormed

end Parser

end SpanForest
