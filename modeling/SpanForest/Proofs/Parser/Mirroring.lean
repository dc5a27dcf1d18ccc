import SpanForest.Proofs.Parser.Collecting
import SpanForest.Proofs.Parser.Lockstep

namespace SpanForest

/-!
# Asking in lockstep

Collecting the spans ahead and attempting a reduction is testing predicates,
running actions, committing spans and taking notes. Two parses that may differ
in the truth values in memory stay alike in all this if they do when a predicate
is tested and when an action is run for the first time.
-/

namespace Parsing

variable {σ τ : Type} {host : Host σ} {other : Host τ}
variable {grammar : Grammar} {options : CompileOptions} {word : Nat}
variable {mayStop : Prop} {alike : Parser × τ → Parser × σ → Prop}
variable {parser : Parser} {evaluator : Evaluator} {left : τ} {right : σ}

/-- Going on alike with the answers of an action. -/
theorem mirrors_runAction
    {α : Type}
    {first second : Parser}
    {rule : Rule}
    {leftTarget rightTarget : Span}
    {leftRhs rightRhs : List Span}
    {leftRest : Except ActionError (Option Span) → Parsing τ α}
    {rightRest : Except ActionError (Option Span) → Parsing σ α}
    (rest :
      let leftOutcome :=
        other.execute first.context rule leftTarget leftRhs left
      let rightOutcome :=
        host.execute second.context rule rightTarget rightRhs right
      Mirrors mayStop alike (first, leftOutcome.2) (second, rightOutcome.2)
        (leftRest leftOutcome.1) (rightRest rightOutcome.1)) :
    Mirrors mayStop alike (first, left) (second, right)
      (runAction other rule leftTarget leftRhs >>= leftRest)
      (runAction host rule rightTarget rightRhs >>= rightRest) :=
  rest

/-- Runs of two parses that stay alike when something is asked. -/
structure AsksAlike
    (mayStop : Prop)
    (host : Host σ)
    (other : Host τ)
    (grammar : Grammar)
    (options : CompileOptions)
    (alike : Parser × τ → Parser × σ → Prop) : Prop where
  same :
    ∀ ⦃first : Parser × τ⦄ ⦃second : Parser × σ⦄, alike first second →
      ∃ evaluator, first.1 = second.1.withEvaluator evaluator
  compiled :
    ∀ ⦃first : Parser × τ⦄ ⦃second : Parser × σ⦄, alike first second →
      second.1.compiled = grammar.compile options
  moves :
    ∀ ⦃before after : Parser⦄ ⦃evaluator : Evaluator⦄ ⦃left : τ⦄ ⦃right : σ⦄,
      alike (before.withEvaluator evaluator, left) (before, right) →
      before.SameFacts after →
      alike (after.withEvaluator evaluator, left) (after, right)
  tests :
    ∀ ⦃first : Parser × τ⦄ ⦃second : Parser × σ⦄ ⦃id : PredicateId⦄
      ⦃span : SpanId⦄,
      alike first second →
      id < grammar.predicates.size →
      span < second.1.spans.size →
      Mirrors mayStop alike first second (testPredicate other id span)
        (testPredicate host id span)
  produces :
    ∀ ⦃first : Parser × τ⦄ ⦃second : Parser × σ⦄ ⦃rule : RuleId⦄
      ⦃ids : List SpanId⦄,
      alike first second →
      rule < grammar.rules.size →
      (∀ id : Nat, id ∈ ids → id < second.1.spans.size) →
      second.1.outcomes[((grammar.rule rule).id, ids)]? = none →
      Mirrors mayStop alike first second (produce other (grammar.rule rule) ids)
        (produce host (grammar.rule rule) ids)

namespace AsksAlike

/-- Notes and counts keep runs alike. -/
theorem notes
    (asks : AsksAlike mayStop host other grammar options alike)
    (holds : alike (parser.withEvaluator evaluator, left) (parser, right))
    (after : Parser)
    (same :
      after =
        { parser with
          synthesized := after.synthesized
          candidates := after.candidates
          current := after.current }) :
    alike (after.withEvaluator evaluator, left) (after, right) := by
  refine asks.moves holds ?_
  rw [same]
  exact ⟨rfl, rfl, rfl, .refl _, fun numbered => numbered, rfl, rfl⟩

/-- Committing a span keeps runs alike. -/
theorem commit
    (asks : AsksAlike mayStop host other grammar options alike)
    (holds : alike (parser.withEvaluator evaluator, left) (parser, right))
    (span : Span) :
    Mirrors mayStop alike (parser.withEvaluator evaluator, left) (parser, right)
      (Parsing.commit span) (Parsing.commit span) := by
  have same : parser.SameFacts
      { parser with spans := (parser.spans.push span).2 } :=
    ⟨rfl, rfl, rfl, SpanStore.extends_push span,
      fun numbered => numbered.push span, rfl, rfl⟩
  exact .both rfl (asks.moves holds same)

/-- Synthesizing a span keeps runs alike. -/
theorem synthesize
    (asks : AsksAlike mayStop host other grammar options alike)
    (wellFormed : grammar.WellFormed)
    {first : Parser × τ}
    {second : Parser × σ}
    (holds : alike first second)
    {base : SpanId}
    (committed : base < second.1.spans.size)
    {declaration : Synthesized}
    (declared : declaration ∈ grammar.synthesized) :
    Mirrors mayStop alike first second (Parsing.synthesize other base declaration)
      (Parsing.synthesize host base declaration) := by
  obtain ⟨leftParser, left⟩ := first
  obtain ⟨parser, right⟩ := second
  obtain ⟨evaluator, rfl⟩ := asks.same holds
  unfold Parsing.synthesize
  refine mirrors_get ?_
  have sameSynthesized : (parser.withEvaluator evaluator).synthesized =
      parser.synthesized :=
    rfl
  rw [sameSynthesized]
  split
  · exact .pure holds _
  · refine .bind (asks.tests holds
      (wellFormed.synthesized_terminal declared).2.2.2 committed) ?_
    rintro answer ⟨leftTested, left⟩ ⟨tested, right⟩ testedAlike
    obtain ⟨evaluator, rfl⟩ := asks.same testedAlike
    have recorded : ∀ (result : Option SpanId)
        (leftAfter : Parser × τ) (rightAfter : Parser × σ),
        alike leftAfter rightAfter →
        Mirrors mayStop alike leftAfter rightAfter
          (do
            modifyParser fun current =>
              { current with
                synthesized :=
                  current.synthesized.insert (base, declaration.symbol) result }
            return result : Parsing τ (Option SpanId))
          (do
            modifyParser fun current =>
              { current with
                synthesized :=
                  current.synthesized.insert (base, declaration.symbol) result }
            return result : Parsing σ (Option SpanId)) := by
      rintro result ⟨leftAfter, left⟩ ⟨after, right⟩ afterAlike
      obtain ⟨evaluator, rfl⟩ := asks.same afterAlike
      exact mirrors_modify (.pure (asks.notes afterAlike
        { after with
          synthesized :=
            after.synthesized.insert (base, declaration.symbol) result }
        rfl) _)
    cases answer with
    | true =>
        refine mirrors_get (.bind (asks.commit testedAlike _) ?_)
        exact fun _ _ _ committedAlike => .bind (.pure committedAlike _) recorded
    | false => exact .bind (.pure testedAlike _) recorded

/-- Collecting one thing keeps runs alike. -/
theorem collect
    (asks : AsksAlike mayStop host other grammar options alike)
    (wellFormed : grammar.WellFormed)
    {first : Parser × τ}
    {second : Parser × σ}
    (holds : alike first second)
    {item : Collectible}
    (fits : item.Fits grammar second.1.spans) :
    Mirrors mayStop alike first second (Parsing.collect other item)
      (Parsing.collect host item) := by
  have adds : ∀ (ids : List SpanId) (leftAfter : Parser × τ)
      (rightAfter : Parser × σ), alike leftAfter rightAfter →
      Mirrors mayStop alike leftAfter rightAfter (addCandidates ids)
        (addCandidates ids) := by
    rintro ids ⟨leftAfter, left⟩ ⟨after, right⟩ afterAlike
    obtain ⟨evaluator, rfl⟩ := asks.same afterAlike
    exact .both rfl (asks.notes afterAlike
      { after with candidates := after.candidates ++ ids } rfl)
  cases item with
  | ahead id => exact adds [id] first second holds
  | synthesized base declaration =>
      exact (asks.synthesize wellFormed holds fits.1 fits.2).bind
        fun made => adds made.toList

/-- Collecting one thing after another keeps runs alike. -/
theorem collectAll
    (asks : AsksAlike mayStop host other grammar options alike)
    (wellFormed : grammar.WellFormed)
    {first : Parser × τ}
    {second : Parser × σ}
    (holds : alike first second)
    {items : List Collectible}
    (fit : ∀ item ∈ items, item.Fits grammar second.1.spans) :
    Mirrors mayStop alike first second (items.forM (Parsing.collect other))
      (items.forM (Parsing.collect host)) := by
  -- What fits still does, as spans are only ever added.
  have mirrors : Mirrors mayStop (fun leftAfter after =>
        alike leftAfter after ∧
          ∀ item ∈ items, item.Fits grammar after.1.spans)
      first second (items.forM (Parsing.collect other))
      (items.forM (Parsing.collect host)) := by
    refine .forM _ ?_ ⟨holds, fit⟩
    rintro item member leftBefore before ⟨beforeAlike, beforeFit⟩
    exact ((asks.collect wellFormed beforeAlike
      (beforeFit item member)).and_keeps (asks_collect host item)).imp
      fun _ _ after => ⟨after.1, fun other listed =>
        (beforeFit other listed).grows after.2.spans⟩
  exact mirrors.imp fun _ _ after => after.1

/-- Collecting the spans ahead keeps runs alike. -/
theorem collectCandidates
    (asks : AsksAlike mayStop host other grammar options alike)
    (wellFormed : grammar.WellFormed)
    (word : Nat)
    {first : Parser × τ}
    {second : Parser × σ}
    (holds : alike first second)
    (sound : second.1.Sound host grammar options) :
    Mirrors mayStop alike first second (Parsing.collectCandidates other word)
      (Parsing.collectCandidates host word) := by
  obtain ⟨leftParser, left⟩ := first
  obtain ⟨parser, right⟩ := second
  obtain ⟨evaluator, rfl⟩ := asks.same holds
  have known : ∀ ahead, parser.words[word]? = some ahead →
      ∀ base : Nat, base ∈ ahead.spans → base < parser.spans.size :=
    fun _ isAhead _ member => (sound.loaded.word_known isAhead member).2
  have fit := Parser.fits_collectibles known
  rw [show parser.compiled.grammar = grammar by
    rw [asks.compiled holds]
    rfl] at fit
  refine .of_coincides (@coincides_collectCandidates _
    (parser.withEvaluator evaluator) other word known left)
    (coincides_collectCandidates host word known right) (mirrors_modify ?_)
  exact asks.collectAll wellFormed
    (asks.notes holds { parser with candidates := [] } rfl) fit

/-- Testing the predicates of a rule keeps runs alike. -/
theorem predicatesHold
    (asks : AsksAlike mayStop host other grammar options alike)
    (wellFormed : grammar.WellFormed)
    {first : Parser × τ}
    {second : Parser × σ}
    (holds : alike first second)
    {rule : Rule}
    (user : rule ∈ grammar.rules)
    {ids : List SpanId}
    (known : ∀ id : Nat, id ∈ ids → id < second.1.spans.size) :
    Mirrors mayStop alike first second (Parsing.predicatesHold other rule ids)
      (Parsing.predicatesHold host rule ids) := by
  have mirrors : Mirrors mayStop (fun leftAfter after => alike leftAfter after ∧
      ∀ id : Nat, id ∈ ids → id < after.1.spans.size) first second
      (Parsing.predicatesHold other rule ids)
      (Parsing.predicatesHold host rule ids) := by
    refine .allM _ ?_ ⟨holds, known⟩
    rintro ⟨position, span⟩ listed leftBefore before ⟨beforeAlike, beforeKnown⟩
    have isPart := List.of_mem_zip listed
    dsimp only
    split
    · rename_i id isPredicate
      have tested := asks.tests beforeAlike
        (wellFormed.rhs_predicate user position isPart.1 id isPredicate)
        (beforeKnown span isPart.2)
      exact (tested.and_keeps (asks_testPredicate host id span)).imp
        fun _ _ after => ⟨after.1, fun id member =>
          (after.2.spans.get (beforeKnown id member)).1⟩
    · exact .pure ⟨beforeAlike, beforeKnown⟩ _
  exact mirrors.imp fun _ _ after => after.1

/-- Attempting a reduction keeps runs alike. -/
theorem reducePath
    (asks : AsksAlike mayStop host other grammar options alike)
    (wellFormed : grammar.WellFormed)
    {first : Parser × τ}
    {second : Parser × σ}
    (holds : alike first second)
    {rule : RuleId}
    (user : rule < grammar.rules.size)
    {nodes : List SymbolNodeId}
    (known : ∀ id : Nat, id ∈ second.1.spansOf nodes →
      id < second.1.spans.size) :
    Mirrors mayStop alike first second
      (Parsing.reducePath other (grammar.rule rule) nodes)
      (Parsing.reducePath host (grammar.rule rule) nodes) := by
  obtain ⟨leftParser, left⟩ := first
  obtain ⟨parser, right⟩ := second
  obtain ⟨evaluator, rfl⟩ := asks.same holds
  have counted := asks.notes holds
    (parser.countAttempt (grammar.rule rule).id) rfl
  have leftIds : (nodes.map fun node => (((parser.withEvaluator
      evaluator).countAttempt (grammar.rule rule).id).stack.symbolNode
        node).span) =
      parser.spansOf nodes :=
    rfl
  have rightIds : (nodes.map fun node =>
      ((parser.countAttempt (grammar.rule rule).id).stack.symbolNode
        node).span) =
      parser.spansOf nodes :=
    rfl
  unfold Parsing.reducePath
  refine mirrors_modify (mirrors_get ?_)
  rw [leftIds, rightIds]
  refine .bind_ensures (asks.predicatesHold wellFormed counted
    (Grammar.rule_mem user) known) (asks_predicatesHold host _ _ _) ?_
  rintro answer ⟨leftTested, left⟩ ⟨tested, right⟩ testedAlike asked
  obtain ⟨evaluator, rfl⟩ := asks.same testedAlike
  have testedKnown : ∀ id : Nat, id ∈ parser.spansOf nodes →
      id < tested.spans.size :=
    fun id member => (asked.spans.get (known id member)).1
  cases answer with
  | false => exact .pure testedAlike _
  | true =>
      refine mirrors_get ?_
      have sameOutcomes : (tested.withEvaluator evaluator).outcomes =
          tested.outcomes :=
        rfl
      rw [sameOutcomes]
      split
      · refine mirrors_modify (.pure ?_ _)
        exact asks.notes testedAlike
          (tested.countSuccess (grammar.rule rule).id) rfl
      · exact .pure testedAlike _
      · rename_i unknown
        exact asks.produces testedAlike user testedKnown unknown

/-- Runs that stay alike when something is asked go on in lockstep. -/
theorem lockstep
    (asks : AsksAlike mayStop host other grammar options alike)
    (wellFormed : grammar.WellFormed) :
    Lockstep mayStop host other grammar options (Parsing.reducePath other)
      alike where
  same := asks.same
  moves _ _ _ _ _ holds same _ := asks.moves holds same
  collects word _ _ holds sound :=
    asks.collectCandidates wellFormed word holds sound
  attempts _ _ _ _ _ holds _ user known :=
    asks.reducePath wellFormed holds user known

end AsksAlike

end Parsing

end SpanForest
