import SpanForest.Proofs.Parser.Collecting
import SpanForest.Proofs.Parser.Renumbering
import SpanForest.Proofs.Predicate.Nesting
import SpanForest.Proofs.Simulation

namespace SpanForest

/-!
# Asking under other span numbers

A parse echoes another one if it is the same parse, but for the numbers of its
spans. Without context predicates what is asked of a span does not depend on
other spans. So asking is answered in the same way in both parses, the spans that
come of it have corresponding numbers, and what is remembered corresponds. What
is not asked for follows as it does not look at numbers.
-/

/-- The error with a new number for the span that it is about. -/
def ParseError.renumbered (rename : SpanId → SpanId) : ParseError → ParseError
  | .predicate span source => .predicate (rename span) source
  | error => error

/-- The setting in which predicates look at spans alone and no host knows any. -/
def Grammar.alone (grammar : Grammar) (document : Document) : PlainSetting where
  predicates := grammar.predicates
  document := document
  input := []
  tells name _ := .error (unknownTest name)

/-- Predicates find the same in a span under other numbers. -/
theorem Grammar.evaluate_alone_renumbered
    {grammar : Grammar}
    (contextless : grammar.predicates.Contextless)
    (document : Document)
    (rename : SpanId → SpanId)
    (span : Span)
    (fuel : Nat)
    (id : PredicateId) :
    (grammar.alone document).evaluate fuel id (span.renumbered rename) =
      (grammar.alone document).evaluate fuel id span := by
  have alike : Situation.Alike
      ⟨grammar.predicates, document, [], fun _ _ => false⟩
      (span.renumbered rename) span :=
    ⟨rfl, rfl, rfl, rfl, by simp, fun _ => rfl⟩
  have found : ∀ predicate : Predicate,
      predicate.localTruth? (span.renumbered rename) document =
        predicate.localTruth? span document :=
    fun predicate => alike.localTruth? predicate document
  exact @PlainSetting.evaluate_congr (grammar.alone document) span
    (grammar.alone document) contextless rfl _ found (fun _ => rfl) fuel id

/-- Features are inherited from corresponding spans. -/
theorem inheritFeatures_renumbered
    (rename : SpanId → SpanId)
    (rule : Rule)
    (target : Span)
    (rhs : List Span) :
    inheritFeatures rule (target.renumbered rename)
        (rhs.map (Span.renumbered rename)) =
      (inheritFeatures rule target rhs).renumbered rename := by
  unfold inheritFeatures
  rw [List.getElem?_map]
  cases rhs[rule.rootIndex]? <;> rfl

/-- What may be collected, with new numbers for spans. -/
def Collectible.renumbered
    (rename : SpanId → SpanId) :
    Collectible →
    Collectible
  | .ahead id => .ahead (rename id)
  | .synthesized base declaration => .synthesized (rename base) declaration

namespace Parser

variable {rename : SpanId → SpanId} {count : Nat}
variable {grammar : Grammar} {options : CompileOptions}

/--
The same parse with other numbers for its spans, from some span on in step, where
both runs remember the same and know only what predicates come to.
-/
structure Echoes
    (rename : SpanId → SpanId)
    (count : Nat)
    (grammar : Grammar)
    (options : CompileOptions)
    (parser echo : Parser) : Prop where
  same : echo = parser.renumbered rename echo
  compiled : parser.compiled = grammar.compile options
  numbered : parser.Numbered
  store : parser.spans.Renumbered rename echo.spans
  enough : count ≤ parser.spans.size
  synthesized :
    ∀ (base : SpanId) (symbol : SymbolId),
      echo.synthesized[(rename base, symbol)]? =
        parser.synthesized[(base, symbol)]?.map (Option.map rename)
  outcomes :
    ∀ (rule : RuleId) (ids : List SpanId),
      echo.outcomes[(rule, ids.map rename)]? =
        parser.outcomes[(rule, ids)]?.map (Option.map rename)
  knows :
    parser.evaluator.Knows grammar.predicates.size
      ((grammar.alone parser.document).ComesTo grammar.predicates.size)
      parser.spans
  echoKnows :
    echo.evaluator.Knows grammar.predicates.size
      ((grammar.alone parser.document).ComesTo grammar.predicates.size)
      echo.spans

/-- A parse that got no further spans and learned nothing. -/
structure LearnsNothing (before after : Parser) : Prop where
  compiled : after.compiled = before.compiled
  document : after.document = before.document
  spans : after.spans = before.spans
  evaluator : after.evaluator = before.evaluator
  synthesized : after.synthesized = before.synthesized
  outcomes : after.outcomes = before.outcomes

namespace Echoes

variable {parser echo after : Parser}

/-- What learns nothing keeps a parse and its echo together. -/
theorem moves
    (echoes : Echoes rename count grammar options parser echo)
    (learnsNothing : parser.LearnsNothing after) :
    Echoes rename count grammar options after (after.renumbered rename echo) where
  same := rfl
  compiled := learnsNothing.compiled.trans echoes.compiled
  numbered := by
    unfold Numbered
    rw [learnsNothing.spans]
    exact echoes.numbered
  store := by
    rw [learnsNothing.spans]
    exact echoes.store
  enough := by
    rw [learnsNothing.spans]
    exact echoes.enough
  synthesized := by
    rw [learnsNothing.synthesized]
    exact echoes.synthesized
  outcomes := by
    rw [learnsNothing.outcomes]
    exact echoes.outcomes
  knows := by
    rw [learnsNothing.evaluator, learnsNothing.document, learnsNothing.spans]
    exact echoes.knows
  echoKnows := by
    rw [learnsNothing.document]
    exact echoes.echoKnows

/-- Evaluators may get to know more. -/
theorem evaluated
    (echoes : Echoes rename count grammar options parser echo)
    {evaluator echoEvaluator : Evaluator}
    (knows : evaluator.Knows grammar.predicates.size
      ((grammar.alone parser.document).ComesTo grammar.predicates.size)
      parser.spans)
    (echoKnows : echoEvaluator.Knows grammar.predicates.size
      ((grammar.alone parser.document).ComesTo grammar.predicates.size)
      echo.spans) :
    Echoes rename count grammar options
      { parser with evaluator := evaluator }
      { echo with evaluator := echoEvaluator } where
  same := congrArg
    (fun current => { current with evaluator := echoEvaluator }) echoes.same
  compiled := echoes.compiled
  numbered := echoes.numbered
  store := echoes.store
  enough := echoes.enough
  synthesized := echoes.synthesized
  outcomes := echoes.outcomes
  knows := knows
  echoKnows := echoKnows

/-- A committed span keeps a parse and its echo together. -/
theorem commit
    (renumbers : Renumbers rename count)
    (echoes : Echoes rename count grammar options parser echo)
    (span : Span) :
    Echoes rename count grammar options
      { parser with spans := (parser.spans.push span).2 }
      { echo with
        spans := (echo.spans.push (span.renumbered rename)).2 } where
  same := congrArg
    (fun current => { current with
      spans := (echo.spans.push (span.renumbered rename)).2 })
    echoes.same
  compiled := echoes.compiled
  numbered := echoes.numbered.push span
  store := echoes.store.push renumbers echoes.enough span
  enough := by
    rw [SpanStore.size_push]
    exact Nat.le_succ_of_le echoes.enough
  synthesized := echoes.synthesized
  outcomes := echoes.outcomes
  knows := echoes.knows.grows (SpanStore.extends_push span)
  echoKnows := echoes.echoKnows.grows (SpanStore.extends_push _)

/-- What is synthesized is remembered in the echo, too. -/
theorem recordSynthesized
    (renumbers : Renumbers rename count)
    (echoes : Echoes rename count grammar options parser echo)
    (base : SpanId)
    (symbol : SymbolId)
    (made : Option SpanId) :
    Echoes rename count grammar options
      { parser with
        synthesized := parser.synthesized.insert (base, symbol) made }
      { echo with
        synthesized :=
          echo.synthesized.insert (rename base, symbol)
            (made.map rename) } where
  same := congrArg
    (fun current => { current with
      synthesized :=
        echo.synthesized.insert (rename base, symbol) (made.map rename) })
    echoes.same
  compiled := echoes.compiled
  numbered := echoes.numbered
  store := echoes.store
  enough := echoes.enough
  synthesized other otherSymbol := by
    simp only [Std.TreeMap.getElem?_insert,
      Std.LawfulEqCmp.compare_eq_iff_eq, Prod.mk.injEq,
      renumbers.increasing.injective.eq_iff, echoes.synthesized]
    split <;> rfl
  outcomes := echoes.outcomes
  knows := echoes.knows
  echoKnows := echoes.echoKnows

/-- What came of a reduction is remembered in the echo, too. -/
theorem recordOutcome
    (renumbers : Renumbers rename count)
    (echoes : Echoes rename count grammar options parser echo)
    (rule : RuleId)
    (ids : List SpanId)
    (outcome : Option SpanId) :
    Echoes rename count grammar options (parser.recordOutcome rule ids outcome)
      (echo.recordOutcome rule (ids.map rename) (outcome.map rename)) where
  same := congrArg
    (fun current => { current with
      outcomes :=
        echo.outcomes.insert (rule, ids.map rename) (outcome.map rename) })
    echoes.same
  compiled := echoes.compiled
  numbered := echoes.numbered
  store := echoes.store
  enough := echoes.enough
  synthesized := echoes.synthesized
  outcomes other otherIds := by
    simp only [Parser.recordOutcome, Std.TreeMap.getElem?_insert,
      Std.LawfulEqCmp.compare_eq_iff_eq, Prod.mk.injEq,
      (List.map_injective_iff.mpr renumbers.increasing.injective).eq_iff,
      echoes.outcomes]
    split <;> rfl
  knows := echoes.knows
  echoKnows := echoes.echoKnows

/-- A change that learns nothing and does the same under other numbers. -/
theorem change
    (echoes : Echoes rename count grammar options parser echo)
    (change : Parser → Parser)
    (learnsNothing : parser.LearnsNothing after)
    (commutes :
      change (parser.renumbered rename echo) = after.renumbered rename echo) :
    Echoes rename count grammar options after (change echo) := by
  rw [(congrArg change echoes.same).trans commutes]
  exact echoes.moves learnsNothing

theorem addCandidates
    (echoes : Echoes rename count grammar options parser echo)
    (ids : List SpanId) :
    Echoes rename count grammar options
      { parser with candidates := parser.candidates ++ ids }
      { echo with candidates := echo.candidates ++ ids.map rename } := by
  refine echoes.change
    (fun current =>
      { current with candidates := current.candidates ++ ids.map rename })
    ⟨rfl, rfl, rfl, rfl, rfl, rfl⟩ ?_
  simp only [Parser.renumbered, List.map_append]

theorem get_echo
    (echoes : Echoes rename count grammar options parser echo)
    {span : SpanId}
    (committed : span < parser.spans.size) :
    echo.spans.get (rename span) =
      (parser.spans.get span).renumbered rename :=
  echoes.store.get span committed

theorem echo_compiled
    (echoes : Echoes rename count grammar options parser echo) :
    echo.compiled = grammar.compile options := by
  rw [echoes.same]
  exact echoes.compiled

/-- What is to be synthesized from the echo of a span is the echo of what is. -/
theorem target_synthesized
    (echoes : Echoes rename count grammar options parser echo)
    (declaration : Synthesized)
    {base : SpanId}
    (committed : base < parser.spans.size) :
    Span.renumbered rename
        { Span.new parser.spans.nextId (some declaration.symbol)
            (parser.compiled.grammar.name declaration.symbol)
            (parser.spans.get base).start (parser.spans.get base).stop with
          features := (parser.spans.get base).features
          head := base
          weight := (parser.spans.get base).weight } =
      { Span.new echo.spans.nextId (some declaration.symbol)
          (echo.compiled.grammar.name declaration.symbol)
          (echo.spans.get (rename base)).start
          (echo.spans.get (rename base)).stop with
        features := (echo.spans.get (rename base)).features
        head := rename base
        weight := (echo.spans.get (rename base)).weight } := by
  have sameNext : echo.spans.nextId = rename parser.spans.nextId :=
    echoes.store.size
  rw [echoes.get_echo committed, sameNext, echoes.echo_compiled,
    echoes.compiled]
  rfl

/-- What may be collected from the echo of a span is what corresponds to it. -/
theorem collectiblesFrom
    (renumbers : Renumbers rename count)
    (echoes : Echoes rename count grammar options parser echo)
    (base : SpanId) :
    echo.collectiblesFrom (rename base) =
      (parser.collectiblesFrom base).map (Collectible.renumbered rename) := by
  unfold Parser.collectiblesFrom
  rw [echoes.store.symbol_eq renumbers, echoes.echo_compiled, echoes.compiled,
    List.map_cons]
  cases (parser.spans.get base).symbol with
  | none => rfl
  | some symbol =>
      dsimp only
      rw [List.map_map]
      rfl

theorem words_echo
    (echoes : Echoes rename count grammar options parser echo) :
    echo.words = parser.words.map (InputWord.renumbered rename) := by
  rw [echoes.same]
  rfl

theorem collectibles
    (renumbers : Renumbers rename count)
    (echoes : Echoes rename count grammar options parser echo)
    (word : Nat) :
    echo.collectibles word =
      (parser.collectibles word).map (Collectible.renumbered rename) := by
  unfold Parser.collectibles
  rw [echoes.words_echo, List.getElem?_map]
  cases parser.words[word]? with
  | none => rfl
  | some ahead =>
      dsimp only [Option.map_some, InputWord.renumbered]
      simp only [List.flatMap_map, List.map_flatMap,
        echoes.collectiblesFrom renumbers]

/-- What a rule would produce from the echoes of spans. -/
theorem target_echo
    (echoes : Echoes rename count grammar options parser echo)
    (rule : Rule)
    {rhs : List Span}
    (nonempty : rhs ≠ []) :
    echo.target rule (rhs.map (Span.renumbered rename)) =
      (parser.target rule rhs).renumbered rename := by
  have sameNext : echo.spans.nextId = rename parser.spans.nextId :=
    echoes.store.size
  obtain ⟨first, rest, rfl⟩ := List.exists_cons_of_ne_nil nonempty
  have sameRoot : ((first :: rest).map
      (Span.renumbered rename))[rule.rootIndex]?.getD
        (first.renumbered rename) =
      ((first :: rest)[rule.rootIndex]?.getD first).renumbered rename := by
    rw [List.getElem?_map]
    cases (first :: rest)[rule.rootIndex]? <;> rfl
  have sameLast : ((first :: rest).map (Span.renumbered rename)).getLastD
      default = ((first :: rest).getLastD default).renumbered rename := by
    rw [List.getLastD_eq_getLast?, List.getLastD_eq_getLast?, List.getLast?_map,
      List.getLast?_eq_some_getLast nonempty]
    rfl
  have sameWeight : ((first :: rest).map (Span.renumbered rename)).foldl
      (fun product span => product * span.weight) 1.0 =
      (first :: rest).foldl (fun product span => product * span.weight) 1.0 :=
    List.foldl_map
  have sameFirst : ((first :: rest).map (Span.renumbered rename)).headD default =
      first.renumbered rename :=
    rfl
  unfold Parser.target
  simp only [sameNext, sameFirst, sameRoot, sameLast, sameWeight,
    echoes.echo_compiled, echoes.compiled]
  rfl

end Echoes

end Parser

namespace Parsing

variable {σ : Type} {rename : SpanId → SpanId} {count : Nat}
variable {grammar : Grammar} {options : CompileOptions}
variable {parser echo : Parser} {left right : σ}

/-- Effects on a parse and its echo with answers and errors that correspond. -/
abbrev EchoedAs
    {α β : Type}
    (rename : SpanId → SpanId)
    (count : Nat)
    (grammar : Grammar)
    (options : CompileOptions)
    (values : α → β → Prop)
    (first second : Parser × σ)
    (effect : Parsing σ α)
    (echoing : Parsing σ β) : Prop :=
  Simulates (fun error echo => echo = error.renumbered rename) values
    (fun leftAfter rightAfter => Parser.Echoes rename count grammar options
      leftAfter.1 rightAfter.1)
    first second effect echoing

/-- Asked of a span, a predicate comes to what it comes to alone. -/
theorem answers_evaluatePredicate_alone
    (contextless : grammar.predicates.Contextless)
    (wellFormed : grammar.WellFormed)
    (compiled : parser.compiled = grammar.compile options)
    {document : Document}
    (sameDocument : parser.document = document)
    {id : PredicateId}
    (inside : id < grammar.predicates.size)
    {span : SpanId}
    (committed : span < parser.spans.size)
    (isOwn : (parser.spans.get span).id = span)
    (knows : parser.evaluator.Knows grammar.predicates.size
      ((grammar.alone document).ComesTo grammar.predicates.size)
      parser.spans) :
    Answers
      (Evaluator.Knows grammar.predicates.size
        ((grammar.alone document).ComesTo grammar.predicates.size)
        parser.spans)
      parser.evaluator
      (evaluatePredicate parser.compiled.network (Host.inheriting : Host σ)
        parser.context id (parser.spans.get span))
      ((grammar.alone document).evaluate grammar.predicates.size id
        (parser.spans.get span)) := by
  subst sameDocument
  rw [compiled]
  have isStored : parser.context.spans.get (parser.spans.get span).id =
      parser.spans.get span := by
    rw [isOwn]
    rfl
  exact @answers_evaluateWithin_contextless σ Host.inheriting parser.context
    (grammar.alone parser.document) contextless (fun _ _ _ _ => rfl) rfl
    wellFormed.operand_known _ _ (Nat.le_mul_of_pos_right _ (Nat.succ_pos _)) _
    inside _ (isOwn.symm ▸ committed) isStored _ knows

/-- Going on alike with what the inheriting host lets a rule produce. -/
theorem simulates_inheriting
    {α β : Type}
    {errors : ParseError → ParseError → Prop}
    {values : α → β → Prop}
    {alike : Parser × σ → Parser × σ → Prop}
    {rule : Rule}
    {leftTarget rightTarget : Span}
    {leftRhs rightRhs : List Span}
    {leftRest : Except ActionError (Option Span) → Parsing σ α}
    {rightRest : Except ActionError (Option Span) → Parsing σ β}
    (rest : Simulates errors values alike (parser, left) (echo, right)
      (leftRest (.ok (some (inheritFeatures rule leftTarget leftRhs))))
      (rightRest (.ok (some (inheritFeatures rule rightTarget rightRhs))))) :
    Simulates errors values alike (parser, left) (echo, right)
      (runAction Host.inheriting rule leftTarget leftRhs >>= leftRest)
      (runAction Host.inheriting rule rightTarget rightRhs >>= rightRest) :=
  ⟨rest.answers, rest.after⟩

section Asking

variable (renumbers : Renumbers rename count)
variable (contextless : grammar.predicates.Contextless)
variable (wellFormed : grammar.WellFormed)

include renumbers contextless wellFormed in
/-- A test finds the same in the echo. -/
theorem echoed_testPredicate
    (echoes : Parser.Echoes rename count grammar options parser echo)
    {id : PredicateId}
    (inside : id < grammar.predicates.size)
    {span : SpanId}
    (committed : span < parser.spans.size) :
    EchoedAs rename count grammar options Eq (parser, left) (echo, right)
      (testPredicate Host.inheriting id span)
      (testPredicate Host.inheriting id (rename span)) := by
  have isSpan := echoes.get_echo committed
  have isOwn := echoes.numbered span committed
  have sameDocument : echo.document = parser.document := by
    rw [echoes.same]
    rfl
  have echoOwn : (echo.spans.get (rename span)).id = rename span := by
    rw [isSpan, Span.renumbered, isOwn]
  obtain ⟨answer, knows⟩ := @answers_evaluatePredicate_alone σ _ _ _ contextless
    wellFormed echoes.compiled _ rfl _ inside _ committed isOwn echoes.knows left
  obtain ⟨echoAnswer, echoKnows⟩ := @answers_evaluatePredicate_alone σ _ _ _
    contextless wellFormed echoes.echo_compiled _ sameDocument _ inside _
    ((echoes.store.inside_iff renumbers).mpr committed) echoOwn echoes.echoKnows
    right
  rw [isSpan, Grammar.evaluate_alone_renumbered contextless] at echoAnswer
  unfold EchoedAs
  constructor
  case answers =>
    rw [run_testPredicate, run_testPredicate]
    simp only [answer, isSpan, echoAnswer]
    cases (grammar.alone parser.document).evaluate grammar.predicates.size id
      (parser.spans.get span) with
    | ok value => exact .ok rfl
    | error source => exact .error rfl
  case after =>
    rw [run_testPredicate, run_testPredicate]
    exact echoes.evaluated knows echoKnows

include renumbers in
/-- A committed span and its echo have corresponding numbers. -/
theorem echoed_commit
    (echoes : Parser.Echoes rename count grammar options parser echo)
    (span : Span) :
    EchoedAs rename count grammar options (fun id echoId => echoId = rename id)
      (parser, left) (echo, right) (commit span)
      (commit (span.renumbered rename)) :=
  ⟨.ok echoes.store.size, echoes.commit renumbers span⟩

include renumbers contextless wellFormed

/-- What is synthesized from a span and from its echo corresponds. -/
theorem echoed_synthesize
    (echoes : Parser.Echoes rename count grammar options parser echo)
    {base : SpanId}
    (committed : base < parser.spans.size)
    {declaration : Synthesized}
    (declared : declaration ∈ grammar.synthesized) :
    EchoedAs rename count grammar options
      (fun made echoMade => echoMade = made.map rename)
      (parser, left) (echo, right)
      (synthesize Host.inheriting base declaration)
      (synthesize Host.inheriting (rename base) declaration) := by
  unfold synthesize
  refine simulates_get ?_
  rw [echoes.synthesized]
  cases parser.synthesized[(base, declaration.symbol)]? with
  | some made => exact .pure echoes rfl
  | none =>
      refine .bind_ensures (echoed_testPredicate renumbers contextless wellFormed
        echoes (wellFormed.synthesized_terminal declared).2.2.2 committed)
        (asks_testPredicate Host.inheriting _ _ parser) ?_
      rintro answer _ ⟨tested, left⟩ ⟨echoTested, right⟩ rfl testedEchoes asked
      have stillCommitted : base < tested.spans.size :=
        (asked.spans.get committed).1
      have recorded : ∀ (made echoMade : Option SpanId)
          (leftAfter rightAfter : Parser × σ),
          echoMade = made.map rename →
          Parser.Echoes rename count grammar options leftAfter.1 rightAfter.1 →
          EchoedAs rename count grammar options
            (fun made echoMade => echoMade = made.map rename)
            leftAfter rightAfter
            (do
              modifyParser fun current =>
                { current with
                  synthesized :=
                    current.synthesized.insert (base, declaration.symbol) made }
              return made)
            (do
              modifyParser fun current =>
                { current with
                  synthesized :=
                    current.synthesized.insert (rename base, declaration.symbol)
                      echoMade }
              return echoMade) := by
        rintro made _ ⟨leftAfter, left⟩ ⟨rightAfter, right⟩ rfl afterEchoes
        exact simulates_modify (.pure (afterEchoes.recordSynthesized renumbers
          base declaration.symbol made) rfl)
      cases answer with
      | true =>
          have isTarget := testedEchoes.target_synthesized declaration
            stillCommitted
          refine simulates_get ?_
          dsimp only
          rw [← isTarget]
          refine .bind (echoed_commit renumbers testedEchoes _) ?_
          rintro id _ leftAfter rightAfter rfl afterEchoes
          exact recorded (some id) (some (rename id)) _ _ rfl afterEchoes
      | false => exact recorded none none _ _ rfl testedEchoes

/-- What is collected in the echo corresponds. -/
theorem echoed_collect
    (echoes : Parser.Echoes rename count grammar options parser echo)
    {item : Collectible}
    (fits : item.Fits grammar parser.spans) :
    EchoedAs rename count grammar options (fun _ _ => True)
      (parser, left) (echo, right) (collect Host.inheriting item)
      (collect Host.inheriting (item.renumbered rename)) := by
  have adds : ∀ (ids echoIds : List SpanId) (leftAfter rightAfter : Parser × σ),
      echoIds = ids.map rename →
      Parser.Echoes rename count grammar options leftAfter.1 rightAfter.1 →
      EchoedAs rename count grammar options (fun _ _ => True)
        leftAfter rightAfter (addCandidates ids) (addCandidates echoIds) := by
    rintro ids _ leftAfter rightAfter rfl afterEchoes
    exact ⟨.ok trivial, afterEchoes.addCandidates ids⟩
  cases item with
  | ahead id => exact adds [id] [rename id] (parser, left) (echo, right) rfl echoes
  | synthesized base declaration =>
      refine .bind (echoed_synthesize renumbers contextless wellFormed echoes
        fits.1 fits.2) ?_
      rintro made _ leftAfter rightAfter rfl afterEchoes
      refine adds _ _ _ _ ?_ afterEchoes
      cases made <;> rfl

/-- What is collected one after the other in the echo corresponds. -/
theorem echoed_collectAll
    (echoes : Parser.Echoes rename count grammar options parser echo)
    {items : List Collectible}
    (fit : ∀ item ∈ items, item.Fits grammar parser.spans) :
    EchoedAs rename count grammar options (fun _ _ => True)
      (parser, left) (echo, right) (items.forM (collect Host.inheriting))
      ((items.map (Collectible.renumbered rename)).forM
        (collect Host.inheriting)) := by
  have simulates : Simulates
      (fun error echo => echo = ParseError.renumbered rename error)
      (fun _ _ => True)
      (fun leftAfter rightAfter : Parser × σ =>
        Parser.Echoes rename count grammar options leftAfter.1 rightAfter.1 ∧
          ∀ item ∈ items, item.Fits grammar leftAfter.1.spans)
      (parser, left) (echo, right) (items.forM (collect Host.inheriting))
      ((items.map (Collectible.renumbered rename)).forM
        (collect Host.inheriting)) := by
    refine .forM _ ?_ ⟨echoes, fit⟩
    rintro item member ⟨before, left⟩ ⟨echoBefore, right⟩ ⟨beforeEchoes, beforeFit⟩
    exact ((echoed_collect renumbers contextless wellFormed beforeEchoes
      (beforeFit item member)).and_keeps (asks_collect _ item)).imp
        fun _ _ after => ⟨after.1, fun other listed =>
          (beforeFit other listed).grows after.2.spans⟩
  exact simulates.imp fun _ _ after => after.1

/-- The spans ahead in the echo correspond. -/
theorem echoed_collectCandidates
    (echoes : Parser.Echoes rename count grammar options parser echo)
    {word : Nat}
    (known : ∀ ahead, parser.words[word]? = some ahead →
      ∀ base : Nat, base ∈ ahead.spans → base < parser.spans.size) :
    EchoedAs rename count grammar options (fun _ _ => True)
      (parser, left) (echo, right) (collectCandidates Host.inheriting word)
      (collectCandidates Host.inheriting word) := by
  have echoKnown : ∀ ahead, echo.words[word]? = some ahead →
      ∀ base : Nat, base ∈ ahead.spans → base < echo.spans.size := by
    intro ahead isAhead base member
    rw [echoes.words_echo, List.getElem?_map] at isAhead
    obtain ⟨word, isWord, rfl⟩ := Option.map_eq_some_iff.mp isAhead
    obtain ⟨own, inWord, rfl⟩ := List.mem_map.mp member
    exact (echoes.store.inside_iff renumbers).mpr (known word isWord own inWord)
  have fit := Parser.fits_collectibles known
  rw [echoes.compiled] at fit
  have uncollected := echoes.change
    (fun current => { current with candidates := [] })
    (⟨rfl, rfl, rfl, rfl, rfl, rfl⟩ :
      parser.LearnsNothing { parser with candidates := [] }) rfl
  refine .of_coincides (coincides_collectCandidates Host.inheriting word known left)
    (coincides_collectCandidates Host.inheriting word echoKnown right)
    (simulates_modify ?_)
  rw [echoes.collectibles renumbers]
  exact echoed_collectAll renumbers contextless wellFormed uncollected fit

/-- Predicates of a rule hold on spans if they do on their echoes. -/
theorem echoed_predicatesHold
    (echoes : Parser.Echoes rename count grammar options parser echo)
    {rule : Rule}
    (user : rule ∈ grammar.rules)
    {ids : List SpanId}
    (known : ∀ id : Nat, id ∈ ids → id < parser.spans.size) :
    EchoedAs rename count grammar options Eq (parser, left) (echo, right)
      (predicatesHold Host.inheriting rule ids)
      (predicatesHold Host.inheriting rule (ids.map rename)) := by
  have simulates : Simulates
      (fun error echo => echo = ParseError.renumbered rename error) Eq
      (fun leftAfter rightAfter : Parser × σ =>
        Parser.Echoes rename count grammar options leftAfter.1 rightAfter.1 ∧
          ∀ id : Nat, id ∈ ids → id < leftAfter.1.spans.size)
      (parser, left) (echo, right)
      (predicatesHold Host.inheriting rule ids)
      (predicatesHold Host.inheriting rule (ids.map rename)) := by
    unfold predicatesHold
    rw [List.zip_map_right]
    refine .allM _ ?_ ⟨echoes, known⟩
    rintro ⟨position, span⟩ listed ⟨before, left⟩ ⟨echoBefore, right⟩
      ⟨beforeEchoes, beforeKnown⟩
    have isPart := List.of_mem_zip listed
    dsimp only [Prod.map_apply, id_eq]
    split
    · rename_i id isPredicate
      have tested := @echoed_testPredicate σ _ _ _ _ _ _ left right renumbers
        contextless wellFormed beforeEchoes _
        (wellFormed.rhs_predicate user position isPart.1 id isPredicate) _
        (beforeKnown span isPart.2)
      exact (tested.and_keeps (asks_testPredicate _ id span)).imp
        fun _ _ after => ⟨after.1, fun id member =>
          (after.2.spans.get (beforeKnown id member)).1⟩
    · exact .pure ⟨beforeEchoes, beforeKnown⟩ rfl
  exact simulates.imp fun _ _ after => after.1

omit contextless wellFormed in
/-- What a rule produces from spans and from their echoes corresponds. -/
theorem echoed_produce
    (echoes : Parser.Echoes rename count grammar options parser echo)
    (rule : Rule)
    {ids : List SpanId}
    (nonempty : ids ≠ [])
    (known : ∀ id : Nat, id ∈ ids → id < parser.spans.size) :
    EchoedAs rename count grammar options
      (fun made echoMade => echoMade = made.map rename)
      (parser, left) (echo, right) (produce Host.inheriting rule ids)
      (produce Host.inheriting rule (ids.map rename)) := by
  have sameRhs : (ids.map rename).map echo.spans.get =
      (ids.map parser.spans.get).map (Span.renumbered rename) := by
    rw [List.map_map, List.map_map]
    exact List.map_congr_left fun id member => echoes.get_echo (known id member)
  unfold produce
  refine simulates_get (simulates_inheriting ?_)
  rw [sameRhs, echoes.target_echo rule (by simpa using nonempty),
    inheritFeatures_renumbered]
  generalize inheritFeatures rule
    (parser.target rule (ids.map parser.spans.get))
    (ids.map parser.spans.get) = span
  have committed := echoes.commit renumbers span
  have counted := committed.change (Parser.countSuccess · rule.id)
    (⟨rfl, rfl, rfl, rfl, rfl, rfl⟩ :
      Parser.LearnsNothing { parser with spans := (parser.spans.push span).2 }
        (Parser.countSuccess
          { parser with spans := (parser.spans.push span).2 } rule.id)) rfl
  have recorded := counted.recordOutcome renumbers rule.id ids
    (some parser.spans.nextId)
  have sameNext : echo.spans.nextId = rename parser.spans.nextId :=
    echoes.store.size
  rw [Option.map_some, ← sameNext] at recorded
  exact ⟨.ok (congrArg some sameNext), recorded⟩

/-- Attempting a reduction comes to the same in the echo. -/
theorem echoed_reducePath
    (echoes : Parser.Echoes rename count grammar options parser echo)
    {rule : RuleId}
    (user : rule < grammar.rules.size)
    {nodes : List SymbolNodeId}
    (nonempty : nodes ≠ [])
    (known : ∀ node ∈ nodes, node < parser.stack.symbols.size)
    (spanKnown : ∀ id : Nat, id ∈ parser.spansOf nodes →
      id < parser.spans.size) :
    EchoedAs rename count grammar options
      (fun made echoMade => echoMade = made.map rename)
      (parser, left) (echo, right)
      (reducePath Host.inheriting (grammar.rule rule) nodes)
      (reducePath Host.inheriting (grammar.rule rule) nodes) := by
  have counted := echoes.change
    (Parser.countAttempt · (grammar.rule rule).id)
    (⟨rfl, rfl, rfl, rfl, rfl, rfl⟩ :
      parser.LearnsNothing (parser.countAttempt (grammar.rule rule).id)) rfl
  have leftIds : (nodes.map fun node =>
      ((parser.countAttempt (grammar.rule rule).id).stack.symbolNode
        node).span) =
      parser.spansOf nodes :=
    rfl
  have rightIds : (nodes.map fun node =>
      ((echo.countAttempt (grammar.rule rule).id).stack.symbolNode
        node).span) =
      (parser.spansOf nodes).map rename := by
    rw [Parser.spansOf, List.map_map]
    refine List.map_congr_left fun node member => ?_
    have sameStack : (echo.countAttempt (grammar.rule rule).id).stack =
        parser.stack.renumbered rename := by
      rw [echoes.same]
      rfl
    rw [sameStack, GraphStack.symbolNode_renumbered (known node member)]
    rfl
  unfold reducePath
  refine simulates_modify (simulates_get ?_)
  rw [leftIds, rightIds]
  refine .bind_ensures (echoed_predicatesHold renumbers contextless wellFormed
    counted (Grammar.rule_mem user) spanKnown)
    (asks_predicatesHold Host.inheriting _ _ _) ?_
  rintro answer _ ⟨tested, left⟩ ⟨echoTested, right⟩ rfl testedEchoes asked
  have testedKnown : ∀ id : Nat, id ∈ parser.spansOf nodes →
      id < tested.spans.size :=
    fun id member => (asked.spans.get (spanKnown id member)).1
  cases answer with
  | false => exact .pure testedEchoes rfl
  | true =>
      refine simulates_get ?_
      rw [testedEchoes.outcomes]
      cases tested.outcomes[((grammar.rule rule).id, parser.spansOf nodes)]? with
      | none =>
          exact echoed_produce renumbers testedEchoes _
            (by simpa [Parser.spansOf] using nonempty) testedKnown
      | some outcome =>
          cases outcome with
          | none => exact .pure testedEchoes rfl
          | some made =>
              refine simulates_modify (.pure ?_ rfl)
              exact testedEchoes.change
                (Parser.countSuccess · (grammar.rule rule).id)
                ⟨rfl, rfl, rfl, rfl, rfl, rfl⟩ rfl

end Asking

end Parsing

end SpanForest
