import SpanForest.Proofs.Parser.Watching

namespace SpanForest

/-!
# Hosts are asked once

Once an attempt at a reduction has come to an outcome, the outcome is in memory
and so are the truth values of the rule's predicates, and both stay there. So
every later attempt at the same reduction comes to the same outcome without
asking the host, and whatever a host answers it is asked for once in a parse.
-/

namespace Parser

variable {σ : Type} {host : Host σ}
variable {grammar : Grammar} {options : CompileOptions}
variable {before after parser : Parser}
variable {rule : Rule} {ids : List SpanId} {outcome : Option SpanId}

/-- It is known of these spans that the predicates at these positions hold. -/
def Grants (parser : Parser) (pairs : List (RhsSymbol × SpanId)) : Prop :=
  ∀ pair ∈ pairs, ∀ id, pair.1.predicate = some id →
    parser.evaluator.cache.get? id pair.2 = some true

/-- The outcome of a reduction is known, and that its predicates hold. -/
structure Resolved
    (parser : Parser)
    (rule : Rule)
    (ids : List SpanId)
    (outcome : Option SpanId) : Prop where
  outcome : parser.outcomes[(rule.id, ids)]? = some outcome
  granted : parser.Grants (rule.rhs.zip ids)

theorem Grants.retains
    {pairs : List (RhsSymbol × SpanId)}
    (grants : before.Grants pairs)
    (retains : before.evaluator.Retains after.evaluator) :
    after.Grants pairs :=
  fun pair listed id isPredicate =>
    retains.known id pair.2 true (grants pair listed id isPredicate)

/-- What is resolved stays so. -/
theorem Resolved.retains
    (resolved : before.Resolved rule ids outcome)
    (retains : before.evaluator.Retains after.evaluator)
    (keeps : before.KeepsOutcomes after) :
    after.Resolved rule ids outcome where
  outcome := keeps _ outcome resolved.outcome
  granted := resolved.granted.retains retains

end Parser

namespace Parsing

variable {σ τ : Type} {host : Host σ}
variable {grammar : Grammar} {options : CompileOptions}
variable {parser : Parser} {rule : Rule} {ids : List SpanId}

/-- Running an action for the first time, the outcome is known from then on. -/
theorem ensures_produce_known :
    Ensures parser (produce host rule ids)
      (fun outcome after => after.outcomes[(rule.id, ids)]? = some outcome)
      fun _ => True := by
  have recorded : ∀ (current : Parser) (outcome : Option SpanId),
      Ensures current
        (do
          modifyParser (·.recordOutcome rule.id ids outcome)
          return outcome : Parsing σ (Option SpanId))
        (fun outcome after => after.outcomes[(rule.id, ids)]? = some outcome)
        fun _ => True :=
    fun current outcome => ensures_modify
      (.pure (current.outcomes_recordOutcome rule.id ids outcome))
  unfold produce
  refine ensures_get (ensures_runAction fun state => ?_)
  split
  · exact ensures_commit (ensures_modify (recorded _ _))
  · exact recorded _ _
  · exact recorded _ _
  · exact fun _ => trivial

/-- An attempt that is permitted comes to an outcome that is known from then on. -/
theorem ensures_conclude_known :
    Ensures parser (conclude host rule ids true)
      (fun outcome after => after.outcomes[(rule.id, ids)]? = some outcome)
      fun _ => True := by
  unfold conclude
  refine ensures_get ?_
  split
  · rename_i known stored
    exact ensures_modify (.pure stored)
  · rename_i stored
    exact .pure stored
  · exact ensures_produce_known

/-- Test the predicate at a position on the span there, if it has one. -/
def testPosition
    (host : Host σ)
    (pair : RhsSymbol × SpanId) :
    Parsing σ Bool :=
  match pair.1.predicate with
  | some id => testPredicate host id pair.2
  | none => return true

theorem predicatesHold_eq (host : Host σ) (rule : Rule) (ids : List SpanId) :
    predicatesHold host rule ids =
      (rule.rhs.zip ids).allM (testPosition host) :=
  rfl

/-- Predicates that were found to hold are known to hold from then on. -/
theorem ensures_predicatesHold_known
    (numbered : parser.Numbered)
    (known : ∀ id : Nat, id ∈ ids → id < parser.spans.size) :
    Ensures parser (predicatesHold host rule ids)
      (fun answer after => parser.Asks after ∧
        (answer = true → after.Grants (rule.rhs.zip ids)))
      parser.Asks := by
  rw [predicatesHold_eq]
  have pairsKnown : ∀ pair ∈ rule.rhs.zip ids, pair.2 < parser.spans.size :=
    fun pair listed => known pair.2 (List.of_mem_zip listed).2
  clear known
  generalize rule.rhs.zip ids = pairs at pairsKnown ⊢
  induction pairs generalizing parser with
  | nil => exact .pure ⟨.refl parser, fun _ _ listed => by cases listed⟩
  | cons pair rest inductionHypothesis =>
      obtain ⟨position, span⟩ := pair
      have spanKnown := pairsKnown (position, span) List.mem_cons_self
      have tested : Ensures parser (testPosition host (position, span))
          (fun answer middle => parser.Asks middle ∧
            (answer = true → middle.Grants [(position, span)]))
          parser.Asks := by
        unfold testPosition
        cases isPredicate : position.predicate with
        | none =>
            refine .pure ⟨.refl parser, fun _ other listed id isOther => ?_⟩
            obtain rfl := List.mem_singleton.mp listed
            rw [isPredicate] at isOther
            cases isOther
        | some id =>
            refine (ensures_testPredicate_known host id span parser).imp ?_
              fun _ stopped => stopped.asks
            rintro answer middle ⟨evaluates, found⟩
            refine ⟨evaluates.asks, fun holds other listed own isOther => ?_⟩
            obtain rfl := List.mem_singleton.mp listed
            rw [isPredicate] at isOther
            obtain rfl := Option.some.inj isOther
            rw [numbered span spanKnown, holds] at found
            exact found
      unfold List.allM
      refine .bind tested ?_
      rintro answer middle ⟨asks, granted⟩
      cases answer with
      | false => exact .pure ⟨asks, fun isTrue => by cases isTrue⟩
      | true =>
          have restKnown : ∀ pair ∈ rest, pair.2 < middle.spans.size :=
            fun pair listed => (asks.spans.get (pairsKnown pair
              (List.mem_cons_of_mem _ listed))).1
          refine (inductionHypothesis (asks.numbered numbered) restKnown).imp
            ?_ fun _ later => asks.trans later
          rintro answer after ⟨later, restGranted⟩
          refine ⟨asks.trans later, fun holds other listed => ?_⟩
          rcases List.mem_cons.mp listed with isPair | isRest
          · exact ((granted rfl).retains later.evaluator) other
              (List.mem_singleton.mpr isPair)
          · exact restGranted holds other isRest

/-- What is known to hold is found to hold, without asking the host. -/
theorem run_predicatesHold_of_grants
    (numbered : parser.Numbered)
    (known : ∀ id : Nat, id ∈ ids → id < parser.spans.size)
    (inside : ∀ part ∈ rule.rhs, ∀ id, part.predicate = some id →
      id < parser.compiled.network.size)
    (grants : parser.Grants (rule.rhs.zip ids))
    (state : σ) :
    ∃ evaluator,
      (predicatesHold host rule ids).run.run (parser, state) =
        (.ok true, parser.withEvaluator evaluator, state) := by
  rw [predicatesHold_eq]
  have pairsKnown : ∀ pair ∈ rule.rhs.zip ids, pair.2 < parser.spans.size :=
    fun pair listed => known pair.2 (List.of_mem_zip listed).2
  have pairsInside : ∀ pair ∈ rule.rhs.zip ids, ∀ id,
      pair.1.predicate = some id → id < parser.compiled.network.size :=
    fun pair listed => inside pair.1 (List.of_mem_zip listed).1
  clear known inside
  generalize rule.rhs.zip ids = pairs at pairsKnown pairsInside grants ⊢
  induction pairs generalizing parser with
  | nil => exact ⟨parser.evaluator, rfl⟩
  | cons pair rest inductionHypothesis =>
      obtain ⟨position, span⟩ := pair
      have tested : ∃ evaluator,
          evaluator.cache = parser.evaluator.cache ∧
          (testPosition host (position, span)).run.run (parser, state) =
            (.ok true, parser.withEvaluator evaluator, state) := by
        unfold testPosition
        cases isPredicate : position.predicate with
        | none => exact ⟨parser.evaluator, rfl, rfl⟩
        | some id =>
            have found := grants _ List.mem_cons_self id isPredicate
            have ofSpan : parser.evaluator.cache.get? id
                (parser.spans.get span).id = some true := by
              rw [numbered span (pairsKnown _ List.mem_cons_self)]
              exact found
            have positive : 0 < parser.compiled.network.size *
                (parser.context.spans.size + 1) :=
              Nat.mul_pos (Nat.zero_lt_of_lt
                (pairsInside _ List.mem_cons_self id isPredicate))
                (Nat.succ_pos _)
            refine ⟨parser.evaluator.countHit, rfl, ?_⟩
            rw [run_testPredicate]
            unfold evaluatePredicate
            rw [Evaluation.run_evaluateWithin_of_known positive ofSpan]
            rfl
      obtain ⟨evaluator, sameCache, isTested⟩ := tested
      have goesOn := @inductionHypothesis (parser.withEvaluator evaluator)
        numbered (fun other listed =>
          pairsKnown other (List.mem_cons_of_mem _ listed))
        (fun other listed =>
          pairsInside other (List.mem_cons_of_mem _ listed))
        (fun other listed id isPredicate => by
          change evaluator.cache.get? id other.2 = some true
          rw [sameCache]
          exact grants other (List.mem_cons_of_mem _ listed) id isPredicate)
      obtain ⟨last, isLast⟩ := goesOn
      refine ⟨last, ?_⟩
      unfold List.allM
      simp only [ExceptT.run_bind, StateT.run_bind, isTested]
      exact isLast

/-- Concluding what has an outcome recalls it, without asking the host. -/
theorem run_conclude_of_known
    {outcome : Option SpanId}
    (stored : parser.outcomes[(rule.id, ids)]? = some outcome)
    (state : σ) :
    ∃ after : Parser,
      (conclude host rule ids true).run.run (parser, state) =
        (.ok outcome, after, state) ∧
      after.spans = parser.spans := by
  unfold conclude
  rw [if_pos rfl, run_get, stored]
  cases outcome with
  | some known => exact ⟨parser.countSuccess rule.id, rfl, rfl⟩
  | none => exact ⟨parser, rfl, rfl⟩

/-- An attempt at what is resolved recalls the outcome, without asking the host. -/
theorem run_reducePath_of_resolved
    {nodes : List SymbolNodeId}
    {outcome : Option SpanId}
    (resolved : parser.Resolved rule (parser.spansOf nodes) outcome)
    (numbered : parser.Numbered)
    (known : ∀ id : Nat, id ∈ parser.spansOf nodes → id < parser.spans.size)
    (inside : ∀ part ∈ rule.rhs, ∀ id, part.predicate = some id →
      id < parser.compiled.network.size)
    (state : σ) :
    ∃ after : Parser,
      (reducePath host rule nodes).run.run (parser, state) =
        (.ok outcome, after, state) ∧
      after.spans = parser.spans := by
  obtain ⟨evaluator, isHeld⟩ := @run_predicatesHold_of_grants _ host
    (parser.countAttempt rule.id) rule (parser.spansOf nodes) numbered known
    inside resolved.granted state
  obtain ⟨after, concluded, sameSpans⟩ := @run_conclude_of_known _ host
    ((parser.countAttempt rule.id).withEvaluator evaluator) rule
    (parser.spansOf nodes) outcome resolved.outcome state
  refine ⟨after, ?_, sameSpans⟩
  rw [run_reducePath]
  simp only [ExceptT.run_bind, StateT.run_bind, isHeld]
  exact concluded

/-- Write an attempt down, and make it. -/
def watch
    (host : Host σ)
    (rule : Rule)
    (nodes : List SymbolNodeId) :
    Parsing (Watched σ) (Option SpanId) := do
  modify fun (parser, run) =>
    (parser,
      { run with
        attempts := run.attempts ++ [⟨rule, nodes, parser, run.state⟩] })
  reducePath host.watched rule nodes

theorem run_watch
    (nodes : List SymbolNodeId)
    (run : Watched σ) :
    (watch host rule nodes).run.run (parser, run) =
      (reducePath host.watched rule nodes).run.run
        (parser, { run with
          attempts := run.attempts ++ [⟨rule, nodes, parser, run.state⟩] }) :=
  Effect.run_modify_bind _ _ _

end Parsing

namespace Parser

variable {σ : Type} {host : Host σ}
variable {grammar : Grammar} {options : CompileOptions}
variable {config : ParserConfig}
variable {before after parser : Parser}

/-- What an attempt yields is resolved after it. -/
theorem resolved_of_yields
    {attempt : Attempt σ}
    (numbered : attempt.parser.Numbered)
    (known : ∀ id : Nat, id ∈ attempt.ids → id < attempt.parser.spans.size)
    {outcome : Option SpanId}
    (yields : attempt.Yields host outcome) :
    ((Parsing.reducePath host attempt.rule attempt.nodes).run.run
        (attempt.parser, attempt.state)).2.1.Resolved attempt.rule attempt.ids
      outcome := by
  obtain ⟨permitted, isOutcome⟩ := yields
  rw [Parsing.run_reducePath] at isOutcome ⊢
  have held := @Parsing.ensures_predicatesHold_known _ host
    (attempt.parser.countAttempt attempt.rule.id) attempt.rule attempt.ids
    numbered known attempt.state
  change ((Parsing.predicatesHold host attempt.rule attempt.ids >>=
    Parsing.conclude host attempt.rule attempt.ids).run.run _).1 = _ at isOutcome
  change Resolved ((Parsing.predicatesHold host attempt.rule attempt.ids >>=
    Parsing.conclude host attempt.rule attempt.ids).run.run _).2.1 _ _ _
  simp only [ExceptT.run_bind, StateT.run_bind] at isOutcome ⊢
  generalize (Parsing.predicatesHold host attempt.rule attempt.ids).run.run
    (attempt.parser.countAttempt attempt.rule.id, attempt.state) = tested
    at permitted held isOutcome ⊢
  obtain ⟨answer, tested, changed⟩ := tested
  obtain rfl : answer = .ok true := permitted
  have grants := held.2 rfl
  have stored := @Parsing.ensures_conclude_known _ host tested attempt.rule
    attempt.ids changed
  have asks := Parsing.asks_conclude host attempt.rule attempt.ids true tested
    changed
  change ((Parsing.conclude host attempt.rule attempt.ids true).run.run
    (tested, changed)).1 = _ at isOutcome
  change Resolved ((Parsing.conclude host attempt.rule attempt.ids
    true).run.run (tested, changed)).2.1 _ _ _
  generalize (Parsing.conclude host attempt.rule attempt.ids true).run.run
    (tested, changed) = concluded at isOutcome stored asks ⊢
  obtain ⟨answer, concluded, last⟩ := concluded
  obtain rfl : answer = .ok outcome := isOutcome
  exact ⟨stored, grants.retains asks.evaluator⟩

/-- The same parse, calls made once each, and attempts that repeat their outcomes. -/
structure WatchedRun
    (host : Host σ)
    (grammar : Grammar)
    (options : CompileOptions)
    (first : Parser × Watched σ)
    (second : Parser × σ) : Prop where
  watches :
    Watches grammar options first.2.attempts first second
  rules :
    ∀ attempt ∈ first.2.attempts,
      attempt.rule = grammar.rule attempt.rule.id
  resolved :
    ∀ attempt ∈ first.2.attempts, ∀ outcome, attempt.Yields host outcome →
      second.1.Resolved attempt.rule attempt.ids outcome
  repeats : first.2.attempts.Pairwise (Attempt.Repeats host)

/-- Asking without an attempt leaves the attempts as they are. -/
theorem WatchedRun.later
    {first later : Parser × Watched σ}
    {second last : Parser × σ}
    (run : WatchedRun host grammar options first second)
    (watches : Watches grammar options first.2.attempts later last)
    (retains : second.1.evaluator.Retains last.1.evaluator)
    (keeps : second.1.KeepsOutcomes last.1) :
    WatchedRun host grammar options later last := by
  have same := watches.faithful.attempts
  constructor
  case watches =>
    rw [same]
    exact ⟨watches.parser, watches.compiled, watches.numbered,
      watches.faithful⟩
  case rules =>
    rw [same]
    exact run.rules
  case resolved =>
    rw [same]
    exact fun attempt made outcome yields =>
      (run.resolved attempt made outcome yields).retains retains keeps
  case repeats =>
    rw [same]
    exact run.repeats

/-- An attempt is watched. -/
theorem WatchedRun.attempts
    (wellFormed : grammar.WellFormed)
    {first : Parser × Watched σ}
    {second : Parser × σ}
    (run : WatchedRun host grammar options first second)
    {rule : RuleId}
    {nodes : List SymbolNodeId}
    (user : rule < grammar.rules.size)
    (known : ∀ id : Nat, id ∈ second.1.spansOf nodes →
      id < second.1.spans.size) :
    Mirrors False (WatchedRun host grammar options) first second
      (Parsing.watch host (grammar.rule rule) nodes)
      (Parsing.reducePath host (grammar.rule rule) nodes) := by
  obtain ⟨parser, watched⟩ := first
  obtain ⟨own, state⟩ := second
  obtain rfl : parser = own := run.watches.parser
  obtain rfl : watched.state = state := run.watches.faithful.state
  let attempt : Attempt σ :=
    ⟨grammar.rule rule, nodes, parser, watched.state⟩
  let attempts := watched.attempts ++ [attempt]
  have begins : Watches grammar options attempts
      (parser, { watched with attempts := attempts })
      (parser, watched.state) := by
    have faithful := run.watches.faithful
    exact ⟨rfl, run.watches.compiled, run.watches.numbered,
      ⟨rfl, rfl, faithful.once, faithful.settled⟩⟩
  have mirrors : Mirrors False (Watches grammar options attempts)
      (parser, watched) (parser, watched.state)
      (Parsing.watch host (grammar.rule rule) nodes)
      (Parsing.reducePath host (grammar.rule rule) nodes) := by
    obtain ⟨sameAnswer, holds⟩ :=
      ((asksAlike_watches host attempts).reducePath wellFormed begins
        user known).alikeAfter False.elim
    refine .both ?_ ?_
    · rw [Parsing.run_watch]
      exact sameAnswer
    · rw [Parsing.run_watch]
      exact holds
  have both := (mirrors.and_keeps (Parsing.asks_reducePath host
    (grammar.rule rule) nodes)).alikeAfter False.elim
  have newResolved := fun outcome =>
    @resolved_of_yields _ host attempt run.watches.numbered known outcome
  obtain ⟨sameAnswer, watches, asks⟩ := both
  refine .both sameAnswer ?_
  change ∀ outcome, attempt.Yields host outcome →
    ((Parsing.reducePath host (grammar.rule rule) nodes).run.run
      (parser, watched.state)).2.1.Resolved _ _ outcome at newResolved
  generalize (Parsing.watch host (grammar.rule rule) nodes).run.run
    (parser, watched) = leftOutcome at watches ⊢
  generalize (Parsing.reducePath host (grammar.rule rule) nodes).run.run
    (parser, watched.state) = rightOutcome at watches asks newResolved ⊢
  have same : leftOutcome.2.2.attempts = attempts := watches.faithful.attempts
  constructor
  case watches =>
    rw [same]
    exact ⟨watches.parser, watches.compiled, watches.numbered,
      watches.faithful⟩
  case rules =>
    rw [same]
    intro other made
    rcases List.mem_append.mp made with old | new
    · exact run.rules other old
    · obtain rfl := List.mem_singleton.mp new
      exact (congrArg grammar.rule
        (wellFormed.id_rule (Nat.le_of_lt user))).symm
  case resolved =>
    rw [same]
    intro other made outcome yields
    rcases List.mem_append.mp made with old | new
    · exact (run.resolved other old outcome yields).retains asks.evaluator
        asks.outcomes
    · obtain rfl := List.mem_singleton.mp new
      exact newResolved outcome yields
  case repeats =>
    rw [same]
    refine List.pairwise_append.mpr ⟨run.repeats, List.pairwise_singleton _ _, ?_⟩
    intro early made late isLate sameRule sameIds outcome yields τ other state
    obtain rfl := List.mem_singleton.mp isLate
    have resolved := run.resolved early made outcome yields
    rw [run.rules early made, sameRule,
      wellFormed.id_rule (Nat.le_of_lt user), sameIds] at resolved
    refine Parsing.run_reducePath_of_resolved resolved run.watches.numbered
      known ?_ state
    intro part listed id isPredicate
    have inside := wellFormed.rhs_predicate (Grammar.rule_mem user) part listed
      id isPredicate
    rw [run.watches.compiled]
    exact inside

/-- A watched parse goes on in lockstep with the parse itself. -/
theorem lockstep_watch
    (wellFormed : grammar.WellFormed)
    (host : Host σ) :
    Parsing.Lockstep False host host.watched grammar options (Parsing.watch host)
      (WatchedRun host grammar options) := by
  constructor
  case same =>
    exact fun _ second run => ⟨second.1.evaluator, run.watches.parser⟩
  case moves =>
    intro before after evaluator left right run same _
    refine run.later
      ((asksAlike_watches host left.attempts).moves run.watches same) ?_ ?_
    · rw [show after.evaluator = before.evaluator from same.evaluator]
      exact .refl _
    · intro key outcome stored
      rw [same.outcomes]
      exact stored
  case collects =>
    intro word first second run sound
    have mirrors := (asksAlike_watches host
      first.2.attempts).collectCandidates wellFormed word run.watches sound
    exact (mirrors.and_keeps (Parsing.asks_collectCandidates host word)).imp
      fun _ _ both => run.later both.1 both.2.evaluator both.2.outcomes
  case attempts =>
    exact fun _ _ _ _ _ run _ user known =>
      run.attempts wellFormed user known

/-- The run after a number of watched steps. -/
def afterWatchedSteps
    (host : Host σ)
    (count : Nat)
    (run : Parser × Watched σ) :
    Parser × Watched σ :=
  Parsing.attemptSteps (Parsing.watch host) host.watched count run

/--
In every parse, from its start over any number of steps, successful or not, the
host gives each answer once: no action is run twice for the same rule and spans
and no named predicate is tested twice on the same span, except after a fatal
answer. Of two attempts at the same reduction, the later one comes to the
outcome of the earlier one, if that one was permitted and came to an outcome,
without asking the host and without committing a span. Watching the parse
changes nothing about it.
-/
theorem Reachable.asked_once
    {builder : GrammarBuilder}
    (built : builder.build = .ok grammar)
    (reachable : Reachable host (grammar.compile options) config parser)
    (document : Document)
    (input : List InputSpan)
    (state : σ)
    (count : Nat) :
    let begun := parser.start document input
    let watched := afterWatchedSteps host count (begun, ⟨state, [], []⟩)
    (watched.1, watched.2.state) = Parser.afterSteps host count (begun, state) ∧
      watched.2.calls.Nodup ∧
      watched.2.attempts.Pairwise (Attempt.Repeats host) := by
  have wellFormed := GrammarBuilder.wellFormed_of_build built
  have begun := Reachable.start document input reachable
  have sound := begun.sound wellFormed
  have begins : WatchedRun host grammar options
      (parser.start document input, ⟨state, [], []⟩)
      (parser.start document input, state) := by
    constructor
    case watches =>
      exact ⟨rfl, sound.loaded.compiled, sound.loaded.numbered,
        ⟨rfl, rfl, List.nodup_nil, fun _ made => by cases made⟩⟩
    case rules => exact fun _ made => by cases made
    case resolved => exact fun _ made => by cases made
    case repeats => exact .nil
  have ends := (lockstep_watch wellFormed host).steps wellFormed begins sound
    count False.elim
  exact ⟨Prod.ext ends.watches.parser ends.watches.faithful.state,
    ends.watches.faithful.once, ends.repeats⟩

end Parser

section Sample

namespace Parser

/-- The watched parse of a word and a mark, after all its steps. -/
def sharedWatched : Parser × Watched Unit :=
  afterWatchedSteps Host.inheriting 3 (sharedStart, ⟨(), [], []⟩)

/-- Rules seven, six and five are attempted twice on the same spans, and run once. -/
theorem asked_once_shared :
    sharedBuilder.build = .ok sharedGrammar ∧
      Reachable (Host.inheriting : Host Unit) (sharedGrammar.compile {}) {}
        (new (sharedGrammar.compile {}) {}) ∧
      sharedWatched.2.attempts.map
          (fun attempt => (attempt.rule.id, attempt.ids)) =
        [(3, [0]), (7, [1]), (6, [3]), (5, [4]), (1, [0, 5]), (4, [0, 1]),
          (7, [1]), (6, [3]), (5, [4]), (0, [2, 5])] ∧
      sharedWatched.2.calls =
        [.execute 3 [0], .execute 7 [1], .execute 6 [3], .execute 5 [4],
          .execute 1 [0, 5], .execute 4 [0, 1], .execute 0 [2, 5]] ∧
      sharedWatched.2.calls.Nodup ∧
      sharedWatched.2.attempts.Pairwise
        (Attempt.Repeats (Host.inheriting : Host Unit)) := by
  have recorded :
      sharedWatched.2.attempts.map
          (fun attempt => (attempt.rule.id, attempt.ids)) =
        [(3, [0]), (7, [1]), (6, [3]), (5, [4]), (1, [0, 5]), (4, [0, 1]),
          (7, [1]), (6, [3]), (5, [4]), (0, [2, 5])] ∧
      sharedWatched.2.calls =
        [.execute 3 [0], .execute 7 [1], .execute 6 [3], .execute 5 [4],
          .execute 1 [0, 5], .execute 4 [0, 1], .execute 0 [2, 5]] := by
    decide +kernel
  have begun : Reachable (Host.inheriting : Host Unit)
      (sharedGrammar.compile {}) {} (new (sharedGrammar.compile {}) {}) :=
    .new
  obtain ⟨-, once, repeats⟩ := Reachable.asked_once build_sharedBuilder begun
    ⟨"a!"⟩
    [⟨"Word", 0, 1, Features.empty⟩, ⟨"Mark", 1, 2, Features.empty⟩] () 3
  exact ⟨build_sharedBuilder, begun, recorded.1, recorded.2, once, repeats⟩

end Parser

end Sample

end SpanForest
