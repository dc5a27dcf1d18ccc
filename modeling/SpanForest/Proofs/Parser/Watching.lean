import SpanForest.Proofs.Parser.Mirroring

namespace SpanForest

/-!
# Watching what a parse asks

To say how often a parse asks its host, the calls that the host answers and the
attempts at reductions are written down next to the state of the host. Nothing
else changes by that. What was asked is known from then on, in the outcomes of
reductions or in the truth values of predicates, and nothing that is known is
asked again.
-/

/-- What a host was asked. -/
inductive Call where
  | execute (rule : RuleId) (rhs : List SpanId)
  | test (name : String) (span : SpanId)
  deriving Repr, DecidableEq

/-- An attempt to reduce a rule along a path, as it begins. -/
structure Attempt (σ : Type) where
  rule : Rule
  nodes : List SymbolNodeId
  parser : Parser
  state : σ

/-- The state of a host, the calls that it answered and the attempts so far. -/
structure Watched (σ : Type) where
  state : σ
  calls : List Call
  attempts : List (Attempt σ)

/-- A call that was answered, unless the answer gives up the parse. -/
def Call.noted {α : Type} (call : Call) : Except ActionError α → List Call
  | .error (.fatal _) => []
  | _ => [call]

/-- The host whose answered calls are written down. -/
def Host.watched {σ : Type} (host : Host σ) : Host (Watched σ) where
  execute context rule target rhs run :=
    let (answer, changed) := host.execute context rule target rhs run.state
    let call := Call.execute rule.id (rhs.map fun span => span.id)
    (answer, { run with
      state := changed
      calls := run.calls ++ call.noted answer })
  test name context span run :=
    let (answer, changed) := host.test name context span run.state
    let call := Call.test name span.id
    (answer, { run with
      state := changed
      calls := run.calls ++ call.noted answer })

theorem Host.test_watched
    {σ : Type}
    (host : Host σ)
    (name : String)
    (context : ParseContext)
    (span : Span)
    (run : Watched σ) :
    host.watched.test name context span run =
      ((host.test name context span run.state).1,
        { run with
          state := (host.test name context span run.state).2
          calls := run.calls ++ (Call.test name span.id).noted
            (host.test name context span run.state).1 }) :=
  rfl

theorem Host.execute_watched
    {σ : Type}
    (host : Host σ)
    (context : ParseContext)
    (rule : Rule)
    (target : Span)
    (rhs : List Span)
    (run : Watched σ) :
    host.watched.execute context rule target rhs run =
      ((host.execute context rule target rhs run.state).1,
        { run with
          state := (host.execute context rule target rhs run.state).2
          calls := run.calls ++
            (Call.execute rule.id (rhs.map fun span => span.id)).noted
              (host.execute context rule target rhs run.state).1 }) :=
  rfl

namespace Attempt

variable {σ : Type}

/-- The spans of the right-hand side. -/
def ids (attempt : Attempt σ) : List SpanId :=
  attempt.parser.spansOf attempt.nodes

/-- The predicates of the rule hold, and the attempt comes to an outcome. -/
structure Yields
    (host : Host σ)
    (attempt : Attempt σ)
    (outcome : Option SpanId) : Prop where
  permitted :
    ((Parsing.predicatesHold host attempt.rule attempt.ids).run.run
        (attempt.parser.countAttempt attempt.rule.id, attempt.state)).1 =
      .ok true
  outcome :
    ((Parsing.reducePath host attempt.rule attempt.nodes).run.run
      (attempt.parser, attempt.state)).1 = .ok outcome

/--
An attempt comes to an outcome whatever the host, so without asking it, and
commits no span.
-/
def Recalls (attempt : Attempt σ) (outcome : Option SpanId) : Prop :=
  ∀ {τ : Type} (other : Host τ) (state : τ), ∃ after : Parser,
    (Parsing.reducePath other attempt.rule attempt.nodes).run.run
        (attempt.parser, state) =
      (.ok outcome, after, state) ∧
    after.spans = attempt.parser.spans

/-- The later one of two attempts at the same reduction recalls the outcome. -/
def Repeats (host : Host σ) (early late : Attempt σ) : Prop :=
  early.rule.id = late.rule.id →
    early.ids = late.ids →
      ∀ outcome, early.Yields host outcome → late.Recalls outcome

end Attempt

/-- Calls that were made once each, and are settled, and the attempts so far. -/
structure Watched.Faithful
    {σ : Type}
    (settles : Call → Prop)
    (attempts : List (Attempt σ))
    (state : σ)
    (run : Watched σ) : Prop where
  state : run.state = state
  attempts : run.attempts = attempts
  once : run.calls.Nodup
  settled : ∀ call ∈ run.calls, settles call

theorem Watched.Faithful.imp
    {σ : Type}
    {settles later : Call → Prop}
    {attempts : List (Attempt σ)}
    {state : σ}
    {run : Watched σ}
    (faithful : run.Faithful settles attempts state)
    (implies : ∀ call, settles call → later call) :
    run.Faithful later attempts state :=
  ⟨faithful.state, faithful.attempts, faithful.once,
    fun call made => implies call (faithful.settled call made)⟩

/-- One more call, which was not settled before and is after it. -/
theorem Watched.Faithful.call
    {σ : Type}
    {settles later : Call → Prop}
    {attempts : List (Attempt σ)}
    {state changed : σ}
    {run : Watched σ}
    (faithful : run.Faithful settles attempts state)
    (implies : ∀ call, settles call → later call)
    {call : Call}
    (isNew : ¬ settles call)
    (isSettled : later call) :
    Watched.Faithful later attempts changed
      { run with state := changed, calls := run.calls ++ [call] } where
  state := rfl
  attempts := faithful.attempts
  once := by
    refine List.nodup_append.mpr ⟨faithful.once, List.nodup_singleton _, ?_⟩
    intro old made new isCall same
    obtain rfl := List.mem_singleton.mp isCall
    exact isNew (same ▸ faithful.settled old made)
  settled := by
    intro other made
    rcases List.mem_append.mp made with old | new
    · exact implies other (faithful.settled other old)
    · exact List.mem_singleton.mp new ▸ isSettled

namespace Evaluator

variable {before after : Evaluator} {predicates : PredicateAlphabet}
variable {executed : RuleId → List SpanId → Prop}

/-- What settles a call: an outcome, or the truth of a named predicate. -/
def Settles
    (predicates : PredicateAlphabet)
    (executed : RuleId → List SpanId → Prop)
    (evaluator : Evaluator) :
    Call → Prop
  | .execute rule rhs => executed rule rhs
  | .test name span =>
      ∃ id, predicates.get? id = some (.custom name) ∧
        (evaluator.cache.get? id span).isSome

/-- What settles a call still does if nothing becomes unknown. -/
theorem Settles.imp
    {later : RuleId → List SpanId → Prop}
    (executes : ∀ rule rhs, executed rule rhs → later rule rhs)
    (keeps : ∀ id span, (before.cache.get? id span).isSome →
      (after.cache.get? id span).isSome)
    (call : Call)
    (settled : before.Settles predicates executed call) :
    after.Settles predicates later call := by
  cases call with
  | execute rule rhs => exact executes rule rhs settled
  | test name span =>
      obtain ⟨id, stored, known⟩ := settled
      exact ⟨id, stored, keeps id span known⟩

theorem Settles.retains
    (retains : before.Retains after)
    (call : Call)
    (settled : before.Settles predicates executed call) :
    after.Settles predicates executed call :=
  settled.imp (fun _ _ done => done) (fun _ _ => retains.isSome) call

/-- A named predicate that is unknown on a span was not asked for there. -/
theorem not_settles_test
    {name : String}
    {id : PredicateId}
    (stored : predicates.get? id = some (.custom name))
    {span : SpanId}
    (unknown : before.cache.get? id span = none) :
    ¬ before.Settles predicates executed (.test name span) := by
  rintro ⟨other, otherStored, known⟩
  obtain rfl := Alphabet.eq_of_get? otherStored stored
  rw [unknown] at known
  cases known

end Evaluator

namespace Evaluation

variable {σ : Type} {host : Host σ} {context : ParseContext}
variable {network : PredicateNetwork}
variable {executed : RuleId → List SpanId → Prop}
variable {attempts : List (Attempt σ)}

/-- The same evaluation, and calls of which none is made again. -/
def Watches
    (predicates : PredicateAlphabet)
    (executed : RuleId → List SpanId → Prop)
    (attempts : List (Attempt σ))
    (first : Evaluator × Watched σ)
    (second : Evaluator × σ) : Prop :=
  first.1 = second.1 ∧
    first.2.Faithful (second.1.Settles predicates executed) attempts second.2

/-- A named predicate is tested once, as its truth is recorded at once. -/
theorem watches_custom
    {operand : PredicateId → Span → Evaluation σ Bool}
    {watchedOperand : PredicateId → Span → Evaluation (Watched σ) Bool}
    {name : String}
    {id : PredicateId}
    (stored : network.predicates.get? id = some (.custom name))
    {span : Span}
    {evaluator : Evaluator}
    (unknown : evaluator.cache.get? id span.id = none)
    {run : Watched σ}
    {state : σ}
    (faithful : run.Faithful
      (evaluator.Settles network.predicates executed) attempts state) :
    Mirrors False (Watches network.predicates executed attempts) (evaluator, run)
      (evaluator, state)
      (do
        let value ← computePredicate host.watched context watchedOperand
          (.custom name) span
        modifyEvaluator (·.record network id span.id value)
        return value)
      (do
        let value ← computePredicate host context operand (.custom name) span
        modifyEvaluator (·.record network id span.id value)
        return value) := by
  obtain rfl := faithful.state
  have notSettled := @Evaluator.not_settles_test _ _ executed _ _ stored _
    unknown
  have keeps : ∀ value call,
      evaluator.Settles network.predicates executed call →
      (evaluator.record network id span.id value).Settles network.predicates
        executed call :=
    fun value => Evaluator.Settles.imp (fun _ _ done => done)
      fun _ _ => evaluator.isSome_record
  have settled : ∀ value,
      (evaluator.record network id span.id value).Settles network.predicates
        executed (.test name span.id) :=
    fun value => ⟨id, stored, by rw [Evaluator.get?_record]; rfl⟩
  change Mirrors _ _ _ _
    (testByHost host.watched context name span >>= _)
    (testByHost host context name span >>= _)
  unfold Mirrors testByHost
  simp only [ExceptT.run_bind, StateT.run_bind, run_callHost,
    Host.test_watched]
  generalize host.test name context span run.state = outcome
  obtain ⟨answer, changed⟩ := outcome
  cases answer with
  | ok value =>
      exact .inl ⟨rfl, rfl,
        faithful.call (keeps value) notSettled (settled value)⟩
  | error error =>
      cases error with
      | rejected reason =>
          exact .inl ⟨rfl, rfl,
            faithful.call (keeps false) notSettled (settled false)⟩
      | fatal reason =>
          refine .inl ⟨rfl, rfl, ⟨rfl, faithful.attempts, ?_, ?_⟩⟩
          all_goals simp only [Call.noted, List.append_nil]
          · exact faithful.once
          · exact faithful.settled

/-- Computing a predicate makes no call again if evaluating its operands does not. -/
theorem watches_computePredicate
    {operand : PredicateId → Span → Evaluation σ Bool}
    {watchedOperand : PredicateId → Span → Evaluation (Watched σ) Bool}
    (operands : ∀ inner sibling first second,
      Watches network.predicates executed attempts first second →
      Mirrors False (Watches network.predicates executed attempts) first second
        (watchedOperand inner sibling) (operand inner sibling))
    {predicate : Predicate}
    (notCustom : ∀ name, predicate ≠ .custom name)
    (span : Span)
    {first : Evaluator × Watched σ}
    {second : Evaluator × σ}
    (holds : Watches network.predicates executed attempts first second) :
    Mirrors False (Watches network.predicates executed attempts) first second
      (computePredicate host.watched context watchedOperand predicate span)
      (computePredicate host context operand predicate span) := by
  unfold computePredicate
  split
  · exact .pure holds _
  · cases predicate with
    | not inner =>
        exact .bind (operands inner span _ _ holds)
          fun _ _ _ after => .pure after _
    | and inners =>
        exact .allM inners (fun inner _ => operands inner span) holds
    | or inners =>
        exact .anyM inners (fun inner _ => operands inner span) holds
    | context placement inner =>
        exact .anyM _ (fun sibling _ => operands inner sibling) holds
    | custom name => exact absurd rfl (notCustom name)
    | _ => exact .pure holds _

/-- Watching changes no evaluation, and none makes a call again. -/
theorem watches_evaluateWithin
    (fuel : Nat)
    (id : PredicateId)
    (span : Span)
    (first : Evaluator × Watched σ)
    (second : Evaluator × σ)
    (holds : Watches network.predicates executed attempts first second) :
    Mirrors False (Watches network.predicates executed attempts) first second
      (evaluateWithin network host.watched context fuel id span)
      (evaluateWithin network host context fuel id span) := by
  induction fuel generalizing id span first second with
  | zero => exact .throw holds _
  | succ fuel inductionHypothesis =>
      obtain ⟨evaluator, run⟩ := first
      obtain ⟨own, state⟩ := second
      obtain ⟨same, faithful⟩ := holds
      obtain rfl : evaluator = own := same
      have retained : ∀ {before after : Evaluator},
          before.Retains after →
          run.Faithful (before.Settles network.predicates executed) attempts
            state →
          Watches network.predicates executed attempts (after, run)
            (after, state) :=
        fun retains faithful =>
          ⟨rfl, faithful.imp (Evaluator.Settles.retains retains)⟩
      unfold evaluateWithin
      refine mirrors_get ?_
      split
      · exact mirrors_modify
          (.pure (retained (evaluator.retains_stats _) faithful) _)
      · have dispatched := retained
          (@Evaluator.retains_dispatch network id evaluator context span)
          faithful
        refine mirrors_modify (mirrors_get ?_)
        generalize evaluator.dispatch network context id span = settled
          at dispatched ⊢
        split
        · exact .pure dispatched _
        · rename_i unknown
          have counted := retained (settled.retains_stats
            settled.countEvaluated.stats) dispatched.2
          have recorded : ∀ (value : Bool) (first : Evaluator × Watched σ)
              (second : Evaluator × σ),
              Watches network.predicates executed attempts first second →
              Mirrors False (Watches network.predicates executed attempts) first
                second
                (do
                  modifyEvaluator (·.record network id span.id value)
                  return value)
                (do
                  modifyEvaluator (·.record network id span.id value)
                  return value) := by
            rintro value ⟨after, run⟩ ⟨other, state⟩ ⟨same, faithful⟩
            obtain rfl : after = other := same
            exact mirrors_modify (.pure ⟨rfl, faithful.imp
              (Evaluator.Settles.imp (fun _ _ done => done)
                fun _ _ => after.isSome_record)⟩ _)
          refine mirrors_modify ?_
          cases stored : network.predicates.get? id with
          | none => exact .bind (.pure counted _) recorded
          | some predicate =>
              by_cases isCustom : ∃ name, predicate = .custom name
              · obtain ⟨name, rfl⟩ := isCustom
                have stillUnknown :
                    settled.countEvaluated.cache.get? id span.id = none :=
                  unknown
                exact watches_custom stored stillUnknown counted.2
              · exact .bind (watches_computePredicate inductionHypothesis
                  (fun name same => isCustom ⟨name, same⟩) span counted)
                  recorded

end Evaluation

namespace Parser

variable {σ : Type} {host : Host σ}
variable {grammar : Grammar} {options : CompileOptions}
variable {before after : Parser} {attempts : List (Attempt σ)}

/-- What settles a call in a parse. -/
def Settles (parser : Parser) : Call → Prop :=
  parser.evaluator.Settles parser.compiled.network.predicates
    fun rule rhs => (parser.outcomes[(rule, rhs)]?).isSome

/-- The same parse, and calls of which none is made again. -/
structure Watches
    (grammar : Grammar)
    (options : CompileOptions)
    (attempts : List (Attempt σ))
    (first : Parser × Watched σ)
    (second : Parser × σ) : Prop where
  parser : first.1 = second.1
  compiled : second.1.compiled = grammar.compile options
  numbered : second.1.Numbered
  faithful : first.2.Faithful second.1.Settles attempts second.2

/-- What settles a call does not depend on anything else. -/
theorem SameFacts.settles
    (same : before.SameFacts after) :
    after.Settles = before.Settles := by
  unfold Settles
  rw [same.evaluator, same.compiled, same.outcomes]

theorem Watches.tests
    {first : Parser × Watched σ}
    {second : Parser × σ}
    (watches : Watches grammar options attempts first second)
    (id : PredicateId)
    (span : SpanId) :
    Mirrors False (Watches grammar options attempts) first second
      (Parsing.testPredicate host.watched id span)
      (Parsing.testPredicate host id span) := by
  obtain ⟨parser, run⟩ := first
  obtain ⟨own, state⟩ := second
  obtain rfl : parser = own := watches.parser
  unfold Mirrors
  rw [Parsing.run_testPredicate, Parsing.run_testPredicate]
  have mirrors := @Evaluation.watches_evaluateWithin _ host parser.context
    parser.compiled.network
    (fun rule rhs => (parser.outcomes[(rule, rhs)]?).isSome) attempts
    (parser.compiled.network.size * (parser.context.spans.size + 1)) id
    (parser.spans.get span) (parser.evaluator, run) (parser.evaluator, state)
    ⟨rfl, watches.faithful⟩
  obtain ⟨sameAnswer, sameEvaluator, faithful⟩ := mirrors.alikeAfter False.elim
  unfold evaluatePredicate
  refine .inl ⟨congrArg (Except.mapError _) sameAnswer, ?_⟩
  constructor
  case parser => exact congrArg parser.withEvaluator sameEvaluator
  case compiled => exact watches.compiled
  case numbered => exact watches.numbered
  case faithful => exact faithful

/-- An outcome that is entered is known. -/
theorem outcomes_recordOutcome
    (parser : Parser)
    (rule : RuleId)
    (ids : List SpanId)
    (outcome : Option SpanId) :
    (parser.recordOutcome rule ids outcome).outcomes[(rule, ids)]? =
      some outcome := by
  unfold recordOutcome
  exact Std.TreeMap.getElem?_insert_self

/-- An action is run once, as its outcome is recorded at once. -/
theorem Watches.recordOutcome
    {parser : Parser}
    {run : Watched σ}
    {state changed : σ}
    (watches : Watches grammar options attempts (parser, run)
      (parser, state))
    {rule : RuleId}
    {ids : List SpanId}
    (unknown : parser.outcomes[(rule, ids)]? = none)
    {later : Parser}
    (same : parser.SameFacts later)
    (outcome : Option SpanId) :
    Watches grammar options attempts
      (later.recordOutcome rule ids outcome,
        { run with
          state := changed
          calls := run.calls ++ [.execute rule ids] })
      (later.recordOutcome rule ids outcome, changed) := by
  have stillUnknown : later.outcomes[(rule, ids)]? = none := by
    rw [same.outcomes]
    exact unknown
  have keeps := keepsOutcomes_recordOutcome stillUnknown outcome
  constructor
  case parser => rfl
  case compiled => exact same.compiled.trans watches.compiled
  case numbered => exact same.numbered watches.numbered
  case faithful =>
    refine watches.faithful.call (fun call settled => ?_) ?_ ?_
    · rw [← same.settles] at settled
      refine settled.imp (fun rule rhs known => ?_) (fun _ _ known => known) call
      obtain ⟨own, stored⟩ := Option.isSome_iff_exists.mp known
      exact Option.isSome_iff_exists.mpr ⟨own, keeps _ own stored⟩
    · intro settled
      change (parser.outcomes[(rule, ids)]?).isSome at settled
      rw [unknown] at settled
      cases settled
    · change ((later.recordOutcome rule ids outcome).outcomes[(rule,
        ids)]?).isSome
      rw [outcomes_recordOutcome]
      rfl

theorem Watches.produces
    {first : Parser × Watched σ}
    {second : Parser × σ}
    (watches : Watches grammar options attempts first second)
    {rule : Rule}
    {ids : List SpanId}
    (known : ∀ id : Nat, id ∈ ids → id < second.1.spans.size)
    (unknown : second.1.outcomes[(rule.id, ids)]? = none) :
    Mirrors False (Watches grammar options attempts) first second
      (Parsing.produce host.watched rule ids)
      (Parsing.produce host rule ids) := by
  obtain ⟨parser, run⟩ := first
  obtain ⟨own, state⟩ := second
  obtain rfl : parser = own := watches.parser
  obtain rfl : run.state = state := watches.faithful.state
  have isKey : (ids.map parser.spans.get).map (fun span => span.id) = ids := by
    rw [List.map_map]
    refine (List.map_congr_left fun id member => ?_).trans (List.map_id _)
    exact watches.numbered id (known id member)
  unfold Parsing.produce
  refine Parsing.mirrors_get (Parsing.mirrors_runAction ?_)
  rw [Host.execute_watched, isKey]
  generalize host.execute parser.context rule
    (parser.target rule (ids.map parser.spans.get))
    (ids.map parser.spans.get) run.state = outcome
  obtain ⟨answer, changed⟩ := outcome
  cases answer with
  | ok answered =>
      cases answered with
      | some span =>
          have same : parser.SameFacts (countSuccess
              { parser with spans := (parser.spans.push span).2 } rule.id) :=
            ⟨rfl, rfl, rfl, SpanStore.extends_push span,
              fun numbered => numbered.push span, rfl, rfl⟩
          exact .both rfl (watches.recordOutcome unknown same _)
      | none =>
          exact .both rfl
            (watches.recordOutcome unknown (OnlyWork.refl _).sameFacts _)
  | error error =>
      cases error with
      | rejected reason =>
          exact .both rfl
            (watches.recordOutcome unknown (OnlyWork.refl _).sameFacts _)
      | fatal reason =>
          refine .both rfl ⟨rfl, watches.compiled, watches.numbered, ?_⟩
          refine ⟨rfl, watches.faithful.attempts, ?_, ?_⟩
          all_goals simp only [Call.noted, List.append_nil]
          · exact watches.faithful.once
          · exact watches.faithful.settled

/-- Watching changes nothing that a parse asks. -/
theorem asksAlike_watches
    (host : Host σ)
    (attempts : List (Attempt σ)) :
    Parsing.AsksAlike False host host.watched grammar options
      (Watches grammar options attempts) where
  same _ second watches := ⟨second.1.evaluator, watches.parser⟩
  compiled _ _ watches := watches.compiled
  moves before after evaluator run state watches same := by
    have isOwn : evaluator = before.evaluator :=
      congrArg Parser.evaluator watches.parser
    constructor
    case parser =>
      change after.withEvaluator evaluator = after
      rw [isOwn, ← same.evaluator]
      rfl
    case compiled => exact same.compiled.trans watches.compiled
    case numbered => exact same.numbered watches.numbered
    case faithful =>
      rw [same.settles]
      exact watches.faithful
  tests _ _ id span watches _ _ := watches.tests id span
  produces _ _ _ _ watches _ known unknown := watches.produces known unknown

end Parser

end SpanForest
