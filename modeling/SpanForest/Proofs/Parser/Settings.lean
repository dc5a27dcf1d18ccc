import SpanForest.Proofs.Parser.Asking
import SpanForest.Proofs.Predicate.Retaining

namespace SpanForest

/-!
# What steps leave alone

Asking hosts and predicates changes what a parser has learned and no more;
attaching what was found changes the stack and the work left. A parser is set up
once: nothing that is done at a word changes its settings, whether a step
succeeds or ends the parse.
-/

namespace Parser

variable {first second third before after parser : Parser}

/-- A parse that forgot no synthesized span, and no predicate that failed. -/
def Retains (before after : Parser) : Prop :=
  ∀ (key : SpanId × SymbolId) (made : Option SpanId),
    before.synthesized[key]? = some made → after.synthesized[key]? = some made

theorem Retains.refl (parser : Parser) : parser.Retains parser :=
  fun _ _ stored => stored

theorem Retains.trans
    (early : first.Retains second)
    (late : second.Retains third) :
    first.Retains third :=
  fun key made stored => late key made (early key made stored)

/-- Entering what was synthesized for the first time keeps what was entered. -/
theorem retains_insert
    {key : SpanId × SymbolId}
    (unknown : parser.synthesized[key]? = none)
    (made : Option SpanId) :
    parser.Retains
      { parser with synthesized := parser.synthesized.insert key made } := by
  intro other known stored
  simp only [Std.TreeMap.getElem?_insert]
  split
  · rename_i same
    rw [← Std.LawfulEqCmp.eq_of_compare same, unknown] at stored
    cases stored
  · exact stored

/-- Outcomes that were entered are still there. -/
def KeepsOutcomes (before after : Parser) : Prop :=
  ∀ (key : RuleId × List SpanId) (outcome : Option SpanId),
    before.outcomes[key]? = some outcome → after.outcomes[key]? = some outcome

theorem KeepsOutcomes.refl (parser : Parser) : parser.KeepsOutcomes parser :=
  fun _ _ stored => stored

theorem KeepsOutcomes.trans
    (early : first.KeepsOutcomes second)
    (late : second.KeepsOutcomes third) :
    first.KeepsOutcomes third :=
  fun key outcome stored => late key outcome (early key outcome stored)

/-- Entering an outcome for the first time keeps those that were entered. -/
theorem keepsOutcomes_recordOutcome
    {parser : Parser}
    {rule : RuleId}
    {ids : List SpanId}
    (unknown : parser.outcomes[(rule, ids)]? = none)
    (outcome : Option SpanId) :
    parser.KeepsOutcomes (parser.recordOutcome rule ids outcome) := by
  intro key known stored
  simp only [recordOutcome, Std.TreeMap.getElem?_insert]
  split
  · rename_i same
    rw [← Std.LawfulEqCmp.eq_of_compare same, unknown] at stored
    cases stored
  · exact stored

/--
A parse in which no more changed than what it learned, and its counts; nothing
that it had learned was lost.
-/
structure Asks (before after : Parser) : Prop where
  same :
    after =
      { before with
        spans := after.spans
        evaluator := after.evaluator
        synthesized := after.synthesized
        candidates := after.candidates
        outcomes := after.outcomes
        current := after.current }
  spans : before.spans.Extends after.spans
  numbered : before.Numbered → after.Numbered
  evaluator : before.evaluator.Retains after.evaluator
  synthesized : before.Retains after
  outcomes : before.KeepsOutcomes after

/-- What is noted besides what is learned. -/
theorem Asks.ofNotes
    (same :
      after =
        { before with
          candidates := after.candidates
          current := after.current }) :
    before.Asks after := by
  rw [same]
  exact ⟨rfl, .refl _, fun numbered => numbered, .refl _, .refl _, .refl _⟩

theorem Asks.refl (parser : Parser) : parser.Asks parser :=
  .ofNotes rfl

theorem Asks.trans
    (early : first.Asks second)
    (late : second.Asks third) :
    first.Asks third where
  same := by
    rw [late.same, early.same]
  spans := early.spans.trans late.spans
  numbered known := late.numbered (early.numbered known)
  evaluator := early.evaluator.trans late.evaluator
  synthesized := early.synthesized.trans late.synthesized
  outcomes := early.outcomes.trans late.outcomes

/-- A parse that got to know truth values, and nothing else. -/
def Evaluates (before after : Parser) : Prop :=
  ∃ evaluator, before.evaluator.Retains evaluator ∧
    after = { before with evaluator := evaluator }

theorem Evaluates.refl (parser : Parser) : parser.Evaluates parser :=
  ⟨parser.evaluator, .refl _, rfl⟩

theorem Evaluates.trans
    (early : first.Evaluates second)
    (late : second.Evaluates third) :
    first.Evaluates third := by
  obtain ⟨evaluator, retains, rfl⟩ := early
  obtain ⟨later, retainsLater, rfl⟩ := late
  exact ⟨later, retains.trans retainsLater, rfl⟩

theorem Evaluates.asks
    (evaluates : before.Evaluates after) :
    before.Asks after := by
  obtain ⟨evaluator, retains, rfl⟩ := evaluates
  exact ⟨rfl, .refl _, fun numbered => numbered, retains, .refl _, .refl _⟩

theorem Asks.commit (parser : Parser) (span : Span) :
    parser.Asks { parser with spans := (parser.spans.push span).2 } :=
  ⟨rfl, SpanStore.extends_push span, fun numbered => numbered.push span, .refl _,
    .refl _, .refl _⟩

/-- Entering what was synthesized for the first time. -/
theorem Asks.synthesize
    {key : SpanId × SymbolId}
    (unknown : parser.synthesized[key]? = none)
    (made : Option SpanId) :
    parser.Asks
      { parser with synthesized := parser.synthesized.insert key made } :=
  ⟨rfl, .refl _, fun numbered => numbered, .refl _, retains_insert unknown made,
    .refl _⟩

/-- Entering an outcome for the first time. -/
theorem Asks.recordOutcome
    {rule : RuleId}
    {ids : List SpanId}
    (unknown : parser.outcomes[(rule, ids)]? = none)
    (outcome : Option SpanId) :
    parser.Asks (parser.recordOutcome rule ids outcome) :=
  ⟨rfl, .refl _, fun numbered => numbered, .refl _, .refl _,
    keepsOutcomes_recordOutcome unknown outcome⟩

theorem Asks.stack
    (asks : before.Asks after) :
    after.stack = before.stack := by
  rw [asks.same]

theorem Asks.roots
    (asks : before.Asks after) :
    after.roots = before.roots := by
  rw [asks.same]

/-- A parse that asked, and neither synthesized spans nor found any ahead. -/
structure Attempts (before after : Parser) : Prop extends Asks before after where
  candidates : after.candidates = before.candidates
  entered : after.synthesized = before.synthesized

theorem Attempts.refl (parser : Parser) : parser.Attempts parser :=
  ⟨.refl parser, rfl, rfl⟩

theorem Attempts.trans
    (early : first.Attempts second)
    (late : second.Attempts third) :
    first.Attempts third :=
  ⟨early.toAsks.trans late.toAsks, late.candidates.trans early.candidates,
    late.entered.trans early.entered⟩

theorem Evaluates.attempts
    (evaluates : before.Evaluates after) :
    before.Attempts after := by
  obtain ⟨evaluator, retains, rfl⟩ := evaluates
  exact ⟨Evaluates.asks ⟨evaluator, retains, rfl⟩, rfl, rfl⟩

/-- A parse in which no more changed than the stack, its roots and the work left. -/
def OnlyWork (before after : Parser) : Prop :=
  after =
    { before with
      stack := after.stack
      active := after.active
      reductions := after.reductions
      performed := after.performed
      roots := after.roots
      capped := after.capped }

theorem OnlyWork.refl (parser : Parser) : parser.OnlyWork parser :=
  rfl

theorem OnlyWork.trans
    (early : first.OnlyWork second)
    (late : second.OnlyWork third) :
    first.OnlyWork third := by
  unfold OnlyWork at early late ⊢
  rw [late, early]

/--
A parse that got on with what was loaded, as it was set up, and lost nothing that
it had learned.
-/
structure Advances (before after : Parser) : Prop where
  compiled : after.compiled = before.compiled
  config : after.config = before.config
  document : after.document = before.document
  input : after.input = before.input
  words : after.words = before.words
  viable : after.viable = before.viable
  started : after.started = before.started
  spans : before.spans.Extends after.spans
  evaluator : before.evaluator.Retains after.evaluator
  synthesized : before.Retains after
  outcomes : before.KeepsOutcomes after

theorem Advances.trans
    (early : first.Advances second)
    (late : second.Advances third) :
    first.Advances third where
  compiled := late.compiled.trans early.compiled
  config := late.config.trans early.config
  document := late.document.trans early.document
  input := late.input.trans early.input
  words := late.words.trans early.words
  viable := late.viable.trans early.viable
  started := late.started.trans early.started
  spans := early.spans.trans late.spans
  evaluator := early.evaluator.trans late.evaluator
  synthesized := early.synthesized.trans late.synthesized
  outcomes := early.outcomes.trans late.outcomes

theorem Asks.advances
    (asks : before.Asks after) :
    before.Advances after := by
  constructor
  case spans => exact asks.spans
  case evaluator => exact asks.evaluator
  case synthesized => exact asks.synthesized
  case outcomes => exact asks.outcomes
  all_goals rw [asks.same]

/-- Asking leaves the stack alone, so it has grown, whatever the word. -/
theorem Asks.grows
    (asks : before.Asks after)
    (since : Nat) :
    before.Grows since after :=
  { asks.advances with stack := asks.stack ▸ .refl since _ }

theorem Advances.refl (parser : Parser) : parser.Advances parser :=
  (Asks.refl parser).advances

/-- Work commits no span. -/
theorem OnlyWork.spans
    (only : before.OnlyWork after) :
    after.spans = before.spans := by
  rw [only]

/-- Work changes nothing that was loaded, set up or learned. -/
theorem OnlyWork.advances
    (only : before.OnlyWork after) :
    before.Advances after := by
  rw [only]
  exact { Advances.refl before with }

/-- Changes one after the other change only work if each of them does. -/
theorem onlyWork_foldl
    {α : Type}
    {change : Parser → α → Parser}
    (only : ∀ current item, OnlyWork current (change current item))
    (items : List α) :
    parser.OnlyWork (items.foldl change parser) := by
  induction items generalizing parser with
  | nil => exact .refl parser
  | cons item rest inductionHypothesis =>
      exact (only parser item).trans inductionHypothesis

theorem onlyWork_queueReduction (reduction : Reduction) :
    parser.OnlyWork (parser.queueReduction reduction) := by
  unfold queueReduction
  split <;> rfl

theorem onlyWork_activate (node : StateNodeId) :
    parser.OnlyWork (parser.activate node) :=
  rfl

theorem onlyWork_pack
    (node : SymbolNodeId)
    (below : StateNodeId)
    (goto : StateId)
    (derivation : Derivation) :
    parser.OnlyWork (parser.pack node below goto derivation) := by
  simp only [pack]
  split
  · refine OnlyWork.trans ?_
      (onlyWork_foldl (fun _ _ => onlyWork_queueReduction _) _)
    rfl
  · rfl

theorem onlyWork_grow
    (word : Nat)
    (below : StateNodeId)
    (goto : StateId)
    (lhs : SymbolId)
    (span : SpanId)
    (derivation : Derivation) :
    parser.OnlyWork (parser.grow word below goto lhs span derivation) := by
  simp only [grow]
  split
  · rfl
  · rfl

theorem onlyWork_attach
    (word : Nat)
    (below : StateNodeId)
    (span : SpanId)
    (derivation : Derivation) :
    parser.OnlyWork (parser.attach word below span derivation) := by
  simp only [attach]
  split
  · exact .refl parser
  · split
    · exact onlyWork_pack _ _ _ _
    · split
      · rfl
      · exact onlyWork_grow _ _ _ _ _ _

theorem onlyWork_attachAll
    (word : Nat)
    (span : SpanId)
    (derivation : Derivation)
    (below : List StateNodeId) :
    parser.OnlyWork (parser.attachAll word span derivation below) := by
  refine onlyWork_foldl (fun current node => ?_) below
  split
  · exact .refl current
  · exact onlyWork_attach _ _ _ _

/-- A node that acts notes spans, and changes only work besides. -/
theorem onlyWork_act (node : StateNodeId) :
    OnlyWork
      { parser with
        shifts := parser.shifts ++ parser.shiftsFrom node
          (parser.stack.stateNode node).state }
      (parser.act node) := by
  unfold act
  refine OnlyWork.trans ?_
    (onlyWork_foldl (fun _ _ => onlyWork_queueReduction _) _)
  rfl

/-- Waking the nodes of a word is work. -/
theorem onlyWork_wakeWord (word : Nat) :
    parser.OnlyWork (parser.wakeWord word) := by
  have woken : ∀ nodes : List StateNodeId, parser.OnlyWork
      (nodes.foldl activate { parser with active := [] }) := by
    intro nodes
    refine OnlyWork.trans ?_ (onlyWork_foldl (fun _ _ => onlyWork_activate _) nodes)
    rfl
  simp only [wakeWord]
  split
  · exact (woken _).trans (onlyWork_activate _)
  · exact woken _

theorem onlyWork_readShift (word : Nat) (shift : Shift) :
    parser.OnlyWork (parser.readShift word shift) := by
  unfold readShift
  split
  · rfl
  · dsimp only
    split <;> rfl

theorem advances_readShifts (word : Nat) :
    parser.Advances (parser.readShifts word) := by
  have taken : parser.Advances { parser with shifts := [] } :=
    { Advances.refl parser with }
  exact taken.trans
    (onlyWork_foldl (fun _ _ => onlyWork_readShift word _) _).advances

theorem advances_finishWord (word : Nat) :
    parser.Advances (parser.finishWord word) := by
  simp only [finishWord]
  split
  · exact { advances_readShifts word with }
  · exact { advances_readShifts word with }

end Parser

namespace Parsing

variable {σ α : Type} {host : Host σ} {parser : Parser} {rule : Rule}

theorem composes_asks : Composes Parser.Asks where
  refl := .refl
  trans _ _ _ := .trans

theorem composes_evaluates : Composes Parser.Evaluates where
  refl := .refl
  trans _ _ _ := .trans

theorem composes_attempts : Composes Parser.Attempts where
  refl := .refl
  trans _ _ _ := .trans

theorem composes_advances : Composes Parser.Advances where
  refl := .refl
  trans _ _ _ := .trans

/-- What follows when the predicates of a rule were tested. -/
def conclude
    (host : Host σ)
    (rule : Rule)
    (ids : List SpanId)
    (holds : Bool) :
    Parsing σ (Option SpanId) := do
  if holds then
    match (← Parsing.parser).outcomes[(rule.id, ids)]? with
    | some (some known) =>
        modifyParser (·.countSuccess rule.id)
        return some known
    | some none => return none
    | none => produce host rule ids
  else
    return none

/-- An attempt tests the predicates of the rule, then concludes. -/
theorem run_reducePath
    (nodes : List SymbolNodeId)
    (state : σ) :
    (reducePath host rule nodes).run.run (parser, state) =
      (predicatesHold host rule (parser.spansOf nodes) >>=
        conclude host rule (parser.spansOf nodes)).run.run
        (parser.countAttempt rule.id, state) :=
  rfl

section Asking

variable (host : Host σ)

/-- A test evaluates, and its answer is known from then on. -/
theorem ensures_testPredicate_known
    (id : PredicateId)
    (span : SpanId)
    (before : Parser) :
    Ensures before (testPredicate host id span)
      (fun answer after => before.Evaluates after ∧
        after.evaluator.cache.get? id (before.spans.get span).id = some answer)
      before.Evaluates := by
  intro state
  have found := @Evaluation.ensures_evaluateWithin _ host before.context
    before.compiled.network
    (before.compiled.network.size * (before.context.spans.size + 1)) id
    (before.spans.get span) before.evaluator state
  rw [run_testPredicate]
  unfold evaluatePredicate
  generalize (evaluateWithin _ _ _ _ _ _).run.run (before.evaluator, state) =
    outcome at found ⊢
  obtain ⟨answer, evaluator, changed⟩ := outcome
  cases answer with
  | ok value => exact ⟨⟨evaluator, found.1, rfl⟩, found.2⟩
  | error error => exact ⟨evaluator, found, rfl⟩

theorem evaluates_testPredicate (id : PredicateId) (span : SpanId) :
    Keeps Parser.Evaluates (testPredicate host id span) :=
  fun before => (ensures_testPredicate_known host id span before).imp
    (fun _ _ found => found.1) fun _ stopped => stopped

theorem asks_testPredicate (id : PredicateId) (span : SpanId) :
    Keeps Parser.Asks (testPredicate host id span) :=
  (evaluates_testPredicate host id span).imp fun _ _ => Parser.Evaluates.asks

/-- What a synthesis yields is known from then on; it fails with its test only. -/
theorem ensures_synthesize_known
    (base : SpanId)
    (declaration : Synthesized)
    (before : Parser) :
    Ensures before (synthesize host base declaration)
      (fun made after => before.Asks after ∧
        after.candidates = before.candidates ∧
        after.synthesized[(base, declaration.symbol)]? = some made)
      before.Evaluates := by
  unfold synthesize
  refine ensures_get ?_
  split
  · rename_i known stored
    exact .pure ⟨.refl before, rfl, stored⟩
  · rename_i unknown
    refine .bind ((ensures_testPredicate_known host _ _ before).imp
      (fun _ _ found => found.1) fun _ stopped => stopped) ?_
    rintro holds tested ⟨evaluator, retains, rfl⟩
    have recorded : ∀ (current : Parser) (made : Option SpanId),
        before.Asks current →
        current.candidates = before.candidates →
        current.synthesized[(base, declaration.symbol)]? = none →
        Ensures current
          (do
            modifyParser fun current =>
              { current with
                synthesized :=
                  current.synthesized.insert (base, declaration.symbol) made }
            return made : Parsing σ (Option SpanId))
          (fun made after => before.Asks after ∧
            after.candidates = before.candidates ∧
            after.synthesized[(base, declaration.symbol)]? = some made)
          before.Evaluates :=
      fun current made asks same stillUnknown => ensures_modify (.pure
        ⟨asks.trans (.synthesize stillUnknown made), same,
          Std.TreeMap.getElem?_insert_self⟩)
    have asks := Parser.Evaluates.asks ⟨evaluator, retains, rfl⟩
    cases holds with
    | true =>
        exact ensures_get (ensures_commit (recorded _ _
          (asks.trans (.commit _ _)) rfl unknown))
    | false => exact recorded _ _ asks rfl unknown

theorem asks_synthesize
    (base : SpanId)
    (synthesized : Synthesized) :
    Keeps Parser.Asks (synthesize host base synthesized) :=
  fun before => (ensures_synthesize_known host base synthesized before).imp
    (fun _ _ made => made.1) fun _ stopped => stopped.asks

/-- What notes and syntheses keep is kept where what stems from a span is collected. -/
theorem keeps_collectFrom
    {relates : Parser → Parser → Prop}
    (composes : Composes relates)
    (notes : ∀ (current : Parser) (candidates : List SpanId),
      relates current { current with candidates := candidates })
    (synthesizes : ∀ (base : SpanId) (declaration : Synthesized),
      Keeps relates (synthesize host base declaration))
    (base : SpanId) :
    Keeps relates (collectFrom host base) := by
  have addKeeps : ∀ ids, Keeps relates (addCandidates ids : Parsing σ Unit) :=
    fun _ => .modify fun current => notes current _
  unfold collectFrom
  refine .bind composes (addKeeps _) fun _ =>
    .bind composes (.parser composes) fun current => ?_
  split
  · refine .forM composes (fun declaration => ?_) _
    exact .bind composes (synthesizes base declaration) fun _ => addKeeps _
  · exact .pure composes _

/-- What notes and syntheses keep is kept where the spans ahead are collected. -/
theorem keeps_collectCandidates
    {relates : Parser → Parser → Prop}
    (composes : Composes relates)
    (notes : ∀ (current : Parser) (candidates : List SpanId),
      relates current { current with candidates := candidates })
    (synthesizes : ∀ (base : SpanId) (declaration : Synthesized),
      Keeps relates (synthesize host base declaration))
    (word : Nat) :
    Keeps relates (collectCandidates host word) := by
  unfold collectCandidates
  refine .bind composes (.modify fun current => notes current _) fun _ =>
    .bind composes (.parser composes) fun current => ?_
  split
  · exact .forM composes
      (keeps_collectFrom host composes notes synthesizes) _
  · exact .pure composes _

theorem asks_collectFrom (base : SpanId) :
    Keeps Parser.Asks (collectFrom host base) :=
  keeps_collectFrom host composes_asks (fun _ _ => .ofNotes rfl)
    (asks_synthesize host) base

theorem asks_collectCandidates (word : Nat) :
    Keeps Parser.Asks (collectCandidates host word) :=
  keeps_collectCandidates host composes_asks (fun _ _ => .ofNotes rfl)
    (asks_synthesize host) word

/-- Testing the predicates of a rule evaluates, and does nothing else. -/
theorem evaluates_predicatesHold (rule : Rule) (ids : List SpanId) :
    Keeps Parser.Evaluates (predicatesHold host rule ids) := by
  have composes := composes_evaluates
  refine .allM composes (fun pair => ?_) _
  dsimp only
  split
  · exact evaluates_testPredicate host _ _
  · exact .pure composes _

theorem attempts_predicatesHold (rule : Rule) (ids : List SpanId) :
    Keeps Parser.Attempts (predicatesHold host rule ids) :=
  (evaluates_predicatesHold host rule ids).imp
    fun _ _ => Parser.Evaluates.attempts

theorem asks_predicatesHold (rule : Rule) (ids : List SpanId) :
    Keeps Parser.Asks (predicatesHold host rule ids) :=
  (evaluates_predicatesHold host rule ids).imp fun _ _ => Parser.Evaluates.asks

/-- Running an action for the first time loses no outcome. -/
theorem attempts_produce
    {before : Parser}
    {rule : Rule}
    {ids : List SpanId}
    (unknown : before.outcomes[(rule.id, ids)]? = none) :
    Ensures before (produce host rule ids)
      (fun _ after => before.Attempts after) before.Attempts := by
  have recorded : ∀ (current : Parser) (outcome : Option SpanId),
      before.Attempts current →
      current.outcomes[(rule.id, ids)]? = none →
      Ensures current
        (do
          modifyParser (·.recordOutcome rule.id ids outcome)
          return outcome : Parsing σ (Option SpanId))
        (fun _ after => before.Attempts after) before.Attempts :=
    fun current outcome attempts stillUnknown => ensures_modify
      (.pure (attempts.trans ⟨.recordOutcome stillUnknown outcome, rfl, rfl⟩))
  unfold produce
  refine ensures_get (ensures_runAction fun state => ?_)
  split
  · exact ensures_commit (ensures_modify (recorded _ _
      ⟨(Parser.Asks.commit before _).trans (.ofNotes rfl), rfl, rfl⟩ unknown))
  · exact recorded _ _ (.refl before) unknown
  · exact recorded _ _ (.refl before) unknown
  · exact fun _ => .refl before

theorem attempts_conclude (rule : Rule) (ids : List SpanId) (holds : Bool) :
    Keeps Parser.Attempts (conclude host rule ids holds) := by
  intro before
  unfold conclude
  cases holds with
  | false => exact .pure (.refl before)
  | true =>
      refine ensures_get ?_
      split
      · exact ensures_modify (.pure ⟨.ofNotes rfl, rfl, rfl⟩)
      · exact .pure (.refl before)
      · rename_i unknown
        exact attempts_produce host unknown

theorem asks_conclude (rule : Rule) (ids : List SpanId) (holds : Bool) :
    Keeps Parser.Asks (conclude host rule ids holds) :=
  (attempts_conclude host rule ids holds).imp fun _ _ => Parser.Attempts.toAsks

theorem attempts_reducePath (rule : Rule) (nodes : List SymbolNodeId) :
    Keeps Parser.Attempts (reducePath host rule nodes) := by
  have composes := composes_attempts
  exact .bind composes (.modify fun _ => ⟨.ofNotes rfl, rfl, rfl⟩) fun _ =>
    .bind composes (.parser composes) fun _ =>
      .bind composes (attempts_predicatesHold host _ _)
        (attempts_conclude host _ _)

theorem asks_reducePath (rule : Rule) (nodes : List SymbolNodeId) :
    Keeps Parser.Asks (reducePath host rule nodes) :=
  (attempts_reducePath host rule nodes).imp fun _ _ => Parser.Attempts.toAsks

end Asking

section Advancing

variable (host : Host σ)

theorem advances_reducePaths
    (word : Nat)
    (rule : Rule)
    (via : Option StateNodeId)
    (paths : List (List SymbolNodeId)) :
    Keeps Parser.Advances (reducePaths host word rule via paths) := by
  have composes := composes_advances
  induction paths with
  | nil => exact .pure composes _
  | cons nodes rest inductionHypothesis =>
      unfold reducePaths
      refine .bind composes (.parser composes) fun current => ?_
      refine .bind composes
        ((asks_reducePath host rule nodes).imp fun _ _ asks => asks.advances)
        fun outcome => ?_
      have goesOn : Keeps Parser.Advances (do
          if (← Parsing.parser).capped then
            return ()
          else
            reducePaths host word rule via rest : Parsing σ Unit) := by
        refine .bind composes (.parser composes) fun current => ?_
        split
        · exact .pure composes _
        · exact inductionHypothesis
      split
      · exact .bind composes
          (.modify fun _ => (Parser.onlyWork_attachAll _ _ _ _).advances)
          fun _ => goesOn
      · exact goesOn

theorem advances_reduce (word : Nat) (reduction : Reduction) :
    Keeps Parser.Advances (reduce host word reduction) := by
  have composes := composes_advances
  unfold reduce
  refine .bind composes (.parser composes) fun current => ?_
  split
  · exact .pure composes _
  · exact advances_reducePaths host _ _ _ _

theorem advances_settle (word fuel : Nat) :
    Keeps Parser.Advances (settle host word fuel) := by
  have composes := composes_advances
  induction fuel with
  | zero => exact .pure composes _
  | succ fuel inductionHypothesis =>
      unfold settle
      refine .bind composes (.parser composes) fun current => ?_
      split
      · refine .bind composes (.modify fun before => ?_)
          fun _ => inductionHypothesis
        exact { (Parser.onlyWork_act _).advances with }
      · exact .bind composes (.modify fun before =>
            { Parser.Advances.refl before with }) fun _ =>
          .bind composes (advances_reduce host _ _) fun _ =>
            inductionHypothesis
      · exact .pure composes _

/-- A step gets on with what was loaded, whether it succeeds or ends the parse. -/
theorem advances_step : Keeps Parser.Advances (step host) := by
  have composes := composes_advances
  have wordAdvances : ∀ word, Keeps Parser.Advances (processWord host word) := by
    intro word
    unfold processWord
    refine .bind composes (.modify fun before =>
      { Parser.Advances.refl before with }) fun _ => ?_
    refine .bind composes
      ((asks_collectCandidates host word).imp fun _ _ asks => asks.advances)
      fun _ => ?_
    refine .bind composes (.modify fun _ =>
      (Parser.onlyWork_wakeWord word).advances) fun _ => ?_
    refine .bind composes (.parser composes) fun current => ?_
    exact .bind composes (advances_settle host _ _) fun _ =>
      .modify fun _ => Parser.advances_finishWord word
  unfold step
  refine .bind composes (.parser composes) fun current => ?_
  split
  · exact .throw composes _
  · split
    · exact .pure composes _
    · exact .bind composes (wordAdvances _) fun _ =>
        .bind composes (.modify fun before =>
          { Parser.Advances.refl before with }) fun _ =>
          .bind composes (.parser composes) fun _ => .pure composes _

theorem advances_stepAll (fuel : Nat) :
    Keeps Parser.Advances (stepAll host fuel) := by
  have composes := composes_advances
  induction fuel with
  | zero => exact .pure composes _
  | succ fuel inductionHypothesis =>
      refine .bind composes (advances_step host) fun remains => ?_
      split
      · exact inductionHypothesis
      · exact .pure composes _

end Advancing

end Parsing

end SpanForest
