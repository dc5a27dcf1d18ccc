import SpanForest.Proofs.Predicate.Acyclic
import SpanForest.Proofs.Predicate.Evaluator

namespace SpanForest

/-!
# Plain evaluation

Predicates can be evaluated without a cache and without a network: operands from
left to right and no further than needed, context predicates by a look at the
whole input. Evaluation through the cache gives the same answers and the same
errors, whatever was asked before and however predicates are grouped.
-/

/-- What plain evaluation depends on; what the host tells may be an error. -/
structure PlainSetting where
  predicates : PredicateAlphabet
  document : Document
  /-- The input spans. -/
  input : List Span
  /-- What the host tells by name. -/
  tells : String → Span → Except ActionError Bool

namespace PlainSetting

/-- What a predicate comes to, given what its operands come to. -/
def compute
    (setting : PlainSetting)
    (operand : PredicateId → Span → Except ActionError Bool)
    (predicate : Predicate)
    (span : Span) :
    Except ActionError Bool :=
  match predicate.localTruth? span setting.document with
  | some value => .ok value
  | none =>
      match predicate with
      | .not inner => return !(← operand inner span)
      | .and inners => inners.allM (operand · span)
      | .or inners => inners.anyM (operand · span)
      | .context placement inner =>
          (setting.input.filter fun sibling =>
              sibling.id != span.id && placement.admits span sibling).anyM
            (operand inner)
      | .custom name =>
          match setting.tells name span with
          | .error (.rejected _) => .ok false
          | answer => answer
      | _ => .ok false

/-- What a predicate comes to, if operands nest no deeper than `fuel`. -/
def evaluate
    (setting : PlainSetting) :
    (fuel : Nat) →
    PredicateId →
    Span →
    Except ActionError Bool
  | 0, _, _ => .error cyclicOperands
  | fuel + 1, id, span =>
      match setting.predicates.get? id with
      | some predicate => setting.compute (setting.evaluate fuel) predicate span
      | none => .ok false

/-- A predicate comes to a value. -/
def ComesTo
    (setting : PlainSetting)
    (fuel : Nat)
    (id : PredicateId)
    (span : Span)
    (value : Bool) : Prop :=
  setting.evaluate fuel id span = .ok value

variable {setting : PlainSetting}

/-- What a predicate comes to depends on what its operands come to only. -/
theorem compute_congr
    {predicate : Predicate}
    {left right : PredicateId → Span → Except ActionError Bool}
    (same : ∀ inner ∈ predicate.operands, left inner = right inner)
    (span : Span) :
    setting.compute left predicate span =
      setting.compute right predicate span := by
  unfold compute
  split
  · rfl
  · cases predicate with
    | not inner => simp [same inner (by simp [Predicate.operands])]
    | and inners =>
        exact allM_congr inners fun inner member =>
          congrFun (same inner member) span
    | or inners =>
        exact anyM_congr inners fun inner member =>
          congrFun (same inner member) span
    | context placement inner =>
        simp [same inner (by simp [Predicate.operands])]
    | _ => rfl

/-- Fuel beyond the rank of a predicate makes no difference to plain evaluation. -/
theorem evaluate_eq_of_rank_lt
    {rank : PredicateId → Nat}
    (ranked : setting.predicates.Ranked rank)
    {id : PredicateId}
    {left right : Nat}
    (leftEnough : rank id < left)
    (rightEnough : rank id < right) :
    setting.evaluate left id = setting.evaluate right id := by
  induction left generalizing id right with
  | zero => exact absurd leftEnough (Nat.not_lt_zero _)
  | succ left inductionHypothesis =>
      obtain ⟨right, rfl⟩ : ∃ lower, right = lower + 1 :=
        ⟨right - 1, by omega⟩
      funext span
      unfold evaluate
      cases stored : setting.predicates.get? id with
      | none => rfl
      | some predicate =>
          refine compute_congr (fun inner member => ?_) span
          have lower := ranked.falls stored inner member
          exact inductionHypothesis (by omega) (by omega)

/-- A predicate of the alphabet comes to what it is computed to be. -/
theorem evaluate_eq_compute
    {rank : PredicateId → Nat}
    (ranked : setting.predicates.Ranked rank)
    {fuel : Nat}
    (enough : setting.predicates.size ≤ fuel)
    {id : PredicateId}
    {predicate : Predicate}
    (stored : setting.predicates.get? id = some predicate)
    (span : Span) :
    setting.evaluate fuel id span =
      setting.compute (setting.evaluate fuel) predicate span := by
  have inside : id < setting.predicates.size :=
    (Array.getElem?_eq_some_iff.mp stored).1
  have isBelow := ranked.bounded id inside
  have more : setting.evaluate fuel id = setting.evaluate (fuel + 1) id :=
    evaluate_eq_of_rank_lt ranked (by omega) (by omega)
  rw [more]
  simp only [evaluate, stored]

end PlainSetting

/-- An effect that gives an answer and keeps something, whatever the state of the host. -/
def Answers
    {ε S σ α : Type}
    (keeps : S → Prop)
    (before : S)
    (effect : Effect ε S σ α)
    (answer : Except ε α) : Prop :=
  ∀ host : σ,
    (effect.run.run (before, host)).1 = answer ∧
      keeps (effect.run.run (before, host)).2.1

namespace Answers

variable {ε S σ α β : Type} {keeps : S → Prop} {before : S}

theorem pure
    (value : α)
    (kept : keeps before) :
    Answers keeps before (Pure.pure value : Effect ε S σ α) (.ok value) :=
  fun _ => ⟨rfl, kept⟩

theorem bind
    {first : Effect ε S σ α}
    {second : α → Effect ε S σ β}
    {firstAnswer : Except ε α}
    {secondAnswer : α → Except ε β}
    (firstAnswers : Answers keeps before first firstAnswer)
    (secondAnswers : ∀ value middle, firstAnswer = .ok value → keeps middle →
      Answers keeps middle (second value) (secondAnswer value)) :
    Answers keeps before (first >>= second) (firstAnswer >>= secondAnswer) := by
  intro host
  obtain ⟨isAnswer, kept⟩ := firstAnswers host
  simp only [ExceptT.run_bind, StateT.run_bind]
  generalize first.run.run (before, host) = outcome at isAnswer kept
  obtain ⟨result, middle, changed⟩ := outcome
  subst isAnswer
  cases result with
  | ok value => exact secondAnswers value middle rfl kept changed
  | error error => exact ⟨rfl, kept⟩

theorem allM
    {effect : α → Effect ε S σ Bool}
    {answer : α → Except ε Bool}
    (items : List α)
    (kept : keeps before)
    (each : ∀ item ∈ items, ∀ current, keeps current →
      Answers keeps current (effect item) (answer item)) :
    Answers keeps before (items.allM effect) (items.allM answer) := by
  induction items generalizing before with
  | nil => exact .pure true kept
  | cons item rest inductionHypothesis =>
      unfold List.allM
      refine .bind (each item List.mem_cons_self before kept)
        fun value middle _ middleKept => ?_
      cases value with
      | true =>
          exact inductionHypothesis middleKept fun other member =>
            each other (List.mem_cons_of_mem _ member)
      | false => exact .pure false middleKept

theorem anyM
    {effect : α → Effect ε S σ Bool}
    {answer : α → Except ε Bool}
    (items : List α)
    (kept : keeps before)
    (each : ∀ item ∈ items, ∀ current, keeps current →
      Answers keeps current (effect item) (answer item)) :
    Answers keeps before (items.anyM effect) (items.anyM answer) := by
  induction items generalizing before with
  | nil => exact .pure false kept
  | cons item rest inductionHypothesis =>
      unfold List.anyM
      refine .bind (each item List.mem_cons_self before kept)
        fun value middle _ middleKept => ?_
      cases value with
      | true => exact .pure true middleKept
      | false =>
          exact inductionHypothesis middleKept fun other member =>
            each other (List.mem_cons_of_mem _ member)

end Answers

namespace Evaluation

variable {σ α : Type} {keeps : Evaluator → Prop} {before : Evaluator}
variable {answer : Except ActionError α}

theorem answers_get
    {rest : Evaluator → Evaluation σ α}
    (answers : Answers keeps before (rest before) answer) :
    Answers keeps before (evaluator >>= rest) answer :=
  answers

theorem answers_modify
    {change : Evaluator → Evaluator}
    {rest : Unit → Evaluation σ α}
    (answers : Answers keeps (change before) (rest ()) answer) :
    Answers keeps before (modifyEvaluator change >>= rest) answer :=
  answers

end Evaluation

/-- The setting of plain evaluation in a parse. -/
def ParseContext.plain
    (context : ParseContext)
    (predicates : PredicateAlphabet)
    (tells : String → Span → Except ActionError Bool) :
    PlainSetting :=
  ⟨predicates, context.document, context.input.map context.spans.get, tells⟩

/-- What a host tells by name, whatever it was asked before. -/
def Host.Tells
    {σ : Type}
    (host : Host σ)
    (tells : String → Span → Except ActionError Bool) : Prop :=
  ∀ name context span state, (host.test name context span state).1 =
    tells name span

/-- Ask for predicates on committed spans, one after the other. -/
def askAll
    {σ : Type}
    (network : PredicateNetwork)
    (host : Host σ)
    (context : ParseContext) :
    List (PredicateId × SpanId) →
    Evaluator × σ →
    List (Except ActionError Bool)
  | [], _ => []
  | (id, span) :: rest, run =>
      let (answer, after) :=
        (evaluatePredicate network host context id
          (context.spans.get span)).run.run run
      answer :: askAll network host context rest after

section Evaluating

variable {σ : Type} {host : Host σ} {context : ParseContext}
variable {predicates : PredicateAlphabet}
variable {tells : String → Span → Except ActionError Bool}
variable {keeps : Evaluator → Prop} {before : Evaluator}

/-- The host is asked as in plain evaluation. -/
theorem answers_testByHost
    (hostTells : host.Tells tells)
    (kept : keeps before)
    (name : String)
    (span : Span) :
    Answers keeps before (testByHost host context name span)
      (match tells name span with
        | .error (.rejected _) => .ok false
        | answer => answer) := by
  intro state
  have told := hostTells name context span state
  rw [testByHost, Evaluation.run_callHost]
  refine ⟨?_, kept⟩
  generalize host.test name context span state = outcome at told
  obtain ⟨answer, changed⟩ := outcome
  subst told
  split <;> simp_all

/-- Computing a predicate gives the plain answer if its operands do. -/
theorem answers_computePredicate
    (hostTells : host.Tells tells)
    (ordered : context.Ordered)
    {predicate : Predicate}
    {operand : PredicateId → Span → Evaluation σ Bool}
    {plain : PredicateId → Span → Except ActionError Bool}
    (kept : keeps before)
    (operands : ∀ inner ∈ predicate.operands, ∀ sibling : Span,
      sibling.id < context.spans.size →
      context.spans.get sibling.id = sibling →
      ∀ current, keeps current →
        Answers keeps current (operand inner sibling) (plain inner sibling))
    {span : Span}
    (committed : span.id < context.spans.size)
    (isSpan : context.spans.get span.id = span) :
    Answers keeps before
      (computePredicate host context operand predicate span)
      ((context.plain predicates tells).compute plain predicate span) := by
  have sameDocument : (context.plain predicates tells).document =
      context.document :=
    rfl
  unfold computePredicate PlainSetting.compute
  rw [sameDocument]
  cases settled : predicate.localTruth? span context.document with
  | some value => exact .pure value kept
  | none =>
      cases predicate with
      | not inner =>
          exact .bind (operands inner (by simp [Predicate.operands]) span
            committed isSpan before kept) fun value _ _ valueKept =>
              .pure (!value) valueKept
      | and inners =>
          exact .allM inners kept fun inner member current currentKept =>
            operands inner member span committed isSpan current currentKept
      | or inners =>
          exact .anyM inners kept fun inner member current currentKept =>
            operands inner member span committed isSpan current currentKept
      | context placement inner =>
          simp only
          rw [context.filter_siblings ordered]
          refine .anyM _ kept fun sibling listed current currentKept => ?_
          obtain ⟨own, member, rfl⟩ :=
            List.mem_map.mp (List.mem_filter.mp listed).1
          have known := ordered.input_known own member
          have isOwn := ordered.span_id own known
          exact operands inner (by simp [Predicate.operands]) _
            (isOwn.symm ▸ known) (by rw [isOwn]) current currentKept
      | custom name => exact answers_testByHost hostTells kept name span
      | matching accessor pattern whole => cases whole <;> cases settled
      | _ => cases settled

/-- Evaluation through the cache gives the plain answer. -/
theorem answers_evaluateWithin
    (hostTells : host.Tells tells)
    (ordered : context.Ordered)
    (operandKnown : ∀ {id : PredicateId} {predicate : Predicate},
      predicates.get? id = some predicate →
        ∀ operand ∈ predicate.operands, operand < predicates.size)
    {rank : PredicateId → Nat}
    (ranked : predicates.Ranked rank)
    {threshold plainFuel fuel : Nat}
    (plainEnough : predicates.size ≤ plainFuel)
    {id : PredicateId}
    (inside : id < predicates.size)
    {span : Span}
    (committed : span.id < context.spans.size)
    (isSpan : context.spans.get span.id = span)
    (enough : rank id < fuel)
    (knows : before.Knows predicates.size
      ((context.plain predicates tells).ComesTo plainFuel) context.spans) :
    Answers
      (Evaluator.Knows predicates.size
        ((context.plain predicates tells).ComesTo plainFuel) context.spans)
      before
      (evaluateWithin (PredicateNetwork.compile predicates threshold) host
        context fuel id span)
      ((context.plain predicates tells).evaluate plainFuel id span) := by
  have computed : ∀ {id : PredicateId} {predicate : Predicate},
      predicates.get? id = some predicate → ∀ span : Span,
        (context.plain predicates tells).evaluate plainFuel id span =
          (context.plain predicates tells).compute
            ((context.plain predicates tells).evaluate plainFuel) predicate
            span :=
    fun stored => PlainSetting.evaluate_eq_compute ranked plainEnough stored
  have agrees : Agrees predicates context.document
      ((context.plain predicates tells).ComesTo plainFuel) := by
    intro id predicate span value stored settled other
    have computesTo : (context.plain predicates tells).compute
        ((context.plain predicates tells).evaluate plainFuel) predicate span =
          .ok value := by
      have isTruth : predicate.localTruth? span
          (context.plain predicates tells).document = some value :=
        settled
      unfold PlainSetting.compute
      rw [isTruth]
    rw [PlainSetting.ComesTo, computed stored, computesTo]
    simp only [Except.ok.injEq]
  induction fuel generalizing id span before with
  | zero => exact absurd enough (Nat.not_lt_zero _)
  | succ fuel inductionHypothesis =>
      obtain ⟨predicate, stored⟩ : ∃ predicate,
          predicates.get? id = some predicate :=
        ⟨predicates.items[id], Array.getElem?_eq_getElem inside⟩
      have known : ∀ {current : Evaluator} {value : Bool},
          current.Knows predicates.size
            ((context.plain predicates tells).ComesTo plainFuel)
            context.spans →
          current.cache.get? id span.id = some value →
          (context.plain predicates tells).evaluate plainFuel id span =
            .ok value := by
        intro current value currentKnows found
        have isHeld := (currentKnows.known id inside span.id value found).2
        rwa [isSpan] at isHeld
      have dispatched := @Evaluator.Knows.dispatch _ _ _ threshold _ _ _ _
        knows agrees stored committed isSpan
      unfold evaluateWithin
      refine Evaluation.answers_get ?_
      split
      · rename_i value found
        rw [known knows found]
        exact Evaluation.answers_modify (.pure value ⟨knows.width, knows.known⟩)
      · refine Evaluation.answers_modify (Evaluation.answers_get ?_)
        generalize before.dispatch (PredicateNetwork.compile predicates threshold)
          context id span = ready at dispatched ⊢
        split
        · rename_i value found
          rw [known dispatched found]
          exact .pure value dispatched
        · have isStored :
              (PredicateNetwork.compile predicates threshold).predicates.get?
                id = some predicate :=
            stored
          rw [isStored, computed stored, ← bind_pure ((context.plain predicates
            tells).compute _ predicate span)]
          refine Evaluation.answers_modify (.bind ?_ ?_)
          · refine answers_computePredicate hostTells ordered
              ⟨dispatched.width, dispatched.known⟩ ?_ committed isSpan
            intro inner member sibling siblingCommitted siblingSpan current
              currentKnows
            have lower := ranked.falls stored inner member
            exact inductionHypothesis (operandKnown stored inner member)
              siblingCommitted siblingSpan (by omega) currentKnows
          · intro value middle isValue middleKnows
            refine Evaluation.answers_modify (.pure value
              (middleKnows.record agrees stored committed ?_))
            rw [isSpan, PlainSetting.ComesTo, computed stored]
            exact isValue

/--
Asking for predicates on committed spans, one after the other, gives the plain
answers and the plain errors: it depends neither on what was asked before nor on
how large groups have to be.
-/
theorem askAll_eq_plain
    (acyclic : predicates.Acyclic)
    (operandKnown : ∀ {id : PredicateId} {predicate : Predicate},
      predicates.get? id = some predicate →
        ∀ operand ∈ predicate.operands, operand < predicates.size)
    (ordered : context.Ordered)
    (hostTells : host.Tells tells)
    (threshold : Nat)
    (state : σ)
    (calls : List (PredicateId × SpanId))
    (known : ∀ call ∈ calls,
      call.1 < predicates.size ∧ call.2 < context.spans.size)
    {plainFuel : Nat}
    (enough : predicates.size ≤ plainFuel) :
    askAll (PredicateNetwork.compile predicates threshold) host context calls
        (.ofNetwork (PredicateNetwork.compile predicates threshold), state) =
      calls.map fun call =>
        (context.plain predicates tells).evaluate plainFuel call.1
          (context.spans.get call.2) := by
  obtain ⟨rank, ranked⟩ := acyclic.exists_ranked operandKnown
  have answered : ∀ evaluator : Evaluator,
      evaluator.Knows predicates.size
          ((context.plain predicates tells).ComesTo plainFuel)
          context.spans →
      ∀ state, askAll (PredicateNetwork.compile predicates threshold) host
          context calls (evaluator, state) =
        calls.map fun call =>
          (context.plain predicates tells).evaluate plainFuel call.1
            (context.spans.get call.2) := by
    induction calls with
    | nil => exact fun _ _ _ => rfl
    | cons call rest inductionHypothesis =>
        intro evaluator knows state
        obtain ⟨id, own⟩ := call
        obtain ⟨inside, committed⟩ := known (id, own) List.mem_cons_self
        have isOwn := ordered.span_id own committed
        have isBelow : rank id < (PredicateNetwork.compile predicates
            threshold).size * (context.spans.size + 1) :=
          Nat.lt_of_lt_of_le (ranked.bounded id inside)
            (Nat.le_mul_of_pos_right _ (Nat.succ_pos _))
        have answers := @answers_evaluateWithin _ host context predicates
          tells evaluator hostTells ordered operandKnown rank ranked threshold
          plainFuel _ enough id inside (context.spans.get own)
          (isOwn.symm ▸ committed) (by rw [isOwn]) isBelow knows state
        unfold askAll evaluatePredicate
        generalize (evaluateWithin _ host context _ id _).run.run
          (evaluator, state) = outcome at answers ⊢
        obtain ⟨answer, after, changed⟩ := outcome
        obtain ⟨isAnswer, stillKnows⟩ := answers
        rw [List.map_cons, ← isAnswer]
        exact congrArg _ (inductionHypothesis (fun other member =>
          known other (List.mem_cons_of_mem _ member)) after stillKnows changed)
  exact answered _
    (Evaluator.Knows.ofNetwork (PredicateNetwork.compile predicates threshold))
    state

end Evaluating

section Sample

/-- A late start, an early start, an enclosing span with an early start, a name. -/
def fourPredicates : PredicateAlphabet where
  items :=
    #[.compare .start .ge (.int 2), .not 0, .context .within 1, .custom "x"]
  distinct := by decide +kernel

/-- A span from 0 to 4 and one from 2 to 4. -/
def nestedPair : ParseContext where
  document := .empty
  spans := ⟨#[.new 0 none "a" 0 4, .new 1 none "a" 2 4]⟩
  input := [0, 1]

private theorem operand_lt
    {id : PredicateId}
    {predicate : Predicate}
    (stored : fourPredicates.get? id = some predicate) :
    ∀ operand ∈ predicate.operands, operand < id := by
  have earlier : ∀ id : Fin 4,
      ∀ operand ∈ (fourPredicates.items[id]).operands, operand < id := by
    decide +kernel
  obtain ⟨inside, rfl⟩ := Array.getElem?_eq_some_iff.mp stored
  exact earlier ⟨id, inside⟩

private theorem nestedPair_ordered : nestedPair.Ordered := by
  constructor <;> decide +kernel

theorem askAll_eq_plain_nestedPair :
    fourPredicates.Acyclic ∧
      nestedPair.Ordered ∧
      (Host.inheriting : Host Unit).Tells
        (fun name _ => .error (unknownTest name)) ∧
      askAll (PredicateNetwork.compile fourPredicates 1)
          (Host.inheriting : Host Unit) nestedPair
          [(2, 1), (1, 1), (2, 0), (3, 0)]
          (.ofNetwork (PredicateNetwork.compile fourPredicates 1), ()) =
        [.ok true, .ok false, .ok false, .ok false] := by
  have acyclic : fourPredicates.Acyclic := by
    refine PredicateAlphabet.acyclic_of_operands_lt fun id operand member => ?_
    unfold PredicateAlphabet.operands at member
    cases stored : fourPredicates.get? id with
    | none => simp [stored] at member
    | some predicate =>
        exact operand_lt stored operand (by simpa [stored] using member)
  have tells : (Host.inheriting : Host Unit).Tells
      (fun name _ => .error (unknownTest name)) :=
    fun _ _ _ _ => rfl
  refine ⟨acyclic, nestedPair_ordered, tells, ?_⟩
  refine (askAll_eq_plain acyclic ?_ nestedPair_ordered tells 1 () _ ?_
    (Nat.le_refl _)).trans ?_
  · intro id predicate stored operand member
    exact (operand_lt stored operand member).trans
      (Array.getElem?_eq_some_iff.mp stored).1
  · decide +kernel
  · decide +kernel

end Sample

end SpanForest
