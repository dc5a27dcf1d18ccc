import Mathlib.Order.Monotone.Basic
import SpanForest.Proofs.Predicate.Plain

namespace SpanForest

/-!
# How deep evaluations nest

Without context predicates an evaluation stays with one span, so it comes to an
end within as many nested evaluations as there are predicates, or not at all. It
gives the plain answer either way: operands may be cyclic, and it does not matter
how much deeper evaluations were allowed to nest.
-/

/-- No predicate looks at other spans. -/
def PredicateAlphabet.Contextless (predicates : PredicateAlphabet) : Prop :=
  ∀ (id : PredicateId) (placement : Placement) (inner : PredicateId),
    predicates.get? id ≠ some (.context placement inner)

/-- An answer that is another one unless it was given up before. -/
def Approaches {α : Type} (early late : Except ActionError α) : Prop :=
  early = .error cyclicOperands ∨ early = late

namespace Approaches

variable {α β : Type} {early middle late : Except ActionError α}

theorem refl (answer : Except ActionError α) : Approaches answer answer :=
  .inr rfl

theorem antisymm
    (forth : Approaches early late)
    (back : Approaches late early) :
    early = late := by
  rcases forth with givenUp | same
  · rcases back with lateGivenUp | same
    · exact givenUp.trans lateGivenUp.symm
    · exact same.symm
  · exact same

theorem bind
    {leftRest rightRest : α → Except ActionError β}
    (approaches : Approaches early late)
    (rest : ∀ value, late = .ok value →
      Approaches (leftRest value) (rightRest value)) :
    Approaches (early >>= leftRest) (late >>= rightRest) := by
  rcases approaches with rfl | rfl
  · exact .inl rfl
  · cases early with
    | ok value => exact rest value rfl
    | error error => exact .refl _

section Lists

variable {item : Type} {left right : item → Except ActionError Bool}

theorem allM
    (items : List item)
    (each : ∀ one ∈ items, Approaches (left one) (right one)) :
    Approaches (items.allM left) (items.allM right) := by
  induction items with
  | nil => exact .refl _
  | cons one rest inductionHypothesis =>
      unfold List.allM
      refine .bind (each one List.mem_cons_self) fun value _ => ?_
      cases value with
      | true =>
          exact inductionHypothesis fun other member =>
            each other (List.mem_cons_of_mem _ member)
      | false => exact .refl _

theorem anyM
    (items : List item)
    (each : ∀ one ∈ items, Approaches (left one) (right one)) :
    Approaches (items.anyM left) (items.anyM right) := by
  induction items with
  | nil => exact .refl _
  | cons one rest inductionHypothesis =>
      unfold List.anyM
      refine .bind (each one List.mem_cons_self) fun value _ => ?_
      cases value with
      | true => exact .refl _
      | false =>
          exact inductionHypothesis fun other member =>
            each other (List.mem_cons_of_mem _ member)

end Lists

end Approaches

namespace PlainSetting

variable {setting : PlainSetting} {span : Span}

/-- Operands that approach others lead to an answer that does. -/
theorem approaches_compute
    {predicate : Predicate}
    (looksAtSpan : ∀ placement inner, predicate ≠ .context placement inner)
    {left right : PredicateId → Span → Except ActionError Bool}
    (operands : ∀ inner ∈ predicate.operands,
      Approaches (left inner span) (right inner span)) :
    Approaches (setting.compute left predicate span)
      (setting.compute right predicate span) := by
  unfold compute
  split
  · exact .refl _
  · cases predicate with
    | not inner =>
        exact .bind (operands inner (by simp [Predicate.operands]))
          fun value _ => .refl _
    | and inners => exact .allM inners operands
    | or inners => exact .anyM inners operands
    | context placement inner => exact absurd rfl (looksAtSpan placement inner)
    | _ => exact .refl _

/-- Evaluations that may nest deeper give the same answers and further ones. -/
theorem approaches_evaluate
    (contextless : setting.predicates.Contextless)
    {less more : Nat}
    (deeper : less ≤ more)
    (id : PredicateId) :
    Approaches (setting.evaluate less id span)
      (setting.evaluate more id span) := by
  induction less generalizing id more with
  | zero => exact .inl rfl
  | succ less inductionHypothesis =>
      obtain ⟨more, rfl⟩ : ∃ lower, more = lower + 1 := ⟨more - 1, by omega⟩
      unfold evaluate
      cases stored : setting.predicates.get? id with
      | none => exact .refl _
      | some predicate =>
          refine approaches_compute ?_ fun inner _ =>
            inductionHypothesis (by omega) inner
          rintro placement inner rfl
          exact contextless id placement inner stored

/-- Whether a predicate comes to an answer within so many nested evaluations. -/
def ends (setting : PlainSetting) (span : Span) (fuel : Nat) (id : PredicateId) : Bool :=
  match setting.evaluate fuel id span with
  | .ok _ => true
  | .error error => error != cyclicOperands

/-- How many predicates come to no answer within so many nested evaluations. -/
def unended (setting : PlainSetting) (span : Span) (fuel : Nat) : Nat :=
  missingFacts (List.range setting.predicates.size) (setting.ends span fuel)

theorem ends_eq_false_iff {fuel : Nat} {id : PredicateId} :
    setting.ends span fuel id = false ↔
      setting.evaluate fuel id span = .error cyclicOperands := by
  unfold ends
  cases setting.evaluate fuel id span <;> simp

theorem ends_of_le
    (contextless : setting.predicates.Contextless)
    {less more : Nat}
    (deeper : less ≤ more)
    {id : PredicateId}
    (ended : setting.ends span less id = true) :
    setting.ends span more id = true := by
  rw [← Bool.not_eq_false, ends_eq_false_iff] at ended ⊢
  have same := (approaches_evaluate contextless deeper id).resolve_left ended
  rwa [← same]

/-- If no further predicate comes to an answer, all answers are the same. -/
theorem evaluate_eq_of_unended_eq
    (contextless : setting.predicates.Contextless)
    {less more : Nat}
    (deeper : less ≤ more)
    (same : setting.unended span less = setting.unended span more)
    {id : PredicateId}
    (inside : id < setting.predicates.size) :
    setting.evaluate less id span = setting.evaluate more id span := by
  rcases approaches_evaluate contextless deeper id with givenUp | equal
  · cases ended : setting.ends span more id with
    | false => exact givenUp.trans (ends_eq_false_iff.mp ended).symm
    | true =>
        have fewer : setting.unended span more < setting.unended span less :=
          missingFacts_lt (fun _ => ends_of_le contextless deeper)
            (List.mem_range.mpr inside) (ends_eq_false_iff.mpr givenUp) ended
        exact absurd same.symm (Nat.ne_of_lt fewer)
  · exact equal

/-- Evaluations that may nest as deep as there are predicates need nest no deeper. -/
theorem evaluate_eq_of_size_le
    (contextless : setting.predicates.Contextless)
    (operandKnown : ∀ {id : PredicateId} {predicate : Predicate},
      setting.predicates.get? id = some predicate →
        ∀ operand ∈ predicate.operands, operand < setting.predicates.size)
    {fuel : Nat}
    (enough : setting.predicates.size ≤ fuel)
    {id : PredicateId}
    (inside : id < setting.predicates.size) :
    setting.evaluate fuel id span =
      setting.evaluate setting.predicates.size id span := by
  have bounded : ∀ fuel,
      setting.unended span fuel ≤ setting.predicates.size := by
    intro fuel
    exact List.countP_le_length.trans_eq List.length_range
  have falls : ∀ {less more : Nat}, less ≤ more →
      setting.unended span more ≤ setting.unended span less :=
    fun deeper => missingFacts_le fun _ => ends_of_le contextless deeper
  -- Once no further predicate comes to an answer, none ever does.
  have stays : ∀ fuel,
      setting.unended span fuel = setting.unended span (fuel + 1) →
      setting.unended span (fuel + 1) = setting.unended span (fuel + 2) := by
    intro fuel same
    refine List.countP_congr fun id member => ?_
    have settled := fun {inner} => @evaluate_eq_of_unended_eq _ span contextless
      _ _ (Nat.le_succ fuel) same inner
    have nextSettled : setting.evaluate (fuel + 1) id span =
        setting.evaluate (fuel + 2) id span := by
      rw [evaluate, evaluate]
      cases stored : setting.predicates.get? id with
      | none => rfl
      | some predicate =>
          have looksAtSpan : ∀ placement inner,
              predicate ≠ .context placement inner := by
            rintro placement inner rfl
            exact contextless id placement inner stored
          exact (approaches_compute looksAtSpan fun inner isOperand =>
            settled (operandKnown stored inner isOperand) ▸ .refl _).antisymm
            (approaches_compute looksAtSpan fun inner isOperand =>
              settled (operandKnown stored inner isOperand) ▸ .refl _)
    rw [ends, ends, nextSettled]
  have stable := @Nat.stabilises_of_monotone
    (fun fuel => setting.predicates.size - setting.unended span fuel)
    setting.predicates.size fuel
    (fun _ _ deeper => Nat.sub_le_sub_left (falls deeper) _)
    (fun _ => Nat.sub_le _ _)
    (fun fuel same => by
      have := bounded fuel
      have := bounded (fuel + 1)
      rw [stays fuel (by omega)])
    enough
  have := bounded fuel
  have := bounded setting.predicates.size
  exact (evaluate_eq_of_unended_eq contextless enough (by omega) inside).symm

/-- Plain evaluation approaches what it comes to if it may nest deep enough. -/
theorem approaches_evaluate_size
    (contextless : setting.predicates.Contextless)
    (operandKnown : ∀ {id : PredicateId} {predicate : Predicate},
      setting.predicates.get? id = some predicate →
        ∀ operand ∈ predicate.operands, operand < setting.predicates.size)
    (fuel : Nat)
    {id : PredicateId}
    (inside : id < setting.predicates.size) :
    Approaches (setting.evaluate fuel id span)
      (setting.evaluate setting.predicates.size id span) := by
  rcases Nat.le_total fuel setting.predicates.size with shallow | deep
  · exact approaches_evaluate contextless shallow id
  · exact .inr (evaluate_eq_of_size_le contextless operandKnown deep inside)

/-- A predicate comes to what it is computed to be, even if its operands are cyclic. -/
theorem evaluate_size_eq_compute
    (contextless : setting.predicates.Contextless)
    (operandKnown : ∀ {id : PredicateId} {predicate : Predicate},
      setting.predicates.get? id = some predicate →
        ∀ operand ∈ predicate.operands, operand < setting.predicates.size)
    {id : PredicateId}
    {predicate : Predicate}
    (stored : setting.predicates.get? id = some predicate) :
    setting.evaluate setting.predicates.size id span =
      setting.compute (setting.evaluate setting.predicates.size) predicate
        span := by
  have deeper := @evaluate_eq_of_size_le _ span contextless operandKnown _
    (Nat.le_succ _) _ (Array.getElem?_eq_some_iff.mp stored).1
  rw [← deeper, evaluate, stored]

/--
Predicates that look at one span come to the same in settings that differ in the
input, on spans in which they find the same.
-/
theorem evaluate_congr
    {other : PlainSetting}
    (contextless : setting.predicates.Contextless)
    (samePredicates : other.predicates = setting.predicates)
    {otherSpan : Span}
    (found : ∀ predicate : Predicate,
      predicate.localTruth? otherSpan other.document =
        predicate.localTruth? span setting.document)
    (told : ∀ name, other.tells name otherSpan = setting.tells name span)
    (fuel : Nat)
    (id : PredicateId) :
    other.evaluate fuel id otherSpan = setting.evaluate fuel id span := by
  induction fuel generalizing id with
  | zero => rfl
  | succ fuel inductionHypothesis =>
      rw [evaluate, evaluate, samePredicates]
      cases stored : setting.predicates.get? id with
      | none => rfl
      | some predicate =>
          simp only [compute, found]
          split
          · rfl
          · cases predicate with
            | not inner => simp only [inductionHypothesis]
            | and inners => simp only [inductionHypothesis]
            | or inners => simp only [inductionHypothesis]
            | context placement inner =>
                exact absurd stored (contextless id placement inner)
            | custom name => simp only [told]
            | _ => rfl

theorem compute_of_localTruth?
    {predicate : Predicate}
    {value : Bool}
    (settled : predicate.localTruth? span setting.document = some value)
    (operand : PredicateId → Span → Except ActionError Bool) :
    setting.compute operand predicate span = .ok value := by
  unfold compute
  rw [settled]

/-- What predicates come to agrees with what they find in spans alone. -/
theorem agrees_comesTo_size
    (contextless : setting.predicates.Contextless)
    (operandKnown : ∀ {id : PredicateId} {predicate : Predicate},
      setting.predicates.get? id = some predicate →
        ∀ operand ∈ predicate.operands, operand < setting.predicates.size) :
    Agrees setting.predicates setting.document
      (setting.ComesTo setting.predicates.size) := by
  intro id predicate span value stored settled other
  rw [ComesTo, evaluate_size_eq_compute contextless operandKnown stored,
    compute_of_localTruth? settled, Except.ok.injEq]

end PlainSetting

/--
An effect whose answer lies between two others and that keeps something,
whatever the state of the host.
-/
def AnswersBetween
    {S σ α : Type}
    (keeps : S → Prop)
    (before : S)
    (effect : Effect ActionError S σ α)
    (early late : Except ActionError α) : Prop :=
  ∀ host : σ,
    Approaches early (effect.run.run (before, host)).1 ∧
      Approaches (effect.run.run (before, host)).1 late ∧
      keeps (effect.run.run (before, host)).2.1

theorem Answers.between
    {S σ α : Type}
    {keeps : S → Prop}
    {before : S}
    {effect : Effect ActionError S σ α}
    {answer : Except ActionError α}
    (answers : Answers keeps before effect answer) :
    AnswersBetween keeps before effect answer answer := by
  intro host
  obtain ⟨isAnswer, kept⟩ := answers host
  exact ⟨.inr isAnswer.symm, .inr isAnswer, kept⟩

namespace AnswersBetween

variable {S σ α β : Type} {keeps : S → Prop} {before : S}

theorem bind
    {first : Effect ActionError S σ α}
    {second : α → Effect ActionError S σ β}
    {firstEarly firstLate : Except ActionError α}
    {early late : α → Except ActionError β}
    (firstAnswers : AnswersBetween keeps before first firstEarly firstLate)
    (secondAnswers : ∀ value middle, firstLate = .ok value → keeps middle →
      AnswersBetween keeps middle (second value) (early value) (late value)) :
    AnswersBetween keeps before (first >>= second) (firstEarly >>= early)
      (firstLate >>= late) := by
  intro host
  obtain ⟨isEarly, isLate, kept⟩ := firstAnswers host
  simp only [ExceptT.run_bind, StateT.run_bind]
  generalize first.run.run (before, host) = outcome at isEarly isLate kept
  obtain ⟨result, middle, changed⟩ := outcome
  cases result with
  | ok value =>
      obtain rfl : Except.ok value = firstLate :=
        isLate.resolve_left fun isError => by cases isError
      obtain ⟨restEarly, restLate, restKept⟩ :=
        secondAnswers value middle rfl kept changed
      refine ⟨?_, restLate, restKept⟩
      exact isEarly.elim (fun givenUp => .inl (givenUp ▸ rfl))
        fun same => same ▸ restEarly
  | error error =>
      exact ⟨isEarly.elim (fun givenUp => .inl (givenUp ▸ rfl))
          fun same => .inr (same ▸ rfl),
        isLate.elim (fun givenUp => .inl (by cases givenUp; rfl))
          fun same => .inr (same ▸ rfl), kept⟩

theorem allM
    {effect : α → Effect ActionError S σ Bool}
    {early late : α → Except ActionError Bool}
    (items : List α)
    (kept : keeps before)
    (each : ∀ item ∈ items, ∀ current, keeps current →
      AnswersBetween keeps current (effect item) (early item) (late item)) :
    AnswersBetween keeps before (items.allM effect) (items.allM early)
      (items.allM late) := by
  induction items generalizing before with
  | nil => exact (Answers.pure true kept).between
  | cons item rest inductionHypothesis =>
      unfold List.allM
      refine .bind (each item List.mem_cons_self before kept)
        fun value middle _ middleKept => ?_
      cases value with
      | true =>
          exact inductionHypothesis middleKept fun other member =>
            each other (List.mem_cons_of_mem _ member)
      | false => exact (Answers.pure false middleKept).between

theorem anyM
    {effect : α → Effect ActionError S σ Bool}
    {early late : α → Except ActionError Bool}
    (items : List α)
    (kept : keeps before)
    (each : ∀ item ∈ items, ∀ current, keeps current →
      AnswersBetween keeps current (effect item) (early item) (late item)) :
    AnswersBetween keeps before (items.anyM effect) (items.anyM early)
      (items.anyM late) := by
  induction items generalizing before with
  | nil => exact (Answers.pure false kept).between
  | cons item rest inductionHypothesis =>
      unfold List.anyM
      refine .bind (each item List.mem_cons_self before kept)
        fun value middle _ middleKept => ?_
      cases value with
      | true => exact (Answers.pure true middleKept).between
      | false =>
          exact inductionHypothesis middleKept fun other member =>
            each other (List.mem_cons_of_mem _ member)

end AnswersBetween

namespace Evaluation

variable {σ α : Type} {keeps : Evaluator → Prop} {before : Evaluator}
variable {early late : Except ActionError α}

theorem between_get
    {rest : Evaluator → Evaluation σ α}
    (answers : AnswersBetween keeps before (rest before) early late) :
    AnswersBetween keeps before (evaluator >>= rest) early late :=
  answers

theorem between_modify
    {change : Evaluator → Evaluator}
    {rest : Unit → Evaluation σ α}
    (answers : AnswersBetween keeps (change before) (rest ()) early late) :
    AnswersBetween keeps before (modifyEvaluator change >>= rest) early late :=
  answers

end Evaluation

section Evaluating

variable {σ : Type} {host : Host σ} {context : ParseContext}
variable {setting : PlainSetting}

/-- Computing a predicate of one span gives an answer between those of its operands. -/
theorem between_computePredicate
    (hostTells : host.Tells setting.tells)
    (sameDocument : setting.document = context.document)
    {keeps : Evaluator → Prop}
    {before : Evaluator}
    (kept : keeps before)
    {predicate : Predicate}
    (looksAtSpan : ∀ placement inner, predicate ≠ .context placement inner)
    {span : Span}
    {operand : PredicateId → Span → Evaluation σ Bool}
    {early late : PredicateId → Span → Except ActionError Bool}
    (operands : ∀ inner ∈ predicate.operands, ∀ current, keeps current →
      AnswersBetween keeps current (operand inner span) (early inner span)
        (late inner span)) :
    AnswersBetween keeps before
      (computePredicate host context operand predicate span)
      (setting.compute early predicate span)
      (setting.compute late predicate span) := by
  unfold computePredicate PlainSetting.compute
  rw [sameDocument]
  cases settled : predicate.localTruth? span context.document with
  | some value => exact (Answers.pure value kept).between
  | none =>
      cases predicate with
      | not inner =>
          exact .bind (operands inner (by simp [Predicate.operands]) before kept)
            fun value _ _ valueKept => (Answers.pure (!value) valueKept).between
      | and inners => exact .allM inners kept operands
      | or inners => exact .anyM inners kept operands
      | context placement inner =>
          exact absurd rfl (looksAtSpan placement inner)
      | custom name => exact (answers_testByHost hostTells kept name span).between
      | matching accessor pattern whole => cases whole <;> cases settled
      | _ => cases settled

section Contextless

variable (contextless : setting.predicates.Contextless)
variable (hostTells : host.Tells setting.tells)
variable (sameDocument : setting.document = context.document)
variable
  (operandKnown : ∀ {id : PredicateId} {predicate : Predicate},
    setting.predicates.get? id = some predicate →
      ∀ operand ∈ predicate.operands, operand < setting.predicates.size)
include contextless hostTells sameDocument operandKnown

/-- Evaluation through the cache lies between two plain evaluations. -/
theorem between_evaluateWithin
    {threshold fuel : Nat}
    {id : PredicateId}
    (inside : id < setting.predicates.size)
    {span : Span}
    (committed : span.id < context.spans.size)
    (isSpan : context.spans.get span.id = span)
    {before : Evaluator}
    (knows : before.Knows setting.predicates.size
      (setting.ComesTo setting.predicates.size) context.spans) :
    AnswersBetween
      (Evaluator.Knows setting.predicates.size
        (setting.ComesTo setting.predicates.size) context.spans)
      before
      (evaluateWithin (PredicateNetwork.compile setting.predicates threshold)
        host context fuel id span)
      (setting.evaluate fuel id span)
      (setting.evaluate setting.predicates.size id span) := by
  have deepest : ∀ {id : PredicateId} {predicate : Predicate},
      setting.predicates.get? id = some predicate →
        setting.evaluate setting.predicates.size id span =
          setting.compute (setting.evaluate setting.predicates.size) predicate
            span :=
    fun stored =>
      PlainSetting.evaluate_size_eq_compute contextless operandKnown stored
  have agrees : Agrees setting.predicates context.document
      (setting.ComesTo setting.predicates.size) :=
    sameDocument ▸ PlainSetting.agrees_comesTo_size contextless operandKnown
  induction fuel generalizing id before with
  | zero => exact fun _ => ⟨.refl _, .inl rfl, knows⟩
  | succ fuel inductionHypothesis =>
      obtain ⟨predicate, stored⟩ : ∃ predicate,
          setting.predicates.get? id = some predicate :=
        ⟨setting.predicates.items[id], Array.getElem?_eq_getElem inside⟩
      have looksAtSpan : ∀ placement inner,
          predicate ≠ .context placement inner := by
        rintro placement inner rfl
        exact contextless id placement inner stored
      -- What is known is what the deepest plain evaluation says.
      have recalled : ∀ {current : Evaluator} {value : Bool} (counted : Evaluator),
          current.Knows setting.predicates.size
            (setting.ComesTo setting.predicates.size) context.spans →
          counted.cache = current.cache →
          current.cache.get? id span.id = some value →
          AnswersBetween
            (Evaluator.Knows setting.predicates.size
              (setting.ComesTo setting.predicates.size) context.spans)
            counted (pure value : Evaluation σ Bool)
            (setting.evaluate (fuel + 1) id span)
            (setting.evaluate setting.predicates.size id span) := by
        intro current value counted currentKnows sameCache found state
        have isHeld : setting.evaluate setting.predicates.size id span =
            .ok value := by
          have known := (currentKnows.known id inside span.id value found).2
          rwa [isSpan] at known
        have early := @PlainSetting.approaches_evaluate_size setting span
          contextless operandKnown (fuel + 1) id inside
        exact ⟨early.imp_right fun same => same.trans isHeld, .inr isHeld.symm,
          ⟨sameCache ▸ currentKnows.width, sameCache ▸ currentKnows.known⟩⟩
      have dispatched := @Evaluator.Knows.dispatch _ _ _ threshold _ _ _ _
        knows agrees stored committed isSpan
      unfold evaluateWithin
      refine Evaluation.between_get ?_
      split
      · rename_i value found
        exact Evaluation.between_modify (recalled _ knows rfl found)
      · refine Evaluation.between_modify (Evaluation.between_get ?_)
        generalize before.dispatch
          (PredicateNetwork.compile setting.predicates threshold) context id
          span = ready at dispatched ⊢
        split
        · rename_i value found
          exact recalled _ dispatched rfl found
        · have isStored :
              (PredicateNetwork.compile setting.predicates
                threshold).predicates.get? id = some predicate :=
            stored
          have shallow : setting.evaluate (fuel + 1) id span =
              setting.compute (setting.evaluate fuel) predicate span := by
            rw [PlainSetting.evaluate, stored]
          rw [isStored, deepest stored, shallow,
            ← bind_pure (setting.compute (setting.evaluate fuel) predicate span),
            ← bind_pure (setting.compute
              (setting.evaluate setting.predicates.size) predicate span)]
          refine Evaluation.between_modify (.bind ?_ ?_)
          · exact between_computePredicate hostTells sameDocument
              ⟨dispatched.width, dispatched.known⟩ looksAtSpan
              fun inner isOperand current currentKnows =>
                inductionHypothesis (operandKnown stored inner isOperand)
                  currentKnows
          · intro value middle isValue middleKnows
            refine Evaluation.between_modify (Answers.pure value
              (middleKnows.record agrees stored committed ?_)).between
            rw [isSpan, PlainSetting.ComesTo, deepest stored]
            exact isValue

/--
Evaluation through the cache gives the plain answer, cyclic operands or not, if
it may nest as deep as there are predicates.
-/
theorem answers_evaluateWithin_contextless
    {threshold fuel : Nat}
    (enough : setting.predicates.size ≤ fuel)
    {id : PredicateId}
    (inside : id < setting.predicates.size)
    {span : Span}
    (committed : span.id < context.spans.size)
    (isSpan : context.spans.get span.id = span)
    {before : Evaluator}
    (knows : before.Knows setting.predicates.size
      (setting.ComesTo setting.predicates.size) context.spans) :
    Answers
      (Evaluator.Knows setting.predicates.size
        (setting.ComesTo setting.predicates.size) context.spans)
      before
      (evaluateWithin (PredicateNetwork.compile setting.predicates threshold)
        host context fuel id span)
      (setting.evaluate setting.predicates.size id span) := by
  intro state
  obtain ⟨early, late, kept⟩ := @between_evaluateWithin _ host context setting
    contextless hostTells sameDocument operandKnown threshold fuel id inside span
    committed isSpan before knows state
  have deep : setting.evaluate fuel id span =
      setting.evaluate setting.predicates.size id span :=
    PlainSetting.evaluate_eq_of_size_le contextless operandKnown enough inside
  exact ⟨late.antisymm (deep ▸ early), kept⟩

end Contextless

end Evaluating

end SpanForest
