import SpanForest.Proofs.Effect
import SpanForest.Proofs.Predicate.Cache

namespace SpanForest

/-!
# Evaluators do not forget

Entailment adds entries only where nothing is known, and a predicate is computed
on a span only if nothing was known of the two beforehand. So an entry of the
cache stays as it is, and what an evaluation has found is known from then on:
the next evaluation answers from the cache and asks nothing.
-/

namespace Evaluator

variable {first second third before after : Evaluator}
variable {network : PredicateNetwork}
variable {id : PredicateId} {span : SpanId} {value : Bool}

/-- An evaluator that knows all that another one knew. -/
structure Retains (before after : Evaluator) : Prop where
  width : after.cache.width = before.cache.width
  known :
    ∀ id span value, before.cache.get? id span = some value →
      after.cache.get? id span = some value

theorem Retains.refl (evaluator : Evaluator) :
    evaluator.Retains evaluator where
  width := rfl
  known _ _ _ found := found

theorem Retains.trans
    (early : first.Retains second)
    (late : second.Retains third) :
    first.Retains third where
  width := late.width.trans early.width
  known id span value found :=
    late.known id span value (early.known id span value found)

theorem composes_retains : Composes Retains where
  refl := .refl
  trans _ _ _ := .trans

/-- Counting changes nothing that is known. -/
theorem retains_stats (evaluator : Evaluator) (stats : EvalStats) :
    evaluator.Retains { evaluator with stats := stats } where
  width := rfl
  known _ _ _ found := found

/-- Entering the truth of what was unknown keeps what was known. -/
theorem Retains.set
    (retains : before.Retains after)
    (unknown : before.cache.get? id span = none)
    (stats : EvalStats) :
    before.Retains ⟨after.cache.set id span value, stats⟩ where
  width := retains.width
  known other sibling truth found := by
    have apart : before.cache.position other sibling ≠
        before.cache.position id span :=
      PredicateCache.position_ne (by simp [found, unknown])
    refine (PredicateCache.get?_set_of_ne ?_).trans
      (retains.known other sibling truth found)
    unfold PredicateCache.position at apart ⊢
    rwa [retains.width]

theorem retains_imply (evaluator : Evaluator) :
    evaluator.Retains (evaluator.imply id span value) := by
  unfold Evaluator.imply PredicateCache.imply
  split
  rename_i added cache implied
  split at implied
  · cases implied
    exact evaluator.retains_stats _
  · rename_i unknown
    cases implied
    exact (Retains.refl evaluator).set unknown _

/-- Entering what is entailed, one after the other. -/
theorem retains_foldl_imply
    (valueOf : PredicateId → Bool)
    (ids : List PredicateId)
    (evaluator : Evaluator) :
    evaluator.Retains
      (ids.foldl (fun current id => current.imply id span (valueOf id))
        evaluator) := by
  induction ids generalizing evaluator with
  | nil => exact .refl evaluator
  | cons id rest inductionHypothesis =>
      exact evaluator.retains_imply.trans (inductionHypothesis _)

theorem retains_implyAll (evaluator : Evaluator) (entailed : Entailed) :
    evaluator.Retains (evaluator.implyAll entailed span) :=
  (retains_foldl_imply (fun _ => true) entailed.alsoTrue evaluator).trans
    (retains_foldl_imply (fun _ => false) entailed.alsoFalse _)

theorem retains_dispatch
    (evaluator : Evaluator)
    (context : ParseContext)
    (own : Span) :
    evaluator.Retains (evaluator.dispatch network context id own) := by
  unfold dispatch
  split
  · exact (evaluator.retains_stats _).trans
      (retains_foldl_imply (List.contains _) _ _)
  · exact .refl evaluator

/-- Recording the truth of what was unknown keeps what was known. -/
theorem Retains.record
    (retains : before.Retains after)
    (unknown : before.cache.get? id span = none) :
    before.Retains (after.record network id span value) :=
  (retains.set unknown _).trans (retains_implyAll _ _)

theorem Retains.isSome
    (retains : before.Retains after)
    (known : (before.cache.get? id span).isSome) :
    (after.cache.get? id span).isSome := by
  obtain ⟨value, found⟩ := Option.isSome_iff_exists.mp known
  exact Option.isSome_iff_exists.mpr
    ⟨value, retains.known id span value found⟩

/-- Recording a truth leaves nothing unknown that was known. -/
theorem isSome_record
    {other : PredicateId}
    {sibling : SpanId}
    (evaluator : Evaluator)
    (known : (evaluator.cache.get? other sibling).isSome) :
    ((evaluator.record network id span value).cache.get? other
      sibling).isSome :=
  (retains_implyAll _ _).isSome (PredicateCache.isSome_get?_set known)

/-- What was recorded is known. -/
theorem get?_record (evaluator : Evaluator) :
    (evaluator.record network id span value).cache.get? id span =
      some value :=
  (retains_implyAll _ _).known id span value PredicateCache.get?_set_self

end Evaluator

namespace Evaluation

variable {σ : Type} {host : Host σ} {context : ParseContext}
variable {network : PredicateNetwork}

/-- Computing a predicate keeps what is known if evaluating its operands does. -/
theorem retains_computePredicate
    {operand : PredicateId → Span → Evaluation σ Bool}
    (operands : ∀ inner sibling,
      Keeps Evaluator.Retains (operand inner sibling))
    (predicate : Predicate)
    (span : Span) :
    Keeps Evaluator.Retains
      (computePredicate host context operand predicate span) := by
  have composes := Evaluator.composes_retains
  unfold computePredicate
  split
  · exact .pure composes _
  · cases predicate with
    | not inner =>
        exact .bind composes (operands inner span) fun _ => .pure composes _
    | and inners => exact .allM composes (operands · span) inners
    | or inners => exact .anyM composes (operands · span) inners
    | context placement inner =>
        exact .anyM composes (operands inner) _
    | custom name =>
        exact fun before => ensures_callHost (fun _ _ _ => .refl before)
          fun _ _ _ => .refl before
    | _ => exact .pure composes _

/-- An evaluation keeps what is known, and what it finds is known after it. -/
theorem ensures_evaluateWithin
    (fuel : Nat)
    (id : PredicateId)
    (span : Span)
    (before : Evaluator) :
    Ensures before (evaluateWithin network host context fuel id span)
      (fun value after => before.Retains after ∧
        after.cache.get? id span.id = some value)
      before.Retains := by
  induction fuel generalizing id span before with
  | zero => exact .throw (.refl before)
  | succ fuel inductionHypothesis =>
      unfold evaluateWithin
      refine ensures_get ?_
      split
      · rename_i value known
        exact ensures_modify (.pure ⟨before.retains_stats _, known⟩)
      · rename_i unknown
        have dispatched :=
          @Evaluator.retains_dispatch network id before context span
        refine ensures_modify (ensures_get ?_)
        generalize before.dispatch network context id span = settled
          at dispatched ⊢
        split
        · rename_i value known
          exact .pure ⟨dispatched, known⟩
        · have counted : before.Retains settled.countEvaluated :=
            dispatched.trans (settled.retains_stats _)
          have recorded : ∀ (value : Bool) (after : Evaluator),
              before.Retains after →
              Ensures after
                (modifyEvaluator (·.record network id span.id value) >>=
                  fun _ => (pure value : Evaluation σ Bool))
                (fun value after => before.Retains after ∧
                  after.cache.get? id span.id = some value)
                before.Retains :=
            fun value after retains => ensures_modify
              (.pure ⟨retains.record unknown, after.get?_record⟩)
          refine ensures_modify ?_
          split
          · rename_i predicate stored
            have operands : ∀ inner sibling, Keeps Evaluator.Retains
                (evaluateWithin network host context fuel inner sibling) :=
              fun inner sibling current =>
                (inductionHypothesis inner sibling current).imp
                  (fun _ _ found => found.1) fun _ stopped => stopped
            refine .bind ((retains_computePredicate operands predicate span
              _).imp (fun _ _ late => counted.trans late)
              fun _ late => counted.trans late) recorded
          · exact .bind (.pure counted) recorded

/-- What is known is answered from the cache, whatever the host. -/
theorem run_evaluateWithin_of_known
    {fuel : Nat}
    (positive : 0 < fuel)
    {id : PredicateId}
    {span : Span}
    {evaluator : Evaluator}
    {value : Bool}
    (known : evaluator.cache.get? id span.id = some value)
    (state : σ) :
    (evaluateWithin network host context fuel id span).run.run
        (evaluator, state) =
      (.ok value, evaluator.countHit, state) := by
  obtain ⟨fuel, rfl⟩ := Nat.exists_eq_succ_of_ne_zero
    (Nat.pos_iff_ne_zero.mp positive)
  unfold evaluateWithin
  rw [run_get, known]
  rfl

end Evaluation

end SpanForest
