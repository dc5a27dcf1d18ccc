import SpanForest.Proofs.Effect
import SpanForest.Proofs.Predicate.Knowledge
import SpanForest.Proofs.Predicate.Truth

namespace SpanForest

/-!
# Evaluation finds the truth

Everything that the cache holds is true, whether it was computed, entailed or
settled by a group. So an evaluation that returns has found the truth, as long
as the host decides by name and span alone. An evaluation stops early if the
host ends it, or if it needs its own outcome.
-/

/-- What a host decides by name, whenever it gives an answer. -/
structure Host.Decides
    {σ : Type}
    (host : Host σ)
    (decide : String → Span → Bool) : Prop where
  answer :
    ∀ {name context span state value},
      (host.test name context span state).1 = .ok value →
        value = decide name span
  rejection :
    ∀ {name context span state reason},
      (host.test name context span state).1 = .error (.rejected reason) →
        decide name span = false

/-- The inheriting host rejects every predicate. -/
theorem Host.decides_inheriting {σ : Type} :
    (Host.inheriting : Host σ).Decides fun _ _ => false where
  answer answered := by cases answered
  rejection _ := rfl

/-- A host that never ends a parse because of a predicate. -/
def Host.TestsCalmly {σ : Type} (host : Host σ) : Prop :=
  ∀ name context span state reason,
    (host.test name context span state).1 ≠ .error (.fatal reason)

/-- Spans with their own numbers, and input spans in the order of their starts. -/
structure ParseContext.Ordered (context : ParseContext) : Prop where
  span_id :
    ∀ id, id < context.spans.size → (context.spans.get id).id = id
  input_known : ∀ id ∈ context.input, id < context.spans.size
  input_sorted :
    (context.input.map context.spans.get).Pairwise fun left right =>
      left.start ≤ right.start
  input_proper :
    ∀ id ∈ context.input,
      (context.spans.get id).start ≤ (context.spans.get id).stop

/-- What a parse lets predicates see. -/
def ParseContext.situation
    (context : ParseContext)
    (predicates : PredicateAlphabet)
    (decide : String → Span → Bool) :
    Situation :=
  ⟨predicates, context.document, context.input.map context.spans.get, decide⟩

/-- Skipping what is not accepted skips nothing that is. -/
private theorem filter_dropWhile
    {α : Type}
    {skips accepts : α → Bool}
    (apart : ∀ item, skips item = true → accepts item = false)
    (items : List α) :
    (items.dropWhile skips).filter accepts = items.filter accepts := by
  induction items with
  | nil => rfl
  | cons item rest inductionHypothesis =>
      cases isSkipped : skips item with
      | true =>
          rw [List.dropWhile_cons_of_pos isSkipped, inductionHypothesis,
            List.filter_cons_of_neg (by simp [apart item isSkipped])]
      | false =>
          rw [List.dropWhile_cons_of_neg (by simp [isSkipped])]

/-- Stopping where nothing more is accepted stops before nothing that is. -/
private theorem filter_takeWhile
    {α : Type}
    {goesOn accepts : α → Bool}
    {items : List α}
    (least : ∀ item ∈ items, accepts item = true → goesOn item = true)
    (sorted : items.Pairwise fun left right =>
      goesOn right = true → goesOn left = true) :
    (items.takeWhile goesOn).filter accepts = items.filter accepts := by
  induction items with
  | nil => rfl
  | cons item rest inductionHypothesis =>
      obtain ⟨before, restSorted⟩ := List.pairwise_cons.mp sorted
      cases isOn : goesOn item with
      | true =>
          rw [List.takeWhile_cons_of_pos isOn, List.filter_cons,
            List.filter_cons, inductionHypothesis (fun other member =>
              least other (List.mem_cons_of_mem _ member)) restSorted]
      | false =>
          rw [List.takeWhile_cons_of_neg (by simp [isOn])]
          refine (List.filter_eq_nil_iff.mpr fun other member accepted => ?_).symm
          have goes := least other member accepted
          rcases List.mem_cons.mp member with isItem | later
          · rw [isItem, isOn] at goes
            cases goes
          · rw [before other later goes] at isOn
            cases isOn

/-- The stretch of the input that is looked through misses no regarded sibling. -/
theorem ParseContext.filter_siblings
    {context : ParseContext}
    (ordered : context.Ordered)
    (placement : Placement)
    (span : Span) :
    (context.siblings placement span).filter (fun sibling =>
        sibling.id != span.id && placement.admits span sibling) =
      (context.input.map context.spans.get).filter fun sibling =>
        sibling.id != span.id && placement.admits span sibling := by
  have sorted : ∀ stop : Nat,
      (context.input.map context.spans.get).Pairwise fun left right =>
        decide (right.start ≤ stop) = true →
          decide (left.start ≤ stop) = true := by
    intro stop
    refine ordered.input_sorted.imp fun le => ?_
    simp only [decide_eq_true_eq]
    exact Nat.le_trans le
  have accepted : ∀ sibling : Span,
      (sibling.id != span.id && placement.admits span sibling) = true →
        placement.admits span sibling = true :=
    fun _ both => (Bool.and_eq_true _ _ ▸ both).2
  unfold siblings
  split
  · refine filter_takeWhile (fun sibling _ both => ?_) (sorted span.start)
    have admitted := accepted sibling both
    simp only [Placement.admits, Bool.and_eq_true] at admitted
    exact admitted.1
  · rename_i notWithin
    rw [filter_takeWhile ?_ ((sorted span.stop).sublist
      (List.dropWhile_sublist _)), filter_dropWhile]
    · intro sibling early
      refine Bool.eq_false_iff.mpr fun both => ?_
      have admitted := accepted sibling both
      cases placement <;> simp_all [Placement.admits] <;> omega
    · intro sibling listed both
      have admitted := accepted sibling both
      have proper : sibling.start ≤ sibling.stop := by
        obtain ⟨id, member, rfl⟩ :=
          List.mem_map.mp ((List.dropWhile_sublist _).subset listed)
        exact ordered.input_proper id member
      clear both accepted listed sorted
      cases placement <;> simp_all [Placement.admits] <;> omega

/-- The siblings that a context predicate is tried on are those it regards. -/
theorem ParseContext.mem_siblings
    {context : ParseContext}
    (ordered : context.Ordered)
    {placement : Placement}
    {span sibling : Span} :
    sibling ∈ (context.siblings placement span).filter (fun sibling =>
        sibling.id != span.id && placement.admits span sibling) ↔
      sibling ∈ context.input.map context.spans.get ∧
        placement.regards span sibling := by
  rw [context.filter_siblings ordered, List.mem_filter]
  simp [Placement.regards]

/-- Truth agrees with what predicates find in spans alone. -/
theorem agrees_truth (situation : Situation) :
    Agrees situation.predicates situation.document (Truth situation) :=
  fun _ _ _ _ stored settled _ =>
    ⟨Truth.eq_of_localTruth? stored settled,
      fun same => same ▸ .alone stored settled⟩

/-- Everything that is known is true. -/
abbrev Evaluator.Sound
    (situation : Situation)
    (spans : SpanStore)
    (evaluator : Evaluator) : Prop :=
  evaluator.Knows situation.predicates.size (Truth situation) spans

section Evaluating

variable {σ : Type} {host : Host σ} {decide : String → Span → Bool}
variable {predicates : PredicateAlphabet} {context : ParseContext}
variable {threshold : Nat} {mayStop : Prop} {evaluator : Evaluator}

/-- What an evaluation ensures: the truth, and nothing untrue in the cache. -/
def FindsTruth
    (predicates : PredicateAlphabet)
    (decide : String → Span → Bool)
    (context : ParseContext)
    (mayStop : Prop)
    (id : PredicateId)
    (span : Span)
    (evaluation : Evaluation σ Bool) : Prop :=
  ∀ evaluator : Evaluator,
    evaluator.Sound (context.situation predicates decide) context.spans →
    Ensures evaluator evaluation
      (fun value after =>
        after.Sound (context.situation predicates decide) context.spans ∧
          Truth (context.situation predicates decide) id span value)
      (fun after =>
        after.Sound (context.situation predicates decide) context.spans ∧
          mayStop)

/-- Asking the host changes nothing that is known. -/
theorem findsTruth_testByHost
    (decides : host.Decides decide)
    (calm : host.TestsCalmly ∨ mayStop)
    {id : PredicateId}
    {name : String}
    (stored : predicates.get? id = some (.custom name))
    (span : Span) :
    FindsTruth predicates decide context mayStop id span
      (testByHost host context name span) := by
  intro evaluator sound
  have truth : Truth (context.situation predicates decide) id span
      (decide name span) :=
    .custom stored
  refine Evaluation.ensures_callHost ?_ ?_
  · intro state value answered
    refine ⟨sound, ?_⟩
    split at answered
    · rename_i reason changed asked
      cases answered
      have isFalse := @decides.rejection name context span state reason
        (by rw [asked])
      exact isFalse ▸ truth
    · exact decides.answer answered ▸ truth
  · intro state error refused
    refine ⟨sound, calm.resolve_left fun calmly => ?_⟩
    split at refused
    · cases refused
    · rename_i answer notRejected
      cases error with
      | rejected reason =>
          exact notRejected reason (host.test name context span state).2
            (Prod.ext refused rfl)
      | fatal reason => exact calmly name context span state reason refused

/-- Computing a predicate from the truths of its operands. -/
theorem findsTruth_computePredicate
    (decides : host.Decides decide)
    (calm : host.TestsCalmly ∨ mayStop)
    (ordered : context.Ordered)
    {id : PredicateId}
    {predicate : Predicate}
    (stored : predicates.get? id = some predicate)
    {operand : PredicateId → Span → Evaluation σ Bool}
    (operands : ∀ inner ∈ predicate.operands, ∀ sibling : Span,
      sibling.id < context.spans.size →
      context.spans.get sibling.id = sibling →
      FindsTruth predicates decide context mayStop inner sibling
        (operand inner sibling))
    {span : Span}
    (committed : span.id < context.spans.size)
    (isSpan : context.spans.get span.id = span) :
    FindsTruth predicates decide context mayStop id span
      (computePredicate host context operand predicate span) := by
  unfold computePredicate
  cases settled : predicate.localTruth? span context.document with
  | some value =>
      intro evaluator sound
      exact .pure ⟨sound, .alone stored settled⟩
  | none =>
      cases predicate with
      | not inner =>
          intro evaluator sound
          refine .bind (operands inner (by simp [Predicate.operands]) span
            committed isSpan evaluator sound) ?_
          rintro value after ⟨afterSound, truth⟩
          exact .pure ⟨afterSound, .not stored truth⟩
      | and inners =>
          intro evaluator sound
          refine (Ensures.allM _ _ inners (fun inner member current currentSound =>
            operands inner member span committed isSpan current currentSound)
            sound).imp ?_ fun _ stopped => stopped
          rintro value after ⟨afterSound, truths⟩
          refine ⟨afterSound, ?_⟩
          cases value with
          | true =>
              exact .and stored fun inner member => truths inner member
          | false =>
              obtain ⟨inner, member, truth⟩ := truths
              exact .andFalse stored member truth
      | or inners =>
          intro evaluator sound
          refine (Ensures.anyM _ _ inners (fun inner member current currentSound =>
            operands inner member span committed isSpan current currentSound)
            sound).imp ?_ fun _ stopped => stopped
          rintro value after ⟨afterSound, truths⟩
          refine ⟨afterSound, ?_⟩
          cases value with
          | true =>
              obtain ⟨inner, member, truth⟩ := truths
              exact .or stored member truth
          | false =>
              exact .orFalse stored fun inner member => truths inner member
      | context placement inner =>
          intro evaluator sound
          have siblingKnown : ∀ sibling ∈
              (context.siblings placement span).filter (fun sibling =>
                sibling.id != span.id && placement.admits span sibling),
              sibling.id < context.spans.size ∧
                context.spans.get sibling.id = sibling := by
            intro sibling listed
            obtain ⟨isInput, -⟩ := (context.mem_siblings ordered).mp listed
            obtain ⟨own, member, rfl⟩ := List.mem_map.mp isInput
            have known := ordered.input_known own member
            rw [ordered.span_id own known]
            exact ⟨known, rfl⟩
          refine (Ensures.anyM _ _ _ (fun sibling listed current currentSound =>
            operands inner (by simp [Predicate.operands]) sibling
              (siblingKnown sibling listed).1 (siblingKnown sibling listed).2
              current currentSound)
            sound).imp ?_ fun _ stopped => stopped
          rintro value after ⟨afterSound, truths⟩
          refine ⟨afterSound, ?_⟩
          cases value with
          | true =>
              obtain ⟨sibling, listed, truth⟩ := truths
              obtain ⟨isInput, regarded⟩ :=
                (context.mem_siblings ordered).mp listed
              exact .context stored isInput regarded truth
          | false =>
              refine .contextFalse stored fun sibling isInput regarded => ?_
              exact truths sibling
                ((context.mem_siblings ordered).mpr ⟨isInput, regarded⟩)
      | custom name =>
          exact findsTruth_testByHost decides calm stored span
      | matching accessor pattern whole => cases whole <;> cases settled
      | _ => cases settled

/-- Evaluating within a bound finds the truth, unless it may stop early. -/
theorem findsTruth_evaluateWithin
    (decides : host.Decides decide)
    (calm : host.TestsCalmly ∨ mayStop)
    (ordered : context.Ordered)
    (operandKnown : ∀ {id : PredicateId} {predicate : Predicate},
      predicates.get? id = some predicate →
        ∀ operand ∈ predicate.operands, operand < predicates.size)
    {rank : PredicateId → Nat}
    (falls : (∀ {id : PredicateId} {predicate : Predicate},
      predicates.get? id = some predicate →
        ∀ operand ∈ predicate.operands, rank operand < rank id) ∨ mayStop)
    {fuel : Nat}
    {id : PredicateId}
    (inside : id < predicates.size)
    {span : Span}
    (committed : span.id < context.spans.size)
    (isSpan : context.spans.get span.id = span)
    (enough : rank id < fuel ∨ mayStop) :
    FindsTruth predicates decide context mayStop id span
      (evaluateWithin (PredicateNetwork.compile predicates threshold) host
        context fuel id span) := by
  induction fuel generalizing id span with
  | zero =>
      intro evaluator sound
      exact .throw ⟨sound, enough.resolve_left (Nat.not_lt_zero _)⟩
  | succ fuel inductionHypothesis =>
      intro evaluator sound
      obtain ⟨predicate, stored⟩ : ∃ predicate,
          predicates.get? id = some predicate :=
        ⟨predicates.items[id], Array.getElem?_eq_getElem inside⟩
      have found : ∀ {current : Evaluator} {value : Bool},
          current.Sound (context.situation predicates decide) context.spans →
          current.cache.get? id span.id = some value →
          Truth (context.situation predicates decide) id span value := by
        intro current value currentSound known
        have truth := (currentSound.known id inside span.id value known).2
        rwa [isSpan] at truth
      unfold evaluateWithin
      refine Evaluation.ensures_get ?_
      split
      · rename_i value known
        refine Evaluation.ensures_modify ?_
        exact .pure ⟨⟨sound.width, sound.known⟩, found sound known⟩
      · have dispatchedSound : Evaluator.Sound
            (context.situation predicates decide) context.spans
            (evaluator.dispatch (PredicateNetwork.compile predicates threshold)
              context id span) :=
          sound.dispatch (agrees_truth _) stored committed isSpan
        refine Evaluation.ensures_modify (Evaluation.ensures_get ?_)
        generalize evaluator.dispatch
          (PredicateNetwork.compile predicates threshold) context id span =
            dispatched at dispatchedSound ⊢
        split
        · rename_i value known
          exact .pure ⟨dispatchedSound, found dispatchedSound known⟩
        · refine Evaluation.ensures_modify ?_
          have countedSound : Evaluator.Sound
              (context.situation predicates decide) context.spans
              dispatched.countEvaluated :=
            ⟨dispatchedSound.width, dispatchedSound.known⟩
          have computed :
              FindsTruth predicates decide context mayStop id span
                (computePredicate host context
                  (evaluateWithin
                    (PredicateNetwork.compile predicates threshold) host
                    context fuel) predicate span) := by
            refine findsTruth_computePredicate decides calm ordered stored
              ?_ committed isSpan
            intro inner member sibling siblingCommitted siblingSpan
            refine inductionHypothesis (operandKnown stored inner member)
              siblingCommitted siblingSpan ?_
            rcases falls with lower | stop
            · rcases enough with below | stop
              · have isLower := lower stored inner member
                exact .inl (by omega)
              · exact .inr stop
            · exact .inr stop
          have isStored :
              (PredicateNetwork.compile predicates threshold).predicates.get?
                id = some predicate :=
            stored
          rw [isStored]
          refine .bind (computed _ countedSound) ?_
          rintro value after ⟨afterSound, truth⟩
          refine Evaluation.ensures_modify ?_
          exact .pure ⟨afterSound.record (agrees_truth _) stored committed
            (isSpan.symm ▸ truth), truth⟩

end Evaluating

end SpanForest
