import SpanForest.Predicate.Evaluator
import SpanForest.Proofs.Predicate.Cache
import SpanForest.Proofs.Predicate.Network
import SpanForest.Proofs.Span

namespace SpanForest

/-!
# What evaluators know

An evaluator knows what was computed, what that entails and what the groups
settle. Whatever is to be found out about predicates and spans, as long as it
agrees with what predicates find in spans alone, entering it, what it entails
and what groups settle keeps everything right that is known.
-/

/-- What is to be found out agrees with what predicates find in spans alone. -/
def Agrees
    (predicates : PredicateAlphabet)
    (document : Document)
    (holds : PredicateId → Span → Bool → Prop) : Prop :=
  ∀ (id : PredicateId) (predicate : Predicate) (span : Span) (value : Bool),
    predicates.get? id = some predicate →
      predicate.localTruth? span document = some value →
        ∀ other, holds id span other ↔ value = other

/-- Everything that is known of so many predicates and of committed spans holds. -/
structure Evaluator.Knows
    (size : Nat)
    (holds : PredicateId → Span → Bool → Prop)
    (spans : SpanStore)
    (evaluator : Evaluator) : Prop where
  width : evaluator.cache.width = size
  known :
    ∀ id, id < size → ∀ span value,
      evaluator.cache.get? id span = some value →
        span < spans.size ∧ holds id (spans.get span) value

namespace Evaluator.Knows

variable {size : Nat} {holds : PredicateId → Span → Bool → Prop}
variable {spans : SpanStore} {evaluator : Evaluator}
variable {id : PredicateId} {span : SpanId} {value : Bool}

/-- Nothing is known by an evaluator of a network that did nothing yet. -/
theorem ofNetwork (network : PredicateNetwork) :
    (Evaluator.ofNetwork network).Knows network.size holds spans where
  width := rfl
  known id _ span value known := by simp [Evaluator.ofNetwork] at known

/-- What is known stays so while spans are committed. -/
theorem grows
    {more : SpanStore}
    (knows : evaluator.Knows size holds spans)
    (extended : spans.Extends more) :
    evaluator.Knows size holds more where
  width := knows.width
  known id inside span value known := by
    obtain ⟨committed, isHeld⟩ := knows.known id inside span value known
    obtain ⟨stillCommitted, same⟩ := extended.get committed
    exact ⟨stillCommitted, same.symm ▸ isHeld⟩

/-- Entering what holds. -/
theorem set
    (knows : evaluator.Knows size holds spans)
    (inside : id < size)
    (committed : span < spans.size)
    (isHeld : holds id (spans.get span) value)
    (stats : EvalStats) :
    Knows size holds spans ⟨evaluator.cache.set id span value, stats⟩ := by
  constructor
  case width =>
    exact knows.width
  case known =>
    intro other otherInside sibling answer found
    rw [PredicateCache.get?_set (knows.width ▸ inside)
      (knows.width ▸ otherInside)] at found
    split at found
    · rename_i same
      obtain ⟨rfl, rfl⟩ := same
      cases found
      exact ⟨committed, isHeld⟩
    · exact knows.known other otherInside sibling answer found

/-- Entering what is entailed. -/
theorem imply
    (knows : evaluator.Knows size holds spans)
    (inside : id < size)
    (committed : span < spans.size)
    (isHeld : holds id (spans.get span) value) :
    (evaluator.imply id span value).Knows size holds spans := by
  unfold Evaluator.imply PredicateCache.imply
  split
  rename_i added cache implied
  split at implied
  · cases implied
    exact ⟨knows.width, knows.known⟩
  · cases implied
    exact knows.set inside committed isHeld _

/-- Entering what is entailed, one after the other. -/
theorem foldl_imply
    (knows : evaluator.Knows size holds spans)
    (committed : span < spans.size)
    (valueOf : PredicateId → Bool)
    (ids : List PredicateId)
    (held : ∀ id ∈ ids, id < size ∧ holds id (spans.get span) (valueOf id)) :
    (ids.foldl (fun current id => current.imply id span (valueOf id))
      evaluator).Knows size holds spans := by
  induction ids generalizing evaluator with
  | nil =>
      exact knows
  | cons id rest inductionHypothesis =>
      obtain ⟨inside, isHeld⟩ := held id (by simp)
      exact inductionHypothesis (knows.imply inside committed isHeld)
        fun other member => held other (List.mem_cons_of_mem _ member)

end Evaluator.Knows

section Entering

variable {predicates : PredicateAlphabet} {context : ParseContext}
variable {holds : PredicateId → Span → Bool → Prop}
variable {threshold : Nat} {evaluator : Evaluator}
variable {id : PredicateId} {span : Span} {predicate : Predicate}

/-- What a member's accessor yields settles the member. -/
theorem MemberOf.settled
    {document : Document}
    (agrees : Agrees predicates document holds)
    {accessor : Accessor}
    {member : Member}
    {span : Span}
    {value : Bool}
    (memberOf : MemberOf predicates accessor member)
    (settled :
      member.2.categoricalTruth? (accessor.read? span document) =
        some value) :
    member.1 < predicates.size ∧ holds member.1 span value := by
  refine ⟨(Array.getElem?_eq_some_iff.mp memberOf.1).1,
    (agrees _ _ _ _ memberOf.1 ?_ value).mpr rfl⟩
  rw [Predicate.localTruth?_eq_categoricalTruth? memberOf.2]
  exact settled

/-- Entering all that is entailed. -/
theorem Evaluator.Knows.implyAll
    {spans : SpanStore}
    {document : Document}
    (knows : evaluator.Knows predicates.size holds spans)
    (agrees : Agrees predicates document holds)
    {own : SpanId}
    (committed : own < spans.size)
    {accessor : Accessor}
    {entailed : Entailed}
    (entailedSound :
      entailed.Sound predicates accessor
        (accessor.read? (spans.get own) document)) :
    (evaluator.implyAll entailed own).Knows predicates.size holds spans := by
  unfold Evaluator.implyAll
  refine foldl_imply (foldl_imply knows committed (fun _ => true) _ ?_)
    committed (fun _ => false) _ ?_
  · intro id listed
    obtain ⟨predicate, memberOf, settled⟩ := entailedSound.alsoTrue id listed
    exact memberOf.settled agrees settled
  · intro id listed
    obtain ⟨predicate, memberOf, settled⟩ := entailedSound.alsoFalse id listed
    exact memberOf.settled agrees settled

/-- Entering what a group settles. -/
theorem Evaluator.Knows.dispatch
    (knows : evaluator.Knows predicates.size holds context.spans)
    (agrees : Agrees predicates context.document holds)
    (stored : predicates.get? id = some predicate)
    (committed : span.id < context.spans.size)
    (isSpan : context.spans.get span.id = span) :
    (evaluator.dispatch (PredicateNetwork.compile predicates threshold)
        context id span).Knows predicates.size holds context.spans := by
  unfold Evaluator.dispatch
  split
  · rename_i group found
    cases categorical : predicate.categoricalAccessor? with
    | none =>
        rw [PredicateNetwork.implications_eq_nothing stored categorical]
          at found
        cases found
    | some accessor =>
        obtain ⟨sameAccessor, settles⟩ :=
          (PredicateNetwork.recordOf_compile threshold stored
            categorical).group group found
        have counted : evaluator.countEvaluated.Knows predicates.size holds
            context.spans :=
          ⟨knows.width, knows.known⟩
        refine counted.foldl_imply committed (fun member =>
          ((PredicateNetwork.compile predicates threshold).walk group
            (group.accessor.read? span context.document)).contains member)
          _ ?_
        intro member listed
        obtain ⟨other, memberOf, settled⟩ :=
          settles (group.accessor.read? span context.document) member listed
        refine memberOf.settled agrees ?_
        rw [isSpan, ← sameAccessor]
        exact settled
  · exact knows

/-- Entering what was computed, and all that it entails. -/
theorem Evaluator.Knows.record
    {document : Document}
    {value : Bool}
    {own : SpanId}
    {spans : SpanStore}
    (knows : evaluator.Knows predicates.size holds spans)
    (agrees : Agrees predicates document holds)
    (stored : predicates.get? id = some predicate)
    (committed : own < spans.size)
    (isHeld : holds id (spans.get own) value) :
    (evaluator.record (PredicateNetwork.compile predicates threshold)
        id own value).Knows predicates.size holds spans := by
  have inside : id < predicates.size :=
    (Array.getElem?_eq_some_iff.mp stored).1
  have withValue := knows.set inside committed isHeld evaluator.stats
  unfold Evaluator.record
  cases categorical : predicate.categoricalAccessor? with
  | none =>
      rw [PredicateNetwork.implications_eq_nothing stored categorical]
      cases value <;> exact withValue
  | some accessor =>
      have record :=
        PredicateNetwork.recordOf_compile threshold stored categorical
      refine withValue.implyAll agrees committed
        (record.entailed _ value ?_)
      obtain ⟨settled, isSettled⟩ := Option.isSome_iff_exists.mp
        (Predicate.categoricalTruth?_isSome categorical
          (accessor.read? (spans.get own) document))
      have localTruth := isSettled
      rw [← Predicate.localTruth?_eq_categoricalTruth? categorical]
        at localTruth
      rw [isSettled, (agrees _ _ _ _ stored localTruth value).mp isHeld]

end Entering

end SpanForest
