import SpanForest.Predicate.Evaluator

namespace SpanForest

/-!
# The truth of predicates

What a predicate says of a span is settled by the predicate alone: by the span
and the text if it looks at nothing else, by its operands, by the other input
spans, or by what the host decides. Nothing is settled of a predicate that
depends on itself.
-/

/-- The part of a parse that settles the truth of predicates. -/
structure Situation where
  predicates : PredicateAlphabet
  document : Document
  /-- The input spans. -/
  input : List Span
  /-- What the host decides by name. -/
  decide : String → Span → Bool

/-- Whether an input span is one that a context predicate looks at. -/
def Placement.regards (placement : Placement) (span sibling : Span) : Prop :=
  sibling.id ≠ span.id ∧ placement.admits span sibling = true

/-- What a predicate says of a span. -/
inductive Truth (situation : Situation) : PredicateId → Span → Bool → Prop where
  | alone {id : PredicateId} {predicate : Predicate} {span : Span} {value : Bool} :
      situation.predicates.get? id = some predicate →
      predicate.localTruth? span situation.document = some value →
      Truth situation id span value
  | custom {id : PredicateId} {name : String} {span : Span} :
      situation.predicates.get? id = some (.custom name) →
      Truth situation id span (situation.decide name span)
  | not {id inner : PredicateId} {span : Span} {value : Bool} :
      situation.predicates.get? id = some (.not inner) →
      Truth situation inner span value →
      Truth situation id span (!value)
  | and {id : PredicateId} {inners : List PredicateId} {span : Span} :
      situation.predicates.get? id = some (.and inners) →
      (∀ inner ∈ inners, Truth situation inner span true) →
      Truth situation id span true
  | andFalse {id inner : PredicateId} {inners : List PredicateId} {span : Span} :
      situation.predicates.get? id = some (.and inners) →
      inner ∈ inners →
      Truth situation inner span false →
      Truth situation id span false
  | or {id inner : PredicateId} {inners : List PredicateId} {span : Span} :
      situation.predicates.get? id = some (.or inners) →
      inner ∈ inners →
      Truth situation inner span true →
      Truth situation id span true
  | orFalse {id : PredicateId} {inners : List PredicateId} {span : Span} :
      situation.predicates.get? id = some (.or inners) →
      (∀ inner ∈ inners, Truth situation inner span false) →
      Truth situation id span false
  | context {id inner : PredicateId} {placement : Placement} {span sibling : Span} :
      situation.predicates.get? id = some (.context placement inner) →
      sibling ∈ situation.input →
      placement.regards span sibling →
      Truth situation inner sibling true →
      Truth situation id span true
  | contextFalse {id inner : PredicateId} {placement : Placement} {span : Span} :
      situation.predicates.get? id = some (.context placement inner) →
      (∀ sibling ∈ situation.input, placement.regards span sibling →
        Truth situation inner sibling false) →
      Truth situation id span false

/-- Spans that predicates cannot tell from one another in a situation. -/
structure Situation.Alike (situation : Situation) (left right : Span) : Prop where
  typeName : left.typeName = right.typeName
  start : left.start = right.start
  stop : left.stop = right.stop
  features : left.features = right.features
  number :
    ∀ sibling ∈ situation.input, sibling.id = left.id ↔ sibling.id = right.id
  decided : ∀ name, situation.decide name left = situation.decide name right

namespace Situation

variable {situation : Situation} {first second third : Span}

theorem Alike.refl (situation : Situation) (span : Span) :
    situation.Alike span span :=
  ⟨rfl, rfl, rfl, rfl, fun _ _ => Iff.rfl, fun _ => rfl⟩

theorem Alike.symm
    (alike : situation.Alike first second) :
    situation.Alike second first :=
  ⟨alike.typeName.symm, alike.start.symm, alike.stop.symm,
    alike.features.symm, fun sibling member => (alike.number sibling member).symm,
    fun name => (alike.decided name).symm⟩

theorem Alike.trans
    (early : situation.Alike first second)
    (late : situation.Alike second third) :
    situation.Alike first third :=
  ⟨early.typeName.trans late.typeName, early.start.trans late.start,
    early.stop.trans late.stop, early.features.trans late.features,
    fun sibling member =>
      (early.number sibling member).trans (late.number sibling member),
    fun name => (early.decided name).trans (late.decided name)⟩

theorem Alike.read?
    (alike : situation.Alike first second)
    (accessor : Accessor)
    (document : Document) :
    accessor.read? first document = accessor.read? second document := by
  cases accessor with
  | feature name => simp only [Accessor.read?, alike.features]
  | text =>
      simp only [Accessor.read?, Document.covered?, alike.start, alike.stop]
  | typeName => simp only [Accessor.read?, alike.typeName]
  | start => simp only [Accessor.read?, alike.start]
  | stop => simp only [Accessor.read?, alike.stop]
  | length => simp only [Accessor.read?, Span.length, alike.start, alike.stop]

theorem Alike.localTruth?
    (alike : situation.Alike first second)
    (predicate : Predicate)
    (document : Document) :
    predicate.localTruth? first document =
      predicate.localTruth? second document := by
  cases predicate with
  | matching accessor pattern whole =>
      cases whole <;>
        simp only [Predicate.localTruth?, alike.read? accessor document]
  | _ => simp only [Predicate.localTruth?, alike.read?]

theorem Alike.regards
    (alike : situation.Alike first second)
    (placement : Placement)
    {sibling : Span}
    (member : sibling ∈ situation.input) :
    placement.regards first sibling ↔ placement.regards second sibling := by
  unfold Placement.regards
  refine and_congr (not_congr (alike.number sibling member)) ?_
  cases placement <;>
    simp only [Placement.admits, alike.start, alike.stop]

end Situation

namespace Truth

variable {situation : Situation} {id : PredicateId} {span : Span}

/-- Predicates say the same of spans that they cannot tell from one another. -/
theorem of_alike
    {other : Span}
    {value : Bool}
    (alike : situation.Alike span other)
    (truth : Truth situation id span value) :
    Truth situation id other value := by
  induction truth with
  | alone stored settled =>
      exact .alone stored (alike.localTruth? _ _ ▸ settled)
  | custom stored => exact alike.decided _ ▸ .custom stored
  | not stored _ inductionHypothesis =>
      exact .not stored (inductionHypothesis alike)
  | and stored _ inductionHypothesis =>
      exact .and stored fun inner member => inductionHypothesis inner member alike
  | andFalse stored member _ inductionHypothesis =>
      exact .andFalse stored member (inductionHypothesis alike)
  | or stored member _ inductionHypothesis =>
      exact .or stored member (inductionHypothesis alike)
  | orFalse stored _ inductionHypothesis =>
      exact .orFalse stored fun inner member =>
        inductionHypothesis inner member alike
  | context stored member regarded inner =>
      exact .context stored member ((alike.regards _ member).mp regarded) inner
  | contextFalse stored siblings =>
      exact .contextFalse stored fun sibling member regarded =>
        siblings sibling member ((alike.regards _ member).mpr regarded)

/-- A predicate that looks at the span alone says what it finds there. -/
theorem eq_of_localTruth?
    {predicate : Predicate}
    {value other : Bool}
    (stored : situation.predicates.get? id = some predicate)
    (settled : predicate.localTruth? span situation.document = some value)
    (truth : Truth situation id span other) :
    value = other := by
  cases truth with
  | alone otherStored otherSettled =>
      rw [stored] at otherStored
      cases otherStored
      exact Option.some.inj (settled.symm.trans otherSettled)
  | custom otherStored
  | not otherStored
  | and otherStored
  | andFalse otherStored
  | or otherStored
  | orFalse otherStored
  | context otherStored
  | contextFalse otherStored =>
      rw [stored] at otherStored
      cases otherStored
      cases settled

/-- A predicate does not say two things of one span. -/
theorem unique
    {value other : Bool}
    (truth : Truth situation id span value)
    (otherTruth : Truth situation id span other) :
    value = other := by
  induction truth generalizing other with
  | alone stored settled =>
      exact eq_of_localTruth? stored settled otherTruth
  | custom stored =>
      cases otherTruth <;> simp_all [Predicate.localTruth?]
  | not stored _ inductionHypothesis =>
      cases otherTruth with
      | not otherStored inner =>
          rw [stored] at otherStored
          cases otherStored
          rw [inductionHypothesis inner]
      | _ => simp_all [Predicate.localTruth?]
  | and stored _ inductionHypothesis =>
      cases otherTruth with
      | and => rfl
      | andFalse otherStored member inner =>
          rw [stored] at otherStored
          cases otherStored
          exact inductionHypothesis _ member inner
      | _ => simp_all [Predicate.localTruth?]
  | andFalse stored member _ inductionHypothesis =>
      cases otherTruth with
      | and otherStored inners =>
          rw [stored] at otherStored
          cases otherStored
          exact inductionHypothesis (inners _ member)
      | andFalse => rfl
      | _ => simp_all [Predicate.localTruth?]
  | or stored member _ inductionHypothesis =>
      cases otherTruth with
      | or => rfl
      | orFalse otherStored inners =>
          rw [stored] at otherStored
          cases otherStored
          exact inductionHypothesis (inners _ member)
      | _ => simp_all [Predicate.localTruth?]
  | orFalse stored _ inductionHypothesis =>
      cases otherTruth with
      | or otherStored member inner =>
          rw [stored] at otherStored
          cases otherStored
          exact inductionHypothesis _ member inner
      | orFalse => rfl
      | _ => simp_all [Predicate.localTruth?]
  | context stored member regarded _ inductionHypothesis =>
      cases otherTruth with
      | context => rfl
      | contextFalse otherStored siblings =>
          rw [stored] at otherStored
          cases otherStored
          exact inductionHypothesis (siblings _ member regarded)
      | _ => simp_all [Predicate.localTruth?]
  | contextFalse stored _ inductionHypothesis =>
      cases otherTruth with
      | context otherStored member regarded inner =>
          rw [stored] at otherStored
          cases otherStored
          exact inductionHypothesis _ member regarded inner
      | contextFalse => rfl
      | _ => simp_all [Predicate.localTruth?]

end Truth

end SpanForest
