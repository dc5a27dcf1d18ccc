import Mathlib.Data.Finset.Card
import Mathlib.Logic.Relation
import SpanForest.Predicate.Evaluator

namespace SpanForest

/-!
# Predicates that do not depend on themselves

If no predicate refers to itself, directly or by way of others, predicates can
be ranked so that operands rank lower. So evaluations nest no deeper than there
are predicates, and more fuel than that makes no difference.
-/

namespace PredicateAlphabet

variable {predicates : PredicateAlphabet}

/-- A predicate refers to another by way of at least one operand. -/
def RefersTo (predicates : PredicateAlphabet) : PredicateId → PredicateId → Prop :=
  Relation.TransGen fun id operand => operand ∈ predicates.operands id

/-- No predicate refers to itself. -/
def Acyclic (predicates : PredicateAlphabet) : Prop :=
  ∀ id, ¬ predicates.RefersTo id id

/-- The operands of a predicate that is stored. -/
theorem operands_of_get?
    {id : PredicateId}
    {predicate : Predicate}
    (stored : predicates.get? id = some predicate) :
    predicates.operands id = predicate.operands := by
  simp [operands, stored]

/-- No predicate refers to itself if all operands come before the predicate. -/
theorem acyclic_of_operands_lt
    (earlier : ∀ id : Nat, ∀ operand ∈ predicates.operands id, operand < id) :
    predicates.Acyclic := by
  have falls : ∀ {id operand : Nat},
      predicates.RefersTo id operand → operand < id := by
    intro id operand refers
    induction refers with
    | single member => exact earlier _ _ member
    | tail _ member inductionHypothesis =>
        exact Nat.lt_trans (earlier _ _ member) inductionHypothesis
  intro id refers
  exact Nat.lt_irrefl _ (falls refers)

/-- Without predicates none refers to itself. -/
theorem acyclic_empty : Acyclic (Alphabet.empty : PredicateAlphabet) :=
  acyclic_of_operands_lt fun _ _ member => by cases member

/-- Operands rank lower than the predicate, and no rank reaches the number of predicates. -/
structure Ranked (predicates : PredicateAlphabet) (rank : PredicateId → Nat) : Prop where
  bounded : ∀ id : Nat, id < predicates.size → rank id < predicates.size
  falls :
    ∀ {id : PredicateId} {predicate : Predicate},
      predicates.get? id = some predicate →
        ∀ operand ∈ predicate.operands, rank operand < rank id

open Classical in
/-- A predicate ranks by the number of predicates that it refers to. -/
theorem Acyclic.exists_ranked
    (acyclic : predicates.Acyclic)
    (operandKnown : ∀ {id : PredicateId} {predicate : Predicate},
      predicates.get? id = some predicate →
        ∀ operand ∈ predicate.operands, operand < predicates.size) :
    ∃ rank, predicates.Ranked rank := by
  let below (id : PredicateId) : Finset Nat :=
    (Finset.range predicates.size).filter (predicates.RefersTo id)
  refine ⟨fun id => (below id).card, ?_, ?_⟩
  · intro id inside
    have fewer : below id ⊂ Finset.range predicates.size := by
      refine Finset.filter_ssubset.mpr ⟨id, Finset.mem_range.mpr inside, ?_⟩
      exact acyclic id
    simpa using Finset.card_lt_card fewer
  · intro id predicate stored operand member
    have refers : predicates.RefersTo id operand :=
      .single (operands_of_get? stored ▸ member)
    refine Finset.card_lt_card (Finset.ssubset_iff_subset_ne.mpr ⟨?_, ?_⟩)
    · intro other isOther
      obtain ⟨inside, later⟩ := Finset.mem_filter.mp isOther
      exact Finset.mem_filter.mpr ⟨inside, refers.trans later⟩
    · intro same
      have isBelow : operand ∈ below id :=
        Finset.mem_filter.mpr
          ⟨Finset.mem_range.mpr (operandKnown stored operand member), refers⟩
      rw [← same] at isBelow
      exact acyclic operand (Finset.mem_filter.mp isBelow).2

end PredicateAlphabet

section Asking

variable {α : Type} {m : Type → Type} [Monad m] {left right : α → m Bool}

/-- Asking whether all items hold depends on the questions about these items only. -/
theorem allM_congr
    (items : List α)
    (same : ∀ item ∈ items, left item = right item) :
    items.allM left = items.allM right := by
  induction items with
  | nil => rfl
  | cons item rest inductionHypothesis =>
      unfold List.allM
      rw [same item List.mem_cons_self, inductionHypothesis fun other member =>
        same other (List.mem_cons_of_mem _ member)]

/-- Asking whether some item holds depends on the questions about these items only. -/
theorem anyM_congr
    (items : List α)
    (same : ∀ item ∈ items, left item = right item) :
    items.anyM left = items.anyM right := by
  induction items with
  | nil => rfl
  | cons item rest inductionHypothesis =>
      unfold List.anyM
      rw [same item List.mem_cons_self, inductionHypothesis fun other member =>
        same other (List.mem_cons_of_mem _ member)]

end Asking

section Fuel

variable {σ : Type} {host : Host σ} {network : PredicateNetwork}
variable {context : ParseContext}

/-- What a predicate comes to depends on how its operands are evaluated only. -/
theorem computePredicate_congr
    {predicate : Predicate}
    {left right : PredicateId → Span → Evaluation σ Bool}
    (same : ∀ inner ∈ predicate.operands, left inner = right inner)
    (span : Span) :
    computePredicate host context left predicate span =
      computePredicate host context right predicate span := by
  unfold computePredicate
  split
  · rfl
  · cases predicate with
    | not inner => simp [same inner (by simp [Predicate.operands])]
    | and inners =>
        exact allM_congr inners fun inner member =>
          congrFun (same inner member) span
    | or inners =>
        exact anyM_congr inners fun inner member =>
          congrFun (same inner member) span
    | context placement inner =>
        simp [same inner (by simp [Predicate.operands])]
    | _ => rfl

/-- Fuel beyond the rank of a predicate makes no difference to its evaluation. -/
theorem evaluateWithin_eq_of_rank_lt
    {rank : PredicateId → Nat}
    (ranked : network.predicates.Ranked rank)
    {id : PredicateId}
    {left right : Nat}
    (leftEnough : rank id < left)
    (rightEnough : rank id < right) :
    evaluateWithin network host context left id =
      evaluateWithin network host context right id := by
  induction left generalizing id right with
  | zero => exact absurd leftEnough (Nat.not_lt_zero _)
  | succ left inductionHypothesis =>
      obtain ⟨right, rfl⟩ : ∃ lower, right = lower + 1 :=
        ⟨right - 1, by omega⟩
      funext span
      unfold evaluateWithin
      cases stored : network.predicates.get? id with
      | none => rfl
      | some predicate =>
          have computed :
              computePredicate host context
                  (evaluateWithin network host context left) predicate span =
                computePredicate host context
                  (evaluateWithin network host context right) predicate span := by
            refine computePredicate_congr (fun inner member => ?_) span
            have lower := ranked.falls stored inner member
            exact inductionHypothesis (by omega) (by omega)
          simp only [computed]

end Fuel

end SpanForest
