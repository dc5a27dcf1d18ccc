import Mathlib.Data.Finset.Card
import Mathlib.Logic.Function.Basic
import SpanForest.Proofs.BitSet.Iterating

namespace SpanForest

/-!
# Bit sets refine finite sets

Calls on any number of sets are made twice, on bit sets and on finite sets of numbers.
Both return the same flags and leave sets with the same members, whatever the number
of words each bit set was given on the way. One lemma per operation says what it does
to the represented set; a run of calls follows by induction.
-/

/-- The operations on sets of numbers, whatever represents them. -/
structure SetOperations (α : Type) where
  new : α
  withCapacity : Nat → α
  collect : List Nat → α
  insert : α → Nat → Bool × α
  remove : α → Nat → Bool × α
  clear : α → α
  union : α → α → Bool × α
  unionExcept : α → α → Nat → Bool × α

/-- One call; the sets are told apart by numbers. -/
inductive SetCall where
  | new (target : Nat)
  | withCapacity (target count : Nat)
  | collect (target : Nat) (members : List Nat)
  | insert (target member : Nat)
  | remove (target member : Nat)
  | clear (target : Nat)
  | union (target source : Nat)
  | unionExcept (target source excepted : Nat)
  deriving Repr, DecidableEq

namespace SetCall

/-- The set a call may change. -/
def target : SetCall → Nat
  | new target => target
  | withCapacity target _ => target
  | collect target _ => target
  | insert target _ => target
  | remove target _ => target
  | clear target => target
  | union target _ => target
  | unionExcept target _ _ => target

/-- All numbers put into sets lie below a bound, and room is made for none above it. -/
def Within (bound : Nat) : SetCall → Prop
  | withCapacity _ count => count ≤ bound
  | collect _ members => ∀ member ∈ members, member < bound
  | insert _ member => member < bound
  | _ => True

end SetCall

namespace SetOperations

variable {α : Type}

/-- Answers with the same flag and related sets. -/
def Alike
    {φ β : Type}
    (relates : α → β → Prop)
    (answer : φ × α)
    (expected : φ × β) : Prop :=
  answer.1 = expected.1 ∧ relates answer.2 expected.2

/-- What a call returns and what becomes of its set. -/
def answer (operations : SetOperations α) (sets : Nat → α) : SetCall → Option Bool × α
  | .new _ => (none, operations.new)
  | .withCapacity _ count => (none, operations.withCapacity count)
  | .collect _ members => (none, operations.collect members)
  | .insert target member => (operations.insert (sets target) member).map some id
  | .remove target member => (operations.remove (sets target) member).map some id
  | .clear target => (none, operations.clear (sets target))
  | .union target source =>
      (operations.union (sets target) (sets source)).map some id
  | .unionExcept target source excepted =>
      (operations.unionExcept (sets target) (sets source) excepted).map some id

/-- What calls made one after the other return, and the sets they leave. -/
def runFrom
    (operations : SetOperations α)
    (sets : Nat → α) :
    List SetCall → List (Option Bool) × (Nat → α)
  | [] => ([], sets)
  | call :: calls =>
      let (flag, changed) := operations.answer sets call
      let (flags, last) :=
        operations.runFrom (Function.update sets call.target changed) calls
      (flag :: flags, last)

/-- The calls made on new sets. -/
def run (operations : SetOperations α) (calls : List SetCall) :
    List (Option Bool) × (Nat → α) :=
  operations.runFrom (fun _ => operations.new) calls

/-- What the calls made keep of each set, a run of them keeps. -/
theorem runFrom_keeps
    {operations : SetOperations α}
    {sets : Nat → α}
    {calls : List SetCall}
    {holds : α → Prop}
    (kept :
      ∀ sets call, call ∈ calls → (∀ index, holds (sets index)) →
        holds (operations.answer sets call).2)
    (initially : ∀ index, holds (sets index))
    (index : Nat) :
    holds ((operations.runFrom sets calls).2 index) := by
  induction calls generalizing sets with
  | nil => exact initially index
  | cons call calls inductionHypothesis =>
      refine inductionHypothesis
        (fun sets made member => kept sets made (List.mem_cons_of_mem _ member)) ?_
      rw [Function.forall_update_iff sets fun _ set => holds set]
      exact ⟨kept sets call List.mem_cons_self initially, fun index _ => initially index⟩

/-- Operations that answer alike on sets that are related, and leave related sets. -/
structure Refines
    {β : Type}
    (relates : α → β → Prop)
    (operations : SetOperations α)
    (reference : SetOperations β) : Prop where
  new : relates operations.new reference.new
  withCapacity :
    ∀ count, relates (operations.withCapacity count) (reference.withCapacity count)
  collect :
    ∀ members, relates (operations.collect members) (reference.collect members)
  insert :
    ∀ {set members} member, relates set members →
      Alike relates (operations.insert set member) (reference.insert members member)
  remove :
    ∀ {set members} member, relates set members →
      Alike relates (operations.remove set member) (reference.remove members member)
  clear :
    ∀ {set members}, relates set members →
      relates (operations.clear set) (reference.clear members)
  union :
    ∀ {set members other others}, relates set members → relates other others →
      Alike relates (operations.union set other) (reference.union members others)
  unionExcept :
    ∀ {set members other others} excepted,
      relates set members → relates other others →
      Alike relates (operations.unionExcept set other excepted)
        (reference.unionExcept members others excepted)

section Refining

variable {β : Type} {relates : α → β → Prop}
variable {operations : SetOperations α} {reference : SetOperations β}
variable {sets : Nat → α} {references : Nat → β}

/-- A call on related sets answers alike. -/
theorem Refines.answer
    (refines : Refines relates operations reference)
    (related : ∀ index, relates (sets index) (references index))
    (call : SetCall) :
    Alike relates (operations.answer sets call) (reference.answer references call) := by
  have flagged {answer : Bool × α} {expected : Bool × β}
      (alike : Alike relates answer expected) :
      Alike relates (answer.map some id) (expected.map some id) :=
    ⟨congrArg some alike.1, alike.2⟩
  cases call with
  | new target => exact ⟨rfl, refines.new⟩
  | withCapacity target count => exact ⟨rfl, refines.withCapacity count⟩
  | collect target members => exact ⟨rfl, refines.collect members⟩
  | insert target member => exact flagged (refines.insert member (related target))
  | remove target member => exact flagged (refines.remove member (related target))
  | clear target => exact ⟨rfl, refines.clear (related target)⟩
  | union target source =>
      exact flagged (refines.union (related target) (related source))
  | unionExcept target source excepted =>
      exact flagged (refines.unionExcept excepted (related target) (related source))

/-- Calls on related sets return the same flags and leave related sets. -/
theorem Refines.runFrom
    (refines : Refines relates operations reference)
    (related : ∀ index, relates (sets index) (references index))
    (calls : List SetCall) :
    (operations.runFrom sets calls).1 = (reference.runFrom references calls).1 ∧
      ∀ index, relates ((operations.runFrom sets calls).2 index)
        ((reference.runFrom references calls).2 index) := by
  induction calls generalizing sets references with
  | nil => exact ⟨rfl, related⟩
  | cons call calls inductionHypothesis =>
      have answered := refines.answer related call
      have relatedThen : ∀ index,
          relates
            (Function.update sets call.target (operations.answer sets call).2 index)
            (Function.update references call.target
              (reference.answer references call).2 index) := by
        rw [Function.forall_update_iff sets fun index set =>
          relates set (Function.update references call.target _ index)]
        refine ⟨?_, fun index isOther => ?_⟩
        · rw [Function.update_self]
          exact answered.2
        · rw [Function.update_of_ne isOther]
          exact related index
      have rest := inductionHypothesis relatedThen
      exact ⟨congrArg₂ List.cons answered.1 rest.1, rest.2⟩

end Refining

end SetOperations

/-- The operations on finite sets; a set has grown if it was a proper part before. -/
def finsetOperations : SetOperations (Finset Nat) where
  new := ∅
  withCapacity _ := ∅
  collect := List.toFinset
  insert members member := (decide (member ∉ members), insert member members)
  remove members member := (decide (member ∈ members), members.erase member)
  clear _ := ∅
  union members others :=
    (decide (members ⊂ members ∪ others), members ∪ others)
  unionExcept members others excepted :=
    (decide (members ⊂ members ∪ others.erase excepted),
      members ∪ others.erase excepted)

namespace BitSet

/-- The operations on bit sets. -/
def operations : SetOperations BitSet where
  new := empty
  withCapacity := withCapacity
  collect := ofList
  insert := insert
  remove := remove
  clear := clear
  union := union
  unionExcept := unionExcept

/-- Everything that can be asked of a bit set agrees with a finite set. -/
structure Represents (set : BitSet) (members : Finset Nat) : Prop where
  contains : ∀ member, set.contains member = decide (member ∈ members)
  iterated :
    ∃ listed, set.cursor.Yields listed ∧ listed.Pairwise (· < ·) ∧
      listed.toFinset = members
  size : set.size = members.card
  isEmpty : set.isEmpty = decide (members = ∅)

section Representing

variable {set other : BitSet} {members others : Finset Nat}

/-- A bit set represents a finite set as soon as the two have the same members. -/
theorem Represents.of_contains
    (same : ∀ member, set.contains member = decide (member ∈ members)) :
    set.Represents members := by
  have listed : set.toList.toFinset = members := by
    ext member
    rw [List.mem_toFinset, mem_toList, same, decide_eq_true_eq]
  have nodup : set.toList.Nodup := (pairwise_toList set).imp Nat.ne_of_lt
  refine ⟨same, ⟨_, yields_cursor set, pairwise_toList set, listed⟩, ?_, ?_⟩
  · rw [← listed, List.toFinset_card_of_nodup nodup, length_toList]
  · rw [Bool.eq_iff_iff, isEmpty_eq_true_iff, decide_eq_true_eq, ← listed,
      List.toFinset_eq_empty_iff]

/-- A flag that reports a gained member says whether the represented set grew. -/
theorem eq_decide_ssubset
    {flag : Bool}
    (reports :
      flag = true ↔
        ∃ member, set.contains member = false ∧ other.contains member = true)
    (before : set.Represents members)
    (after : other.Represents others)
    (kept : members ⊆ others) :
    flag = decide (members ⊂ others) := by
  rw [Bool.eq_iff_iff, reports, decide_eq_true_eq, Finset.ssubset_iff_of_subset kept]
  simp only [before.contains, after.contains, decide_eq_false_iff_not,
    decide_eq_true_eq, and_comm]

/-- Every operation on bit sets does what it does on finite sets. -/
theorem refines_finsetOperations :
    SetOperations.Refines Represents operations finsetOperations where
  new := .of_contains fun asked => by simp [operations, finsetOperations]
  withCapacity _ := .of_contains fun asked => by simp [operations, finsetOperations]
  collect _ := .of_contains fun asked => by simp [operations, finsetOperations]
  clear _ := .of_contains fun asked => by simp [operations, finsetOperations]
  insert member represents := by
    refine ⟨?_, .of_contains fun asked => ?_⟩
    · simp [operations, finsetOperations, represents.contains]
    · simp [operations, finsetOperations, represents.contains, beq_eq_decide]
  remove member represents := by
    refine ⟨?_, .of_contains fun asked => ?_⟩
    · simp [operations, finsetOperations, represents.contains]
    · simp [operations, finsetOperations, represents.contains, Bool.and_comm]
  union := fun {set members other others} represents source => by
    have joined : (set.union other).2.Represents (members ∪ others) :=
      .of_contains fun asked => by simp [represents.contains, source.contains]
    exact ⟨eq_decide_ssubset (union_fst_eq_true_iff set other) represents joined
      Finset.subset_union_left, joined⟩
  unionExcept := fun {set members other others} excepted represents source => by
    have joined : (set.unionExcept other excepted).2.Represents
        (members ∪ others.erase excepted) :=
      .of_contains fun asked => by
        simp [represents.contains, source.contains, bne, beq_eq_decide, Bool.and_comm]
    exact ⟨eq_decide_ssubset (unionExcept_fst_eq_true_iff set other excepted)
      represents joined Finset.subset_union_left, joined⟩

end Representing

/--
Bit sets refine finite sets.

Whatever calls are made on any number of sets, they return the flags that finite sets
return, and each bit set left agrees with its finite set. What a union leaves out is
neither added nor removed.
-/
theorem represents_run (calls : List SetCall) :
    (operations.run calls).1 = (finsetOperations.run calls).1 ∧
      (∀ index, ((operations.run calls).2 index).Represents
        ((finsetOperations.run calls).2 index)) ∧
      ∀ (set other : BitSet) (excepted : Nat),
        (set.unionExcept other excepted).2.contains excepted = set.contains excepted := by
  obtain ⟨flags, sets⟩ :=
    refines_finsetOperations.runFrom (fun _ => refines_finsetOperations.new) calls
  exact ⟨flags, sets, fun set other excepted => by simp⟩

example :
    (operations.run
        [.collect 0 [1, 2], .insert 1 40, .insert 1 2, .union 0 1, .union 0 1,
          .remove 0 2, .unionExcept 1 0 1]).1 =
      [none, some true, some true, some true, some false, some true, some false] := by
  decide

section Room

variable {set other : BitSet} {calls : List SetCall} {bound : Nat}

/-- There are no more words than the numbers below a bound need. -/
def FitsBelow (bound : Nat) (set : BitSet) : Prop :=
  32 * set.words.size < bound + 32

theorem FitsBelow.empty : BitSet.empty.FitsBelow bound := by
  simp [FitsBelow, BitSet.empty]

theorem FitsBelow.insert
    (fits : set.FitsBelow bound)
    {member : Nat}
    (below : member < bound) :
    (set.insert member).2.FitsBelow bound := by
  simp only [FitsBelow, BitSet.insert, Array.size_modify, size_padded] at fits ⊢
  omega

theorem FitsBelow.absorb
    (fits : set.FitsBelow bound)
    (otherFits : other.FitsBelow bound)
    (added : Nat → BitVec 32) :
    (set.absorb other.words.size added).2.FitsBelow bound := by
  simp only [FitsBelow, BitSet.absorb, Array.size_mapIdx, size_padded] at fits otherFits ⊢
  omega

theorem FitsBelow.ofList
    {members : List Nat}
    (below : ∀ member ∈ members, member < bound) :
    (BitSet.ofList members).FitsBelow bound := by
  have each : ∀ set : BitSet, set.FitsBelow bound →
      (members.foldl (fun set member => (set.insert member).2) set).FitsBelow bound := by
    induction members with
    | nil => exact fun _ fits => fits
    | cons member rest inductionHypothesis =>
        intro set fits
        exact inductionHypothesis
          (fun other isLater => below other (List.mem_cons_of_mem _ isLater)) _
          (fits.insert (below member List.mem_cons_self))
  exact each BitSet.empty .empty

/--
A set takes no more room than its calls ask for.

Where all numbers have 32 bits, so do the offsets at which a cursor reads words.
-/
theorem fitsBelow_run
    (within : ∀ call ∈ calls, call.Within bound)
    (index : Nat) :
    ((operations.run calls).2 index).FitsBelow bound := by
  refine SetOperations.runFrom_keeps (fun sets call made fits => ?_)
    (fun _ => FitsBelow.empty) index
  have inside := within call made
  cases call with
  | new target => exact .empty
  | withCapacity target count =>
      have count_le : count ≤ bound := inside
      simp only [FitsBelow, SetOperations.answer, operations, BitSet.withCapacity,
        Array.size_replicate]
      omega
  | collect target members => exact .ofList inside
  | insert target member => exact (fits target).insert inside
  | remove target member =>
      simpa [FitsBelow, SetOperations.answer, operations, BitSet.remove] using fits target
  | clear target =>
      simpa [FitsBelow, SetOperations.answer, operations, BitSet.clear] using fits target
  | union target source => exact (fits target).absorb (fits source) _
  | unionExcept target source excepted => exact (fits target).absorb (fits source) _

theorem subset_range_run
    (within : ∀ call ∈ calls, call.Within bound)
    (index : Nat) :
    (finsetOperations.run calls).2 index ⊆ Finset.range bound := by
  refine @SetOperations.runFrom_keeps _ _ _ _ (fun members => members ⊆ Finset.range bound)
    (fun sets call made bounded => ?_) (fun _ => Finset.empty_subset _) index
  have inside := within call made
  cases call with
  | new target => exact Finset.empty_subset _
  | withCapacity target count => exact Finset.empty_subset _
  | collect target members =>
      exact fun member listed =>
        Finset.mem_range.mpr (inside member (List.mem_toFinset.mp listed))
  | insert target member =>
      exact Finset.insert_subset (Finset.mem_range.mpr inside) (bounded target)
  | remove target member => exact (Finset.erase_subset _ _).trans (bounded target)
  | clear target => exact Finset.empty_subset _
  | union target source => exact Finset.union_subset (bounded target) (bounded source)
  | unionExcept target source excepted =>
      exact Finset.union_subset (bounded target)
        ((Finset.erase_subset _ _).trans (bounded source))

/-- Of the numbers below a bound no set counts more than there are. -/
theorem size_run_le
    (within : ∀ call ∈ calls, call.Within bound)
    (index : Nat) :
    ((operations.run calls).2 index).size ≤ bound := by
  have agrees := (refines_finsetOperations.runFrom
    (fun _ => refines_finsetOperations.new) calls).2 index
  calc ((operations.run calls).2 index).size
      = ((finsetOperations.run calls).2 index).card := agrees.size
    _ ≤ (Finset.range bound).card := Finset.card_le_card (subset_range_run within index)
    _ = bound := Finset.card_range bound

end Room

end BitSet

end SpanForest
