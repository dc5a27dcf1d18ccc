import Mathlib.Data.List.Basic
import SpanForest.Predicate.Cache

namespace SpanForest

/-!
# The cache is a partial map

Every pair of a predicate and a span has two bits of its own, as long as the
predicate is one of those that the cache is wide enough for. Entering a truth
changes what is known of that pair and of no other.
-/

namespace PredicateCache

variable {cache : PredicateCache} {predicate other : PredicateId}
variable {span sibling : SpanId} {value : Bool}

/-- Nothing is known in an empty cache. -/
@[simp] theorem get?_empty (width : Nat) :
    (empty width).get? predicate span = none := by
  simp [get?, empty]

/-- Nothing is known in a cache that was cleared. -/
@[simp] theorem get?_clear :
    cache.clear.get? predicate span = none := by
  simp [get?, clear]

@[simp] theorem width_set :
    (cache.set predicate span value).width = cache.width :=
  rfl

/-- Distinct pairs have distinct positions. -/
theorem position_injective
    (inside : predicate < cache.width)
    (otherInside : other < cache.width)
    (same : cache.position predicate span = cache.position other sibling) :
    predicate = other ∧ span = sibling := by
  have positive : 0 < cache.width :=
    Nat.lt_of_le_of_lt (Nat.zero_le _) inside
  unfold position at same
  have sameSpan : span = sibling := by
    have left : (span * cache.width + predicate) / cache.width = span := by
      rw [Nat.mul_comm, Nat.mul_add_div positive, Nat.div_eq_of_lt inside,
        Nat.add_zero]
    have right : (sibling * cache.width + other) / cache.width = sibling := by
      rw [Nat.mul_comm, Nat.mul_add_div positive,
        Nat.div_eq_of_lt otherInside, Nat.add_zero]
    rw [← left, same, right]
  subst sameSpan
  exact ⟨Nat.add_left_cancel same, rfl⟩

/-- Reading a word's entry after one was written. -/
theorem getLsbD_writeEntry
    (word : BitVec 64)
    (written bit : Nat)
    (inside : written + 1 < 64) :
    (writeEntry word written value).getLsbD bit =
      if bit = written then
        true
      else if bit = written + 1 then
        value
      else
        word.getLsbD bit := by
  unfold writeEntry
  by_cases here : bit = written
  · subst here
    cases value <;> simp [BitVec.getLsbD_twoPow]
    all_goals omega
  · by_cases next : bit = written + 1
    · subst next
      cases value <;> simp [BitVec.getLsbD_twoPow]
      omega
    · cases value <;>
        simp [BitVec.getLsbD_twoPow, here, next, Ne.symm here, Ne.symm next]
      intro set
      exact BitVec.lt_of_getLsbD set

/-- The words after an entry was written. -/
theorem getD_words_set (index : Nat) :
    (cache.set predicate span value).words.getD index 0#64 =
      if index = cache.position predicate span / 32 then
        writeEntry
          (cache.words.getD (cache.position predicate span / 32) 0#64)
          (shift (cache.position predicate span)) value
      else
        cache.words.getD index 0#64 := by
  have padded : ∀ count position : Nat,
      (cache.words ++ Array.replicate count 0#64)[position]?.getD 0#64 =
        cache.words[position]?.getD 0#64 := by
    intro count position
    by_cases inside : position < cache.words.size
    · rw [Array.getElem?_append_left inside]
    · rw [Array.getElem?_append_right (by omega),
        Array.getElem?_eq_none (by omega : cache.words.size ≤ position),
        Array.getElem?_replicate]
      split <;> rfl
  simp only [set, Array.getD_eq_getD_getElem?, Array.getElem?_modify]
  by_cases own : index = cache.position predicate span / 32
  · subst own
    have inside : cache.position predicate span / 32 <
        (cache.words ++ Array.replicate
          (cache.position predicate span / 32 + 1 - cache.words.size)
          0#64).size := by
      rw [Array.size_append, Array.size_replicate]
      omega
    rw [if_pos rfl, if_pos rfl, Array.getElem?_eq_getElem inside,
      Option.map_some, Option.getD_some, ← padded _ _,
      Array.getElem?_eq_getElem inside, Option.getD_some]
  · rw [if_neg (Ne.symm own), if_neg own]
    exact padded _ _

/-- A truth that was entered is known. -/
theorem get?_set_self :
    (cache.set predicate span value).get? predicate span = some value := by
  have fits : shift (cache.position predicate span) + 1 < 64 := by
    unfold shift
    omega
  have samePosition :
      (cache.set predicate span value).position predicate span =
        cache.position predicate span :=
    rfl
  unfold get?
  simp only [samePosition, getD_words_set, if_true, getLsbD_writeEntry _ _ _ fits,
    Nat.succ_ne_self, if_false]

/-- Entering a truth changes nothing that is known at another position. -/
theorem get?_set_of_ne
    (apart :
      cache.position other sibling ≠ cache.position predicate span) :
    (cache.set predicate span value).get? other sibling =
      cache.get? other sibling := by
  have fits : shift (cache.position predicate span) + 1 < 64 := by
    unfold shift
    omega
  have samePosition :
      (cache.set predicate span value).position other sibling =
        cache.position other sibling :=
    rfl
  unfold get?
  simp only [samePosition, getD_words_set]
  by_cases shared : cache.position other sibling / 32 =
      cache.position predicate span / 32
  · have apartShift : shift (cache.position other sibling) ≠
        shift (cache.position predicate span) := by
      unfold shift
      omega
    have notNext : shift (cache.position other sibling) ≠
        shift (cache.position predicate span) + 1 := by
      unfold shift
      omega
    have nextNot : shift (cache.position other sibling) + 1 ≠
        shift (cache.position predicate span) := by
      unfold shift
      omega
    have nextApart : shift (cache.position other sibling) + 1 ≠
        shift (cache.position predicate span) + 1 := by
      omega
    simp only [shared, if_true, getLsbD_writeEntry _ _ _ fits, apartShift,
      notNext, nextNot, nextApart, if_false]
  · simp only [shared, if_false]

/-- Entering a truth leaves nothing unknown that was known. -/
theorem isSome_get?_set
    (known : (cache.get? other sibling).isSome) :
    ((cache.set predicate span value).get? other sibling).isSome := by
  by_cases same :
      cache.position other sibling = cache.position predicate span
  · have sameEntry : (cache.set predicate span value).get? other sibling =
        (cache.set predicate span value).get? predicate span := by
      unfold get?
      rw [show (cache.set predicate span value).position other sibling =
        (cache.set predicate span value).position predicate span from same]
    rw [sameEntry, get?_set_self]
    rfl
  · rwa [get?_set_of_ne same]

/-- Entering a truth changes what is known of that predicate and span only. -/
theorem get?_set
    (inside : predicate < cache.width)
    (otherInside : other < cache.width) :
    (cache.set predicate span value).get? other sibling =
      if other = predicate ∧ sibling = span then
        some value
      else
        cache.get? other sibling := by
  split
  · rename_i own
    obtain ⟨rfl, rfl⟩ := own
    exact get?_set_self
  · rename_i apart
    exact get?_set_of_ne fun same =>
      apart (position_injective otherInside inside same)

/-- What is known of two entries is not the same, so they are two entries. -/
theorem position_ne
    (differ : cache.get? other sibling ≠ cache.get? predicate span) :
    cache.position other sibling ≠ cache.position predicate span := by
  intro same
  refine differ ?_
  unfold get?
  rw [same]

end PredicateCache

end SpanForest
