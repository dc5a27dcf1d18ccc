import Mathlib.Data.List.Induction
import SpanForest.Proofs.BitSet
import SpanForest.Proofs.Predicate.Cache

namespace SpanForest

/-!
# What a cache remembers

Truths are entered and forgotten by calls. A cache remembers of every predicate and
span what was entered last, unless everything was forgotten since; that the entries
of many pairs share a word, and that words are added as they are needed, never shows.
-/

/-- One call on a cache for `width` predicates. -/
inductive CacheCall (width : Nat) where
  | set (predicate : Fin width) (span : SpanId) (value : Bool)
  | clear
  deriving Repr, DecidableEq

namespace PredicateCache

variable {width : Nat} {cache : PredicateCache}
variable {predicate other : Fin width} {span sibling : SpanId} {value : Bool}

/-- The cache after a call. -/
def perform (cache : PredicateCache) : CacheCall width → PredicateCache
  | .set predicate span value => cache.set predicate span value
  | .clear => cache.clear

/-- The cache that comes of some calls on an empty one. -/
def ofCalls (calls : List (CacheCall width)) : PredicateCache :=
  calls.foldl perform (empty width)

/-- A pair got its last value by one of the calls, and nothing was forgotten since. -/
def LastSet
    (calls : List (CacheCall width))
    (predicate : Fin width)
    (span : SpanId)
    (value : Bool) : Prop :=
  ∃ earlier later, calls = earlier ++ .set predicate span value :: later ∧
    .clear ∉ later ∧ ∀ another, .set predicate span another ∉ later

section Words

/-- A word with an entry masked out and written anew: known, and what it is. -/
def maskedWrite (word : BitVec 64) (shift : Nat) (value : Bool) : BitVec 64 :=
  word &&& ~~~(0b11#64 <<< shift) |||
    (0b01#64 ||| if value then 0b10#64 else 0#64) <<< shift

/-- The entry of a word, read by its two bits. -/
def maskedRead (word : BitVec 64) (shift : Nat) : Option Bool :=
  if word >>> shift &&& 0b01#64 != 0#64 then
    some (word >>> shift &&& 0b10#64 != 0#64)
  else
    none

/-- The truth of a pair is read by the two bits of its entry. -/
theorem get?_eq_maskedRead (predicate : PredicateId) (span : SpanId) :
    cache.get? predicate span =
      maskedRead (cache.words.getD (cache.position predicate span / 32) 0#64)
        (shift (cache.position predicate span)) := by
  have lower : 0b01#64 = BitVec.twoPow 64 0 := by decide
  have upper : 0b10#64 = BitVec.twoPow 64 1 := by decide
  simp only [get?, maskedRead, lower, upper,
    and_twoPow_bne_zero _ (show 0 < 64 by decide),
    and_twoPow_bne_zero _ (show 1 < 64 by decide), BitVec.getLsbD_ushiftRight,
    Nat.add_zero]

/-- Writing an entry is masking it out and putting in its two new bits. -/
theorem writeEntry_eq_maskedWrite
    (word : BitVec 64)
    {shift : Nat}
    (inside : shift + 1 < 64) :
    writeEntry word shift value = maskedWrite word shift value := by
  have both : 0b11#64 = BitVec.twoPow 64 0 ||| BitVec.twoPow 64 1 := by decide
  have lower : 0b01#64 = BitVec.twoPow 64 0 := by decide
  have upper : 0b10#64 = BitVec.twoPow 64 1 := by decide
  refine BitVec.eq_of_getLsbD_eq fun bit bound => ?_
  rw [getLsbD_writeEntry _ _ _ inside, maskedWrite, both, lower, upper]
  -- A bit is one of the two of the entry, or lies below or above both.
  by_cases isLower : bit = shift
  · subst isLower
    cases value <;> simp [bound]
  by_cases isUpper : bit = shift + 1
  · subst isUpper
    cases value <;> simp [bound]
  by_cases below : bit < shift
  · cases value <;> simp [bound, below, isLower, isUpper]
  · have notLower : bit - shift ≠ 0 := by omega
    have notUpper : bit - shift ≠ 1 := by omega
    cases value <;> simp [bound, below, isLower, isUpper, notLower, notUpper]

/-- After an entry was written its word is the masked one. -/
theorem getD_words_set_self (predicate : PredicateId) (span : SpanId) :
    (cache.set predicate span value).words.getD
        (cache.position predicate span / 32) 0#64 =
      maskedWrite (cache.words.getD (cache.position predicate span / 32) 0#64)
        (shift (cache.position predicate span)) value := by
  have inside : shift (cache.position predicate span) + 1 < 64 := by
    unfold shift
    omega
  rw [getD_words_set, if_pos rfl, writeEntry_eq_maskedWrite _ inside]

end Words

section Calls

variable {calls : List (CacheCall width)}

theorem ofCalls_append_singleton (call : CacheCall width) :
    ofCalls (calls ++ [call]) = (ofCalls calls).perform call := by
  rw [ofCalls, List.foldl_append]
  rfl

@[simp] theorem width_ofCalls : (ofCalls calls).width = width := by
  induction calls using List.reverseRecOn with
  | nil => rfl
  | append_singleton calls call inductionHypothesis =>
      rw [ofCalls_append_singleton]
      cases call <;> exact inductionHypothesis

/-- After one more call a pair has the value that this call gave it, or left to it. -/
theorem lastSet_append_singleton (call : CacheCall width) :
    LastSet (calls ++ [call]) predicate span value ↔
      call = .set predicate span value ∨
        (call ≠ .clear ∧ ∀ another, call ≠ .set predicate span another) ∧
          LastSet calls predicate span value := by
  constructor
  · rintro ⟨earlier, later, split, notCleared, notSet⟩
    rcases List.eq_nil_or_concat later with rfl | ⟨rest, last, rfl⟩
    · have isLast := (List.append_inj' split rfl).2
      exact .inl (List.singleton_inj.mp isLast)
    · rw [List.concat_eq_append, ← List.cons_append, ← List.append_assoc] at split
      obtain ⟨rfl, isLast⟩ := List.append_inj' split rfl
      obtain rfl := List.singleton_inj.mp isLast
      simp only [List.concat_eq_append, List.mem_append, List.mem_singleton, not_or]
        at notCleared notSet
      exact .inr ⟨⟨Ne.symm notCleared.2, fun another => Ne.symm (notSet another).2⟩,
        earlier, rest, rfl, notCleared.1, fun another => (notSet another).1⟩
  · rintro (rfl | ⟨⟨notClear, notOwn⟩, earlier, later, rfl, notCleared, notSet⟩)
    · exact ⟨calls, [], rfl, List.not_mem_nil, fun _ => List.not_mem_nil⟩
    · refine ⟨earlier, later ++ [call], by simp, ?_, fun another => ?_⟩
      · simp [notCleared, Ne.symm notClear]
      · simp [notSet another, Ne.symm (notOwn another)]

/-- A call on a cache changes what is known of its own pair, or forgets everything. -/
theorem get?_perform
    (call : CacheCall width)
    (isWide : cache.width = width) :
    (cache.perform call).get? predicate span = some value ↔
      call = .set predicate span value ∨
        (call ≠ .clear ∧ ∀ another, call ≠ .set predicate span another) ∧
          cache.get? predicate span = some value := by
  cases call with
  | clear => simp [perform]
  | set other sibling entered =>
      rw [perform, get?_set (isWide ▸ other.isLt) (isWide ▸ predicate.isLt)]
      simp only [CacheCall.set.injEq, Fin.val_inj, reduceCtorEq, ne_eq, not_false_eq_true,
        true_and]
      split
      · rename_i own
        simp [own.1, own.2]
      · rename_i apart
        constructor
        · exact fun known => .inr ⟨fun another same =>
            apart ⟨same.1.symm, same.2.1.symm⟩, known⟩
        · rintro (same | ⟨-, known⟩)
          · exact absurd ⟨same.1.symm, same.2.1.symm⟩ apart
          · exact known

/-- What is known is what was entered last. -/
theorem get?_ofCalls :
    (ofCalls calls).get? predicate span = some value ↔
      LastSet calls predicate span value := by
  induction calls using List.reverseRecOn with
  | nil => simp [ofCalls, LastSet]
  | append_singleton calls call inductionHypothesis =>
      rw [ofCalls_append_singleton, lastSet_append_singleton,
        get?_perform call width_ofCalls, inductionHypothesis]

/-- A cache that holds of every pair what some calls entered last. -/
structure HoldsLast (calls : List (CacheCall width)) (cache : PredicateCache) : Prop where
  known :
    ∀ (predicate : Fin width) (span : SpanId) (value : Bool),
      cache.get? predicate span = some value ↔ LastSet calls predicate span value
  unknown :
    ∀ (predicate : Fin width) (span : SpanId),
      cache.get? predicate span = none ↔ ∀ value, ¬LastSet calls predicate span value
  /-- Entering the truth of one pair leaves that of every other as it was. -/
  apart :
    ∀ (predicate other : Fin width) (span sibling : SpanId) (value : Bool),
      (other, sibling) ≠ (predicate, span) →
      (cache.set predicate span value).get? other sibling = cache.get? other sibling
  /-- An entry is read by its two bits, and masked out before it is written. -/
  read :
    ∀ (predicate : Fin width) (span : SpanId),
      cache.get? predicate span =
        maskedRead (cache.words.getD (cache.position predicate span / 32) 0#64)
          (shift (cache.position predicate span))
  written :
    ∀ (predicate : Fin width) (span : SpanId) (value : Bool),
      (cache.set predicate span value).words.getD
          (cache.position predicate span / 32) 0#64 =
        maskedWrite (cache.words.getD (cache.position predicate span / 32) 0#64)
          (shift (cache.position predicate span)) value

/-- A cache is a partial map: it holds what was entered last since it was cleared. -/
theorem holdsLast_ofCalls (calls : List (CacheCall width)) :
    HoldsLast calls (ofCalls calls) where
  known _ _ _ := get?_ofCalls
  unknown predicate span := by
    rw [Option.eq_none_iff_forall_ne_some]
    exact forall_congr' fun value => not_congr get?_ofCalls
  apart predicate other span sibling value differ := by
    rw [get?_set (width_ofCalls ▸ predicate.isLt) (width_ofCalls ▸ other.isLt), if_neg]
    rintro ⟨same, sameSpan⟩
    exact differ (Prod.ext (Fin.ext same) sameSpan)
  read predicate span := get?_eq_maskedRead predicate span
  written predicate span _ := getD_words_set_self predicate span

/-- The last of two entries counts, and rows of three entries do not get mixed up. -/
example :
    let cache : PredicateCache :=
      ofCalls [.set (2 : Fin 3) 40 true, .set 1 40 false, .set 2 40 false, .set 0 41 true]
    [cache.get? 0 40, cache.get? 1 40, cache.get? 2 40, cache.get? 0 41] =
      [none, some false, some false, some true] := by
  decide

end Calls

end PredicateCache

end SpanForest
