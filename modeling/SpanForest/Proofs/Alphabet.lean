import SpanForest.Alphabet

namespace SpanForest

/-!
# Numbers are kept

An alphabet that is shown further items keeps the numbers it handed out.
-/

namespace Alphabet

variable {α : Type}

/-- An entry of an alphabet is an item with its number. -/
theorem mem_entries_iff
    {alphabet : Alphabet α}
    {entry : Nat × α} :
    entry ∈ alphabet.entries ↔ alphabet.get? entry.1 = some entry.2 := by
  obtain ⟨id, item⟩ := entry
  simp only [entries, List.mem_map, Prod.exists, List.mem_zipIdx_iff_getElem?,
    Prod.mk.injEq]
  constructor
  · rintro ⟨_, _, stored, rfl, rfl⟩
    simpa [get?] using stored
  · intro stored
    exact ⟨item, id, by simpa [get?] using stored, rfl, rfl⟩

/-- An item has one number. -/
theorem eq_of_get?
    {alphabet : Alphabet α}
    {item : α}
    {id other : Nat}
    (stored : alphabet.get? id = some item)
    (otherStored : alphabet.get? other = some item) :
    id = other := by
  have inside : id < alphabet.items.toList.length := by
    simpa using (Array.getElem?_eq_some_iff.mp stored).1
  refine (List.getElem?_inj inside alphabet.distinct).mp ?_
  simpa [get?] using stored.trans otherStored.symm

/-- The items are those that have a number. -/
theorem mem_toList_iff
    {alphabet : Alphabet α}
    {item : α} :
    item ∈ alphabet.toList ↔ ∃ id, alphabet.get? id = some item := by
  simp [toList, get?, Array.mem_iff_getElem?]

/-- An item with a number is one of the items. -/
theorem lt_size_of_get?
    {alphabet : Alphabet α}
    {id : Nat}
    {item : α}
    (stored : alphabet.get? id = some item) :
    id < alphabet.size :=
  (Array.getElem?_eq_some_iff.mp stored).1

/-- Entries are listed in the order of their numbers. -/
theorem pairwise_entries (alphabet : Alphabet α) :
    alphabet.entries.Pairwise fun left right => left.1 < right.1 := by
  rw [entries, List.pairwise_map, List.pairwise_iff_getElem]
  intro left right leftInside rightInside before
  simpa using before

/-- Items keep their numbers. -/
def Extends (before after : Alphabet α) : Prop :=
  ∀ id item, before.get? id = some item → after.get? id = some item

/-- An alphabet that keeps the numbers of another one has no fewer items. -/
theorem Extends.size_le
    {before after : Alphabet α}
    (extended : before.Extends after) :
    before.size ≤ after.size :=
  Nat.le_of_not_lt fun fewer =>
    have stored := extended after.size _ (Array.getElem?_eq_getElem fewer)
    Nat.lt_irrefl _ (lt_size_of_get? stored)

section Intern

variable [DecidableEq α]

/-- The number found for an item is the one under which it is stored. -/
theorem find?_eq_some_iff
    {alphabet : Alphabet α}
    {item : α}
    {id : Nat} :
    alphabet.find? item = some id ↔ alphabet.get? id = some item := by
  have stored : ∀ id, alphabet.find? item = some id →
      alphabet.get? id = some item := by
    intro id found
    obtain ⟨bound, same, -⟩ := List.idxOf?_eq_some_iff.mp found
    rw [get?, Array.getElem?_eq_getElem (by simpa using bound)]
    simpa using same
  refine ⟨stored id, fun isStored => ?_⟩
  cases found : alphabet.find? item with
  | some other => rw [eq_of_get? isStored (stored other found)]
  | none =>
      have absent := List.idxOf?_eq_none_iff.mp found
      exact absurd (mem_toList_iff.mpr ⟨id, isStored⟩) absent

/-- Items keep their numbers when another one is interned. -/
theorem get?_intern_of_get?
    {alphabet : Alphabet α}
    {item other : α}
    {id : Nat}
    (stored : alphabet.get? id = some other) :
    (alphabet.intern item).2.get? id = some other := by
  unfold intern
  split
  · exact stored
  · obtain ⟨bound, same⟩ := Array.getElem?_eq_some_iff.mp stored
    simp only [get?]
    rw [Array.getElem?_push_lt bound, same]

/-- An interned item can be read back under its number. -/
theorem get?_intern
    (alphabet : Alphabet α)
    (item : α) :
    (alphabet.intern item).2.get? (alphabet.intern item).1 = some item := by
  unfold intern
  split
  · rename_i id found
    exact find?_eq_some_iff.mp found
  · simp [get?, size]

/-- Interning an item adds no other item. -/
theorem mem_toList_intern
    {alphabet : Alphabet α}
    {item other : α}
    (member : other ∈ (alphabet.intern item).2.toList) :
    other ∈ alphabet.toList ∨ other = item := by
  unfold intern at member
  split at member
  · exact .inl member
  · simpa [toList] using member

theorem extends_intern
    (alphabet : Alphabet α)
    (item : α) :
    alphabet.Extends (alphabet.intern item).2 :=
  fun _ _ stored => get?_intern_of_get? stored

/-- Interning an item gives a number to no other item. -/
theorem find?_intern
    (alphabet : Alphabet α)
    (item other : α) :
    (alphabet.intern item).2.find? other =
      if other = item then some (alphabet.intern item).1
      else alphabet.find? other := by
  split
  · rename_i same
    rw [same, find?_eq_some_iff]
    exact get?_intern alphabet item
  · rename_i differs
    cases found : alphabet.find? other with
    | some id =>
        rw [find?_eq_some_iff] at found ⊢
        exact get?_intern_of_get? found
    | none =>
        refine List.idxOf?_eq_none_iff.mpr fun member => ?_
        exact (mem_toList_intern member).elim
          (List.idxOf?_eq_none_iff.mp found) differs

/-- An item without a number is interned under the next one. -/
theorem intern_of_unseen
    {alphabet : Alphabet α}
    {item : α}
    (unseen : alphabet.find? item = none) :
    (alphabet.intern item).1 = alphabet.size := by
  unfold intern
  split
  · rename_i id found
    rw [unseen] at found
    cases found
  · rfl

/-- The items of a list are interned beside those of before. -/
theorem mem_toList_internAll
    {alphabet : Alphabet α}
    {items : List α}
    {item : α} :
    item ∈ (alphabet.internAll items).toList ↔
      item ∈ alphabet.toList ∨ item ∈ items := by
  induction items generalizing alphabet with
  | nil => simp [internAll]
  | cons first rest inductionHypothesis =>
      have step : item ∈ (alphabet.intern first).2.toList ↔
          item ∈ alphabet.toList ∨ item = first := by
        refine ⟨mem_toList_intern, ?_⟩
        rintro (known | rfl)
        · obtain ⟨id, stored⟩ := mem_toList_iff.mp known
          exact mem_toList_iff.mpr ⟨id, get?_intern_of_get? stored⟩
        · exact mem_toList_iff.mpr ⟨_, get?_intern alphabet item⟩
      rw [internAll, List.foldl_cons, ← internAll, inductionHypothesis, step,
        List.mem_cons, or_assoc]

/-- An item that has a number is interned under it. -/
theorem intern_of_find?
    {alphabet : Alphabet α}
    {item : α}
    {id : Nat}
    (found : alphabet.find? item = some id) :
    (alphabet.intern item).1 = id := by
  rw [find?_eq_some_iff] at found
  exact eq_of_get? (get?_intern alphabet item) (get?_intern_of_get? found)

end Intern

end Alphabet

end SpanForest
