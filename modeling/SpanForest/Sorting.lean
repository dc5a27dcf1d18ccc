namespace SpanForest

/-!
# Sorting by insertion

Items are put in order one by one, from the last to the first, each in front of
the first item that it may precede. Equal items keep their order, and a list
that is in order already is left alone in a single pass.
-/

variable {α : Type}

/-- Put an item in front of the first one that it may precede. -/
def insertBy (precedes : α → α → Bool) (item : α) : List α → List α
  | [] => [item]
  | first :: rest =>
      if precedes item first then
        item :: first :: rest
      else
        first :: insertBy precedes item rest

/-- The items in an order. -/
@[irreducible] def sortBy (precedes : α → α → Bool) (items : List α) : List α :=
  items.foldr (insertBy precedes) []

variable {precedes : α → α → Bool} {item : α} {items : List α}

theorem insertBy_perm : (insertBy precedes item items).Perm (item :: items) := by
  induction items with
  | nil =>
      exact .refl _
  | cons first rest inductionHypothesis =>
      unfold insertBy
      split
      · exact .refl _
      · exact (inductionHypothesis.cons first).trans (.swap item first rest)

/-- Sorting a list rearranges it. -/
theorem sortBy_perm : (sortBy precedes items).Perm items := by
  unfold sortBy
  induction items with
  | nil =>
      exact .refl _
  | cons item rest inductionHypothesis =>
      exact insertBy_perm.trans (inductionHypothesis.cons item)

@[simp] theorem mem_sortBy {other : α} :
    other ∈ sortBy precedes items ↔ other ∈ items :=
  sortBy_perm.mem_iff

theorem pairwise_insertBy
    (trans : ∀ left middle right, precedes left middle = true →
      precedes middle right = true → precedes left right = true)
    (total : ∀ left right, (precedes left right || precedes right left) = true)
    (sorted : items.Pairwise (precedes · · = true)) :
    (insertBy precedes item items).Pairwise (precedes · · = true) := by
  induction items with
  | nil =>
      simp [insertBy]
  | cons first rest inductionHypothesis =>
      obtain ⟨firstFirst, restSorted⟩ := List.pairwise_cons.mp sorted
      unfold insertBy
      split
      · rename_i isFirst
        refine List.pairwise_cons.mpr ⟨fun other member => ?_, sorted⟩
        rcases List.mem_cons.mp member with rfl | later
        · exact isFirst
        · exact trans item first other isFirst (firstFirst other later)
      · rename_i notFirst
        refine List.pairwise_cons.mpr
          ⟨fun other member => ?_, inductionHypothesis restSorted⟩
        rcases List.mem_cons.mp (insertBy_perm.mem_iff.mp member) with rfl | later
        · simpa [notFirst] using total other first
        · exact firstFirst other later

/-- A list that was sorted by a total order is in that order. -/
theorem pairwise_sortBy
    (trans : ∀ left middle right, precedes left middle = true →
      precedes middle right = true → precedes left right = true)
    (total : ∀ left right, (precedes left right || precedes right left) = true) :
    (sortBy precedes items).Pairwise (precedes · · = true) := by
  unfold sortBy
  induction items with
  | nil =>
      exact .nil
  | cons item rest inductionHypothesis =>
      exact pairwise_insertBy trans total inductionHypothesis

end SpanForest
