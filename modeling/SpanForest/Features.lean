import SpanForest.Value

namespace SpanForest

/-!
# Features

A span carries values under names. The entries are kept in the order of their
names, each name at most once, so that two feature tables are equal exactly
when they hold the same values under the same names.
-/

/-- Put `value` under `name` into entries ordered by name. -/
def insertEntry
    (name : String)
    (value : Value) :
    List (String × Value) →
    List (String × Value)
  | [] => [(name, value)]
  | (other, held) :: rest =>
      if name < other then
        (name, value) :: (other, held) :: rest
      else if name = other then
        (name, value) :: rest
      else
        (other, held) :: insertEntry name value rest

/-- An entry after an insertion is the inserted one or was there before. -/
theorem mem_insertEntry
    {name : String}
    {value : Value}
    {entries : List (String × Value)}
    {entry : String × Value}
    (member : entry ∈ insertEntry name value entries) :
    entry = (name, value) ∨ entry ∈ entries := by
  induction entries with
  | nil =>
      exact Or.inl (by simpa [insertEntry] using member)
  | cons first rest inductionHypothesis =>
      rcases first with ⟨other, held⟩
      unfold insertEntry at member
      split at member
      · simpa using member
      · split at member
        · rcases List.mem_cons.mp member with same | later
          · exact Or.inl same
          · exact Or.inr (List.mem_cons_of_mem _ later)
        · rcases List.mem_cons.mp member with same | later
          · exact Or.inr (by simp [same])
          · rcases inductionHypothesis later with same | older
            · exact Or.inl same
            · exact Or.inr (List.mem_cons_of_mem _ older)

/-- An insertion keeps the entries in strict name order. -/
theorem pairwise_insertEntry
    (name : String)
    (value : Value)
    {entries : List (String × Value)}
    (ordered : entries.Pairwise fun left right => left.1 < right.1) :
    (insertEntry name value entries).Pairwise
      fun left right => left.1 < right.1 := by
  induction entries with
  | nil =>
      simp [insertEntry]
  | cons first rest inductionHypothesis =>
      rcases first with ⟨other, held⟩
      have orderedRest := (List.pairwise_cons.mp ordered).2
      have firstLeast := (List.pairwise_cons.mp ordered).1
      unfold insertEntry
      split
      · rename_i before
        refine List.pairwise_cons.mpr ⟨?_, ordered⟩
        intro entry member
        rcases List.mem_cons.mp member with same | later
        · exact same ▸ before
        · exact String.lt_trans before (firstLeast entry later)
      · split
        · rename_i same
          refine List.pairwise_cons.mpr ⟨?_, orderedRest⟩
          intro entry member
          exact same ▸ firstLeast entry member
        · rename_i notBefore different
          refine List.pairwise_cons.mpr
            ⟨?_, inductionHypothesis orderedRest⟩
          intro entry member
          rcases mem_insertEntry member with same | older
          · have atMost : other ≤ name := String.not_lt.mp notBefore
            rw [same]
            exact Decidable.byContradiction fun notLess =>
              different (String.le_antisymm (String.not_lt.mp notLess) atMost)
          · exact firstLeast entry older

/-- Values under distinct names, ordered by name. -/
structure Features where
  entries : List (String × Value)
  /-- Every name comes before the names behind it. -/
  ordered : entries.Pairwise fun left right => left.1 < right.1
  deriving Repr, DecidableEq

namespace Features

/-- No features. -/
def empty : Features :=
  ⟨[], List.Pairwise.nil⟩

instance : EmptyCollection Features :=
  ⟨empty⟩

instance : Inhabited Features :=
  ⟨empty⟩

/-- The value under `name`. -/
def get? (features : Features) (name : String) : Option Value :=
  features.entries.lookup name

/-- Put `value` under `name`, in place of what was there. -/
def insert
    (features : Features)
    (name : String)
    (value : Value) :
    Features :=
  ⟨insertEntry name value features.entries,
    pairwise_insertEntry name value features.ordered⟩

/-- Put entries one after the other, later ones in place of earlier ones. -/
def insertAll
    (features : Features)
    (entries : List (String × Value)) :
    Features :=
  entries.foldl (fun current entry => current.insert entry.1 entry.2) features

/-- The features of a list of entries. -/
def ofList (entries : List (String × Value)) : Features :=
  empty.insertAll entries

/-- Put every feature of `other`, in place of those of the same name. -/
def merge (features other : Features) : Features :=
  features.insertAll other.entries

end Features

end SpanForest
