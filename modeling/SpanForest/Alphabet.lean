namespace SpanForest

/-!
# Interning

An alphabet hands out consecutive numbers to the distinct items it is shown.
An item keeps its number for good, and showing it again yields that number.
-/

/-- Distinct items, each numbered by its position. -/
structure Alphabet (α : Type) where
  items : Array α
  /-- No item has two numbers. -/
  distinct : items.toList.Nodup

namespace Alphabet

variable {α : Type}

/-- The alphabet without items. -/
def empty : Alphabet α :=
  ⟨#[], List.nodup_nil⟩

instance : Inhabited (Alphabet α) :=
  ⟨empty⟩

/-- The number of `item`, if it has one. -/
def find?
    [DecidableEq α]
    (alphabet : Alphabet α)
    (item : α) :
    Option Nat :=
  alphabet.items.toList.idxOf? item

/-- The item with number `id`. -/
def get? (alphabet : Alphabet α) (id : Nat) : Option α :=
  alphabet.items[id]?

/-- Number of items, which is the next number to be handed out. -/
def size (alphabet : Alphabet α) : Nat :=
  alphabet.items.size

/-- Whether no item was interned. -/
def isEmpty (alphabet : Alphabet α) : Bool :=
  alphabet.items.isEmpty

/-- The items in the order of their numbers. -/
def toList (alphabet : Alphabet α) : List α :=
  alphabet.items.toList

/-- Items with their numbers, in the order of the numbers. -/
def entries (alphabet : Alphabet α) : List (Nat × α) :=
  alphabet.items.toList.zipIdx.map fun (item, id) => (id, item)

/-- Appending an unseen item keeps the items distinct. -/
theorem nodup_push
    [DecidableEq α]
    (alphabet : Alphabet α)
    (item : α)
    (unseen : alphabet.find? item = none) :
    (alphabet.items.push item).toList.Nodup := by
  have absent : item ∉ alphabet.items.toList :=
    List.idxOf?_eq_none_iff.mp unseen
  rw [Array.toList_push, List.nodup_append]
  refine ⟨alphabet.distinct, by simp, ?_⟩
  intro left leftMember right rightMember
  have same : right = item := by simpa using rightMember
  intro equal
  exact absent (same ▸ equal ▸ leftMember)

/-- The number of `item`, the next free one if it is unseen. -/
def intern
    [DecidableEq α]
    (alphabet : Alphabet α)
    (item : α) :
    Nat × Alphabet α :=
  match found : alphabet.find? item with
  | some id => (id, alphabet)
  | none =>
      (alphabet.size,
        ⟨alphabet.items.push item, alphabet.nodup_push item found⟩)

/-- Intern the items of a list from left to right. -/
def internAll
    [DecidableEq α]
    (alphabet : Alphabet α)
    (items : List α) :
    Alphabet α :=
  items.foldl (fun current item => (current.intern item).2) alphabet

end Alphabet

end SpanForest
