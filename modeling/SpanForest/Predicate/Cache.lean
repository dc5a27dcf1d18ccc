import SpanForest.Basic

namespace SpanForest

/-!
# Known truth values

The cache keeps two bits for every predicate and span: whether the truth is
known, and what it is. The entries of a span lie side by side, `width` of them,
and 32 entries share a 64-bit word. An entry beyond the end is unknown.
-/

/-- Truth values of predicates on spans. -/
structure PredicateCache where
  /-- Number of predicates. -/
  width : Nat
  words : Array (BitVec 64)
  deriving Repr, DecidableEq, Inhabited

namespace PredicateCache

/-- The cache in which nothing is known. -/
def empty (width : Nat) : PredicateCache :=
  ⟨width, #[]⟩

/-- Position of an entry among all entries. -/
def position
    (cache : PredicateCache)
    (predicate : PredicateId)
    (span : SpanId) :
    Nat :=
  span * cache.width + predicate

/-- The lower bit of the entry at `position` within its word. -/
def shift (position : Nat) : Nat :=
  position % 32 * 2

/-- The truth of a predicate on a span, if it is known. -/
def get?
    (cache : PredicateCache)
    (predicate : PredicateId)
    (span : SpanId) :
    Option Bool :=
  let position := cache.position predicate span
  let word := cache.words.getD (position / 32) 0#64
  if word.getLsbD (shift position) then
    some (word.getLsbD (shift position + 1))
  else
    none

/-- The word with the entry at `shift` made known. -/
def writeEntry (word : BitVec 64) (shift : Nat) (value : Bool) : BitVec 64 :=
  let known := word ||| BitVec.twoPow 64 shift
  if value then
    known ||| BitVec.twoPow 64 (shift + 1)
  else
    known &&& ~~~BitVec.twoPow 64 (shift + 1)

/-- Record the truth of a predicate on a span. -/
def set
    (cache : PredicateCache)
    (predicate : PredicateId)
    (span : SpanId)
    (value : Bool) :
    PredicateCache :=
  let position := cache.position predicate span
  let index := position / 32
  let padded :=
    cache.words ++ Array.replicate (index + 1 - cache.words.size) 0#64
  { cache with
    words := padded.modify index fun word =>
      writeEntry word (shift position) value }

/-- Record a truth unless it is known; the flag says whether it was recorded. -/
def imply
    (cache : PredicateCache)
    (predicate : PredicateId)
    (span : SpanId)
    (value : Bool) :
    Bool × PredicateCache :=
  match cache.get? predicate span with
  | some _ => (false, cache)
  | none => (true, cache.set predicate span value)

/-- Forget everything. -/
def clear (cache : PredicateCache) : PredicateCache :=
  { cache with words := #[] }

end PredicateCache

end SpanForest
