namespace SpanForest

/-!
# Sets of small numbers

A set keeps one bit per possible member in a growing array of 32-bit words:
number `x` is bit `x % 32` of word `x / 32`. Words past the end of the array
count as zero, so trailing zero words never show.
-/

/-- Growable set of natural numbers, one bit per member. -/
structure BitSet where
  words : Array (BitVec 32)
  deriving Repr, DecidableEq

namespace BitSet

/-- The set without members. -/
def empty : BitSet :=
  ⟨#[]⟩

instance : EmptyCollection BitSet :=
  ⟨empty⟩

instance : Inhabited BitSet :=
  ⟨empty⟩

/-- The set without members, with room for the numbers below `count`. -/
def withCapacity (count : Nat) : BitSet :=
  ⟨Array.replicate ((count + 31) / 32) 0#32⟩

/-- The word at `index`, zero past the end. -/
def word (set : BitSet) (index : Nat) : BitVec 32 :=
  set.words.getD index 0#32

/-- The word whose only set bit is the one of `member`. -/
def mask (member : Nat) : BitVec 32 :=
  BitVec.twoPow 32 (member % 32)

/-- Whether `member` is in the set. -/
def contains (set : BitSet) (member : Nat) : Bool :=
  set.word (member / 32) &&& mask member != 0#32

instance : Membership Nat BitSet :=
  ⟨fun set member => set.contains member = true⟩

/-- The words of the set, followed by zero words up to `count` of them. -/
def padded (set : BitSet) (count : Nat) : Array (BitVec 32) :=
  set.words ++ Array.replicate (count - set.words.size) 0#32

/-- Add `member`; the flag says whether it was absent. -/
def insert (set : BitSet) (member : Nat) : Bool × BitSet :=
  let index := member / 32
  let absent := set.word index &&& mask member == 0#32
  (absent, ⟨(set.padded (index + 1)).modify index (· ||| mask member)⟩)

/-- Drop `member`; the flag says whether it was present. -/
def remove (set : BitSet) (member : Nat) : Bool × BitSet :=
  let index := member / 32
  let present := set.word index &&& mask member != 0#32
  (present, ⟨set.words.modify index (· &&& ~~~mask member)⟩)

/-- Drop every member and keep the room. -/
def clear (set : BitSet) : BitSet :=
  ⟨set.words.map fun _ => 0#32⟩

/-- Number of set bits of one word. -/
def population (bits : BitVec 32) : Nat :=
  (List.range 32).countP bits.getLsbD

/-- Number of members. -/
def size (set : BitSet) : Nat :=
  (set.words.toList.map population).foldr (· + ·) 0

/-- Whether no bit is set. -/
def isEmpty (set : BitSet) : Bool :=
  set.words.all (· == 0#32)

/-- The members held by word number `index`, in ascending order. -/
def membersOfWord (index : Nat) (bits : BitVec 32) : List Nat :=
  if bits = 0#32 then
    []
  else
    ((List.range 32).filter bits.getLsbD).map (32 * index + ·)

/-- The members, in ascending order. -/
def toList (set : BitSet) : List Nat :=
  set.words.toList.zipIdx.flatMap fun (bits, index) =>
    membersOfWord index bits

/-- The set of the numbers of a list. -/
def ofList (members : List Nat) : BitSet :=
  members.foldl (fun set member => (set.insert member).2) empty

/--
Add to `set` the bits `added` yields for each of its words.

The flag says whether some word received a bit it did not hold.
-/
def absorb
    (set : BitSet)
    (count : Nat)
    (added : Nat → BitVec 32) :
    Bool × BitSet :=
  let words := set.padded count
  (words.toList.zipIdx.any fun (bits, index) =>
      added index &&& ~~~bits != 0#32,
    ⟨words.mapIdx fun index bits => bits ||| added index⟩)

/-- Add the members of `other`; the flag says whether the set grew. -/
def union (set other : BitSet) : Bool × BitSet :=
  set.absorb other.words.size other.word

/--
Add the members of `other` apart from `excepted`.

The excepted number is neither added nor removed; the flag says whether the
set grew.
-/
def unionExcept
    (set other : BitSet)
    (excepted : Nat) :
    Bool × BitSet :=
  set.absorb other.words.size fun index =>
    if index = excepted / 32 then
      other.word index &&& ~~~mask excepted
    else
      other.word index

/-- The members between braces, in ascending order: `{1, 2}`. -/
def render (set : BitSet) : String :=
  "\x7b" ++ ", ".intercalate (set.toList.map toString) ++ "\x7d"

end BitSet

end SpanForest
