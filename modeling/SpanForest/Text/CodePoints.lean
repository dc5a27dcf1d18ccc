namespace SpanForest.Text

/-!
# Sets of code points

A set of code points is a list of ranges with both ends included. Tables are
written as hexadecimal numbers and `first-last` pairs separated by blanks.
-/

/-- Inclusive ranges of code points. -/
structure CodePoints where
  ranges : List (Nat × Nat)
  deriving Repr, DecidableEq, Inhabited

/-- The value of one hexadecimal digit, zero for any other character. -/
def hexDigitValue (digit : Char) : Nat :=
  if '0' ≤ digit ∧ digit ≤ '9' then
    digit.toNat - '0'.toNat
  else if 'a' ≤ digit ∧ digit ≤ 'f' then
    digit.toNat - 'a'.toNat + 10
  else if 'A' ≤ digit ∧ digit ≤ 'F' then
    digit.toNat - 'A'.toNat + 10
  else
    0

/-- Whether the character is a hexadecimal digit. -/
def isHexDigit (digit : Char) : Bool :=
  ('0' ≤ digit && digit ≤ '9') || ('a' ≤ digit && digit ≤ 'f') ||
    ('A' ≤ digit && digit ≤ 'F')

/-- The number written by hexadecimal digits. -/
def hexValue (text : String) : Nat :=
  text.toList.foldl (fun value digit => 16 * value + hexDigitValue digit) 0

/-- The parts of a text between blanks and line ends. -/
def blankSeparated (text : String) : List String :=
  ((text.splitOn "\n").flatMap (·.splitOn " ")).filter (· ≠ "")

namespace CodePoints

/-- Read one number or `first-last` pair. -/
def parseRange? (text : String) : Option (Nat × Nat) :=
  match (text.splitOn "-").map hexValue with
  | [single] => some (single, single)
  | [first, last] => some (first, last)
  | _ => none

/-- Read a table of ranges. -/
def parse (text : String) : CodePoints :=
  ⟨(blankSeparated text).filterMap parseRange?⟩

/-- Whether `code` lies in one of the ranges. -/
def contains (set : CodePoints) (code : Nat) : Bool :=
  set.ranges.any fun (first, last) => first ≤ code && code ≤ last

end CodePoints

end SpanForest.Text
