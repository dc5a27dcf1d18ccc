import SpanForest.Text.CaseMapping
import SpanForest.Text.Property

namespace SpanForest.Pattern

/-!
# Character classes

A class is an expression over ranges of code points. Membership is decided by
evaluating the expression for one code point; nothing is expanded.
-/

/-- Which characters count as differing in case only. -/
inductive CaseRule where
  | unicode
  | ascii
  deriving Repr, DecidableEq

/-- The code points that a rule identifies with `code`. -/
def CaseRule.variants : CaseRule → Nat → List Nat
  | .unicode, code => Text.caseVariants code
  | .ascii, code =>
      if code < 0x80 then
        (Text.caseVariants code).filter (· < 0x80)
      else
        [code]

/-- A set of code points. -/
inductive CharSet where
  | none
  | range (first last : Nat)
  | table (members : Text.CodePoints)
  | union (left right : CharSet)
  | inter (left right : CharSet)
  | minus (left right : CharSet)
  | complement (set : CharSet)
  /-- The set with everything that differs from a member in case only. -/
  | folded (rule : CaseRule) (set : CharSet)
  deriving Repr, Inhabited

namespace CharSet

/-- Whether a code point is in the set. -/
def contains : CharSet → Nat → Bool
  | .none, _ => false
  | .range first last, code => first ≤ code && code ≤ last
  | .table members, code => members.contains code
  | .union left right, code => left.contains code || right.contains code
  | .inter left right, code => left.contains code && right.contains code
  | .minus left right, code => left.contains code && !right.contains code
  | .complement set, code => !set.contains code
  | .folded rule set, code =>
      (rule.variants code).any fun variant => set.contains variant

/-- Bound on the number of ranges needed to list the members. -/
def rangeCount : CharSet → Nat
  | .none => 0
  | .range _ _ => 1
  | .table members => members.ranges.length
  | .union left right => left.rangeCount + right.rangeCount
  | .inter left right => left.rangeCount + right.rangeCount
  | .minus left right => left.rangeCount + right.rangeCount
  | .complement set => set.rangeCount + 1
  | .folded _ set => 2 * set.rangeCount

/-- The set of one code point. -/
def single (code : Nat) : CharSet :=
  .range code code

/-- The union of several sets. -/
def unionAll (sets : List CharSet) : CharSet :=
  match sets with
  | [] => .none
  | first :: rest => rest.foldl .union first

/-- The members of exactly one of two sets. -/
def symmetricDifference (left right : CharSet) : CharSet :=
  .minus (.union left right) (.inter left right)

/-- The set of the tables of several properties. -/
def tables (tables : List Text.CodePoints) : CharSet :=
  unionAll (tables.map .table)

/-- The set of several ranges. -/
def ranges (ranges : List (Char × Char)) : CharSet :=
  unionAll (ranges.map fun (first, last) => .range first.toNat last.toNat)

/-- Every code point. -/
def all : CharSet :=
  .range 0 0x10ffff

/-- Code points that are alphabetic. -/
def alphabetic : CharSet :=
  tables
    [Text.uppercaseLetter, Text.lowercaseLetter, Text.titlecaseLetter,
      Text.modifierLetter, Text.otherLetter, Text.letterNumber,
      Text.otherAlphabetic]

/-- Code points of words: letters, marks, decimal digits, connectors, joiners. -/
def word : CharSet :=
  .union alphabetic <|
    tables
      [Text.nonspacingMark, Text.spacingMark, Text.enclosingMark,
        Text.decimalNumber, Text.connectorPunctuation, Text.joinControl]

/-- Whether no code point from 128 up to 255 is a member. -/
def isAsciiByteSet (set : CharSet) : Bool :=
  (List.range 128).all fun offset => !set.contains (128 + offset)

end CharSet

end SpanForest.Pattern
