import SpanForest.Text.CaseMapping
import SpanForest.Text.Property

namespace SpanForest.Text

/-!
# Lower casing

Each character is mapped on its own, with two exceptions: the capital `İ`
becomes an `i` with a combining dot, and a capital sigma becomes a final sigma
at the end of a word.
-/

/-- Whether the first character that is not skipped has a case. -/
def casedNext (chars : List Char) : Bool :=
  match chars.dropWhile (caseIgnorable.contains ·.toNat) with
  | [] => false
  | char :: _ => isCased char.toNat

/--
Lower case of one character.

The characters in front of it, nearest first, and the characters after it
decide the form of a sigma.
-/
def lowercaseChar
    (before : List Char)
    (char : Char)
    (after : List Char) :
    List Char :=
  if char.toNat < 0x80 then
    [char.toLower]
  else if char = 'Σ' then
    [if casedNext before && !casedNext after then 'ς' else 'σ']
  else if char = 'İ' then
    ['i', '\u0307']
  else
    [Char.ofNat (mapCase lowercaseRuns char.toNat)]

/-- Lower case of a list of characters that follows `before`, nearest first. -/
def lowercaseFrom (before : List Char) : List Char → List Char
  | [] => []
  | char :: rest =>
      lowercaseChar before char rest ++ lowercaseFrom (char :: before) rest

/-- The text in lower case. -/
def lowercase (text : String) : String :=
  String.ofList (lowercaseFrom [] text.toList)

end SpanForest.Text
