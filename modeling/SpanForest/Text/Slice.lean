namespace SpanForest.Text

/-!
# Cutting a text by byte offsets

Offsets count the bytes of the UTF-8 encoding. A cut exists only where a
character begins or the text ends.
-/

/-- The characters after the first `count` bytes, if these are whole characters. -/
def dropBytes? : List Char → Nat → Option (List Char)
  | chars, 0 => some chars
  | [], _ + 1 => none
  | char :: rest, count + 1 =>
      if char.utf8Size ≤ count + 1 then
        dropBytes? rest (count + 1 - char.utf8Size)
      else
        none

/-- The characters of the first `count` bytes, if these are whole characters. -/
def takeBytes? : List Char → Nat → Option (List Char)
  | _, 0 => some []
  | [], _ + 1 => none
  | char :: rest, count + 1 =>
      if char.utf8Size ≤ count + 1 then
        (takeBytes? rest (count + 1 - char.utf8Size)).map (char :: ·)
      else
        none

/-- The part of a text from byte `start` up to byte `stop`. -/
def slice? (text : String) (start stop : Nat) : Option String :=
  if start ≤ stop then do
    let rest ← dropBytes? text.toList start
    let part ← takeBytes? rest (stop - start)
    return String.ofList part
  else
    none

/-- Whether the characters of `part` occur in a row. -/
def occursIn (part : List Char) : List Char → Bool
  | [] => part.isEmpty
  | char :: rest =>
      part.isPrefixOf (char :: rest) || occursIn part rest

end SpanForest.Text
