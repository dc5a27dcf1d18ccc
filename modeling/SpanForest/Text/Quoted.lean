import SpanForest.Text.Property

namespace SpanForest.Text

/-!
# Quoted text

A text is quoted between double quotes. Quotes and backslashes are escaped by a
backslash, four controls have a letter of their own, and a code point without a
visible form of its own is written by its hexadecimal number.
-/

/-- Lowercase hexadecimal digits of a number, without leading zeros. -/
def hexDigits (number : Nat) : List Char :=
  Nat.toDigits 16 number

/-- The escape `\u{…}` of a code point. -/
def numericEscape (char : Char) : List Char :=
  ['\\', 'u', '\x7b'] ++ hexDigits char.toNat ++ ['\x7d']

/-- Whether a character shows as itself between quotes. -/
def showsItself (char : Char) : Bool :=
  if char.toNat < 0x7f then
    0x20 ≤ char.toNat
  else
    !extendsGrapheme char.toNat && isPrintable char.toNat

/-- One character as it is written between quotes. -/
def quotedChar (char : Char) : List Char :=
  match char with
  | '\x00' => ['\\', '0']
  | '\t' => ['\\', 't']
  | '\r' => ['\\', 'r']
  | '\n' => ['\\', 'n']
  | '\\' => ['\\', '\\']
  | '"' => ['\\', '"']
  | _ => if showsItself char then [char] else numericEscape char

/-- A text between double quotes. -/
def quoted (text : String) : String :=
  "\"" ++ String.ofList (text.toList.flatMap quotedChar) ++ "\""

end SpanForest.Text
