import SpanForest.Decimal.Shortest

namespace SpanForest.Decimal

/-!
# Text of a floating point number

Numbers from `1e-4` up to `1e16` are written positionally with at least one
digit after the point, all others with an exponent. The digits are the fewest
that read back.
-/

/-- What a 64-bit pattern stands for. -/
inductive FloatKind where
  | notANumber
  | infinite (negative : Bool)
  | zero (negative : Bool)
  | finite (negative : Bool) (number : Binary)
  deriving Repr, DecidableEq

/-- Read a 64-bit pattern: sign, eleven exponent bits, fifty-two fraction bits. -/
def FloatKind.ofBits (bits : Nat) : FloatKind :=
  let negative : Bool := 1 <<< 63 ≤ bits
  let biased : Nat := (bits >>> 52) % (1 <<< 11)
  let fraction : Nat := bits % (1 <<< 52)
  if biased = 2047 then
    if fraction = 0 then .infinite negative else .notANumber
  else if biased = 0 then
    if fraction = 0 then
      .zero negative
    else
      .finite negative ⟨fraction, -1074, false⟩
  else
    .finite negative
      ⟨(1 <<< 52) + fraction, (biased : Int) - 1075, fraction == 0 && 1 < biased⟩

/-- Digits with a point in front of the last `places` of them. -/
def withPoint (digits : List Char) (places : Nat) : List Char :=
  let padded := List.replicate (places + 1 - digits.length) '0' ++ digits
  padded.take (padded.length - places) ++ ['.'] ++
    padded.drop (padded.length - places)

/-- Positional form with at least one digit after the point. -/
def positional (decimal : ScaledDigits) : List Char :=
  let digits := Nat.toDigits 10 decimal.digits
  if 0 ≤ decimal.exponent then
    digits ++ List.replicate decimal.exponent.toNat '0' ++ ['.', '0']
  else
    withPoint digits (-decimal.exponent).toNat

/-- Form with one digit in front of the point and an exponent. -/
def scientific (decimal : ScaledDigits) : List Char :=
  let digits := Nat.toDigits 10 decimal.digits
  let power := decimal.exponent + (digits.length - 1 : Nat)
  let mantissa :=
    match digits with
    | [] => []
    | [digit] => [digit]
    | digit :: rest => digit :: '.' :: rest
  mantissa ++ ['e'] ++ (toString power).toList

/-- The text of a shortest decimal, positional when its leading digit allows it. -/
def decimalText (decimal : ScaledDigits) : List Char :=
  let digits := Nat.toDigits 10 decimal.digits
  let power := decimal.exponent + (digits.length - 1 : Nat)
  if -4 ≤ power ∧ power < 16 then
    positional decimal
  else
    scientific decimal

/-- A minus sign for negative numbers. -/
def signed (negative : Bool) (text : List Char) : List Char :=
  if negative then '-' :: text else text

/-- The text of a floating point number. -/
def floatText (value : Float) : String :=
  String.ofList <|
    match FloatKind.ofBits value.toBits.toNat with
    | .notANumber => "NaN".toList
    | .infinite negative => signed negative "inf".toList
    | .zero negative => signed negative "0.0".toList
    | .finite negative number =>
        signed negative (decimalText (shortest number))

end SpanForest.Decimal
