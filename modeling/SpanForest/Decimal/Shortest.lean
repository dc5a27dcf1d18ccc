namespace SpanForest.Decimal

/-!
# The fewest digits that read back

A finite binary number `significand * 2 ^ exponent` is surrounded by the
interval of the reals that round to it. Among the decimals in that interval the
shortest is taken, and among the shortest the one nearest to the number; of two
that are equally near, the larger.
-/

/-- The decimal number `digits * 10 ^ exponent`. -/
structure ScaledDigits where
  digits : Nat
  exponent : Int
  deriving Repr, DecidableEq

/-- A positive binary number `significand * 2 ^ exponent`. -/
structure Binary where
  significand : Nat
  exponent : Int
  /-- Whether the next smaller number is only half as far as the next larger one. -/
  tightBelow : Bool
  deriving Repr, DecidableEq

/-- `base ^ exponent` for an exponent that is not negative, and one otherwise. -/
def powerUp (base : Nat) (exponent : Int) : Nat :=
  Nat.pow base exponent.toNat

/-- Quarter of the last place of a number, in units of `10 ^ scale`, over `denominator`. -/
def quarter (number : Binary) (scale : Int) : Nat :=
  powerUp 2 (number.exponent - 2) * powerUp 10 (-scale)

/-- The denominator shared by all quantities measured in units of `10 ^ scale`. -/
def denominator (number : Binary) (scale : Int) : Nat :=
  powerUp 2 (2 - number.exponent) * powerUp 10 scale

/-- Whether the number is below `10 ^ scale`. -/
def belowPower (number : Binary) (scale : Int) : Bool :=
  4 * number.significand * quarter number scale < denominator number scale

/-- The least `scale` with the number below `10 ^ scale`. -/
def magnitude (number : Binary) : Int :=
  let guess :=
    ((Nat.log2 number.significand : Int) + number.exponent) * 30103 / 100000
  if belowPower number guess then
    guess
  else if belowPower number (guess + 1) then
    guess + 1
  else
    guess + 2

/-- Whether `candidate * 10 ^ scale` rounds to the number. -/
def readsBack (number : Binary) (scale : Int) (candidate : Nat) : Bool :=
  let unit := quarter number scale
  let value := candidate * denominator number scale
  let low :=
    (4 * number.significand - if number.tightBelow then 1 else 2) * unit
  let high := (4 * number.significand + 2) * unit
  if number.significand % 2 = 0 then
    low ≤ value && value ≤ high
  else
    low < value && value < high

/-- The nearest multiple of `10 ^ scale` that rounds to the number, if one does. -/
def onGrid? (number : Binary) (scale : Int) : Option Nat :=
  let value := 4 * number.significand * quarter number scale
  let unit := denominator number scale
  let floor := value / unit
  match readsBack number scale floor, readsBack number scale (floor + 1) with
  | true, true =>
      some (if 2 * (value - floor * unit) < unit then floor else floor + 1)
  | true, false => some floor
  | false, true => some (floor + 1)
  | false, false => none

/-- Move trailing zeros of the digits into the exponent, at most `fuel` of them. -/
def withoutTrailingZeros : Nat → ScaledDigits → ScaledDigits
  | 0, decimal => decimal
  | fuel + 1, decimal =>
      if decimal.digits ≠ 0 ∧ decimal.digits % 10 = 0 then
        withoutTrailingZeros fuel
          ⟨decimal.digits / 10, decimal.exponent + 1⟩
      else
        decimal

/-- The shortest decimal that reads back as the number. -/
def shortest (number : Binary) : ScaledDigits :=
  let top := magnitude number
  let candidates :=
    (List.range 17).filterMap fun count =>
      let scale := top - (count + 1 : Nat)
      (onGrid? number scale).map (⟨·, scale⟩ : Nat → ScaledDigits)
  withoutTrailingZeros 20
    (candidates.headD ⟨number.significand, number.exponent⟩)

end SpanForest.Decimal
