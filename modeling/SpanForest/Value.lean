import SpanForest.Text.Quoted

namespace SpanForest

/-!
# Feature values

A feature holds a truth value, a number or a text. Values of different kinds
are never equal and have no order.
-/

/-- Value of a feature. -/
inductive Value where
  | bool (value : Bool)
  | int (value : Int)
  | text (value : String)
  deriving Repr, DecidableEq, Inhabited, Hashable

namespace Value

/--
Order two values of one kind.

False comes before true, and texts are ordered by their code points.
-/
def compare? : Value → Value → Option Ordering
  | .bool left, .bool right => some (compare left right)
  | .int left, .int right => some (compare left right)
  | .text left, .text right => some (compare left right)
  | _, _ => none

/-- The text held by the value, if it holds one. -/
def text? : Value → Option String
  | .text value => some value
  | _ => none

/-- The number of an offset: 64-bit offsets from `2 ^ 63` on count as negative. -/
def ofOffset (offset : Nat) : Value :=
  .int (Int.bmod offset (1 <<< 64))

/-- The value as it is shown: texts are quoted. -/
def render : Value → String
  | .bool value => toString value
  | .int value => toString value
  | .text value => Text.quoted value

end Value

end SpanForest
