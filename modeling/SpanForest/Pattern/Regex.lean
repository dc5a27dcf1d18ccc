import SpanForest.Pattern.CharSet

namespace SpanForest.Pattern

/-!
# Regular expressions and their matches

An expression relates the positions of a text at which a match may begin to
those at which it may end. Sets of positions are natural numbers whose bit `i`
stands for position `i`; position `i` lies in front of character `i`.
-/

/-- Conditions on a position that consume nothing. -/
inductive Assertion where
  | textStart
  | textEnd
  /-- Line starts; with `crlf` a line ends with `\r`, `\n` or both. -/
  | lineStart (crlf : Bool)
  | lineEnd (crlf : Bool)
  | wordBoundary (unicode : Bool)
  | notWordBoundary (unicode : Bool)
  | wordStart (unicode : Bool)
  | wordEnd (unicode : Bool)
  | wordStartHalf (unicode : Bool)
  | wordEndHalf (unicode : Bool)
  deriving Repr, DecidableEq

/-- A regular expression. -/
inductive Regex where
  | empty
  | chars (set : CharSet)
  | assertion (condition : Assertion)
  | sequence (first second : Regex)
  | choice (first second : Regex)
  /-- At least `least` and, if given, at most `most` repetitions. -/
  | repetition (body : Regex) (least : Nat) (most : Option Nat)
  deriving Repr, Inhabited

/-- Whether a character belongs to a word. -/
def isWordChar (unicode : Bool) (char : Char) : Bool :=
  if unicode && 0x80 ≤ char.toNat then
    Text.isWord char.toNat
  else
    char.isAlphanum || char == '_'

namespace Assertion

/-- Whether the condition holds between the two given neighbours. -/
def holds
    (condition : Assertion)
    (before after : Option Char) :
    Bool :=
  let wordBefore (unicode : Bool) := before.any (isWordChar unicode)
  let wordAfter (unicode : Bool) := after.any (isWordChar unicode)
  match condition with
  | .textStart => before.isNone
  | .textEnd => after.isNone
  | .lineStart false => before.all (· == '\n')
  | .lineStart true =>
      before.all fun char =>
        char == '\n' || (char == '\r' && after != some '\n')
  | .lineEnd false => after.all (· == '\n')
  | .lineEnd true =>
      after.all fun char =>
        char == '\r' || (char == '\n' && before != some '\r')
  | .wordBoundary unicode => wordBefore unicode != wordAfter unicode
  | .notWordBoundary unicode => wordBefore unicode == wordAfter unicode
  | .wordStart unicode => !wordBefore unicode && wordAfter unicode
  | .wordEnd unicode => wordBefore unicode && !wordAfter unicode
  | .wordStartHalf unicode => !wordBefore unicode
  | .wordEndHalf unicode => !wordAfter unicode

end Assertion

/-- The positions of `positions` that satisfy `keep`, below `bound`. -/
def filterPositions
    (bound positions : Nat)
    (keep : Nat → Bool) :
    Nat :=
  (List.range bound).foldl
    (fun kept position =>
      if positions.testBit position && keep position then
        kept ||| 1 <<< position
      else
        kept)
    0

/--
Everything reached from `frontier` by repeating `step`, at most `fuel` times.

Positions in `reached` are not stepped from again.
-/
def closePositions
    (step : Nat → Nat) :
    Nat →
    (reached frontier : Nat) →
    Nat
  | 0, reached, _ => reached
  | fuel + 1, reached, frontier =>
      let next := step frontier
      let fresh := next ^^^ (next &&& reached)
      if fresh = 0 then
        reached
      else
        closePositions step fuel (reached ||| fresh) fresh

/-- Apply `step` as often as said, stopping when no position is left. -/
def iteratePositions (step : Nat → Nat) : Nat → Nat → Nat
  | 0, positions => positions
  | count + 1, positions =>
      if positions = 0 then
        0
      else
        iteratePositions step count (step positions)

/-- Everything reached by at most the given number of steps. -/
def positionsWithin (step : Nat → Nat) : Nat → (reached last : Nat) → Nat
  | 0, reached, _ => reached
  | count + 1, reached, last =>
      let next := step last
      if next = 0 ∨ next = last then
        reached ||| next
      else
        positionsWithin step count (reached ||| next) next

namespace Regex

/-- The positions at which a match that begins in `positions` may end. -/
def ends (text : Array Char) : Regex → Nat → Nat
  | .empty, positions => positions
  | .chars set, positions =>
      filterPositions text.size positions
          (fun position =>
            match text[position]? with
            | some char => set.contains char.toNat
            | none => false) <<< 1
  | .assertion condition, positions =>
      filterPositions (text.size + 1) positions fun position =>
        condition.holds
          (if position = 0 then none else text[position - 1]?)
          text[position]?
  | .sequence first second, positions =>
      second.ends text (first.ends text positions)
  | .choice first second, positions =>
      first.ends text positions ||| second.ends text positions
  | .repetition body least most, positions =>
      let required := iteratePositions (body.ends text) least positions
      match most with
      | none =>
          closePositions (body.ends text) (text.size + 1) required required
      | some most =>
          positionsWithin (body.ends text) (most - least) required required

/-- Whether the expression matches some part of the text. -/
def matchesWithin (regex : Regex) (text : String) : Bool :=
  let chars := text.toList.toArray
  regex.ends chars ((1 <<< (chars.size + 1)) - 1) != 0

/--
Estimated memory of the expression as an automaton, in bytes.

Repetitions count as often as their body has to be written out.
-/
def cost : Regex → Nat
  | .empty => 32
  | .chars (.range first last) =>
      if first = last ∧ first < 0x80 then 32 else 128
  | .chars set => 64 + 60 * set.rangeCount
  | .assertion _ => 32
  | .sequence first second => first.cost + second.cost
  | .choice first second => 48 + first.cost + second.cost
  | .repetition body least most =>
      32 + body.cost * max 1 (most.getD least) + 32 * (most.getD least - least)

end Regex

end SpanForest.Pattern
