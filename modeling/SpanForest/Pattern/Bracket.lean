import SpanForest.Pattern.Escape

namespace SpanForest.Pattern

/-!
# Bracketed classes

Between brackets stand characters, ranges, classes and nested brackets, whose
union is taken; `&&`, `--` and `~~` combine what stands to their left with what
follows them, from left to right. Open brackets are kept on a stack.
-/

/-- Operations between the parts of a bracket. -/
inductive SetOperator where
  | intersection
  | difference
  | symmetricDifference
  deriving Repr, DecidableEq

/-- A set and the depth to which its parts are nested. -/
structure ClassPart where
  set : CharSet
  height : Nat
  deriving Repr, Inhabited

/-- An open bracket. -/
structure OpenBracket where
  negated : Bool
  /-- The left operand of an operator whose right operand is being read. -/
  pending : Option (ClassPart × SetOperator)
  /-- The parts of the current operand, the newest first. -/
  parts : List ClassPart
  deriving Inhabited

/-- The union of parts, the newest of which comes first. -/
def unionOfParts : List ClassPart → ClassPart
  | [] => ⟨.none, 0⟩
  | [part] => part
  | parts =>
      ⟨.unionAll (parts.reverse.map (·.set)),
        1 + (parts.map (·.height)).foldl max 0⟩

/-- Combine two operands; case variants are added to each of them first. -/
def SetOperator.apply
    (flags : Flags)
    (operator : SetOperator)
    (left right : ClassPart) :
    ClassPart :=
  let first := flags.fold left.set
  let second := flags.fold right.set
  let set :=
    match operator with
    | .intersection => .inter first second
    | .difference => .minus first second
    | .symmetricDifference => .symmetricDifference first second
  ⟨set, 1 + max left.height right.height⟩

namespace OpenBracket

/-- Add a part to the current operand. -/
def add (bracket : OpenBracket) (part : ClassPart) : OpenBracket :=
  { bracket with parts := part :: bracket.parts }

/-- Everything read so far as one operand. -/
def operand (flags : Flags) (bracket : OpenBracket) : ClassPart :=
  let current := unionOfParts bracket.parts
  match bracket.pending with
  | none => current
  | some (left, operator) => operator.apply flags left current

/-- Make everything read so far the left operand of an operator. -/
def operate
    (flags : Flags)
    (bracket : OpenBracket)
    (operator : SetOperator) :
    OpenBracket :=
  { bracket with
    pending := some (bracket.operand flags, operator)
    parts := [] }

/-- The class of a bracket that is closed now. -/
def close? (flags : Flags) (bracket : OpenBracket) : Option ClassPart :=
  let operand := bracket.operand flags
  (flags.classOf? bracket.negated operand.set).map
    fun set => ⟨set, 1 + operand.height⟩

end OpenBracket

/-- Hyphens at the start of a bracket, which stand for themselves. -/
def leadingHyphens
    (flags : Flags)
    (chars : List Char) :
    Nat × List Char :=
  let (hyphens, rest) :=
    takeRun flags (· == '-') chars.length chars
  (hyphens.length, rest)

/-- What follows an opening bracket, up to its first ordinary part. -/
def openBracket?
    (flags : Flags)
    (chars : List Char) :
    Option (OpenBracket × List Char) :=
  let start := flags.skip chars
  let (negated, body) :=
    match start with
    | '^' :: rest => (true, flags.skip rest)
    | _ => (false, start)
  let (hyphens, rest) := leadingHyphens flags body
  let hyphen : ClassPart := ⟨.single '-'.toNat, 0⟩
  let bracket : OpenBracket := ⟨negated, none, List.replicate hyphens hyphen⟩
  match rest with
  | [] => none
  | ']' :: after =>
      if hyphens = 0 then
        some (bracket.add ⟨.single ']'.toNat, 0⟩, flags.skip after)
      else
        some (bracket, rest)
  | _ => some (bracket, rest)

/-- An ASCII class such as `[:alpha:]`, whose first bracket was read. -/
def readAsciiClass?
    (flags : Flags)
    (chars : List Char) :
    Option (Option CharSet × List Char) :=
  match chars with
  | ':' :: rest =>
      let (negated, body) :=
        match rest with
        | '^' :: after => (true, after)
        | _ => (false, rest)
      let name := body.takeWhile (· != ':')
      match body.dropWhile (· != ':') with
      | ':' :: ']' :: after =>
          (findAscii? (String.ofList name)).map fun set =>
            (flags.classOf? negated set, after)
      | _ => none
  | _ => none

/-- One end of a range: a literal character, or a class that allows no range. -/
inductive RangeEnd where
  | char (value : Char)
  | set (members : CharSet)
  deriving Inhabited

/-- A character or class between brackets. -/
def readRangeEnd?
    (flags : Flags)
    (chars : List Char) :
    Option (RangeEnd × List Char) :=
  let checked (char : Char) (rest : List Char) :=
    if flags.unicode || char.toNat < 0x80 then
      some (RangeEnd.char char, rest)
    else
      none
  match chars with
  | [] => none
  | '\\' :: rest =>
      match readEscape? flags rest with
      | some (.literal char, after) => checked char after
      | some (.set members, after) => some (.set members, after)
      | _ => none
  | char :: rest => checked char rest

/-- A character, a class or a range between brackets. -/
def readClassPart?
    (flags : Flags)
    (chars : List Char) :
    Option (ClassPart × List Char) := do
  let (first, afterFirst) ← readRangeEnd? flags chars
  let alone : ClassPart :=
    match first with
    | .char value => ⟨.single value.toNat, 0⟩
    | .set members => ⟨members, 0⟩
  match flags.skip afterFirst with
  | [] => none
  | '-' :: rest =>
      match flags.skip rest with
      | ']' :: _ | '-' :: _ => some (alone, '-' :: rest)
      | body =>
          let (second, afterSecond) ← readRangeEnd? flags body
          match first, second with
          | .char low, .char high =>
              if low ≤ high then
                some (⟨.range low.toNat high.toNat, 0⟩, afterSecond)
              else
                none
          | _, _ => none
  | rest => some (alone, rest)

/--
Read up to the bracket that closes the outermost open one.

Each round consumes a character, so `fuel` need not exceed their number.
-/
def readBracketBody?
    (flags : Flags) :
    Nat →
    (current : OpenBracket) →
    (outer : List OpenBracket) →
    List Char →
    Option (ClassPart × List Char)
  | 0, _, _, _ => none
  | fuel + 1, current, outer, chars =>
      match flags.skip chars with
      | [] => none
      | '[' :: rest =>
          match readAsciiClass? flags rest with
          | some (none, _) => none
          | some (some set, after) =>
              readBracketBody? flags fuel (current.add ⟨set, 0⟩) outer after
          | none => do
              let (inner, body) ← openBracket? flags rest
              readBracketBody? flags fuel inner (current :: outer) body
      | ']' :: rest => do
          let closed ← current.close? flags
          match outer with
          | [] => some (closed, rest)
          | parent :: others =>
              readBracketBody? flags fuel (parent.add closed) others rest
      | '&' :: '&' :: rest =>
          readBracketBody? flags fuel (current.operate flags .intersection)
            outer rest
      | '-' :: '-' :: rest =>
          readBracketBody? flags fuel (current.operate flags .difference)
            outer rest
      | '~' :: '~' :: rest =>
          readBracketBody? flags fuel
            (current.operate flags .symmetricDifference) outer rest
      | body => do
          let (part, after) ← readClassPart? flags body
          readBracketBody? flags fuel (current.add part) outer after

/-- The class whose opening bracket was just read. -/
def readBracket?
    (flags : Flags)
    (chars : List Char) :
    Option (ClassPart × List Char) := do
  let (bracket, body) ← openBracket? flags chars
  readBracketBody? flags (chars.length + 1) bracket [] body

end SpanForest.Pattern
