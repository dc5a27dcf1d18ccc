import SpanForest.Pattern.Bracket

namespace SpanForest.Pattern

/-!
# Reading a pattern

A pattern is read from left to right with a stack of open groups. Whatever the
syntax has no meaning for refuses the whole pattern: look-around, references to
groups, operators without an operand, unbalanced groups, counts out of order,
groups that share a name, nesting that is too deep and expressions whose
automaton would be too large.
-/

/-- An element of a sequence and the depth to which its parts are nested. -/
structure Item where
  regex : Regex
  height : Nat
  /-- A change of flags is an element that cannot be repeated. -/
  isDirective : Bool
  deriving Inhabited

/-- A group whose closing parenthesis was not read yet. -/
structure OpenGroup where
  /-- The flags in force outside. -/
  outside : Flags
  /-- Finished alternatives, the newest first. -/
  alternatives : List Item
  /-- Elements of the current alternative, the newest first. -/
  elements : List Item
  deriving Inhabited

/-- The greatest height among items. -/
def maxHeight (items : List Item) : Nat :=
  (items.map (·.height)).foldl max 0

/-- The sequence of items, the newest of which comes first. -/
def sequenceOf : List Item → Item
  | [] => ⟨.empty, 0, false⟩
  | [item] => item
  | last :: others =>
      ⟨others.foldl (fun regex item => .sequence item.regex regex) last.regex,
        1 + maxHeight (last :: others), false⟩

/-- The choice between items, the newest of which comes first. -/
def choiceOf : List Item → Item
  | [] => ⟨.empty, 0, false⟩
  | [item] => item
  | last :: others =>
      ⟨others.foldl (fun regex item => .choice item.regex regex) last.regex,
        1 + maxHeight (last :: others), false⟩

namespace OpenGroup

/-- A group without elements. -/
def start (outside : Flags) : OpenGroup :=
  ⟨outside, [], []⟩

/-- Add an element to the current alternative. -/
def add (group : OpenGroup) (item : Item) : OpenGroup :=
  { group with elements := item :: group.elements }

/-- Finish the current alternative and start another. -/
def branch (group : OpenGroup) : OpenGroup :=
  { group with
    alternatives := sequenceOf group.elements :: group.alternatives
    elements := [] }

/-- Everything in the group as one item. -/
def contents (group : OpenGroup) : Item :=
  choiceOf (sequenceOf group.elements :: group.alternatives)

/-- Repeat the last element; none if there is nothing to repeat. -/
def repeatLast?
    (group : OpenGroup)
    (least : Nat)
    (most : Option Nat) :
    Option OpenGroup :=
  match group.elements with
  | [] => none
  | last :: others =>
      if last.isDirective then
        none
      else
        some
          { group with
            elements :=
              ⟨.repetition last.regex least most, last.height + 1, false⟩ ::
                others }

end OpenGroup

/-- What stands behind an opening parenthesis. -/
inductive GroupHead where
  | group (inside : Flags)
  | directive (flags : Flags)
  deriving Repr, Inhabited

/--
Flags up to a colon or a closing parenthesis.

No letter may come twice, a hyphen at most once and not in last place.
-/
def readFlags?
    (flags : Flags)
    (negated dangling : Bool)
    (seen : List Char) :
    List Char →
    Option (GroupHead × List Char)
  | [] => none
  | ':' :: rest => if dangling then none else some (.group flags, rest)
  | ')' :: rest =>
      if dangling || seen.isEmpty then none else some (.directive flags, rest)
  | '-' :: rest =>
      if negated then
        none
      else
        readFlags? flags true true ('-' :: seen) rest
  | letter :: rest =>
      if seen.contains letter then
        none
      else
        match flags.set? letter (!negated) with
        | some changed => readFlags? changed negated false (letter :: seen) rest
        | none => none

/-- Whether a character may stand in the name of a group. -/
def isGroupNameChar (first : Bool) (char : Char) : Bool :=
  let code := char.toNat
  char == '_' || Text.isAlphabetic code ||
    (!first && (Text.isNumeric code || ['.', '[', ']'].contains char))

/-- The name of a group, up to the closing angle bracket. -/
def readGroupName?
    (names : List String)
    (chars : List Char) :
    Option (String × List Char) :=
  let name := chars.takeWhile (· != '>')
  match name, chars.dropWhile (· != '>') with
  | first :: others, _ :: rest =>
      let text := String.ofList name
      if isGroupNameChar true first && others.all (isGroupNameChar false) &&
          !names.contains text then
        some (text, rest)
      else
        none
  | _, _ => none

/-- The head of a group, the name it introduces and what follows. -/
def readGroupHead?
    (flags : Flags)
    (names : List String)
    (chars : List Char) :
    Option (GroupHead × List String × List Char) :=
  let named (body : List Char) :=
    (readGroupName? names body).map fun (name, rest) =>
      (GroupHead.group flags, name :: names, rest)
  match flags.skip chars with
  | '?' :: '=' :: _ | '?' :: '!' :: _ => none
  | '?' :: '<' :: '=' :: _ | '?' :: '<' :: '!' :: _ => none
  | '?' :: 'P' :: '<' :: rest => named rest
  | '?' :: '<' :: rest => named rest
  | '?' :: rest =>
      (readFlags? flags false false [] rest).map fun (head, after) =>
        (head, names, after)
  | rest => some (.group flags, names, rest)

/-- A count between braces, with blanks around it. -/
def readCount?
    (flags : Flags)
    (chars : List Char) :
    Option (Nat × List Char) :=
  let isBlank (char : Char) := Text.whiteSpace.contains char.toNat
  let body := chars.dropWhile isBlank
  let (digits, rest) := takeRun flags Char.isDigit body.length body
  let count :=
    digits.foldl (fun value digit => 10 * value + (digit.toNat - 48)) 0
  if digits.isEmpty || 1 <<< 32 ≤ count then
    none
  else
    some (count, (takeRun flags isBlank rest.length rest).2)

/-- Least and greatest count of a repetition, up to the closing brace. -/
def readCounts?
    (flags : Flags)
    (chars : List Char) :
    Option (Nat × Option Nat × List Char) := do
  let (least, afterLeast) ← readCount? flags (flags.skip chars)
  match afterLeast with
  | '\x7d' :: rest => some (least, some least, rest)
  | ',' :: rest =>
      match flags.skip rest with
      | '\x7d' :: after => some (least, none, after)
      | body =>
          let (most, afterMost) ← readCount? flags body
          match afterMost with
          | '\x7d' :: after =>
              if least ≤ most then some (least, some most, after) else none
          | _ => none
  | _ => none

/-- A question mark behind a repetition changes which match is preferred only. -/
def dropLazyMark : List Char → List Char
  | '?' :: rest => rest
  | rest => rest

/-- A literal character; a character that is not ASCII needs no Unicode. -/
def literalItem (flags : Flags) (char : Char) : Item :=
  ⟨.chars (flags.fold (.single char.toNat)), 0, false⟩

/-- The characters that a dot matches; without Unicode there is no such class. -/
def dotItem? (flags : Flags) : Option Item :=
  let excluded : CharSet :=
    if flags.dotAll then
      .none
    else if flags.crlf then
      .ranges [('\n', '\n'), ('\r', '\r')]
    else
      .single '\n'.toNat
  if flags.unicode then
    some ⟨.chars (.complement excluded), 0, false⟩
  else
    none

/-- The start of the text, or of a line. -/
def startItem (flags : Flags) : Item :=
  let condition :=
    if flags.multiLine then Assertion.lineStart flags.crlf else .textStart
  ⟨.assertion condition, 0, false⟩

/-- The end of the text, or of a line. -/
def endItem (flags : Flags) : Item :=
  let condition :=
    if flags.multiLine then Assertion.lineEnd flags.crlf else .textEnd
  ⟨.assertion condition, 0, false⟩

/-- An escape as an element. -/
def escapeItem (flags : Flags) : Escape → Item
  | .literal char => literalItem flags char
  | .set members => ⟨.chars members, 0, false⟩
  | .assertion condition => ⟨.assertion condition, 0, false⟩

/--
Read the elements of the innermost open group and all that follows.

Each round consumes a character, so `fuel` need not exceed their number.
-/
def readElements? :
    Nat →
    (flags : Flags) →
    (names : List String) →
    (current : OpenGroup) →
    (outer : List OpenGroup) →
    List Char →
    Option Item
  | 0, _, _, _, _, _ => none
  | fuel + 1, flags, names, current, outer, chars =>
      let repeated (least : Nat) (most : Option Nat) (rest : List Char) := do
        let group ← current.repeatLast? least most
        readElements? fuel flags names group outer (dropLazyMark rest)
      let added (item : Item) (rest : List Char) :=
        readElements? fuel flags names (current.add item) outer rest
      match flags.skip chars with
      | [] => if outer.isEmpty then some current.contents else none
      | '(' :: rest => do
          let (head, known, after) ← readGroupHead? flags names rest
          match head with
          | .directive changed =>
              readElements? fuel changed known
                (current.add ⟨.empty, 0, true⟩) outer after
          | .group inside =>
              readElements? fuel inside known (.start flags)
                (current :: outer) after
      | ')' :: rest =>
          match outer with
          | [] => none
          | parent :: others =>
              let inner := current.contents
              let item : Item := ⟨inner.regex, inner.height + 1, false⟩
              readElements? fuel current.outside names (parent.add item)
                others rest
      | '|' :: rest =>
          readElements? fuel flags names current.branch outer rest
      | '[' :: rest => do
          let (part, after) ← readBracket? flags rest
          added ⟨.chars part.set, part.height, false⟩ after
      | '?' :: rest => repeated 0 (some 1) rest
      | '*' :: rest => repeated 0 none rest
      | '+' :: rest => repeated 1 none rest
      | '\x7b' :: rest => do
          let (least, most, after) ← readCounts? flags rest
          repeated least most (flags.skip after)
      | '\\' :: rest => do
          let (escape, after) ← readEscape? flags rest
          added (escapeItem flags escape) after
      | '.' :: rest => do
          added (← dotItem? flags) rest
      | '^' :: rest => added (startItem flags) rest
      | '$' :: rest => added (endItem flags) rest
      | char :: rest => added (literalItem flags char) rest

/-- The greatest depth of nesting. -/
def maxNesting : Nat := 250

/-- The greatest estimated size of an automaton, in bytes. -/
def maxCost : Nat := 10 * (1 <<< 20)

/-- Read a pattern; none if it is refused. -/
def Regex.ofPattern? (pattern : String) : Option Regex := do
  let chars := pattern.toList
  let item ← readElements? (chars.length + 1) {} [] (.start {}) [] chars
  if item.height ≤ maxNesting ∧ item.regex.cost ≤ maxCost then
    some item.regex
  else
    none

end SpanForest.Pattern
