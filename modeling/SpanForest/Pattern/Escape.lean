import SpanForest.Pattern.Property
import SpanForest.Pattern.Regex

namespace SpanForest.Pattern

/-!
# Flags and escapes

Flags in force decide how the characters of a pattern are read. An escape is a
backslash and what it governs: a literal character, a class or an assertion.
-/

/-- Switches that a pattern can turn on and off for the rest of a group. -/
structure Flags where
  ignoreCase : Bool := false
  multiLine : Bool := false
  dotAll : Bool := false
  crlf : Bool := false
  swapGreed : Bool := false
  unicode : Bool := true
  /-- Blanks and comments in the pattern are skipped. -/
  verbose : Bool := false
  deriving Repr, DecidableEq, Inhabited

/-- Drop leading blanks and comments; a comment reaches to the end of its line. -/
def skipBlanks (inComment : Bool) : List Char → List Char
  | [] => []
  | char :: rest =>
      if inComment then
        skipBlanks (char != '\n') rest
      else if Text.whiteSpace.contains char.toNat then
        skipBlanks false rest
      else if char = '#' then
        skipBlanks true rest
      else
        char :: rest

namespace Flags

/-- Drop what may be skipped in front of the next character. -/
def skip (flags : Flags) (chars : List Char) : List Char :=
  if flags.verbose then skipBlanks false chars else chars

/-- Turn one flag on or off; none if the letter names no flag. -/
def set? (flags : Flags) (letter : Char) (value : Bool) : Option Flags :=
  match letter with
  | 'i' => some { flags with ignoreCase := value }
  | 'm' => some { flags with multiLine := value }
  | 's' => some { flags with dotAll := value }
  | 'R' => some { flags with crlf := value }
  | 'U' => some { flags with swapGreed := value }
  | 'u' => some { flags with unicode := value }
  | 'x' => some { flags with verbose := value }
  | _ => none

/-- The rule by which characters differ in case only. -/
def caseRule (flags : Flags) : CaseRule :=
  if flags.unicode then .unicode else .ascii

/-- The set with all case variants of its members, if case is ignored. -/
def fold (flags : Flags) (set : CharSet) : CharSet :=
  if flags.ignoreCase then .folded flags.caseRule set else set

/--
A class as it is matched: case variants are added before it is negated.

Without Unicode a class that holds anything but ASCII is refused.
-/
def classOf?
    (flags : Flags)
    (negated : Bool)
    (set : CharSet) :
    Option CharSet :=
  let result :=
    if negated then .complement (flags.fold set) else flags.fold set
  if flags.unicode || result.isAsciiByteSet then some result else none

end Flags

/--
The longest run of characters that satisfy `keep`, and what follows it.

Skippable characters after each one are dropped; `fuel` bounds the run.
-/
def takeRun
    (flags : Flags)
    (keep : Char → Bool) :
    Nat →
    List Char →
    List Char × List Char
  | 0, chars => ([], chars)
  | _, [] => ([], [])
  | fuel + 1, char :: rest =>
      if keep char then
        let (run, remaining) := takeRun flags keep fuel (flags.skip rest)
        (char :: run, remaining)
      else
        ([], char :: rest)

/-- What an escape stands for. -/
inductive Escape where
  | literal (char : Char)
  | set (members : CharSet)
  | assertion (condition : Assertion)
  deriving Repr, Inhabited

/-- The character with a given code point; surrogates have none. -/
def charOfCode? (code : Nat) : Option Char :=
  if code.isValidChar then some (Char.ofNat code) else none

/-- Exactly `count` hexadecimal digits. -/
def takeHexDigits? (flags : Flags) : Nat → List Char → Option (List Char × List Char)
  | 0, chars => some ([], chars)
  | count + 1, chars =>
      match flags.skip chars with
      | [] => none
      | digit :: rest =>
          if Text.isHexDigit digit then
            (takeHexDigits? flags count rest).map fun (digits, remaining) =>
              (digit :: digits, remaining)
          else
            none

/--
A code point by number: `count` digits, or any number of them between braces.

Without Unicode a two-digit number beyond ASCII would be a lone byte, which no
text holds.
-/
def readHex?
    (flags : Flags)
    (count : Nat)
    (chars : List Char) :
    Option (Char × List Char) :=
  match flags.skip chars with
  | '\x7b' :: rest =>
      let (digits, remaining) :=
        takeRun flags Text.isHexDigit rest.length (flags.skip rest)
      match remaining with
      | '\x7d' :: after =>
          if digits.isEmpty then
            none
          else
            (charOfCode? (Text.hexValue (String.ofList digits))).map (·, after)
      | _ => none
  | digits => do
      let (digits, after) ← takeHexDigits? flags count digits
      let char ← charOfCode? (Text.hexValue (String.ofList digits))
      if !flags.unicode && count == 2 && 0x80 ≤ char.toNat then
        none
      else
        some (char, after)

/-- A class by property: one letter, or a name between braces. -/
def readProperty?
    (flags : Flags)
    (negated : Bool)
    (chars : List Char) :
    Option (CharSet × List Char) := do
  let (set, after) ←
    match flags.skip chars with
    | [] => none
    | '\x7b' :: rest =>
        let (name, remaining) :=
          takeRun flags (· != '\x7d') rest.length (flags.skip rest)
        match remaining with
        | _ :: after => (findClass? name).map (·, after)
        | [] => none
    | '\\' :: _ => none
    | letter :: after => (findByName? (looseName [letter])).map (·, after)
  if flags.unicode then
    (flags.classOf? negated set).map (·, after)
  else
    none

/-- The assertion named between the braces of `\b{…}`. -/
def namedBoundary? (unicode : Bool) (name : String) : Option Assertion :=
  match name with
  | "start" => some (.wordStart unicode)
  | "end" => some (.wordEnd unicode)
  | "start-half" => some (.wordStartHalf unicode)
  | "end-half" => some (.wordEndHalf unicode)
  | _ => none

/-- Whether a character may occur in the name of a boundary. -/
def isBoundaryNameChar (char : Char) : Bool :=
  char.isAlpha || char == '-'

/--
What follows `\b`: a plain boundary, or one named between braces.

Braces that do not start with a letter are left for a repetition count.
-/
def readBoundary?
    (flags : Flags)
    (chars : List Char) :
    Option (Assertion × List Char) :=
  match chars with
  | '\x7b' :: rest =>
      match flags.skip rest with
      | [] => none
      | first :: _ =>
          if isBoundaryNameChar first then
            let (name, remaining) :=
              takeRun flags isBoundaryNameChar rest.length (flags.skip rest)
            match remaining with
            | '\x7d' :: after =>
                (namedBoundary? flags.unicode (String.ofList name)).map
                  (·, after)
            | _ => none
          else
            some (.wordBoundary flags.unicode, chars)
  | _ => some (.wordBoundary flags.unicode, chars)

/-- Whether a backslash makes the character a literal one. -/
def isEscapable (char : Char) : Bool :=
  char.toNat < 0x80 && !char.isAlphanum && char != '<' && char != '>'

/-- The escape that follows a backslash. -/
def readEscape? (flags : Flags) : List Char → Option (Escape × List Char)
  | [] => none
  | letter :: rest =>
      let literal (char : Char) : Option (Escape × List Char) :=
        some (.literal char, rest)
      let assertion (condition : Assertion) : Option (Escape × List Char) :=
        some (.assertion condition, rest)
      let shorthand (negated : Bool) : Option (Escape × List Char) := do
        let set ← findShorthand? flags.unicode letter.toLower
        let caseless := { flags with ignoreCase := false }
        (caseless.classOf? negated set).map (.set ·, rest)
      let hex (count : Nat) : Option (Escape × List Char) :=
        (readHex? flags count rest).map fun (char, after) =>
          (.literal char, after)
      let property (negated : Bool) : Option (Escape × List Char) :=
        (readProperty? flags negated rest).map fun (set, after) =>
          (.set set, after)
      match letter with
      | 'x' => hex 2
      | 'u' => hex 4
      | 'U' => hex 8
      | 'p' => property false
      | 'P' => property true
      | 'd' | 's' | 'w' => shorthand false
      | 'D' | 'S' | 'W' => shorthand true
      | 'a' => literal '\x07'
      | 'f' => literal '\x0c'
      | 't' => literal '\t'
      | 'n' => literal '\n'
      | 'r' => literal '\r'
      | 'v' => literal '\x0b'
      | 'A' => assertion .textStart
      | 'z' => assertion .textEnd
      | 'B' => assertion (.notWordBoundary flags.unicode)
      | '<' => assertion (.wordStart flags.unicode)
      | '>' => assertion (.wordEnd flags.unicode)
      | 'b' =>
          (readBoundary? flags rest).map fun (condition, after) =>
            (.assertion condition, after)
      | _ => if isEscapable letter then literal letter else none

end SpanForest.Pattern
