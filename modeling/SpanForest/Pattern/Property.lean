import SpanForest.Pattern.CharSet
import SpanForest.Text.Script

namespace SpanForest.Pattern

/-!
# Classes by name

Classes of the Unicode standard are looked up by loosely matched names: case,
blanks, hyphens, underscores and a leading `is` make no difference. The ASCII
classes between `[:` and `:]` have fixed names.
-/

/-- A name without the parts that loose matching ignores. -/
def looseName (name : List Char) : String :=
  let lowered := name.map Char.toLower
  let significant (chars : List Char) :=
    chars.filter fun char =>
      char.toNat < 0x80 && char != ' ' && char != '_' && char != '-'
  match lowered with
  | 'i' :: 's' :: rest =>
      let remaining := significant rest
      String.ofList (if remaining = ['c'] then ['i', 's', 'c'] else remaining)
  | _ => String.ofList (significant lowered)

/-- General categories that are unions of others. -/
def categoryGroups : List (List String × CharSet) :=
  let letters :=
    [Text.uppercaseLetter, Text.lowercaseLetter, Text.titlecaseLetter]
  let assigned := CharSet.tables (Text.categories.map fun entry => entry.2.2)
  [(["l", "letter"],
      .tables (letters ++ [Text.modifierLetter, Text.otherLetter])),
    (["lc", "casedletter"], .tables letters),
    (["m", "mark", "combiningmark"],
      .tables [Text.nonspacingMark, Text.spacingMark, Text.enclosingMark]),
    (["n", "number"],
      .tables [Text.decimalNumber, Text.letterNumber, Text.otherNumber]),
    (["p", "punctuation", "punct"],
      .tables
        [Text.connectorPunctuation, Text.dashPunctuation,
          Text.openPunctuation, Text.closePunctuation,
          Text.initialPunctuation, Text.finalPunctuation,
          Text.otherPunctuation]),
    (["s", "symbol"],
      .tables
        [Text.mathSymbol, Text.currencySymbol, Text.modifierSymbol,
          Text.otherSymbol]),
    (["z", "separator"],
      .tables
        [Text.spaceSeparator, Text.lineSeparator, Text.paragraphSeparator]),
    (["c", "other"],
      .union (.complement assigned)
        (.tables [Text.control, Text.format, Text.surrogate, Text.privateUse])),
    (["cn", "unassigned"], .complement assigned),
    (["assigned"], assigned),
    (["any"], .all),
    (["ascii"], .range 0 0x7f),
    (["digit"], .table Text.decimalNumber),
    (["cntrl"], .table Text.control)]

/-- The general category with a loosely matched name. -/
def findCategory? (name : String) : Option CharSet :=
  match Text.categories.find? fun (short, long, _) =>
      short.toLower == name || long == name with
  | some (_, _, members) => some (.table members)
  | none =>
      (categoryGroups.find? fun (names, _) => names.contains name).map (·.2)

/-- The script with a loosely matched name. -/
def findScript? (name : String) : Option CharSet :=
  (Text.scripts.find? fun (long, short, _) =>
      short == name || long == name).map
    fun (_, _, members) => .table members

/-- Binary properties by their loose names. -/
def binaryProperties : List (List String × CharSet) :=
  let lowercase := CharSet.tables [Text.lowercaseLetter, Text.otherLowercase]
  let uppercase := CharSet.tables [Text.uppercaseLetter, Text.otherUppercase]
  let asciiDigits : CharSet := .ranges [('0', '9'), ('a', 'f'), ('A', 'F')]
  [(["alphabetic", "alpha"], .alphabetic),
    (["lowercase", "lower"], lowercase),
    (["uppercase", "upper"], uppercase),
    (["cased"],
      .union (.union lowercase uppercase) (.table Text.titlecaseLetter)),
    (["caseignorable", "ci"], .table Text.caseIgnorable),
    (["whitespace", "wspace", "space"], .table Text.whiteSpace),
    (["graphemeextend", "grext"],
      .tables
        [Text.nonspacingMark, Text.enclosingMark, Text.otherGraphemeExtend]),
    (["dash"], .table Text.dash),
    (["hexdigit", "hex"], .table Text.hexDigit),
    (["asciihexdigit", "ahex"], asciiDigits),
    (["ideographic", "ideo"], .table Text.ideographic),
    (["quotationmark", "qmark"], .table Text.quotationMark),
    (["joincontrol", "joinc"], .table Text.joinControl),
    (["math"], .table Text.mathematical),
    (["emoji"], .table Text.emoji),
    (["emojipresentation", "epres"], .table Text.emojiPresentation),
    (["extendedpictographic", "extpict"], .table Text.extendedPictographic)]

/-- The binary property with a loosely matched name. -/
def findBinary? (name : String) : Option CharSet :=
  (binaryProperties.find? fun (names, _) => names.contains name).map (·.2)

/-- The class a bare name stands for: a property, a category or a script. -/
def findByName? (name : String) : Option CharSet :=
  findBinary? name <|> findCategory? name <|> findScript? name

/-- The class of the code points whose given property has the given value. -/
def findByValue? (property value : String) : Option CharSet :=
  if property = "generalcategory" ∨ property = "gc" then
    findCategory? value
  else if ["script", "sc", "scriptextensions", "scx"].contains property then
    findScript? value
  else
    none

/-- Cut a list at the first place where `separator` occurs. -/
def splitAt? (separator : List Char) : List Char → Option (List Char × List Char)
  | [] => none
  | char :: rest =>
      if separator.isPrefixOf (char :: rest) then
        some ([], (char :: rest).drop separator.length)
      else
        (splitAt? separator rest).map fun (before, after) =>
          (char :: before, after)

/-- The class written between the braces of `\p{…}`. -/
def findClass? (text : List Char) : Option CharSet :=
  match splitAt? ['!', '='] text with
  | some (property, value) =>
      (findByValue? (looseName property) (looseName value)).map .complement
  | none =>
      match splitAt? [':'] text <|> splitAt? ['='] text with
      | some (property, value) =>
          findByValue? (looseName property) (looseName value)
      | none => findByName? (looseName text)

/-- The ASCII class with a given name. -/
def findAscii? (name : String) : Option CharSet :=
  match name with
  | "alnum" => some (.ranges [('0', '9'), ('A', 'Z'), ('a', 'z')])
  | "alpha" => some (.ranges [('A', 'Z'), ('a', 'z')])
  | "ascii" => some (.range 0 0x7f)
  | "blank" => some (.ranges [('\t', '\t'), (' ', ' ')])
  | "cntrl" => some (.ranges [('\x00', '\x1f'), ('\x7f', '\x7f')])
  | "digit" => some (.range '0'.toNat '9'.toNat)
  | "graph" => some (.range '!'.toNat '~'.toNat)
  | "lower" => some (.range 'a'.toNat 'z'.toNat)
  | "print" => some (.range ' '.toNat '~'.toNat)
  | "punct" =>
      some (.ranges [('!', '/'), (':', '@'), ('[', '\x60'), ('\x7b', '~')])
  | "space" => some (.ranges [('\t', '\r'), (' ', ' ')])
  | "upper" => some (.range 'A'.toNat 'Z'.toNat)
  | "word" =>
      some (.ranges [('0', '9'), ('A', 'Z'), ('_', '_'), ('a', 'z')])
  | "xdigit" => some (.ranges [('0', '9'), ('A', 'F'), ('a', 'f')])
  | _ => none

/-- The classes `\d`, `\s` and `\w`, over all code points or over ASCII only. -/
def findShorthand? (unicode : Bool) (letter : Char) : Option CharSet :=
  match letter, unicode with
  | 'd', true => some (.table Text.decimalNumber)
  | 's', true => some (.table Text.whiteSpace)
  | 'w', true => some .word
  | 'd', false => findAscii? "digit"
  | 's', false => findAscii? "space"
  | 'w', false => findAscii? "word"
  | _, _ => none

end SpanForest.Pattern
