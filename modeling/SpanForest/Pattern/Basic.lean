import SpanForest.Pattern.Reader

namespace SpanForest.Pattern

/-!
# Compiled patterns

A pattern is kept with the two expressions it was read as: one that may match
anywhere, and one that must match a whole text. Both are functions of the
source, so patterns with the same source are equal.
-/

/-- The source of the expression that must match a whole text. -/
def wholeSource (source : String) : String :=
  "^(?:" ++ source ++ ")$"

/-- A pattern that was accepted. -/
structure Compiled where
  source : String
  partly : Regex
  wholly : Regex
  partly_eq : Regex.ofPattern? source = some partly
  wholly_eq : Regex.ofPattern? (wholeSource source) = some wholly

namespace Compiled

/-- Compile a pattern; none if it is refused on its own or as a whole. -/
def ofSource? (source : String) : Option Compiled :=
  match partlyFound : Regex.ofPattern? source,
      whollyFound : Regex.ofPattern? (wholeSource source) with
  | some partly, some wholly =>
      some ⟨source, partly, wholly, partlyFound, whollyFound⟩
  | _, _ => none

/-- Patterns with the same source are equal. -/
theorem eq_of_source_eq
    {left right : Compiled}
    (same : left.source = right.source) :
    left = right := by
  rcases left with ⟨source, partly, wholly, partlyFound, whollyFound⟩
  rcases right with ⟨other, partly', wholly', partlyFound', whollyFound'⟩
  have sourceSame : source = other := same
  subst sourceSame
  have partlySame : partly = partly' :=
    Option.some.inj (partlyFound.symm.trans partlyFound')
  have whollySame : wholly = wholly' :=
    Option.some.inj (whollyFound.symm.trans whollyFound')
  subst partlySame whollySame
  rfl

instance : DecidableEq Compiled := fun left right =>
  if same : left.source = right.source then
    isTrue (eq_of_source_eq same)
  else
    isFalse fun equal => same (congrArg source equal)

/-- Whether some part of the text matches. -/
def matchesPart (pattern : Compiled) (text : String) : Bool :=
  pattern.partly.matchesWithin text

/-- Whether the text as a whole matches. -/
def matchesWhole (pattern : Compiled) (text : String) : Bool :=
  pattern.wholly.matchesWithin text

end Compiled

end SpanForest.Pattern
