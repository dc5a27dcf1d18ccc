import SpanForest.Alphabet
import SpanForest.Document
import SpanForest.Pattern.Basic
import SpanForest.Text.Lowercase

namespace SpanForest

/-!
# Predicates on spans

Predicates are interned into an alphabet and refer to one another by number, so
that a shared operand is evaluated once per span. A predicate is *categorical*
when its truth is settled by which value an accessor yields, through equality
with listed values alone.
-/

/-- The part of a span that a predicate looks at. -/
inductive Accessor where
  | feature (name : String)
  | text
  | typeName
  | start
  | stop
  | length
  deriving Repr, DecidableEq, Inhabited

namespace Accessor

/-- The value that the accessor yields on a span, if any. -/
def read? (accessor : Accessor) (span : Span) (document : Document) : Option Value :=
  match accessor with
  | .feature name => span.features.get? name
  | .text => (document.covered? span).map .text
  | .typeName => some (.text span.typeName)
  | .start => some (.ofOffset span.start)
  | .stop => some (.ofOffset span.stop)
  | .length => some (.ofOffset span.length)

/-- The name of a feature, or the marked name of a built-in accessor. -/
def render : Accessor → String
  | .feature name => name
  | .text => "@text"
  | .typeName => "@type"
  | .start => "@start"
  | .stop => "@end"
  | .length => "@length"

end Accessor

/-- How a value is compared with an expected one. -/
inductive Comparison where
  | eq
  | ne
  | lt
  | le
  | gt
  | ge
  deriving Repr, DecidableEq, Inhabited

/--
Whether the comparison holds of what an accessor yielded.

A missing value differs from every value and has no order, and neither have
values of different kinds.
-/
def Comparison.holds
    (comparison : Comparison)
    (actual : Option Value)
    (expected : Value) :
    Bool :=
  let ordering := actual.bind (·.compare? expected)
  match comparison with
  | .eq => actual == some expected
  | .ne => actual != some expected
  | .lt => ordering.any Ordering.isLT
  | .le => ordering.any Ordering.isLE
  | .gt => ordering.any Ordering.isGT
  | .ge => ordering.any Ordering.isGE

/-- Where another span lies relative to the span under test. -/
inductive Placement where
  /-- It starts with the span and stops within it. -/
  | startsWith
  /-- It stops with the span and starts within it. -/
  | endsWith
  /-- It covers the same offsets. -/
  | coextensive
  /-- It lies within the span. -/
  | contains
  /-- It encloses the span. -/
  | within
  deriving Repr, DecidableEq, Inhabited

/-- Whether `sibling` lies as described relative to `span`. -/
def Placement.admits (placement : Placement) (span sibling : Span) : Bool :=
  match placement with
  | .startsWith => sibling.start == span.start && sibling.stop ≤ span.stop
  | .endsWith => sibling.stop == span.stop && span.start ≤ sibling.start
  | .coextensive => sibling.start == span.start && sibling.stop == span.stop
  | .contains => span.start ≤ sibling.start && sibling.stop ≤ span.stop
  | .within => sibling.start ≤ span.start && span.stop ≤ sibling.stop

/-- A condition on spans. -/
inductive Predicate where
  | compare (accessor : Accessor) (comparison : Comparison) (value : Value)
  /-- The accessor yields a text that in lower case is `lowered`. -/
  | equalIgnoringCase (accessor : Accessor) (lowered : String)
  /-- The accessor yields a text that matches, as a whole or in part. -/
  | matching
      (accessor : Accessor)
      (pattern : Pattern.Compiled)
      (whole : Bool)
  | oneOf (accessor : Accessor) (values : List Value)
  /-- Some other input span placed as described satisfies `inner`. -/
  | context (placement : Placement) (inner : PredicateId)
  /-- Left to the host, by name. -/
  | custom (name : String)
  | not (inner : PredicateId)
  | and (inners : List PredicateId)
  | or (inners : List PredicateId)
  deriving DecidableEq

namespace Predicate

/-- Equality up to case with a given text. -/
def ignoringCase (accessor : Accessor) (value : String) : Predicate :=
  .equalIgnoringCase accessor (Text.lowercase value)

/-- Membership among values, of which repeated ones are dropped. -/
def among (accessor : Accessor) (values : List Value) : Predicate :=
  .oneOf accessor values.eraseDups

/-- The predicates that this one refers to. -/
def operands : Predicate → List PredicateId
  | .context _ inner => [inner]
  | .not inner => [inner]
  | .and inners => inners
  | .or inners => inners
  | _ => []

/-- The source of the pattern, if the predicate has one. -/
def patternSource? : Predicate → Option String
  | .matching _ pattern _ => some pattern.source
  | _ => none

/-- The accessor of a categorical predicate. -/
def categoricalAccessor? : Predicate → Option Accessor
  | .compare accessor .eq _ => some accessor
  | .compare accessor .ne _ => some accessor
  | .oneOf accessor _ => some accessor
  | _ => none

/-- The truth of a categorical predicate given what its accessor yields. -/
def categoricalTruth? (predicate : Predicate) (value : Option Value) : Option Bool :=
  match predicate with
  | .compare _ .eq expected => some (Comparison.holds .eq value expected)
  | .compare _ .ne expected => some (Comparison.holds .ne value expected)
  | .oneOf _ values => some (value.any values.contains)
  | _ => none

/-- The truth of a predicate that looks at the span alone. -/
def localTruth?
    (predicate : Predicate)
    (span : Span)
    (document : Document) :
    Option Bool :=
  let read (accessor : Accessor) := accessor.read? span document
  let readText (accessor : Accessor) := (read accessor).bind Value.text?
  match predicate with
  | .compare accessor comparison value =>
      some (comparison.holds (read accessor) value)
  | .equalIgnoringCase accessor lowered =>
      some ((readText accessor).any (Text.lowercase · == lowered))
  | .matching accessor pattern true =>
      some ((readText accessor).any pattern.matchesWhole)
  | .matching accessor pattern false =>
      some ((readText accessor).any pattern.matchesPart)
  | .oneOf accessor values => some ((read accessor).any values.contains)
  | _ => none

end Predicate

/-- Interned predicates, which refer to one another by their numbers. -/
abbrev PredicateAlphabet := Alphabet Predicate

/-- The predicates that predicate `id` refers to. -/
def PredicateAlphabet.operands
    (predicates : PredicateAlphabet)
    (id : PredicateId) :
    List PredicateId :=
  ((Alphabet.get? predicates id).map Predicate.operands).getD []

end SpanForest
