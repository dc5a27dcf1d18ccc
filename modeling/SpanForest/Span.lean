import SpanForest.Basic
import SpanForest.Features
import SpanForest.Decimal.FloatText

namespace SpanForest

/-!
# Spans

A span is a typed region of a text, given by the byte offsets at which it
starts and stops. The parser reads spans and builds new ones; a store owns them
all and numbers them in the order in which they are committed.
-/

/-- A typed region of the text. -/
structure Span where
  id : SpanId
  /-- The grammar's symbol of the span; none if the grammar ignores the span. -/
  symbol : Option SymbolId
  typeName : String
  start : Nat
  stop : Nat
  features : Features
  /-- The span it takes its features from: itself unless it was derived. -/
  head : SpanId
  weight : Float
  /-- A number that callers may attach and the parser never looks at. -/
  payload : Option Nat
  deriving Inhabited

/-- Order of symbols in which an ignored span comes last. -/
def compareSymbols : Option SymbolId → Option SymbolId → Ordering
  | some left, some right => compare left right
  | some _, none => .lt
  | none, some _ => .gt
  | none, none => .eq

namespace Span

/-- A span without features that is its own head and has weight one. -/
def new
    (id : SpanId)
    (symbol : Option SymbolId)
    (typeName : String)
    (start stop : Nat) :
    Span where
  id := id
  symbol := symbol
  typeName := typeName
  start := start
  stop := stop
  features := Features.empty
  head := id
  weight := 1.0
  payload := none

/-- Whether the grammar has no symbol for the span. -/
def isIgnored (span : Span) : Bool :=
  span.symbol.isNone

/-- Number of bytes covered. -/
def length (span : Span) : Nat :=
  span.stop - span.start

/-- Whether no byte is covered. -/
def isEmpty (span : Span) : Bool :=
  span.start == span.stop

/--
Whether two spans are interchangeable in a parse forest.

Only the number of the span, the name of its type and its payload are left
out of the comparison.
-/
def equivalent (left right : Span) : Bool :=
  left.start == right.start && left.stop == right.stop &&
    left.symbol == right.symbol && left.head == right.head &&
    left.weight == right.weight && left.features == right.features

/-- Order of the input: earlier start, then later stop, then smaller symbol. -/
def inputOrder (left right : Span) : Ordering :=
  ((compare left.start right.start).then
      (compare right.stop left.stop)).then
    (compareSymbols left.symbol right.symbol)

/-- One feature value with its kind. -/
def renderValue : Value → String
  | .bool value => "Bool(" ++ toString value ++ ")"
  | .int value => "Int(" ++ toString value ++ ")"
  | .text value => "Str(" ++ Text.quoted value ++ ")"

/-- The features between braces, in the order of their names. -/
def renderFeatures (features : Features) : String :=
  let entries := features.entries.map fun (name, value) =>
    Text.quoted name ++ ": " ++ renderValue value
  "\x7b" ++ ", ".intercalate entries ++ "\x7d"

/-- Everything about the span apart from its symbol and payload, on one line. -/
def render (span : Span) : String :=
  "SymbolSpan \x7b id: " ++ toString span.id ++
    ", type: " ++ Text.quoted span.typeName ++
    ", range: " ++ toString span.start ++ ".." ++ toString span.stop ++
    ", head: " ++ toString span.head ++
    ", weight: " ++ Decimal.floatText span.weight ++
    ", features: " ++ renderFeatures span.features ++ " \x7d"

end Span

/-- The spans of one parse, numbered by their position. -/
structure SpanStore where
  spans : Array Span
  deriving Inhabited

namespace SpanStore

/-- The store without spans. -/
def empty : SpanStore :=
  ⟨#[]⟩

/-- Number of committed spans. -/
def size (store : SpanStore) : Nat :=
  store.spans.size

/-- The number that the next committed span will get. -/
def nextId (store : SpanStore) : SpanId :=
  store.spans.size

/-- The span with number `id`. -/
def get? (store : SpanStore) (id : SpanId) : Option Span :=
  store.spans[id]?

/-- The span with number `id`, an empty one if there is none. -/
def get (store : SpanStore) (id : SpanId) : Span :=
  store.spans.getD id default

/-- All spans in the order of their numbers. -/
def toList (store : SpanStore) : List Span :=
  store.spans.toList

/--
Commit a span under the next number.

A span that is its own head stays its own head.
-/
def push (store : SpanStore) (span : Span) : SpanId × SpanStore :=
  let id := store.nextId
  let head := if span.head = span.id then id else span.head
  (id, ⟨store.spans.push { span with id := id, head := head }⟩)

/-- Commit spans from left to right. -/
def pushAll (store : SpanStore) (spans : List Span) : SpanStore :=
  spans.foldl (fun current span => (current.push span).2) store

/-- The span reached from `id` by following `count` heads. -/
def nthHead? (store : SpanStore) (id : SpanId) : Nat → Option Span
  | 0 => store.get? id
  | count + 1 => do
      let span ← store.get? id
      store.nthHead? span.head count

/-- Attach a number to a span; the flag says whether the span exists. -/
def setPayload
    (store : SpanStore)
    (id : SpanId)
    (payload : Nat) :
    Bool × SpanStore :=
  (id < store.size,
    ⟨store.spans.modify id fun span => { span with payload := payload }⟩)

/-- The number attached to a span. -/
def payload? (store : SpanStore) (id : SpanId) : Option Nat := do
  (← store.get? id).payload

end SpanStore

end SpanForest
