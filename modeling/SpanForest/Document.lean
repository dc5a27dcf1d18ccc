import SpanForest.Span
import SpanForest.Text.Slice

namespace SpanForest

/-!
# Documents and input

A document is the text being annotated. Input spans name a type and a region
and are bound to the symbols of a grammar when a parse starts.
-/

/-- The text being annotated. -/
structure Document where
  text : String
  deriving Repr, DecidableEq, Inhabited

namespace Document

/-- The document without text. -/
def empty : Document :=
  ⟨""⟩

/-- The text of a span, if it starts and stops between characters. -/
def covered? (document : Document) (span : Span) : Option String :=
  Text.slice? document.text span.start span.stop

end Document

/-- A region given from outside, not yet bound to a symbol. -/
structure InputSpan where
  typeName : String
  start : Nat
  stop : Nat
  features : Features
  deriving Repr, DecidableEq

end SpanForest
