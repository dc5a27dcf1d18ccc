import SpanForest.Compiled
import SpanForest.Sorting

namespace SpanForest

/-!
# Words

A word holds the parseable input spans that start at one offset; behind the
last word lies the end of the input. Input spans are ordered by start, the
longer first, then by symbol and by number. Spans whose type is no terminal of
the grammar are kept for context predicates and belong to no word.
-/

/-- The parseable input spans that start at one offset. -/
structure InputWord where
  start : Nat
  spans : List SpanId
  deriving Repr, DecidableEq, Inhabited

/-- The terminal for spans of a type; the reserved ones have no spans. -/
def Grammar.terminal? (grammar : Grammar) (typeName : String) : Option SymbolId :=
  (grammar.lookup typeName).filter fun symbol =>
    !grammar.isNonterminal symbol && symbol != endOfInput &&
      symbol != emptyString

/-- An input span bound to the grammar; it never stops before it starts. -/
def InputSpan.bind (grammar : Grammar) (id : SpanId) (input : InputSpan) : Span :=
  { Span.new id (grammar.terminal? input.typeName) input.typeName input.start
      (max input.stop input.start) with
    features := input.features }

/-- Commit input spans in the order in which they are given. -/
def bindInput
    (grammar : Grammar)
    (store : SpanStore)
    (input : List InputSpan) :
    SpanStore :=
  input.foldl
    (fun current span => (current.push (span.bind grammar current.nextId)).2)
    store

/-- Span numbers in input order. -/
def sortInput (spans : SpanStore) (ids : List SpanId) : List SpanId :=
  sortBy
    (fun left right =>
      ((spans.get left).inputOrder (spans.get right)).then
        (compare left right) != .gt)
    ids

/-- Put a span in front of words. -/
def addToWords (start : Nat) (id : SpanId) : List InputWord → List InputWord
  | [] => [⟨start, [id]⟩]
  | word :: rest =>
      if word.start = start then
        ⟨start, id :: word.spans⟩ :: rest
      else
        ⟨start, [id]⟩ :: word :: rest

/-- The words of spans in input order: runs of parseable spans with one start. -/
def wordsOf (spans : SpanStore) (input : List SpanId) : List InputWord :=
  (input.filter fun id => !(spans.get id).isIgnored).foldr
    (fun id words => addToWords (spans.get id).start id words)
    []

/-- The first word behind `word` that starts at `stop` or later. -/
def nextWord (words : List InputWord) (word stop : Nat) : Nat :=
  word + 1 +
    ((words.drop (word + 1)).takeWhile (·.start < stop)).length

/--
The symbols with which the spans of a word can be read, and where they lead.

Synthesized terminals are included whether or not their predicates hold.
-/
def wordEdges
    (compiled : CompiledGrammar)
    (spans : SpanStore)
    (words : List InputWord)
    (index : Nat)
    (word : InputWord) :
    WordEdges :=
  word.spans.flatMap fun id =>
    let span := spans.get id
    let next := nextWord words index span.stop
    match span.symbol with
    | some symbol =>
        (symbol, next) ::
          (compiled.synthesizedFrom symbol).map fun synthesized =>
            (synthesized.symbol, next)
    | none => []

/-- The words from which a parse may start, all of them without the filter. -/
def viableWords
    (compiled : CompiledGrammar)
    (filtered : Bool)
    (spans : SpanStore)
    (words : List InputWord) :
    BitSet :=
  if filtered then
    compiled.trie.viable <|
      (words.zipIdx.map fun (word, index) =>
        wordEdges compiled spans words index word).toArray
  else
    BitSet.ofList (List.range words.length)

end SpanForest
