import Std.Data.TreeSet.Lemmas
import SpanForest.Fixpoint
import SpanForest.Grammar.Basic
import SpanForest.Sorting

namespace SpanForest

/-!
# Prefixes of bounded length

FIRST-k of a symbol holds the terminal strings of length at most `k` with which
the strings it derives begin, whole strings if they are shorter. The facts
"`symbol` has `string`" are collected in rounds until a round finds no new one.
All facts come from the finitely many strings of length at most `k`, which is
why the rounds come to an end.
-/

/-- A terminal string. -/
abbrev SymbolString := List SymbolId

/-- A symbol with one of its prefixes. -/
abbrev PrefixFact := SymbolId × SymbolString

/-- Sets of facts, ordered by symbol. -/
abbrev PrefixFacts := Std.TreeSet PrefixFact lexOrd.compare

/-- All strings of length at most `k` over the symbols below `count`. -/
def wordsUpTo (count : Nat) : Nat → List SymbolString
  | 0 => [[]]
  | k + 1 =>
      [] :: (List.range count).flatMap fun symbol =>
        (wordsUpTo count k).map (symbol :: ·)

/-- All facts about the symbols below `count`. -/
def possibleFacts (count k : Nat) : List PrefixFact :=
  (List.range count).flatMap fun symbol =>
    (wordsUpTo count k).map fun word => (symbol, word)

/-- Whether a fact is about symbols below `count` and a string of length `k`. -/
def isPossibleFact (count k : Nat) (fact : PrefixFact) : Bool :=
  fact.1 < count && fact.2.length ≤ k && fact.2.all (· < count)

/-- A short string over the symbols is listed. -/
theorem mem_wordsUpTo
    {count k : Nat}
    {word : SymbolString}
    (short : word.length ≤ k)
    (known : ∀ symbol ∈ word, symbol < count) :
    word ∈ wordsUpTo count k := by
  induction k generalizing word with
  | zero =>
      have empty : word = [] := List.length_eq_zero_iff.mp (by omega)
      simp [empty, wordsUpTo]
  | succ k inductionHypothesis =>
      cases word with
      | nil =>
          simp [wordsUpTo]
      | cons symbol rest =>
          have restListed : rest ∈ wordsUpTo count k :=
            inductionHypothesis (by simp at short; omega)
              fun other member => known other (List.mem_cons_of_mem _ member)
          simp [wordsUpTo, known symbol List.mem_cons_self, restListed]

/-- A possible fact is listed. -/
theorem mem_possibleFacts
    {count k : Nat}
    {fact : PrefixFact}
    (possible : isPossibleFact count k fact = true) :
    fact ∈ possibleFacts count k := by
  rcases fact with ⟨symbol, word⟩
  simp [isPossibleFact] at possible
  obtain ⟨⟨symbolKnown, short⟩, wordKnown⟩ := possible
  simp [possibleFacts, symbolKnown,
    mem_wordsUpTo short fun other member => wordKnown other member]

/--
Concatenations of members of two sets, cut to length `k`.

A string that is full already is not extended, so that it survives even
where the second set is empty.
-/
def concatenate (k : Nat) (firsts seconds : List SymbolString) : List SymbolString :=
  (Std.TreeSet.ofList <|
    firsts.flatMap fun first =>
      if k ≤ first.length then
        [first]
      else
        seconds.map fun second => first ++ second.take (k - first.length)
  ).toList

/-- The strings that the facts hold for each of the symbols below `count`. -/
def wordsBySymbol
    (count : Nat)
    (facts : PrefixFacts) :
    Array (List SymbolString) :=
  facts.toList.foldl
    (fun words fact => words.modify fact.1 (fact.2 :: ·))
    (Array.replicate count [])

/-- The prefixes of a string of symbols. -/
def wordsOfSequence
    (k : Nat)
    (words : Array (List SymbolString))
    (symbols : List SymbolId) :
    List SymbolString :=
  symbols.foldl
    (fun known symbol => concatenate k known (words.getD symbol []))
    [[]]

/-- The facts that the rules yield from those known. -/
def derivedFacts
    (rules : List Rule)
    (count k : Nat)
    (facts : PrefixFacts) :
    List PrefixFact :=
  let words := wordsBySymbol count facts
  rules.flatMap fun rule =>
    (wordsOfSequence k words rule.symbols).map fun word => (rule.lhs, word)

/-- The facts that a round finds: possible ones that were not known. -/
def freshFacts
    (rules : List Rule)
    (count k : Nat)
    (facts : PrefixFacts) :
    List PrefixFact :=
  (derivedFacts rules count k facts).filter fun fact =>
    isPossibleFact count k fact && !facts.contains fact

/-- A round that finds something leaves fewer facts missing. -/
theorem missingFacts_insertMany_lt
    {rules : List Rule}
    {count k : Nat}
    {facts : PrefixFacts}
    {first : PrefixFact}
    {others : List PrefixFact}
    (found : freshFacts rules count k facts = first :: others) :
    missingFacts (possibleFacts count k)
        (facts.insertMany (first :: others)).contains <
      missingFacts (possibleFacts count k) facts.contains := by
  have isFresh : first ∈ freshFacts rules count k facts := by
    simp [found]
  have properties := (List.mem_filter.mp isFresh).2
  simp only [Bool.and_eq_true, Bool.not_eq_true'] at properties
  refine missingFacts_lt ?_ (mem_possibleFacts properties.1) properties.2 ?_
  · intro fact held
    rw [Std.TreeSet.contains_insertMany_list, held, Bool.true_or]
  · rw [Std.TreeSet.contains_insertMany_list]
    simp

/-- Add what rounds find until one finds nothing. -/
def saturateFacts
    (rules : List Rule)
    (count k : Nat)
    (facts : PrefixFacts) :
    PrefixFacts :=
  match _ : freshFacts rules count k facts with
  | [] => facts
  | first :: others =>
      saturateFacts rules count k (facts.insertMany (first :: others))
termination_by missingFacts (possibleFacts count k) facts.contains
decreasing_by exact missingFacts_insertMany_lt ‹_›

/-- FIRST-k of every symbol. -/
structure PrefixSets where
  k : Nat
  /-- For every symbol its prefixes in lexicographic order. -/
  sets : Array (List SymbolString)
  deriving Repr, DecidableEq, Inhabited

namespace PrefixSets

/-- A terminal has itself, and the empty string has the string without symbols. -/
def initial (grammar : Grammar) : List PrefixFact :=
  (grammar.symbolIds.filter fun symbol =>
    !grammar.isNonterminal symbol).map fun symbol =>
      (symbol, if symbol = emptyString then [] else [symbol])

/-- Compute FIRST-k of every symbol; a length of zero counts as one. -/
def compute (grammar : Grammar) (k : Nat) : PrefixSets :=
  let k := max k 1
  let facts :=
    saturateFacts grammar.allRules grammar.numSymbols k
      (.ofList (initial grammar) _)
  ⟨k, (wordsBySymbol grammar.numSymbols facts).map fun words =>
    sortBy (fun left right => (left.compareLex compare right).isLE) words⟩

/-- FIRST-k of a symbol, in lexicographic order. -/
def get (prefixes : PrefixSets) (symbol : SymbolId) : List SymbolString :=
  prefixes.sets.getD symbol []

end PrefixSets

end SpanForest
