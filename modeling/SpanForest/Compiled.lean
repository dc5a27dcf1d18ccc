import SpanForest.Grammar.Viability
import SpanForest.Lr.PackedTable
import SpanForest.Predicate.Network

namespace SpanForest

/-!
# Compiled grammars

Everything that parsing needs of a grammar, computed once.
-/

/-- Settings of a compilation. -/
structure CompileOptions where
  /-- Length of the prefixes by which words are filtered. -/
  prefixLength : Nat := 2
  /-- Number of categorical predicates from which an accessor gets a group. -/
  groupThreshold : Nat := 3
  deriving Repr, DecidableEq, Inhabited

/-- A grammar with its sets, table, trie and predicate network. -/
structure CompiledGrammar where
  grammar : Grammar
  first : FirstSets
  follow : FollowSets
  prefixes : PrefixSets
  automaton : Automaton
  table : PackedTable
  trie : Trie
  network : PredicateNetwork
  /-- Symbols with at least one greedy rule. -/
  greedy : BitSet
  deriving Inhabited

/-- Compile a grammar. -/
def Grammar.compile (grammar : Grammar) (options : CompileOptions) : CompiledGrammar :=
  let first := FirstSets.compute grammar
  let follow := FollowSets.compute grammar first
  let prefixes := PrefixSets.compute grammar options.prefixLength
  let automaton := Automaton.ofGrammar grammar
  { grammar := grammar
    first := first
    follow := follow
    prefixes := prefixes
    automaton := automaton
    table := (SparseTable.ofAutomaton grammar automaton follow).pack
    trie := prefixes.trie grammar.start
    network :=
      PredicateNetwork.compile grammar.predicates options.groupThreshold
    greedy :=
      BitSet.ofList
        ((grammar.rules.toList.filter (·.greedy)).map (·.lhs)) }

namespace CompiledGrammar

/-- The terminals synthesized from spans of a type, in declaration order. -/
def synthesizedFrom
    (compiled : CompiledGrammar)
    (base : SymbolId) :
    List Synthesized :=
  compiled.grammar.synthesized.filter (·.base == base)

/-- Whether a symbol has a greedy rule. -/
def isGreedy (compiled : CompiledGrammar) (symbol : SymbolId) : Bool :=
  compiled.greedy.contains symbol

end CompiledGrammar

end SpanForest
