import SpanForest.Grammar.Prefixes
import SpanForest.BitSet

namespace SpanForest

/-!
# Words from which a parse may start

A parse that starts at a word can succeed only if some chain of spans from
there spells a prefix of the start symbol. The prefixes form a trie, which is
walked along the spans of the words.
-/

/--
Edges of a trie node, with all that lies below them.

An edge is labelled by a symbol, says whether a string ends with it, and is
followed by the other edges of the node.
-/
inductive TrieEdges where
  | none
  | edge
      (symbol : SymbolId)
      (accepting : Bool)
      (below others : TrieEdges)
  deriving Repr, DecidableEq, Inhabited

/-- A set of strings that share their beginnings. -/
structure Trie where
  /-- Whether the string without symbols is in the set. -/
  accepting : Bool
  edges : TrieEdges
  deriving Repr, DecidableEq, Inhabited

/--
The spans of one word as pairs of a symbol and the next word.

A next word equal to the number of words is the end of the input.
-/
abbrev WordEdges := List (SymbolId × Nat)

namespace TrieEdges

/-- Add a string to the strings spelled by the edges. -/
def insert (word : SymbolString) (edges : TrieEdges) : TrieEdges :=
  match word, edges with
  | [], edges => edges
  | symbol :: rest, .none =>
      .edge symbol rest.isEmpty (insert rest .none) .none
  | symbol :: rest, .edge other accepting below others =>
      if symbol = other then
        .edge other (accepting || rest.isEmpty) (insert rest below) others
      else
        .edge other accepting below (insert (symbol :: rest) others)
termination_by word.length + sizeOf edges

/-- Number of nodes below. -/
def size : TrieEdges → Nat
  | .none => 0
  | .edge _ _ below others => 1 + below.size + others.size

/-- For every word whether its spans lead along the edges to an accepting node. -/
def reach (words : Array WordEdges) : TrieEdges → Array Bool
  | .none => words.map fun _ => false
  | .edge symbol accepting below others =>
      let beyond := reach words below
      let elsewhere := reach words others
      words.mapIdx fun index spans =>
        elsewhere.getD index false ||
          spans.any fun (label, next) =>
            label == symbol && (accepting || beyond.getD next false)

end TrieEdges

namespace Trie

/-- The set without strings. -/
def empty : Trie :=
  ⟨false, .none⟩

/-- Add a string. -/
def insert (trie : Trie) (word : SymbolString) : Trie :=
  ⟨trie.accepting || word.isEmpty, trie.edges.insert word⟩

/-- The set of the strings of a list. -/
def ofWords (words : List SymbolString) : Trie :=
  words.foldl insert empty

/-- Number of nodes, the root included. -/
def size (trie : Trie) : Nat :=
  1 + trie.edges.size

/--
The words from which a chain of spans spells a string of the set.

If the string without symbols is in the set, every word qualifies.
-/
def viable (trie : Trie) (words : Array WordEdges) : BitSet :=
  let reached := trie.edges.reach words
  BitSet.ofList <|
    (List.range words.size).filter fun index =>
      trie.accepting || reached.getD index false

end Trie

/-- The trie over the prefixes of a symbol. -/
def PrefixSets.trie (prefixes : PrefixSets) (symbol : SymbolId) : Trie :=
  Trie.ofWords (prefixes.get symbol)

end SpanForest
