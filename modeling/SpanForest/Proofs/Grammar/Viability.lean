import SpanForest.Grammar.Viability
import SpanForest.Proofs.BitSet

namespace SpanForest

/-!
# Words that can begin a parse are viable

A trie has exactly the strings that were put into it, in whichever order, and finds
exactly the words from which a chain of spans spells one of them.
-/

/-- The spans of the words, each leading to a later word, spell a string. -/
inductive Chain (words : Array WordEdges) : Nat → SymbolString → Nat → Prop where
  | nil (word : Nat) : Chain words word [] word
  | cons {word next last : Nat} {symbol : SymbolId} {rest : SymbolString} :
      (symbol, next) ∈ words.getD word [] →
      Chain words next rest last →
      Chain words word (symbol :: rest) last

namespace Chain

variable {words : Array WordEdges} {first middle last : Nat}
variable {left right : SymbolString}

theorem append
    (leftChain : Chain words first left middle)
    (rightChain : Chain words middle right last) :
    Chain words first (left ++ right) last := by
  induction leftChain with
  | nil => exact rightChain
  | cons edge _ inductionHypothesis =>
      exact .cons edge (inductionHypothesis rightChain)

/-- A chain spells every beginning of what it spells. -/
theorem take
    (chain : Chain words first left last)
    (count : Nat) :
    ∃ stop, Chain words first (left.take count) stop := by
  induction chain generalizing count with
  | nil word => exact ⟨word, by simpa using .nil word⟩
  | cons edge _ inductionHypothesis =>
      cases count with
      | zero => exact ⟨_, .nil _⟩
      | succ count =>
          obtain ⟨stop, restChain⟩ := inductionHypothesis count
          exact ⟨stop, .cons edge restChain⟩

/-- A chain that spells something begins with a span of its first word. -/
theorem cons_iff
    {symbol : SymbolId} :
    Chain words first (symbol :: left) last ↔
      ∃ next, (symbol, next) ∈ words.getD first [] ∧
        Chain words next left last := by
  constructor
  · intro chain
    cases chain with
    | cons edge rest => exact ⟨_, edge, rest⟩
  · rintro ⟨next, edge, rest⟩
    exact .cons edge rest

end Chain

namespace TrieEdges

/-- The strings that the edges of a trie node spell. -/
inductive Has : TrieEdges → SymbolString → Prop where
  | ends {symbol : SymbolId} {below others : TrieEdges} :
      Has (.edge symbol true below others) [symbol]
  | inner
      {symbol : SymbolId}
      {accepting : Bool}
      {below others : TrieEdges}
      {rest : SymbolString} :
      Has below rest →
      Has (.edge symbol accepting below others) (symbol :: rest)
  | elsewhere
      {symbol : SymbolId}
      {accepting : Bool}
      {below others : TrieEdges}
      {word : SymbolString} :
      Has others word →
      Has (.edge symbol accepting below others) word

@[simp] theorem has_none {word : SymbolString} : ¬TrieEdges.none.Has word :=
  nofun

/-- The strings of an edge and of the others of its node. -/
theorem has_edge
    {symbol : SymbolId}
    {accepting : Bool}
    {below others : TrieEdges}
    {word : SymbolString} :
    (edge symbol accepting below others).Has word ↔
      others.Has word ∨ ∃ rest, word = symbol :: rest ∧
        (rest = [] ∧ accepting = true ∨ below.Has rest) := by
  constructor
  · intro has
    cases has with
    | ends => exact .inr ⟨[], rfl, .inl ⟨rfl, rfl⟩⟩
    | inner has => exact .inr ⟨_, rfl, .inr has⟩
    | elsewhere has => exact .inl has
  · rintro (has | ⟨rest, rfl, ⟨rfl, rfl⟩ | has⟩)
    · exact .elsewhere has
    · exact .ends
    · exact .inner has

theorem Has.ne_nil
    {edges : TrieEdges}
    {word : SymbolString}
    (has : edges.Has word) :
    word ≠ [] := by
  induction has with
  | ends => exact List.cons_ne_nil _ _
  | inner => exact List.cons_ne_nil _ _
  | elsewhere _ inductionHypothesis => exact inductionHypothesis

/-- Edges spell what was inserted and what they spelled before. -/
theorem has_insert
    (word : SymbolString)
    (edges : TrieEdges)
    {other : SymbolString} :
    (edges.insert word).Has other ↔
      edges.Has other ∨ other = word ∧ word ≠ [] := by
  induction word, edges using TrieEdges.insert.induct generalizing other with
  | case1 edges =>
      unfold insert
      simp
  | case2 symbol rest inductionHypothesis =>
      unfold insert
      simp only [has_edge, inductionHypothesis, has_none, List.isEmpty_iff]
      grind
  | case3 rest symbol accepting below others inductionHypothesis =>
      unfold insert
      rw [if_pos rfl]
      simp only [has_edge, inductionHypothesis, Bool.or_eq_true,
        List.isEmpty_iff]
      grind
  | case4 symbol rest label accepting below others different inductionHypothesis =>
      unfold insert
      rw [if_neg different]
      simp only [has_edge, inductionHypothesis]
      grind

@[simp] theorem size_reach
    (words : Array WordEdges)
    (edges : TrieEdges) :
    (edges.reach words).size = words.size := by
  cases edges <;> simp [reach]

/-- What is reached along an edge, or along the others of its node. -/
theorem getD_reach_edge
    {words : Array WordEdges}
    {symbol : SymbolId}
    {accepting : Bool}
    {below others : TrieEdges}
    {first : Nat} :
    ((edge symbol accepting below others).reach words).getD first false = true ↔
      (others.reach words).getD first false = true ∨
        ∃ next, (symbol, next) ∈ words.getD first [] ∧
          (accepting = true ∨ (below.reach words).getD next false = true) := by
  simp only [reach, Array.getD_eq_getD_getElem?, Array.getElem?_mapIdx]
  by_cases inside : first < words.size
  · simp [inside]
  · simp [inside]

/-- A word is reached exactly if spans from it spell a string along the edges. -/
theorem reach_iff
    {words : Array WordEdges}
    {edges : TrieEdges}
    {first : Nat} :
    (edges.reach words).getD first false = true ↔
      ∃ word, edges.Has word ∧ ∃ last, Chain words first word last := by
  induction edges generalizing first with
  | none =>
      have unreached : (TrieEdges.none.reach words).getD first false = false := by
        by_cases inside : first < words.size <;>
          simp [reach, Array.getD_eq_getD_getElem?, inside]
      simp [unreached]
  | edge symbol accepting below others belowHypothesis othersHypothesis =>
      rw [getD_reach_edge, othersHypothesis]
      constructor
      · rintro (⟨word, has, chain⟩ | ⟨next, edge, reached⟩)
        · exact ⟨word, has_edge.mpr (.inl has), chain⟩
        · rcases reached with isEnd | goesOn
          · exact ⟨[symbol], has_edge.mpr (.inr ⟨[], rfl, .inl ⟨rfl, isEnd⟩⟩),
              next, .cons edge (.nil next)⟩
          · obtain ⟨rest, has, last, chain⟩ := belowHypothesis.mp goesOn
            exact ⟨symbol :: rest, has_edge.mpr (.inr ⟨rest, rfl, .inr has⟩),
              last, .cons edge chain⟩
      · rintro ⟨word, has, last, chain⟩
        rcases has_edge.mp has with elsewhere | ⟨rest, rfl, ends⟩
        · exact .inl ⟨word, elsewhere, last, chain⟩
        · obtain ⟨next, edge, restChain⟩ := Chain.cons_iff.mp chain
          refine .inr ⟨next, edge, ends.imp (·.2) fun has => ?_⟩
          exact belowHypothesis.mpr ⟨rest, has, last, restChain⟩

end TrieEdges

namespace Trie

/-- The strings of a trie. -/
def Has (trie : Trie) (word : SymbolString) : Prop :=
  word = [] ∧ trie.accepting = true ∨ trie.edges.Has word

/-- A trie has what was inserted and what it had before. -/
theorem has_insert
    (trie : Trie)
    (word : SymbolString)
    {other : SymbolString} :
    (trie.insert word).Has other ↔ trie.Has other ∨ other = word := by
  simp only [Has, insert, TrieEdges.has_insert, Bool.or_eq_true,
    List.isEmpty_iff]
  grind

/-- A trie of words has exactly those, in whichever order they were inserted. -/
theorem has_ofWords
    {strings : List SymbolString}
    {word : SymbolString} :
    (Trie.ofWords strings).Has word ↔ word ∈ strings := by
  have inserted : ∀ (others : List SymbolString) (trie : Trie),
      (others.foldl Trie.insert trie).Has word ↔ trie.Has word ∨ word ∈ others := by
    intro others
    induction others with
    | nil => simp
    | cons other rest inductionHypothesis =>
        intro trie
        rw [List.foldl_cons, inductionHypothesis, has_insert, List.mem_cons,
          or_assoc]
  rw [ofWords, inserted]
  simp [Has, empty]

/-- Whether some chain of spans from a word spells a string of the trie. -/
def Reaches (trie : Trie) (words : Array WordEdges) (first : Nat) : Prop :=
  ∃ word, trie.Has word ∧ ∃ last, Chain words first word last

/-- The arrays of the nodes tell from which words the trie reaches. -/
theorem reaches_iff
    {trie : Trie}
    {words : Array WordEdges}
    {first : Nat} :
    (trie.accepting || (trie.edges.reach words).getD first false) = true ↔
      trie.Reaches words first := by
  rw [Bool.or_eq_true, TrieEdges.reach_iff]
  constructor
  · rintro (accepting | ⟨word, has, chain⟩)
    · exact ⟨[], .inl ⟨rfl, accepting⟩, first, .nil first⟩
    · exact ⟨word, .inr has, chain⟩
  · rintro ⟨word, ⟨-, accepting⟩ | has, chain⟩
    · exact .inl accepting
    · exact .inr ⟨word, has, chain⟩

/-- A word is viable exactly if spans from it spell one of the strings of the trie. -/
theorem contains_viable_iff
    {trie : Trie}
    {words : Array WordEdges}
    {first : Nat} :
    (trie.viable words).contains first = true ↔
      first < words.size ∧ trie.Reaches words first := by
  unfold viable
  rw [BitSet.contains_ofList, decide_eq_true_eq, List.mem_filter,
    List.mem_range, reaches_iff]

/-- A word from which spans spell one of the strings of a trie is viable. -/
theorem contains_viable
    {words : Array WordEdges}
    {strings : List SymbolString}
    {word : SymbolString}
    (member : word ∈ strings)
    {first last : Nat}
    (inside : first < words.size)
    (chain : Chain words first word last) :
    ((Trie.ofWords strings).viable words).contains first = true :=
  contains_viable_iff.mpr ⟨inside, word, has_ofWords.mpr member, last, chain⟩

end Trie

end SpanForest
