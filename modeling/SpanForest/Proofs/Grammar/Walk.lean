import Std.Data.HashMap.Lemmas
import SpanForest.Proofs.Grammar.Viability

namespace SpanForest

/-!
# The walk that remembers its answers

Whether a chain of spans leads on to an accepting node can be found by walking from
node to node, asking about a pair of a node and a word only once. All walks share
one memory, which holds for every pair asked about whether a chain leads on from
there, so that the answers do not depend on what was asked before.
-/

namespace TrieEdges

/-- The node to which the first edge with a label leads. -/
def child? (symbol : SymbolId) : TrieEdges → Option Trie
  | .none => Option.none
  | .edge label accepting below others =>
      if label = symbol then some ⟨accepting, below⟩ else others.child? symbol

/-- No two edges of a node have the same label. -/
def Distinct : TrieEdges → Prop
  | .none => True
  | .edge label _ below others =>
      others.child? label = Option.none ∧ below.Distinct ∧ others.Distinct

variable {edges : TrieEdges} {symbol : SymbolId} {node : Trie}

/-- The nodes below a child are fewer. -/
theorem size_child?_lt
    (found : edges.child? symbol = some node) :
    node.edges.size < edges.size := by
  induction edges with
  | none => simp [child?] at found
  | edge label accepting below others _ othersHypothesis =>
      unfold child? at found
      split at found
      · cases found
        simp only [size]
        omega
      · have smaller := othersHypothesis found
        simp only [size]
        omega

/-- The children of children are told apart by their labels, too. -/
theorem Distinct.child
    (distinct : edges.Distinct)
    (found : edges.child? symbol = some node) :
    node.edges.Distinct := by
  induction edges with
  | none => simp [child?] at found
  | edge label accepting below others _ othersHypothesis =>
      obtain ⟨-, belowDistinct, othersDistinct⟩ := distinct
      unfold child? at found
      split at found
      · cases found
        exact belowDistinct
      · exact othersHypothesis othersDistinct found

/-- Inserting a string extends the child under its first symbol and no other. -/
theorem child?_insert
    (label : SymbolId)
    (rest : SymbolString)
    (edges : TrieEdges) :
    (edges.insert (label :: rest)).child? symbol =
      if label = symbol then
        some (((edges.child? symbol).getD Trie.empty).insert rest)
      else
        edges.child? symbol := by
  induction edges with
  | none =>
      unfold insert
      by_cases same : label = symbol <;>
        simp [child?, same, Trie.insert, Trie.empty]
  | edge other accepting below others _ othersHypothesis =>
      unfold insert
      by_cases same : label = other
      · subst same
        by_cases sought : label = symbol <;>
          simp [child?, sought, Trie.insert]
      · by_cases sought : other = symbol
        · subst sought
          simp [child?, same]
        · simp [child?, same, sought, othersHypothesis]

/-- Inserting a string keeps the edges of every node apart. -/
theorem Distinct.insert
    (word : SymbolString)
    (edges : TrieEdges)
    (distinct : edges.Distinct) :
    (edges.insert word).Distinct := by
  induction word, edges using TrieEdges.insert.induct with
  | case1 edges =>
      simpa [TrieEdges.insert] using distinct
  | case2 symbol rest restHypothesis =>
      simp [TrieEdges.insert, Distinct, child?, restHypothesis trivial]
  | case3 rest symbol accepting below others belowHypothesis =>
      obtain ⟨apart, belowDistinct, othersDistinct⟩ := distinct
      simp [TrieEdges.insert, Distinct, apart, othersDistinct,
        belowHypothesis belowDistinct]
  | case4 symbol rest label accepting below others different othersHypothesis =>
      obtain ⟨apart, belowDistinct, othersDistinct⟩ := distinct
      simp [TrieEdges.insert, different, Distinct, child?_insert, apart,
        belowDistinct, othersHypothesis othersDistinct]

/-- The strings that begin with a symbol are those of the child under it. -/
theorem has_cons_iff
    (distinct : edges.Distinct)
    {rest : SymbolString} :
    edges.Has (symbol :: rest) ↔
      ∃ node, edges.child? symbol = some node ∧ node.Has rest := by
  induction edges with
  | none => simp [child?]
  | edge label accepting below others _ othersHypothesis =>
      obtain ⟨apart, -, othersDistinct⟩ := distinct
      rw [has_edge, othersHypothesis othersDistinct]
      by_cases same : label = symbol
      · subst same
        simp [child?, apart, Trie.Has]
      · simp [child?, same, Ne.symm same]

end TrieEdges

/-- What is known about pairs of a node, given by the path to it, and a word. -/
abbrev WalkMemo := Std.HashMap (SymbolString × Nat) Bool

/-- Ask about one span after the other until an answer is yes. -/
def anySpan
    (ask : SymbolId × Nat → WalkMemo → Bool × WalkMemo) :
    WordEdges → WalkMemo → Bool × WalkMemo
  | [], memo => (false, memo)
  | span :: rest, memo =>
      let asked := ask span memo
      if asked.1 then (true, asked.2) else anySpan ask rest asked.2

namespace Trie

/--
Whether a chain of spans from a word leads from a node to an accepting one.

An answer is looked up if it is known and noted down if it had to be found.
-/
def walk
    (words : Array WordEdges)
    (node : Trie)
    (path : SymbolString)
    (word : Nat)
    (memo : WalkMemo) :
    Bool × WalkMemo :=
  if node.accepting then
    (true, memo)
  else
    match memo[(path, word)]? with
    | some known => (known, memo)
    | none =>
        let asked :=
          anySpan
            (fun span memo =>
              match _ : node.edges.child? span.1 with
              | none => (false, memo)
              | some child => walk words child (path ++ [span.1]) span.2 memo)
            (words.getD word []) memo
        (asked.1, asked.2.insert (path, word) asked.1)
termination_by node.edges.size
decreasing_by exact TrieEdges.size_child?_lt ‹_›

/-- The words among some from which the walk succeeds, with one memory for all. -/
def walkAll
    (trie : Trie)
    (words : Array WordEdges) :
    List Nat → WalkMemo → List Nat
  | [], _ => []
  | first :: rest, memo =>
      let walked := trie.walk words [] first memo
      if walked.1 then
        first :: trie.walkAll words rest walked.2
      else
        trie.walkAll words rest walked.2

/-- The node at the end of a path. -/
def node? (trie : Trie) : SymbolString → Option Trie
  | [] => some trie
  | symbol :: rest => (trie.edges.child? symbol).bind (·.node? rest)

variable {trie node : Trie} {words : Array WordEdges}

theorem node?_append_singleton
    (path : SymbolString)
    (symbol : SymbolId) :
    trie.node? (path ++ [symbol]) =
      (trie.node? path).bind (·.edges.child? symbol) := by
  induction path generalizing trie with
  | nil => simp [node?]
  | cons head rest inductionHypothesis =>
      simp only [List.cons_append, node?, Option.bind_assoc, inductionHypothesis]

/-- No two edges of a node of the trie have the same label. -/
def Distinct (trie : Trie) : Prop :=
  trie.edges.Distinct

theorem Distinct.of_located
    (distinct : trie.Distinct)
    {path : SymbolString}
    (located : trie.node? path = some node) :
    node.Distinct := by
  induction path generalizing trie with
  | nil =>
      cases located
      exact distinct
  | cons symbol rest inductionHypothesis =>
      obtain ⟨child, found, located⟩ := Option.bind_eq_some_iff.mp located
      exact inductionHypothesis (TrieEdges.Distinct.child distinct found) located

/-- The edges of a trie of words are told apart by their labels. -/
theorem distinct_ofWords
    (strings : List SymbolString) :
    (Trie.ofWords strings).Distinct := by
  apply List.foldlRecOn (motive := Distinct)
  · exact trivial
  · intro trie distinct word _
    exact TrieEdges.Distinct.insert word trie.edges distinct

/-- A chain that does not end at once follows an edge of the node. -/
theorem reaches_iff_child
    (distinct : node.Distinct)
    (notAccepting : node.accepting = false)
    {word : Nat} :
    node.Reaches words word ↔
      ∃ span ∈ words.getD word [], ∃ child,
        node.edges.child? span.1 = some child ∧ child.Reaches words span.2 := by
  constructor
  · rintro ⟨string, ⟨-, accepting⟩ | has, last, chain⟩
    · simp [notAccepting] at accepting
    · cases chain with
      | nil => exact absurd rfl has.ne_nil
      | cons edge rest =>
          obtain ⟨child, found, has⟩ := (TrieEdges.has_cons_iff distinct).mp has
          exact ⟨_, edge, child, found, _, has, last, rest⟩
  · rintro ⟨⟨symbol, next⟩, edge, child, found, string, has, last, chain⟩
    exact ⟨symbol :: string,
      .inr ((TrieEdges.has_cons_iff distinct).mpr ⟨child, found, has⟩),
      last, .cons edge chain⟩

/-- Everything noted down is whether a chain leads on from the node of the path. -/
def Remembers (trie : Trie) (words : Array WordEdges) (memo : WalkMemo) : Prop :=
  ∀ path word known, memo[(path, word)]? = some known →
    ∃ node, trie.node? path = some node ∧
      (known = true ↔ node.Reaches words word)

theorem remembers_empty : trie.Remembers words ∅ := by
  intro path word known noted
  simp at noted

/-- A right answer may be noted down. -/
theorem Remembers.insert
    {memo : WalkMemo}
    (remembers : trie.Remembers words memo)
    {path : SymbolString}
    (located : trie.node? path = some node)
    {word : Nat}
    {answer : Bool}
    (right : answer = true ↔ node.Reaches words word) :
    trie.Remembers words (memo.insert (path, word) answer) := by
  intro otherPath otherWord known noted
  rw [Std.HashMap.getElem?_insert] at noted
  split at noted
  · rename_i same
    obtain ⟨rfl, rfl⟩ := Prod.mk.inj (beq_iff_eq.mp same)
    cases noted
    exact ⟨node, located, right⟩
  · exact remembers otherPath otherWord known noted

/-- An answer says whether something holds, and all that is noted down is right. -/
structure RightAnswer
    (trie : Trie)
    (words : Array WordEdges)
    (holds : Prop)
    (answered : Bool × WalkMemo) : Prop where
  right : answered.1 = true ↔ holds
  remembers : trie.Remembers words answered.2

/-- If the answer for every span is right, so is the one for any of them. -/
theorem rightAnswer_anySpan
    {ask : SymbolId × Nat → WalkMemo → Bool × WalkMemo}
    {Leads : SymbolId × Nat → Prop}
    {spans : WordEdges}
    (each : ∀ span ∈ spans, ∀ memo, trie.Remembers words memo →
      trie.RightAnswer words (Leads span) (ask span memo))
    {memo : WalkMemo}
    (remembers : trie.Remembers words memo) :
    trie.RightAnswer words (∃ span ∈ spans, Leads span)
      (anySpan ask spans memo) := by
  induction spans generalizing memo with
  | nil => exact ⟨by simp [anySpan], remembers⟩
  | cons span rest inductionHypothesis =>
      have first := each span List.mem_cons_self memo remembers
      have others := inductionHypothesis
        (fun other member => each other (List.mem_cons_of_mem _ member))
        first.remembers
      unfold anySpan
      rw [List.exists_mem_cons_iff, ← first.right]
      by_cases yes : (ask span memo).1 = true
      · simpa [yes] using ⟨by simp, first.remembers⟩
      · simpa [yes] using others

/-- The answer for the spans of a word is noted down as that for the word. -/
theorem RightAnswer.note
    {path : SymbolString}
    (located : trie.node? path = some node)
    (distinct : node.Distinct)
    (notAccepting : node.accepting = false)
    {word : Nat}
    {asked : Bool × WalkMemo}
    (answered : trie.RightAnswer words
      (∃ span ∈ words.getD word [], ∃ child,
        node.edges.child? span.1 = some child ∧ child.Reaches words span.2)
      asked) :
    trie.RightAnswer words (node.Reaches words word)
      (asked.1, asked.2.insert (path, word) asked.1) := by
  have right := answered.right.trans (reaches_iff_child distinct notAccepting).symm
  exact ⟨right, answered.remembers.insert located right⟩

/--
The walk answers rightly and leaves a right memory behind.

The induction is on the nodes below: spans are asked about at the children.
-/
theorem rightAnswer_walk
    (distinct : trie.Distinct)
    {path : SymbolString}
    (located : trie.node? path = some node)
    (word : Nat)
    {memo : WalkMemo}
    (remembers : trie.Remembers words memo) :
    trie.RightAnswer words (node.Reaches words word)
      (node.walk words path word memo) := by
  induction size : node.edges.size using Nat.strongRecOn
    generalizing node path word memo with
  | ind size inductionHypothesis =>
  unfold walk
  split
  next accepting =>
    have ends : node.Reaches words word :=
      ⟨[], .inl ⟨rfl, accepting⟩, word, .nil word⟩
    exact ⟨by simp [ends], remembers⟩
  next notAccepting =>
  split
  next known noted =>
    obtain ⟨other, otherLocated, right⟩ := remembers path word known noted
    obtain rfl : node = other := by simpa [located] using otherLocated
    exact ⟨right, remembers⟩
  next =>
    apply RightAnswer.note located (distinct.of_located located)
      (by simpa using notAccepting)
    apply rightAnswer_anySpan _ remembers
    intro span _ memo remembers
    split
    next missing => exact ⟨by simp [missing], remembers⟩
    next child found =>
      have childLocated : trie.node? (path ++ [span.1]) = some child := by
        rw [node?_append_singleton, located, Option.bind_some, found]
      simpa [found] using inductionHypothesis child.edges.size
        (size ▸ TrieEdges.size_child?_lt found) childLocated span.2 remembers rfl

/-- With one memory for all words, the walk succeeds from those that reach an end. -/
theorem walkAll_eq_filter
    (distinct : trie.Distinct)
    {reaches : Nat → Bool}
    (decides : ∀ first, reaches first = true ↔ trie.Reaches words first)
    {starts : List Nat}
    {memo : WalkMemo}
    (remembers : trie.Remembers words memo) :
    trie.walkAll words starts memo = starts.filter reaches := by
  induction starts generalizing memo with
  | nil => rfl
  | cons start rest inductionHypothesis =>
      have located : trie.node? [] = some trie := rfl
      have answered := rightAnswer_walk distinct located start remembers
      have agrees : (trie.walk words [] start memo).1 = reaches start :=
        Bool.eq_iff_iff.mpr (answered.right.trans (decides start).symm)
      rw [walkAll, inductionHypothesis answered.remembers, agrees,
        List.filter_cons]

/--
Viability is exact: whichever order the prefixes of a symbol are inserted in, a word
is viable if and only if a chain of spans from it spells one of them, next words
beyond the last and before the first of the chain included, and the walk that shares
its answers among all words finds these words and no others.
-/
theorem viable_exact
    (prefixes : PrefixSets)
    (symbol : SymbolId)
    {order : List SymbolString}
    (same : ∀ string, string ∈ order ↔ string ∈ prefixes.get symbol)
    (words : Array WordEdges) :
    (∀ first, ((Trie.ofWords order).viable words).contains first = true ↔
      first < words.size ∧
        ∃ string ∈ prefixes.get symbol, ∃ last, Chain words first string last) ∧
      BitSet.ofList ((Trie.ofWords order).walkAll words (List.range words.size) ∅) =
        (Trie.ofWords order).viable words := by
  constructor
  · intro first
    simp only [contains_viable_iff, Reaches, has_ofWords, same]
  · rw [walkAll_eq_filter (distinct_ofWords order) (fun _ => reaches_iff)
      remembers_empty]
    rfl

/--
One prefix begins another and they are inserted longest first: a word is viable from
which a span leads back, and one is not whose only span leads beyond the words.
-/
theorem viable_exact_backwards :
    let prefixes : PrefixSets := ⟨2, #[[], [[1], [1, 2], [2, 1]]]⟩
    let order : List SymbolString := [[2, 1], [1, 2], [1]]
    let words : Array WordEdges := #[[(1, 9)], [], [(2, 0)], [(2, 7)]]
    (∀ string, string ∈ order ↔ string ∈ prefixes.get 1) ∧
      ((Trie.ofWords order).viable words).contains 2 = true ∧
      ((Trie.ofWords order).viable words).contains 3 = false ∧
      BitSet.ofList ((Trie.ofWords order).walkAll words (List.range 4) ∅) =
        (Trie.ofWords order).viable words := by
  intro prefixes order words
  have same : ∀ string, string ∈ order ↔ string ∈ prefixes.get 1 := by
    intro string
    simp [order, prefixes, PrefixSets.get]
    grind
  have exact := viable_exact prefixes 1 same words
  refine ⟨same, ?_, ?_, exact.2⟩
  · apply (exact.1 2).mpr
    have back : (2, 0) ∈ words.getD 2 [] := by decide
    have beyond : (1, 9) ∈ words.getD 0 [] := by decide
    exact ⟨by decide, [2, 1], by decide, 9, .cons back (.cons beyond (.nil 9))⟩
  · apply Bool.eq_false_iff.mpr
    intro viable
    obtain ⟨-, string, member, last, chain⟩ := (exact.1 3).mp viable
    have listed : string = [1] ∨ string = [1, 2] ∨ string = [2, 1] := by
      simpa [prefixes, PrefixSets.get] using member
    rcases listed with rfl | rfl | rfl <;>
      simp [Chain.cons_iff, words] at chain

end Trie

end SpanForest
