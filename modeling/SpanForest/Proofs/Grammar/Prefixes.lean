import Mathlib.Data.List.Forall2
import SpanForest.Grammar.Prefixes
import SpanForest.Proofs.Grammar.Derivation

namespace SpanForest

/-!
# FIRST-k is complete and sound

FIRST-k of a symbol has the beginnings, cut to length `k`, of all the terminal
strings that the symbol derives, since it is saturated and cutting commutes with
concatenation. Everything in it is derived, whole if it is shorter than `k` and
else at the beginning of some form. Going over the rules in place, until a pass
adds nothing, comes to an end with the same prefixes as going in rounds.
-/

/-- What is related to two lists in a row falls into what is related to each. -/
theorem forall₂_split
    {α β : Type}
    {relates : α → β → Prop}
    {left right : List α}
    {items : List β}
    (each : List.Forall₂ relates (left ++ right) items) :
    ∃ first second, items = first ++ second ∧
      List.Forall₂ relates left first ∧ List.Forall₂ relates right second :=
  ⟨items.take left.length, items.drop left.length,
    (List.take_append_drop ..).symm,
    by simpa using List.forall₂_take left.length each,
    by simpa using List.forall₂_drop left.length each⟩

section Words

variable {k : Nat} {word : SymbolString}

/-- A prefix is listed with a symbol exactly if it is known of the symbol. -/
theorem mem_wordsBySymbol
    {count : Nat}
    {facts : PrefixFacts}
    {symbol : SymbolId} :
    word ∈ (wordsBySymbol count facts).getD symbol [] ↔
      symbol < count ∧ (symbol, word) ∈ facts := by
  have listed : ∀ (list : List PrefixFact) (words : Array (List SymbolString)),
      word ∈ (list.foldl
          (fun words fact => words.modify fact.1 (fact.2 :: ·))
          words).getD symbol [] ↔
        symbol < words.size ∧ (symbol, word) ∈ list ∨
          word ∈ words.getD symbol [] := by
    intro list
    induction list with
    | nil => simp
    | cons fact rest inductionHypothesis =>
        intro words
        obtain ⟨owner, stored⟩ := fact
        have content : word ∈ (words.modify owner (stored :: ·)).getD symbol [] ↔
            symbol < words.size ∧ symbol = owner ∧ word = stored ∨
              word ∈ words.getD symbol [] := by
          simp only [Array.getD_eq_getD_getElem?, Array.getElem?_modify]
          by_cases same : symbol = owner
          · subst same
            by_cases inside : symbol < words.size <;> simp [inside]
          · simp [same, Ne.symm same]
        rw [List.foldl_cons, inductionHypothesis, content, Array.size_modify,
          List.mem_cons, Prod.mk.injEq, and_or_left, or_assoc, or_left_comm]
  have start : word ∉ (Array.replicate count ([] : List SymbolString)).getD
      symbol [] := by
    by_cases inside : symbol < count <;>
      simp [Array.getD_eq_getD_getElem?, inside]
  rw [wordsBySymbol, listed, Array.size_replicate, Std.TreeSet.mem_toList]
  exact or_iff_left start

/-- What concatenations of members of two sets are when they are cut to a length. -/
theorem mem_concatenate
    {firsts seconds : List SymbolString} :
    word ∈ concatenate k firsts seconds ↔
      ∃ first ∈ firsts, k ≤ first.length ∧ word = first ∨
        first.length < k ∧ ∃ second ∈ seconds,
          word = first ++ second.take (k - first.length) := by
  rw [concatenate, Std.TreeSet.mem_toList, Std.TreeSet.mem_ofList,
    List.contains_iff_mem, List.mem_flatMap]
  refine exists_congr fun first => and_congr_right fun _ => ?_
  split
  · rename_i full
    simp [full, Nat.not_lt.mpr full]
  · rename_i short
    simp [short, Nat.lt_of_not_le short, eq_comm]

/-- Concatenations cut to a length come from parts cut to that length. -/
theorem take_mem_concatenate
    {firsts seconds : List SymbolString}
    {first second : SymbolString}
    (isFirst : first.take k ∈ firsts)
    (isSecond : second.take k ∈ seconds) :
    (first ++ second).take k ∈ concatenate k firsts seconds := by
  refine mem_concatenate.mpr ⟨first.take k, isFirst, ?_⟩
  rw [List.length_take]
  by_cases full : k ≤ first.length
  · rw [List.take_append_of_le_length full]
    exact .inl ⟨by omega, rfl⟩
  · refine .inr ⟨by omega, second.take k, isSecond, ?_⟩
    have whole : first.take k = first := List.take_of_length_le (by omega)
    have room : min (k - first.length) k = k - first.length := by omega
    rw [whole, List.take_append, whole, List.take_take,
      Nat.min_eq_right (by omega : first.length ≤ k), room]

/-- Prefixes of strings of symbols are put together from those of the symbols. -/
theorem take_mem_wordsOfSequence
    {words : Array (List SymbolString)}
    {symbols : List SymbolId}
    {strings : List SymbolString}
    (each : List.Forall₂
      (fun symbol string => string.take k ∈ words.getD symbol [])
      symbols strings) :
    strings.flatten.take k ∈ wordsOfSequence k words symbols := by
  have lengthened : ∀ (known : List SymbolString) (start : SymbolString),
      start.take k ∈ known →
        (start ++ strings.flatten).take k ∈ symbols.foldl
          (fun known symbol => concatenate k known (words.getD symbol []))
          known := by
    induction each with
    | nil =>
        intro known start isStart
        simpa using isStart
    | cons isString _ inductionHypothesis =>
        intro known start isStart
        rw [List.foldl_cons, List.flatten_cons, ← List.append_assoc]
        exact inductionHypothesis _ _ (take_mem_concatenate isStart isString)
  exact lengthened [[]] [] (by simp)

/-- A prefix that is full stays one whatever comes behind. -/
theorem mem_wordsOfSequence_append
    {words : Array (List SymbolString)}
    {symbols : List SymbolId}
    (full : k ≤ word.length)
    (member : word ∈ wordsOfSequence k words symbols)
    (behind : List SymbolId) :
    word ∈ wordsOfSequence k words (symbols ++ behind) := by
  rw [wordsOfSequence, List.foldl_append]
  unfold wordsOfSequence at member
  generalize symbols.foldl _ _ = known at member ⊢
  induction behind generalizing known with
  | nil => exact member
  | cons symbol rest inductionHypothesis =>
      exact inductionHypothesis _
        (mem_concatenate.mpr ⟨word, member, .inl ⟨full, rfl⟩⟩)

/-- More prefixes of the symbols yield more prefixes of a string of them. -/
theorem wordsOfSequence_mono
    {words others : Array (List SymbolString)}
    (more : ∀ symbol, words.getD symbol [] ⊆ others.getD symbol [])
    (symbols : List SymbolId) :
    wordsOfSequence k words symbols ⊆ wordsOfSequence k others symbols := by
  have lengthened : ∀ known larger : List SymbolString, known ⊆ larger →
      symbols.foldl
          (fun known symbol => concatenate k known (words.getD symbol []))
          known ⊆
        symbols.foldl
          (fun known symbol => concatenate k known (others.getD symbol []))
          larger := by
    induction symbols with
    | nil => exact fun _ _ included => included
    | cons symbol rest inductionHypothesis =>
        intro known larger included
        apply inductionHypothesis
        intro word member
        obtain ⟨first, isFirst, cut⟩ := mem_concatenate.mp member
        refine mem_concatenate.mpr ⟨first, included isFirst, cut.imp_right ?_⟩
        rintro ⟨short, second, isSecond, same⟩
        exact ⟨short, second, more symbol isSecond, same⟩
  exact lengthened [[]] [[]] (List.Subset.refl _)

end Words

section Rounds

variable {rules : List Rule} {count k : Nat} {facts : PrefixFacts}

/-- The facts that one rule yields from those known. -/
def ruleFacts
    (count k : Nat)
    (facts : PrefixFacts)
    (rule : Rule) :
    List PrefixFact :=
  (wordsOfSequence k (wordsBySymbol count facts) rule.symbols).map fun word =>
    (rule.lhs, word)

/-- More facts yield more facts. -/
theorem ruleFacts_mono
    {others : PrefixFacts}
    (more : ∀ fact ∈ facts, fact ∈ others)
    (rule : Rule) :
    ruleFacts count k facts rule ⊆ ruleFacts count k others rule := by
  apply List.map_subset
  apply wordsOfSequence_mono
  intro symbol word member
  obtain ⟨inside, known⟩ := mem_wordsBySymbol.mp member
  exact mem_wordsBySymbol.mpr ⟨inside, more _ known⟩

/-- Facts from which a round finds nothing new are saturated. -/
theorem saturateFacts_of_nil
    (noneFresh : freshFacts rules count k facts = []) :
    saturateFacts rules count k facts = facts := by
  unfold saturateFacts
  split
  · rfl
  · rename_i fresh
    rw [noneFresh] at fresh
    cases fresh

/-- Saturation goes on with what a round finds. -/
theorem saturateFacts_of_cons
    {first : PrefixFact}
    {others : List PrefixFact}
    (fresh : freshFacts rules count k facts = first :: others) :
    saturateFacts rules count k facts =
      saturateFacts rules count k (facts.insertMany (first :: others)) := by
  rw [saturateFacts]
  split
  · rename_i noneFresh
    rw [fresh] at noneFresh
    cases noneFresh
  · rename_i isFresh
    cases fresh.symm.trans isFresh
    rfl

/-- What every round keeps holds of the saturated facts. -/
theorem saturateFacts_induction
    {motive : PrefixFacts → Prop}
    (kept : ∀ facts, motive facts →
      motive (facts.insertMany (freshFacts rules count k facts)))
    (holds : motive facts) :
    motive (saturateFacts rules count k facts) := by
  induction facts using saturateFacts.induct rules count k with
  | case1 facts noneFresh =>
      rw [saturateFacts_of_nil noneFresh]
      exact holds
  | case2 facts first others fresh inductionHypothesis =>
      rw [saturateFacts_of_cons fresh]
      apply inductionHypothesis
      rw [← fresh]
      exact kept facts holds

/-- A round finds nothing new in saturated facts. -/
theorem freshFacts_saturateFacts :
    freshFacts rules count k (saturateFacts rules count k facts) = [] := by
  induction facts using saturateFacts.induct rules count k with
  | case1 facts noneFresh =>
      rw [saturateFacts_of_nil noneFresh]
      exact noneFresh
  | case2 facts first others fresh inductionHypothesis =>
      rw [saturateFacts_of_cons fresh]
      exact inductionHypothesis

/-- Saturation keeps every fact. -/
theorem mem_saturateFacts
    {fact : PrefixFact}
    (known : fact ∈ facts) :
    fact ∈ saturateFacts rules count k facts := by
  refine saturateFacts_induction (motive := (fact ∈ ·)) ?_ known
  exact fun facts known => Std.TreeSet.mem_insertMany_list.mpr (.inl known)

/-- Saturation adds every possible fact that a rule yields. -/
theorem mem_saturateFacts_of_ruleFacts
    {rule : Rule}
    (isRule : rule ∈ rules)
    {fact : PrefixFact}
    (yielded : fact ∈ ruleFacts count k (saturateFacts rules count k facts) rule)
    (possible : isPossibleFact count k fact = true) :
    fact ∈ saturateFacts rules count k facts := by
  have noneFresh := @freshFacts_saturateFacts rules count k facts
  have old := List.filter_eq_nil_iff.mp noneFresh fact
    (List.mem_flatMap.mpr ⟨rule, isRule, yielded⟩)
  rw [possible, Bool.true_and, Bool.not_eq_true', Bool.not_eq_false] at old
  exact Std.TreeSet.contains_iff_mem.mp old

end Rounds

namespace Grammar

/-- A string of terminals, in which the empty string is written as nothing. -/
def IsTerminalString (grammar : Grammar) (word : SymbolString) : Prop :=
  ∀ symbol ∈ word, grammar.IsTerminal symbol ∧ symbol ≠ emptyString

/--
What FIRST-k may hold of a form.

A string shorter than `k` is derived as a whole; one of length `k` need only be
the beginning of what is derived.
-/
structure PrefixOf
    (grammar : Grammar)
    (k : Nat)
    (form : List SymbolId)
    (word : SymbolString) : Prop where
  length_le : word.length ≤ k
  terminals : grammar.IsTerminalString word
  derived :
    grammar.Derives form word ∨
      word.length = k ∧ ∃ rest, grammar.Derives form (word ++ rest)

namespace PrefixOf

variable {grammar : Grammar} {k : Nat} {form other : List SymbolId}
variable {word part : SymbolString}

/-- The string without symbols is all of the empty form. -/
theorem nil : grammar.PrefixOf k [] [] where
  length_le := Nat.zero_le k
  terminals := fun _ member => by cases member
  derived := .inl .refl

/-- What begins a form that is derived begins what it is derived from. -/
theorem of_derives
    (derives : grammar.Derives form other)
    (isPrefix : grammar.PrefixOf k other word) :
    grammar.PrefixOf k form word where
  length_le := isPrefix.length_le
  terminals := isPrefix.terminals
  derived :=
    isPrefix.derived.imp derives.trans fun ⟨full, rest, leads⟩ =>
      ⟨full, rest, derives.trans leads⟩

/-- A prefix that is full begins the form with anything behind it. -/
theorem of_full
    (isPrefix : grammar.PrefixOf k form word)
    (full : k ≤ word.length)
    (after : List SymbolId) :
    grammar.PrefixOf k (form ++ after) word := by
  have length : word.length = k := Nat.le_antisymm isPrefix.length_le full
  refine ⟨isPrefix.length_le, isPrefix.terminals, .inr ⟨length, ?_⟩⟩
  rcases isPrefix.derived with whole | ⟨-, rest, begins⟩
  · exact ⟨after, whole.append .refl⟩
  · refine ⟨rest ++ after, ?_⟩
    rw [← List.append_assoc]
    exact begins.append .refl

/-- A prefix that is not full goes on with as much of the next one as there is room for. -/
theorem append
    (isPrefix : grammar.PrefixOf k form word)
    (short : word.length < k)
    (goesOn : grammar.PrefixOf k other part) :
    grammar.PrefixOf k (form ++ other)
      (word ++ part.take (k - word.length)) := by
  have whole : grammar.Derives form word :=
    isPrefix.derived.resolve_right fun ⟨full, _⟩ => Nat.ne_of_lt short full
  refine ⟨?length, ?terminals, ?derived⟩
  case length =>
    rw [List.length_append, List.length_take]
    omega
  case terminals =>
    intro symbol member
    rcases List.mem_append.mp member with first | second
    · exact isPrefix.terminals symbol first
    · exact goesOn.terminals symbol (List.mem_of_mem_take second)
  case derived =>
    by_cases fits : part.length ≤ k - word.length
    -- The next prefix fits, and if it is full itself, then it fills the room.
    · rw [List.take_of_length_le fits]
      rcases goesOn.derived with ends | ⟨full, rest, begins⟩
      · exact .inl (whole.append ends)
      · refine .inr ⟨?_, rest, ?_⟩
        · rw [List.length_append]
          have := goesOn.length_le
          omega
        · rw [List.append_assoc]
          exact whole.append begins
    · have cut : part = part.take (k - word.length) ++
          part.drop (k - word.length) :=
        (List.take_append_drop ..).symm
      refine .inr ⟨?_, ?_⟩
      · rw [List.length_append, List.length_take]
        omega
      · obtain ⟨rest, begins⟩ : ∃ rest, grammar.Derives other (part ++ rest) := by
          rcases goesOn.derived with ends | ⟨-, begins⟩
          · exact ⟨[], by simpa using ends⟩
          · exact begins
        rw [cut, List.append_assoc] at begins
        refine ⟨part.drop (k - word.length) ++ rest, ?_⟩
        rw [List.append_assoc]
        exact whole.append begins

end PrefixOf

end Grammar

section Sound

variable {grammar : Grammar} {k : Nat} {facts : PrefixFacts}

/-- Prefixes of symbols are put together to prefixes of strings of symbols. -/
theorem prefixOf_wordsOfSequence
    {words : Array (List SymbolString)}
    (each : ∀ symbol, ∀ word ∈ words.getD symbol [],
      grammar.PrefixOf k (spelled [symbol]) word)
    (symbols : List SymbolId) :
    ∀ word ∈ wordsOfSequence k words symbols,
      grammar.PrefixOf k (spelled symbols) word := by
  have lengthened : ∀ (form : List SymbolId) (known : List SymbolString),
      (∀ word ∈ known, grammar.PrefixOf k form word) →
        ∀ word ∈ symbols.foldl
            (fun known symbol => concatenate k known (words.getD symbol []))
            known,
          grammar.PrefixOf k (form ++ spelled symbols) word := by
    induction symbols with
    | nil => simp
    | cons symbol rest inductionHypothesis =>
        intro form known begun
        rw [spelled_cons, ← List.append_assoc]
        apply inductionHypothesis
        intro word member
        obtain ⟨first, isFirst, ⟨full, rfl⟩ | ⟨short, second, isSecond, rfl⟩⟩ :=
          mem_concatenate.mp member
        · exact (begun word isFirst).of_full full _
        · exact (begun first isFirst).append short (each symbol second isSecond)
  refine lengthened [] [[]] fun word member => ?_
  rw [List.mem_singleton.mp member]
  exact .nil

/-- Every fact is about a symbol and one of its prefixes. -/
def FactsHold (grammar : Grammar) (k : Nat) (facts : PrefixFacts) : Prop :=
  ∀ fact ∈ facts, fact.1 < grammar.numSymbols ∧
    grammar.PrefixOf k (spelled [fact.1]) fact.2

/-- A fact that holds is among the finitely many possible ones. -/
theorem isPossibleFact_of_prefixOf
    {fact : PrefixFact}
    (known : fact.1 < grammar.numSymbols)
    (isPrefix : grammar.PrefixOf k (spelled [fact.1]) fact.2) :
    isPossibleFact grammar.numSymbols k fact = true := by
  simp only [isPossibleFact, Bool.and_eq_true, decide_eq_true_eq,
    List.all_eq_true]
  exact ⟨⟨known, isPrefix.length_le⟩, fun symbol member =>
    (isPrefix.terminals symbol member).1.1⟩

variable (wellFormed : grammar.WellFormed)
include wellFormed

/-- What rules yield from facts that hold holds. -/
theorem prefixOf_ruleFacts
    (hold : FactsHold grammar k facts)
    {rule : Rule}
    (isRule : rule ∈ grammar.allRules)
    {fact : PrefixFact}
    (yielded : fact ∈ ruleFacts grammar.numSymbols k facts rule) :
    fact.1 < grammar.numSymbols ∧
      grammar.PrefixOf k (spelled [fact.1]) fact.2 := by
  obtain ⟨word, isWord, rfl⟩ := List.mem_map.mp yielded
  have nonterminal := wellFormed.isNonterminal_lhs isRule
  refine ⟨Grammar.lt_numSymbols_of_isNonterminal nonterminal, ?_⟩
  rw [spelled_singleton (wellFormed.ne_emptyString nonterminal)]
  apply Grammar.PrefixOf.of_derives (Grammar.derives_rule isRule)
  apply prefixOf_wordsOfSequence _ rule.symbols word isWord
  intro symbol part member
  exact (hold _ (mem_wordsBySymbol.mp member).2).2

/-- Facts that hold still do with what rules yield from them. -/
theorem factsHold_insertMany
    (hold : FactsHold grammar k facts)
    {found : List PrefixFact}
    (yielded : ∀ fact ∈ found, ∃ rule ∈ grammar.allRules,
      fact ∈ ruleFacts grammar.numSymbols k facts rule) :
    FactsHold grammar k (facts.insertMany found) := by
  intro fact member
  rcases Std.TreeSet.mem_insertMany_list.mp member with old | new
  · exact hold fact old
  · obtain ⟨rule, isRule, isYielded⟩ :=
      yielded fact (List.contains_iff_mem.mp new)
    exact prefixOf_ruleFacts wellFormed hold isRule isYielded

omit wellFormed in
/-- Every terminal is its own prefix, and the empty string has the empty one. -/
theorem factsHold_initial
    (positive : 0 < k) :
    FactsHold grammar k (.ofList (PrefixSets.initial grammar) _) := by
  intro fact member
  rw [Std.TreeSet.mem_ofList, List.contains_iff_mem] at member
  obtain ⟨symbol, isTerminal, rfl⟩ := List.mem_map.mp member
  obtain ⟨known, terminal⟩ := List.mem_filter.mp isTerminal
  have inside : symbol < grammar.numSymbols := List.mem_range.mp known
  refine ⟨inside, ?_⟩
  by_cases isEmpty : symbol = emptyString
  · subst isEmpty
    exact .nil
  · simp only [if_neg isEmpty, spelled_singleton isEmpty]
    refine ⟨positive, ?_, .inl .refl⟩
    intro other isOther
    rw [List.mem_singleton.mp isOther]
    exact ⟨⟨inside, by simpa using terminal⟩, isEmpty⟩

/-- All facts that saturation finds hold. -/
theorem factsHold_saturateFacts
    (hold : FactsHold grammar k facts) :
    FactsHold grammar k
      (saturateFacts grammar.allRules grammar.numSymbols k facts) := by
  refine saturateFacts_induction (motive := FactsHold grammar k) ?_ hold
  intro facts hold
  apply factsHold_insertMany wellFormed hold
  intro fact fresh
  exact List.mem_flatMap.mp (List.mem_filter.mp fresh).1

end Sound

namespace PrefixSets

variable {grammar : Grammar} {k : Nat}

/-- The facts that FIRST-k lists. -/
def facts (grammar : Grammar) (k : Nat) : PrefixFacts :=
  saturateFacts grammar.allRules grammar.numSymbols k (.ofList (initial grammar) _)

/-- Each symbol has the beginning of its string. -/
abbrev BeginEach
    (grammar : Grammar)
    (k : Nat) :
    List SymbolId → List SymbolString → Prop :=
  List.Forall₂ fun symbol string =>
    string.take (max k 1) ∈ (PrefixSets.compute grammar k).get symbol

section WellFormed

variable (wellFormed : grammar.WellFormed)
include wellFormed

/-- The facts about prefixes hold. -/
theorem factsHold_facts (positive : 0 < k) : FactsHold grammar k (facts grammar k) :=
  factsHold_saturateFacts wellFormed (factsHold_initial positive)

/-- FIRST-k of a symbol lists the prefixes that are known of it. -/
theorem mem_get
    {symbol : SymbolId}
    {word : SymbolString} :
    word ∈ (PrefixSets.compute grammar k).get symbol ↔
      (symbol, word) ∈ facts grammar (max k 1) := by
  have positive : 0 < max k 1 := by omega
  have listed : word ∈ (PrefixSets.compute grammar k).get symbol ↔
      word ∈ (wordsBySymbol grammar.numSymbols
        (facts grammar (max k 1))).getD symbol [] := by
    simp only [PrefixSets.compute, PrefixSets.get, facts,
      Array.getD_eq_getD_getElem?, Array.getElem?_map]
    generalize (wordsBySymbol grammar.numSymbols _)[symbol]? = stored
    cases stored with
    | none => rfl
    | some words => exact mem_sortBy
  rw [listed, mem_wordsBySymbol]
  exact and_iff_right_of_imp fun known =>
    (factsHold_facts wellFormed positive _ known).1

/-- What rules yield from the facts about prefixes is one of them. -/
theorem mem_facts_of_ruleFacts
    (positive : 0 < k)
    {rule : Rule}
    (isRule : rule ∈ grammar.allRules)
    {fact : PrefixFact}
    (yielded : fact ∈ ruleFacts grammar.numSymbols k (facts grammar k) rule) :
    fact ∈ facts grammar k := by
  obtain ⟨known, isPrefix⟩ := prefixOf_ruleFacts wellFormed
    (factsHold_facts wellFormed positive) isRule yielded
  exact mem_saturateFacts_of_ruleFacts isRule yielded
    (isPossibleFact_of_prefixOf known isPrefix)

omit wellFormed in
/-- To begin with, a terminal is known to have itself. -/
theorem spelled_mem_initial
    {symbol : SymbolId}
    (isTerminal : grammar.IsTerminal symbol) :
    (symbol, spelled [symbol]) ∈ initial grammar := by
  refine List.mem_map.mpr ⟨symbol, List.mem_filter.mpr
    ⟨List.mem_range.mpr isTerminal.1, by simp [isTerminal.2]⟩, ?_⟩
  by_cases isEmpty : symbol = emptyString
  · subst isEmpty
    rfl
  · rw [if_neg isEmpty, spelled_singleton isEmpty]

/-- FIRST-k has what a rule yields, even if only the front of it is begun. -/
theorem mem_get_of_front
    {rule : Rule}
    (isRule : rule ∈ grammar.allRules)
    {front behind : List SymbolId}
    (isRhs : rule.symbols = front ++ behind)
    {strings : List SymbolString}
    (each : BeginEach grammar k front strings)
    (enough : behind = [] ∨ max k 1 ≤ strings.flatten.length) :
    strings.flatten.take (max k 1) ∈
      (PrefixSets.compute grammar k).get rule.lhs := by
  apply (mem_get wellFormed).mpr
  apply mem_facts_of_ruleFacts wellFormed (by omega) isRule
  refine List.mem_map.mpr ⟨_, ?_, rfl⟩
  have listed : List.Forall₂ (fun symbol string => string.take (max k 1) ∈
      (wordsBySymbol grammar.numSymbols (facts grammar (max k 1))).getD symbol [])
      front strings := by
    refine each.imp fun symbol string member => mem_wordsBySymbol.mpr ?_
    have known := (mem_get wellFormed).mp member
    exact ⟨(factsHold_facts wellFormed (by omega) _ known).1, known⟩
  have begun := take_mem_wordsOfSequence listed
  rw [isRhs]
  rcases enough with rfl | full
  · rw [List.append_nil]
    exact begun
  · exact mem_wordsOfSequence_append (by rw [List.length_take]; omega) begun behind

/-- FIRST-k has every terminal, and what rules put together from what it has. -/
theorem compute_spec (k : Nat) :
    (∀ symbol, grammar.IsTerminal symbol →
      spelled [symbol] ∈ (PrefixSets.compute grammar k).get symbol) ∧
      ∀ rule ∈ grammar.allRules, ∀ strings : List SymbolString,
        BeginEach grammar k rule.symbols strings →
          strings.flatten.take (max k 1) ∈
            (PrefixSets.compute grammar k).get rule.lhs := by
  constructor
  · intro symbol isTerminal
    apply (mem_get wellFormed).mpr
    apply mem_saturateFacts
    rw [Std.TreeSet.mem_ofList, List.contains_iff_mem]
    exact spelled_mem_initial isTerminal
  · intro rule isRule strings each
    exact mem_get_of_front wellFormed isRule (List.append_nil _).symm each (.inl rfl)

/-- Strings for the symbols of a right-hand side as it is spelled fit the symbols. -/
theorem exists_forall₂_of_spelled
    {symbols : List SymbolId}
    {strings : List SymbolString}
    (each : BeginEach grammar k (spelled symbols) strings) :
    ∃ others, BeginEach grammar k symbols others ∧
      others.flatten = strings.flatten := by
  have ofEmpty : ([] : SymbolString).take (max k 1) ∈
      (PrefixSets.compute grammar k).get emptyString := by
    rw [List.take_nil]
    exact (compute_spec wellFormed k).1 emptyString
      ⟨Nat.lt_trans (by decide) wellFormed.reserved.1, wellFormed.reserved.2.2.1⟩
  induction symbols generalizing strings with
  | nil => exact ⟨strings, each, rfl⟩
  | cons symbol rest inductionHypothesis =>
      rw [spelled_cons] at each
      by_cases isEmpty : symbol = emptyString
      · subst isEmpty
        obtain ⟨others, othersEach, same⟩ := inductionHypothesis each
        exact ⟨[] :: others, .cons ofEmpty othersEach, same⟩
      · rw [spelled_singleton isEmpty, List.singleton_append] at each
        cases each with
        | @cons _ string _ later isString laterEach =>
            obtain ⟨others, othersEach, same⟩ := inductionHypothesis laterEach
            exact ⟨string :: others, .cons isString othersEach, by simp [same]⟩

/--
A terminal string that a form derives falls into strings of its symbols, and each
symbol has the beginning of its string.

The induction is on the derivation, from its end: the strings of a right-hand side
together are the string of the symbol that was rewritten.
-/
theorem exists_forall₂_of_derives
    {form : List SymbolId}
    {word : SymbolString}
    (derives : grammar.Derives form word)
    (terminals : grammar.IsTerminalString word) :
    ∃ strings, BeginEach grammar k form strings ∧ strings.flatten = word := by
  induction derives using Relation.ReflTransGen.head_induction_on with
  | refl =>
      refine ⟨word.map ([·]), ?_, by rw [← List.flatMap_def]; simp⟩
      apply List.forall₂_map_right_iff.mpr
      apply List.forall₂_same.mpr
      intro symbol member
      obtain ⟨isTerminal, notEmpty⟩ := terminals symbol member
      rw [List.take_of_length_le (Nat.le_max_right k 1)]
      simpa only [spelled_singleton notEmpty] using
        (compute_spec wellFormed k).1 symbol isTerminal
  | head rewrites _ inductionHypothesis =>
      obtain ⟨strings, each, whole⟩ := inductionHypothesis
      cases rewrites with
      | @rule rule before after isRule =>
          obtain ⟨left, rest, rfl, leftEach, restEach⟩ := forall₂_split each
          obtain ⟨middle, right, rfl, middleEach, rightEach⟩ :=
            forall₂_split restEach
          obtain ⟨parts, partsEach, same⟩ :=
            exists_forall₂_of_spelled wellFormed middleEach
          refine ⟨left ++ parts.flatten :: right, ?_, ?_⟩
          · exact List.rel_append leftEach (.cons
              ((compute_spec wellFormed k).2 rule isRule parts partsEach)
              rightEach)
          · rw [← whole, same]
            simp

/-- FIRST-k of a symbol has the beginning of every terminal string that it derives. -/
theorem take_mem_get
    {symbol : SymbolId}
    {word : SymbolString}
    (derives : grammar.Derives (spelled [symbol]) word)
    (terminals : grammar.IsTerminalString word) :
    word.take (max k 1) ∈ (PrefixSets.compute grammar k).get symbol := by
  obtain ⟨strings, each, rfl⟩ :=
    exists_forall₂_of_derives wellFormed derives terminals
  obtain ⟨others, othersEach, same⟩ := exists_forall₂_of_spelled wellFormed each
  cases othersEach with
  | cons isString none =>
      cases none
      rw [← same, List.flatten_singleton]
      exact isString

/--
A form that derives something with a terminal in front can be begun by that terminal.

The induction is on the derivation, from its end. If the terminal comes from inside
a right-hand side, then it begins the symbol that was rewritten, whatever is behind
it there.
-/
theorem exists_begun_of_derives
    (short : k ≤ 1)
    {form rest : List SymbolId}
    {terminal : SymbolId}
    (derives : grammar.Derives form (terminal :: rest))
    (isTerminal : grammar.IsTerminal terminal)
    (notEmpty : terminal ≠ emptyString) :
    ∃ front behind strings, form = front ++ behind ∧
      BeginEach grammar k front strings ∧ strings.flatten = [terminal] := by
  induction derives using Relation.ReflTransGen.head_induction_on with
  | refl =>
      refine ⟨[terminal], rest, [[terminal]], rfl, .cons ?_ .nil, rfl⟩
      rw [List.take_of_length_le (Nat.le_max_right k 1)]
      simpa only [spelled_singleton notEmpty] using
        (compute_spec wellFormed k).1 terminal isTerminal
  | head rewrites _ inductionHypothesis =>
      obtain ⟨front, behind, strings, whole, each, isOwn⟩ := inductionHypothesis
      cases rewrites with
      | @rule rule before after isRule =>
          rcases List.append_eq_append_iff.mp whole with
            ⟨part, rfl, isRest⟩ | ⟨later, rfl, rfl⟩
          · obtain ⟨left, middle, rfl, leftEach, middleEach⟩ := forall₂_split each
            rcases List.append_eq_append_iff.mp isRest with
              ⟨later, rfl, rfl⟩ | ⟨later, isSpelled, rfl⟩
            · obtain ⟨own, right, rfl, ownEach, rightEach⟩ :=
                forall₂_split middleEach
              obtain ⟨parts, partsEach, same⟩ :=
                exists_forall₂_of_spelled wellFormed ownEach
              refine ⟨before ++ rule.lhs :: later, behind,
                left ++ parts.flatten :: right, by simp, ?_, ?_⟩
              · exact List.rel_append leftEach (.cons
                  ((compute_spec wellFormed k).2 rule isRule parts partsEach)
                  rightEach)
              · rw [← isOwn, same]
                simp
            · rw [List.flatten_append] at isOwn
              rcases List.append_eq_singleton_iff.mp isOwn with
                ⟨isLeft, isMiddle⟩ | ⟨isLeft, -⟩
              · obtain ⟨first, second, isRhs, rfl, -⟩ :=
                  List.filter_eq_append_iff.mp isSpelled
                obtain ⟨parts, partsEach, same⟩ :=
                  exists_forall₂_of_spelled wellFormed middleEach
                rw [isMiddle] at same
                have begun := mem_get_of_front wellFormed isRule isRhs partsEach
                  (.inr (by rw [same]; exact Nat.max_le.mpr ⟨short, Nat.le_refl 1⟩))
                refine ⟨before ++ [rule.lhs], after, left ++ [parts.flatten],
                  by simp, List.rel_append leftEach (.cons begun .nil), ?_⟩
                simp [isLeft, same]
              · exact ⟨before, rule.lhs :: after, left, rfl, leftEach, isLeft⟩
          · exact ⟨front, later ++ rule.lhs :: after, strings, by simp, each, isOwn⟩

/-- Where one symbol is looked at, FIRST-k has every terminal that begins what is derived. -/
theorem singleton_mem_get
    (short : k ≤ 1)
    {symbol terminal : SymbolId}
    {rest : List SymbolId}
    (derives : grammar.Derives [symbol] (terminal :: rest))
    (isTerminal : grammar.IsTerminal terminal)
    (notEmpty : terminal ≠ emptyString) :
    [terminal] ∈ (PrefixSets.compute grammar k).get symbol := by
  obtain ⟨front, behind, strings, isForm, each, isOwn⟩ :=
    exists_begun_of_derives wellFormed short derives isTerminal notEmpty
  cases each with
  | nil => cases isOwn
  | @cons first string others later isString laterEach =>
      obtain ⟨rfl, isRest⟩ := List.cons.inj isForm
      obtain ⟨rfl, -⟩ := List.append_eq_nil_iff.mp isRest.symm
      cases laterEach
      rw [List.flatten_singleton] at isOwn
      rwa [isOwn, Nat.max_eq_right short] at isString

/-- What FIRST-k of a symbol has is a prefix of what the symbol derives. -/
theorem prefixOf_of_mem_get
    {symbol : SymbolId}
    {word : SymbolString}
    (member : word ∈ (PrefixSets.compute grammar k).get symbol) :
    symbol < grammar.numSymbols ∧
      grammar.PrefixOf (max k 1) (spelled [symbol]) word :=
  factsHold_facts wellFormed (by omega) _ ((mem_get wellFormed).mp member)

omit wellFormed in
/-- If all nonterminals derive terminal strings, then so do all forms. -/
theorem exists_terminalString
    (productive : ∀ symbol, grammar.isNonterminal symbol = true →
      ∃ word, grammar.IsTerminalString word ∧ grammar.Derives [symbol] word)
    {form : List SymbolId}
    (known : ∀ symbol ∈ form,
      symbol < grammar.numSymbols ∧ symbol ≠ emptyString) :
    ∃ word, grammar.IsTerminalString word ∧ grammar.Derives form word := by
  induction form with
  | nil => exact ⟨[], fun _ member => (by cases member), .refl⟩
  | cons symbol rest inductionHypothesis =>
      obtain ⟨symbolKnown, restKnown⟩ := List.forall_mem_cons.mp known
      obtain ⟨last, lastTerminals, restDerives⟩ := inductionHypothesis restKnown
      obtain ⟨first, firstTerminals, derives⟩ :
          ∃ word, grammar.IsTerminalString word ∧
            grammar.Derives [symbol] word := by
        cases kind : grammar.isNonterminal symbol with
        | true => exact productive symbol kind
        | false =>
            refine ⟨[symbol], fun other member => ?_, .refl⟩
            rw [List.mem_singleton.mp member]
            exact ⟨⟨symbolKnown.1, kind⟩, symbolKnown.2⟩
      refine ⟨first ++ last, fun other member => ?_, derives.append restDerives⟩
      rcases List.mem_append.mp member with inFirst | inLast
      · exact firstTerminals other inFirst
      · exact lastTerminals other inLast

/-- Where all nonterminals derive terminal strings, prefixes begin terminal strings. -/
theorem exists_word_of_prefixOf
    (productive : ∀ symbol, grammar.isNonterminal symbol = true →
      ∃ word, grammar.IsTerminalString word ∧ grammar.Derives [symbol] word)
    {symbol : SymbolId}
    (inside : symbol < grammar.numSymbols)
    {part : SymbolString}
    (isPrefix : grammar.PrefixOf k (spelled [symbol]) part) :
    ∃ word, grammar.IsTerminalString word ∧
      grammar.Derives (spelled [symbol]) word ∧ word.take k = part := by
  rcases isPrefix.derived with whole | ⟨full, rest, begins⟩
  · exact ⟨part, isPrefix.terminals, whole,
      List.take_of_length_le isPrefix.length_le⟩
  have known : ∀ other ∈ part ++ rest,
      other < grammar.numSymbols ∧ other ≠ emptyString := by
    apply wellFormed.known_of_derives begins
    intro other member
    obtain ⟨isOwn, notEmpty⟩ := List.mem_filter.mp member
    rw [List.mem_singleton.mp isOwn] at notEmpty ⊢
    exact ⟨inside, bne_iff_ne.mp notEmpty⟩
  obtain ⟨word, terminals, derives⟩ := exists_terminalString productive
    fun other member => known other (List.mem_append_right part member)
  refine ⟨part ++ word, fun other member => ?_,
    begins.trans (Grammar.Derives.append .refl derives), by simp [← full]⟩
  rcases List.mem_append.mp member with inPart | inWord
  · exact isPrefix.terminals other inPart
  · exact terminals other inWord

end WellFormed

end PrefixSets

section Passes

variable {rules : List Rule} {count k : Nat}

/--
Add the facts that one rule yields, as the sets grow in place.

The flag tells whether some fact was new.
-/
def addPrefixes
    (count k : Nat)
    (state : Bool × PrefixFacts)
    (rule : Rule) :
    Bool × PrefixFacts :=
  let found := ruleFacts count k state.2 rule
  (state.1 || found.any fun fact => !state.2.contains fact,
    state.2.insertMany found)

/-- One pass over rules, each of which makes use of what the rules before it added. -/
def prefixPass
    (rules : List Rule)
    (count k : Nat)
    (facts : PrefixFacts) :
    Bool × PrefixFacts :=
  rules.foldl (addPrefixes count k) (false, facts)

/-- Facts that got more, as the flag tells. -/
structure FactsGrow (before after : Bool × PrefixFacts) : Prop where
  kept : ∀ fact ∈ before.2, fact ∈ after.2
  told : after.1 = true → before.1 = true ∨ ∃ fact ∈ after.2, fact ∉ before.2
  quiet :
    after.1 = false → before.1 = false ∧ ∀ fact ∈ after.2, fact ∈ before.2

namespace FactsGrow

variable {first second third : Bool × PrefixFacts}

theorem refl (state : Bool × PrefixFacts) : FactsGrow state state where
  kept _ := id
  told := .inl
  quiet isQuiet := ⟨isQuiet, fun _ => id⟩

theorem trans
    (early : FactsGrow first second)
    (late : FactsGrow second third) :
    FactsGrow first third where
  kept fact known := late.kept fact (early.kept fact known)
  told isTold := by
    rcases late.told isTold with earlyTold | ⟨fact, gained, lacked⟩
    · refine (early.told earlyTold).imp_right ?_
      rintro ⟨fact, gained, lacked⟩
      exact ⟨fact, late.kept fact gained, lacked⟩
    · exact .inr ⟨fact, gained, fun known => lacked (early.kept fact known)⟩
  quiet isQuiet := by
    obtain ⟨lateQuiet, lateSame⟩ := late.quiet isQuiet
    obtain ⟨earlyQuiet, earlySame⟩ := early.quiet lateQuiet
    exact ⟨earlyQuiet, fun fact known => earlySame fact (lateSame fact known)⟩

end FactsGrow

/-- Adding the facts of a rule tells whether some of them was new. -/
theorem factsGrow_addPrefixes
    (state : Bool × PrefixFacts)
    (rule : Rule) :
    FactsGrow state (addPrefixes count k state rule) where
  kept fact known := Std.TreeSet.mem_insertMany_list.mpr (.inl known)
  told isTold := by
    refine ((Bool.or_eq_true _ _).mp isTold).imp_right fun isNew => ?_
    obtain ⟨fact, yielded, absent⟩ := List.any_eq_true.mp isNew
    refine ⟨fact, Std.TreeSet.mem_insertMany_list.mpr
      (.inr (List.contains_iff_mem.mpr yielded)), fun known => ?_⟩
    rw [Std.TreeSet.contains_iff_mem.mpr known] at absent
    cases absent
  quiet isQuiet := by
    obtain ⟨wasQuiet, noneNew⟩ := Bool.or_eq_false_iff.mp isQuiet
    refine ⟨wasQuiet, fun fact known => ?_⟩
    rcases Std.TreeSet.mem_insertMany_list.mp known with old | yielded
    · exact old
    · have held := List.any_eq_false.mp noneNew fact
        (List.contains_iff_mem.mp yielded)
      simpa using held

/-- A pass over rules adds facts; if it adds none, the facts are closed. -/
theorem factsGrow_foldl
    (state : Bool × PrefixFacts) :
    FactsGrow state (rules.foldl (addPrefixes count k) state) ∧
      ((rules.foldl (addPrefixes count k) state).1 = false →
        ∀ rule ∈ rules, ∀ fact ∈ ruleFacts count k state.2 rule,
          fact ∈ state.2) := by
  induction rules generalizing state with
  | nil => exact ⟨.refl _, fun _ _ member => by cases member⟩
  | cons rule rest inductionHypothesis =>
      have added := @factsGrow_addPrefixes count k state rule
      obtain ⟨later, closed⟩ :=
        inductionHypothesis (addPrefixes count k state rule)
      refine ⟨added.trans later, fun isQuiet other isRule fact yielded => ?_⟩
      obtain ⟨-, same⟩ := added.quiet (later.quiet isQuiet).1
      rcases List.mem_cons.mp isRule with rfl | inRest
      · apply same
        exact Std.TreeSet.mem_insertMany_list.mpr
          (.inr (List.contains_iff_mem.mpr yielded))
      · apply same
        apply closed isQuiet other inRest
        exact ruleFacts_mono added.kept other yielded

/-- Facts that are closed under the rules are not left by a pass over them. -/
theorem foldl_addPrefixes_subset
    {closed : PrefixFacts}
    (isClosed : ∀ rule ∈ rules, ∀ fact ∈ ruleFacts count k closed rule,
      fact ∈ closed)
    (state : Bool × PrefixFacts)
    (inside : ∀ fact ∈ state.2, fact ∈ closed) :
    ∀ fact ∈ (rules.foldl (addPrefixes count k) state).2, fact ∈ closed := by
  refine List.foldlRecOn (motive := fun state : Bool × PrefixFacts =>
    ∀ fact ∈ state.2, fact ∈ closed) rules _ inside ?_
  intro state inside rule isRule fact known
  rcases Std.TreeSet.mem_insertMany_list.mp known with old | yielded
  · exact inside fact old
  · exact isClosed rule isRule fact
      (ruleFacts_mono inside rule (List.contains_iff_mem.mp yielded))

/-- Facts that are closed under the rules are not left by rounds either. -/
theorem saturateFacts_subset
    {facts closed : PrefixFacts}
    (isClosed : ∀ rule ∈ rules, ∀ fact ∈ ruleFacts count k closed rule,
      fact ∈ closed)
    (inside : ∀ fact ∈ facts, fact ∈ closed) :
    ∀ fact ∈ saturateFacts rules count k facts, fact ∈ closed := by
  refine saturateFacts_induction (motive := fun facts : PrefixFacts =>
    ∀ fact ∈ facts, fact ∈ closed) ?_ inside
  intro facts inside fact known
  rcases Std.TreeSet.mem_insertMany_list.mp known with old | fresh
  · exact inside fact old
  · obtain ⟨rule, isRule, yielded⟩ := List.mem_flatMap.mp
      (List.mem_filter.mp (List.contains_iff_mem.mp fresh)).1
    exact isClosed rule isRule fact (ruleFacts_mono inside rule yielded)

section WellFormed

variable {grammar : Grammar} {facts : PrefixFacts}
variable (wellFormed : grammar.WellFormed)
include wellFormed

/-- Facts that hold still do after a pass over the rules. -/
theorem factsHold_prefixPass
    (hold : FactsHold grammar k facts) :
    FactsHold grammar k
      (prefixPass grammar.allRules grammar.numSymbols k facts).2 := by
  refine List.foldlRecOn
    (motive := fun state : Bool × PrefixFacts => FactsHold grammar k state.2)
    grammar.allRules _ hold ?_
  intro state hold rule isRule
  exact factsHold_insertMany wellFormed hold fun fact yielded =>
    ⟨rule, isRule, yielded⟩

/-- A pass that tells of new facts leaves fewer of the possible ones missing. -/
theorem missingFacts_prefixPass_lt
    (hold : FactsHold grammar k facts)
    (isTold :
      (prefixPass grammar.allRules grammar.numSymbols k facts).1 = true) :
    missingFacts (possibleFacts grammar.numSymbols k)
        (prefixPass grammar.allRules grammar.numSymbols k facts).2.contains <
      missingFacts (possibleFacts grammar.numSymbols k) facts.contains := by
  have grows := (@factsGrow_foldl grammar.allRules grammar.numSymbols k
    (false, facts)).1
  obtain ⟨fact, gained, lacked⟩ :=
    (grows.told isTold).resolve_left Bool.false_ne_true
  obtain ⟨known, isPrefix⟩ := factsHold_prefixPass wellFormed hold fact gained
  apply missingFacts_lt _
    (mem_possibleFacts (isPossibleFact_of_prefixOf known isPrefix))
  · exact Bool.eq_false_iff.mpr fun held =>
      lacked (Std.TreeSet.contains_iff_mem.mp held)
  · exact Std.TreeSet.contains_iff_mem.mpr gained
  · intro other held
    exact Std.TreeSet.contains_iff_mem.mpr
      (grows.kept other (Std.TreeSet.contains_iff_mem.mp held))

/--
Passes that go over the rules in place come to an end by themselves, and find the
facts that rounds find.

Both are closed under the rules, and neither leaves what is closed.
-/
theorem repeatRounds_prefixPass
    (positive : 0 < k) :
    ∃ passes found,
      (∀ more,
        repeatRounds (prefixPass grammar.allRules grammar.numSymbols k)
            ((possibleFacts grammar.numSymbols k).length + 1 + more)
            (.ofList (PrefixSets.initial grammar) _) =
          (passes, found)) ∧
        ∀ fact, fact ∈ found ↔ fact ∈ PrefixSets.facts grammar k := by
  let initial : PrefixFacts := .ofList (PrefixSets.initial grammar) _
  let missing : PrefixFacts → Nat := fun facts =>
    missingFacts (possibleFacts grammar.numSymbols k) facts.contains
  have initialHold : FactsHold grammar k initial := factsHold_initial positive
  have enough : missing initial < (possibleFacts grammar.numSymbols k).length + 1 :=
    Nat.lt_succ_of_le List.countP_le_length
  have closed := fun rule isRule fact =>
    @PrefixSets.mem_facts_of_ruleFacts grammar k wellFormed positive rule isRule
      fact
  have same := @repeatRounds_add _
    (prefixPass grammar.allRules grammar.numSymbols k) (FactsHold grammar k)
    missing (fun _ => factsHold_prefixPass wellFormed)
    (fun _ => missingFacts_prefixPass_lt wellFormed) _ initial initialHold enough
  obtain ⟨last, ⟨-, begun, within⟩, isLast⟩ := @exists_stable_repeatRounds _
    (prefixPass grammar.allRules grammar.numSymbols k)
    (fun facts => FactsHold grammar k facts ∧
      (∀ fact ∈ initial, fact ∈ facts) ∧
        ∀ fact ∈ facts, fact ∈ PrefixSets.facts grammar k)
    missing
    (by
      rintro facts ⟨hold, begun, within⟩
      refine ⟨factsHold_prefixPass wellFormed hold, fun fact known => ?_,
        foldl_addPrefixes_subset closed (false, facts) within⟩
      exact (factsGrow_foldl (false, facts)).1.kept fact (begun fact known))
    (fun _ ⟨hold, _⟩ => missingFacts_prefixPass_lt wellFormed hold) _ initial
    ⟨initialHold, fun _ => id, fun _ => mem_saturateFacts⟩ enough
  obtain ⟨grows, lastClosed⟩ := @factsGrow_foldl grammar.allRules
    grammar.numSymbols k (false, last)
  have isQuiet : (prefixPass grammar.allRules grammar.numSymbols k last).1 =
      false := by
    rw [isLast]
  refine ⟨_, _, same, fun fact => ?_⟩
  have unchanged := (grows.quiet isQuiet).2
  have kept := grows.kept
  rw [show grammar.allRules.foldl _ (false, last) = _ from isLast]
    at unchanged kept
  constructor
  · exact fun known => within fact (unchanged fact known)
  · intro known
    apply kept
    exact saturateFacts_subset (lastClosed isQuiet) begun fact known

end WellFormed

end Passes

/--
FIRST-k is complete and sound; a length of zero counts as one.

A symbol has the beginning, cut to the length, of every terminal string that it
derives. What it has is no longer than that, and is derived as a whole or is full
and begins a form that is derived. So where every nonterminal derives a terminal
string, a symbol has exactly the beginnings of its terminal strings. Passes over the
rules in place, as many as are allowed, end by themselves with the same prefixes.
-/
theorem PrefixSets.prefixes_exact
    {builder : GrammarBuilder}
    {grammar : Grammar}
    (built : builder.build = .ok grammar)
    (k : Nat) :
    (∀ symbol word, grammar.IsTerminalString word →
      grammar.Derives (spelled [symbol]) word →
        word.take (max k 1) ∈ (PrefixSets.compute grammar k).get symbol) ∧
      (∀ symbol, ∀ part ∈ (PrefixSets.compute grammar k).get symbol,
        part.length ≤ max k 1 ∧ grammar.IsTerminalString part ∧
          (grammar.Derives (spelled [symbol]) part ∨
            part.length = max k 1 ∧
              ∃ rest, grammar.Derives (spelled [symbol]) (part ++ rest))) ∧
      ((∀ symbol, grammar.isNonterminal symbol = true →
          ∃ word, grammar.IsTerminalString word ∧
            grammar.Derives [symbol] word) →
        ∀ symbol part,
          part ∈ (PrefixSets.compute grammar k).get symbol ↔
            ∃ word, grammar.IsTerminalString word ∧
              grammar.Derives (spelled [symbol]) word ∧
                word.take (max k 1) = part) ∧
      ∃ passes found,
        (∀ more,
          repeatRounds (prefixPass grammar.allRules grammar.numSymbols (max k 1))
              ((possibleFacts grammar.numSymbols (max k 1)).length + 1 + more)
              (.ofList (PrefixSets.initial grammar) _) =
            (passes, found)) ∧
          ∀ symbol part,
            part ∈ (PrefixSets.compute grammar k).get symbol ↔
              (symbol, part) ∈ found := by
  have wellFormed := GrammarBuilder.wellFormed_of_build built
  refine ⟨?complete, ?sound, ?exact, ?ends⟩
  case complete =>
    intro symbol word terminals derives
    exact take_mem_get wellFormed derives terminals
  case sound =>
    intro symbol part member
    obtain ⟨length, terminals, derived⟩ :=
      (prefixOf_of_mem_get wellFormed member).2
    exact ⟨length, terminals, derived⟩
  case exact =>
    intro productive symbol part
    constructor
    · intro member
      obtain ⟨inside, isPrefix⟩ := prefixOf_of_mem_get wellFormed member
      exact exists_word_of_prefixOf wellFormed productive inside isPrefix
    · rintro ⟨word, terminals, derives, rfl⟩
      exact take_mem_get wellFormed derives terminals
  case ends =>
    obtain ⟨passes, found, ends, same⟩ :=
      @repeatRounds_prefixPass (max k 1) grammar wellFormed (by omega)
    refine ⟨passes, found, ends, fun symbol part => ?_⟩
    rw [mem_get wellFormed, same]

/--
In `S → A B y` with `A → x` and `B → ε`, all nonterminals derive terminal strings,
and the start symbol has `x y`.
-/
theorem PrefixSets.prefixes_exact_suffix :
    suffixBuilder.build = .ok suffixGrammar ∧
      (∀ symbol, suffixGrammar.isNonterminal symbol = true →
        ∃ word, suffixGrammar.IsTerminalString word ∧
          suffixGrammar.Derives [symbol] word) ∧
      suffixGrammar.IsTerminalString [6, 7] ∧
      suffixGrammar.Derives (spelled [3]) [6, 7] ∧
      [6, 7] ∈ (PrefixSets.compute suffixGrammar 2).get 3 := by
  have isTerminal : ∀ symbol, symbol = 0 ∨ symbol = 6 ∨ symbol = 7 →
      suffixGrammar.IsTerminal symbol ∧ symbol ≠ emptyString := by
    rintro symbol (rfl | rfl | rfl) <;> exact ⟨⟨by decide, rfl⟩, by decide⟩
  have isRule : ∀ id, id < 3 → suffixGrammar.rule id ∈ suffixGrammar.allRules :=
    fun id inside => Grammar.mem_allRules.mpr (.inl (Grammar.rule_mem inside))
  have root : suffixGrammar.rootRule ∈ suffixGrammar.allRules :=
    Grammar.mem_allRules.mpr (.inr rfl)
  have readsX : suffixGrammar.Derives [4] [6] :=
    Grammar.derives_rule (isRule 1 (by decide))
  have derives : suffixGrammar.Derives [3] [6, 7] :=
    suffixGrammar_derives.trans (readsX.within [] [7])
  have whole : suffixGrammar.Derives [rootSymbol] [3, endOfInput] :=
    Grammar.derives_rule root
  have terminals : suffixGrammar.IsTerminalString [6, 7] := by
    intro symbol member
    exact isTerminal symbol (.inr (List.mem_pair.mp member))
  have productive : ∀ symbol, suffixGrammar.isNonterminal symbol = true →
      ∃ word, suffixGrammar.IsTerminalString word ∧
        suffixGrammar.Derives [symbol] word := by
    intro symbol nonterminal
    have listed : ∀ symbol < 8, suffixGrammar.isNonterminal symbol = true →
        symbol = 2 ∨ symbol = 3 ∨ symbol = 4 ∨ symbol = 5 := by
      decide
    rcases listed symbol (Grammar.lt_numSymbols_of_isNonterminal nonterminal)
      nonterminal with rfl | rfl | rfl | rfl
    · refine ⟨[6, 7, 0], fun symbol member => isTerminal symbol ?_,
        whole.trans (derives.within [] [0])⟩
      rcases List.mem_cons.mp member with rfl | later
      · exact .inr (.inl rfl)
      · exact (List.mem_pair.mp later).elim (fun isY => .inr (.inr isY)) .inl
    · exact ⟨[6, 7], terminals, derives⟩
    · refine ⟨[6], fun symbol member => isTerminal symbol ?_, readsX⟩
      exact .inr (.inl (List.mem_singleton.mp member))
    · exact ⟨[], fun _ member => (by cases member),
        Grammar.derives_rule (isRule 2 (by decide))⟩
  exact ⟨build_suffixBuilder, productive, terminals, derives,
    ((prefixes_exact build_suffixBuilder 2).2.2.1 productive 3 [6, 7]).mpr
      ⟨[6, 7], terminals, derives, rfl⟩⟩

end SpanForest
