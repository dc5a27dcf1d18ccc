import SpanForest.Proofs.Grammar.FirstFollow
import SpanForest.Proofs.Grammar.Prefixes
import SpanForest.Proofs.Grammar.Viability
import SpanForest.Proofs.Parser.Completed

namespace SpanForest

/-!
# What can be derived from the words

A span ahead at a word derives its terminal up to the word behind the span. A
rule whose right-hand side is derived from one word to the next, by spans on
which its predicates hold, derives its left-hand side from the first word to the
last. Spans that are derived one behind the other do not overlap, begin with a
terminal in FIRST of their symbol, and spell a string that FIRST-k knows.
-/

namespace Parser

/-- The span that a rule composes from spans, with a number of its own. -/
def composed (parser : Parser) (rule : Rule) (rhs : List Span) : Span :=
  { Span.new parser.spans.nextId (some rule.lhs)
      (parser.compiled.grammar.name rule.lhs) (rhs.headD default).start
      (rhs.getLastD default).stop with
    features := (rhs.getD rule.rootIndex default).features }

/-- What settles the truth of predicates if the host knows none of them. -/
abbrev ownSituation (parser : Parser) : Situation :=
  parser.situation fun _ _ => false

/-- Spans that can be derived from the spans ahead, from one word to another. -/
inductive Derives (parser : Parser) : Nat → SymbolId → Span → Nat → Prop where
  | read {word id : Nat} {symbol : SymbolId} :
      parser.Candidate word id →
      (parser.spans.get id).symbol = some symbol →
      Derives parser word symbol (parser.spans.get id)
        (nextWord parser.words word (parser.spans.get id).stop)
  | reduce {rule : RuleId} {words : Nat → Nat} {spans : Nat → Span} :
      rule < parser.compiled.grammar.rules.size →
      (∀ position part,
        (parser.compiled.grammar.rule rule).rhs[position]? = some part →
          Derives parser (words position) part.symbol (spans position)
            (words (position + 1))) →
      (∀ position part id,
        (parser.compiled.grammar.rule rule).rhs[position]? = some part →
          part.predicate = some id →
            Truth parser.ownSituation id (spans position) true) →
      Derives parser (words 0) (parser.compiled.grammar.rule rule).lhs
        (parser.composed (parser.compiled.grammar.rule rule)
          ((List.range (parser.compiled.grammar.rule rule).length).map spans))
        (words (parser.compiled.grammar.rule rule).length)

variable {σ : Type} {host : Host σ}
variable {grammar : Grammar} {options : CompileOptions}
variable {parser start : Parser}

section Composed

variable {rule : Rule} {spans : Nat → Span}

theorem start_composed
    (nonempty : 0 < rule.length) :
    (parser.composed rule ((List.range rule.length).map spans)).start =
      (spans 0).start := by
  obtain ⟨count, isLength⟩ := Nat.exists_eq_add_of_lt nonempty
  rw [isLength]
  simp [composed, Span.new, List.range_succ_eq_map]

theorem stop_composed
    (nonempty : 0 < rule.length) :
    (parser.composed rule ((List.range rule.length).map spans)).stop =
      (spans (rule.length - 1)).stop := by
  obtain ⟨count, isLength⟩ := Nat.exists_eq_add_of_lt nonempty
  rw [isLength]
  simp [composed, Span.new, List.range_succ]

theorem features_composed
    (inside : rule.rootIndex < rule.length) :
    (parser.composed rule ((List.range rule.length).map spans)).features =
      (spans rule.rootIndex).features := by
  simp [composed, Span.new, inside]

end Composed

/-- How a span that is derived lies among the words. -/
structure Spanned (parser : Parser) (word : Nat) (span : Span) (last : Nat) : Prop where
  begins : ∃ ahead, parser.words[word]? = some ahead ∧ ahead.start = span.start
  proper : span.start ≤ span.stop
  ends : ∀ ahead, parser.words[last]? = some ahead → span.stop ≤ ahead.start
  after : word < last
  inside : last ≤ parser.words.length

/-- A candidate begins at its word. -/
theorem Candidate.begins
    (sound : parser.Sound host grammar options)
    {word id : Nat}
    (candidate : parser.Candidate word id) :
    (∃ ahead, parser.words[word]? = some ahead ∧
        ahead.start = (parser.spans.get id).start) ∧
      (parser.spans.get id).start ≤ (parser.spans.get id).stop := by
  have own : ∀ ahead, parser.words[word]? = some ahead →
      ∀ base : Nat, base ∈ ahead.spans →
        ahead.start = (parser.spans.get base).start ∧
          (parser.spans.get base).start ≤ (parser.spans.get base).stop := by
    intro ahead isAhead base member
    obtain ⟨inInput, isStart⟩ := sound.loaded.word_input ahead
      (List.mem_of_getElem? isAhead) base member
    exact ⟨isStart.symm, sound.loaded.ordered.input_proper base inInput⟩
  cases candidate with
  | input isAhead member =>
      obtain ⟨isStart, proper⟩ := own _ isAhead _ member
      exact ⟨⟨_, isAhead, isStart⟩, proper⟩
  | synthesized isAhead member _ _ stored =>
      obtain ⟨declaration, -, synthesizes⟩ :=
        sound.remembers.synthesized _ _ _ stored
      rw [SpanStore.get_of_get? synthesizes.stored]
      obtain ⟨isStart, proper⟩ := own _ isAhead _ member
      exact ⟨⟨_, isAhead, isStart⟩, proper⟩

/-- Derived spans follow the words. -/
theorem Derives.spanned
    (wellFormed : grammar.WellFormed)
    (sound : parser.Sound host grammar options)
    {word last : Nat}
    {symbol : SymbolId}
    {span : Span}
    (derives : parser.Derives word symbol span last) :
    parser.Spanned word span last := by
  induction derives with
  | @read word id symbol candidate isSymbol =>
      obtain ⟨⟨ahead, isAhead, isStart⟩, proper⟩ := candidate.begins sound
      have inside := (List.getElem?_eq_some_iff.mp isAhead).1
      exact ⟨⟨ahead, isAhead, isStart⟩, proper, fun _ isNext => le_start_nextWord isNext,
        lt_nextWord, nextWord_le_length inside⟩
  | @reduce rule words spans user parts holds inductionHypothesis =>
      have isGrammar : parser.compiled.grammar = grammar := sound.loaded.isGrammar
      have nonempty : 0 < (parser.compiled.grammar.rule rule).length := by
        rw [isGrammar] at user ⊢
        exact wellFormed.length_pos
          (Grammar.mem_allRules.mpr (.inl (Grammar.rule_mem user)))
      generalize parser.compiled.grammar.rule rule = production
        at inductionHypothesis nonempty ⊢
      have spanned : ∀ position, position < production.length →
          parser.Spanned (words position) (spans position)
            (words (position + 1)) :=
        fun position inside => inductionHypothesis position _
          (List.getElem?_eq_getElem inside)
      have first := spanned 0 nonempty
      have last := spanned (production.length - 1) (by omega)
      rw [Nat.sub_add_cancel nonempty] at last
      have ordered : ∀ position, position < production.length →
          (spans 0).start ≤ (spans position).stop ∧
            words 0 < words (position + 1) := by
        intro position
        induction position with
        | zero => exact fun _ => ⟨first.proper, first.after⟩
        | succ position inductionHypothesis =>
            intro inside
            obtain ⟨le, before⟩ := inductionHypothesis (Nat.lt_of_succ_lt inside)
            have earlier := spanned position (Nat.lt_of_succ_lt inside)
            have later := spanned (position + 1) inside
            obtain ⟨ahead, isAhead, isStart⟩ := later.begins
            have apart := earlier.ends ahead isAhead
            have proper := later.proper
            exact ⟨by omega, Nat.lt_trans before later.after⟩
      obtain ⟨le, before⟩ := ordered (production.length - 1) (by omega)
      rw [Nat.sub_add_cancel nonempty] at before
      constructor
      case begins =>
        rw [start_composed nonempty]
        exact first.begins
      case proper =>
        rw [start_composed nonempty, stop_composed nonempty]
        exact le
      case ends =>
        rw [stop_composed nonempty]
        exact last.ends
      case after => exact before
      case inside => exact last.inside

/-- What can be read is of a terminal that is not reserved. -/
theorem Readable.proper
    (loaded : parser.Loaded grammar options)
    (wellFormed : grammar.WellFormed)
    {id : Nat}
    {symbol : SymbolId}
    (readable : parser.Readable host id symbol) :
    grammar.isNonterminal symbol = false ∧ symbol ≠ endOfInput ∧
      symbol ≠ emptyString := by
  cases readable with
  | input member isSymbol =>
      exact loaded.input_terminal id member symbol isSymbol
  | synthesized synthesizes =>
      have declared := synthesizes.declared
      rw [loaded.compiled] at declared
      obtain ⟨terminal, behindRoot, -⟩ :=
        wellFormed.synthesized_terminal declared
      exact ⟨terminal, Nat.ne_of_gt (Nat.lt_trans (by decide) behindRoot),
        Nat.ne_of_gt (Nat.lt_trans (by decide) behindRoot)⟩

/-- What is derived from a word begins with a terminal in FIRST of its symbol. -/
theorem Derives.begins_with
    (wellFormed : grammar.WellFormed)
    (sound : parser.Sound host grammar options)
    {word last : Nat}
    {symbol : SymbolId}
    {span : Span}
    (derives : parser.Derives word symbol span last)
    (known : symbol < grammar.numSymbols) :
    ∃ terminal, terminal ≠ emptyString ∧ parser.LooksAhead word terminal ∧
      ((FirstSets.compute grammar).get symbol).contains terminal = true := by
  obtain ⟨-, ownFirst, ruleFirst⟩ := FirstSets.compute_spec wellFormed
  induction derives with
  | @read word id symbol candidate isSymbol =>
      obtain ⟨terminal, -, notEmpty⟩ :=
        (candidate.readable sound isSymbol).proper sound.loaded wellFormed
      exact ⟨symbol, notEmpty, .inr ⟨id, candidate, isSymbol⟩,
        ownFirst symbol known terminal⟩
  | @reduce rule words spans user parts holds inductionHypothesis =>
      have isGrammar : parser.compiled.grammar = grammar := sound.loaded.isGrammar
      rw [isGrammar] at user inductionHypothesis ⊢
      have member := Grammar.rule_mem user
      have isRule := Grammar.mem_allRules.mpr (.inl member)
      have nonempty : 0 < (grammar.rule rule).rhs.length :=
        wellFormed.length_pos isRule
      obtain ⟨head, rest, isRhs⟩ := List.exists_cons_of_length_pos nonempty
      obtain ⟨terminal, notEmpty, ahead, first⟩ :=
        inductionHypothesis 0 head (by rw [isRhs]; rfl)
          (wellFormed.rhs_known member head (isRhs ▸ List.mem_cons_self))
      refine ⟨terminal, notEmpty, ahead, ruleFirst _ isRule terminal ?_⟩
      rw [Rule.symbols, isRhs, List.map_cons]
      exact (FirstSets.contains_ofSequence_cons _).mpr (.inl ⟨notEmpty, first⟩)

/-- The symbols with which each word can be read, and the words they lead to. -/
def edges (parser : Parser) : Array WordEdges :=
  (parser.words.zipIdx.map fun entry =>
    wordEdges parser.compiled parser.spans parser.words entry.2 entry.1).toArray

theorem getD_edges
    {word : Nat}
    {ahead : InputWord}
    (isAhead : parser.words[word]? = some ahead) :
    parser.edges.getD word [] =
      wordEdges parser.compiled parser.spans parser.words word ahead := by
  simp [edges, Array.getD_eq_getD_getElem?, List.getElem?_zipIdx, isAhead]

/-- The filter lets a word pass from which spans spell a prefix of the start symbol. -/
theorem Loaded.viable_of_chain
    (loaded : parser.Loaded grammar options)
    {string : SymbolString}
    (isPrefix :
      string ∈ (PrefixSets.compute grammar options.prefixLength).get grammar.start)
    {word last : Nat}
    (inside : word < parser.words.length)
    (chain : Chain parser.edges word string last) :
    (viableWords parser.compiled true parser.spans parser.words).contains word =
      true := by
  have isTrie : parser.compiled.trie = Trie.ofWords
      ((PrefixSets.compute grammar options.prefixLength).get grammar.start) := by
    rw [loaded.compiled]
    rfl
  rw [viableWords, if_pos rfl, isTrie]
  exact Trie.contains_viable isPrefix (by simpa [edges] using inside) chain

/-- A span of a word can be read as its own symbol, and as what is synthesized from it. -/
theorem mem_edges
    (loaded : start.Loaded grammar options)
    (advances : start.Advances parser)
    {word base : Nat}
    {ahead : InputWord}
    {own symbol : SymbolId}
    (isAhead : parser.words[word]? = some ahead)
    (member : base ∈ ahead.spans)
    (isBase : (parser.spans.get base).symbol = some own)
    (named : symbol = own ∨
      ∃ declaration ∈ parser.compiled.synthesizedFrom own,
        declaration.symbol = symbol) :
    (symbol, nextWord parser.words word (parser.spans.get base).stop) ∈
      start.edges.getD word [] := by
  have sameSpan : parser.spans.get base = start.spans.get base := by
    rw [advances.words] at isAhead
    exact (advances.spans.get (loaded.word_known isAhead member).2).2
  rw [sameSpan] at isBase ⊢
  rw [advances.words] at isAhead ⊢
  rw [advances.compiled] at named
  rw [getD_edges isAhead]
  refine List.mem_flatMap.mpr ⟨base, member, ?_⟩
  dsimp only
  rw [isBase]
  rcases named with rfl | ⟨declaration, declared, rfl⟩
  · exact List.mem_cons_self
  · exact List.mem_cons_of_mem _ (List.mem_map.mpr ⟨declaration, declared, rfl⟩)

/-- A candidate leads from its word to the word behind it. -/
theorem Candidate.mem_edges
    (sound : parser.Sound host grammar options)
    (loaded : start.Loaded grammar options)
    (advances : start.Advances parser)
    {word id : Nat}
    (candidate : parser.Candidate word id)
    {symbol : SymbolId}
    (isSymbol : (parser.spans.get id).symbol = some symbol) :
    (symbol, nextWord parser.words word (parser.spans.get id).stop) ∈
      start.edges.getD word [] := by
  cases candidate with
  | input isAhead member =>
      exact Parser.mem_edges loaded advances isAhead member isSymbol (.inl rfl)
  | @synthesized ahead base id baseSymbol declaration isAhead member isBase
      declared stored =>
      obtain ⟨own, sameSymbol, synthesizes⟩ :=
        sound.remembers.synthesized _ _ _ stored
      rw [SpanStore.get_of_get? synthesizes.stored] at isSymbol ⊢
      obtain rfl : declaration.symbol = symbol :=
        sameSymbol.symm.trans (Option.some.inj isSymbol)
      exact Parser.mem_edges loaded advances isAhead member isBase
        (.inr ⟨declaration, declared, rfl⟩)

/-- What is derived from a word is spelled by spans in a way that FIRST-k knows. -/
theorem Derives.chain
    (wellFormed : grammar.WellFormed)
    (sound : parser.Sound host grammar options)
    (loaded : start.Loaded grammar options)
    (advances : start.Advances parser)
    (k : Nat)
    {word last : Nat}
    {symbol : SymbolId}
    {span : Span}
    (derives : parser.Derives word symbol span last)
    (known : symbol < grammar.numSymbols) :
    ∃ string, Chain start.edges word string last ∧
      string.take (max k 1) ∈ (PrefixSets.compute grammar k).get symbol := by
  obtain ⟨ownPrefix, rulePrefix⟩ := PrefixSets.compute_spec wellFormed k
  induction derives with
  | @read word id symbol candidate isSymbol =>
      obtain ⟨terminal, -, notEmpty⟩ :=
        (candidate.readable sound isSymbol).proper sound.loaded wellFormed
      refine ⟨[symbol],
        .cons (candidate.mem_edges sound loaded advances isSymbol) (.nil _), ?_⟩
      rw [List.take_of_length_le (Nat.le_max_right k 1)]
      simpa only [spelled_singleton notEmpty] using
        ownPrefix symbol ⟨known, terminal⟩
  | @reduce rule words spans user parts holds inductionHypothesis =>
      have isGrammar : parser.compiled.grammar = grammar := sound.loaded.isGrammar
      rw [isGrammar] at user inductionHypothesis ⊢
      have member := Grammar.rule_mem user
      have rows : ∀ count, count ≤ (grammar.rule rule).length →
          ∃ strings,
            PrefixSets.BeginEach grammar k
                ((grammar.rule rule).symbols.take count) strings ∧
              Chain start.edges (words 0) strings.flatten (words count) := by
        intro count
        induction count with
        | zero => exact fun _ => ⟨[], .nil, .nil _⟩
        | succ count shorter =>
            intro inside
            obtain ⟨strings, each, chain⟩ :=
              shorter (Nat.le_of_succ_le inside)
            have isPart := List.getElem?_eq_getElem
              (show count < (grammar.rule rule).rhs.length from inside)
            obtain ⟨string, stringChain, isPrefix⟩ :=
              inductionHypothesis count _ isPart
                (wellFormed.rhs_known member _ (List.getElem_mem inside))
            refine ⟨strings ++ [string], ?_, ?_⟩
            · rw [List.take_add_one, Rule.symbols, List.getElem?_map, isPart]
              exact List.rel_append each (.cons isPrefix .nil)
            · rw [List.flatten_append, List.flatten_singleton]
              exact chain.append stringChain
      obtain ⟨strings, each, chain⟩ := rows _ (Nat.le_refl _)
      rw [List.take_of_length_le (by rw [Rule.symbols, List.length_map]; rfl)]
        at each
      exact ⟨strings.flatten, chain,
        rulePrefix _ (Grammar.mem_allRules.mpr (.inl member)) strings each⟩

end Parser

end SpanForest
