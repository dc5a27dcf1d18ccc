import SpanForest.Proofs.Parser.Inheriting

namespace SpanForest

/-!
# Every derivation is found

When all words are worked out, whatever can be derived from one word to another
stands at the latter, on top of every state node of the former from which the
table leads on by its symbol, as long as something ahead may follow. This goes by
induction on the derivation: the right-hand side of a rule stands on a state
node part by part, and the rule was applied along the way through its parts.
-/

namespace Parser

variable {σ : Type} {grammar : Grammar} {options : CompileOptions}
variable {parser start : Parser} {word last : Nat}

/-- On top of a state node stands a span that predicates cannot tell from another. -/
structure Stands
    (parser : Parser)
    (word below : Nat)
    (goto : StateId)
    (span : Span)
    (top node : Nat) : Prop where
  listed : top ∈ (parser.stack.layer word).nodes
  state : (parser.stack.stateNode top).state = goto
  held : node ∈ (parser.stack.stateNode top).children
  below : below ∈ (parser.stack.symbolNode node).children
  alike : parser.ownSituation.Alike (parser.spanOf node) span

/-- Something ahead at a word may follow a symbol, if that is a nonterminal. -/
def Followed (parser : Parser) (word : Nat) (symbol : SymbolId) : Prop :=
  ∃ terminal, parser.LooksAhead word terminal ∧
    (parser.compiled.grammar.isNonterminal symbol = true →
      (parser.compiled.follow.get symbol).contains terminal = true)

/-- A span of a symbol stands wherever the table leads on by that symbol. -/
def Found
    (parser : Parser)
    (word : Nat)
    (symbol : SymbolId)
    (span : Span)
    (last : Nat) : Prop :=
  ∀ below target : Nat, parser.ActsAt word below →
    parser.compiled.table.goto? (parser.stack.stateNode below).state symbol =
        some target →
      parser.Followed last symbol →
        ∃ top node, parser.Stands last below target span top node

/-- Spans for the first parts of a rule, standing on one another on a state node. -/
structure Piled
    (parser : Parser)
    (grammar : Grammar)
    (rule : RuleId)
    (words : Nat → Nat)
    (spans : Nat → Span)
    (base count : Nat)
    (nodes : List SymbolNodeId)
    (top : Nat) : Prop where
  climbs : parser.stack.Climbs base nodes top
  length : nodes.length = count
  item :
    ⟨rule, count⟩ ∈ ((Automaton.ofGrammar grammar).state
      (parser.stack.stateNode top).state).items
  acts : parser.ActsAt (words count) top
  alike :
    ∀ (position : Nat) (node : SymbolNodeId), nodes[position]? = some node →
      parser.ownSituation.Alike (parser.spanOf node) (spans position)

/-- A sound parse with the inheriting host in which every word was worked out. -/
structure Exhausted
    (σ : Type)
    (grammar : Grammar)
    (options : CompileOptions)
    (parser : Parser) : Prop where
  sound : parser.Sound (Host.inheriting : Host σ) grammar options
  completed :
    ∀ word : Nat, word ≤ parser.words.length →
      parser.Completed (Host.inheriting : Host σ) word

/-- What is derived is neither the end of the input nor unknown. -/
theorem Derives.ne_endOfInput
    {host : Host σ}
    (wellFormed : grammar.WellFormed)
    (sound : parser.Sound host grammar options)
    {symbol : SymbolId}
    {span : Span}
    (derives : parser.Derives word symbol span last) :
    symbol ≠ endOfInput := by
  cases derives with
  | read candidate isSymbol =>
      exact ((candidate.readable sound isSymbol).proper sound.loaded
        wellFormed).2.1
  | reduce user =>
      rw [sound.loaded.compiled] at user ⊢
      have behindRoot := (wellFormed.lhs_nonterminal (Grammar.rule_mem user)).2
      exact Nat.ne_of_gt (Nat.lt_trans (by decide) behindRoot)

section Piling

variable {rule : RuleId} {words : Nat → Nat} {spans : Nat → Span} {base : Nat}

/-- The parts of a rule stand on a state node in which the rule starts. -/
theorem exists_piled
    (wellFormed : grammar.WellFormed)
    (compiled : parser.compiled = grammar.compile options)
    (acts : parser.ActsAt (words 0) base)
    (item :
      ⟨rule, 0⟩ ∈ ((Automaton.ofGrammar grammar).state
        (parser.stack.stateNode base).state).items)
    (parts : ∀ position part, (grammar.rule rule).rhs[position]? = some part →
      part.symbol ≠ endOfInput ∧
        parser.Found (words position) part.symbol (spans position)
          (words (position + 1)) ∧
        parser.Followed (words (position + 1)) part.symbol)
    {count : Nat}
    (inside : count ≤ (grammar.rule rule).length) :
    ∃ nodes top, parser.Piled grammar rule words spans base count nodes top := by
  induction count with
  | zero => exact ⟨[], base, .nil, rfl, item, acts, fun _ _ none => by cases none⟩
  | succ count inductionHypothesis =>
      obtain ⟨nodes, middle, piled⟩ := inductionHypothesis (Nat.le_of_succ_le inside)
      have isPart := List.getElem?_eq_getElem
        (show count < (grammar.rule rule).rhs.length from inside)
      obtain ⟨notEnd, found, followed⟩ := parts count _ isPart
      have next : Item.nextSymbol? grammar ⟨rule, count⟩ =
          some (grammar.rule rule).rhs[count].symbol := by
        rw [Item.nextSymbol?, Rule.symbols, List.getElem?_map, isPart]
        rfl
      obtain ⟨target, leads, advanced⟩ :=
        @CompiledGrammar.advance_of_next grammar wellFormed options _ _ _
          piled.item next notEnd
      obtain ⟨top, node, stands⟩ :=
        found middle target piled.acts (compiled ▸ leads) followed
      refine ⟨nodes ++ [node], top, ?_⟩
      constructor
      case climbs => exact .snoc piled.climbs stands.below stands.held
      case length => rw [List.length_append, piled.length]; rfl
      case item => exact stands.state ▸ advanced
      case acts => exact .inl stands.listed
      case alike =>
        intro position other isOther
        rcases Nat.lt_or_ge position nodes.length with lower | isLast
        · rw [List.getElem?_append_left lower] at isOther
          exact piled.alike position other isOther
        · rw [List.getElem?_append_right isLast,
            List.getElem?_singleton] at isOther
          split at isOther
          · rename_i same
            obtain rfl := Option.some.inj isOther
            rw [show position = count by have := piled.length; omega]
            exact stands.alike
          · cases isOther

variable {nodes : List SymbolNodeId} {top : Nat}

/-- A rule was applied where its whole right-hand side stands. -/
theorem Exhausted.settled
    (exhausted : Exhausted σ grammar options parser)
    (wellFormed : grammar.WellFormed)
    (user : rule < grammar.rules.size)
    (piled :
      parser.Piled grammar rule words spans base (grammar.rule rule).length
        nodes top)
    (known : words (grammar.rule rule).length ≤ parser.words.length)
    (followed :
      parser.Followed (words (grammar.rule rule).length)
        (grammar.rule rule).lhs) :
    parser.Settled (Host.inheriting : Host σ)
      (words (grammar.rule rule).length) (grammar.rule rule) nodes [base] := by
  obtain ⟨climbs, length, item, acts, -⟩ := piled
  obtain ⟨terminal, ahead, follows⟩ := followed
  have sound := exhausted.sound
  have nonempty : 0 < (grammar.rule rule).length :=
    wellFormed.length_pos (Grammar.mem_allRules.mpr (.inl (Grammar.rule_mem user)))
  have isGrammar : parser.compiled.grammar = grammar := sound.loaded.isGrammar
  have lhs := (wellFormed.lhs_nonterminal (Grammar.rule_mem user)).1
  cases climbs with
  | nil => simp [← length] at nonempty
  | @snoc lower middle anchor _ climbs below held =>
      have listed : top ∈
          (parser.stack.layer (words (grammar.rule rule).length)).nodes := by
        refine acts.resolve_right fun atStart => ?_
        rw [atStart.1, sound.stack.start_children] at held
        cases held
      have reduces : rule ∈ (parser.compiled.table.get
          (parser.stack.stateNode top).state terminal).reduces := by
        have contains := follows (isGrammar ▸ lhs)
        rw [sound.loaded.compiled] at contains ⊢
        exact (CompiledGrammar.mem_reduces_table wellFormed).mpr
          ⟨item, Nat.ne_of_lt user, contains⟩
      have settled := (exhausted.completed _ known).reduced top listed terminal
        ahead rule reduces anchor held middle below base lower climbs
      rw [isGrammar] at settled
      exact settled (by simpa using length)

/-- The spans of what stands on a state node, part by part. -/
theorem Piled.spansOf_alike
    {count : Nat}
    (piled : parser.Piled grammar rule words spans base count nodes top)
    {position id : Nat}
    (stored : (parser.spansOf nodes)[position]? = some id) :
    parser.ownSituation.Alike (parser.spans.get id) (spans position) := by
  rw [spansOf, List.getElem?_map] at stored
  obtain ⟨node, isNode, rfl⟩ := Option.map_eq_some_iff.mp stored
  exact piled.alike position node isNode

/-- No predicate of a rule fails on spans like those on which all of them hold. -/
theorem Piled.not_forbids
    {count : Nat}
    (piled : parser.Piled grammar rule words spans base count nodes top)
    (holds : ∀ position part id,
      (grammar.rule rule).rhs[position]? = some part →
        part.predicate = some id →
          Truth parser.ownSituation id (spans position) true) :
    ¬ parser.Forbids (Host.inheriting : Host σ) (grammar.rule rule)
      (parser.spansOf nodes) := by
  rintro ⟨pair, isPair, id, isPredicate, fails⟩
  obtain ⟨position, stored⟩ := List.mem_iff_getElem?.mp isPair
  obtain ⟨isPart, isSpan⟩ := List.getElem?_zip_eq_some.mp stored
  have truth := (holds position pair.1 id isPart isPredicate).of_alike
    (piled.spansOf_alike isSpan).symm
  exact Bool.false_ne_true
    ((fails _ Host.decides_inheriting).unique truth)

/-- A rule yields what it composes where its right-hand side stands. -/
theorem Exhausted.reduced
    (exhausted : Exhausted σ grammar options parser)
    (wellFormed : grammar.WellFormed)
    (user : rule < grammar.rules.size)
    (piled :
      parser.Piled grammar rule words spans base (grammar.rule rule).length
        nodes top)
    (known : words (grammar.rule rule).length ≤ parser.words.length)
    (forward : (spans 0).start ≤ (spans ((grammar.rule rule).length - 1)).stop)
    (holds : ∀ position part id,
      (grammar.rule rule).rhs[position]? = some part →
        part.predicate = some id →
          Truth parser.ownSituation id (spans position) true)
    {target : Nat}
    (leads :
      parser.compiled.table.goto? (parser.stack.stateNode base).state
          (grammar.rule rule).lhs =
        some target)
    (followed :
      parser.Followed (words (grammar.rule rule).length)
        (grammar.rule rule).lhs) :
    ∃ goal node,
      parser.Stands (words (grammar.rule rule).length) base target
        (parser.composed (grammar.rule rule)
          ((List.range (grammar.rule rule).length).map spans))
        goal node := by
  have sound := exhausted.sound
  have member := Grammar.rule_mem user
  have nonterminal := (wellFormed.lhs_nonterminal member).1
  have isGrammar : parser.compiled.grammar = grammar := sound.loaded.isGrammar
  rcases exhausted.settled wellFormed user piled known followed with
    forbids | declines | ⟨id, accepts, rests⟩
  · exact absurd forbids (piled.not_forbids holds)
  · exact absurd declines not_declines_inheriting
  · obtain ⟨goal, node, restsOn⟩ :=
      rests base (List.mem_singleton.mpr rfl) target leads
    refine ⟨goal, node, restsOn.listed, restsOn.state, restsOn.held,
      restsOn.below, ?_⟩
    have inherits := accepts.inherits
    have nodeInside := sound.stack.child_known goal node restsOn.held
    have isSymbol := sound.symbol_of_leads wellFormed restsOn.held
      (restsOn.state ▸ leads)
    -- The node was born from a rule for the same symbol.
    obtain ⟨derivation, isBorn, yields, -⟩ := (sound.forest node nodeInside).born
      (sound.not_shifted wellFormed nodeInside nonterminal isSymbol)
    have alike := inherits.alike sound.loaded yields.accepted.inherits
      (Option.some.inj (isBorn.symm.trans isSymbol)) nonterminal restsOn.span
    refine alike.trans (inherits.alike_composed sound.loaded nonterminal
      (wellFormed.rootIndex_lt member) ?_
      (fun _ _ stored => piled.spansOf_alike stored) forward)
    rw [spansOf, List.length_map, piled.length]

/-- Something ahead may follow every part of a rule, if it may follow the rule. -/
theorem Sound.followed_part
    {host : Host σ}
    (wellFormed : grammar.WellFormed)
    (sound : parser.Sound host grammar options)
    (user : rule < grammar.rules.size)
    (parts : ∀ position part, (grammar.rule rule).rhs[position]? = some part →
      parser.Derives (words position) part.symbol (spans position)
        (words (position + 1)))
    (followed :
      parser.Followed (words (grammar.rule rule).length)
        (grammar.rule rule).lhs)
    {position : Nat}
    {part : RhsSymbol}
    (isPart : (grammar.rule rule).rhs[position]? = some part) :
    parser.Followed (words (position + 1)) part.symbol := by
  have member := Grammar.rule_mem user
  have compiled := sound.loaded.compiled
  obtain ⟨lastFollows, nextFollows⟩ := (FollowSets.compute_spec wellFormed).2 _
    (Grammar.mem_allRules.mpr (.inl member))
  have isSymbol : (grammar.rule rule).symbols[position]? = some part.symbol := by
    rw [Rule.symbols, List.getElem?_map, isPart]
    rfl
  cases isNext : (grammar.rule rule).rhs[position + 1]? with
  | some next =>
      have isNextSymbol :
          (grammar.rule rule).symbols[position + 1]? = some next.symbol := by
        rw [Rule.symbols, List.getElem?_map, isNext]
        rfl
      obtain ⟨terminal, notEmpty, ahead, first⟩ :=
        (parts (position + 1) next isNext).begins_with wellFormed sound
          (wellFormed.rhs_known member next (List.mem_of_getElem? isNext))
      refine ⟨terminal, ahead, fun nonterminal => ?_⟩
      rw [compiled] at nonterminal ⊢
      refine nextFollows part.symbol next.symbol ?_ nonterminal terminal
        notEmpty first
      refine List.infix_iff_getElem?.mpr ⟨position, ?_, ?_⟩
      · have inside := (List.getElem?_eq_some_iff.mp isNextSymbol).1
        rw [List.length_cons, List.length_singleton]
        omega
      · intro index inside
        cases index with
        | zero => simpa using isSymbol
        | succ index =>
            obtain rfl : index = 0 :=
              Nat.lt_one_iff.mp (Nat.lt_of_succ_lt_succ inside)
            simpa [Nat.add_comm] using isNextSymbol
  | none =>
      have isLast : position + 1 = (grammar.rule rule).length := by
        have inside := (List.getElem?_eq_some_iff.mp isPart).1
        have outside := List.getElem?_eq_none_iff.mp isNext
        exact Nat.le_antisymm inside outside
      obtain ⟨terminal, ahead, follows⟩ := followed
      refine ⟨terminal, isLast ▸ ahead, fun nonterminal => ?_⟩
      have lhs := (wellFormed.lhs_nonterminal member).1
      rw [compiled] at nonterminal follows ⊢
      refine lastFollows part.symbol ?_ nonterminal terminal (follows lhs)
      rw [List.getLast?_eq_getElem?, Rule.symbols, List.length_map,
        show (grammar.rule rule).rhs.length = position + 1 from isLast.symm,
        ← Rule.symbols]
      exact isSymbol

end Piling

/-- What is derived stands wherever the table leads on by its symbol. -/
theorem Exhausted.found
    (exhausted : Exhausted σ grammar options parser)
    (wellFormed : grammar.WellFormed)
    {symbol : SymbolId}
    {span : Span}
    (derives : parser.Derives word symbol span last) :
    parser.Found word symbol span last := by
  have sound := exhausted.sound
  have isGrammar : parser.compiled.grammar = grammar := sound.loaded.isGrammar
  induction derives with
  | @read word id symbol candidate isSymbol =>
      intro below target acts leads _
      obtain ⟨⟨ahead, isAhead, -⟩, -⟩ := candidate.begins sound
      have inside := (List.getElem?_eq_some_iff.mp isAhead).1
      obtain ⟨top, node, rests, isSpan⟩ :=
        (exhausted.completed word (Nat.le_of_lt inside)).read below acts id
          candidate symbol target isSymbol leads
      refine ⟨top, node, rests.listed, rests.state, rests.held, rests.below, ?_⟩
      rw [spanOf, isSpan]
      exact .refl _ _
  | @reduce rule words spans user parts holds inductionHypothesis =>
      intro below target acts leads followed
      have spanned := (Derives.reduce user parts holds).spanned wellFormed sound
      rw [isGrammar] at user parts holds inductionHypothesis leads followed
      rw [isGrammar] at spanned ⊢
      have member := Grammar.rule_mem user
      have isRule := Grammar.mem_allRules.mpr (.inl member)
      have nonempty := wellFormed.length_pos isRule
      have started : ⟨rule, 0⟩ ∈ ((Automaton.ofGrammar grammar).state
          (parser.stack.stateNode below).state).items := by
        have reads := leads
        rw [sound.loaded.compiled,
          CompiledGrammar.goto?_table wellFormed] at reads
        split at reads
        · cases reads
        · obtain ⟨item, isItem, next⟩ := (Automaton.goto?_isSome_iff
            wellFormed).mp (Option.isSome_of_eq_some reads)
          have asks := ValidItem.asksFor_of_predict next
            (wellFormed.lhs_nonterminal member).1 isRule
          rw [wellFormed.id_rule (Nat.le_of_lt user)] at asks
          exact Automaton.mem_items_of_asksFor wellFormed isItem asks
      obtain ⟨nodes, top, piled⟩ := exists_piled wellFormed
        sound.loaded.compiled acts started
        (fun position part isPart =>
          ⟨(parts position part isPart).ne_endOfInput wellFormed sound,
            inductionHypothesis position part isPart,
            sound.followed_part wellFormed user parts followed isPart⟩)
        (Nat.le_refl (grammar.rule rule).length)
      have forward := spanned.proper
      rw [start_composed nonempty, stop_composed nonempty] at forward
      exact exhausted.reduced wellFormed user piled spanned.inside forward holds
        leads followed

/-- What is derived for the start symbol begins at a word that no filter rules out. -/
theorem Derives.viable
    {host : Host σ}
    (wellFormed : grammar.WellFormed)
    (sound : parser.Sound host grammar options)
    (loaded : start.Loaded grammar options)
    (advances : start.Advances parser)
    (filtered : Bool)
    {span : Span}
    (derives : parser.Derives word grammar.start span last) :
    (viableWords start.compiled filtered start.spans start.words).contains
      word = true := by
  obtain ⟨ahead, isAhead, -⟩ := (derives.spanned wellFormed sound).begins
  rw [advances.words] at isAhead
  have inside := (List.getElem?_eq_some_iff.mp isAhead).1
  cases filtered with
  | true =>
      obtain ⟨string, chain, isPrefix⟩ := derives.chain wellFormed sound
        loaded advances options.prefixLength
        (Grammar.lt_numSymbols_of_isNonterminal wellFormed.start_nonterminal.1)
      obtain ⟨stop, begun⟩ := chain.take (max options.prefixLength 1)
      exact loaded.viable_of_chain isPrefix inside begun
  | false => simpa [viableWords] using inside

/-- What is derived for the start symbol can be begun where its first word is. -/
theorem Derives.acts_start
    {host : Host σ}
    (wellFormed : grammar.WellFormed)
    (sound : parser.Sound host grammar options)
    (loaded : start.Loaded grammar options)
    (advances : start.Advances parser)
    (viable :
      start.viable =
        viableWords start.compiled start.config.filtered start.spans start.words)
    {span : Span}
    (derives : parser.Derives word grammar.start span last) :
    parser.ActsAt word GraphStack.startNode := by
  obtain ⟨ahead, isAhead, -⟩ := (derives.spanned wellFormed sound).begins
  rw [advances.words] at isAhead
  refine .inr ⟨rfl, ?_, ?_⟩
  · rw [isAtEnd, numWords, advances.words]
    exact beq_false_of_ne (Nat.ne_of_lt (List.getElem?_eq_some_iff.mp isAhead).1)
  · rw [advances.viable, viable]
    exact derives.viable wellFormed sound loaded advances start.config.filtered

/-- What is derived for the start symbol is the span of a root. -/
theorem Exhausted.rooted
    (exhausted : Exhausted σ grammar options parser)
    (wellFormed : grammar.WellFormed)
    (live : parser.stack.Live)
    (loaded : start.Loaded grammar options)
    (advances : start.Advances parser)
    (viable :
      start.viable =
        viableWords start.compiled start.config.filtered start.spans start.words)
    {span : Span}
    (derives : parser.Derives word grammar.start span last) :
    ∃ root ∈ parser.roots,
      parser.ownSituation.Alike (parser.spanOf root) span := by
  have sound := exhausted.sound
  have nonterminal := wellFormed.start_nonterminal.1
  have isRoot : grammar.rootItem ∈
      ((Automaton.ofGrammar grammar).state startState).items :=
    (Automaton.mem_items_startState wellFormed).mpr (.kernel rfl)
  have rootItem_next : grammar.rootItem.nextSymbol? grammar =
      some grammar.start := by
    rw [Item.nextSymbol?, Grammar.rootItem, Grammar.rule_size]
    rfl
  obtain ⟨target, leads, -⟩ :=
    @CompiledGrammar.advance_of_next grammar wellFormed options _ _ _ isRoot
      rootItem_next (derives.ne_endOfInput wellFormed sound)
  have startLeads : parser.compiled.table.goto?
      (parser.stack.stateNode GraphStack.startNode).state grammar.start =
        some target := by
    rw [sound.stack.start_state, sound.loaded.compiled]
    exact leads
  have followed : parser.Followed last grammar.start := by
    refine ⟨endOfInput, .inl rfl, fun _ => ?_⟩
    rw [sound.loaded.compiled]
    exact (FollowSets.compute_spec wellFormed).1
  obtain ⟨top, node, stands⟩ := exhausted.found wellFormed derives
    GraphStack.startNode target
    (derives.acts_start wellFormed sound loaded advances viable) startLeads followed
  have inside := sound.stack.child_known top node stands.held
  have isSymbol := sound.symbol_of_leads wellFormed stands.held
    (stands.state ▸ startLeads)
  refine ⟨node, (sound.rooted node).mpr ⟨inside,
    sound.not_shifted wellFormed inside nonterminal isSymbol, ?_,
    live.symbol node⟩, stands.alike⟩
  rw [isSymbol, sound.loaded.compiled]
  rfl

/-- A parse that worked out all words and is finished is exhausted. -/
theorem WorkedOut.exhausted
    (workedOut :
      WorkedOut (Host.inheriting : Host σ) grammar options start parser)
    (finished : parser.isFinished = true) :
    Exhausted σ grammar options parser where
  sound := workedOut.sound
  completed _ inside := workedOut.completed _
    (Nat.lt_of_le_of_lt inside (of_decide_eq_true finished))

/-- Whatever can be synthesized from the words was settled. -/
theorem Exhausted.drawn
    (exhausted : Exhausted σ grammar options parser)
    (word : Nat) :
    parser.AllDrawn word := by
  intro ahead isAhead
  have inside := (List.getElem?_eq_some_iff.mp isAhead).1
  exact (exhausted.completed word (Nat.le_of_lt inside)).drawn ahead isAhead

/--
With the inheriting host and without greedy passes, a parse in which no word
reaches its limit ends with roots, and misses none: what can be synthesized from
the words was settled, and whatever is derived for the start symbol has the
offsets and the features of a root. The prefix filter makes no difference to this.
-/
theorem parse_complete
    {builder : GrammarBuilder}
    (built : builder.build = .ok grammar)
    (acyclic : grammar.predicates.Acyclic)
    (compiled : parser.compiled = grammar.compile options)
    (calm : parser.config.greedy = false)
    (document : Document)
    (input : List InputSpan)
    (state : σ)
    (uncapped : ∀ count,
      (afterSteps Host.inheriting count
        (parser.start document input, state)).1.capped = false) :
    ∃ after : Parser × σ,
      (Parsing.parse Host.inheriting document input).run.run (parser, state) =
          (.ok after.1.roots, after) ∧
        (∀ word, after.1.AllDrawn word) ∧
        ∀ word span last, after.1.Derives word grammar.start span last →
          ∃ root ∈ after.1.roots,
            (after.1.spanOf root).start = span.start ∧
              (after.1.spanOf root).stop = span.stop ∧
              (after.1.spanOf root).features = span.features := by
  have wellFormed := GrammarBuilder.wellFormed_of_build built
  have terms : (Host.inheriting : Host σ).Terms grammar False :=
    Host.terms_inheriting wellFormed acyclic
  have undisturbed : ∀ count,
      (afterSteps Host.inheriting count
          (parser.start document input, state)).1.capped = false ∧
        (afterSteps Host.inheriting count
          (parser.start document input, state)).1.stack.Live := by
    intro count
    have reachable : Reachable (Host.inheriting : Host σ)
        (grammar.compile options) parser.config
        (afterSteps Host.inheriting count
          (parser.start document input, state)).1 := by
      rw [← compiled]
      exact (Reachable.start document input .new).afterSteps state count
    exact ⟨uncapped count,
      (reachable.sound wellFormed).live (reachable.config_eq ▸ calm)⟩
  obtain ⟨count, isRun, finished⟩ := parse_returns terms compiled document input
    state
  have workedOut := parse_workedOut terms compiled document input state
    undisturbed count
  have advances := advances_afterSteps (Host.inheriting : Host σ)
    (parser.start document input) state count
  refine ⟨_, isRun, ?_⟩
  generalize (afterSteps Host.inheriting count
    (parser.start document input, state)).1 = after
    at workedOut finished advances ⊢
  have exhausted := workedOut.exhausted finished
  refine ⟨exhausted.drawn, fun word span last derives => ?_⟩
  obtain ⟨root, listed, alike⟩ := exhausted.rooted wellFormed workedOut.live
    (fresh_start compiled document input).loaded advances rfl derives
  exact ⟨root, listed, alike.start, alike.stop, alike.features⟩

section Sample

/-- A parser for the nested grammar that makes no greedy passes. -/
def nestedCalm : Parser :=
  new (nestedGrammar.compile {}) { greedy := false }

/-- Two words. -/
def nestedWords : List InputSpan :=
  [⟨"Word", 0, 3, Features.empty⟩, ⟨"Word", 4, 5, Features.empty⟩]

/-- The parser that parsed two words without greedy passes. -/
def nestedCalmEnd : Parser :=
  ((Parsing.parse Host.inheriting ⟨"big dog"⟩ nestedWords).run.run
    (nestedCalm, ())).2.1

private theorem nestedCalmEnd_facts :
    nestedCalmEnd.words[0]? = some ⟨0, [0]⟩ ∧
      (nestedCalmEnd.spans.get 0).symbol = some 5 ∧
      nextWord nestedCalmEnd.words 0 (nestedCalmEnd.spans.get 0).stop = 1 ∧
      0 < nestedCalmEnd.compiled.grammar.rules.size ∧
      (nestedCalmEnd.compiled.grammar.rule 0).rhs = [⟨5, none, none⟩] ∧
      (nestedCalmEnd.compiled.grammar.rule 0).lhs = 3 ∧
      (nestedCalmEnd.spans.get 0).start = 0 ∧
      (nestedCalmEnd.spans.get 0).stop = 3 := by
  decide +kernel

/-- The first word alone is derived, and so it is the span of a root. -/
theorem parse_complete_nested :
    nestedBuilder.build = .ok nestedGrammar ∧
      nestedGrammar.predicates.Acyclic ∧
      nestedCalm.compiled = nestedGrammar.compile {} ∧
      nestedCalm.config.greedy = false ∧
      (∀ count, (afterSteps Host.inheriting count
        (nestedCalm.start ⟨"big dog"⟩ nestedWords, ())).1.capped = false) ∧
      (∃ span, nestedCalmEnd.Derives 0 nestedGrammar.start span 1) ∧
      ∃ root ∈ nestedCalmEnd.roots, (nestedCalmEnd.spanOf root).start = 0 ∧
        (nestedCalmEnd.spanOf root).stop = 3 := by
  have acyclic : nestedGrammar.predicates.Acyclic :=
    PredicateAlphabet.acyclic_empty
  have uncapped : ∀ count, (afterSteps Host.inheriting count
      (nestedCalm.start ⟨"big dog"⟩ nestedWords, ())).1.capped = false := by
    refine @forall_afterSteps _ _ (fun parser => parser.capped = false) _ 3
      ?_ ?_ ?_ <;> decide +kernel
  obtain ⟨isWord, isSymbol, next, user, rhs, lhs, start, stop⟩ :=
    nestedCalmEnd_facts
  have derives : nestedCalmEnd.Derives 0
      (nestedCalmEnd.compiled.grammar.rule 0).lhs
      (nestedCalmEnd.composed (nestedCalmEnd.compiled.grammar.rule 0)
        ((List.range (nestedCalmEnd.compiled.grammar.rule 0).length).map
          fun _ => nestedCalmEnd.spans.get 0))
      (nestedCalmEnd.compiled.grammar.rule 0).length := by
    refine @Derives.reduce nestedCalmEnd 0 (fun position => position)
      (fun _ => nestedCalmEnd.spans.get 0) user ?_ ?_
    · intro position part isPart
      rw [rhs, List.getElem?_singleton] at isPart
      split at isPart
      · rename_i isFirst
        subst isFirst
        cases isPart
        have read := Derives.read (.input isWord List.mem_cons_self) isSymbol
        rw [next] at read
        exact read
      · cases isPart
    · intro position part id isPart isPredicate
      rw [rhs, List.getElem?_singleton] at isPart
      split at isPart
      · cases isPart
        cases isPredicate
      · cases isPart
  have length : (nestedCalmEnd.compiled.grammar.rule 0).length = 1 := by
    rw [Rule.length, rhs]
    rfl
  have composedStart := @start_composed nestedCalmEnd
    (nestedCalmEnd.compiled.grammar.rule 0) (fun _ => nestedCalmEnd.spans.get 0)
    (by omega)
  have composedStop := @stop_composed nestedCalmEnd
    (nestedCalmEnd.compiled.grammar.rule 0) (fun _ => nestedCalmEnd.spans.get 0)
    (by omega)
  obtain ⟨after, isRun, -, complete⟩ := parse_complete build_nestedBuilder
    acyclic rfl rfl ⟨"big dog"⟩ nestedWords () uncapped
  have isAfter : after.1 = nestedCalmEnd := by
    rw [nestedCalmEnd, isRun]
  rw [isAfter] at complete
  rw [lhs, length] at derives
  obtain ⟨root, listed, isStart, isStop, -⟩ := complete 0 _ 1 derives
  refine ⟨build_nestedBuilder, acyclic, rfl, rfl, uncapped, ⟨_, derives⟩, root,
    listed, isStart.trans ?_, isStop.trans ?_⟩
  · rw [length] at composedStart
    exact composedStart.trans start
  · rw [length] at composedStop
    exact composedStop.trans stop

end Sample

end Parser

end SpanForest
