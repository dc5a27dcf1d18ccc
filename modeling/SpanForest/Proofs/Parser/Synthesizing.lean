import SpanForest.Proofs.Parser.Packing

namespace SpanForest

/-!
# Which spans are synthesized

What is synthesized from a span is remembered by the span and the terminal, not
by the declaration. So where a terminal is declared several times for spans of one
type, the first of these declarations decides alone, and the others are never
looked at.
-/

/-- The first declaration by which a terminal is synthesized from spans of a type. -/
def Grammar.declared?
    (grammar : Grammar)
    (base symbol : SymbolId) :
    Option Synthesized :=
  (grammar.synthesized.filter (·.base == base)).find? (·.symbol == symbol)

/-- What the first declaration is. -/
theorem Grammar.declared?_eq_some
    {grammar : Grammar}
    {base symbol : SymbolId}
    {declaration : Synthesized}
    (isFirst : grammar.declared? base symbol = some declaration) :
    declaration ∈ grammar.synthesized ∧ declaration.base = base ∧
      declaration.symbol = symbol := by
  obtain ⟨declared, isBase⟩ :=
    List.mem_filter.mp (List.mem_of_find?_eq_some isFirst)
  have isSymbol := List.find?_some isFirst
  exact ⟨declared, eq_of_beq isBase, eq_of_beq isSymbol⟩

/-- A declaration is the first one if none before it is for the same terminal. -/
theorem Grammar.declared?_of_split
    {grammar : Grammar}
    {base : SymbolId}
    {declaration : Synthesized}
    {done rest : List Synthesized}
    (isSplit : grammar.synthesized.filter (·.base == base) =
      done ++ declaration :: rest)
    (noneBefore : ∀ early ∈ done, early.symbol ≠ declaration.symbol) :
    grammar.declared? base declaration.symbol = some declaration := by
  rw [declared?, isSplit, List.find?_append, List.find?_eq_none.mpr]
  · simp
  · intro early isDone same
    exact noneBefore early isDone (eq_of_beq same)

namespace Parser

variable {σ : Type} {host : Host σ}
variable {grammar : Grammar} {options : CompileOptions} {word : Nat}
variable {config : ParserConfig}
variable {before after parser : Parser}

/-- What was entered for a span is what the first declaration says of it. -/
def FirstDecides (host : Host σ) (parser : Parser) : Prop :=
  ∀ (base : Nat) (symbol : SymbolId) (made : Option SpanId),
    parser.synthesized[((base, symbol) : SpanId × SymbolId)]? = some made →
      base < parser.spans.size ∧
        ∃ own declaration,
          (parser.spans.get base).symbol = some own ∧
            parser.compiled.grammar.declared? own symbol = some declaration ∧
            parser.Tells host declaration.predicate base made.isSome

/-- Nothing that was loaded or learned changed. -/
theorem FirstDecides.same
    (decides : before.FirstDecides host)
    (compiled : after.compiled = before.compiled)
    (document : after.document = before.document)
    (input : after.input = before.input)
    (spans : after.spans = before.spans)
    (synthesized : after.synthesized = before.synthesized) :
    after.FirstDecides host := by
  unfold FirstDecides Tells situation context
  rw [compiled, document, input, spans, synthesized]
  exact decides

theorem FirstDecides.onlyWork
    (decides : before.FirstDecides host)
    (only : before.OnlyWork after) :
    after.FirstDecides host := by
  refine decides.same ?_ ?_ ?_ ?_ ?_ <;> rw [only]

/-- Asking without synthesizing anything leaves what was entered. -/
theorem FirstDecides.asks
    (decides : before.FirstDecides host)
    (ordered : before.context.Ordered)
    (asks : before.Asks after)
    (entered : after.synthesized = before.synthesized) :
    after.FirstDecides host := by
  have grows := asks.grows 0
  intro base symbol made stored
  rw [entered] at stored
  obtain ⟨committed, own, declaration, isOwn, isFirst, tells⟩ :=
    decides base symbol made stored
  obtain ⟨stillCommitted, same⟩ := grows.spans.get committed
  refine ⟨stillCommitted, own, declaration, ?_, ?_,
    tells.grows grows ordered committed⟩
  · rw [same]
    exact isOwn
  · rw [grows.compiled]
    exact isFirst

/-- Entering what the first declaration says. -/
theorem FirstDecides.enter
    (decides : parser.FirstDecides host)
    {base : Nat}
    (committed : base < parser.spans.size)
    {own : SymbolId}
    (isOwn : (parser.spans.get base).symbol = some own)
    {declaration : Synthesized}
    {symbol : SymbolId}
    (isFirst : parser.compiled.grammar.declared? own symbol = some declaration)
    {made : Option SpanId}
    (tells : parser.Tells host declaration.predicate base made.isSome) :
    Parser.FirstDecides host
      { parser with
        synthesized := parser.synthesized.insert (base, symbol) made } := by
  intro other key outcome stored
  simp only [Std.TreeMap.getElem?_insert] at stored
  split at stored
  · rename_i same
    obtain ⟨rfl, rfl⟩ := Prod.mk.inj (Std.LawfulEqCmp.eq_of_compare same)
    obtain rfl := Option.some.inj stored
    exact ⟨committed, own, declaration, isOwn, isFirst, tells⟩
  · exact decides other key outcome stored

/-- A sound parser that was told by first declarations what is synthesized. -/
structure Decided
    (host : Host σ)
    (grammar : Grammar)
    (options : CompileOptions)
    (parser : Parser) : Prop where
  sound : parser.Sound host grammar options
  decides : parser.FirstDecides host

/-- Adding to the spans ahead changes nothing that was entered. -/
theorem Decided.addCandidates
    (decided : parser.Decided host grammar options)
    (ids : List SpanId) :
    Parser.Decided host grammar options
      { parser with candidates := parser.candidates ++ ids } where
  sound := decided.sound.dropWork _ _ (List.Subset.refl _) _
  decides := decided.decides.same rfl rfl rfl rfl rfl

end Parser

namespace Parsing

variable {σ : Type} {host : Host σ}
variable {grammar : Grammar} {options : CompileOptions}
variable {parser : Parser}

/-- What is synthesized by a first declaration, or known, is what the first one says. -/
theorem ensures_synthesize_first
    (wellFormed : grammar.WellFormed)
    (decided : parser.Decided host grammar options)
    {base : Nat}
    (fromInput : base ∈ parser.input)
    {declaration : Synthesized}
    (declared : declaration ∈ grammar.synthesized)
    (isBase : (parser.spans.get base).symbol = some declaration.base)
    (isFirst : parser.synthesized[(base, declaration.symbol)]? = none →
      grammar.declared? declaration.base declaration.symbol = some declaration) :
    Ensures parser (synthesize host base declaration)
      (fun _ after => after.FirstDecides host) (·.FirstDecides host) := by
  have sound := decided.sound
  have ordered := sound.loaded.ordered
  have terms : host.TestTerms grammar True := ⟨wellFormed, .inr trivial⟩
  have committed := ordered.input_known base fromInput
  unfold synthesize
  refine ensures_get ?_
  split
  · exact .pure decided.decides
  · rename_i unknown
    have decides := isFirst unknown
    rw [← sound.loaded.isGrammar] at decides
    refine .bind (((ensures_testPredicate terms sound
      (wellFormed.synthesized_terminal declared).2.2.2 committed).and
      (ensures_testPredicate_known host _ _ parser)).imp
        (fun _ _ found => found.1) ?_) ?_
    · rintro _ ⟨-, evaluator, -, rfl⟩
      exact decided.decides.same rfl rfl rfl rfl rfl
    · rintro holds tested ⟨⟨evaluator, isTested⟩, -, tells⟩
      have learns : parser.Learns tested :=
        isTested ▸ parser.learns_evaluator evaluator
      have testedDecides : tested.FirstDecides host := by
        rw [isTested]
        exact decided.decides.same rfl rfl rfl rfl rfl
      obtain ⟨testedCommitted, same⟩ := learns.spans.get committed
      have testedTells := tells.grows (learns.grows 0) ordered committed
      have testedOrdered : tested.context.Ordered := by
        rw [isTested]
        exact ordered
      rw [← learns.compiled] at decides
      rw [← same] at isBase
      cases holds with
      | false =>
          simp only [Bool.false_eq_true, if_false, pure_bind]
          exact ensures_modify (.pure (testedDecides.enter testedCommitted isBase
            decides testedTells))
      | true =>
          simp only [if_true, pure_bind]
          refine ensures_get (ensures_commit (ensures_modify (.pure ?_)))
          generalize ({ Span.new _ _ _ _ _ with
            features := _, head := _, weight := _ } : Span) = span
          have commits := Parser.Asks.commit tested span
          have grows : tested.Grows 0
              { tested with spans := (tested.spans.push span).2 } :=
            { Parser.Grows.refl 0 tested with spans := commits.spans }
          obtain ⟨still, sameSpan⟩ := grows.spans.get testedCommitted
          rw [← sameSpan] at isBase
          exact (testedDecides.asks testedOrdered commits rfl).enter still isBase
            decides (testedTells.grows grows testedOrdered testedCommitted)

/-- Collecting what is synthesized by one declaration. -/
theorem ensures_collect_first
    (wellFormed : grammar.WellFormed)
    (decided : parser.Decided host grammar options)
    {base : Nat}
    (fromInput : base ∈ parser.input)
    {declaration : Synthesized}
    (declared : declaration ∈ grammar.synthesized)
    (isBase : (parser.spans.get base).symbol = some declaration.base)
    (isFirst : parser.synthesized[(base, declaration.symbol)]? = none →
      grammar.declared? declaration.base declaration.symbol = some declaration) :
    Ensures parser (collect host (.synthesized base declaration))
      (fun _ after => after.Decided host grammar options)
      (·.FirstDecides host) := by
  have terms : host.TestTerms grammar True := ⟨wellFormed, .inr trivial⟩
  refine .bind (((ensures_synthesize_first wellFormed decided fromInput declared
    isBase isFirst).and (ensures_synthesize terms decided.sound fromInput declared
    isBase)).imp (fun _ _ made => made) fun _ stopped => stopped.1) ?_
  rintro made middle ⟨decides, -, sound, -⟩ _
  exact Parser.Decided.addCandidates ⟨sound, decides⟩ made.toList

/-- Whatever is synthesized from a span is what the first declarations say of it. -/
theorem ensures_synthesizeAll_first
    (wellFormed : grammar.WellFormed)
    {base : Nat}
    {own : SymbolId}
    (done rest : List Synthesized)
    (isSplit : grammar.synthesized.filter (·.base == own) = done ++ rest)
    (decided : parser.Decided host grammar options)
    (fromInput : base ∈ parser.input)
    (isBase : (parser.spans.get base).symbol = some own)
    (known : ∀ early ∈ done,
      (parser.synthesized[(base, early.symbol)]?).isSome) :
    Ensures parser
      (rest.forM fun declaration => collect host (.synthesized base declaration))
      (fun _ after => after.Decided host grammar options)
      (·.FirstDecides host) := by
  induction rest generalizing done parser with
  | nil => exact .pure decided
  | cons declaration rest inductionHypothesis =>
      have listed : declaration ∈ grammar.synthesized.filter (·.base == own) := by
        rw [isSplit]
        exact List.mem_append_right _ List.mem_cons_self
      obtain ⟨declared, sameBase⟩ := List.mem_filter.mp listed
      obtain rfl := eq_of_beq sameBase
      have isFirst : parser.synthesized[(base, declaration.symbol)]? = none →
          grammar.declared? declaration.base declaration.symbol =
            some declaration := by
        refine fun unknown => Grammar.declared?_of_split isSplit ?_
        intro early isDone same
        have isKnown := known early isDone
        rw [same, unknown] at isKnown
        cases isKnown
      rw [List.forM_eq_forM, List.forM_cons]
      refine .bind (((ensures_collect_first wellFormed decided fromInput declared
        isBase isFirst).and (ensures_collect host (.synthesized base
        declaration))).imp (fun _ _ collected => collected)
        fun _ stopped => stopped.1) ?_
      rintro _ middle ⟨collected, asks, isKnown, -⟩
      have committed := decided.sound.loaded.ordered.input_known base fromInput
      have input : middle.input = parser.input := by rw [asks.same]
      refine inductionHypothesis (done ++ [declaration])
        (isSplit.trans (List.append_cons _ _ _)) collected (input ▸ fromInput)
        ((congrArg Span.symbol (asks.spans.get committed).2).trans isBase) ?_
      intro early listedEarly
      rcases List.mem_append.mp listedEarly with isDone | isLast
      · obtain ⟨made, isMade⟩ := Option.isSome_iff_exists.mp (known early isDone)
        exact Option.isSome_iff_exists.mpr ⟨made, asks.synthesized _ _ isMade⟩
      · obtain rfl := List.mem_singleton.mp isLast
        exact isKnown

/-- Everything that stems from an input span is what the first declarations say. -/
theorem ensures_collectFrom_first
    (wellFormed : grammar.WellFormed)
    (decided : parser.Decided host grammar options)
    {base : Nat}
    (fromInput : base ∈ parser.input) :
    Ensures parser (collectFrom host base)
      (fun _ after => after.Decided host grammar options)
      (·.FirstDecides host) := by
  unfold collectFrom
  refine ensures_modify (ensures_get ?_)
  have begun := decided.addCandidates [base]
  split
  · rename_i symbol isSymbol
    refine ensures_synthesizeAll_first wellFormed [] _ ?_ begun fromInput isSymbol
      fun early isDone => by cases isDone
    rw [← decided.sound.loaded.isGrammar]
    rfl
  · exact .pure begun

/-- The spans ahead are collected as the first declarations say. -/
theorem ensures_collectCandidates_first
    (wellFormed : grammar.WellFormed)
    (decided : parser.Decided host grammar options)
    (word : Nat) :
    Ensures parser (collectCandidates host word)
      (fun _ after => after.Decided host grammar options)
      (·.FirstDecides host) := by
  unfold collectCandidates
  have begun : Parser.Decided host grammar options
      { parser with candidates := [] } :=
    ⟨decided.sound.dropWork _ _ (List.Subset.refl _) _,
      decided.decides.same rfl rfl rfl rfl rfl⟩
  refine ensures_modify (ensures_get ?_)
  split
  · rename_i ahead isAhead
    refine (Ensures.forM
      (fun current => current.Decided host grammar options ∧
        current.input = parser.input) (fun _ _ => True) _ ?_
      ⟨begun, rfl⟩).imp (fun _ _ collected => collected.1.1) fun _ stopped => stopped
    rintro base member current ⟨currentDecided, input⟩
    have fromInput : base ∈ current.input := by
      rw [input]
      exact (decided.sound.loaded.word_known isAhead member).1
    refine ((ensures_collectFrom_first wellFormed currentDecided fromInput).and
      (asks_collectFrom host base current)).imp ?_ fun _ stopped => stopped.1
    rintro _ after ⟨afterDecided, asks⟩
    refine ⟨⟨afterDecided, ?_⟩, trivial, fun _ _ => trivial⟩
    rw [asks.same]
    exact input
  · exact .pure begun

end Parsing

namespace Parser

variable {σ : Type} {host : Host σ}
variable {grammar : Grammar} {options : CompileOptions} {word : Nat}
variable {config : ParserConfig}
variable {before after parser : Parser}

/-- A node that acts enters nothing. -/
theorem FirstDecides.act
    (decides : parser.FirstDecides host)
    (node : StateNodeId) :
    (parser.act node).FirstDecides host := by
  unfold Parser.act
  refine FirstDecides.onlyWork ?_
    (onlyWork_foldl (fun _ => onlyWork_queueReduction) _)
  exact decides.same rfl rfl rfl rfl rfl

/-- Everything that is done at a word leaves the first declarations to decide. -/
theorem leads_firstDecides
    (wellFormed : grammar.WellFormed) :
    Leads host grammar options word fun before after =>
      before.1.FirstDecides host → after.1.FirstDecides host where
  refl _ := id
  trans _ _ _ early late decides := late (early decides)
  begins _ _ decides := decides.same rfl rfl rfl rfl rfl
  collects sound state decides :=
    ((Parsing.ensures_collectCandidates_first wellFormed ⟨sound, decides⟩
      word).imp (fun _ _ collected => collected.decides)
      fun _ stopped => stopped).leadsTo state
  wakes _ _ decides := decides.onlyWork (onlyWork_wakeWord word)
  acts _ _ _ decides := by
    refine FirstDecides.act ?_ _
    exact decides.same rfl rfl rfl rfl rfl
  takes _ _ _ decides := decides.same rfl rfl rfl rfl rfl
  reduces working _ _ :=
    (Parsing.attempts_reducePath host _ _).follows
      fun _ attempts _ _ decides => decides.asks
        working.sound.loaded.ordered attempts.toAsks attempts.entered
  attaches _ _ _ _ decides := decides.onlyWork (onlyWork_attach _ _ _ _)

/-- In whatever is reached, the first declarations decided what is synthesized. -/
theorem Reachable.firstDecides
    (wellFormed : grammar.WellFormed)
    (reachable : Reachable host (grammar.compile options) config parser) :
    parser.FirstDecides host := by
  have nothing : ∀ parser : Parser, parser.synthesized = ∅ →
      parser.FirstDecides host := by
    intro parser isEmpty base symbol made stored
    rw [isEmpty] at stored
    cases stored
  induction reachable with
  | new => exact nothing _ rfl
  | clear _ _ => exact nothing _ rfl
  | start _ _ _ _ => exact nothing _ rfl
  | @step parser state reached decides =>
      have stepped := Parsing.stepped_step wellFormed
        (leads_firstDecides wellFormed) (reached.sound wellFormed) state
      generalize ((Parsing.step host).run.run (parser, state)).1 = answer at stepped
      generalize ((Parsing.step host).run.run (parser, state)).2 = after at stepped
      cases stepped with
      | notStarted _ => exact decides
      | finished _ _ => exact decides
      | failed _ _ leads _ => exact leads decides
      | processed _ _ leads working _ reductions isAfter =>
          subst isAfter
          have finishes :=
            (working.sound.finishWord wellFormed working.position reductions).2
          have grows := finishes.grows
          exact (leads decides).same grows.compiled grows.document grows.input
            finishes.spans finishes.synthesized

/-- A span that has all of another one but its terminal, and the other as its head. -/
def Copies
    (parser : Parser)
    (base : SpanId)
    (symbol : SymbolId)
    (id : SpanId) :
    Prop :=
  parser.spans.get? id =
    some { Span.new id (some symbol) (parser.compiled.grammar.name symbol)
        (parser.spans.get base).start (parser.spans.get base).stop with
      features := (parser.spans.get base).features
      head := base
      weight := (parser.spans.get base).weight }

/-- An entered span is a copy of its base, and not from the input. -/
theorem Packed.copies_of_entered
    (wellFormed : grammar.WellFormed)
    (sound : parser.Sound host grammar options)
    (packed : parser.Packed)
    {base : SpanId}
    {symbol : SymbolId}
    {id : Nat}
    (stored : parser.synthesized[(base, symbol)]? = some (some id)) :
    parser.Copies base symbol id ∧ id ∉ parser.input := by
  obtain ⟨declaration, rfl, synthesizes⟩ :=
    sound.remembers.synthesized base symbol id stored
  refine ⟨synthesizes.stored, fun inInput => ?_⟩
  obtain ⟨isHead, isSymbol, -, differs⟩ := sound.entered wellFormed stored
  rw [packed.heads id inInput] at isHead
  rw [isHead] at isSymbol
  exact differs isSymbol

/-- A copy that was not in the input was entered as what it is. -/
theorem Sound.entered_of_copies
    (sound : parser.Sound host grammar options)
    (wellFormed : grammar.WellFormed)
    {base : SpanId}
    {symbol : SymbolId}
    {id : Nat}
    (sourced : parser.Sourced id)
    (notInput : id ∉ parser.input)
    (copies : parser.Copies base symbol id) :
    parser.synthesized[(base, symbol)]? = some (some id) := by
  obtain ⟨other, own, stored⟩ := sourced.resolve_left notInput
  obtain ⟨isHead, isSymbol, -, -⟩ := sound.entered wellFormed stored
  rw [SpanStore.get_of_get? copies] at isHead isSymbol
  obtain rfl : base = other := isHead
  obtain rfl : symbol = own := Option.some.inj isSymbol
  exact stored

/--
The first declaration of a terminal for a type decides alone. When the spans ahead
at a word are collected, there is one that was synthesized from an input span of
the word as a terminal if and only if the predicate of the first declaration of
that terminal for the type of the span holds on it, and it is the only one.
-/
theorem Reachable.synthesized_iff
    {builder : GrammarBuilder}
    (built : builder.build = .ok grammar)
    (responsive : host.Responsive grammar)
    {decide : String → Span → Bool}
    (decides : host.Decides decide)
    (reachable : Reachable host (grammar.compile options) config parser)
    (word : Nat)
    (state : σ) :
    ∃ after changed,
      (Parsing.collectCandidates host word).run.run (parser, state) =
          (.ok (), after, changed) ∧
        (∀ ahead, parser.words[word]? = some ahead →
          ∀ base ∈ ahead.spans, ∀ own symbol,
            (parser.spans.get base).symbol = some own →
              ((∃ id ∈ after.candidates, id ∉ after.input ∧
                  after.Copies base symbol id) ↔
                ∃ declaration,
                  grammar.declared? own symbol = some declaration ∧
                    Truth (parser.situation decide) declaration.predicate
                      (parser.spans.get base) true)) ∧
        ∀ base symbol first second,
          after.Sourced first → first ∉ after.input →
            after.Copies base symbol first →
              after.Sourced second → second ∉ after.input →
                after.Copies base symbol second →
                  first = second := by
  have wellFormed := GrammarBuilder.wellFormed_of_build built
  have sound := reachable.sound wellFormed
  have terms : host.TestTerms grammar False :=
    ⟨wellFormed, .inl ⟨responsive, decide, decides⟩⟩
  have collects := (((Parsing.ensures_collectCandidates terms sound word).and
    (Parsing.ensures_collectCandidates_first wellFormed
      ⟨sound, reachable.firstDecides wellFormed⟩ word)).and
    (Parsing.ensures_collectCandidates_sourced sound word)).and
    (Parsing.asks_collectCandidates host word parser) state
  generalize (Parsing.collectCandidates host word).run.run (parser, state) =
    outcome at collects
  obtain ⟨answer, after, changed⟩ := outcome
  cases answer with
  | error error => exact collects.1.1.1.2.elim
  | ok _ =>
      obtain ⟨⟨⟨⟨learns, -, -, collected, -⟩, decided⟩, sourced⟩, asks⟩ := collects
      have packed : after.Packed :=
        (reachable.packed wellFormed).asks sound asks sourced
      have ordered := sound.loaded.ordered
      have grows := asks.grows 0
      refine ⟨after, changed, rfl, ?_, ?_⟩
      · intro ahead isAhead base member own symbol isOwn
        have committed := (sound.loaded.word_known isAhead member).2
        obtain ⟨-, same⟩ := grows.spans.get committed
        -- What was entered for the span as that terminal settles its first declaration.
        have settles : ∀ made : Option SpanId,
            after.synthesized[(base, symbol)]? = some made →
              ∃ declaration,
                grammar.declared? own symbol = some declaration ∧
                  Truth (parser.situation decide) declaration.predicate
                    (parser.spans.get base) made.isSome := by
          intro made stored
          obtain ⟨-, type, declaration, isType, isFirst, tells⟩ :=
            decided.decides base symbol made stored
          have truth := tells decide decides
          rw [same, isOwn] at isType
          rw [decided.sound.loaded.isGrammar, ← Option.some.inj isType] at isFirst
          rw [same, grows.situation ordered] at truth
          exact ⟨declaration, isFirst, truth⟩
        constructor
        · rintro ⟨id, isCandidate, notInput, copies⟩
          exact settles (some id) (decided.sound.entered_of_copies wellFormed
            (sourced id isCandidate) notInput copies)
        · rintro ⟨declaration, isFirst, truth⟩
          obtain ⟨declared, rfl, rfl⟩ := Grammar.declared?_eq_some isFirst
          obtain ⟨made, stored, listed⟩ :=
            (collected ahead isAhead base member).drawn _
              ((congrArg Span.symbol same).trans isOwn) declaration
              (List.mem_filter.mpr
                ⟨decided.sound.loaded.isGrammar ▸ declared, by simp⟩)
          obtain ⟨other, isOther, settled⟩ := settles made stored
          obtain rfl := Option.some.inj (isFirst.symm.trans isOther)
          obtain ⟨id, rfl⟩ := Option.isSome_iff_exists.mp (settled.unique truth)
          obtain ⟨copies, notInput⟩ :=
            packed.copies_of_entered wellFormed decided.sound stored
          exact ⟨id, listed id rfl, notInput, copies⟩
      · intro base symbol first second firstSourced firstNew firstCopies
          secondSourced secondNew secondCopies
        have isFirst := decided.sound.entered_of_copies wellFormed firstSourced
          firstNew firstCopies
        have isSecond := decided.sound.entered_of_copies wellFormed secondSourced
          secondNew secondCopies
        rw [isFirst] at isSecond
        exact Option.some.inj (Option.some.inj isSecond)

end Parser

/-- The declarations of `S → Name`, where names are words that are capital or listed. -/
def lexiconBuilder : GrammarBuilder where
  terminals := ["Word"]
  rules := [⟨"S", [⟨"Name", none, none⟩], 0, none, none⟩]
  predicates := ⟨#[.custom "capital", .custom "listed"], by decide⟩
  start := some "S"
  defaultGreedy := none
  defaultWeight := none
  synthesized := [⟨"Name", "Word", 0⟩, ⟨"Name", "Word", 1⟩]
  outputs := []

/-- The grammar `S → Name` in numbers, where names are words that are capital or listed. -/
def lexiconGrammar : Grammar where
  symbols :=
    #[⟨"$", false⟩, ⟨"ε", false⟩, ⟨"S'", true⟩, ⟨"S", true⟩, ⟨"Word", false⟩,
      ⟨"Name", false⟩]
  rules := #[⟨0, 3, [⟨5, none, none⟩], 0, 1.0, false⟩]
  start := 3
  predicates := ⟨#[.custom "capital", .custom "listed"], by decide⟩
  synthesized := [⟨5, 4, 0⟩, ⟨5, 4, 1⟩]
  outputs := BitSet.ofList []

/-- Building the declarations yields the grammar. -/
theorem build_lexiconBuilder :
    lexiconBuilder.build = .ok lexiconGrammar := by
  simp [lexiconBuilder, lexiconGrammar, GrammarBuilder.build,
    GrammarBuilder.addNonterminals, GrammarBuilder.addTerminals,
    GrammarBuilder.addSynthesized, GrammarBuilder.checkOperands,
    GrammarBuilder.requirePredicate,
    GrammarBuilder.resolveRules, GrammarBuilder.resolveRule,
    GrammarBuilder.resolveElement, GrammarBuilder.resolveStart,
    requireSymbol, addSymbol, findSymbol?, reservedSymbols, maxSymbols,
    rootSymbol, Predicate.operands, List.findIdx?_cons, Alphabet.size,
    Alphabet.toList, bind, Except.bind, pure, Except.pure]

/-- A host of whose predicates one holds, and no other. -/
def Host.naming {σ : Type} (known : String) : Host σ where
  execute := Host.inheriting.execute
  test name _ _ state := (.ok (name == known), state)

theorem Host.decides_naming {σ : Type} (known : String) :
    (Host.naming known : Host σ).Decides fun name _ => name == known where
  answer answered := by
    cases answered
    rfl
  rejection rejected := by cases rejected

theorem Host.responsive_naming {σ : Type} (known : String) :
    (Host.naming known : Host σ).Responsive lexiconGrammar where
  tests _ _ _ _ _ fatal := by cases fatal
  operands := by
    refine PredicateAlphabet.acyclic_of_operands_lt fun id operand member => ?_
    match id with
    | 0 => cases member
    | 1 => cases member
    | id + 2 => cases member

namespace Parser

/-- A parse of one word that may be a name. -/
def lexiconStart : Parser :=
  (new (lexiconGrammar.compile {}) {}).start ⟨"big"⟩
    [⟨"Word", 0, 3, Features.empty⟩]

/-- The spans ahead at the word, where names are the words of one kind. -/
def lexiconAhead (known : String) : Parser :=
  ((Parsing.collectCandidates (Host.naming known) 0).run.run
    (lexiconStart, ())).2.1

private theorem lexiconStart_facts :
    lexiconStart.words[0]?.map (·.spans) = some [0] ∧
      (lexiconStart.spans.get 0).symbol = some 4 ∧
      (lexiconAhead "listed").candidates = [0] ∧
      (lexiconAhead "listed").input = [0] := by
  decide +kernel

private theorem reachable_lexiconStart (known : String) :
    Reachable (Host.naming known : Host Unit) (lexiconGrammar.compile {}) {}
      lexiconStart :=
  .start _ _ .new

private theorem truth_lexiconStart
    (known : String)
    {id : PredicateId}
    (stored : lexiconGrammar.predicates.get? id = some (.custom known)) :
    Truth (lexiconStart.situation fun name _ => name == known) id
      (lexiconStart.spans.get 0) true := by
  have truth : Truth (lexiconStart.situation fun name _ => name == known) id
      (lexiconStart.spans.get 0) (known == known) :=
    .custom stored
  rwa [beq_self_eq_true] at truth

/-- A capital word is synthesized as a name by the first declaration. -/
theorem synthesized_iff_lexicon :
    lexiconBuilder.build = .ok lexiconGrammar ∧
      (Host.naming "capital" : Host Unit).Responsive lexiconGrammar ∧
      (Host.naming "capital" : Host Unit).Decides
        (fun name _ => name == "capital") ∧
      Reachable (Host.naming "capital" : Host Unit)
        (lexiconGrammar.compile {}) {} lexiconStart ∧
      ∃ after changed,
        (Parsing.collectCandidates (Host.naming "capital") 0).run.run
            (lexiconStart, ()) = (.ok (), after, changed) ∧
          ∃ id ∈ after.candidates, id ∉ after.input ∧ after.Copies 0 5 id := by
  obtain ⟨isAhead, isWord, -, -⟩ := lexiconStart_facts
  obtain ⟨ahead, isAhead, spans⟩ := Option.map_eq_some_iff.mp isAhead
  obtain ⟨after, changed, ran, iff, -⟩ := Reachable.synthesized_iff
    build_lexiconBuilder (Host.responsive_naming "capital")
    (Host.decides_naming "capital") (reachable_lexiconStart "capital") 0 ()
  refine ⟨build_lexiconBuilder, Host.responsive_naming "capital",
    Host.decides_naming "capital", reachable_lexiconStart "capital", after,
    changed, ran, ?_⟩
  exact (iff ahead isAhead 0 (by simp [spans]) 4 5 isWord).mpr
    ⟨⟨5, 4, 0⟩, rfl, truth_lexiconStart "capital" rfl⟩

/--
A word that is listed, but not capital, is not synthesized as a name: the second
declaration, whose predicate holds on it, is not looked at.
-/
theorem not_synthesized_lexicon :
    lexiconBuilder.build = .ok lexiconGrammar ∧
      (Host.naming "listed" : Host Unit).Responsive lexiconGrammar ∧
      (Host.naming "listed" : Host Unit).Decides
        (fun name _ => name == "listed") ∧
      Reachable (Host.naming "listed" : Host Unit)
        (lexiconGrammar.compile {}) {} lexiconStart ∧
      (∃ ahead, lexiconStart.words[0]? = some ahead ∧ 0 ∈ ahead.spans) ∧
      (lexiconStart.spans.get 0).symbol = some 4 ∧
      (∃ declaration ∈ lexiconGrammar.synthesized,
        declaration.base = 4 ∧ declaration.symbol = 5 ∧
          Truth (lexiconStart.situation fun name _ => name == "listed")
            declaration.predicate (lexiconStart.spans.get 0) true) ∧
      ¬ ∃ id ∈ (lexiconAhead "listed").candidates,
        id ∉ (lexiconAhead "listed").input ∧
          (lexiconAhead "listed").Copies 0 5 id := by
  obtain ⟨isAhead, isWord, candidates, input⟩ := lexiconStart_facts
  obtain ⟨ahead, isAhead, spans⟩ := Option.map_eq_some_iff.mp isAhead
  refine ⟨build_lexiconBuilder, Host.responsive_naming "listed",
    Host.decides_naming "listed", reachable_lexiconStart "listed",
    ⟨ahead, isAhead, by simp [spans]⟩, isWord,
    ⟨⟨5, 4, 1⟩, by decide, rfl, rfl, truth_lexiconStart "listed" rfl⟩, ?_⟩
  rintro ⟨id, isCandidate, isNew, -⟩
  rw [candidates] at isCandidate
  rw [input] at isNew
  exact isNew isCandidate

end Parser

end SpanForest
