import SpanForest.Proofs.Parser.Collecting
import SpanForest.Proofs.Parser.Covering
import SpanForest.Proofs.Parser.Leading
import SpanForest.Proofs.Parser.Reachable
import SpanForest.Proofs.Stack.Packing

namespace SpanForest

/-!
# Local ambiguity is packed

What is read is told apart by its number, what is reduced by its content. The two
agree: a span of the input is its own head, at most one span of a terminal is
synthesized from another, and none of the terminal of its base. So equivalent spans
of a terminal are one span, and the stack of a parse is packed at all times.
-/

namespace Parser

variable {σ : Type} {host : Host σ}
variable {grammar : Grammar} {options : CompileOptions} {word : Nat}
variable {config : ParserConfig}
variable {before after parser : Parser}

/-- A span of the input, or one that was entered as synthesized. -/
def Sourced (parser : Parser) (id : Nat) : Prop :=
  id ∈ parser.input ∨
    ∃ (base : SpanId) (symbol : SymbolId),
      parser.synthesized[(base, symbol)]? = some (some id)

/-- What was entered stays entered. -/
theorem Sourced.retained
    {id : Nat}
    (sourced : before.Sourced id)
    (input : after.input = before.input)
    (retains : before.Retains after) :
    after.Sourced id := by
  rcases sourced with inInput | ⟨base, symbol, stored⟩
  · exact .inl (input ▸ inInput)
  · exact .inr ⟨base, symbol, retains _ _ stored⟩

/-- Spans of the input are their own heads. -/
def OwnHeads (parser : Parser) : Prop :=
  ∀ id ∈ parser.input, (parser.spans.get id).head = id

/-- An entered span has its base as its head, and the symbol as which it was entered. -/
theorem Sound.entered
    (sound : parser.Sound host grammar options)
    (wellFormed : grammar.WellFormed)
    {base : SpanId}
    {symbol : SymbolId}
    {id : Nat}
    (stored : parser.synthesized[(base, symbol)]? = some (some id)) :
    (parser.spans.get id).head = base ∧
      (parser.spans.get id).symbol = some symbol ∧
      base ∈ parser.input ∧
      (parser.spans.get base).symbol ≠ some symbol := by
  obtain ⟨declaration, rfl, synthesizes⟩ :=
    sound.remembers.synthesized base symbol id stored
  have declared := synthesizes.declared
  rw [sound.loaded.compiled] at declared
  rw [SpanStore.get_of_get? synthesizes.stored, synthesizes.isBase]
  exact ⟨rfl, rfl, synthesizes.from_input, fun same =>
    wellFormed.synthesized_other declared (Option.some.inj same)⟩

/-- Equivalent spans of terminals are one span. -/
theorem Sourced.eq_of_equivalent
    (sound : parser.Sound host grammar options)
    (wellFormed : grammar.WellFormed)
    (heads : parser.OwnHeads)
    {left right : Nat}
    (leftSourced : parser.Sourced left)
    (rightSourced : parser.Sourced right)
    (isEquivalent :
      (parser.spans.get left).equivalent (parser.spans.get right) = true) :
    left = right := by
  obtain ⟨sameSymbol, sameHead⟩ :
      (parser.spans.get left).symbol = (parser.spans.get right).symbol ∧
        (parser.spans.get left).head = (parser.spans.get right).head := by
    simp only [Span.equivalent, Bool.and_eq_true, beq_iff_eq] at isEquivalent
    exact ⟨isEquivalent.1.1.1.2, isEquivalent.1.1.2⟩
  rcases leftSourced with leftInput | ⟨base, symbol, leftStored⟩
  · rw [heads left leftInput] at sameHead
    rcases rightSourced with rightInput | ⟨base, symbol, rightStored⟩
    · rw [sameHead, heads right rightInput]
    · obtain ⟨isHead, isSymbol, -, differs⟩ :=
        sound.entered wellFormed rightStored
      rw [isHead] at sameHead
      rw [isSymbol, sameHead] at sameSymbol
      exact absurd sameSymbol differs
  · obtain ⟨isHead, isSymbol, -, differs⟩ := sound.entered wellFormed leftStored
    rcases rightSourced with rightInput | ⟨other, own, rightStored⟩
    · rw [isHead, heads right rightInput] at sameHead
      rw [isSymbol, ← sameHead] at sameSymbol
      exact absurd sameSymbol.symm differs
    · obtain ⟨isOtherHead, isOwn, -, -⟩ := sound.entered wellFormed rightStored
      rw [isHead, isOtherHead] at sameHead
      rw [isSymbol, isOwn] at sameSymbol
      rw [sameHead, Option.some.inj sameSymbol, rightStored] at leftStored
      exact (Option.some.inj (Option.some.inj leftStored)).symm

/-- A parser whose stack is packed, and whose terminals are input or entered. -/
structure Packed (parser : Parser) : Prop where
  heads : parser.OwnHeads
  candidates : ∀ id ∈ parser.candidates, parser.Sourced id
  shifts : ∀ shift ∈ parser.shifts, parser.Sourced shift.span
  shifted :
    ∀ node : Nat, node < parser.stack.symbols.size → parser.Shifted node →
      parser.Sourced (parser.stack.symbolNode node).span
  stack : parser.stack.Packed parser.spans

/-- What is packed does not depend on the work that is left. -/
theorem Packed.same
    (packed : before.Packed)
    (input : after.input = before.input)
    (spans : after.spans = before.spans)
    (synthesized : after.synthesized = before.synthesized)
    (candidates : after.candidates = before.candidates)
    (shifts : after.shifts = before.shifts)
    (stack : after.stack = before.stack) :
    after.Packed := by
  have sourced : ∀ id, after.Sourced id ↔ before.Sourced id := by
    intro id
    rw [Sourced, input, synthesized, Sourced]
  constructor
  case heads =>
    unfold OwnHeads
    rw [input, spans]
    exact packed.heads
  case candidates =>
    rw [candidates]
    exact fun id member => (sourced id).mpr (packed.candidates id member)
  case shifts =>
    rw [shifts]
    exact fun shift member => (sourced _).mpr (packed.shifts shift member)
  case shifted =>
    unfold Shifted
    rw [stack]
    exact fun node inside shifted =>
      (sourced _).mpr (packed.shifted node inside shifted)
  case stack =>
    rw [stack, spans]
    exact packed.stack

/-- A parse whose stack became another packed one, by reading sourced spans only. -/
theorem Packed.withStack
    {since : Nat}
    {stack : GraphStack}
    (packed : parser.Packed)
    (extended : parser.stack.Extends since stack)
    (stackPacked : stack.Packed parser.spans)
    (added : ∀ node : Nat, parser.stack.symbols.size ≤ node →
      node < stack.symbols.size →
      (∀ word : Nat, node ∉ (stack.layer word).reduced) →
      parser.Sourced (stack.symbolNode node).span) :
    Packed { parser with stack := stack } where
  heads := packed.heads
  candidates := packed.candidates
  shifts := packed.shifts
  shifted node inside isShifted := by
    by_cases old : node < parser.stack.symbols.size
    · have sourced := packed.shifted node old fun word listed =>
        isShifted word ((extended.reduced node old word).mpr listed)
      rwa [← (extended.symbol node old).span] at sourced
    · exact added node (Nat.le_of_not_lt old) inside isShifted
  stack := stackPacked

/-- A stack of the same shape in which no node came to life. -/
theorem Packed.shrinks
    (packed : parser.Packed)
    {stack : GraphStack}
    (shape : parser.stack.SameShape stack)
    (derivations : ∀ node : Nat, (stack.symbolNode node).derivations.Sublist
      (parser.stack.symbolNode node).derivations)
    (removed : ∀ node : Nat, (parser.stack.symbolNode node).removed = true →
      (stack.symbolNode node).removed = true) :
    Packed { parser with stack := stack } := by
  refine packed.withStack (shape.extends 0)
    (packed.stack.shrinks shape derivations removed) ?_
  intro node isNew inside
  rw [shape.symbols_size] at inside
  exact absurd inside (Nat.not_lt_of_le isNew)

/-- Marks of state nodes that wait to act change nothing. -/
theorem Packed.wakes
    (packed : before.Packed)
    (wakes : before.Wakes after) :
    after.Packed := by
  have sameNode : ∀ node : Nat,
      after.stack.symbolNode node = before.stack.symbolNode node := by
    intro node
    rw [GraphStack.symbolNode, wakes.symbols, GraphStack.symbolNode]
  have marked := packed.shrinks wakes.shape
    (fun node => sameNode node ▸ List.Sublist.refl _)
    fun node isRemoved => sameNode node ▸ isRemoved
  refine marked.same ?_ ?_ ?_ ?_ ?_ rfl <;> rw [wakes.only_marks]

/-- Reductions that are queued change nothing. -/
theorem Packed.queues
    {reductions : List Reduction}
    (packed : before.Packed)
    (queues : before.Queues reductions after) :
    after.Packed := by
  refine packed.same ?_ ?_ ?_ ?_ ?_ ?_ <;> rw [queues.only]

/-- Asking the host keeps a parser packed if what it finds ahead is entered. -/
theorem Packed.asks
    (packed : before.Packed)
    (sound : before.Sound host grammar options)
    (asks : before.Asks after)
    (candidates : ∀ id ∈ after.candidates, after.Sourced id) :
    after.Packed := by
  have input : after.input = before.input := by rw [asks.same]
  have shifts : after.shifts = before.shifts := by rw [asks.same]
  constructor
  case heads =>
    intro id member
    rw [input] at member
    rw [(asks.spans.get (sound.loaded.ordered.input_known id member)).2]
    exact packed.heads id member
  case candidates => exact candidates
  case shifts =>
    rw [shifts]
    exact fun shift noted =>
      (packed.shifts shift noted).retained input asks.synthesized
  case shifted =>
    unfold Shifted
    rw [asks.stack]
    exact fun node inside shifted =>
      (packed.shifted node inside shifted).retained input asks.synthesized
  case stack =>
    rw [asks.stack]
    exact packed.stack.commits sound.stack
      (fun node inside => (sound.forest node inside).span_known) asks.spans

/-- Attaching packs a span into an equivalent one, or grows a node where there is none. -/
theorem Packed.attach
    (wellFormed : grammar.WellFormed)
    (working : parser.Working host grammar options word)
    {below : Nat}
    {derivation : Derivation}
    {id : Nat}
    (attachable : parser.Attachable host word below derivation id)
    (packed : parser.Packed) :
    (parser.attach word below id derivation).Packed := by
  have sound := working.sound
  have attaches := working.attaches wellFormed attachable
  generalize parser.attach word below id derivation = after at attaches ⊢
  cases attaches with
  | packs _ _ _ _ extended _ _ queues =>
      refine Packed.queues (packed.withStack extended.grows
        (packed.stack.nodeExtended sound.stack extended) ?_) queues
      intro own isNew inside
      rw [extended.symbols] at inside
      exact absurd inside (Nat.not_lt_of_le isNew)
  | limits => exact packed.same rfl rfl rfl rfl rfl rfl
  | @grows _ _ stack roots _ unmatched consistent grown _ wakes =>
      have stackPacked := packed.stack.nodeGrown sound.stack consistent grown
        (List.nodup_singleton derivation) unmatched
      have added : Packed { parser with stack := stack } := by
        refine packed.withStack grown.grows stackPacked ?_
        intro own isNew inside isShifted
        rw [grown.symbols] at inside
        obtain rfl := Nat.le_antisymm (Nat.le_of_lt_succ inside) isNew
        exact absurd isShifted (not_shifted_nodeGrown parser.roots grown)
      have rooted : Packed { parser with stack := stack, roots := roots } :=
        added.same rfl rfl rfl rfl rfl rfl
      exact rooted.wakes wakes

/-- A node that acts notes spans that are ahead. -/
theorem Packed.act
    (packed : parser.Packed)
    (node : StateNodeId) :
    (parser.act node).Packed := by
  have marked := packed.shrinks (GraphStack.sameShape_setActive node false)
    (fun _ => List.Sublist.refl _) fun _ isRemoved => isRemoved
  unfold Parser.act
  refine Packed.queues ?_ (queues_foldl _)
  refine { marked with shifts := fun shift noted => ?_ }
  rcases List.mem_append.mp noted with old | isNew
  · exact packed.shifts shift old
  · obtain ⟨id, isAhead, leads⟩ := List.mem_filterMap.mp isNew
    obtain ⟨symbol, -, leads⟩ := Option.bind_eq_some_iff.mp leads
    obtain ⟨target, -, isShift⟩ := Option.bind_eq_some_iff.mp leads
    obtain rfl := Option.some.inj isShift
    exact packed.candidates id isAhead

end Parser

namespace Parsing

variable {σ : Type} {host : Host σ}
variable {grammar : Grammar} {options : CompileOptions} {word : Nat}
variable {parser : Parser}

/-- Whatever is collected is input or entered, also where collecting stops. -/
theorem ensures_collectAll_sourced
    (items : List Collectible)
    (fromInput : ∀ id : Nat, .ahead id ∈ items → id ∈ parser.input)
    (sourced : ∀ id ∈ parser.candidates, parser.Sourced id) :
    Ensures parser (items.forM (collect host))
      (fun _ after => ∀ id ∈ after.candidates, after.Sourced id)
      (fun after => ∀ id ∈ after.candidates, after.Sourced id) := by
  induction items generalizing parser with
  | nil => exact .pure sourced
  | cons item rest inductionHypothesis =>
      rw [List.forM_eq_forM, List.forM_cons]
      refine .bind ((ensures_collect host item).imp (fun _ _ first => first) ?_) ?_
      · rintro _ ⟨evaluator, -, rfl⟩
        exact sourced
      · rintro _ middle ⟨asks, known, isFirst⟩
        have input : middle.input = parser.input := by rw [asks.same]
        refine inductionHypothesis (fun id member => ?_) fun id member => ?_
        · exact input ▸ fromInput id (List.mem_cons_of_mem _ member)
        · rw [isFirst] at member
          rcases List.mem_append.mp member with old | isNew
          · exact (sourced id old).retained input asks.synthesized
          · cases item with
            | ahead base =>
                obtain rfl := List.mem_singleton.mp isNew
                exact .inl (input ▸ fromInput id List.mem_cons_self)
            | synthesized base declaration =>
                obtain ⟨made, stored⟩ := Option.isSome_iff_exists.mp known
                rw [Parser.adds, stored] at isNew
                obtain rfl := Option.mem_toList.mp isNew
                exact .inr ⟨base, declaration.symbol, stored⟩

/-- The candidates of a word are input or entered, also where collecting stops. -/
theorem ensures_collectCandidates_sourced
    (sound : parser.Sound host grammar options)
    (word : Nat) :
    Ensures parser (collectCandidates host word)
      (fun _ after => ∀ id ∈ after.candidates, after.Sourced id)
      (fun after => ∀ id ∈ after.candidates, after.Sourced id) := by
  have known : ∀ ahead, parser.words[word]? = some ahead →
      ∀ base : Nat, base ∈ ahead.spans → base < parser.spans.size :=
    fun ahead isAhead base member =>
      (sound.loaded.word_known isAhead member).2
  have fromInput : ∀ id : Nat, .ahead id ∈ parser.collectibles word →
      id ∈ parser.input := by
    intro id listed
    unfold Parser.collectibles at listed
    split at listed
    · rename_i ahead isAhead
      obtain ⟨base, member, fromBase⟩ := List.mem_flatMap.mp listed
      rcases List.mem_cons.mp fromBase with isBase | declared
      · obtain rfl : id = base := by simpa using isBase
        exact (sound.loaded.word_known isAhead member).1
      · split at declared
        · obtain ⟨_, -, isOther⟩ := List.mem_map.mp declared
          cases isOther
        · cases declared
    · cases listed
  intro state
  rw [coincides_collectCandidates host word known state]
  exact @ensures_collectAll_sourced _ host { parser with candidates := [] } _
    fromInput (fun _ member => by cases member) state

end Parsing

namespace Parser

variable {σ : Type} {host : Host σ}
variable {grammar : Grammar} {options : CompileOptions} {word : Nat}
variable {config : ParserConfig}
variable {parser : Parser}

/-- Everything that is done at a word keeps a parser packed. -/
theorem leads_packed
    (wellFormed : grammar.WellFormed) :
    Leads host grammar options word
      fun before after => before.1.Packed → after.1.Packed where
  refl _ := id
  trans _ _ _ early late packed := late (early packed)
  begins _ _ packed := packed.same rfl rfl rfl rfl rfl rfl
  collects {parser} sound state packed := by
    have asks := Parsing.asks_collectCandidates host word parser
    have sourced := Parsing.ensures_collectCandidates_sourced sound word
    exact packed.asks sound (asks.leadsTo state) (sourced.leadsTo state)
  wakes {before} _ sound packed :=
    have idle : { before with active := [] }.Packed :=
      packed.same rfl rfl rfl rfl rfl rfl
    idle.wakes (sound.wakeWord word).2.wakes
  acts {before node rest} _ _ _ packed :=
    @Packed.act { before with active := rest }
      (packed.same rfl rfl rfl rfl rfl rfl) node
  takes _ _ _ packed := packed.same rfl rfl rfl rfl rfl rfl
  reduces {before rule nodes _} working _ _ :=
    (Parsing.attempts_reducePath host (grammar.rule rule) nodes).follows
      fun after attempts _ _ packed => by
        have input : after.input = before.input := by rw [attempts.same]
        refine packed.asks working.sound attempts.toAsks fun id isAhead => ?_
        exact (packed.candidates id (attempts.candidates ▸ isAhead)).retained
          input attempts.synthesized
  attaches _ working attachable _ packed :=
    packed.attach wellFormed working attachable

/-- A noted span is no equivalent of any other that was read into the same state. -/
theorem Packed.eq_of_equivalent
    (wellFormed : grammar.WellFormed)
    (sound : parser.Sound host grammar options)
    (packed : parser.Packed)
    {shift : Shift}
    (sourced : parser.Sourced shift.span)
    {symbol : SymbolId}
    (terminal : grammar.isNonterminal symbol = false)
    {state : StateId}
    (leads : parser.compiled.table.goto? state symbol = some shift.target)
    {parent other : Nat}
    (isTarget : (parser.stack.stateNode parent).state = shift.target)
    (held : other ∈ (parser.stack.stateNode parent).children)
    (isEquivalent :
      (parser.spans.get (parser.stack.symbolNode other).span).equivalent
        (parser.spans.get shift.span) = true) :
    (parser.stack.symbolNode other).span = shift.span := by
  rw [← isTarget] at leads
  have isSymbol := sound.symbol_of_leads wellFormed held leads
  have inside := sound.stack.child_known parent other held
  have shifted : parser.Shifted other := by
    refine Classical.byContradiction fun reduced => ?_
    obtain ⟨derivation, isLhs, yields, -⟩ :=
      (sound.forest other inside).born reduced
    have user := yields.user
    rw [sound.loaded.isGrammar] at isLhs user
    rw [isSymbol] at isLhs
    rw [Option.some.inj isLhs,
      (wellFormed.lhs_nonterminal (Grammar.rule_mem user)).1] at terminal
    cases terminal
  exact (packed.shifted other inside shifted).eq_of_equivalent sound wellFormed
    packed.heads sourced isEquivalent

/-- Reading a noted span keeps a parser packed. -/
theorem Packed.readShift
    (wellFormed : grammar.WellFormed)
    (sound : parser.Sound host grammar options)
    {shift : Shift}
    (ready : parser.ShiftReady host word shift)
    (sourced : parser.Sourced shift.span)
    (packed : parser.Packed) :
    (parser.readShift word shift).Packed := by
  cases isRemoved : (parser.stack.stateNode shift.origin).removed with
  | true =>
      rw [readShift_of_removed isRemoved]
      exact packed
  | false =>
      obtain ⟨symbol, readable, leads⟩ := ready.leads
      obtain ⟨consistent, read⟩ := sound.readNode wellFormed ready
        (readable.stored sound.loaded.ordered).2 leads
      have terminal := readable.terminal sound.loaded wellFormed
      rw [readShift_eq shift isRemoved]
      refine packed.withStack read.grows (packed.stack.nodeRead sound.stack
        consistent read List.nodup_nil ?_) ?_
      · exact fun parent _ isTarget other held => packed.eq_of_equivalent
          wellFormed sound sourced terminal leads isTarget held
      · intro node isNew inside _
        rw [read.added node isNew inside]
        exact sourced

/-- Reading all noted spans keeps a parser packed. -/
theorem Packed.readAll
    (wellFormed : grammar.WellFormed)
    (sound : parser.Sound host grammar options)
    (position : parser.position = word)
    (shifts : List Shift)
    (ready : ∀ shift ∈ shifts, parser.ShiftReady host word shift)
    (sourced : ∀ shift ∈ shifts, parser.Sourced shift.span)
    (packed : parser.Packed) :
    Packed (shifts.foldl (fun current shift => current.readShift word shift)
      parser) := by
  refine sound.readAll_keeps wellFormed position shifts ready ?_ packed
  intro current currentSound _ reads shift member isReady currentPacked
  have same : current.input = parser.input ∧
      current.synthesized = parser.synthesized := by
    rw [reads.only_stack]
    exact ⟨rfl, rfl⟩
  refine currentPacked.readShift wellFormed currentSound isReady
    ((sourced shift member).retained same.1 ?_)
  intro key made stored
  rw [same.2]
  exact stored

/-- A greedy pass keeps a parser packed. -/
theorem Packed.filterWord
    (packed : parser.Packed)
    (word : Nat) :
    (parser.filterWord word).Packed := by
  have trimmed := trimmed_filterGreedily parser.compiled parser.spans word
    parser.stack parser.roots
  exact (packed.shrinks trimmed.shape trimmed.derivations trimmed.removed).same
    rfl rfl rfl rfl rfl rfl

/-- Finishing a word keeps a parser packed. -/
theorem Packed.finishWord
    (wellFormed : grammar.WellFormed)
    (sound : parser.Sound host grammar options)
    (position : parser.position = word)
    (packed : parser.Packed) :
    (parser.finishWord word).Packed := by
  obtain ⟨taken, ready⟩ := sound.takeShifts position
  have none : Packed { parser with shifts := [] } :=
    { packed with shifts := fun _ noted => by cases noted }
  have read : (parser.readShifts word).Packed :=
    none.readAll wellFormed taken position parser.shifts ready packed.shifts
  simp only [Parser.finishWord]
  split
  · exact (read.filterWord word).same rfl rfl rfl rfl rfl rfl
  · exact read.same rfl rfl rfl rfl rfl rfl

/-- A parser is packed before it did anything. -/
theorem Fresh.packed
    (fresh : parser.Fresh grammar options)
    (heads : parser.OwnHeads)
    (candidates : parser.candidates = []) :
    parser.Packed where
  heads := heads
  candidates := by simp [candidates]
  shifts := by simp [fresh.shifts]
  shifted node inside := by
    rw [fresh.stack] at inside
    exact absurd inside (Nat.not_lt_zero node)
  stack := fresh.stack ▸ GraphStack.packed_new _ _

/-- Input spans are their own heads when they are loaded. -/
theorem ownHeads_start
    (document : Document)
    (input : List InputSpan) :
    (parser.start document input).OwnHeads := by
  intro id member
  have inside : id < (bindInput parser.compiled.grammar .empty input).size :=
    List.mem_range.mp (mem_sortBy.mp member)
  exact (@binds_bindInput parser.compiled.grammar .empty
    (fun other outside => absurd outside (Nat.not_lt_zero other)) input id
    inside).own_head

/-- Whatever is reached is packed, also after steps that failed. -/
theorem Reachable.packed
    (wellFormed : grammar.WellFormed)
    (reachable : Reachable host (grammar.compile options) config parser) :
    parser.Packed := by
  have emptied : (Parser.new (grammar.compile options) config).Packed :=
    (fresh_new config).packed (fun _ member => by cases member) rfl
  induction reachable with
  | new => exact emptied
  | clear _ _ => exact emptied.same rfl rfl rfl rfl rfl rfl
  | @start parser document input reached _ =>
      exact (fresh_start (reached.sound wellFormed).loaded.compiled document
        input).packed (ownHeads_start document input) rfl
  | @step parser state reached packed =>
      have stepped := Parsing.stepped_step wellFormed (leads_packed wellFormed)
        (reached.sound wellFormed) state
      generalize ((Parsing.step host).run.run (parser, state)).1 = answer at stepped
      generalize ((Parsing.step host).run.run (parser, state)).2 = after at stepped
      cases stepped with
      | notStarted _ => exact packed
      | finished _ _ => exact packed
      | failed _ _ leads _ => exact leads packed
      | processed _ _ leads working _ _ isAfter =>
          subst isAfter
          exact ((leads packed).finishWord wellFormed working.sound
            working.position).same rfl rfl rfl rfl rfl rfl

/--
Local ambiguity is packed: no state node holds two live symbol nodes with
equivalent spans, read or reduced, and none of them twice; and no symbol node has
a derivation twice.
-/
theorem Reachable.ambiguity_packed
    {builder : GrammarBuilder}
    (built : builder.build = .ok grammar)
    (reachable : Reachable host (grammar.compile options) config parser) :
    (∀ parent : Nat,
      (parser.stack.stateNode parent).children.Nodup ∧
        ∀ first ∈ (parser.stack.stateNode parent).children,
          ∀ second ∈ (parser.stack.stateNode parent).children,
            first ≠ second →
            (parser.stack.symbolNode first).removed = false →
            (parser.stack.symbolNode second).removed = false →
            (parser.spanOf first).equivalent (parser.spanOf second) = false) ∧
      ∀ node : Nat, (parser.stack.symbolNode node).derivations.Nodup := by
  have wellFormed := GrammarBuilder.wellFormed_of_build built
  have consistent := (reachable.sound wellFormed).stack
  have packed := (reachable.packed wellFormed).stack
  refine ⟨fun parent => ⟨consistent.held_once parent, ?_⟩, packed.once⟩
  exact fun first isFirst second isSecond differ firstLive secondLive =>
    packed.apart parent first second isFirst isSecond differ firstLive secondLive

/-- A parse, without greedy passes, of a word that the input holds twice. -/
def twinsEnd : Parser :=
  (afterSteps Host.inheriting 2
    ((new (nestedGrammar.compile {}) { greedy := false }).start ⟨"big"⟩
      [⟨"Word", 0, 3, Features.empty⟩, ⟨"Word", 0, 3, Features.empty⟩], ())).1

private theorem twinsEnd_facts :
    (twinsEnd.stack.stateNode 1).children = [0, 1] ∧
      (twinsEnd.stack.symbolNode 0).removed = false ∧
      (twinsEnd.stack.symbolNode 1).removed = false ∧
      (twinsEnd.stack.symbolNode 2).derivations = [⟨0, [1]⟩] := by
  decide +kernel

/-- A word that the input holds twice is read twice, since each span has its own head. -/
theorem ambiguity_packed_twins :
    nestedBuilder.build = .ok nestedGrammar ∧
      Reachable (Host.inheriting : Host Unit) (nestedGrammar.compile {})
        { greedy := false } twinsEnd ∧
      (twinsEnd.stack.stateNode 1).children = [0, 1] ∧
      (twinsEnd.stack.symbolNode 0).removed = false ∧
      (twinsEnd.stack.symbolNode 1).removed = false ∧
      (twinsEnd.spanOf 0).equivalent (twinsEnd.spanOf 1) = false ∧
      (twinsEnd.stack.symbolNode 2).derivations = [⟨0, [1]⟩] ∧
      (twinsEnd.stack.symbolNode 2).derivations.Nodup := by
  obtain ⟨children, firstLive, secondLive, derivations⟩ := twinsEnd_facts
  have reached : Reachable (Host.inheriting : Host Unit)
      (nestedGrammar.compile {}) { greedy := false } twinsEnd :=
    Reachable.afterSteps (.start _ _ .new) () 2
  obtain ⟨packed, once⟩ :=
    Reachable.ambiguity_packed build_nestedBuilder reached
  have apart := (packed 1).2 0 (by simp [children]) 1 (by simp [children])
    Nat.zero_ne_one firstLive secondLive
  exact ⟨build_nestedBuilder, reached, children, firstLive, secondLive, apart,
    derivations, once 2⟩

end Parser

end SpanForest
