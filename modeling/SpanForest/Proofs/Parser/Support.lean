import Mathlib.Data.List.Sort
import SpanForest.Proofs.Parser.Covering
import SpanForest.Proofs.Parser.Reachable
import SpanForest.Proofs.Parser.Leading
import SpanForest.Proofs.Stack.Support

namespace SpanForest

/-!
# Whatever is live is supported

The stack of a parse is supported at all times, whatever the host does and
wherever a step stops. A greedy pass takes nodes away, but drops none below the
word from which it sweeps, and sweeps until nothing is unsupported from there on.
-/

namespace GreedyPass

variable {compiled : CompiledGrammar} {spans : SpanStore} {winners : Winners}
variable {base final : GraphStack} {start : Nat} {pass : GreedyPass}

/-- Nodes below the word where a sweep starts stay, and those above are supported. -/
theorem Ended.supported
    {table : PackedTable}
    (ended : Ended compiled spans winners base final start pass)
    (consistent : base.Consistent table)
    (supported : base.Supported) :
    final.Supported := by
  have drops := ended.drops
  have swept := ended.swept
  have shape := drops.trimmed.shape.trans swept.trimmed.shape
  have finalConsistent := shape.consistent consistent
  have sameState : ∀ id : Nat, pass.stack.stateNode id = base.stateNode id :=
    fun id => by rw [GraphStack.stateNode, drops.states, GraphStack.stateNode]
  -- A node that was removed belongs to the word of the sweep or to a later one.
  have stateWord : ∀ id : Nat, (base.stateNode id).removed = false →
      (final.stateNode id).removed = true →
      ∃ word, pass.start ≤ word ∧ (base.stateNode id).word = some word := by
    intro id wasLive isRemoved
    rcases swept.state id isRemoved with before | ⟨word, late, listed⟩
    · rw [sameState, wasLive] at before
      cases before
    · rw [drops.trimmed.shape.layer] at listed
      exact ⟨word, late, ((consistent.mem_layer id word).mp listed).2⟩
  have symbolWord : ∀ id : Nat, (base.symbolNode id).removed = false →
      (final.symbolNode id).removed = true →
      ∀ word : Nat, (base.symbolNode id).word = some word →
        pass.start ≤ word := by
    intro id wasLive isRemoved word isWord
    rcases swept.symbol id isRemoved with before | ⟨⟨own, late, isOwn⟩, -⟩
    · rcases drops.only id before with old | isDropped
      · rw [wasLive] at old
        cases old
      · exact Nat.le_trans ended.starts (drops.late id isDropped word isWord)
    · rw [(drops.trimmed.shape.symbol id).2.2.1, isWord] at isOwn
      exact Option.some.inj isOwn ▸ late
  constructor
  case start =>
    refine Bool.eq_false_iff.mpr fun isRemoved => ?_
    obtain ⟨word, -, isWord⟩ := stateWord _ supported.start isRemoved
    rw [consistent.start_word] at isWord
    cases isWord
  case state =>
    intro id inside isOther isLive
    have wasLive : (base.stateNode id).removed = false :=
      Bool.eq_false_iff.mpr fun wasRemoved => by
        rw [swept.stays id ((sameState id).symm ▸ wasRemoved)] at isLive
        cases isLive
    rw [shape.states_size] at inside
    obtain ⟨child, isChild, childLive⟩ :=
      supported.state id inside isOther wasLive
    rw [(shape.state id).2.2]
    cases isWord : (base.stateNode id).word with
    | none => exact absurd (consistent.only_start id inside isWord) isOther
    | some word =>
        by_cases late : pass.start ≤ word
        · have listed : id ∈ (final.layer word).nodes := by
            rw [shape.layer]
            exact (consistent.mem_layer id word).mpr ⟨inside, isWord⟩
          have notStranded := ended.stable.state word late id listed
          simp only [GraphStack.isStranded, isLive, (shape.state id).2.2,
            Bool.not_false, Bool.true_and, Bool.and_eq_false_iff,
            Bool.not_eq_false', List.isEmpty_iff, List.all_eq_false,
            Bool.not_eq_true] at notStranded
          exact notStranded.resolve_left (List.ne_nil_of_mem isChild)
        · refine ⟨child, isChild, Bool.eq_false_iff.mpr fun isRemoved => ?_⟩
          have childWord := (consistent.fits_of_mem isChild).word
          exact late (symbolWord child childLive isRemoved word
            (childWord.trans isWord))
  case symbol =>
    intro id inside isLive
    have wasLive : (base.symbolNode id).removed = false :=
      Bool.eq_false_iff.mpr fun wasRemoved => by
        rw [swept.trimmed.removed id (drops.trimmed.removed id wasRemoved)]
          at isLive
        cases isLive
    rw [shape.symbols_size] at inside
    obtain ⟨child, isChild, childLive⟩ := supported.symbol id inside wasLive
    obtain ⟨holder, fits⟩ := consistent.fits id inside
    obtain ⟨-, ⟨word, isHolder, before⟩, -⟩ := fits.child child isChild
    have isWord := fits.word.trans isHolder
    rw [(shape.symbol id).2.2.2]
    by_cases late : pass.start ≤ word
    · have notFloating := ended.stable.symbol id
      simp only [GraphStack.isFloating, isLive, (shape.symbol id).2.2.1, isWord,
        (shape.symbol id).2.2.2, Option.any_some, late, decide_true,
        Bool.not_false, Bool.true_and, List.all_eq_false, Bool.not_eq_true]
        at notFloating
      exact notFloating
    · refine ⟨child, isChild, Bool.eq_false_iff.mpr fun isRemoved => ?_⟩
      obtain ⟨own, ownLate, isOwn⟩ := stateWord child childLive isRemoved
      have lower := before own isOwn
      omega

end GreedyPass

namespace Parser

variable {σ : Type} {host : Host σ}
variable {grammar : Grammar} {options : CompileOptions} {word : Nat}
variable {compiled : CompiledGrammar} {config : ParserConfig}
variable {before after parser : Parser}

/-- A parser whose stack is supported and whose roots are in the order of their creation. -/
structure Upheld (parser : Parser) : Prop where
  supported : parser.stack.Supported
  ordered : parser.roots.Pairwise (· < ·)

theorem Upheld.sameStack
    (upheld : before.Upheld)
    (stack : after.stack = before.stack)
    (roots : after.roots = before.roots) :
    after.Upheld :=
  ⟨stack ▸ upheld.supported, roots ▸ upheld.ordered⟩

/-- Marks of state nodes that wait to act uphold a parser. -/
theorem Upheld.wakes
    (upheld : before.Upheld)
    (wakes : before.Wakes after) :
    after.Upheld := by
  have roots : after.roots = before.roots := by rw [wakes.only_marks]
  refine ⟨upheld.supported.sameShape wakes.shape wakes.removed fun id => ?_,
    roots ▸ upheld.ordered⟩
  rw [GraphStack.symbolNode, wakes.symbols, GraphStack.symbolNode]

/-- Reductions that are queued uphold a parser. -/
theorem Upheld.queues
    {reductions : List Reduction}
    (upheld : before.Upheld)
    (queues : before.Queues reductions after) :
    after.Upheld :=
  upheld.sameStack (by rw [queues.only]) (by rw [queues.only])

/-- Attaching to a live state node upholds a parser. -/
theorem Upheld.attach
    (wellFormed : grammar.WellFormed)
    (working : parser.Working host grammar options word)
    {below : Nat}
    {derivation : Derivation}
    {id : Nat}
    (attachable : parser.Attachable host word below derivation id)
    (belowLive : (parser.stack.stateNode below).removed = false)
    (upheld : parser.Upheld) :
    (parser.attach word below id derivation).Upheld := by
  have sound := working.sound
  have attaches := working.attaches wellFormed attachable
  generalize parser.attach word below id derivation = after at attaches ⊢
  cases attaches with
  | @packs _ _ stack _ _ _ _ _ _ extended _ _ queues =>
      have packed : Upheld { parser with stack := stack } :=
        ⟨upheld.supported.nodeExtended extended, upheld.ordered⟩
      exact packed.queues queues
  | limits => exact upheld.sameStack rfl rfl
  | @grows _ _ stack roots _ _ _ grown isRoots wakes =>
      have sprouted : Upheld { parser with stack := stack, roots := roots } := by
        refine ⟨upheld.supported.nodeGrown grown rfl List.mem_cons_self
          belowLive, ?_⟩
        simp only [isRoots]
        split
        · refine List.pairwise_append.mpr ⟨upheld.ordered,
            List.pairwise_singleton _ _, fun root isRoot other isNew => ?_⟩
          rw [List.mem_singleton.mp isNew]
          exact ((sound.rooted root).mp isRoot).inside
        · exact upheld.ordered
      exact sprouted.wakes wakes

/-- A node that acts upholds a parser. -/
theorem Upheld.act
    (upheld : parser.Upheld)
    (node : StateNodeId) :
    (parser.act node).Upheld := by
  have marked := upheld.supported.sameShape
    (GraphStack.sameShape_setActive node false)
    (fun id => GraphStack.removed_setActive node id false) fun _ => rfl
  unfold Parser.act
  refine Upheld.queues ?_ (queues_foldl _)
  exact ⟨marked, upheld.ordered⟩

/-- Everything that is done at a word upholds a parser. -/
theorem leads_upheld
    (wellFormed : grammar.WellFormed) :
    Leads host grammar options word
      fun before after => before.1.Upheld → after.1.Upheld where
  refl _ := id
  trans _ _ _ early late upheld := late (early upheld)
  begins _ _ upheld := upheld.sameStack rfl rfl
  collects _ := (Parsing.asks_collectCandidates host word).follows
    fun _ asks _ _ upheld => upheld.sameStack asks.stack asks.roots
  wakes {before} _ sound upheld :=
    have idle : { before with active := [] }.Upheld := upheld.sameStack rfl rfl
    idle.wakes (sound.wakeWord word).2.wakes
  acts {before node rest} _ _ _ upheld :=
    @Upheld.act { before with active := rest } (upheld.sameStack rfl rfl) node
  takes _ _ _ upheld := upheld.sameStack rfl rfl
  reduces {_ rule nodes _} _ _ _ :=
    (Parsing.asks_reducePath host (grammar.rule rule) nodes).follows
      fun _ asks _ _ upheld => upheld.sameStack asks.stack asks.roots
  attaches _ working attachable isLive upheld :=
    upheld.attach wellFormed working attachable isLive

/-- Reading a noted span upholds a parser. -/
theorem Upheld.readShift
    (wellFormed : grammar.WellFormed)
    (sound : parser.Sound host grammar options)
    (position : parser.position = word)
    {shift : Shift}
    (ready : parser.ShiftReady host word shift)
    (upheld : parser.Upheld) :
    (parser.readShift word shift).Upheld := by
  obtain ⟨-, reads, -⟩ := sound.readShift wellFormed position ready
  cases isRemoved : (parser.stack.stateNode shift.origin).removed with
  | true =>
      rw [readShift_of_removed isRemoved]
      exact upheld
  | false =>
      have inLayers : parser.destination word shift <
          parser.stack.layers.size := by
        rw [sound.loaded.layers]
        exact Nat.lt_succ_of_le (nextWord_le_length ready.ahead)
      rw [readShift_eq shift isRemoved] at reads ⊢
      exact ⟨upheld.supported.readNode sound.stack inLayers reads.stack isRemoved,
        upheld.ordered⟩

/-- Reading all noted spans upholds a parser. -/
theorem Upheld.readAll
    (wellFormed : grammar.WellFormed)
    (sound : parser.Sound host grammar options)
    (position : parser.position = word)
    (shifts : List Shift)
    (ready : ∀ shift ∈ shifts, parser.ShiftReady host word shift)
    (upheld : parser.Upheld) :
    Upheld (shifts.foldl (fun current shift => current.readShift word shift)
      parser) := by
  refine sound.readAll_keeps wellFormed position shifts ready ?_ upheld
  exact fun _ currentSound isPosition _ _ _ isReady currentUpheld =>
    currentUpheld.readShift wellFormed currentSound isPosition isReady

/-- A greedy pass upholds a parser. -/
theorem Upheld.filterWord
    (sound : parser.Sound host grammar options)
    (upheld : parser.Upheld)
    (word : Nat) :
    (parser.filterWord word).Upheld := by
  constructor
  case supported =>
    change (filterGreedily parser.compiled parser.spans word parser.stack
      parser.roots).stack.Supported
    rcases filterGreedily_cases parser.compiled parser.spans word parser.stack
      parser.roots with unchanged | ⟨start, pass, ended⟩
    · rw [unchanged]
      exact upheld.supported
    · exact ended.supported sound.stack upheld.supported
  case ordered =>
    change (filterGreedily parser.compiled parser.spans word parser.stack
      parser.roots).roots.Pairwise (· < ·)
    unfold filterGreedily
    simp only
    split
    · exact upheld.ordered
    · exact upheld.ordered.filter _

/-- Reading all that was noted at a word upholds a parser. -/
theorem Upheld.readShifts
    (wellFormed : grammar.WellFormed)
    (sound : parser.Sound host grammar options)
    (position : parser.position = word)
    (upheld : parser.Upheld) :
    (parser.readShifts word).Upheld := by
  obtain ⟨taken, ready⟩ := sound.takeShifts position
  exact Upheld.readAll wellFormed taken position parser.shifts ready
    (upheld.sameStack rfl rfl)

/-- Finishing a word upholds a parser. -/
theorem Upheld.finishWord
    (wellFormed : grammar.WellFormed)
    (sound : parser.Sound host grammar options)
    (position : parser.position = word)
    (upheld : parser.Upheld) :
    (parser.finishWord word).Upheld := by
  obtain ⟨readSound, -, -⟩ := sound.readShifts wellFormed position
  have read := upheld.readShifts wellFormed sound position
  simp only [Parser.finishWord]
  split
  · exact (read.filterWord readSound word).sameStack rfl rfl
  · exact read.sameStack rfl rfl

/-- Whatever is reached is upheld, also after steps that failed. -/
theorem Reachable.upheld
    (wellFormed : grammar.WellFormed)
    (reachable : Reachable host (grammar.compile options) config parser) :
    parser.Upheld := by
  induction reachable with
  | new => exact ⟨GraphStack.supported_new _ _, List.Pairwise.nil⟩
  | clear _ _ => exact ⟨GraphStack.supported_new _ _, List.Pairwise.nil⟩
  | start _ _ _ _ => exact ⟨GraphStack.supported_new _ _, List.Pairwise.nil⟩
  | @step parser state reached upheld =>
      have stepped := Parsing.stepped_step wellFormed (leads_upheld wellFormed)
        (reached.sound wellFormed) state
      generalize ((Parsing.step host).run.run (parser, state)).1 = answer at stepped
      generalize ((Parsing.step host).run.run (parser, state)).2 = after at stepped
      cases stepped with
      | notStarted _ => exact upheld
      | finished _ _ => exact upheld
      | failed _ _ leads _ => exact leads upheld
      | processed _ _ leads working _ reductions isAfter =>
          subst isAfter
          exact ((leads upheld).finishWord wellFormed working.sound
            working.position).sameStack rfl rfl

/--
Live nodes rest on live nodes, down to the start node, which is never removed;
and the roots are the live nodes of the start symbol in the order of their
creation.
-/
theorem Reachable.live_supported
    {builder : GrammarBuilder}
    (built : builder.build = .ok grammar)
    (reachable : Reachable host (grammar.compile options) config parser) :
    (∀ word : Nat, ∀ id ∈ (parser.stack.layer word).nodes,
      (parser.stack.stateNode id).removed = false →
        ∃ child ∈ (parser.stack.stateNode id).children,
          (parser.stack.symbolNode child).removed = false) ∧
      (∀ id : Nat, id < parser.stack.symbols.size →
        (parser.stack.symbolNode id).removed = false →
          (∃ child ∈ (parser.stack.symbolNode id).children,
            (parser.stack.stateNode child).removed = false) ∧
          parser.stack.Grounded id) ∧
      (parser.stack.stateNode GraphStack.startNode).removed = false ∧
      parser.roots =
        (List.range parser.stack.symbols.size).filter fun id =>
          !(parser.stack.symbolNode id).removed &&
            (parser.stack.symbolNode id).symbol == some grammar.start := by
  have wellFormed := GrammarBuilder.wellFormed_of_build built
  have sound := reachable.sound wellFormed
  have upheld := reachable.upheld wellFormed
  have isGrammar : parser.compiled.grammar = grammar := by
    rw [sound.loaded.compiled]
    rfl
  refine ⟨?_, ?_, upheld.supported.start, ?_⟩
  · intro word id listed isLive
    obtain ⟨inside, isWord⟩ := (sound.stack.mem_layer id word).mp listed
    refine upheld.supported.state id inside (fun isStart => ?_) isLive
    rw [isStart, sound.stack.start_word] at isWord
    cases isWord
  · exact fun id inside isLive => ⟨upheld.supported.symbol id inside isLive,
      upheld.supported.grounded sound.stack inside isLive⟩
  · refine upheld.ordered.eq_of_mem_iff
      (List.pairwise_lt_range.filter _) fun node => ?_
    rw [sound.rooted node, List.mem_filter, List.mem_range, Bool.and_eq_true,
      Bool.not_eq_true', beq_iff_eq, ← isGrammar]
    constructor
    · rintro ⟨inside, -, isStart, isLive⟩
      exact ⟨inside, isLive, isStart⟩
    · rintro ⟨inside, isLive, isStart⟩
      refine ⟨inside, ?_, isStart, isLive⟩
      exact sound.not_shifted wellFormed inside
        wellFormed.start_nonterminal.1 (isGrammar ▸ isStart)

/-- After a parse that removed a phrase, the phrase that won is all that is left. -/
theorem live_supported_nested :
    nestedBuilder.build = .ok nestedGrammar ∧
      Reachable (Host.inheriting : Host Unit) (nestedGrammar.compile {}) {}
        nestedEnd ∧
      (nestedEnd.stack.symbolNode 5).removed = true ∧
      nestedEnd.stack.Grounded 6 ∧ nestedEnd.roots = [6] := by
  obtain ⟨-, symbols, -, roots⟩ :=
    Reachable.live_supported build_nestedBuilder reachable_nestedEnd
  refine ⟨build_nestedBuilder, reachable_nestedEnd, by decide +kernel,
    (symbols 6 (by decide +kernel) (by decide +kernel)).2, ?_⟩
  rw [roots]
  decide +kernel

end Parser

end SpanForest
