import SpanForest.Proofs.Parser.Candidates

namespace SpanForest

/-!
# The work at a word

While a word is processed, state nodes wait to act and reductions wait to be
tried. The work that is left has a weight: nodes that act and reductions that
are tried lighten it, and whatever they bring about replaces something that was
counted before. So the work at a word comes to an end.
-/

/-- The reductions of some rules at some symbol nodes through some state nodes. -/
def allReductions (rules symbols states : Nat) : List Reduction :=
  (List.range rules).flatMap fun rule =>
    (List.range symbols).flatMap fun anchor =>
      (none :: (List.range states).map some).map fun via =>
        ⟨rule, anchor, via⟩

theorem length_allReductions (rules symbols states : Nat) :
    (allReductions rules symbols states).length =
      rules * symbols * (1 + states) := by
  simp only [allReductions, List.length_flatMap, List.length_map,
    List.length_cons, List.length_range, List.map_const', List.sum_replicate_nat]
  rw [Nat.mul_assoc, Nat.add_comm states 1]

theorem mem_allReductions
    {rules symbols states : Nat}
    {reduction : Reduction}
    (rule : (reduction.rule : Nat) < rules)
    (anchor : (reduction.anchor : Nat) < symbols)
    (via : ∀ below : Nat, reduction.via = some below → below < states) :
    reduction ∈ allReductions rules symbols states := by
  obtain ⟨own, node, through⟩ := reduction
  refine List.mem_flatMap.mpr ⟨own, List.mem_range.mpr rule,
    List.mem_flatMap.mpr ⟨node, List.mem_range.mpr anchor,
      List.mem_map.mpr ⟨through, ?_, rfl⟩⟩⟩
  cases through with
  | none => exact List.mem_cons_self
  | some below =>
      exact List.mem_cons_of_mem _ (List.mem_map.mpr
        ⟨below, List.mem_range.mpr (via below rfl), rfl⟩)

namespace Parser

/-- Symbol nodes that may still be created at a word. -/
def fresh (parser : Parser) (word : Nat) : Nat :=
  parser.config.maxReduced - (parser.stack.layer word).reduced.length

/-- How much work may be left, among so many symbol nodes and state nodes. -/
def weight (parser : Parser) (word symbols states : Nat) : Nat :=
  parser.active.length + parser.fresh word + parser.reductions.length +
    missingFacts
      (allReductions parser.compiled.grammar.rules.size symbols states)
      parser.performed.contains

/-- A parse that went on at a word without getting more work to do. -/
structure Proceeds (word : Nat) (before after : Parser) : Prop where
  grows : before.Grows word after
  position : after.position = before.position
  candidates : after.candidates = before.candidates
  symbols :
    after.stack.symbols.size + after.fresh word ≤
      before.stack.symbols.size + before.fresh word
  states :
    after.stack.states.size + after.fresh word ≤
      before.stack.states.size + before.fresh word
  weight :
    ∀ symbols states : Nat,
      before.stack.symbols.size + before.fresh word ≤ symbols →
      before.stack.states.size + before.fresh word ≤ states →
      after.weight word symbols states ≤ before.weight word symbols states
  capped : before.capped = true → after.capped = true
  unharmed : before.stack.Unharmed after.stack

/-- A sound parse at work at a word. -/
structure Working
    {σ : Type}
    (host : Host σ)
    (grammar : Grammar)
    (options : CompileOptions)
    (word : Nat)
    (parser : Parser) : Prop where
  sound : parser.Sound host grammar options
  position : parser.position = word
  known : word ≤ parser.words.length
  ahead : parser.Ahead host
  begins : parser.BeginsAt word
  active :
    ∀ node : Nat, node ∈ parser.active →
      node = GraphStack.startNode ∨ node ∈ (parser.stack.layer word).nodes

/-- A parse of the same word that has the same spans and memories. -/
structure SameMemory (before after : Parser) : Prop where
  position : after.position = before.position
  spans : after.spans = before.spans
  evaluator : after.evaluator = before.evaluator
  synthesized : after.synthesized = before.synthesized
  outcomes : after.outcomes = before.outcomes

variable {σ : Type} {host : Host σ}
variable {grammar : Grammar} {options : CompileOptions} {word : Nat}
variable {first second third before after parser : Parser}

theorem Proceeds.refl (word : Nat) (parser : Parser) :
    parser.Proceeds word parser where
  grows := .refl _ _
  position := rfl
  candidates := rfl
  symbols := Nat.le_refl _
  states := Nat.le_refl _
  weight _ _ _ _ := Nat.le_refl _
  capped := id
  unharmed := .refl _

theorem Proceeds.trans
    (early : first.Proceeds word second)
    (late : second.Proceeds word third) :
    first.Proceeds word third where
  grows := early.grows.trans late.grows
  position := late.position.trans early.position
  candidates := late.candidates.trans early.candidates
  symbols := Nat.le_trans late.symbols early.symbols
  states := Nat.le_trans late.states early.states
  weight symbols states symbolsFit statesFit :=
    Nat.le_trans
      (late.weight symbols states (Nat.le_trans early.symbols symbolsFit)
        (Nat.le_trans early.states statesFit))
      (early.weight symbols states symbolsFit statesFit)
  capped isCapped := late.capped (early.capped isCapped)
  unharmed := early.unharmed.trans late.unharmed

/-- Learning is no work. -/
theorem Learns.proceeds
    (learns : before.Learns after)
    (word : Nat) :
    before.Proceeds word after := by
  have sameFresh : after.fresh word = before.fresh word := by
    simp only [fresh, learns.config, learns.stack]
  constructor
  case grows => exact learns.grows word
  case position => exact learns.position
  case candidates => exact learns.candidates
  case symbols => rw [learns.stack, sameFresh]
  case states => rw [learns.stack, sameFresh]
  case weight =>
    intro symbols states _ _
    simp only [Parser.weight, sameFresh, learns.active, learns.reductions,
      learns.performed, learns.compiled, Nat.le_refl]
  case capped =>
    intro isCapped
    rw [learns.capped]
    exact isCapped
  case unharmed =>
    rw [learns.stack]
    exact .refl _

/-- A sound parse that proceeded is still at work. -/
theorem Working.proceeds
    (working : before.Working host grammar options word)
    (proceeds : before.Proceeds word after)
    (sound : after.Sound host grammar options)
    (active : ∀ node : Nat, node ∈ after.active → node ∈ before.active ∨
      node ∈ (after.stack.layer word).nodes) :
    after.Working host grammar options word := by
  have grows := proceeds.grows
  constructor
  case sound => exact sound
  case position => exact proceeds.position.trans working.position
  case known => rw [grows.words]; exact working.known
  case ahead =>
    exact working.ahead.grows working.sound.loaded.ordered grows
      proceeds.candidates
  case begins =>
    exact working.begins.grows working.ahead grows proceeds.candidates
  case active =>
    intro node member
    rcases active node member with old | listed
    · rcases working.active node old with isStart | listed
      · exact .inl isStart
      · obtain ⟨inside, isWord⟩ :=
          (working.sound.stack.mem_layer node word).mp listed
        have same := grows.stack.state node inside
        exact .inr ((sound.stack.mem_layer node word).mpr
          ⟨Nat.lt_of_lt_of_le inside grows.stack.states_size,
            same.word.trans isWord⟩)
    · exact .inr listed

/-- A parse stays sound if its stack grows soundly and it forgets nothing. -/
theorem Sound.sameMemory
    {since : Nat}
    (sound : before.Sound host grammar options)
    (position : before.position = word)
    (grows : before.Grows since after)
    (memory : before.SameMemory after)
    (consistent : after.stack.Consistent before.compiled.table)
    (forest : after.Forest host)
    (carries : before.Carries after)
    (reductions : ∀ reduction ∈ after.reductions,
      reduction ∈ before.reductions ∨ after.ReductionReady word reduction)
    (shifts : ∀ shift ∈ after.shifts,
      shift ∈ before.shifts ∨ after.ShiftReady host word shift) :
    after.Sound host grammar options := by
  have ordered := sound.loaded.ordered
  constructor
  case loaded =>
    refine sound.loaded.grows grows ?_
    rw [memory.spans]
    exact sound.loaded.numbered
  case stack =>
    rw [grows.compiled]
    exact consistent
  case forest => exact forest
  case live =>
    rw [grows.config]
    exact fun isCalm => carries.unharmed.live (sound.live isCalm)
  case spared =>
    obtain ⟨dropped, spares⟩ := sound.spared
    exact ⟨dropped, carries.spared dropped spares⟩
  case bounded => exact carries.bounded sound.bounded
  case rooted => exact carries.rooted sound.rooted
  case remembers =>
    refine sound.remembers.grows ordered grows ?_ ?_ ?_
    · rw [memory.evaluator, memory.spans]
      exact sound.remembers.evaluator
    · rw [memory.synthesized]
      exact fun _ _ _ stored => .inl stored
    · rw [memory.outcomes]
      exact fun _ _ _ stored => .inl stored
  case reductions =>
    intro reduction queued
    rw [memory.position, position]
    rcases reductions reduction queued with old | new
    · exact (position ▸ sound.reductions reduction old).grows grows
        carries.unharmed sound.stack
    · exact new
  case shifts =>
    intro shift noted
    rw [memory.position, position]
    rcases shifts shift noted with old | new
    · exact (position ▸ sound.shifts shift old).grows grows ordered
    · exact new

/-- Rules that are reduced with a symbol ahead are user's rules that are complete. -/
theorem mem_lookaheadRules
    {state : StateId}
    {rule : RuleId} :
    rule ∈ parser.lookaheadRules state ↔
      ∃ symbol ∈ parser.lookaheads,
        rule ∈ (parser.compiled.table.get state symbol).reduces := by
  simp only [lookaheadRules, List.mem_eraseDups, List.mem_flatMap]

theorem Loaded.complete_of_mem_lookaheadRules
    (loaded : parser.Loaded grammar options)
    (wellFormed : grammar.WellFormed)
    {state : StateId}
    {rule : RuleId}
    (member : rule ∈ parser.lookaheadRules state) :
    rule < grammar.rules.size ∧
      ⟨rule, (grammar.rule rule).length⟩ ∈
        ((Automaton.ofGrammar grammar).state state).items := by
  obtain ⟨symbol, -, reduces⟩ := mem_lookaheadRules.mp member
  rw [loaded.compiled, CompiledGrammar.mem_reduces_table wellFormed] at reduces
  obtain ⟨item, notRoot, -⟩ := reduces
  have proper := (Automaton.items_nodup_proper wellFormed state).2 _ item
  exact ⟨Nat.lt_of_le_of_ne proper.1 notRoot, item⟩

theorem mem_shiftsFrom
    {node : StateNodeId}
    {state : StateId}
    {shift : Shift} :
    shift ∈ parser.shiftsFrom node state ↔
      ∃ id ∈ parser.candidates, ∃ symbol target,
        (parser.spans.get id).symbol = some symbol ∧
          parser.compiled.table.goto? state symbol = some target ∧
          shift = ⟨node, id, target⟩ := by
  simp only [shiftsFrom, List.mem_filterMap]
  constructor
  · rintro ⟨id, member, noted⟩
    obtain ⟨symbol, isSymbol, noted⟩ := Option.bind_eq_some_iff.mp noted
    obtain ⟨target, leads, noted⟩ := Option.bind_eq_some_iff.mp noted
    exact ⟨id, member, symbol, target, isSymbol, leads,
      (Option.some.inj noted).symm⟩
  · rintro ⟨id, member, symbol, target, isSymbol, leads, rfl⟩
    exact ⟨id, member, by simp [isSymbol, leads]⟩

/-- Queueing a reduction uses up its place among all reductions. -/
theorem Working.queueReduction
    (working : parser.Working host grammar options word)
    {reduction : Reduction}
    (ready : parser.ReductionReady word reduction) :
    (parser.queueReduction reduction).Working host grammar options
        word ∧
      parser.Proceeds word (parser.queueReduction reduction) := by
  unfold Parser.queueReduction
  split
  · exact ⟨working, .refl _ _⟩
  · rename_i isNew
    have grows : parser.Grows word
        { parser with
          performed := parser.performed.insert reduction
          reductions := reduction :: parser.reductions } :=
      { Grows.refl word parser with }
    have proceeds : parser.Proceeds word
        { parser with
          performed := parser.performed.insert reduction
          reductions := reduction :: parser.reductions } := by
      refine ⟨grows, rfl, rfl, Nat.le_refl _, Nat.le_refl _, ?_, id, .refl _⟩
      intro symbols states symbolsFit statesFit
      have consistent := working.sound.stack
      obtain ⟨holder, held, -⟩ := ready.held
      have inside := consistent.child_known holder _ held
      have listed : reduction ∈ allReductions
          parser.compiled.grammar.rules.size symbols states := by
        refine mem_allReductions ready.user
          (Nat.lt_of_lt_of_le inside (by omega)) fun below isVia => ?_
        have fits := consistent.fits_of_mem held
        have belowInside := (fits.child below (ready.via below isVia)).1
        omega
      have fewer : missingFacts
            (allReductions parser.compiled.grammar.rules.size symbols states)
            (parser.performed.insert reduction).contains <
          missingFacts
            (allReductions parser.compiled.grammar.rules.size symbols states)
            parser.performed.contains := by
        refine missingFacts_lt (fun other held => ?_) listed
          (Bool.eq_false_iff.mpr isNew) (by simp)
        simp [held]
      simp only [Parser.weight, fresh, List.length_cons] at fewer ⊢
      omega
    refine ⟨working.proceeds proceeds ?_ fun _ member => .inl member, proceeds⟩
    refine working.sound.sameMemory working.position grows ⟨rfl, rfl, rfl, rfl, rfl⟩
      working.sound.stack
      (working.sound.forest.sameStack working.sound.loaded working.sound.stack
        grows rfl)
      (grows.carries (.refl _) rfl (fun _ => rfl) (fun _ => rfl) rfl)
      ?_ fun _ noted => .inl noted
    intro other queued
    rcases List.mem_cons.mp queued with isReduction | old
    · exact .inr (isReduction ▸ ready.grows grows (.refl _) working.sound.stack)
    · exact .inl old

/-- Queueing reductions one after the other. -/
theorem Working.queueAll
    (working : parser.Working host grammar options word)
    (reductions : List Reduction)
    (ready : ∀ reduction ∈ reductions, parser.ReductionReady word reduction) :
    (reductions.foldl Parser.queueReduction parser).Working host grammar
        options word ∧
      parser.Proceeds word (reductions.foldl Parser.queueReduction parser) := by
  induction reductions generalizing parser with
  | nil =>
      exact ⟨working, .refl _ _⟩
  | cons reduction rest inductionHypothesis =>
      obtain ⟨firstWorking, first⟩ :=
        working.queueReduction (ready reduction List.mem_cons_self)
      obtain ⟨restWorking, later⟩ := inductionHypothesis firstWorking
        fun other member => (ready other (List.mem_cons_of_mem _ member)).grows
          first.grows first.unharmed working.sound.stack
      exact ⟨restWorking, first.trans later⟩

/-- A node that acts notes what can be read on top of it. -/
theorem Working.note
    (working : parser.Working host grammar options word)
    {node : Nat}
    (isNode : node = GraphStack.startNode ∨
      node ∈ (parser.stack.layer word).nodes) :
    Parser.Working host grammar options word
        { parser with
          stack := parser.stack.setActive node false
          shifts := parser.shifts ++ parser.shiftsFrom node
            (parser.stack.stateNode node).state } ∧
      parser.Proceeds word
        { parser with
          stack := parser.stack.setActive node false
          shifts := parser.shifts ++ parser.shiftsFrom node
            (parser.stack.stateNode node).state } := by
  have shape : parser.stack.SameShape (parser.stack.setActive node false) :=
    GraphStack.sameShape_setActive node false
  have consistent := shape.consistent working.sound.stack
  have grows : parser.Grows word
      { parser with
        stack := parser.stack.setActive node false
        shifts := parser.shifts ++ parser.shiftsFrom node
          (parser.stack.stateNode node).state } :=
    { Grows.refl word parser with stack := shape.extends word }
  have proceeds : parser.Proceeds word
      { parser with
        stack := parser.stack.setActive node false
        shifts := parser.shifts ++ parser.shiftsFrom node
          (parser.stack.stateNode node).state } := by
    refine ⟨grows, rfl, rfl, ?_, ?_, fun _ _ _ _ => ?_, id, ?_⟩
    · exact Nat.le_refl _
    · simp [GraphStack.setActive, fresh]
    · exact Nat.le_refl _
    · exact GraphStack.unharmed_setActive node false
  refine ⟨working.proceeds proceeds ?_ fun _ member => .inl member, proceeds⟩
  refine working.sound.sameMemory working.position grows ⟨rfl, rfl, rfl, rfl, rfl⟩
    consistent ?_ (grows.carries (GraphStack.unharmed_setActive node false) rfl
      (fun _ => rfl) (fun _ => rfl) rfl)
    (fun _ queued => .inl queued) ?_
  · intro other inside
    exact Accounted.grows working.sound.forest grows
      working.sound.loaded.ordered consistent inside (List.Subset.refl _)
  · intro shift noted
    rcases List.mem_append.mp noted with old | new
    · exact .inl old
    · refine .inr ?_
      obtain ⟨id, candidate, symbol, target, isSymbol, leads, rfl⟩ :=
        mem_shiftsFrom.mp new
      refine ShiftReady.grows grows working.sound.loaded.ordered ?_
      have placed : node < parser.stack.states.size ∧
          WordBefore (parser.stack.stateNode node).word (word + 1) := by
        rcases isNode with isStart | listed
        · subst isStart
          refine ⟨working.sound.stack.start_inside, ?_⟩
          rw [working.sound.stack.start_word]
          intro own isOwn
          cases isOwn
        · obtain ⟨inside, isWord⟩ :=
            (working.sound.stack.mem_layer node word).mp listed
          refine ⟨inside, ?_⟩
          rw [isWord]
          intro own isOwn
          cases isOwn
          exact Nat.lt_succ_self word
      obtain ⟨ahead, isAhead, -⟩ := working.begins id candidate
      exact ⟨(List.getElem?_eq_some_iff.mp isAhead).1, placed.1, placed.2,
        symbol, (working.ahead id candidate).2 symbol isSymbol, leads⟩

/-- A node acts. -/
theorem Working.act
    (wellFormed : grammar.WellFormed)
    (working : parser.Working host grammar options word)
    {node : Nat}
    (isNode : node = GraphStack.startNode ∨
      node ∈ (parser.stack.layer word).nodes) :
    (parser.act node).Working host grammar options word ∧
      parser.Proceeds word (parser.act node) := by
  obtain ⟨notedWorking, notes⟩ := working.note isNode
  have ready : ∀ reduction ∈
      (parser.lookaheadRules (parser.stack.stateNode node).state).flatMap
        (fun rule => ((parser.stack.stateNode node).children.filter fun child =>
          !(parser.stack.symbolNode child).removed).map fun anchor =>
            Reduction.mk rule anchor none),
      parser.ReductionReady word reduction := by
    intro reduction member
    obtain ⟨rule, isRule, member⟩ := List.mem_flatMap.mp member
    obtain ⟨anchor, isAnchor, rfl⟩ := List.mem_map.mp member
    obtain ⟨held, live⟩ := List.mem_filter.mp isAnchor
    have isGrammar : parser.compiled.grammar = grammar :=
      working.sound.loaded.isGrammar
    obtain ⟨user, item⟩ :=
      working.sound.loaded.complete_of_mem_lookaheadRules wellFormed isRule
    rcases isNode with isStart | listed
    · subst isStart
      rw [working.sound.stack.start_children] at held
      cases held
    · have isWord := ((working.sound.stack.mem_layer node word).mp listed).2
      refine ⟨isGrammar.symm ▸ user, by simpa using live,
        ⟨node, held, isWord, ?_⟩, fun below isVia => by cases isVia⟩
      rw [isGrammar]
      exact item
  obtain ⟨queuedWorking, queues⟩ := notedWorking.queueAll _
    fun reduction member => (ready reduction member).grows notes.grows
      notes.unharmed working.sound.stack
  exact ⟨queuedWorking, notes.trans queues⟩

end Parser

end SpanForest
