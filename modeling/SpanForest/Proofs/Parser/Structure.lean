import SpanForest.Proofs.Parser.Reachable

namespace SpanForest

/-!
# The structure of the stack

In every parse that is reached a symbol node lies below one state node of its
word and above state nodes of earlier words, from which the table leads on by
its symbol. So the table always leads on where a produced span is to be put:
a parse that did something else where it does not would do the same.
-/

namespace Parser

/-- Put a span on top of a state node, or do something else if nothing leads on. -/
def attachOr
    (instead : Parser → Parser)
    (parser : Parser)
    (word : Nat)
    (below : StateNodeId)
    (span : SpanId)
    (derivation : Derivation) :
    Parser :=
  match parser.compiled.table.goto? (parser.stack.stateNode below).state
      (parser.compiled.grammar.rule derivation.rule).lhs with
  | none => instead parser
  | some _ => parser.attach word below span derivation

/-- Put a span on top of live state nodes, or do something else. -/
def attachAllOr
    (instead : Parser → Parser)
    (parser : Parser)
    (word : Nat)
    (span : SpanId)
    (derivation : Derivation)
    (below : List StateNodeId) :
    Parser :=
  below.foldl
    (fun current node =>
      if (current.stack.stateNode node).removed then
        current
      else
        current.attachOr instead word node span derivation)
    parser

end Parser

namespace Parsing

section Otherwise

variable {σ : Type} (instead : Parser → Parser) (host : Host σ) (word : Nat)

/-- Reduce a rule along paths, doing something else where nothing leads on. -/
def reducePathsOr
    (rule : Rule)
    (via : Option StateNodeId) :
    List (List SymbolNodeId) →
    Parsing σ Unit
  | [] => return ()
  | nodes :: rest => do
      let current ← parser
      match ← reducePath host rule nodes with
      | some span =>
          modifyParser fun later =>
            later.attachAllOr instead word span ⟨rule.id, nodes⟩
              (current.basesOf via nodes)
      | none => pure ()
      if (← parser).capped then
        return ()
      else
        reducePathsOr rule via rest

/-- Try a reduction, doing something else where nothing leads on. -/
def reduceOr (reduction : Reduction) : Parsing σ Unit := do
  let current ← parser
  if current.capped then
    return ()
  else
    let rule := current.compiled.grammar.rule reduction.rule
    let paths :=
      current.stack.paths reduction.anchor rule.length reduction.via
    reducePathsOr instead host word rule reduction.via
      (paths.map List.reverse)

/-- Settle a word, doing something else where nothing leads on. -/
def settleOr : (fuel : Nat) → Parsing σ Unit
  | 0 => return ()
  | fuel + 1 => do
      let current ← parser
      match current.active, current.reductions with
      | node :: active, _ =>
          modifyParser fun current =>
            { current with active := active }.act node
          settleOr fuel
      | [], reduction :: reductions =>
          modifyParser fun current => { current with reductions := reductions }
          reduceOr instead host word reduction
          settleOr fuel
      | [], [] => return ()

/-- Process the next word, doing something else where nothing leads on. -/
def stepOr : Parsing σ Bool :=
  stepBy (settleOr instead host) host

end Otherwise

end Parsing

namespace Parser

variable {σ : Type} {host : Host σ}
variable {grammar : Grammar} {options : CompileOptions} {word : Nat}
variable {parser : Parser} {instead : Parser → Parser}

/-- Where the table leads on nothing else is done. -/
theorem Attachable.attachOr_eq
    {below : Nat}
    {derivation : Derivation}
    {id : Nat}
    (attachable : parser.Attachable host word below derivation id) :
    parser.attachOr instead word below id derivation =
      parser.attach word below id derivation := by
  obtain ⟨goto, leads⟩ := attachable.leads
  unfold attachOr
  rw [leads]

theorem Working.attachAllOr_eq
    (wellFormed : grammar.WellFormed)
    (working : parser.Working host grammar options word)
    {derivation : Derivation}
    {id : Nat}
    (below : List StateNodeId)
    (attachable : ∀ node ∈ below,
      parser.Attachable host word node derivation id) :
    parser.attachAllOr instead word id derivation below =
      parser.attachAll word id derivation below := by
  unfold Parser.attachAllOr Parser.attachAll
  induction below generalizing parser with
  | nil => rfl
  | cons node rest inductionHypothesis =>
      rw [List.foldl_cons, List.foldl_cons]
      have nodeAttachable := attachable node List.mem_cons_self
      split
      · exact inductionHypothesis working fun other member =>
          attachable other (List.mem_cons_of_mem _ member)
      · obtain ⟨attached, proceeds, -⟩ :=
          working.attach wellFormed nodeAttachable
        rw [nodeAttachable.attachOr_eq]
        exact inductionHypothesis attached fun other member =>
          (attachable other (List.mem_cons_of_mem _ member)).grows
            working.sound proceeds.grows proceeds.unharmed attached.sound.stack

end Parser

namespace Parsing

variable {σ : Type} {host : Host σ}
variable {grammar : Grammar} {options : CompileOptions} {word : Nat}
variable {parser : Parser} {instead : Parser → Parser}

/-- Doing nothing where nothing leads on is what a parse does. -/
theorem stepOr_id (host : Host σ) : stepOr id host = step host := by
  have attaches : Parser.attachOr id = Parser.attach := by
    funext parser word below span derivation
    unfold Parser.attachOr Parser.attach
    split <;> simp_all
  have reduces : ∀ word rule via paths,
      reducePathsOr id host word rule via paths =
        reducePaths host word rule via paths := by
    intro word rule via paths
    induction paths with
    | nil => rfl
    | cons nodes rest inductionHypothesis =>
        unfold reducePathsOr reducePaths
        rw [inductionHypothesis]
        simp only [Parser.attachAllOr, attaches]
        rfl
  have settles : settleOr id host = settle host := by
    funext word fuel
    induction fuel with
    | zero => rfl
    | succ fuel inductionHypothesis =>
        unfold settleOr settle
        rw [inductionHypothesis]
        simp only [reduceOr, reduces]
        rfl
  rw [stepOr, settles, stepBy_settle]

theorem coincides_reducePaths
    (wellFormed : grammar.WellFormed)
    {rule : RuleId}
    {via : Option StateNodeId}
    (user : rule < grammar.rules.size)
    (paths : List (List SymbolNodeId))
    (working : parser.Working host grammar options word)
    (handles : ∀ nodes ∈ paths, parser.Handle word rule via nodes) :
    Coincides parser
      (reducePathsOr instead host word (grammar.rule rule) via paths)
      (reducePaths host word (grammar.rule rule) via paths) := by
  have terms : host.Terms grammar True := ⟨wellFormed, .inr trivial⟩
  induction paths generalizing parser with
  | nil => exact .refl _
  | cons nodes rest inductionHypothesis =>
      have handle := handles nodes List.mem_cons_self
      have goOn : ∀ middle : Parser,
          middle.Working host grammar options word →
          parser.Proceeds word middle →
          Coincides middle
            (do
              let current ← Parsing.parser
              if current.capped then
                return ()
              else
                reducePathsOr instead host word (grammar.rule rule) via rest)
            (do
              let current ← Parsing.parser
              if current.capped then
                return ()
              else
                reducePaths host word (grammar.rule rule) via rest) := by
        intro middle middleWorking proceeds
        refine coincides_get ?_
        split
        · exact .refl _
        · exact inductionHypothesis middleWorking fun other member =>
            (handles other (List.mem_cons_of_mem _ member)).grows
              proceeds.grows proceeds.unharmed middleWorking.sound.stack
      have known := working.sound.spansOf_known handle.known
      unfold reducePathsOr reducePaths
      refine coincides_get (.bind
        (ensures_reducePath terms working.sound user known) ?_)
      rintro outcome reduced ⟨learns, reducedSound, isOutcome⟩
      have proceeds := learns.proceeds word
      have reducedWorking := working.proceeds proceeds reducedSound
        fun _ member => .inl (learns.active ▸ member)
      cases outcome with
      | none => exact goOn reduced reducedWorking proceeds
      | some id =>
          obtain ⟨permits, accepts⟩ := isOutcome
          have attachable : ∀ below ∈ parser.basesOf via nodes,
              reduced.Attachable host word below ⟨rule, nodes⟩ id :=
            fun below isBase => handle.attachable_later wellFormed
              proceeds.grows proceeds.unharmed reducedSound permits accepts
              isBase
          obtain ⟨attached, attaches, -⟩ :=
            reducedWorking.attachAll wellFormed _ attachable
          rw [wellFormed.id_rule (Nat.le_of_lt user)]
          exact coincides_modify
            (reducedWorking.attachAllOr_eq wellFormed _ attachable)
            (goOn _ attached (proceeds.trans attaches))

theorem coincides_reduce
    (wellFormed : grammar.WellFormed)
    (working : parser.Working host grammar options word)
    {reduction : Reduction}
    (ready : parser.ReductionReady word reduction) :
    Coincides parser (reduceOr instead host word reduction)
      (reduce host word reduction) := by
  have isGrammar : parser.compiled.grammar = grammar :=
    working.sound.loaded.isGrammar
  unfold reduceOr reduce
  refine coincides_get ?_
  split
  · exact .refl _
  · rw [isGrammar]
    refine coincides_reducePaths wellFormed (isGrammar ▸ ready.user) _ working
      fun nodes member => ?_
    obtain ⟨path, isPath, rfl⟩ := List.mem_map.mp member
    exact working.sound.handle wellFormed ready (isGrammar.symm ▸ isPath)

theorem coincides_settle
    (wellFormed : grammar.WellFormed)
    (working : parser.Working host grammar options word)
    (fuel : Nat) :
    Coincides parser (settleOr instead host word fuel)
      (settle host word fuel) := by
  have terms : host.Terms grammar True := ⟨wellFormed, .inr trivial⟩
  induction fuel generalizing parser with
  | zero => exact .refl _
  | succ fuel inductionHypothesis =>
      unfold settleOr settle
      refine coincides_get ?_
      cases isActive : parser.active with
      | cons node rest =>
          obtain ⟨taken, -⟩ := working.drop
            (isActive ▸ List.suffix_cons node rest) (List.suffix_refl _)
          have acted := (taken.act wellFormed
            (working.active node (isActive ▸ List.mem_cons_self))).1
          exact coincides_modify rfl (inductionHypothesis acted)
      | nil =>
          cases isNext : parser.reductions with
          | nil => exact .refl _
          | cons reduction rest =>
              obtain ⟨taken, takes⟩ := working.drop (List.suffix_refl _)
                (isNext ▸ List.suffix_cons reduction rest)
              have ready : Parser.ReductionReady
                  { parser with reductions := rest } word reduction := by
                rw [← working.position]
                exact (working.sound.reductions reduction
                  (isNext ▸ List.mem_cons_self)).grows takes.grows
                    takes.unharmed working.sound.stack
              refine coincides_modify rfl (.seq
                (coincides_reduce wellFormed taken ready)
                (@ensures_reduce _ _ _ _ _ _ _ _ terms Parser.Kept.anything [] taken
                  _ ready trivial) ?_)
              rintro _ tried ⟨triedWorking, -⟩
              exact inductionHypothesis triedWorking

/-- Doing something else where nothing leads on changes no step of a sound parse. -/
theorem coincides_stepOr
    (wellFormed : grammar.WellFormed)
    (sound : parser.Sound host grammar options) :
    Coincides parser (stepOr instead host) (step host) :=
  coincides_stepBy wellFormed sound fun _ working =>
    coincides_settle wellFormed working _

end Parsing

namespace Parser

variable {σ : Type} {host : Host σ}
variable {grammar : Grammar} {options : CompileOptions}
variable {config : ParserConfig} {parser : Parser}

/--
In every parse that is reached the stack is in order: symbol nodes have one
holder, at their word, and lie above the start node or earlier words, from which
the table leads to the holder; a layer has one node for a state, and it is the
one that is found; no node has a child twice. The table always leads on where a
produced span is put, so it does not matter what is done where it does not.
-/
theorem Reachable.stack_ordered
    {builder : GrammarBuilder}
    (built : builder.build = .ok grammar)
    (reachable : Reachable host (grammar.compile options) config parser) :
    (∀ node : SymbolNodeId, node < parser.stack.symbols.size →
      ∃ holder : StateNodeId, holder < parser.stack.states.size ∧
        (∀ other : StateNodeId,
          node ∈ (parser.stack.stateNode other).children ↔ other = holder) ∧
        (∃ word, (parser.stack.symbolNode node).word = some word ∧
          (parser.stack.stateNode holder).word = some word ∧
          ∀ child ∈ (parser.stack.symbolNode node).children,
            child = GraphStack.startNode ∨
              ∃ earlier < word,
                (parser.stack.stateNode child).word = some earlier) ∧
        ∀ child ∈ (parser.stack.symbolNode node).children,
          ∃ symbol, (parser.stack.symbolNode node).symbol = some symbol ∧
            (grammar.compile options).table.goto?
                (parser.stack.stateNode child).state symbol =
              some (parser.stack.stateNode holder).state) ∧
    (∀ word left right, left ∈ (parser.stack.layer word).nodes →
      right ∈ (parser.stack.layer word).nodes →
      (parser.stack.stateNode left).state =
        (parser.stack.stateNode right).state →
      left = right) ∧
    (∀ word, (parser.stack.layer word).nodes.Nodup) ∧
    (∀ word, ∀ node ∈ (parser.stack.layer word).nodes,
      parser.stack.findState? word (parser.stack.stateNode node).state =
        some node) ∧
    (∀ node, (parser.stack.stateNode node).children.Nodup ∧
      (parser.stack.symbolNode node).children.Nodup) ∧
    ∀ (instead : Parser → Parser) (state : σ),
      (Parsing.stepOr instead host).run.run (parser, state) =
        (Parsing.step host).run.run (parser, state) := by
  have wellFormed := GrammarBuilder.wellFormed_of_build built
  have sound := reachable.sound wellFormed
  have consistent := sound.stack
  refine ⟨fun node inside => ?_, consistent.state_unique,
    consistent.listed_once, ?_, fun node => ⟨consistent.held_once node,
      consistent.linked_once node⟩, fun instead state =>
      Parsing.coincides_stepOr wellFormed sound state⟩
  · obtain ⟨holder, fits⟩ := consistent.fits node inside
    obtain ⟨low, isLow⟩ := List.exists_mem_of_ne_nil _ fits.supported
    obtain ⟨-, ⟨word, isWord, -⟩, -⟩ := fits.child low isLow
    refine ⟨holder, fits.inside, fits.holds,
      ⟨word, fits.word.trans isWord, isWord, ?_⟩, ?_⟩
    · intro child isChild
      obtain ⟨childInside, ⟨own, isOwn, before⟩, -⟩ :=
        fits.child child isChild
      rw [isWord] at isOwn
      cases isOwn
      cases childWord : (parser.stack.stateNode child).word with
      | none =>
          exact .inl (consistent.only_start child childInside childWord)
      | some earlier =>
          exact .inr ⟨earlier, before earlier childWord, rfl⟩
    · intro child isChild
      obtain ⟨-, -, leads⟩ := fits.child child isChild
      rw [sound.loaded.compiled] at leads
      exact leads
  · intro word node listed
    cases found : parser.stack.findState? word
        (parser.stack.stateNode node).state with
    | none => exact absurd rfl (GraphStack.findState?_eq_none found node listed)
    | some other =>
        obtain ⟨otherListed, same⟩ := GraphStack.findState?_eq_some found
        rw [consistent.state_unique word other node otherListed listed same]

/-- The stack of a parse of two words is in order, and so is its first step. -/
theorem stack_ordered_nested :
    nestedBuilder.build = .ok nestedGrammar ∧
      Reachable (Host.inheriting : Host Unit) (nestedGrammar.compile {}) {}
        nestedEnd ∧
      (6 < nestedEnd.stack.symbols.size ∧ ∃ holder : StateNodeId,
        ∀ other : StateNodeId,
          6 ∈ (nestedEnd.stack.stateNode other).children ↔ other = holder) ∧
      Reachable (Host.inheriting : Host Unit) (nestedGrammar.compile {}) {}
        nestedStart ∧
      ∀ instead : Parser → Parser,
        (Parsing.stepOr instead Host.inheriting).run.run (nestedStart, ()) =
          (Parsing.step Host.inheriting).run.run (nestedStart, ()) := by
  have inside : 6 < nestedEnd.stack.symbols.size := by decide +kernel
  have begun : Reachable (Host.inheriting : Host Unit)
      (nestedGrammar.compile {}) {} nestedStart :=
    .start _ _ .new
  obtain ⟨holder, -, holds, -⟩ :=
    (Reachable.stack_ordered build_nestedBuilder reachable_nestedEnd).1 6 inside
  obtain ⟨-, -, -, -, -, agrees⟩ :=
    Reachable.stack_ordered build_nestedBuilder begun
  exact ⟨build_nestedBuilder, reachable_nestedEnd, ⟨inside, holder, holds⟩,
    begun, fun instead => agrees instead ()⟩

end Parser

end SpanForest
