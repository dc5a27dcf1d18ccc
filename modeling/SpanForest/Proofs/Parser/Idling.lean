import SpanForest.Proofs.Parser.Derivable
import SpanForest.Proofs.Parser.Placing
import SpanForest.Proofs.Parser.Termination
import SpanForest.Proofs.Parser.Unaware
import SpanForest.Proofs.Parser.Waiting

namespace SpanForest

/-!
# Words at which a parse may start in vain

A parse that starts at a word first lets the start node act. Where nothing ahead
can be read on top of it, the start node notes nothing and queues nothing, and is
as it was before. So a parse goes on in the same way whether or not it may start at
such words.
-/

namespace GraphStack

variable {stack : GraphStack}

/-- Marking a node that is not marked, and taking the mark away. -/
theorem setActive_setActive
    {id : Nat}
    (unmarked : (stack.stateNode id).active = false) :
    (stack.setActive id true).setActive id false = stack := by
  have restored : ∀ node : StateNode, node.active = false →
      { node with active := false } = node := by
    rintro ⟨_, _, _, _, _⟩ rfl
    rfl
  have sameStates : (stack.states.modify id fun node =>
      { node with active := true }).modify id (fun node =>
        { node with active := false }) = stack.states := by
    refine Array.ext (by simp) fun other _ inside => ?_
    rw [Array.getElem_modify, Array.getElem_modify]
    split
    · rename_i same
      subst same
      rw [stateNode, Array.getD_eq_getD_getElem?,
        Array.getElem?_eq_getElem inside] at unmarked
      exact restored stack.states[id] unmarked
    · rfl
  unfold setActive modifyState
  rw [sameStates]

end GraphStack

namespace Parser

variable {σ : Type} {host : Host σ}
variable {grammar : Grammar} {options : CompileOptions} {word : Nat}
variable {start parser : Parser} {aside : Aside}

/-- A word at which nothing can be read on top of the start node. -/
def Idle (parser : Parser) (word : Nat) : Prop :=
  ∀ edge ∈ parser.edges.getD word [],
    parser.compiled.table.goto? startState edge.1 = none

/-- The start node does nothing where nothing can be read on top of it. -/
theorem act_activate_start
    {table : PackedTable}
    (consistent : parser.stack.Consistent table)
    (unmarked : (parser.stack.stateNode GraphStack.startNode).active = false)
    (nothing : parser.shiftsFrom GraphStack.startNode startState = []) :
    Parser.act
        { parser.activate GraphStack.startNode with active := parser.active }
        GraphStack.startNode =
      parser := by
  have sameStart := (@GraphStack.sameShape_setActive parser.stack
    GraphStack.startNode true).state GraphStack.startNode
  rw [consistent.start_state, consistent.start_children] at sameStart
  have restored := GraphStack.setActive_setActive unmarked
  unfold act
  dsimp only [activate]
  rw [sameStart.1, sameStart.2.2, restored]
  have noRules : ∀ rules : List RuleId,
      rules.flatMap (fun _ => ([] : List Reduction)) = [] :=
    fun _ => List.flatMap_eq_nil_iff.mpr fun _ _ => rfl
  simp only [List.filter_nil, List.map_nil, noRules, List.foldl_nil]
  change { parser with
    shifts := parser.shifts ++
      parser.shiftsFrom GraphStack.startNode startState } = parser
  rw [nothing, List.append_nil]

/-- What can be read at the word where it begins is among what the word can be read as. -/
theorem Readable.mem_edges
    (loaded : start.Loaded grammar options)
    (advances : start.Advances parser)
    (sound : parser.Sound host grammar options)
    {id : Nat}
    {symbol : SymbolId}
    (readable : parser.Readable host id symbol)
    (opens : parser.Opens word (parser.spans.get id).start) :
    ∃ next, (symbol, next) ∈ start.edges.getD word [] := by
  cases readable with
  | input fromInput isSymbol =>
      obtain ⟨ahead, isAhead, member⟩ :=
        sound.loaded.mem_spans fromInput isSymbol opens
      exact ⟨_, Parser.mem_edges loaded advances isAhead member isSymbol (.inl rfl)⟩
  | @synthesized base declaration synthesizes =>
      rw [SpanStore.get_of_get? synthesizes.stored] at opens
      obtain ⟨ahead, isAhead, member⟩ :=
        sound.loaded.mem_spans synthesizes.from_input synthesizes.isBase opens
      refine ⟨_, Parser.mem_edges loaded advances isAhead member synthesizes.isBase
        (.inr ⟨declaration, ?_, rfl⟩)⟩
      exact List.mem_filter.mpr ⟨synthesizes.declared, beq_self_eq_true _⟩

/-- At an idle word the start node can read none of the spans ahead. -/
theorem Idle.shiftsFrom_start
    (idle : start.Idle word)
    (loaded : start.Loaded grammar options)
    (advances : start.Advances parser)
    (sound : parser.Sound host grammar options)
    (ahead : parser.Ahead host)
    (begins : parser.BeginsAt word) :
    parser.shiftsFrom GraphStack.startNode startState = [] := by
  refine List.filterMap_eq_nil_iff.mpr fun id member => ?_
  cases isSymbol : (parser.spans.get id).symbol with
  | none => rfl
  | some symbol =>
      obtain ⟨next, isEdge⟩ := ((ahead id member).2 symbol isSymbol).mem_edges
        loaded advances sound (begins id member)
      have noTarget := idle _ isEdge
      rw [← advances.compiled] at noTarget
      simp [noTarget]

/-- The start node is woken besides if a parse may start now and could not before. -/
theorem wakeWord_withAside_barred
    (notAtEnd : parser.isAtEnd word = false)
    (barred : parser.viable.contains word = false)
    (viable : (aside.viable parser.viable).contains word = true) :
    (parser.withAside aside).wakeWord word =
      ((parser.wakeWord word).activate GraphStack.startNode).withAside aside := by
  have woken := fun nodes => @foldl_withAside { parser with active := [] }
    aside _ activate (fun _ _ => rfl) nodes
  have starts : (!(parser.withAside aside).isAtEnd word &&
      (parser.withAside aside).viable.contains word) = true := by
    change (!parser.isAtEnd word && (aside.viable parser.viable).contains word) = true
    rw [notAtEnd, viable]
    rfl
  unfold wakeWord
  rw [if_pos starts, if_neg (by simp [barred])]
  exact congrArg (activate · GraphStack.startNode) (woken _)

/-- Where no parse may start, the start node is not marked when a word was woken. -/
theorem Rested.start_unmarked
    (rested : parser.Rested)
    (sound : parser.Sound host grammar options)
    (barred : parser.viable.contains word = false) :
    ((parser.wakeWord word).stack.stateNode GraphStack.startNode).active =
      false := by
  obtain ⟨-, woken⟩ := sound.wakeWord word
  refine Bool.eq_false_iff.mpr fun isMarked => ?_
  rcases woken.wakes.flagged _ isMarked with wasMarked | listed
  · rw [rested] at wasMarked
    cases wasMarked
  · rcases (woken.active _).mp listed with ⟨inLayer, -⟩ | ⟨-, -, viable⟩
    · have isWord := ((sound.stack.mem_layer _ _).mp inLayer).2
      rw [sound.stack.start_word] at isWord
      cases isWord
    · rw [barred] at viable
      cases viable

/-- A further node that waits to act is one more thing to be done. -/
theorem workBound_activate (node : StateNodeId) :
    (parser.activate node).workBound word = parser.workBound word + 1 := by
  have sameShape := @GraphStack.sameShape_setActive parser.stack node true
  unfold workBound
  dsimp only [activate]
  rw [sameShape.layer, sameShape.states_size, sameShape.symbols_size, List.length_cons]
  omega

/-- Changes that let a parse start at further words, all of them idle. -/
structure IdleAside (start : Parser) (aside : Aside) : Prop where
  truths : ∀ evaluator, aside.evaluator evaluator = evaluator
  words :
    ∀ word < start.words.length,
      (aside.viable start.viable).contains word = start.viable.contains word ∨
        start.viable.contains word = false ∧ start.Idle word

end Parser

namespace Parsing

variable {σ : Type} {host : Host σ}
variable {grammar : Grammar} {options : CompileOptions} {word : Nat}
variable {start parser : Parser} {aside : Aside}

/-- Settle a word as long as there may be work, then finish it. -/
def settleAndFinish (host : Host σ) (word : Nat) : Parsing σ Unit := do
  settle host word ((← Parsing.parser).workBound word)
  modifyParser (·.finishWord word)

/-- Settling and finishing a word is the same wherever a parse may start. -/
theorem unaware_settleAndFinish
    (truths : ∀ evaluator, aside.evaluator evaluator = evaluator)
    (word : Nat) :
    Unaware aside (settleAndFinish host word) :=
  .get (fun _ => rfl) fun _ => (unaware_settle truths word _).bind fun _ =>
    .modify fun _ => Parser.finishWord_withAside word

/-- A start node that can do nothing was woken in vain. -/
theorem run_settleAndFinish_start
    {table : PackedTable}
    (consistent : parser.stack.Consistent table)
    (unmarked : (parser.stack.stateNode GraphStack.startNode).active = false)
    (nothing : parser.shiftsFrom GraphStack.startNode startState = [])
    (state : σ) :
    (settleAndFinish host word).run.run
        (parser.activate GraphStack.startNode, state) =
      (settleAndFinish host word).run.run (parser, state) := by
  have settles : (settle host word
      ((parser.activate GraphStack.startNode).workBound word)).run.run
        (parser.activate GraphStack.startNode, state) =
      (settle host word (parser.workBound word)).run.run (parser, state) := by
    rw [Parser.workBound_activate, run_settle_act rfl]
    exact congrArg (fun acted => (settle host word _).run.run (acted, state))
      (Parser.act_activate_start consistent unmarked nothing)
  unfold settleAndFinish
  rw [run_get, run_get, ExceptT.run_bind, ExceptT.run_bind, StateT.run_bind,
    StateT.run_bind, settles]

/-- A word is processed in the same way wherever a parse may start in vain. -/
theorem unawareAt_processWord
    (wellFormed : grammar.WellFormed)
    (sound : parser.Sound host grammar options)
    (rested : parser.Rested)
    (loaded : start.Loaded grammar options)
    (advances : start.Advances parser)
    (idly : start.IdleAside aside)
    (known : word ≤ parser.words.length) :
    UnawareAt aside parser (processWord host word) := by
  have terms : host.Terms grammar True := ⟨wellFormed, .inr trivial⟩
  have uncapped : Parser.Sound host { parser with capped := false }
      grammar options :=
    sound.dropWork _ _ (List.Subset.refl _) _
  unfold processWord
  refine .modify rfl (.bind (unaware_collectCandidates idly.truths word _)
    ((ensures_collectCandidates terms.tests uncapped word).and
      (asks_collectCandidates host word _)) ?_)
  rintro _ collected ⟨⟨-, ready, ahead, -, begins⟩, asks⟩
  have advancesNow : start.Advances collected :=
    advances.trans { asks.advances with }
  have sameViable : collected.viable = start.viable := advancesNow.viable
  have sameEnd : collected.isAtEnd word = start.isAtEnd word := by
    rw [Parser.isAtEnd, Parser.numWords, advancesNow.words]
    rfl
  change UnawareAt aside collected (do
    modifyParser (·.wakeWord word)
    settleAndFinish host word)
  by_cases same : start.isAtEnd word = false →
      (aside.viable start.viable).contains word = start.viable.contains word
  · refine .modify (Parser.wakeWord_withAside ?_)
      (unaware_settleAndFinish idly.truths word _)
    rw [sameEnd, sameViable]
    exact same
  · obtain ⟨notAtEnd, differs⟩ := Classical.not_imp.mp same
    have inside : word < start.words.length :=
      Nat.lt_of_le_of_ne (advances.words ▸ known) (ne_of_beq_false notAtEnd)
    obtain ⟨barred, idle⟩ :=
      (idly.words word inside).resolve_left differs
    have restedNow : collected.Rested := by
      rw [Parser.Rested, asks.same]
      exact rested
    have nothing : (collected.wakeWord word).shiftsFrom GraphStack.startNode
        startState = [] := by
      have sameShifts : (collected.wakeWord word).shiftsFrom GraphStack.startNode
          startState = collected.shiftsFrom GraphStack.startNode startState := by
        rw [(ready.wakeWord word).2.wakes.only_marks]
        rfl
      exact sameShifts.trans
        (idle.shiftsFrom_start loaded advancesNow ready ahead begins)
    rw [← sameViable] at barred differs
    intro state
    change (settleAndFinish host word).run.run
        ((collected.withAside aside).wakeWord word, state) =
      besides aside ((settleAndFinish host word).run.run
        (collected.wakeWord word, state))
    rw [Parser.wakeWord_withAside_barred (sameEnd.trans notAtEnd) barred
        (by simpa [barred] using differs),
      unaware_settleAndFinish idly.truths word,
      run_settleAndFinish_start (ready.wakeWord word).1.stack
        (restedNow.start_unmarked ready barred) nothing]

/-- A step is the same wherever a parse may start in vain. -/
theorem unawareAt_step
    (wellFormed : grammar.WellFormed)
    (sound : parser.Sound host grammar options)
    (rested : parser.Rested)
    (loaded : start.Loaded grammar options)
    (advances : start.Advances parser)
    (idly : start.IdleAside aside) :
    UnawareAt aside parser (step host) := by
  unfold step
  refine .get rfl ?_
  split
  · exact Unaware.throw _ parser
  · split
    · exact Unaware.pure false parser
    · rename_i unfinished
      have known := parser.position_le (by simpa using unfinished)
      refine (unawareAt_processWord wellFormed sound rested loaded advances idly
        known).bind (.anything parser _) fun _ processed _ => ?_
      exact .modify rfl (.get rfl (Unaware.pure _ _))

/-- Some steps are the same wherever a parse may start in vain. -/
theorem unawareAt_stepAll
    (wellFormed : grammar.WellFormed)
    (loaded : start.Loaded grammar options)
    (idly : start.IdleAside aside)
    (fuel : Nat)
    (sound : parser.Sound host grammar options)
    (rested : parser.Rested)
    (advances : start.Advances parser) :
    UnawareAt aside parser (stepAll host fuel) := by
  induction fuel generalizing parser with
  | zero => exact Unaware.pure () parser
  | succ fuel inductionHypothesis =>
      unfold stepAll
      refine (unawareAt_step wellFormed sound rested loaded advances idly).bind
        ((ensures_step_rested wellFormed sound rested).and
          (advances_step host parser)) ?_
      rintro remains after ⟨⟨afterSound, afterRested⟩, advancesOn⟩
      cases remains with
      | true =>
          exact inductionHypothesis afterSound afterRested
            (advances.trans advancesOn)
      | false => exact Unaware.pure () after

/-- A parse is the same as one that may start at further words, all of them idle. -/
theorem run_parse_idle
    {other : Parser}
    {document : Document}
    {input : List InputSpan}
    (wellFormed : grammar.WellFormed)
    (compiled : parser.compiled = grammar.compile options)
    (begins : other.start document input =
      (parser.start document input).withAside aside)
    (idly : (parser.start document input).IdleAside aside)
    (state : σ) :
    (parse host document input).run.run (other, state) =
      besides aside ((parse host document input).run.run (parser, state)) := by
  have fresh := Parser.fresh_start compiled document input
  have steps := fun fuel => unawareAt_stepAll wellFormed fresh.loaded idly fuel
    (fresh.sound host) fresh.rested (.refl _)
  unfold parse modifyParser
  rw [Effect.run_modify_bind, Effect.run_modify_bind]
  simp only [begins]
  exact UnawareAt.get rfl ((steps _).bind (.anything _ _) fun _ after _ =>
    .get rfl (Unaware.pure after.roots after)) state

end Parsing

end SpanForest
