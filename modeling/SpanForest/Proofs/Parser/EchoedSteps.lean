import SpanForest.Proofs.Parser.Echoing
import SpanForest.Proofs.Parser.Reachable

namespace SpanForest

/-!
# Steps under other span numbers

What is asked and what is done at a word comes to the same in a parse and in its
echo. So each step of the echo answers as that of the parse does, and leads to an
echo again, even where it stops with an error.
-/

namespace Parser

variable {σ : Type} {rename : SpanId → SpanId} {count : Nat}
variable {grammar : Grammar} {options : CompileOptions} {word : Nat}
variable {before after parser echo : Parser}

/-- Work brings no knowledge. -/
theorem OnlyWork.learnsNothing
    (only : before.OnlyWork after) :
    before.LearnsNothing after := by
  rw [only]
  exact ⟨rfl, rfl, rfl, rfl, rfl, rfl⟩

theorem learnsNothing_act (node : StateNodeId) :
    parser.LearnsNothing (parser.act node) :=
  { (@onlyWork_act parser node).learnsNothing with }

theorem learnsNothing_finishWord (word : Nat) :
    parser.LearnsNothing (parser.finishWord word) := by
  have read : LearnsNothing { parser with shifts := [] }
      (parser.readShifts word) :=
    (onlyWork_foldl (fun _ _ => onlyWork_readShift word _) _).learnsNothing
  simp only [finishWord]
  split
  · exact { read with }
  · exact { read with }

namespace Echoes

/-- The echo is at the same point of its way through the words. -/
theorem same_progress
    (echoes : Echoes rename count grammar options parser echo) :
    echo.started = parser.started ∧ echo.position = parser.position ∧
      echo.capped = parser.capped ∧ echo.isFinished = parser.isFinished := by
  rw [echoes.same]
  have sameNumWords : (parser.renumbered rename echo).numWords = parser.numWords :=
    List.length_map _
  exact ⟨rfl, rfl, rfl,
    congrArg (fun count => decide (count < parser.position)) sameNumWords⟩

/-- The echo has the same work left. -/
theorem same_work
    (echoes : Echoes rename count grammar options parser echo)
    (word : Nat) :
    echo.active = parser.active ∧ echo.reductions = parser.reductions ∧
      echo.workBound word = parser.workBound word := by
  rw [echoes.same]
  exact ⟨rfl, rfl, workBound_renumbered⟩

/-- The echo has the same stack, but for the numbers of spans. -/
theorem stack_echo
    (echoes : Echoes rename count grammar options parser echo) :
    echo.stack = parser.stack.renumbered rename := by
  rw [echoes.same]
  rfl

/-- Work that does not depend on numbers keeps a parse and its echo together. -/
theorem works
    (echoes : Echoes rename count grammar options parser echo)
    (change : Parser → Parser)
    (only : parser.OnlyWork (change parser))
    (commutes : change (parser.renumbered rename echo) =
      (change parser).renumbered rename echo) :
    Echoes rename count grammar options (change parser) (change echo) :=
  echoes.change change only.learnsNothing commutes

end Echoes

end Parser

namespace Parsing

variable {σ : Type} {rename : SpanId → SpanId} {count : Nat}
variable {grammar : Grammar} {options : CompileOptions} {word : Nat}
variable {parser echo : Parser} {left right : σ}

section Working

variable (renumbers : Renumbers rename count)
variable (contextless : grammar.predicates.Contextless)
variable (wellFormed : grammar.WellFormed)
include renumbers contextless wellFormed

/-- Reducing a rule along paths comes to the same in the echo. -/
theorem echoed_reducePaths
    {rule : RuleId}
    {via : Option StateNodeId}
    (user : rule < grammar.rules.size)
    (paths : List (List SymbolNodeId))
    (echoes : Parser.Echoes rename count grammar options parser echo)
    (working :
      parser.Working (Host.inheriting : Host σ) grammar options word)
    (handles : ∀ nodes ∈ paths, parser.Handle word rule via nodes) :
    EchoedAs rename count grammar options (fun _ _ => True)
      (parser, left) (echo, right)
      (reducePaths Host.inheriting word (grammar.rule rule) via paths)
      (reducePaths Host.inheriting word (grammar.rule rule) via paths) := by
  have terms : (Host.inheriting : Host σ).Terms grammar True :=
    ⟨wellFormed, .inr trivial⟩
  induction paths generalizing parser echo left right with
  | nil => exact .pure echoes trivial
  | cons nodes rest inductionHypothesis =>
      have handle := handles nodes List.mem_cons_self
      have known := working.sound.spansOf_known handle.known
      -- What follows once the first path was tried.
      have goOn : ∀ (middle echoMiddle : Parser) (left right : σ),
          Parser.Echoes rename count grammar options middle echoMiddle →
          middle.Working (Host.inheriting : Host σ) grammar options word →
          parser.Proceeds word middle →
          EchoedAs rename count grammar options (fun _ _ => True)
            (middle, left) (echoMiddle, right)
            (do
              let current ← Parsing.parser
              if current.capped then
                return ()
              else
                reducePaths Host.inheriting word (grammar.rule rule) via rest)
            (do
              let current ← Parsing.parser
              if current.capped then
                return ()
              else
                reducePaths Host.inheriting word (grammar.rule rule) via
                  rest) := by
        intro middle echoMiddle left right holds middleWorking proceeds
        refine simulates_get ?_
        rw [holds.same_progress.2.2.1]
        split
        · exact .pure holds trivial
        · exact inductionHypothesis holds middleWorking fun other member =>
            (handles other (List.mem_cons_of_mem _ member)).grows proceeds.grows
              proceeds.unharmed middleWorking.sound.stack
      unfold reducePaths
      refine simulates_get ?_
      rw [echoes.stack_echo, GraphStack.children_renumbered]
      refine .bind_ensures (echoed_reducePath renumbers contextless wellFormed
        echoes user handle.nonempty handle.known known)
        (ensures_reducePath terms working.sound user known) ?_
      rintro outcome _ ⟨reduced, left⟩ ⟨echoReduced, right⟩ rfl holds
        ⟨learns, reducedSound, isOutcome⟩
      have proceeds := learns.proceeds word
      have reducedWorking := working.proceeds proceeds reducedSound
        fun _ member => .inl (learns.active ▸ member)
      cases outcome with
      | none => exact goOn _ _ _ _ holds reducedWorking proceeds
      | some id =>
          obtain ⟨permits, accepts⟩ := isOutcome
          have attachable : ∀ below ∈ parser.basesOf via nodes,
              reduced.Attachable Host.inheriting word below ⟨rule, nodes⟩ id :=
            fun below isBase => handle.attachable_later wellFormed proceeds.grows
              proceeds.unharmed reducedSound permits accepts isBase
          obtain ⟨attached, attaches, -⟩ :=
            reducedWorking.attachAll wellFormed _ attachable
          rw [wellFormed.id_rule (Nat.le_of_lt user)]
          refine simulates_modify (goOn _ _ _ _ ?_ attached
            (proceeds.trans attaches))
          exact holds.change
            (Parser.attachAll · word (rename id) ⟨rule, nodes⟩
              (parser.basesOf via nodes))
            (Parser.onlyWork_attachAll ..).learnsNothing
            (Parser.attachAll_renumbered wellFormed reducedWorking renumbers
              holds.store _ attachable)

/-- Trying a reduction comes to the same in the echo. -/
theorem echoed_reduce
    (echoes : Parser.Echoes rename count grammar options parser echo)
    (working :
      parser.Working (Host.inheriting : Host σ) grammar options word)
    {reduction : Reduction}
    (ready : parser.ReductionReady word reduction) :
    EchoedAs rename count grammar options (fun _ _ => True)
      (parser, left) (echo, right) (reduce Host.inheriting word reduction)
      (reduce Host.inheriting word reduction) := by
  have isGrammar : parser.compiled.grammar = grammar := by
    rw [echoes.compiled]
    rfl
  have echoGrammar : echo.compiled.grammar = grammar := by
    rw [echoes.echo_compiled]
    rfl
  unfold reduce
  refine simulates_get ?_
  rw [echoes.same_progress.2.2.1]
  split
  · exact .pure echoes trivial
  · have handle := fun path =>
      @Parser.Sound.handle _ _ _ _ _ _ working.sound wellFormed _ ready path
    simp only [isGrammar, echoGrammar, echoes.stack_echo,
      GraphStack.paths_renumbered] at handle ⊢
    refine echoed_reducePaths renumbers contextless wellFormed
      (isGrammar ▸ ready.user) _ echoes working ?_
    intro nodes member
    obtain ⟨path, isPath, rfl⟩ := List.mem_map.mp member
    exact handle path isPath

/-- Settling a word comes to the same in the echo. -/
theorem echoed_settle
    (fuel : Nat)
    (echoes : Parser.Echoes rename count grammar options parser echo)
    (working :
      parser.Working (Host.inheriting : Host σ) grammar options word) :
    EchoedAs rename count grammar options (fun _ _ => True)
      (parser, left) (echo, right) (settle Host.inheriting word fuel)
      (settle Host.inheriting word fuel) := by
  have terms : (Host.inheriting : Host σ).Terms grammar True :=
    ⟨wellFormed, .inr trivial⟩
  induction fuel generalizing parser echo left right with
  | zero => exact .pure echoes trivial
  | succ fuel inductionHypothesis =>
      obtain ⟨sameActive, sameReductions, -⟩ := echoes.same_work word
      unfold settle
      refine simulates_get ?_
      rw [sameActive, sameReductions]
      cases isActive : parser.active with
      | cons node rest =>
          obtain ⟨taken, -⟩ := working.drop
            (isActive ▸ List.suffix_cons node rest) (List.suffix_refl _)
          have acted := (taken.act wellFormed
            (working.active node (isActive ▸ List.mem_cons_self))).1
          refine simulates_modify (inductionHypothesis ?_ acted)
          have dropped := echoes.works (fun current =>
            { current with active := rest }) rfl rfl
          exact dropped.change (Parser.act · node)
            (Parser.learnsNothing_act node)
            (Parser.act_renumbered renumbers dropped.store node)
      | nil =>
          cases isNext : parser.reductions with
          | nil => exact .pure echoes trivial
          | cons reduction rest =>
              obtain ⟨taken, takes⟩ := working.drop (List.suffix_refl _)
                (isNext ▸ List.suffix_cons reduction rest)
              have ready : Parser.ReductionReady
                  { parser with reductions := rest } word reduction := by
                rw [← working.position]
                exact (working.sound.reductions reduction
                  (isNext ▸ List.mem_cons_self)).grows takes.grows
                    takes.unharmed working.sound.stack
              have dropped := echoes.works (fun current =>
                { current with reductions := rest }) rfl rfl
              refine simulates_modify (.bind_ensures
                (echoed_reduce renumbers contextless wellFormed dropped taken ready)
                (@ensures_reduce _ _ _ _ _ _ _ _ terms .anything [] taken _
                  ready trivial) ?_)
              rintro _ _ ⟨tried, left⟩ ⟨echoTried, right⟩ - holds
                ⟨triedWorking, -⟩
              exact inductionHypothesis holds triedWorking

/-- Processing a word comes to the same in the echo. -/
theorem echoed_processWord
    (echoes : Parser.Echoes rename count grammar options parser echo)
    (sound : parser.Sound (Host.inheriting : Host σ) grammar options)
    (position : parser.position = word)
    (known : word ≤ parser.words.length) :
    EchoedAs rename count grammar options (fun _ _ => True)
      (parser, left) (echo, right) (processWord Host.inheriting word)
      (processWord Host.inheriting word) := by
  have terms : (Host.inheriting : Host σ).Terms grammar True :=
    ⟨wellFormed, .inr trivial⟩
  have uncapped : Parser.Sound (Host.inheriting : Host σ)
      { parser with capped := false } grammar options :=
    sound.dropWork _ _ (List.Subset.refl _) _
  have committed : ∀ ahead, parser.words[word]? = some ahead →
      ∀ base : Nat, base ∈ ahead.spans → base < parser.spans.size :=
    fun _ isAhead _ member => (sound.loaded.word_known isAhead member).2
  have begun := echoes.works (fun current => { current with capped := false })
    rfl rfl
  unfold processWord
  refine simulates_modify (.bind_ensures
    (echoed_collectCandidates renumbers contextless wellFormed begun committed)
    (ensures_collectCandidates terms.tests uncapped word) ?_)
  rintro _ _ ⟨collected, left⟩ ⟨echoCollected, right⟩ - gathered
    ⟨collects, ready, ahead, -, atWord⟩
  have words : collected.words = parser.words := collects.words
  have working := ready.working_wakeWord (collects.position.trans position)
    (words ▸ known) ahead atWord
  have woken := gathered.works (Parser.wakeWord · word)
    (Parser.onlyWork_wakeWord word) Parser.wakeWord_renumbered
  refine simulates_modify (simulates_get ?_)
  rw [(woken.same_work word).2.2]
  refine .bind_ensures
    (echoed_settle renumbers contextless wellFormed _ woken working)
    (ensures_settle terms .anything working trivial _ _ _ (Nat.le_refl _)
      (Nat.le_refl _) (Parser.weight_lt_workBound _ word)) ?_
  rintro _ _ ⟨settled, left⟩ ⟨echoSettled, right⟩ - holds
    ⟨settledWorking, -, -, -, -⟩
  exact ⟨.ok trivial, holds.change (Parser.finishWord · word)
    (Parser.learnsNothing_finishWord word)
    (Parser.finishWord_renumbered wellFormed settledWorking.sound
      settledWorking.position renumbers holds.store)⟩

/-- Taking a step comes to the same in the echo. -/
theorem echoed_step
    (echoes : Parser.Echoes rename count grammar options parser echo)
    (sound : parser.Sound (Host.inheriting : Host σ) grammar options) :
    EchoedAs rename count grammar options Eq (parser, left) (echo, right)
      (step Host.inheriting) (step Host.inheriting) := by
  obtain ⟨sameStarted, samePosition, -, sameFinished⟩ := echoes.same_progress
  unfold step
  refine simulates_get ?_
  rw [sameStarted, sameFinished, samePosition]
  split
  · exact .throw echoes rfl
  · split
    · exact .pure echoes rfl
    · rename_i notFinished
      have unfinished : parser.isFinished = false := by simpa using notFinished
      have known := parser.position_le unfinished
      refine .bind (echoed_processWord renumbers contextless wellFormed echoes
        sound rfl known) ?_
      rintro _ _ ⟨finished, left⟩ ⟨echoFinished, right⟩ - holds
      have moved := holds.change
        (fun current => { current with position := current.position + 1 })
        (⟨rfl, rfl, rfl, rfl, rfl, rfl⟩ : finished.LearnsNothing
          { finished with position := finished.position + 1 }) rfl
      refine simulates_modify (simulates_get (.pure moved ?_))
      rw [moved.same_progress.2.2.2]

end Working

end Parsing

namespace Parser

/-- Steps keep a parse and its echo together, whether they succeed or stop. -/
theorem Echoes.afterSteps
    {σ : Type}
    {rename : SpanId → SpanId}
    {count : Nat}
    {grammar : Grammar}
    {options : CompileOptions}
    {parser echo : Parser}
    (renumbers : Renumbers rename count)
    (contextless : grammar.predicates.Contextless)
    (wellFormed : grammar.WellFormed)
    (echoes : Echoes rename count grammar options parser echo)
    (sound : parser.Sound (Host.inheriting : Host σ) grammar options)
    (left right : σ)
    (steps : Nat) :
    Echoes rename count grammar options
      (afterSteps Host.inheriting steps (parser, left)).1
      (afterSteps Host.inheriting steps (echo, right)).1 := by
  induction steps generalizing parser echo left right with
  | zero => exact echoes
  | succ steps inductionHypothesis =>
      have stepped := (@Parsing.echoed_step _ _ _ _ _ _ _ left right renumbers
        contextless wellFormed echoes sound).after
      exact inductionHypothesis stepped (sound.step wellFormed left) _ _

end Parser

end SpanForest
