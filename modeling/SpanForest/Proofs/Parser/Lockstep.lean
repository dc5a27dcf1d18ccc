import SpanForest.Proofs.Parser.Aside
import SpanForest.Proofs.Parser.Leading
import SpanForest.Proofs.Parser.Reachable

namespace SpanForest

/-!
# Parses in lockstep

Only predicates look at the truth values that a parser remembers. Two parses
that differ in nothing else, each with a host of its own, do the same at a word
as long as their hosts and predicates answer alike, and attempts at reductions
come out alike. So whatever else may be said about two such parses has to be
checked for what asks, and not for what works on the stack.
-/

namespace Parser

variable {parser : Parser} {evaluator : Evaluator}

/-- The same parse with other truth values in memory. -/
def withEvaluator (parser : Parser) (evaluator : Evaluator) : Parser :=
  { parser with evaluator := evaluator }

/--
A parse of the same input that knows no more truths and outcomes, though it may
have got further spans.
-/
structure SameFacts (before after : Parser) : Prop where
  compiled : after.compiled = before.compiled
  document : after.document = before.document
  input : after.input = before.input
  spans : before.spans.Extends after.spans
  numbered : before.Numbered → after.Numbered
  evaluator : after.evaluator = before.evaluator
  outcomes : after.outcomes = before.outcomes

theorem SameFacts.trans
    {first second third : Parser}
    (early : first.SameFacts second)
    (late : second.SameFacts third) :
    first.SameFacts third where
  compiled := late.compiled.trans early.compiled
  document := late.document.trans early.document
  input := late.input.trans early.input
  spans := early.spans.trans late.spans
  numbered known := late.numbered (early.numbered known)
  evaluator := late.evaluator.trans early.evaluator
  outcomes := late.outcomes.trans early.outcomes

theorem OnlyWork.sameFacts
    {before after : Parser}
    (only : before.OnlyWork after) :
    before.SameFacts after := by
  rw [only]
  exact ⟨rfl, rfl, rfl, .refl _, fun numbered => numbered, rfl, rfl⟩

theorem withEvaluator_eq (parser : Parser) (evaluator : Evaluator) :
    parser.withEvaluator evaluator =
      parser.withAside { evaluator := fun _ => evaluator } :=
  rfl

theorem act_withEvaluator (node : StateNodeId) :
    (parser.withEvaluator evaluator).act node =
      (parser.act node).withEvaluator evaluator := by
  simp only [withEvaluator_eq, act_withAside]

theorem attachAll_withEvaluator
    (word : Nat)
    (span : SpanId)
    (derivation : Derivation)
    (below : List StateNodeId) :
    (parser.withEvaluator evaluator).attachAll word span derivation below =
      (parser.attachAll word span derivation below).withEvaluator
        evaluator := by
  simp only [withEvaluator_eq, attachAll_withAside]

theorem wakeWord_withEvaluator (word : Nat) :
    (parser.withEvaluator evaluator).wakeWord word =
      (parser.wakeWord word).withEvaluator evaluator := by
  simp only [withEvaluator_eq]
  exact wakeWord_withAside fun _ => rfl

theorem finishWord_withEvaluator (word : Nat) :
    (parser.withEvaluator evaluator).finishWord word =
      (parser.finishWord word).withEvaluator evaluator := by
  simp only [withEvaluator_eq, finishWord_withAside]

theorem sameFacts_act (node : StateNodeId) :
    parser.SameFacts (parser.act node) := by
  have acted := (@onlyWork_act parser node).sameFacts
  exact ⟨acted.compiled, acted.document, acted.input, acted.spans,
    acted.numbered, acted.evaluator, acted.outcomes⟩

theorem sameFacts_wakeWord (word : Nat) :
    parser.SameFacts (parser.wakeWord word) := by
  have woken := fun nodes => (@onlyWork_foldl { parser with active := [] } _
    activate (fun _ _ => onlyWork_activate _) nodes).sameFacts
  unfold wakeWord
  split <;> exact ⟨(woken _).compiled, (woken _).document, (woken _).input,
    (woken _).spans, (woken _).numbered, (woken _).evaluator,
    (woken _).outcomes⟩

theorem sameFacts_finishWord (word : Nat) :
    parser.SameFacts (parser.finishWord word) := by
  have read : Parser.SameFacts { parser with shifts := [] }
      (parser.readShifts word) := by
    refine (onlyWork_foldl (fun current shift => ?_) parser.shifts).sameFacts
    unfold readShift
    split
    · rfl
    · dsimp only
      split <;> rfl
  unfold finishWord
  dsimp only
  split <;> exact ⟨read.compiled, read.document, read.input, read.spans,
    read.numbered, read.evaluator, read.outcomes⟩

end Parser

namespace Parsing

section Attempts

variable {σ : Type}
variable (attempt : Rule → List SymbolNodeId → Parsing σ (Option SpanId))
variable (word : Nat)

/-- Reduce a rule along paths, attempting each in some way. -/
def reducePathsBy
    (rule : Rule)
    (via : Option StateNodeId) :
    List (List SymbolNodeId) →
    Parsing σ Unit
  | [] => return ()
  | nodes :: rest => do
      let current ← parser
      match ← attempt rule nodes with
      | some span =>
          modifyParser fun later =>
            later.attachAll word span ⟨rule.id, nodes⟩
              (current.basesOf via nodes)
      | none => pure ()
      if (← parser).capped then
        return ()
      else
        reducePathsBy rule via rest

/-- Try a reduction, attempting it in some way along each path. -/
def reduceBy (reduction : Reduction) : Parsing σ Unit := do
  let current ← parser
  if current.capped then
    return ()
  else
    let rule := current.compiled.grammar.rule reduction.rule
    let paths :=
      current.stack.paths reduction.anchor rule.length reduction.via
    reducePathsBy attempt word rule reduction.via (paths.map List.reverse)

/-- Settle a word, attempting reductions in some way. -/
def settleBy : (fuel : Nat) → Parsing σ Unit
  | 0 => return ()
  | fuel + 1 => do
      let current ← parser
      match current.active, current.reductions with
      | node :: active, _ =>
          modifyParser fun current =>
            { current with active := active }.act node
          settleBy fuel
      | [], reduction :: reductions =>
          modifyParser fun current => { current with reductions := reductions }
          reduceBy attempt word reduction
          settleBy fuel
      | [], [] => return ()

/-- Process the next word, attempting reductions in some way. -/
def attemptStep (host : Host σ) : Parsing σ Bool :=
  stepBy (settleBy attempt) host

end Attempts

/-- The run after a number of steps that attempt reductions in some way. -/
def attemptSteps
    {σ : Type}
    (attempt : Rule → List SymbolNodeId → Parsing σ (Option SpanId))
    (host : Host σ) :
    (count : Nat) →
    Parser × σ →
    Parser × σ
  | 0, run => run
  | count + 1, run =>
      attemptSteps attempt host count
        ((attemptStep attempt host).run.run run).2

variable {σ τ : Type} {host : Host σ} {other : Host τ}
variable {grammar : Grammar} {options : CompileOptions} {word : Nat}
variable {attempt : Rule → List SymbolNodeId → Parsing τ (Option SpanId)}
variable {mayStop : Prop} {alike : Parser × τ → Parser × σ → Prop}

/-- Steps attempt reductions as they do. -/
theorem attemptStep_reducePath (host : Host σ) :
    attemptStep (reducePath host) host = step host := by
  have reduces : ∀ word rule via paths,
      reducePathsBy (reducePath host) word rule via paths =
        reducePaths host word rule via paths := by
    intro word rule via paths
    induction paths with
    | nil => rfl
    | cons nodes rest inductionHypothesis =>
        unfold reducePathsBy reducePaths
        rw [inductionHypothesis]
        rfl
  have settles : settleBy (reducePath host) = settle host := by
    funext word fuel
    induction fuel with
    | zero => rfl
    | succ fuel inductionHypothesis =>
        unfold settleBy settle
        rw [inductionHypothesis]
        simp only [reduceBy, reduces]
        rfl
  rw [attemptStep, settles, stepBy_settle]

/-- Runs attempt reductions as they do. -/
theorem attemptSteps_reducePath
    (host : Host σ)
    (count : Nat)
    (run : Parser × σ) :
    attemptSteps (reducePath host) host count run =
      Parser.afterSteps host count run := by
  induction count generalizing run with
  | zero => rfl
  | succ count inductionHypothesis =>
      rw [attemptSteps, Parser.afterSteps, attemptStep_reducePath,
        inductionHypothesis]

/--
Runs of two parses that are alike, where they can differ in the truth values in
memory only, and stay alike as long as what asks leads to runs that are alike.
-/
structure Lockstep
    (mayStop : Prop)
    (host : Host σ)
    (other : Host τ)
    (grammar : Grammar)
    (options : CompileOptions)
    (attempt : Rule → List SymbolNodeId → Parsing τ (Option SpanId))
    (alike : Parser × τ → Parser × σ → Prop) : Prop where
  same :
    ∀ ⦃first : Parser × τ⦄ ⦃second : Parser × σ⦄, alike first second →
      ∃ evaluator, first.1 = second.1.withEvaluator evaluator
  moves :
    ∀ ⦃before after : Parser⦄ ⦃evaluator : Evaluator⦄ ⦃left : τ⦄ ⦃right : σ⦄,
      alike (before.withEvaluator evaluator, left) (before, right) →
      before.SameFacts after →
      after.Sound host grammar options →
      alike (after.withEvaluator evaluator, left) (after, right)
  collects :
    ∀ (word : Nat) ⦃first : Parser × τ⦄ ⦃second : Parser × σ⦄,
      alike first second →
      second.1.Sound host grammar options →
      Mirrors mayStop alike first second (collectCandidates other word)
        (collectCandidates host word)
  attempts :
    ∀ (word : Nat) ⦃first : Parser × τ⦄ ⦃second : Parser × σ⦄ ⦃rule : RuleId⦄
      ⦃nodes : List SymbolNodeId⦄,
      alike first second →
      second.1.Working host grammar options word →
      rule < grammar.rules.size →
      (∀ id : Nat, id ∈ second.1.spansOf nodes → id < second.1.spans.size) →
      Mirrors mayStop alike first second (attempt (grammar.rule rule) nodes)
        (reducePath host (grammar.rule rule) nodes)

namespace Lockstep

variable {evaluator : Evaluator} {parser : Parser} {left : τ} {right : σ}

/-- Attempts along paths keep runs alike. -/
theorem reducePaths
    (lockstep : Lockstep mayStop host other grammar options attempt alike)
    (wellFormed : grammar.WellFormed)
    {rule : RuleId}
    {via : Option StateNodeId}
    (user : rule < grammar.rules.size)
    (paths : List (List SymbolNodeId))
    (begins : alike (parser.withEvaluator evaluator, left) (parser, right))
    (working : parser.Working host grammar options word)
    (handles : ∀ nodes ∈ paths, parser.Handle word rule via nodes) :
    Mirrors mayStop alike (parser.withEvaluator evaluator, left) (parser, right)
      (reducePathsBy attempt word (grammar.rule rule) via paths)
      (Parsing.reducePaths host word (grammar.rule rule) via paths) := by
  have terms : host.Terms grammar True := ⟨wellFormed, .inr trivial⟩
  induction paths generalizing parser evaluator left right with
  | nil => exact .pure begins _
  | cons nodes rest inductionHypothesis =>
      have handle := handles nodes List.mem_cons_self
      have known := working.sound.spansOf_known handle.known
      -- What follows once the first path was tried.
      have goOn : ∀ (middle : Parser) (evaluator : Evaluator) (left : τ)
          (right : σ),
          alike (middle.withEvaluator evaluator, left) (middle, right) →
          middle.Working host grammar options word →
          parser.Proceeds word middle →
          Mirrors mayStop alike (middle.withEvaluator evaluator, left) (middle, right)
            (do
              let current ← Parsing.parser
              if current.capped then
                return ()
              else
                reducePathsBy attempt word (grammar.rule rule) via rest)
            (do
              let current ← Parsing.parser
              if current.capped then
                return ()
              else
                Parsing.reducePaths host word (grammar.rule rule) via rest) := by
        intro middle evaluator left right holds middleWorking proceeds
        refine mirrors_get ?_
        have sameCapped : (middle.withEvaluator evaluator).capped =
            middle.capped :=
          rfl
        rw [sameCapped]
        split
        · exact .pure holds _
        · exact inductionHypothesis holds middleWorking fun other member =>
            (handles other (List.mem_cons_of_mem _ member)).grows proceeds.grows
              proceeds.unharmed middleWorking.sound.stack
      unfold reducePathsBy Parsing.reducePaths
      refine mirrors_get (.bind_ensures
        (lockstep.attempts word begins working user known)
        (ensures_reducePath terms working.sound user known) ?_)
      rintro outcome ⟨leftParser, leftAfter⟩ ⟨reduced, rightAfter⟩ holds
        ⟨learns, reducedSound, isOutcome⟩
      obtain ⟨later, rfl⟩ := lockstep.same holds
      have proceeds := learns.proceeds word
      have reducedWorking := working.proceeds proceeds reducedSound
        fun _ member => .inl (learns.active ▸ member)
      cases outcome with
      | none =>
          exact goOn reduced later leftAfter rightAfter holds reducedWorking
            proceeds
      | some id =>
          obtain ⟨permits, accepts⟩ := isOutcome
          have attachable : ∀ below ∈ parser.basesOf via nodes,
              reduced.Attachable host word below ⟨rule, nodes⟩ id :=
            fun below isBase => handle.attachable_later wellFormed proceeds.grows
              proceeds.unharmed reducedSound permits accepts isBase
          obtain ⟨attached, attaches, -⟩ :=
            reducedWorking.attachAll wellFormed _ attachable
          refine mirrors_modify ?_
          rw [wellFormed.id_rule (Nat.le_of_lt user), Parser.attachAll_withEvaluator]
          exact goOn _ later leftAfter rightAfter
            (lockstep.moves holds (Parser.onlyWork_attachAll ..).sameFacts
              attached.sound) attached (proceeds.trans attaches)

/-- Trying a reduction keeps runs alike. -/
theorem reduce
    (lockstep : Lockstep mayStop host other grammar options attempt alike)
    (wellFormed : grammar.WellFormed)
    (begins : alike (parser.withEvaluator evaluator, left) (parser, right))
    (working : parser.Working host grammar options word)
    {reduction : Reduction}
    (ready : parser.ReductionReady word reduction) :
    Mirrors mayStop alike (parser.withEvaluator evaluator, left) (parser, right)
      (reduceBy attempt word reduction) (Parsing.reduce host word reduction) := by
  have isGrammar : parser.compiled.grammar = grammar :=
    working.sound.loaded.isGrammar
  unfold reduceBy Parsing.reduce
  refine mirrors_get ?_
  have sameCapped : (parser.withEvaluator evaluator).capped = parser.capped :=
    rfl
  rw [sameCapped]
  split
  · exact .pure begins _
  · have handle := fun path =>
      @Parser.Sound.handle _ _ _ _ _ _ working.sound wellFormed _ ready path
    have sameCompiled : (parser.withEvaluator evaluator).compiled =
        parser.compiled :=
      rfl
    simp only [sameCompiled, isGrammar] at handle ⊢
    refine lockstep.reducePaths wellFormed (isGrammar ▸ ready.user) _ begins
      working ?_
    intro nodes member
    obtain ⟨path, isPath, rfl⟩ := List.mem_map.mp member
    exact handle path isPath

/-- Settling a word keeps runs alike. -/
theorem settle
    (lockstep : Lockstep mayStop host other grammar options attempt alike)
    (wellFormed : grammar.WellFormed)
    (fuel : Nat)
    (begins : alike (parser.withEvaluator evaluator, left) (parser, right))
    (working : parser.Working host grammar options word) :
    Mirrors mayStop alike (parser.withEvaluator evaluator, left) (parser, right)
      (settleBy attempt word fuel) (Parsing.settle host word fuel) := by
  have terms : host.Terms grammar True := ⟨wellFormed, .inr trivial⟩
  induction fuel generalizing parser evaluator left right with
  | zero => exact .pure begins _
  | succ fuel inductionHypothesis =>
      unfold settleBy Parsing.settle
      refine mirrors_get ?_
      have sameActive : (parser.withEvaluator evaluator).active =
          parser.active :=
        rfl
      have sameReductions : (parser.withEvaluator evaluator).reductions =
          parser.reductions :=
        rfl
      rw [sameActive, sameReductions]
      cases isActive : parser.active with
      | cons node rest =>
          obtain ⟨taken, -⟩ := working.drop
            (isActive ▸ List.suffix_cons node rest) (List.suffix_refl _)
          have acted := (taken.act wellFormed
            (working.active node (isActive ▸ List.mem_cons_self))).1
          refine mirrors_modify ?_
          have commutes := @Parser.act_withEvaluator { parser with active := rest }
            evaluator node
          have drops : parser.SameFacts { parser with active := rest } :=
            Parser.OnlyWork.sameFacts rfl
          exact commutes ▸ inductionHypothesis (lockstep.moves begins
            (drops.trans (Parser.sameFacts_act node)) acted.sound) acted
      | nil =>
          cases isNext : parser.reductions with
          | nil => exact .pure begins _
          | cons reduction rest =>
              obtain ⟨taken, takes⟩ := working.drop (List.suffix_refl _)
                (isNext ▸ List.suffix_cons reduction rest)
              have ready : Parser.ReductionReady
                  { parser with reductions := rest } word reduction := by
                rw [← working.position]
                exact (working.sound.reductions reduction
                  (isNext ▸ List.mem_cons_self)).grows takes.grows
                    takes.unharmed working.sound.stack
              have takenAlike := lockstep.moves begins
                (Parser.OnlyWork.sameFacts rfl :
                  parser.SameFacts { parser with reductions := rest })
                taken.sound
              refine mirrors_modify (.bind_ensures
                (lockstep.reduce wellFormed takenAlike taken ready)
                (@ensures_reduce _ _ _ _ _ _ _ _ terms .anything [] taken _
                  ready trivial) ?_)
              rintro _ ⟨leftParser, leftAfter⟩ ⟨tried, rightAfter⟩ holds
                ⟨triedWorking, -⟩
              obtain ⟨later, rfl⟩ := lockstep.same holds
              exact inductionHypothesis holds triedWorking

/-- Processing a word keeps runs alike if collecting the spans ahead does. -/
theorem processWord
    (lockstep : Lockstep mayStop host other grammar options attempt alike)
    (wellFormed : grammar.WellFormed)
    {first : Parser}
    (sound : parser.Sound host grammar options)
    (position : parser.position = word)
    (known : word ≤ parser.words.length)
    (collects : Mirrors mayStop alike ({ first with capped := false }, left)
      ({ parser with capped := false }, right) (collectCandidates other word)
      (collectCandidates host word)) :
    Mirrors mayStop alike (first, left) (parser, right)
      (processWordBy (settleBy attempt) other word)
      (Parsing.processWord host word) := by
  have terms : host.Terms grammar True := ⟨wellFormed, .inr trivial⟩
  have uncapped : Parser.Sound host { parser with capped := false }
      grammar options :=
    sound.dropWork _ _ (List.Subset.refl _) _
  unfold processWordBy Parsing.processWord
  refine mirrors_modify (.bind_ensures collects
    (ensures_collectCandidates terms.tests uncapped word) ?_)
  rintro _ ⟨leftParser, leftAfter⟩ ⟨collected, rightAfter⟩ collectedAlike
    ⟨collects, ready, ahead, -, atWord⟩
  obtain ⟨ahead', rfl⟩ := lockstep.same collectedAlike
  have words : collected.words = parser.words := collects.words
  have working := ready.working_wakeWord (collects.position.trans position)
    (words ▸ known) ahead atWord
  have wokenAlike := lockstep.moves collectedAlike
    (Parser.sameFacts_wakeWord word) working.sound
  refine mirrors_modify (mirrors_get ?_)
  rw [Parser.wakeWord_withEvaluator]
  refine .bind_ensures (lockstep.settle wellFormed _ wokenAlike working)
    (ensures_settle terms .anything working trivial _ _ _ (Nat.le_refl _)
      (Nat.le_refl _) (Parser.weight_lt_workBound _ word)) ?_
  rintro _ ⟨leftParser, leftAfter⟩ ⟨settled, rightAfter⟩ settledAlike
    ⟨settledWorking, -, -, -, reductions⟩
  obtain ⟨last, rfl⟩ := lockstep.same settledAlike
  have finishedAlike := lockstep.moves settledAlike
    (Parser.sameFacts_finishWord word)
    (settledWorking.sound.finishWord wellFormed settledWorking.position
      reductions).1
  rw [← Parser.finishWord_withEvaluator] at finishedAlike
  exact .both rfl finishedAlike

/-- Processing the next word keeps runs alike if collecting the spans ahead does. -/
theorem step_of_collects
    (lockstep : Lockstep mayStop host other grammar options attempt alike)
    (wellFormed : grammar.WellFormed)
    {first : Parser}
    (sound : parser.Sound host grammar options)
    (started : parser.started = true)
    (unfinished : parser.isFinished = false)
    (sameStarted : first.started = parser.started)
    (sameFinished : first.isFinished = parser.isFinished)
    (samePosition : first.position = parser.position)
    (collects : Mirrors mayStop alike ({ first with capped := false }, left)
      ({ parser with capped := false }, right)
      (collectCandidates other parser.position)
      (collectCandidates host parser.position)) :
    Mirrors mayStop alike (first, left) (parser, right)
      (attemptStep attempt other) (Parsing.step host) := by
  have terms : host.Terms grammar True := ⟨wellFormed, .inr trivial⟩
  have known := parser.position_le unfinished
  unfold attemptStep stepBy Parsing.step
  refine mirrors_get ?_
  rw [sameStarted, sameFinished, samePosition, if_neg (by simp [started]),
    if_neg (by simp [unfinished]), if_neg (by simp [started]),
    if_neg (by simp [unfinished])]
  refine .bind_ensures
    (lockstep.processWord wellFormed sound rfl known collects)
    (ensures_processWord terms (fun _ => Parser.Kept.anything) sound rfl known
      fun _ _ _ _ => trivial) ?_
  rintro _ ⟨leftParser, leftAfter⟩ ⟨finished, rightAfter⟩ finishedAlike
    ⟨collected, settled, processed, -⟩
  obtain ⟨last, rfl⟩ := lockstep.same finishedAlike
  have moved := lockstep.moves finishedAlike
    (⟨rfl, rfl, rfl, .refl _, fun numbered => numbered, rfl, rfl⟩ :
      finished.SameFacts { finished with position := finished.position + 1 })
    (processed.sound.atPosition
      (processed.finishes.reductions.trans processed.reductions)
      processed.finishes.shifts _)
  exact .both rfl moved

/-- Processing the next word keeps runs alike. -/
theorem step
    (lockstep : Lockstep mayStop host other grammar options attempt alike)
    (wellFormed : grammar.WellFormed)
    (begins : alike (parser.withEvaluator evaluator, left) (parser, right))
    (sound : parser.Sound host grammar options) :
    Mirrors mayStop alike (parser.withEvaluator evaluator, left) (parser, right)
      (attemptStep attempt other) (Parsing.step host) := by
  cases started : parser.started with
  | false =>
      unfold attemptStep stepBy Parsing.step
      refine mirrors_get ?_
      have sameStarted : (parser.withEvaluator evaluator).started = false :=
        started
      rw [sameStarted, started]
      exact .throw begins _
  | true =>
      cases finished : parser.isFinished with
      | true =>
          unfold attemptStep stepBy Parsing.step
          refine mirrors_get ?_
          have sameStarted : (parser.withEvaluator evaluator).started = true :=
            started
          have sameFinished :
              (parser.withEvaluator evaluator).isFinished = true :=
            finished
          rw [sameStarted, started, sameFinished, finished]
          exact .pure begins _
      | false =>
          have uncapped : Parser.Sound host { parser with capped := false }
              grammar options :=
            sound.dropWork _ _ (List.Subset.refl _) _
          exact lockstep.step_of_collects wellFormed sound started finished rfl
            rfl rfl (lockstep.collects _ (lockstep.moves begins
              (Parser.OnlyWork.sameFacts rfl :
                parser.SameFacts { parser with capped := false })
              uncapped) uncapped)

/-- Steps keep runs alike unless one of them stops where it may. -/
theorem steps
    (lockstep : Lockstep mayStop host other grammar options attempt alike)
    (wellFormed : grammar.WellFormed)
    {first : Parser × τ}
    {second : Parser × σ}
    (begins : alike first second)
    (sound : second.1.Sound host grammar options)
    (count : Nat)
    (goesOn : mayStop → ∀ earlier < count,
      ¬ StopsFrom (attemptSteps attempt other earlier first)
        (attemptStep attempt other) ∧
      ¬ StopsFrom (Parser.afterSteps host earlier second)
        (Parsing.step host)) :
    alike (attemptSteps attempt other count first)
      (Parser.afterSteps host count second) := by
  induction count generalizing first second with
  | zero => exact begins
  | succ count inductionHypothesis =>
      obtain ⟨leftParser, left⟩ := first
      obtain ⟨parser, right⟩ := second
      obtain ⟨evaluator, rfl⟩ := lockstep.same begins
      have stepped := (lockstep.step wellFormed begins sound).alikeAfter
        fun may => goesOn may 0 (Nat.succ_pos count)
      exact inductionHypothesis stepped.2 (sound.step wellFormed right)
        fun may earlier isEarlier => goesOn may (earlier + 1)
          (Nat.succ_lt_succ isEarlier)

end Lockstep

end Parsing

end SpanForest
