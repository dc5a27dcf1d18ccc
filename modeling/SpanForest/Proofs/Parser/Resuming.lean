import SpanForest.Proofs.Parser.Agreeing

namespace SpanForest

/-!
# Going on after a failed step

A step that fails leaves the parse at its word, with all that it held. What it
collected of the spans ahead is collected again by the next step, from memory, so a
host that failed there and recovers may be forgotten. A reduction that fails is
not tried again: its host gave up the parse.
-/

namespace Parser

/--
A parse that went on at a word and lost nothing of what it held: it stands at the
word, counts no further word, and has its spans, its stack and all it learned.
-/
structure Persists (word : Nat) (before after : Parser) : Prop where
  position : after.position = before.position
  wordStats : after.wordStats = before.wordStats
  totals : after.totals = before.totals
  grows : before.Grows word after
  unharmed : before.stack.Unharmed after.stack
  evaluator : before.evaluator.Retains after.evaluator
  synthesized : before.Retains after
  outcomes : before.KeepsOutcomes after

variable {σ : Type} {host : Host σ}
variable {grammar : Grammar} {options : CompileOptions} {word : Nat}
variable {first second third before after parser : Parser}

theorem Persists.refl (word : Nat) (parser : Parser) :
    parser.Persists word parser :=
  ⟨rfl, rfl, rfl, .refl _ _, .refl _, .refl _, .refl _, .refl _⟩

theorem Persists.trans
    (early : first.Persists word second)
    (late : second.Persists word third) :
    first.Persists word third where
  position := late.position.trans early.position
  wordStats := late.wordStats.trans early.wordStats
  totals := late.totals.trans early.totals
  grows := early.grows.trans late.grows
  unharmed := early.unharmed.trans late.unharmed
  evaluator := early.evaluator.trans late.evaluator
  synthesized := early.synthesized.trans late.synthesized
  outcomes := early.outcomes.trans late.outcomes

/-- Asking loses nothing. -/
theorem Asks.persists
    (asks : before.Asks after)
    (word : Nat) :
    before.Persists word after := by
  have grows : before.Grows word after := by
    rw [asks.same]
    exact { Grows.refl word before with spans := asks.spans }
  constructor
  case position => rw [asks.same]
  case wordStats => rw [asks.same]
  case totals => rw [asks.same]
  case grows => exact grows
  case unharmed =>
    rw [asks.stack]
    exact .refl _
  case evaluator => exact asks.evaluator
  case synthesized => exact asks.synthesized
  case outcomes => exact asks.outcomes

/-- Working on the stack loses nothing. -/
theorem OnlyWork.persists
    (only : before.OnlyWork after)
    (grows : before.stack.Extends word after.stack)
    (unharmed : before.stack.Unharmed after.stack) :
    before.Persists word after := by
  rw [only]
  exact ⟨rfl, rfl, rfl, { Grows.refl word before with stack := grows }, unharmed,
    .refl _, .refl _, .refl _⟩

theorem Persists.root
    (persists : before.Persists word after)
    (sound : before.Sound host grammar options)
    (afterSound : after.Sound host grammar options)
    {root : Nat}
    (isRoot : root ∈ before.roots) :
    root ∈ after.roots := by
  have was := (sound.rooted root).mp isRoot
  exact (afterSound.rooted root).mpr
    ((IsRoot.iff_grows persists.grows persists.unharmed was.inside).mpr was)

/-- All the work at a word loses nothing. -/
theorem leads_persists
    (wellFormed : grammar.WellFormed) :
    Leads host grammar options word
      fun before after => before.1.Persists word after.1 where
  refl _ := .refl _ _
  trans _ _ _ := .trans
  begins parser _ :=
    (OnlyWork.persists rfl (.refl _ _) (.refl _) :
      parser.Persists word { parser with capped := false })
  collects _ := (Parsing.asks_collectCandidates host word).follows
    fun _ asks _ _ => asks.persists word
  wakes {before} _ sound := by
    have wakes := (sound.wakeWord word).2.wakes
    have only : before.OnlyWork (before.wakeWord word) := by
      rw [wakes.only_marks]
      rfl
    refine only.persists (wakes.shape.extends word) ⟨fun live => ?_, ?_⟩
    · exact ⟨fun id => (wakes.removed id).trans (live.state id), fun id => by
        rw [GraphStack.symbolNode, wakes.symbols]
        exact live.symbol id⟩
    · intro id inside
      rw [GraphStack.symbolNode, wakes.symbols]
      exact ⟨inside, rfl⟩
  acts {before node rest} _ working isActive := by
    have noted : before.Persists word
        { before with
          active := rest
          shifts := before.shifts ++
            before.shiftsFrom node (before.stack.stateNode node).state } :=
      ⟨rfl, rfl, rfl, { Grows.refl word before with }, .refl _, .refl _, .refl _,
        .refl _⟩
    obtain ⟨taken, -⟩ := working.drop
      (isActive ▸ List.suffix_cons node rest) (List.suffix_refl _)
    have acted := (taken.act wellFormed
      (working.active node (isActive ▸ List.mem_cons_self))).2
    exact noted.trans ((@onlyWork_act { before with active := rest } node).persists
      acted.grows.stack acted.unharmed)
  takes {before reduction rest} _ _ _ :=
    (OnlyWork.persists rfl (.refl _ _) (.refl _) :
      before.Persists word { before with reductions := rest })
  reduces {_ rule nodes _} _ _ _ :=
    (Parsing.asks_reducePath host (grammar.rule rule) nodes).follows
      fun _ asks _ _ => asks.persists word
  attaches _ working attachable _ := by
    obtain ⟨-, proceeds, -⟩ := working.attach wellFormed attachable
    exact (onlyWork_attach _ _ _ _).persists proceeds.grows.stack
      proceeds.unharmed

/-- A step that fails loses nothing. -/
theorem Reachable.persists_step
    {config : ParserConfig}
    {state : σ}
    (wellFormed : grammar.WellFormed)
    (reachable : Reachable host (grammar.compile options) config parser)
    (stops : StopsFrom (parser, state) (Parsing.step host)) :
    let after := ((Parsing.step host).run.run (parser, state)).2.1
    parser.Persists parser.position after ∧
      ∀ root ∈ parser.roots, root ∈ after.roots := by
  have sound := reachable.sound wellFormed
  have stepped := Parsing.stepped_step wellFormed (leads_persists wellFormed)
    sound state
  obtain ⟨error, isError⟩ := stops
  rw [isError] at stepped
  generalize ((Parsing.step host).run.run (parser, state)).2 = after at stepped ⊢
  cases stepped with
  | notStarted _ => exact ⟨.refl _ _, fun _ isRoot => isRoot⟩
  | failed _ _ persists afterSound =>
      exact ⟨persists, fun _ => persists.root sound afterSound⟩

end Parser

namespace Parsing

variable {σ τ υ : Type}
variable {host : Host σ} {faulty : Host τ} {recovered : Host υ}
variable {grammar : Grammar} {options : CompileOptions}
variable {decide : String → Span → Bool} {mayStop : Prop}
variable {parser failed : Parser} {evaluator : Evaluator} {word : Nat}

/-- Collecting the spans ahead stops if collecting the first of them does. -/
theorem stopsFrom_collectCandidates
    (known : ∀ ahead, parser.words[word]? = some ahead →
      ∀ base : Nat, base ∈ ahead.spans → base < parser.spans.size)
    {done rest : List Collectible}
    (isItems : parser.collectibles word = done ++ rest)
    {state : σ}
    (stops :
      StopsFrom ({ parser with candidates := [] }, state)
        (done.forM (collect host))) :
    StopsFrom (parser, state) (collectCandidates host word) := by
  have stopsAll : StopsFrom ({ parser with candidates := [] }, state)
      ((done ++ rest).forM (collect host)) := by
    rw [List.forM_eq_forM, List.forM_append]
    exact stops.bind _
  obtain ⟨error, isError⟩ := stopsAll
  refine ⟨error, ?_⟩
  rw [coincides_collectCandidates host word known state, isItems]
  exact isError

/--
Spans ahead that were collected in part, until the host failed, are collected
again as if it had not.
-/
theorem mirrors_collectCandidates_resumed
    {faultyState failedState : τ}
    {error : ParseError}
    (wellFormed : grammar.WellFormed)
    (answers : faulty.AnswersAs host decide)
    (recovers : recovered.AnswersAs host decide)
    (calm :
      (host.Undisturbed grammar ∧ recovered.Undisturbed grammar) ∨ mayStop)
    (sound : parser.Sound host grammar options)
    (faultySound :
      (parser.withEvaluator evaluator).Sound faulty grammar options)
    (collected :
      (collectCandidates faulty word).run.run
          (parser.withEvaluator evaluator, faultyState) =
        (.error error, failed, failedState))
    (later : υ)
    (state : σ) :
    Mirrors mayStop (Parser.Agrees grammar options decide) (failed, later)
      (parser, state) (collectCandidates recovered word)
      (collectCandidates host word) := by
  have known : ∀ ahead, parser.words[word]? = some ahead →
      ∀ base : Nat, base ∈ ahead.spans → base < parser.spans.size :=
    fun _ isAhead _ member => (sound.loaded.word_known isAhead member).2
  have failedSound : failed.Sound faulty grammar options := by
    have terms : faulty.Terms grammar True := ⟨wellFormed, .inr trivial⟩
    have stopped := ensures_collectCandidates terms.tests faultySound word faultyState
    rw [collected] at stopped
    exact stopped.1
  have failedAsks : (parser.withEvaluator evaluator).Asks failed := by
    have stopped := asks_collectCandidates faulty word
      (parser.withEvaluator evaluator) faultyState
    rw [collected] at stopped
    exact stopped
  obtain ⟨done, rest, middle, between, isItems, isDone, evaluates, made, ahead⟩ :=
    @exists_collected_of_stops _ _ (parser.withEvaluator evaluator) _ known _ _ _
      _ collected
  have fit := Parser.fits_collectibles known
  rw [show parser.compiled.grammar = grammar by
    rw [sound.loaded.compiled]
    rfl] at fit
  change parser.collectibles word = done ++ rest at isItems
  change (done.forM (collect faulty)).run.run
    (Parser.withEvaluator { parser with candidates := [] } evaluator,
      faultyState) = (.ok (), middle, between) at isDone
  rw [isItems] at fit
  -- What was done so far is done alike with the host that does not fail.
  have begins : Parser.Agrees grammar options decide
      (Parser.withEvaluator { parser with candidates := [] } evaluator,
        faultyState)
      ({ parser with candidates := [] }, state) := by
    exact ⟨rfl, sound.loaded.compiled, sound.loaded.ordered,
      faultySound.remembers.evaluator decide answers.otherDecides,
      sound.remembers.evaluator decide answers.decides⟩
  have alike : AsksAlike True host faulty grammar options
      (Parser.Agrees grammar options decide) :=
    Parser.asksAlike_agrees wellFormed answers (.inr trivial)
  have doneFit : ∀ item ∈ done, item.Fits grammar parser.spans :=
    fun item member => fit item (List.mem_append_left _ member)
  rcases alike.collectAll wellFormed begins doneFit with
    ⟨sameAnswer, agrees⟩ | ⟨-, ⟨error, isError⟩ | stops⟩
  · have hostAsks := Keeps.forM composes_asks (asks_collect host) done
      { parser with candidates := [] } state
    rw [isDone] at sameAnswer agrees
    generalize isHostDone : (done.forM (collect host)).run.run
      ({ parser with candidates := [] }, state) = outcome
      at sameAnswer agrees hostAsks
    obtain ⟨answer, hostMiddle, hostBetween⟩ := outcome
    obtain rfl : .ok () = answer := sameAnswer
    have isMiddle : middle = hostMiddle.withEvaluator middle.evaluator :=
      agrees.same
    obtain ⟨reached, -, rfl⟩ := evaluates
    have resumed : Parser.Agrees grammar options decide
        ({ middle with evaluator := reached }, later)
        (hostMiddle, hostBetween) := by
      have isFailed : { middle with evaluator := reached } =
          hostMiddle.withEvaluator reached := by
        rw [isMiddle]
        rfl
      have reachedSound :=
        failedSound.remembers.evaluator decide answers.otherDecides
      rw [isFailed] at reachedSound ⊢
      exact ⟨rfl, agrees.compiled, agrees.ordered, reachedSound, agrees.right⟩
    have failedKnown : ∀ ahead, middle.words[word]? = some ahead →
        ∀ base : Nat, base ∈ ahead.spans → base < middle.spans.size :=
      fun _ isAhead _ member =>
        (failedSound.loaded.word_known isAhead member).2
    have again := @run_collectCandidates_of_known _ recovered
      { middle with evaluator := reached } word failedKnown done rest
      ((failedAsks.collectibles known).trans isItems) made ahead later
    have whole : (collectCandidates host word).run.run (parser, state) =
        (rest.forM (collect host)).run.run (hostMiddle, hostBetween) := by
      rw [coincides_collectCandidates host word known state, isItems]
      exact Effect.run_forM_append isHostDone rest
    unfold Mirrors StopsFrom
    rw [again, whole]
    refine (Parser.asksAlike_agrees wellFormed recovers calm).collectAll
      wellFormed resumed fun item member => ?_
    exact (fit item (List.mem_append_right _ member)).grows hostAsks.spans
  · cases (congrArg Prod.fst isDone).symm.trans isError
  · have stopsWhole : StopsFrom (parser, state) (collectCandidates host word) :=
      stopsFrom_collectCandidates known isItems stops
    have terms : host.Terms grammar mayStop :=
      ⟨wellFormed, calm.imp_left fun both => ⟨both.1, decide, answers.decides⟩⟩
    exact .inr ⟨((ensures_collectCandidates terms.tests sound word).of_stops
      stopsWhole).2, .inr stopsWhole⟩

/-- Nothing is collected at the end of the input. -/
theorem unfinished_of_collecting_stops
    {state : σ}
    (stops : StopsFrom (parser, state) (collectCandidates host parser.position)) :
    parser.isFinished = false := by
  obtain ⟨error, isError⟩ := stops
  refine decide_eq_false (Nat.not_lt_of_ge ?_)
  refine Nat.le_of_not_lt fun atEnd => ?_
  have nothing : (collectCandidates host parser.position).run.run (parser, state) =
      (.ok (), { parser with candidates := [] }, state) := by
    unfold collectCandidates
    rw [modifyParser, Effect.run_modify_bind, run_get,
      List.getElem?_eq_none (Nat.le_of_lt atEnd)]
    rfl
  rw [nothing] at isError
  cases isError

/-- A step fails as collecting the spans ahead does. -/
theorem run_step_of_collecting_stops
    {state : σ}
    (started : parser.started = true)
    (stops : StopsFrom ({ parser with capped := false }, state)
      (collectCandidates host parser.position)) :
    (step host).run.run (parser, state) =
      (((collectCandidates host parser.position).run.run
          ({ parser with capped := false }, state)).1.map fun _ => false,
        ((collectCandidates host parser.position).run.run
          ({ parser with capped := false }, state)).2) := by
  have unfinished : parser.isFinished = false :=
    @unfinished_of_collecting_stops _ _ { parser with capped := false } _ stops
  obtain ⟨error, isError⟩ := stops
  have begun : (step host).run.run (parser, state) =
      (processWord host parser.position >>= fun _ => do
        modifyParser fun current =>
          { current with position := current.position + 1 }
        return !(← Parsing.parser).isFinished).run.run (parser, state) := by
    unfold step
    rw [run_get, if_neg (by simp [started]), if_neg (by simp [unfinished])]
  have isWord : (processWord host parser.position).run.run (parser, state) =
      (collectCandidates host parser.position >>= fun _ => do
        modifyParser (·.wakeWord parser.position)
        settle host parser.position
          ((← Parsing.parser).workBound parser.position)
        modifyParser (·.finishWord parser.position)).run.run
          ({ parser with capped := false }, state) :=
    rfl
  rw [begun]
  simp only [ExceptT.run_bind, StateT.run_bind] at isWord ⊢
  rw [isWord]
  generalize (collectCandidates host parser.position).run.run
    ({ parser with capped := false }, state) = outcome at isError ⊢
  obtain ⟨answer, after⟩ := outcome
  obtain rfl : answer = .error error := isError
  rfl

/-- A step that failed while spans ahead were collected is taken again as if it had not. -/
theorem mirrors_step_resumed
    {faultyState : τ}
    (wellFormed : grammar.WellFormed)
    (answers : faulty.AnswersAs host decide)
    (recovers : recovered.AnswersAs host decide)
    (calm :
      (host.Undisturbed grammar ∧ recovered.Undisturbed grammar) ∨ mayStop)
    (sound : parser.Sound host grammar options)
    (faultySound :
      (parser.withEvaluator evaluator).Sound faulty grammar options)
    (started : parser.started = true)
    (collecting :
      StopsFrom
        ({ parser.withEvaluator evaluator with capped := false }, faultyState)
        (collectCandidates faulty parser.position))
    (later : υ)
    (state : σ) :
    Mirrors mayStop (Parser.Agrees grammar options decide)
      (((step faulty).run.run
        (parser.withEvaluator evaluator, faultyState)).2.1, later)
      (parser, state) (step recovered) (step host) := by
  have unfinished : parser.isFinished = false :=
    @unfinished_of_collecting_stops _ _
      { parser.withEvaluator evaluator with capped := false } _ collecting
  have uncapped : Parser.Sound host { parser with capped := false }
      grammar options :=
    sound.dropWork _ _ (List.Subset.refl _) _
  have faultyUncapped : Parser.Sound faulty
      (Parser.withEvaluator { parser with capped := false } evaluator)
      grammar options :=
    faultySound.dropWork _ _ (List.Subset.refl _) _
  rw [@run_step_of_collecting_stops _ _ (parser.withEvaluator evaluator) _ started
    collecting]
  change Mirrors _ _ (((collectCandidates faulty parser.position).run.run
    (Parser.withEvaluator { parser with capped := false } evaluator,
      faultyState)).2.1, later) _ _ _
  obtain ⟨error, isError⟩ := collecting
  change ((collectCandidates faulty parser.position).run.run
    (Parser.withEvaluator { parser with capped := false } evaluator,
      faultyState)).1 = _ at isError
  have asks := asks_collectCandidates faulty parser.position
    (Parser.withEvaluator { parser with capped := false } evaluator) faultyState
  generalize collected : (collectCandidates faulty parser.position).run.run
    (Parser.withEvaluator { parser with capped := false } evaluator,
      faultyState) = outcome at isError asks ⊢
  obtain ⟨answer, failed, failedState⟩ := outcome
  obtain rfl : answer = .error error := isError
  have asks : (Parser.withEvaluator { parser with capped := false }
    evaluator).Asks failed := asks
  have sameCapped : { failed with capped := false } = failed := by
    rw [asks.same]
    rfl
  have again := mirrors_collectCandidates_resumed wellFormed answers recovers calm
    uncapped faultyUncapped collected later state
  rw [← attemptStep_reducePath recovered]
  refine (Parser.lockstep_agrees wellFormed recovers calm).step_of_collects
    wellFormed sound started unfinished ?_ ?_ ?_ (sameCapped.symm ▸ again)
  · rw [asks.same]
    rfl
  · rw [asks.same]
    rfl
  · rw [asks.same]
    rfl

end Parsing

namespace Parser

variable {σ τ υ : Type}
variable {host : Host σ} {faulty : Host τ} {recovered : Host υ}
variable {grammar : Grammar} {options : CompileOptions}
variable {decide : String → Span → Bool} {mayStop : Prop}
variable {parser : Parser} {state : σ}

/-- No step of a run fails before some number of steps. -/
def GoesOn
    (host : Host σ)
    (count : Nat)
    (run : Parser × σ) : Prop :=
  ∀ earlier < count,
    ¬ StopsFrom (afterSteps host earlier run) (Parsing.step host)

instance (count : Nat) (run : Parser × σ) : Decidable (GoesOn host count run) :=
  inferInstanceAs (Decidable (∀ earlier < count,
    ¬ StopsFrom (afterSteps host earlier run) (Parsing.step host)))

/-- A step that succeeds gets ahead, unless there is nothing ahead. -/
theorem Sound.step_onward
    (wellFormed : grammar.WellFormed)
    (sound : parser.Sound host grammar options)
    (started : parser.started = true)
    (succeeds : ¬ StopsFrom (parser, state) (Parsing.step host)) :
    ∃ remains after changed, (Parsing.step host).run.run (parser, state) =
        (.ok remains, after, changed) ∧
      after.Sound host grammar options ∧ after.started = true ∧
      remains = (!after.isFinished) ∧
      (parser.isFinished = true ∧ after = parser ∨
        after.numWords = parser.numWords ∧
          after.position = parser.position + 1) := by
  have terms : host.Terms grammar True := ⟨wellFormed, .inr trivial⟩
  have stepped := Parsing.ensures_step terms (fun _ => Kept.anything) sound
    (.inl started) (fun _ _ _ _ => trivial) state
  have afterSound := sound.step wellFormed state
  unfold StopsFrom at succeeds
  generalize (Parsing.step host).run.run (parser, state) = outcome
    at stepped afterSound succeeds
  obtain ⟨answer, after, changed⟩ := outcome
  cases answer with
  | error error => exact absurd ⟨error, rfl⟩ succeeds
  | ok remains =>
      refine ⟨remains, after, changed, rfl, afterSound, ?_⟩
      rcases stepped with ⟨rfl, isFinished, rfl⟩ |
        ⟨-, _, _, finished, processed, -, rfl, isRemains⟩
      · exact ⟨started, by simp [isFinished], .inl ⟨isFinished, rfl⟩⟩
      · exact ⟨processed.grows.started.trans started, isRemains,
          .inr ⟨congrArg List.length processed.grows.words, rfl⟩⟩

/-- A parse that goes on comes to its end. -/
theorem Sound.afterSteps_onward
    (wellFormed : grammar.WellFormed)
    (sound : parser.Sound host grammar options)
    (started : parser.started = true)
    {count : Nat}
    (goesOn : GoesOn host count (parser, state)) :
    let last := (Parser.afterSteps host count (parser, state)).1
    last.started = true ∧
      (parser.numWords < parser.position + count → last.isFinished = true) := by
  induction count generalizing parser state with
  | zero => exact ⟨started, fun beyond => decide_eq_true beyond⟩
  | succ count inductionHypothesis =>
      obtain ⟨remains, after, changed, isStep, afterSound, stillStarted, -, gets⟩ :=
        sound.step_onward wellFormed started (goesOn 0 (Nat.succ_pos count))
      have isNext : ∀ count, Parser.afterSteps host (count + 1) (parser, state) =
          Parser.afterSteps host count (after, changed) := by
        intro count
        rw [Parser.afterSteps, isStep]
      have onward : GoesOn host count (after, changed) := by
        intro earlier isEarlier
        rw [← isNext]
        exact goesOn (earlier + 1) (Nat.succ_lt_succ isEarlier)
      obtain ⟨lastStarted, ends⟩ :=
        inductionHypothesis afterSound stillStarted onward
      rw [isNext]
      refine ⟨lastStarted, fun enough => ?_⟩
      rcases gets with ⟨isFinished, rfl⟩ | ⟨words, position⟩
      · rw [afterSteps_of_isFinished started isFinished]
        exact isFinished
      · exact ends (by omega)

/-- A parse that nothing disturbs goes on. -/
theorem Sound.goesOn
    (terms : host.Terms grammar False)
    (sound : parser.Sound host grammar options)
    (started : parser.started = true)
    (state : σ)
    (count : Nat) :
    GoesOn host count (parser, state) := by
  induction count with
  | zero => exact fun _ none => absurd none (Nat.not_lt_zero _)
  | succ count inductionHypothesis =>
      have lastSound := sound.afterSteps terms.wellFormed state count
      obtain ⟨lastStarted, -⟩ := sound.afterSteps_onward terms.wellFormed started
        inductionHypothesis
      intro earlier isEarlier
      rcases Nat.lt_succ_iff_lt_or_eq.mp isEarlier with before | rfl
      · exact inductionHypothesis earlier before
      · have stepped := Parsing.ensures_step terms (fun _ => Kept.anything)
          lastSound (.inl lastStarted) fun _ _ _ _ => trivial
        exact fun stops => (stepped.of_stops stops).2

namespace Agrees

variable {first : Parser × υ} {second : Parser × σ}

/-- Steps with hosts that agree answer the same, unless one of them ends the parse. -/
theorem step
    (wellFormed : grammar.WellFormed)
    (answers : recovered.AnswersAs host decide)
    (calm :
      (host.Undisturbed grammar ∧ recovered.Undisturbed grammar) ∨ mayStop)
    (begins : Agrees grammar options decide first second)
    (sound : second.1.Sound host grammar options) :
    Mirrors mayStop (Agrees grammar options decide) first second
      (Parsing.step recovered) (Parsing.step host) := by
  obtain ⟨firstParser, left⟩ := first
  obtain ⟨evaluator, rfl⟩ : ∃ evaluator,
      firstParser = second.1.withEvaluator evaluator :=
    ⟨_, begins.same⟩
  exact Parsing.attemptStep_reducePath recovered ▸
    (lockstep_agrees wellFormed answers calm).step wellFormed begins sound

/-- Runs with hosts that agree stay in agreement. -/
theorem afterSteps
    (wellFormed : grammar.WellFormed)
    (answers : recovered.AnswersAs host decide)
    (calm :
      (host.Undisturbed grammar ∧ recovered.Undisturbed grammar) ∨ mayStop)
    (begins : Agrees grammar options decide first second)
    (sound : second.1.Sound host grammar options)
    (count : Nat)
    (goesOn : mayStop → GoesOn recovered count first ∧ GoesOn host count second) :
    Agrees grammar options decide (Parser.afterSteps recovered count first)
      (Parser.afterSteps host count second) := by
  have steps := (lockstep_agrees wellFormed answers calm).steps wellFormed begins
    sound count
  simp only [Parsing.attemptSteps_reducePath, Parsing.attemptStep_reducePath]
    at steps
  exact steps fun may earlier isEarlier =>
    ⟨(goesOn may).1 earlier isEarlier, (goesOn may).2 earlier isEarlier⟩

/--
A parse that failed while spans ahead were collected, and goes on, agrees with one
that has not failed.
-/
theorem resumes
    {failing : Parser × τ}
    (wellFormed : grammar.WellFormed)
    (answers : faulty.AnswersAs host decide)
    (recovers : recovered.AnswersAs host decide)
    (calm :
      (host.Undisturbed grammar ∧ recovered.Undisturbed grammar) ∨ mayStop)
    (agrees : Agrees grammar options decide failing second)
    (sound : second.1.Sound host grammar options)
    (faultySound : failing.1.Sound faulty grammar options)
    (started : second.1.started = true)
    (collecting :
      StopsFrom ({ failing.1 with capped := false }, failing.2)
        (Parsing.collectCandidates faulty failing.1.position))
    (later : υ)
    (count : Nat)
    (goesOn : mayStop →
      GoesOn recovered (count + 1)
          (((Parsing.step faulty).run.run failing).2.1, later) ∧
        GoesOn host (count + 1) second) :
    let resumed := (Parsing.step recovered).run.run
      (Parser.afterSteps recovered count
        (((Parsing.step faulty).run.run failing).2.1, later))
    let whole := (Parsing.step host).run.run
      (Parser.afterSteps host count second)
    resumed.1 = whole.1 ∧
      Agrees grammar options decide resumed.2 whole.2 := by
  obtain ⟨failingParser, faultyState⟩ := failing
  obtain ⟨evaluator, rfl⟩ : ∃ evaluator,
      failingParser = second.1.withEvaluator evaluator :=
    ⟨_, agrees.same⟩
  have again := (Parsing.mirrors_step_resumed wellFormed answers recovers calm
    sound faultySound started collecting later second.2).alikeAfter fun may =>
      ⟨(goesOn may).1 0 (Nat.succ_pos count), (goesOn may).2 0 (Nat.succ_pos count)⟩
  cases count with
  | zero => exact again
  | succ count =>
      have nextSound := sound.step wellFormed second.2
      have behind := again.2.afterSteps wellFormed recovers calm nextSound count
        fun may =>
          ⟨fun earlier isEarlier => (goesOn may).1 (earlier + 1) (by omega),
            fun earlier isEarlier => (goesOn may).2 (earlier + 1) (by omega)⟩
      exact (behind.step wellFormed recovers calm
        (nextSound.afterSteps wellFormed _ count)).alikeAfter fun may =>
          ⟨(goesOn may).1 (count + 1) (Nat.lt_succ_self _),
            (goesOn may).2 (count + 1) (Nat.lt_succ_self _)⟩

end Agrees

/-- A parse that is finished has no further step to take. -/
theorem run_step_of_isFinished
    (started : parser.started = true)
    (finished : parser.isFinished = true)
    (state : σ) :
    (Parsing.step host).run.run (parser, state) =
      (.ok false, parser, state) := by
  unfold Parsing.step
  rw [Parsing.run_get, if_neg (by simp [started]), if_pos finished]
  rfl

/-- A parse that nothing disturbs comes to its last step. -/
theorem Sound.lastStep
    (terms : host.Terms grammar False)
    (sound : parser.Sound host grammar options)
    (started : parser.started = true)
    (state : σ)
    (count : Nat)
    (enough : parser.numWords < parser.position + count) :
    ((Parsing.step host).run.run
      (Parser.afterSteps host count (parser, state))).1 = .ok false := by
  obtain ⟨stillStarted, ends⟩ := sound.afterSteps_onward terms.wellFormed started
    (sound.goesOn terms started state count)
  exact congrArg Prod.fst (run_step_of_isFinished stillStarted (ends enough) _)

/--
A parse that failed for the first time while spans ahead were collected, and goes
on, does what it would have done without failing.
-/
theorem Sound.resumes
    {faultyState : τ}
    {early count : Nat}
    (wellFormed : grammar.WellFormed)
    (answers : faulty.AnswersAs host decide)
    (recovers : recovered.AnswersAs host decide)
    (calm :
      (host.Undisturbed grammar ∧ recovered.Undisturbed grammar) ∨ mayStop)
    (sound : parser.Sound host grammar options)
    (faultySound : parser.Sound faulty grammar options)
    (started : parser.started = true)
    (state : σ)
    (later : υ) :
    let failing := Parser.afterSteps faulty early (parser, faultyState)
    let failed := ((Parsing.step faulty).run.run failing).2.1
    GoesOn faulty early (parser, faultyState) →
    StopsFrom ({ failing.1 with capped := false }, failing.2)
      (Parsing.collectCandidates faulty failing.1.position) →
    (mayStop → GoesOn host (early + (count + 1)) (parser, state) ∧
      GoesOn recovered (count + 1) (failed, later)) →
    let resumed := (Parsing.step recovered).run.run
      (Parser.afterSteps recovered count (failed, later))
    let whole := (Parsing.step host).run.run
      (Parser.afterSteps host (early + count) (parser, state))
    resumed.1 = whole.1 ∧
      resumed.2.1 = whole.2.1.withEvaluator resumed.2.1.evaluator := by
  intro failing failed faultyGoesOn collecting goesOn
  have hostGoesOn : GoesOn host early (parser, state) := by
    rcases calm with ⟨undisturbed, -⟩ | may
    · exact sound.goesOn
        ⟨wellFormed, .inl ⟨undisturbed, decide, answers.decides⟩⟩ started state
        early
    · exact fun earlier isEarlier => (goesOn may).1 earlier (by omega)
  obtain ⟨stillStarted, -⟩ :=
    sound.afterSteps_onward wellFormed started hostGoesOn
  -- Nothing tells the runs apart before the step that fails.
  have agrees : Agrees grammar options decide failing
      (Parser.afterSteps host early (parser, state)) :=
    (sound.agrees answers.decides faultyState state).afterSteps wellFormed
      answers (.inr trivial) sound early fun _ => ⟨faultyGoesOn, hostGoesOn⟩
  have resumed := agrees.resumes wellFormed answers recovers calm
    (sound.afterSteps wellFormed state early)
    (faultySound.afterSteps wellFormed faultyState early) stillStarted collecting
    later count fun may => ⟨(goesOn may).2, fun earlier isEarlier => by
      rw [← afterSteps_add]
      exact (goesOn may).1 (early + earlier) (by omega)⟩
  rw [← afterSteps_add] at resumed
  exact ⟨resumed.1, resumed.2.same⟩

/--
A step that fails counts no word and loses nothing that the parse held. If it is
the first to fail, and failed while the spans ahead were collected, the parse goes
on with a host that answers as `host` does as if it had had `host` from the start:
each step answers the same and leads to the same parse, up to the truth values that
are in memory, and if nothing disturbs the hosts the parse comes to its last step.
-/
theorem Reachable.failed_step_resumed
    {builder : GrammarBuilder}
    {config : ParserConfig}
    (built : builder.build = .ok grammar)
    (reachable : Reachable faulty (grammar.compile options) config parser)
    (document : Document)
    (input : List InputSpan)
    (faultyState : τ)
    (early : Nat)
    (fails :
      StopsFrom
        (Parser.afterSteps faulty early
          (parser.start document input, faultyState))
        (Parsing.step faulty)) :
    let begun := parser.start document input
    let failing := Parser.afterSteps faulty early (begun, faultyState)
    let failed := ((Parsing.step faulty).run.run failing).2.1
    (failing.1.Persists failing.1.position failed ∧
      ∀ root ∈ failing.1.roots, root ∈ failed.roots) ∧
    (GoesOn faulty early (begun, faultyState) →
      StopsFrom ({ failing.1 with capped := false }, failing.2)
        (Parsing.collectCandidates faulty failing.1.position) →
      faulty.AnswersAs host decide →
      recovered.AnswersAs host decide →
      ∀ (state : σ) (later : υ),
        (∀ count,
          (host.Undisturbed grammar ∧ recovered.Undisturbed grammar) ∨
            (GoesOn host (early + (count + 1)) (begun, state) ∧
              GoesOn recovered (count + 1) (failed, later)) →
          let resumed := (Parsing.step recovered).run.run
            (Parser.afterSteps recovered count (failed, later))
          let whole := (Parsing.step host).run.run
            (Parser.afterSteps host (early + count) (begun, state))
          resumed.1 = whole.1 ∧
            resumed.2.1 = whole.2.1.withEvaluator resumed.2.1.evaluator) ∧
        (host.Undisturbed grammar ∧ recovered.Undisturbed grammar →
          ∃ count, ((Parsing.step recovered).run.run
            (Parser.afterSteps recovered count (failed, later))).1 =
              .ok false)) := by
  intro begun failing failed
  have wellFormed := GrammarBuilder.wellFormed_of_build built
  have begins : Reachable faulty (grammar.compile options) config begun :=
    reachable.start document input
  refine ⟨(begins.afterSteps faultyState early).persists_step wellFormed fails, ?_⟩
  intro faultyGoesOn collecting answers recovers state later
  have fresh := fresh_start (reachable.sound wellFormed).loaded.compiled document
    input
  have resumes := fun mayStop calm count => @Sound.resumes _ _ _ host faulty
    recovered grammar options decide mayStop begun faultyState early count
    wellFormed answers recovers calm (fresh.sound host) (fresh.sound faulty) rfl
    state later faultyGoesOn collecting
  refine ⟨fun count calm => ?_, fun undisturbed => ?_⟩
  · rcases calm with undisturbed | goesOn
    · exact resumes False (.inl undisturbed) count False.elim
    · exact resumes True (.inr trivial) count fun _ => goesOn
  · have last := (fresh.sound host).lastStep
      ⟨wellFormed, .inl ⟨undisturbed.1, decide, answers.decides⟩⟩ rfl state
      (early + (begun.numWords + 1))
      (show begun.numWords < begun.position + (early + (begun.numWords + 1)) by
        omega)
    exact ⟨_, (resumes False (.inl undisturbed) _ False.elim).1.trans last⟩

end Parser

section Sample

/-- Declarations of names, which are words that the host knows. -/
def namesBuilder : GrammarBuilder where
  terminals := ["Word"]
  rules := [⟨"S", [⟨"Name", none, none⟩], 0, none, none⟩]
  predicates := ⟨#[.custom "known"], by decide⟩
  start := some "S"
  defaultGreedy := none
  defaultWeight := none
  synthesized := [⟨"Name", "Word", 0⟩]
  outputs := []

/-- The grammar `S → Name` in numbers, where names are words that the host knows. -/
def namesGrammar : Grammar where
  symbols :=
    #[⟨"$", false⟩, ⟨"ε", false⟩, ⟨"S'", true⟩, ⟨"S", true⟩, ⟨"Word", false⟩,
      ⟨"Name", false⟩]
  rules := #[⟨0, 3, [⟨5, none, none⟩], 0, 1.0, false⟩]
  start := 3
  predicates := ⟨#[.custom "known"], by decide⟩
  synthesized := [⟨5, 4, 0⟩]
  outputs := BitSet.ofList []

/-- Building the declarations yields the grammar. -/
theorem build_namesBuilder :
    namesBuilder.build = .ok namesGrammar := by
  simp [namesBuilder, namesGrammar, GrammarBuilder.build,
    GrammarBuilder.addNonterminals, GrammarBuilder.addTerminals,
    GrammarBuilder.addSynthesized, GrammarBuilder.checkOperands,
    GrammarBuilder.requirePredicate,
    GrammarBuilder.resolveRules, GrammarBuilder.resolveRule,
    GrammarBuilder.resolveElement, GrammarBuilder.resolveStart,
    requireSymbol, addSymbol, findSymbol?, reservedSymbols, maxSymbols,
    rootSymbol, Predicate.operands, List.findIdx?_cons, Alphabet.size,
    Alphabet.toList, bind, Except.bind, pure, Except.pure]

/-- A host that knows every word. -/
def Host.knowing {σ : Type} : Host σ where
  execute := Host.inheriting.execute
  test _ _ _ state := (.ok true, state)

/-- A host that knows every word but the second that it is asked for, where it gives up. -/
def Host.stumbling : Host Nat where
  execute := Host.inheriting.execute
  test _ _ _ asked :=
    (if asked = 1 then .error (.fatal "lexicon missing") else .ok true,
      asked + 1)

/-- A host that gives up at the first action. -/
def Host.hesitant : Host Bool where
  execute context rule target rhs begun :=
    if begun then
      Host.inheriting.execute context rule target rhs begun
    else
      (.error (.fatal "not ready"), true)
  test := Host.inheriting.test

theorem Host.decides_knowing {σ : Type} :
    (Host.knowing : Host σ).Decides fun _ _ => true where
  answer answered := by
    cases answered
    rfl
  rejection rejected := by cases rejected

theorem Host.decides_stumbling :
    Host.stumbling.Decides fun _ _ => true where
  answer {_ _ _ asked _} answered := by
    simp only [Host.stumbling] at answered
    split at answered
    · cases answered
    · cases answered
      rfl
  rejection {_ _ _ asked _} rejected := by
    simp only [Host.stumbling] at rejected
    split at rejected
    · cases rejected
    · cases rejected

theorem Host.undisturbed_knowing {σ : Type} :
    (Host.knowing : Host σ).Undisturbed namesGrammar where
  tests _ _ _ _ _ fatal := by cases fatal
  actions _ _ _ _ _ _ fatal := by cases fatal
  operands := by
    refine PredicateAlphabet.acyclic_of_operands_lt fun id operand member => ?_
    match id with
    | 0 => cases member
    | id + 1 => cases member

namespace Parser

/-- The extents of the roots of a parse. -/
def rootExtents (parser : Parser) : List (Nat × Nat) :=
  parser.roots.map fun root =>
    ((parser.spanOf root).start, (parser.spanOf root).stop)

/-- A parse of two words that may be names. -/
def namesStart : Parser :=
  (new (namesGrammar.compile {}) {}).start ⟨"big dog"⟩
    [⟨"Word", 0, 3, Features.empty⟩, ⟨"Word", 4, 5, Features.empty⟩]

/-- The parse as the second word is asked for. -/
def namesAsking : Parser × Nat :=
  afterSteps Host.stumbling 1 (namesStart, 0)

/-- The parse after the host gave up at the second word. -/
def namesFailed : Parser :=
  ((Parsing.step Host.stumbling).run.run namesAsking).2.1

private theorem namesAsking_facts :
    StopsFrom namesAsking (Parsing.step Host.stumbling) ∧
      GoesOn Host.stumbling 1 (namesStart, 0) ∧
      StopsFrom ({ namesAsking.1 with capped := false }, namesAsking.2)
        (Parsing.collectCandidates Host.stumbling namesAsking.1.position) ∧
      (afterSteps Host.knowing 3 (namesStart, ())).1.rootExtents =
        [(0, 3), (4, 5)] := by
  decide +kernel

/-- A parse goes on at the second word after the host gave up there. -/
theorem failed_step_resumed_names :
    namesBuilder.build = .ok namesGrammar ∧
      Reachable Host.stumbling (namesGrammar.compile {}) {}
        (new (namesGrammar.compile {}) {}) ∧
      StopsFrom namesAsking (Parsing.step Host.stumbling) ∧
      GoesOn Host.stumbling 1 (namesStart, 0) ∧
      StopsFrom ({ namesAsking.1 with capped := false }, namesAsking.2)
        (Parsing.collectCandidates Host.stumbling namesAsking.1.position) ∧
      Host.stumbling.AnswersAs (Host.knowing : Host Unit) (fun _ _ => true) ∧
      (Host.knowing : Host Unit).AnswersAs (Host.knowing : Host Unit)
        (fun _ _ => true) ∧
      (Host.knowing : Host Unit).Undisturbed namesGrammar ∧
      namesFailed.position = namesAsking.1.position ∧
      (afterSteps Host.knowing 2 (namesFailed, ())).1.roots =
        (afterSteps Host.knowing 3 (namesStart, ())).1.roots ∧
      (afterSteps Host.knowing 3 (namesStart, ())).1.rootExtents =
        [(0, 3), (4, 5)] := by
  obtain ⟨fails, goesOn, collecting, extents⟩ := namesAsking_facts
  have begun : Reachable Host.stumbling (namesGrammar.compile {}) {}
      (new (namesGrammar.compile {}) {}) :=
    .new
  have stumbles : Host.stumbling.AnswersAs (Host.knowing : Host Unit)
      (fun _ _ => true) :=
    ⟨Host.decides_knowing, Host.decides_stumbling, fun _ _ _ _ _ _ => .inl rfl⟩
  have knows : (Host.knowing : Host Unit).AnswersAs (Host.knowing : Host Unit)
      (fun _ _ => true) :=
    ⟨Host.decides_knowing, Host.decides_knowing, fun _ _ _ _ _ _ => .inl rfl⟩
  obtain ⟨⟨persists, -⟩, resumes⟩ := Reachable.failed_step_resumed
    build_namesBuilder begun ⟨"big dog"⟩
    [⟨"Word", 0, 3, Features.empty⟩, ⟨"Word", 4, 5, Features.empty⟩] 0 1 fails
  obtain ⟨same, -⟩ := resumes goesOn collecting stumbles knows () ()
  have sameRoots := congrArg Parser.roots
    (same 1 (.inl ⟨Host.undisturbed_knowing, Host.undisturbed_knowing⟩)).2
  exact ⟨build_namesBuilder, begun, fails, goesOn, collecting, stumbles, knows,
    Host.undisturbed_knowing, persists.position, sameRoots, extents⟩

/--
A reduction that the host gave up is not tried again: the phrase of the first word
is missing in the end, and so is the one of both words.
-/
theorem failed_reduction_lost_nested :
    nestedBuilder.build = .ok nestedGrammar ∧
      (∀ context rule target rhs,
        Host.hesitant.execute context rule target rhs true =
          Host.inheriting.execute context rule target rhs true) ∧
      (∀ name context span,
        Host.hesitant.test name context span true =
          Host.inheriting.test name context span true) ∧
      (∀ earlier < 4,
        ((Parsing.step Host.hesitant).run.run
          (afterSteps Host.hesitant earlier (nestedStart, false))).1 =
            if earlier = 1 then .error (.action 0 3 (.fatal "not ready"))
            else .ok (decide (earlier < 3))) ∧
      (afterSteps Host.hesitant 2 (nestedStart, false)).2 = true ∧
      (afterSteps Host.hesitant 4 (nestedStart, false)).1.rootExtents =
        [(4, 5)] ∧
      (afterSteps Host.inheriting 3 (nestedStart, ())).1.isFinished = true ∧
      (afterSteps Host.inheriting 3 (nestedStart, ())).1.rootExtents =
        [(0, 5)] := by
  refine ⟨build_nestedBuilder, fun _ _ _ _ => rfl, fun _ _ _ => rfl, ?_⟩
  decide +kernel

end Parser

end Sample

end SpanForest
