import SpanForest.Proofs.Parser.Covering
import SpanForest.Proofs.Parser.Reachable

namespace SpanForest

/-!
# Words that were worked out

When a word was processed without reaching its limit, every span ahead was read
on top of every state node that reads it, and every rule that a state reduces
before a span ahead was applied along every way. This stays true of the word
while later words are processed, which neither link anything further below its
nodes nor add spans to those that were ahead.
-/

namespace Parser

variable {σ : Type} {host : Host σ}
variable {grammar : Grammar} {options : CompileOptions} {word : Nat}
variable {before collected settled after parser : Parser}

/-- The spans that are collected at a word. -/
inductive Candidate (parser : Parser) (word : Nat) : Nat → Prop where
  | input {ahead : InputWord} {id : Nat} :
      parser.words[word]? = some ahead →
      id ∈ ahead.spans →
      Candidate parser word id
  | synthesized
      {ahead : InputWord}
      {base id : Nat}
      {symbol : SymbolId}
      {declaration : Synthesized} :
      parser.words[word]? = some ahead →
      base ∈ ahead.spans →
      (parser.spans.get base).symbol = some symbol →
      declaration ∈ parser.compiled.synthesizedFrom symbol →
      parser.synthesized[((base, declaration.symbol) : SpanId × SymbolId)]? =
        some (some id) →
      Candidate parser word id

/-- The symbols of the spans ahead at a word, and the end of the input. -/
def LooksAhead (parser : Parser) (word : Nat) (symbol : SymbolId) : Prop :=
  symbol = endOfInput ∨
    ∃ id, parser.Candidate word id ∧
      (parser.spans.get id).symbol = some symbol

/-- What is synthesized from the spans of a word was synthesized. -/
def AllDrawn (parser : Parser) (word : Nat) : Prop :=
  ∀ ahead, parser.words[word]? = some ahead → ∀ base : Nat, base ∈ ahead.spans →
    ∀ symbol, (parser.spans.get base).symbol = some symbol →
      ∀ declaration ∈ parser.compiled.synthesizedFrom symbol,
        ∃ made,
          parser.synthesized[((base, declaration.symbol) : SpanId × SymbolId)]? =
            some made

/-- Every span ahead at a word was read wherever it can be read. -/
def AllRead (parser : Parser) (word : Nat) : Prop :=
  ∀ node : Nat, parser.ActsAt word node →
    ∀ id : Nat, parser.Candidate word id →
      ∀ symbol target, (parser.spans.get id).symbol = some symbol →
        parser.compiled.table.goto? (parser.stack.stateNode node).state symbol =
            some target →
          parser.HasRead word ⟨node, id, target⟩

/-- Every rule was applied at a word wherever it is to be reduced. -/
def AllReduced (host : Host σ) (parser : Parser) (word : Nat) : Prop :=
  ∀ holder : Nat, holder ∈ (parser.stack.layer word).nodes →
    ∀ symbol, parser.LooksAhead word symbol →
      ∀ rule ∈ (parser.compiled.table.get
          (parser.stack.stateNode holder).state symbol).reduces,
        ∀ anchor : Nat, anchor ∈ (parser.stack.stateNode holder).children →
          ∀ through : Nat, through ∈ (parser.stack.symbolNode anchor).children →
            parser.WaySettled host word rule anchor through

/-- A word that was worked out. -/
structure Completed (host : Host σ) (word : Nat) (parser : Parser) : Prop where
  drawn : parser.AllDrawn word
  read : parser.AllRead word
  reduced : parser.AllReduced host word

/-- A candidate can be read as what it is. -/
theorem Candidate.readable
    (sound : parser.Sound host grammar options)
    {id : Nat}
    (candidate : parser.Candidate word id)
    {symbol : SymbolId}
    (isSymbol : (parser.spans.get id).symbol = some symbol) :
    parser.Readable host id symbol := by
  cases candidate with
  | input isAhead member =>
      exact .input (sound.loaded.word_known isAhead member).1 isSymbol
  | synthesized isAhead member _ _ stored =>
      obtain ⟨own, -, synthesizes⟩ := sound.remembers.synthesized _ _ _ stored
      have readable := Readable.synthesized synthesizes
      rw [(readable.stored sound.loaded.ordered).2] at isSymbol
      exact Option.some.inj isSymbol ▸ readable

theorem Candidate.committed
    (sound : parser.Sound host grammar options)
    {id : Nat}
    (candidate : parser.Candidate word id) :
    id < parser.spans.size := by
  cases candidate with
  | input isAhead member => exact (sound.loaded.word_known isAhead member).2
  | synthesized _ _ _ _ stored =>
      obtain ⟨own, -, synthesizes⟩ := sound.remembers.synthesized _ _ _ stored
      exact ((Readable.synthesized synthesizes).stored sound.loaded.ordered).1

section Growth

variable {since : Nat} (sound : before.Sound host grammar options)
variable (later : before.Grows since after) (retains : before.Retains after)
include sound later retains

theorem AllDrawn.grows
    (drawn : before.AllDrawn word) :
    after.AllDrawn word := by
  intro ahead isAhead base member symbol isSymbol declaration declared
  rw [later.words] at isAhead
  rw [later.compiled] at declared
  rw [(later.spans.get (sound.loaded.word_known isAhead member).2).2]
    at isSymbol
  obtain ⟨made, stored⟩ :=
    drawn ahead isAhead base member symbol isSymbol declaration declared
  exact ⟨made, retains _ _ stored⟩

/-- No candidates are added once what can be synthesized was synthesized. -/
theorem Candidate.of_grows
    (drawn : before.AllDrawn word)
    {id : Nat}
    (candidate : after.Candidate word id) :
    before.Candidate word id := by
  cases candidate with
  | input isAhead member => exact .input (later.words ▸ isAhead) member
  | synthesized isAhead member isSymbol declared stored =>
      rw [later.words] at isAhead
      rw [later.compiled] at declared
      rw [(later.spans.get (sound.loaded.word_known isAhead member).2).2]
        at isSymbol
      obtain ⟨made, isMade⟩ :=
        drawn _ isAhead _ member _ isSymbol _ declared
      rw [retains _ _ isMade] at stored
      exact .synthesized isAhead member isSymbol declared
        (isMade.trans stored)

theorem LooksAhead.of_grows
    (drawn : before.AllDrawn word)
    {symbol : SymbolId}
    (ahead : after.LooksAhead word symbol) :
    before.LooksAhead word symbol := by
  refine ahead.imp_right fun ⟨id, candidate, isSymbol⟩ => ?_
  have was := candidate.of_grows sound later retains drawn
  exact ⟨id, was,
    (congrArg Span.symbol (later.spans.get (was.committed sound)).2).symm.trans
      isSymbol⟩

end Growth

/-- Rules that were applied wherever they can be need not be applied later. -/
theorem AllReduced.grows
    {since : Nat}
    (sound : before.Sound host grammar options)
    (grows : before.Grows since after)
    (early : word < since)
    (retains : before.Retains after)
    (consistent : after.stack.Consistent after.compiled.table)
    (drawn : before.AllDrawn word)
    (reduced : before.AllReduced host word) :
    after.AllReduced host word := by
  intro holder listed symbol ahead rule isRule anchor held through below
  rw [grows.stack.mem_layer_of_lt sound.stack consistent early] at listed
  obtain ⟨inside, isWord⟩ := (sound.stack.mem_layer holder word).mp listed
  have same := grows.stack.state holder inside
  have settledWord : WordBefore (before.stack.stateNode holder).word since := by
    intro own isOwn
    rw [isWord] at isOwn
    cases isOwn
    exact early
  rw [same.settled settledWord] at held
  have fits := sound.stack.fits_of_mem held
  have anchorInside := sound.stack.child_known holder anchor held
  rw [(grows.stack.symbol anchor anchorInside).settled
    (fits.word.symm ▸ settledWord)] at below
  rw [grows.compiled, same.state] at isRule
  obtain ⟨-, throughInside, earlier⟩ := sound.way_placed listed held below
  have sinceWord : before.Grows word after :=
    { grows with stack := grows.stack.since_le (Nat.le_of_lt early) }
  exact (reduced holder listed symbol
    (ahead.of_grows sound grows retains drawn) rule isRule anchor held through
    below).grows sound sinceWord consistent anchorInside throughInside earlier

/-- What was read stays where it is. -/
theorem AllRead.grows
    {since : Nat}
    (sound : before.Sound host grammar options)
    (grows : before.Grows since after)
    (early : word < since)
    (retains : before.Retains after)
    (consistent : after.stack.Consistent after.compiled.table)
    (drawn : before.AllDrawn word)
    (read : before.AllRead word) :
    after.AllRead word := by
  intro node acts id candidate symbol target isSymbol leads
  have wasCandidate := candidate.of_grows sound grows retains drawn
  have committed := wasCandidate.committed sound
  have wasActing : before.ActsAt word node := by
    refine (grows.actsAt acts).elim (fun listed => .inl ?_) fun acting => acting
    exact (grows.stack.mem_layer_of_lt sound.stack consistent early node).mp
      listed
  have inside : node < before.stack.states.size := by
    rcases wasActing with listed | ⟨isStart, -⟩
    · exact ((sound.stack.mem_layer node word).mp listed).1
    · exact isStart ▸ sound.stack.start_inside
  rw [(grows.spans.get committed).2] at isSymbol
  rw [grows.compiled, (grows.stack.state node inside).state] at leads
  exact (read node wasActing id wasCandidate symbol target isSymbol leads).grows
    sound grows consistent committed

theorem Completed.grows
    {since : Nat}
    (sound : before.Sound host grammar options)
    (grows : before.Grows since after)
    (early : word < since)
    (retains : before.Retains after)
    (consistent : after.stack.Consistent after.compiled.table)
    (completed : before.Completed host word) :
    after.Completed host word where
  drawn := completed.drawn.grows sound grows retains
  read := completed.read.grows sound grows early retains consistent
    completed.drawn
  reduced := completed.reduced.grows sound grows early retains consistent
    completed.drawn

/-- A word whose nodes were just woken is covered, since all of them wait. -/
theorem Sound.covered_wakeWord
    (sound : parser.Sound host grammar options)
    (live : parser.stack.Live)
    (performed : parser.performed = ∅)
    (word : Nat) :
    (parser.wakeWord word).Covered host word [] := by
  obtain ⟨-, woken⟩ := sound.wakeWord word
  have wakes := woken.wakes
  have grows : parser.Grows 0 (parser.wakeWord word) :=
    { wakes.grows 0 with }
  have sameLayer := wakes.shape.layer word
  have nonePerformed : (parser.wakeWord word).performed = ∅ := by
    rw [wakes.only_marks]
    exact performed
  have isAwake : ∀ node : Nat,
      node ∈ ((parser.wakeWord word).stack.layer word).nodes →
        node ∈ (parser.wakeWord word).active := by
    intro node listed
    rw [sameLayer] at listed
    exact (woken.active node).mpr (.inl ⟨listed, live.state node⟩)
  constructor
  case live =>
    refine ⟨fun node => (wakes.removed node).trans (live.state node),
      fun node => ?_⟩
    rw [GraphStack.symbolNode, wakes.symbols]
    exact live.symbol node
  case waiting => exact fun node listed _ => isAwake node listed
  case noted =>
    intro node acts
    refine .inl ?_
    rcases grows.actsAt acts with listed | listed | ⟨isStart, begins⟩
    · exact isAwake node listed
    · exact isAwake node (sameLayer ▸ listed)
    · exact (woken.active node).mpr (.inr ⟨isStart, begins⟩)
  case acted => exact fun node listed => .inl (isAwake node listed)
  case linked =>
    intro reduction isPerformed
    rw [nonePerformed] at isPerformed
    simp at isPerformed
  case handled =>
    intro _ _ _ _ _ _ isPerformed
    rw [nonePerformed] at isPerformed
    simp at isPerformed

/-- What was collected for the spans of a word is there when it is settled. -/
theorem Processed.collectedFrom
    (processed :
      Processed host grammar options word before collected settled after)
    (retains : collected.Retains settled)
    {ahead : InputWord}
    (isAhead : settled.words[word]? = some ahead)
    {base : Nat}
    (member : base ∈ ahead.spans) :
    base ∈ settled.candidates ∧
      ∀ symbol, (settled.spans.get base).symbol = some symbol →
        ∀ declaration ∈ settled.compiled.synthesizedFrom symbol,
          ∃ made : Option Nat,
            settled.synthesized[
              ((base, declaration.symbol) : SpanId × SymbolId)]? =
                some made ∧
              ∀ id : Nat, made = some id → id ∈ settled.candidates := by
  have collects : before.Grows 0 collected :=
    { processed.collects.grows 0 with }
  have woken := (processed.ready.wakeWord word).2.wakes
  have wakes : collected.Grows 0 (collected.wakeWord word) :=
    { woken.grows 0 with }
  have settles := processed.settles.grows
  have since : collected.Grows 0 settled :=
    wakes.trans { settles with stack := settles.stack.since_le (Nat.zero_le _) }
  have sameCandidates : settled.candidates = collected.candidates := by
    rw [processed.settles.candidates, woken.only_marks]
  rw [since.words] at isAhead
  have committed := (processed.ready.loaded.word_known isAhead member).2
  rw [collects.words] at isAhead
  have complete := processed.complete ahead isAhead base member
  refine ⟨sameCandidates ▸ complete.listed, ?_⟩
  intro symbol isSymbol declaration declared
  rw [(since.spans.get committed).2] at isSymbol
  rw [since.compiled] at declared
  obtain ⟨made, stored, listed⟩ :=
    complete.drawn symbol isSymbol declaration declared
  exact ⟨made, retains _ _ stored, sameCandidates ▸ listed⟩

theorem Processed.allDrawn
    (processed :
      Processed host grammar options word before collected settled after)
    (retains : collected.Retains settled) :
    settled.AllDrawn word := by
  intro ahead isAhead base member symbol isSymbol declaration declared
  obtain ⟨made, stored, -⟩ :=
    (processed.collectedFrom retains isAhead member).2 symbol isSymbol
      declaration declared
  exact ⟨made, stored⟩

/-- What may be read at a word is listed as ahead when the word is settled. -/
theorem Processed.listed_of_candidate
    (processed :
      Processed host grammar options word before collected settled after)
    (retains : collected.Retains settled)
    {id : Nat}
    (candidate : settled.Candidate word id) :
    id ∈ settled.candidates := by
  cases candidate with
  | input isAhead member =>
      exact (processed.collectedFrom retains isAhead member).1
  | synthesized isAhead member isSymbol declared stored =>
      obtain ⟨made, isMade, listed⟩ :=
        (processed.collectedFrom retains isAhead member).2 _ isSymbol _ declared
      rw [stored] at isMade
      exact listed id (Option.some.inj isMade).symm

/-- Nothing waits any longer at a word that is settled, so everything is reduced. -/
theorem Processed.allReduced
    (processed :
      Processed host grammar options word before collected settled after)
    (retains : collected.Retains settled)
    (covered : settled.Covered host word []) :
    settled.AllReduced host word := by
  intro holder listed symbol ahead rule isRule anchor held through below
  have isLookahead : rule ∈ settled.lookaheadRules
      (settled.stack.stateNode holder).state := by
    refine mem_lookaheadRules.mpr ⟨symbol, ?_, isRule⟩
    rcases ahead with isEnd | ⟨id, candidate, isSymbol⟩
    · exact List.mem_append_right _ (List.mem_singleton.mpr isEnd)
    · exact List.mem_append_left _ (List.mem_filterMap.mpr
        ⟨id, processed.listed_of_candidate retains candidate, isSymbol⟩)
  have acted := (covered.acted holder listed).resolve_left fun waits => by
    rw [processed.active] at waits
    cases waits
  refine (covered.handled holder listed rule isLookahead anchor held
    (acted rule isLookahead anchor held) through below).resolve_left ?_
  unfold Pending
  rw [processed.reductions]
  simp

/-- A word that was covered and not capped is worked out when it is finished. -/
theorem Processed.completed
    (processed :
      Processed host grammar options word before collected settled after)
    (retains : collected.Retains settled)
    (covered : settled.Covered host word []) :
    after.Completed host word := by
  have sound := processed.working.sound
  have finishes := processed.finishes
  have grows := finishes.grows
  have consistent := processed.sound.stack
  have kept : settled.Retains after := by
    intro key made stored
    rw [finishes.synthesized]
    exact stored
  have drawn := processed.allDrawn retains
  constructor
  case drawn => exact drawn.grows sound grows kept
  case read =>
    intro node acts id candidate symbol target isSymbol leads
    have wasCandidate := candidate.of_grows sound grows kept drawn
    have acting : settled.ActsAt word node := by
      refine (grows.actsAt acts).elim (fun listed => .inl ?_) fun acting => acting
      exact (grows.stack.mem_layer_of_lt sound.stack consistent
        (Nat.lt_succ_self word) node).mp listed
    have inside : node < settled.stack.states.size := by
      rcases acting with listed | ⟨isStart, -⟩
      · exact ((sound.stack.mem_layer node word).mp listed).1
      · exact isStart ▸ sound.stack.start_inside
    rw [(grows.spans.get (wasCandidate.committed sound)).2] at isSymbol
    rw [grows.compiled, (grows.stack.state node inside).state] at leads
    have noted := (covered.noted node acting).resolve_left fun waits => by
      rw [processed.active] at waits
      cases waits
    exact finishes.reads covered.live _ (noted (mem_shiftsFrom.mpr
      ⟨id, processed.listed_of_candidate retains wasCandidate, symbol, target,
        isSymbol, leads, rfl⟩))
  case reduced =>
    exact (processed.allReduced retains covered).grows sound grows
      (Nat.lt_succ_self word) kept consistent drawn

/-- A parse that is live and has worked out every word so far. -/
structure WorkedOut
    (host : Host σ)
    (grammar : Grammar)
    (options : CompileOptions)
    (start parser : Parser) : Prop where
  sound : parser.Sound host grammar options
  grows : start.Grows 0 parser
  live : parser.stack.Live
  performed : parser.performed = ∅
  completed : ∀ word : Nat, word < parser.position → parser.Completed host word

/-- A step works out the next word, if it reaches no limit and removes nothing. -/
theorem WorkedOut.step
    {start : Parser}
    (terms : host.Terms grammar False)
    (workedOut : WorkedOut host grammar options start parser)
    (started : parser.started = true) :
    Ensures parser (Parsing.step host)
      (fun remains after =>
        (remains = false ∧ parser.isFinished = true ∧ after = parser) ∨
          remains = (!after.isFinished) ∧
            after.position = parser.position + 1 ∧ after.started = true ∧
            (after.capped = false → after.stack.Live →
              WorkedOut host grammar options start after))
      (Parsing.Stopped host grammar options False) := by
  refine (Parsing.ensures_step terms
    (fun collected => Kept.covered terms.wellFormed collected)
    workedOut.sound (.inl started) ?_).imp ?_ fun _ stopped => stopped
  · intro collected collects ready _
    have live : collected.stack.Live := by
      rw [collects.stack]
      exact workedOut.live
    have performed : collected.performed = ∅ :=
      collects.performed.trans workedOut.performed
    refine ⟨?_, .inr (ready.covered_wakeWord live performed _)⟩
    rw [(ready.wakeWord parser.position).2.wakes.only_marks]
    exact fun _ _ stored => stored
  · rintro remains after (finished | ⟨-, collected, settled, finished, processed,
      ⟨retains, covered⟩, rfl, isRemains⟩)
    · exact .inl finished
    · refine .inr ⟨isRemains, rfl, ?_, fun uncapped live => ?_⟩
      · exact processed.grows.started.trans started
      · have notCapped : settled.capped = false := by
          rw [← processed.finishes.capped]
          exact uncapped
        have isCovered := covered.resolve_left fun capped => by
          rw [notCapped] at capped
          cases capped
        have grows : ∀ since, finished.Grows since
            { finished with position := parser.position + 1 } :=
          fun since => { Grows.refl since finished with }
        have sound := processed.sound.atPosition
          (processed.finishes.reductions.trans processed.reductions)
          processed.finishes.shifts (parser.position + 1)
        have keeps : parser.Retains finished := by
          intro key made stored
          rw [processed.finishes.synthesized]
          exact retains key made (processed.collects.synthesized key made stored)
        have stepped := processed.grows
        have fromStart : parser.Grows 0 finished :=
          { stepped with stack := stepped.stack.since_le (Nat.zero_le _) }
        refine ⟨sound, (workedOut.grows.trans fromStart).trans (grows 0), live,
          processed.finishes.performed, fun word behind => ?_⟩
        have completed : finished.Completed host word := by
          rcases Nat.lt_succ_iff_lt_or_eq.mp behind with early | isNow
          · exact (workedOut.completed word early).grows workedOut.sound
              processed.grows early keeps processed.sound.stack
          · exact isNow ▸ processed.completed retains isCovered
        exact completed.grows processed.sound (grows (word + 1))
          (Nat.lt_succ_self word) (fun _ _ stored => stored) sound.stack

/-- Enough steps end a parse that no error stops. -/
theorem stepAll_returns
    (terms : host.Terms grammar False)
    {state : σ}
    (sound : parser.Sound host grammar options)
    (started : parser.started = true)
    {fuel : Nat}
    (enough : parser.numWords < parser.position + fuel) :
    ∃ count,
      (Parsing.stepAll host fuel).run.run (parser, state) =
          (.ok (), afterSteps host count (parser, state)) ∧
        (afterSteps host count (parser, state)).1.isFinished = true := by
  induction fuel generalizing parser state with
  | zero => exact ⟨0, rfl, decide_eq_true enough⟩
  | succ fuel inductionHypothesis =>
      have stepped := Parsing.ensures_step terms (fun _ => Kept.anything) sound
        (.inl started) (fun _ _ _ _ => trivial) state
      have isRun : (Parsing.stepAll host (fuel + 1)).run.run (parser, state) =
          ((Parsing.step host >>= fun remains =>
            if remains then Parsing.stepAll host fuel else pure ()).run.run
              (parser, state)) :=
        rfl
      have isNext : ∀ count, afterSteps host (count + 1) (parser, state) =
          afterSteps host count ((Parsing.step host).run.run (parser, state)).2 :=
        fun _ => rfl
      rw [isRun, ExceptT.run_bind, StateT.run_bind]
      generalize (Parsing.step host).run.run (parser, state) = outcome
        at stepped isNext ⊢
      obtain ⟨answer, after, changed⟩ := outcome
      have isAfter : afterSteps host 1 (parser, state) = (after, changed) :=
        isNext 0
      cases answer with
      | error source => exact stepped.2.elim
      | ok remains =>
          rcases stepped with ⟨isDone, isFinished, same⟩ |
            ⟨-, collected, settled, finished, processed, -, isLast, isRemains⟩
          · subst isDone
            refine ⟨1, ?_⟩
            rw [isAfter]
            exact ⟨rfl, same.symm ▸ isFinished⟩
          · simp only at isLast
            have position : after.position = parser.position + 1 := by
              rw [isLast]
            have words : after.numWords = parser.numWords := by
              rw [isLast]
              exact congrArg List.length processed.grows.words
            cases remains with
            | false =>
                refine ⟨1, ?_⟩
                rw [isAfter]
                exact ⟨rfl, by simpa using isRemains.symm⟩
            | true =>
                have afterSound : after.Sound host grammar options := by
                  rw [isLast]
                  exact processed.sound.atPosition
                    (processed.finishes.reductions.trans processed.reductions)
                    processed.finishes.shifts (parser.position + 1)
                have stillStarted : after.started = true := by
                  rw [isLast]
                  exact processed.grows.started.trans started
                obtain ⟨count, both⟩ := inductionHypothesis afterSound
                  stillStarted (by rw [words, position]; omega)
                refine ⟨count + 1, ?_⟩
                rw [isNext]
                exact both

/-- Steps that reach no limit and remove nothing work words out. -/
theorem WorkedOut.afterSteps
    {start : Parser}
    (terms : host.Terms grammar False)
    {state : σ}
    (workedOut : WorkedOut host grammar options start parser)
    (started : parser.started = true)
    (undisturbed : ∀ count,
      (afterSteps host count (parser, state)).1.capped = false ∧
        (afterSteps host count (parser, state)).1.stack.Live)
    (count : Nat) :
    WorkedOut host grammar options start
      (afterSteps host count (parser, state)).1 := by
  induction count generalizing parser state with
  | zero => exact workedOut
  | succ count inductionHypothesis =>
      have stepped := workedOut.step terms started state
      have next := undisturbed 1
      have onward := fun count => undisturbed (count + 1)
      have isNext : ∀ count, Parser.afterSteps host (count + 1) (parser, state) =
          Parser.afterSteps host count
            ((Parsing.step host).run.run (parser, state)).2 :=
        fun _ => rfl
      simp only [isNext] at next onward ⊢
      generalize (Parsing.step host).run.run (parser, state) = outcome
        at stepped next onward ⊢
      obtain ⟨answer, after, changed⟩ := outcome
      cases answer with
      | error source => exact stepped.2.elim
      | ok remains =>
          rcases stepped with ⟨-, -, same⟩ | ⟨-, -, stillStarted, isWorkedOut⟩
          · obtain rfl : after = parser := same
            exact inductionHypothesis workedOut started onward
          · exact inductionHypothesis (isWorkedOut next.1 next.2) stillStarted
              onward

/-- A parse that no error stops returns the roots that its steps end with. -/
theorem parse_returns
    (terms : host.Terms grammar False)
    (compiled : parser.compiled = grammar.compile options)
    (document : Document)
    (input : List InputSpan)
    (state : σ) :
    ∃ count,
      (Parsing.parse host document input).run.run (parser, state) =
          (.ok (afterSteps host count
              (parser.start document input, state)).1.roots,
            afterSteps host count (parser.start document input, state)) ∧
        (afterSteps host count
          (parser.start document input, state)).1.isFinished = true := by
  have sound : (parser.start document input).Sound host grammar options :=
    (fresh_start compiled document input).sound host
  obtain ⟨count, isRun, finished⟩ := stepAll_returns terms sound rfl
    (show (parser.start document input).numWords <
      (parser.start document input).position +
        ((parser.start document input).numWords + 2) by omega)
  refine ⟨count, ?_, finished⟩
  have isParse : (Parsing.parse host document input).run.run (parser, state) =
      ((Parsing.stepAll host ((parser.start document input).numWords + 2) >>=
        fun _ => Parsing.parser >>= fun last => pure last.roots).run.run
          (parser.start document input, state)) :=
    rfl
  rw [isParse, ExceptT.run_bind, StateT.run_bind, isRun]
  rfl

/-- A parse that reaches no limit and removes nothing works out all words. -/
theorem parse_workedOut
    (terms : host.Terms grammar False)
    (compiled : parser.compiled = grammar.compile options)
    (document : Document)
    (input : List InputSpan)
    (state : σ)
    (undisturbed : ∀ count,
      (afterSteps host count
          (parser.start document input, state)).1.capped = false ∧
        (afterSteps host count
          (parser.start document input, state)).1.stack.Live)
    (count : Nat) :
    WorkedOut host grammar options (parser.start document input)
      (afterSteps host count (parser.start document input, state)).1 := by
  have workedOut : WorkedOut host grammar options
      (parser.start document input) (parser.start document input) := by
    refine ⟨(fresh_start compiled document input).sound host, .refl _ _,
      (undisturbed 0).2, rfl, fun word behind => ?_⟩
    exact absurd behind (Nat.not_lt_zero word)
  exact workedOut.afterSteps terms rfl undisturbed count

end Parser

end SpanForest
