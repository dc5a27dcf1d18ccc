import SpanForest.Proofs.Parser.Accounting
import SpanForest.Proofs.Parser.Extents
import SpanForest.Proofs.Parser.Support

namespace SpanForest

/-!
# The earliest winner survives

Whatever a greedy pass drops stops behind the start of the earliest winner: losers
overlap a winner, and what is derived from a span stops no earlier than that. The
nodes on which the earliest winner stands stop before it starts, so none of them is
dropped, and neither is the winner itself, whose own derivation is exempt.
-/

namespace Parser

variable {σ : Type} {host : Host σ}
variable {grammar : Grammar} {options : CompileOptions} {word : Nat}
variable {config : ParserConfig} {parser : Parser}

/-- A node that wins its symbol among those reduced at a word. -/
def WinsAt
    (parser : Parser)
    (word : Nat)
    (symbol : SymbolId)
    (winner : SymbolNodeId) : Prop :=
  parser.stack.Wins parser.compiled parser.spans (parser.stack.layer word).reduced
    symbol winner

/-- A winner that starts no later than any winner of its word. -/
structure WinsEarliest
    (parser : Parser)
    (word : Nat)
    (symbol : SymbolId)
    (winner : SymbolNodeId) : Prop where
  wins : parser.WinsAt word symbol winner
  earliest :
    ∀ other best, parser.WinsAt word other best →
      (parser.spanOf winner).start ≤ (parser.spanOf best).start

section Survival

/-- A pass drops no winner: it loses to none, and its greedy derivations are exempt. -/
theorem not_dropped_of_wins
    (numbers : ∀ id : Nat, (parser.spans.get id).weight.isNaN = false)
    {symbol : SymbolId}
    {winner : SymbolNodeId}
    (wins : parser.WinsAt word symbol winner) :
    ¬ (GreedyPass.last parser.compiled parser.spans word parser.stack
      (parser.winners word)).Dropped winner := by
  intro isDropped
  rcases GreedyPass.accounts_last.cause winner isDropped with loses | ⟨-, allSevered⟩
  · obtain ⟨-, other, best, bestWins, isOther, loses⟩ :=
      (mem_losersTo_iff numbers).mp loses
    obtain rfl := Option.some.inj (wins.contends.isSymbol.symm.trans isOther)
    obtain ⟨start, stop⟩ := bestWins.same_extent numbers wins
    rw [Span.losesTo_congr start stop, Span.losesTo_self] at loses
    cases loses
  · obtain ⟨derivation, member, isGreedy⟩ := wins.contends.derived
    refine (allSevered derivation member).1 ((spares_iff_exempts numbers).mpr ?_)
    exact ⟨isGreedy, symbol, winner, wins, wins.contends.isSymbol, rfl⟩

variable (wellFormed : grammar.WellFormed)
variable (keeps : host.KeepsExtent)
variable (sound : parser.Sound host grammar options)
variable (placed : parser.Placed) (upheld : parser.Upheld)
include wellFormed keeps sound placed

/-- Whatever a pass drops stops behind the start of every winner that is earliest. -/
theorem lt_stop_of_dropped
    (numbers : ∀ id : Nat, (parser.spans.get id).weight.isNaN = false)
    {offset : Nat}
    (earliest : ∀ symbol winner, parser.WinsAt word symbol winner →
      offset ≤ (parser.spanOf winner).start)
    {id : Nat}
    (isDropped : (GreedyPass.last parser.compiled parser.spans word parser.stack
      (parser.winners word)).Dropped id) :
    offset < (parser.spanOf id).stop := by
  refine GreedyPass.last_induction (motive := fun id =>
    offset < (parser.spanOf id).stop) (fun other loses => ?_)
    (fun other derivation member child isChild stops => ?_) isDropped
  · obtain ⟨-, symbol, winner, wins, -, loses⟩ := (mem_losersTo_iff numbers).mp loses
    simp only [Span.losesTo, Bool.and_eq_true, decide_eq_true_eq] at loses
    exact Nat.lt_of_le_of_lt (earliest symbol winner wins) loses.1.1.2
  · exact Nat.lt_of_lt_of_le stops
      (sound.child_stop_le wellFormed keeps placed member isChild)

include upheld

/-- State nodes of words that begin no later than all that a pass drops stops stay live. -/
theorem stateNode_survives
    {winners : Winners}
    {final : GraphStack}
    {start offset : Nat}
    {pass : GreedyPass}
    (ended :
      pass.Ended parser.compiled parser.spans winners parser.stack final start)
    (behind : ∀ id : Nat, pass.Dropped id → offset < (parser.spanOf id).stop)
    {own : Nat}
    {ahead : InputWord}
    (isAhead : parser.words[own]? = some ahead)
    (early : ahead.start ≤ offset)
    {id : Nat}
    (inside : id < parser.stack.states.size)
    (isWord : (parser.stack.stateNode id).word = some own)
    (isLive : (parser.stack.stateNode id).removed = false) :
    (final.stateNode id).removed = false := by
  induction own using Nat.strong_induction_on generalizing ahead id with
  | _ own earlier =>
      have notStart : id ≠ GraphStack.startNode := by
        rintro rfl
        rw [sound.stack.start_word] at isWord
        cases isWord
      obtain ⟨child, isChild, childLive⟩ :=
        upheld.supported.state id inside notStart isLive
      have childInside := sound.stack.child_known id child isChild
      have fits := sound.stack.fits_of_mem isChild
      refine Bool.eq_false_iff.mpr fun isRemoved => ?_
      -- The child stops before the word begins, so it can only have been swept.
      obtain ⟨-, allRemoved⟩ := ended.stranded isLive isRemoved
      have stops := (sound.spread wellFormed keeps placed childInside).ends own ahead
        (fits.word.trans isWord) isAhead
      rcases ended.dropped_or_floats ⟨childLive, allRemoved child isChild⟩ with
        isDropped | floats
      · have stopsBehind := behind child isDropped
        omega
      obtain ⟨below, isBelow, belowLive⟩ :=
        upheld.supported.symbol child childInside childLive
      obtain ⟨belowInside, ⟨upper, isUpper, before⟩, -⟩ := fits.child below isBelow
      obtain rfl := Option.some.inj (isWord.symm.trans isUpper)
      have survives : (final.stateNode below).removed = false := by
        cases isLower : (parser.stack.stateNode below).word with
        | none =>
            rw [sound.stack.only_start below belowInside isLower]
            exact (ended.supported sound.stack upheld.supported).start
        | some lower =>
            have lowerBefore := before lower isLower
            have ownInside := (List.getElem?_eq_some_iff.mp isAhead).1
            have lowerAhead := List.getElem?_eq_getElem
              (Nat.lt_trans lowerBefore ownInside)
            have sorted := List.pairwise_iff_getElem.mp sound.loaded.words_sorted
              lower own (Nat.lt_trans lowerBefore ownInside) ownInside lowerBefore
            rw [(List.getElem?_eq_some_iff.mp isAhead).2] at sorted
            exact earlier lower lowerBefore lowerAhead
              (Nat.le_trans (Nat.le_of_lt sorted) early) belowInside isLower
              belowLive
      rw [floats below isBelow] at survives
      cases survives

/-- A winner that starts no later than the others is live after its pass. -/
theorem winner_survives
    (numbers : ∀ id : Nat, (parser.spans.get id).weight.isNaN = false)
    {symbol : SymbolId}
    {winner : SymbolNodeId}
    (earliest : parser.WinsEarliest word symbol winner) :
    ((parser.filtered word).symbolNode winner).removed = false := by
  have behind := fun id => @lt_stop_of_dropped _ _ _ _ word _ wellFormed keeps sound
    placed numbers _ earliest.earliest id
  have wins := earliest.wins
  have notDropped := not_dropped_of_wins numbers wins
  obtain ⟨found, isFound, -⟩ := exists_lookup_of_wins numbers wins
  have someWinner : ¬ (parser.winners word).isEmpty = true := by
    intro noWinner
    have isFound : (parser.winners word).lookup symbol = some found := isFound
    rw [List.isEmpty_iff.mp noWinner] at isFound
    cases isFound
  obtain ⟨start, ended⟩ := GreedyPass.ended_last parser.compiled parser.spans word
    parser.stack (parser.winners word)
  have isFinal : parser.filtered word = ((GreedyPass.last parser.compiled
      parser.spans word parser.stack (parser.winners word)).stack.sweep
        (GreedyPass.last parser.compiled parser.spans word parser.stack
          (parser.winners word)).start).2 := by
    unfold filtered filterWord
    rw [filterGreedily_eq]
    exact congrArg GreedyResult.stack (if_neg someWinner)
  rw [isFinal]
  generalize GreedyPass.last parser.compiled parser.spans word parser.stack
    (parser.winners word) = pass at behind notDropped ended ⊢
  have inside := GraphStack.lt_size_of_symbol wins.contends.isSymbol
  refine Bool.eq_false_iff.mpr fun isRemoved => ?_
  have floats := (ended.dropped_or_floats
    ⟨wins.contends.live, isRemoved⟩).resolve_left notDropped
  -- The winner stands on a live node, which belongs to the word at which it starts.
  obtain ⟨below, isBelow, belowLive⟩ :=
    upheld.supported.symbol winner inside wins.contends.live
  obtain ⟨first, placedAt⟩ := placed.nodes winner inside
  obtain ⟨ahead, isAhead, isStart⟩ := placedAt.opens
  obtain ⟨holder, fits⟩ := sound.stack.fits winner inside
  obtain ⟨belowInside, -⟩ := fits.child below isBelow
  have survives : ((pass.stack.sweep pass.start).2.stateNode below).removed =
      false := by
    cases isWord : (parser.stack.stateNode below).word with
    | none =>
        rw [sound.stack.only_start below belowInside isWord]
        exact (ended.supported sound.stack upheld.supported).start
    | some own =>
        obtain rfl := placedAt.rests below isBelow own isWord
        exact stateNode_survives wellFormed keeps sound placed upheld ended behind
          isAhead (Nat.le_of_eq isStart) belowInside isWord belowLive
  rw [floats below isBelow] at survives
  cases survives

end Survival

/-- Among the winners of a word one is earliest. -/
theorem exists_winsEarliest
    {symbol : SymbolId}
    {winner : SymbolNodeId}
    (wins : parser.WinsAt word symbol winner) :
    ∃ other best, parser.WinsEarliest word other best := by
  obtain ⟨⟨other, best⟩, bestWins, earliest⟩ :=
    WellFounded.has_min (measure fun both : SymbolId × SymbolNodeId =>
      (parser.spanOf both.2).start).wf
      { both | parser.WinsAt word both.1 both.2 } ⟨(symbol, winner), wins⟩
  exact ⟨other, best, bestWins, fun symbol winner wins =>
    Nat.le_of_not_lt (earliest (symbol, winner) wins)⟩

/-- A step that comes to its end leaves what the greedy pass makes of what was read. -/
theorem Reachable.filters
    (wellFormed : grammar.WellFormed)
    (reachable : Reachable host (grammar.compile options) config parser)
    (isGreedy : config.greedy = true)
    (started : parser.started = true)
    (unfinished : parser.isFinished = false)
    {state changed : σ}
    {settled : Parser}
    (ends : (Parsing.workOn host parser.position).run.run (parser, state) =
      (.ok (), settled, changed)) :
    settled.Working host grammar options parser.position ∧
      ((Parsing.step host).run.run (parser, state)).2.1.stack =
        (settled.readShifts parser.position).filtered parser.position := by
  have sound := reachable.sound wellFormed
  have known := parser.position_le unfinished
  have settles := Parsing.ensures_workOn wellFormed sound rfl known state
  rw [ends] at settles
  refine ⟨settles.1, ?_⟩
  have isStep := Parsing.run_step wellFormed sound started unfinished ends
  have settings := (Reachable.step state reachable).config_eq
  rw [isStep] at settings ⊢
  have readGreedy : (settled.readShifts parser.position).config.greedy = true := by
    rw [(advances_readShifts _).config, ← (advances_finishWord _).config]
    exact (congrArg ParserConfig.greedy settings).trans isGreedy
  simp only [finishWord, readGreedy, if_true]
  rfl

/--
When the work at a word is done and what was noted is read, no earliest winner
falls victim to the greedy pass. So of several winners one survives, and the winners
of a symbol survive if no other symbol is greedy.
-/
theorem Reachable.earliest_winner_survives
    {builder : GrammarBuilder}
    (built : builder.build = .ok grammar)
    (keeps : host.KeepsExtent)
    (reachable : Reachable host (grammar.compile options) config parser)
    (isGreedy : config.greedy = true)
    (started : parser.started = true)
    (unfinished : parser.isFinished = false)
    {state changed : σ}
    {settled : Parser}
    (ends : (Parsing.workOn host parser.position).run.run (parser, state) =
      (.ok (), settled, changed))
    (noNaN : ∀ span ∈ (settled.readShifts parser.position).spans.toList,
      span.weight.isNaN = false) :
    let word := parser.position
    let read := settled.readShifts word
    ((Parsing.step host).run.run (parser, state)).2.1.stack =
        read.filtered word ∧
      (∀ symbol winner, (read.winners word).lookup symbol = some winner →
        read.WinsAt word symbol winner) ∧
      (∀ symbol winner, read.WinsEarliest word symbol winner →
        ((read.filtered word).symbolNode winner).removed = false) ∧
      ((∃ symbol winner, read.WinsAt word symbol winner) →
        ∃ symbol winner, read.WinsAt word symbol winner ∧
          ((read.filtered word).symbolNode winner).removed = false) ∧
      ∀ symbol,
        (∀ other, read.compiled.isGreedy other = true → other = symbol) →
          ∀ winner, read.WinsAt word symbol winner →
            ((read.filtered word).symbolNode winner).removed = false := by
  have wellFormed := GrammarBuilder.wellFormed_of_build built
  have sound := reachable.sound wellFormed
  have known := parser.position_le unfinished
  obtain ⟨working, isStack⟩ :=
    reachable.filters wellFormed isGreedy started unfinished ends
  have leadsPlaced := Parsing.follows_workOn wellFormed
    (leads_placed wellFormed keeps) sound rfl known state
  have leadsUpheld := Parsing.follows_workOn wellFormed
    (leads_upheld wellFormed) sound rfl known state
  rw [ends] at leadsPlaced leadsUpheld
  have numbers := SpanStore.get_isNaN noNaN
  have readSound := (working.sound.readShifts wellFormed working.position).1
  have placed := (leadsPlaced (reachable.placed wellFormed keeps)).readShifts
    wellFormed working.sound working.position
  have upheld := (leadsUpheld (reachable.upheld wellFormed)).readShifts
    wellFormed working.sound working.position
  have survives := fun symbol winner => @winner_survives _ _ _ _ parser.position _
    wellFormed keeps readSound placed upheld numbers symbol winner
  refine ⟨isStack, (among_winnersAt _ _ _ numbers).wins, survives, ?_, ?_⟩
  · rintro ⟨symbol, winner, wins⟩
    obtain ⟨other, best, earliest⟩ := exists_winsEarliest wins
    exact ⟨other, best, earliest.wins, survives other best earliest⟩
  · intro symbol only winner wins
    refine survives symbol winner ⟨wins, fun other best bestWins => ?_⟩
    obtain rfl := only other bestWins.contends.greedySymbol
    exact Nat.le_of_eq (wins.same_extent numbers bestWins).1

private theorem sharedWinner_facts :
    sharedAhead.position = 2 ∧ sharedAhead.started = true ∧
      sharedAhead.isFinished = false ∧
      ((Parsing.workOn Host.inheriting 2).run.run
        (sharedAhead, ())).1.toBool = true ∧
      (sharedRead.spans.toList.all fun span => !span.weight.isNaN) = true ∧
      sharedRead.winners 2 = [(3, 7)] ∧
      (sharedRead.spanOf 7).start = 0 ∧
      ((sharedRead.filtered 2).symbolNode 1).removed = true := by
  decide +kernel

/-- The longer of two greedy phrases survives the pass, and the shorter one does not. -/
theorem earliest_winner_survives_shared :
    sharedBuilder.build = .ok sharedGrammar ∧
      (Host.inheriting : Host Unit).KeepsExtent ∧
      Reachable (Host.inheriting : Host Unit) (sharedGrammar.compile {}) {}
        sharedAhead ∧
      (∀ span ∈ sharedRead.spans.toList, span.weight.isNaN = false) ∧
      sharedRead.WinsEarliest 2 3 7 ∧
      ((sharedRead.filtered 2).symbolNode 1).removed = true ∧
      ((sharedRead.filtered 2).symbolNode 7).removed = false := by
  obtain ⟨atEnd, started, unfinished, -, allNumbers, winners, isFirst, loser⟩ :=
    sharedWinner_facts
  have noNaN : ∀ span ∈ sharedRead.spans.toList, span.weight.isNaN = false := by
    simpa using allNumbers
  obtain ⟨-, found, survives, -, -⟩ := Reachable.earliest_winner_survives
    build_sharedBuilder Host.keepsExtent_inheriting reachable_sharedAhead rfl started
    unfinished (atEnd.symm ▸ sharedSettled_ends) (atEnd.symm ▸ noNaN)
  rw [atEnd] at found survives
  have earliest : sharedRead.WinsEarliest 2 3 7 := by
    refine ⟨found 3 7 ?_, fun _ _ _ => ?_⟩
    · exact (congrArg (List.lookup 3) winners).trans List.lookup_cons_self
    · rw [isFirst]
      exact Nat.zero_le _
  exact ⟨build_sharedBuilder, Host.keepsExtent_inheriting, reachable_sharedAhead,
    noNaN, earliest, loser, survives 3 7 earliest⟩

end Parser

end SpanForest
