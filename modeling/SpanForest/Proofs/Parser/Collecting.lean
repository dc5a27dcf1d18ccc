import SpanForest.Proofs.Parser.Candidates
import SpanForest.Proofs.Parser.Settings

namespace SpanForest

/-!
# Collecting one by one

What may be collected at a word is settled before it is collected: each span
ahead, and behind it each declaration by which a span may be synthesized from it.
All of it is collected in turn, and what was collected is remembered. So when an
error puts an end to this, collecting again finds what was collected before it.
-/

/-- Something that may be collected at a word. -/
inductive Collectible where
  | ahead (id : SpanId)
  | synthesized (base : SpanId) (declaration : Synthesized)

/-- A committed span, and a declaration of the grammar if it is the base of one. -/
def Collectible.Fits
    (grammar : Grammar)
    (spans : SpanStore) :
    Collectible → Prop
  | .ahead id => id < spans.size
  | .synthesized base declaration =>
      base < spans.size ∧ declaration ∈ grammar.synthesized

/-- What fits still does when spans are committed. -/
theorem Collectible.Fits.grows
    {grammar : Grammar}
    {spans more : SpanStore}
    {collectible : Collectible}
    (fits : collectible.Fits grammar spans)
    (extended : spans.Extends more) :
    collectible.Fits grammar more := by
  cases collectible with
  | ahead id => exact (extended.get fits).1
  | synthesized base declaration => exact ⟨(extended.get fits.1).1, fits.2⟩

namespace Parser

/-- A span ahead, and what may be synthesized from it. -/
def collectiblesFrom (parser : Parser) (base : SpanId) : List Collectible :=
  .ahead base ::
    match (parser.spans.get base).symbol with
    | some symbol =>
        (parser.compiled.synthesizedFrom symbol).map (.synthesized base)
    | none => []

/-- What may be collected at a word. -/
def collectibles (parser : Parser) (word : Nat) : List Collectible :=
  match parser.words[word]? with
  | some ahead => ahead.spans.flatMap parser.collectiblesFrom
  | none => []

/-- What may be collected at a word fits. -/
theorem fits_collectibles
    {parser : Parser}
    {word : Nat}
    (known : ∀ ahead, parser.words[word]? = some ahead →
      ∀ base : Nat, base ∈ ahead.spans → base < parser.spans.size) :
    ∀ item ∈ parser.collectibles word,
      item.Fits parser.compiled.grammar parser.spans := by
  intro item listed
  unfold collectibles at listed
  cases isAhead : parser.words[word]? with
  | none =>
      rw [isAhead] at listed
      cases listed
  | some ahead =>
      rw [isAhead] at listed
      obtain ⟨base, member, fromBase⟩ := List.mem_flatMap.mp listed
      have committed := known ahead isAhead base member
      rcases List.mem_cons.mp fromBase with rfl | declared
      · exact committed
      · cases isSymbol : (parser.spans.get base).symbol with
        | none =>
            rw [isSymbol] at declared
            cases declared
        | some symbol =>
            rw [isSymbol] at declared
            obtain ⟨declaration, isDeclared, rfl⟩ := List.mem_map.mp declared
            exact ⟨committed, (List.mem_filter.mp isDeclared).1⟩

/-- What was made of something that may be collected, as far as is known. -/
def made? (parser : Parser) : Collectible → Option (Option SpanId)
  | .ahead id => some (some id)
  | .synthesized base declaration =>
      parser.synthesized[(base, declaration.symbol)]?

/-- The spans that something collected adds to those ahead. -/
def adds (parser : Parser) (collectible : Collectible) : List SpanId :=
  ((parser.made? collectible).getD none).toList

variable {first second third before after parser : Parser}
variable {collectible : Collectible}

/-- What was made of something stays known. -/
theorem Retains.made?
    (retains : before.Retains after)
    {made : Option SpanId}
    (known : before.made? collectible = some made) :
    after.made? collectible = some made := by
  cases collectible with
  | ahead id => exact known
  | synthesized base declaration => exact retains _ made known

theorem Retains.adds
    (retains : before.Retains after)
    (known : (before.made? collectible).isSome) :
    after.adds collectible = before.adds collectible := by
  obtain ⟨made, isMade⟩ := Option.isSome_iff_exists.mp known
  rw [Parser.adds, Parser.adds, isMade, retains.made? isMade]

/-- What may be collected from a span depends on the span and the grammar. -/
theorem Asks.collectiblesFrom
    (asks : before.Asks after)
    {base : Nat}
    (known : base < before.spans.size) :
    after.collectiblesFrom base = before.collectiblesFrom base := by
  have sameCompiled : after.compiled = before.compiled := by rw [asks.same]
  unfold Parser.collectiblesFrom
  rw [(asks.spans.get known).2, sameCompiled]

theorem Asks.flatMap_collectiblesFrom
    (asks : before.Asks after)
    {bases : List SpanId}
    (known : ∀ base : Nat, base ∈ bases → base < before.spans.size) :
    bases.flatMap after.collectiblesFrom =
      bases.flatMap before.collectiblesFrom := by
  simp only [List.flatMap]
  rw [List.map_congr_left fun base member =>
    asks.collectiblesFrom (known base member)]

/-- Asking does not change what may be collected. -/
theorem Asks.collectibles
    (asks : before.Asks after)
    {word : Nat}
    (known : ∀ ahead, before.words[word]? = some ahead →
      ∀ base : Nat, base ∈ ahead.spans → base < before.spans.size) :
    after.collectibles word = before.collectibles word := by
  have sameWords : after.words = before.words := by rw [asks.same]
  unfold Parser.collectibles
  rw [sameWords]
  split
  · rename_i ahead isAhead
    exact asks.flatMap_collectiblesFrom (known ahead isAhead)
  · rfl

end Parser

namespace Parsing

variable {σ : Type} {host : Host σ} {parser : Parser}

/-- Collect one thing. -/
def collect (host : Host σ) : Collectible → Parsing σ Unit
  | .ahead id => addCandidates [id]
  | .synthesized base declaration => do
      let made ← synthesize host base declaration
      addCandidates made.toList

/-- What was collected is known and ahead; an error adds truth values only. -/
theorem ensures_collect
    (host : Host σ)
    (collectible : Collectible) :
    Ensures parser (collect host collectible)
      (fun _ after => parser.Asks after ∧
        (after.made? collectible).isSome ∧
        after.candidates = parser.candidates ++ after.adds collectible)
      parser.Evaluates := by
  cases collectible with
  | ahead id => exact fun _ => ⟨.ofNotes rfl, rfl, rfl⟩
  | synthesized base declaration =>
      refine .bind (ensures_synthesize_known host base declaration parser) ?_
      rintro made middle ⟨asks, sameCandidates, stored⟩
      refine fun _ => ⟨asks.trans (.ofNotes rfl), ?_, ?_⟩
      · exact Option.isSome_iff_exists.mpr ⟨made, stored⟩
      · change middle.candidates ++ made.toList = _
        rw [sameCandidates, Parser.adds]
        change _ = _ ++ ((middle.synthesized[(base,
          declaration.symbol)]?).getD none).toList
        rw [stored]
        rfl

/-- All that was collected is known and ahead. -/
theorem ensures_collectAll
    (host : Host σ)
    (items : List Collectible) :
    Ensures parser (items.forM (collect host))
      (fun _ after => parser.Asks after ∧
        (∀ item ∈ items, (after.made? item).isSome) ∧
        after.candidates = parser.candidates ++ items.flatMap after.adds)
      parser.Asks := by
  induction items generalizing parser with
  | nil => exact .pure ⟨.refl parser, by simp, by simp⟩
  | cons item rest inductionHypothesis =>
      rw [List.forM_eq_forM, List.forM_cons]
      refine .bind ((ensures_collect host item).imp (fun _ _ first => first)
        fun _ stopped => stopped.asks) ?_
      rintro _ middle ⟨early, itemKnown, isFirst⟩
      refine inductionHypothesis.imp ?_ fun _ late => early.trans late
      rintro _ after ⟨late, restKnown, isRest⟩
      refine ⟨early.trans late, fun other member => ?_, ?_⟩
      · rcases List.mem_cons.mp member with rfl | isLater
        · obtain ⟨made, isMade⟩ := Option.isSome_iff_exists.mp itemKnown
          exact Option.isSome_iff_exists.mpr
            ⟨made, late.synthesized.made? isMade⟩
        · exact restKnown other isLater
      · rw [isRest, isFirst, List.flatMap_cons,
          late.synthesized.adds itemKnown,
          List.append_assoc]

/-- Collecting one thing again asks nobody. -/
theorem run_collect_of_known
    {collectible : Collectible}
    (known : (parser.made? collectible).isSome)
    (state : σ) :
    (collect host collectible).run.run (parser, state) =
      (.ok (),
        { parser with
          candidates := parser.candidates ++ parser.adds collectible },
        state) := by
  cases collectible with
  | ahead id => rfl
  | synthesized base declaration =>
      obtain ⟨made, isMade⟩ := Option.isSome_iff_exists.mp known
      have stored : parser.synthesized[(base, declaration.symbol)]? = some made :=
        isMade
      have recalled : (synthesize host base declaration).run.run (parser, state) =
          (.ok made, parser, state) := by
        unfold synthesize
        rw [run_get, stored]
        rfl
      rw [Parser.adds, isMade]
      unfold collect
      simp only [ExceptT.run_bind, StateT.run_bind, recalled]
      rfl

/-- Collecting again what is known asks nobody. -/
theorem run_collectAll_of_known
    {items : List Collectible}
    (known : ∀ item ∈ items, (parser.made? item).isSome)
    (state : σ) :
    (items.forM (collect host)).run.run (parser, state) =
      (.ok (),
        { parser with
          candidates := parser.candidates ++ items.flatMap parser.adds },
        state) := by
  induction items generalizing parser with
  | nil =>
      rw [List.flatMap_nil, List.append_nil]
      rfl
  | cons item rest inductionHypothesis =>
      have again := @run_collect_of_known _ host _ _
        (known item List.mem_cons_self) state
      have goesOn := @inductionHypothesis
        { parser with candidates := parser.candidates ++ parser.adds item }
        fun other member => known other (List.mem_cons_of_mem _ member)
      change (collect host item >>= fun _ => rest.forM (collect host)).run.run
        (parser, state) = _
      simp only [ExceptT.run_bind, StateT.run_bind, again]
      rw [List.flatMap_cons, ← List.append_assoc]
      exact goesOn

section Splitting

variable (host : Host σ)

/-- A span ahead and what is synthesized from it are collected one by one. -/
theorem coincides_collectFrom (base : SpanId) :
    Coincides parser (collectFrom host base)
      ((parser.collectiblesFrom base).forM (collect host)) := by
  intro state
  have begun : ((parser.collectiblesFrom base).forM (collect host)).run.run
      (parser, state) =
      ((match (parser.spans.get base).symbol with
        | some symbol =>
            (parser.compiled.synthesizedFrom symbol).map
              (Collectible.synthesized base)
        | none => []).forM (collect host)).run.run
        ({ parser with candidates := parser.candidates ++ [base] }, state) :=
    rfl
  change ((match (parser.spans.get base).symbol with
    | some symbol =>
        (parser.compiled.synthesizedFrom symbol).forM fun declaration =>
          collect host (.synthesized base declaration)
    | none => return () : Parsing σ Unit)).run.run
      ({ parser with candidates := parser.candidates ++ [base] }, state) = _
  rw [begun]
  cases (parser.spans.get base).symbol with
  | none => rfl
  | some symbol =>
      dsimp only
      rw [List.forM_eq_forM, List.forM_eq_forM, List.forM_map]

theorem asks_collect (collectible : Collectible) :
    Keeps Parser.Asks (collect host collectible) :=
  fun _ => (ensures_collect host collectible).imp
    (fun _ _ collected => collected.1) fun _ stopped => stopped.asks

/-- Spans ahead are collected one by one. -/
theorem coincides_collectAll
    (bases : List SpanId)
    (known : ∀ base : Nat, base ∈ bases → base < parser.spans.size) :
    Coincides parser (bases.forM (collectFrom host))
      ((bases.flatMap parser.collectiblesFrom).forM (collect host)) := by
  induction bases generalizing parser with
  | nil => exact .refl _
  | cons base rest inductionHypothesis =>
      rw [List.flatMap_cons, List.forM_eq_forM, List.forM_eq_forM,
        List.forM_cons, List.forM_append]
      refine .seq (coincides_collectFrom host base)
        (Keeps.forM composes_asks (asks_collect host) _ parser) ?_
      intro _ middle asks
      have restKnown : ∀ other : Nat, other ∈ rest → other < parser.spans.size :=
        fun other member => known other (List.mem_cons_of_mem _ member)
      rw [← asks.flatMap_collectiblesFrom restKnown]
      exact inductionHypothesis fun other member =>
        (asks.spans.get (restKnown other member)).1

/-- The spans ahead at a word are collected one by one. -/
theorem coincides_collectCandidates
    (word : Nat)
    (known : ∀ ahead, parser.words[word]? = some ahead →
      ∀ base : Nat, base ∈ ahead.spans → base < parser.spans.size) :
    Coincides parser (collectCandidates host word)
      (do
        modifyParser fun current => { current with candidates := [] }
        (parser.collectibles word).forM (collect host)) := by
  intro state
  change (match parser.words[word]? with
    | some ahead => ahead.spans.forM (collectFrom host)
    | none => return () : Parsing σ Unit).run.run
      ({ parser with candidates := [] }, state) =
    ((match parser.words[word]? with
      | some ahead => ahead.spans.flatMap parser.collectiblesFrom
      | none => []).forM (collect host)).run.run
        ({ parser with candidates := [] }, state)
  cases isAhead : parser.words[word]? with
  | none => rfl
  | some ahead =>
      exact @coincides_collectAll _ { parser with candidates := [] } host
        ahead.spans (known ahead isAhead) state

end Splitting

section Again

variable {word : Nat}
variable (known : ∀ ahead, parser.words[word]? = some ahead →
  ∀ base : Nat, base ∈ ahead.spans → base < parser.spans.size)
include known

/-- When collecting stops, some of it was done, and is known and ahead. -/
theorem exists_collected_of_stops
    {state changed : σ}
    {error : ParseError}
    {failed : Parser}
    (stopped : (collectCandidates host word).run.run (parser, state) =
      (.error error, failed, changed)) :
    ∃ done rest middle between,
      parser.collectibles word = done ++ rest ∧
        (done.forM (collect host)).run.run
            ({ parser with candidates := [] }, state) =
          (.ok (), middle, between) ∧
        middle.Evaluates failed ∧
        (∀ item ∈ done, (middle.made? item).isSome) ∧
        middle.candidates = done.flatMap middle.adds := by
  rw [coincides_collectCandidates host word known state] at stopped
  change ((parser.collectibles word).forM (collect host)).run.run
    ({ parser with candidates := [] }, state) = _ at stopped
  obtain ⟨done, next, rest, ⟨middle, between⟩, isItems, isDone, -, same⟩ :=
    StopsFrom.forM ⟨error, congrArg Prod.fst stopped⟩
  have made := @ensures_collectAll _ { parser with candidates := [] } host done
    state
  rw [isDone] at made
  have atNext := @ensures_collect _ middle host next between
  rw [← same, stopped] at atNext
  exact ⟨done, next :: rest, middle, between, isItems, isDone, atNext, made.2.1,
    made.2.2⟩

/-- Collecting again goes on where it stopped. -/
theorem run_collectCandidates_of_known
    {done rest : List Collectible}
    (isItems : parser.collectibles word = done ++ rest)
    (made : ∀ item ∈ done, (parser.made? item).isSome)
    (ahead : parser.candidates = done.flatMap parser.adds)
    (state : σ) :
    (collectCandidates host word).run.run (parser, state) =
      (rest.forM (collect host)).run.run (parser, state) := by
  rw [coincides_collectCandidates host word known state, isItems]
  change ((done ++ rest).forM (collect host)).run.run
    ({ parser with candidates := [] }, state) = _
  have again := @run_collectAll_of_known _ host { parser with candidates := [] }
    done made state
  rw [Effect.run_forM_append again]
  have same : ({ parser with
      candidates := [] ++ done.flatMap
        (Parser.adds { parser with candidates := [] }) } : Parser) = parser := by
    rw [List.nil_append]
    change { parser with candidates := done.flatMap parser.adds } = parser
    rw [← ahead]
  exact congrArg (fun current =>
    (rest.forM (collect host)).run.run (current, state)) same

end Again

end Parsing

end SpanForest
