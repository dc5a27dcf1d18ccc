import SpanForest.Proofs.Parser.Resuming

namespace SpanForest

/-!
# Parsers that are used again

A parser may have been started, stepped, run to an end and cleared any number of
times, by hosts of any kind, and a step may have given up in the middle of a word.
Whatever that left behind, starting the parser is starting a new one: what a parser
was made for never changes, clearing its evaluator in place forgets every truth
value, and everything else is set anew.
-/

namespace Parser

variable {compiled : CompiledGrammar} {config : ParserConfig}
variable {before after parser : Parser}

/-- The parsers that a history of calls may leave, each call with a host of its own. -/
inductive Used
    (compiled : CompiledGrammar)
    (config : ParserConfig) :
    Parser → Prop where
  | new : Used compiled config (.new compiled config)
  | clear {parser : Parser} :
      Used compiled config parser →
      Used compiled config parser.clear
  | start {parser : Parser} (document : Document) (input : List InputSpan) :
      Used compiled config parser →
      Used compiled config (parser.start document input)
  | step {parser : Parser} {σ : Type} (host : Host σ) (state : σ) :
      Used compiled config parser →
      Used compiled config
        ((Parsing.step host).run.run (parser, state)).2.1
  | parse
      {parser : Parser}
      {σ : Type}
      (host : Host σ)
      (state : σ)
      (document : Document)
      (input : List InputSpan) :
      Used compiled config parser →
      Used compiled config
        ((Parsing.parse host document input).run.run (parser, state)).2.1

/-- A parser that serves a grammar as it was set up. -/
structure Serves
    (compiled : CompiledGrammar)
    (config : ParserConfig)
    (parser : Parser) : Prop where
  grammar : parser.compiled = compiled
  settings : parser.config = config
  /-- A cache that is cleared in place stays as wide as it is. -/
  width : parser.evaluator.cache.width = compiled.network.size

theorem Serves.advances
    (serves : before.Serves compiled config)
    (advances : before.Advances after) :
    after.Serves compiled config where
  grammar := advances.compiled.trans serves.grammar
  settings := advances.config.trans serves.settings
  width := advances.evaluator.width.trans serves.width

theorem Serves.start
    (serves : parser.Serves compiled config)
    (document : Document)
    (input : List InputSpan) :
    (parser.start document input).Serves compiled config where
  grammar := serves.grammar
  settings := serves.settings
  width := congrArg (·.network.size) serves.grammar

/-- A parser is cleared by clearing its evaluator in place and setting all else anew. -/
theorem Serves.clear_eq
    (serves : parser.Serves compiled config) :
    { parser.clear with evaluator := parser.evaluator.clear } =
      Parser.new compiled config := by
  obtain ⟨rfl, rfl, width⟩ := serves
  have forgotten : parser.evaluator.clear =
      .ofNetwork parser.compiled.network := by
    unfold Evaluator.clear Evaluator.ofNetwork PredicateCache.clear
      PredicateCache.empty
    rw [width]
  rw [forgotten]
  rfl

theorem Serves.start_eq
    (serves : parser.Serves compiled config)
    (document : Document)
    (input : List InputSpan) :
    parser.start document input =
      (Parser.new compiled config).start document input := by
  obtain ⟨rfl, rfl, -⟩ := serves
  rfl

end Parser

namespace Parsing

/-- A whole parse gets on with what it loaded, however it ends. -/
theorem advances_parse
    {σ : Type}
    (host : Host σ)
    (document : Document)
    (input : List InputSpan)
    (before : Parser) :
    Ensures before (parse host document input)
      (fun _ after => (before.start document input).Advances after)
      (before.start document input).Advances :=
  ensures_modify <| ensures_get <|
    .bind (advances_stepAll host _ _) fun _ _ advances =>
      ensures_get (.pure advances)

/-- A parse depends on the parser only by the parse that it starts. -/
theorem run_parse_congr
    {σ : Type}
    (host : Host σ)
    {document : Document}
    {input : List InputSpan}
    {first second : Parser}
    (same : first.start document input = second.start document input)
    (state : σ) :
    (parse host document input).run.run (first, state) =
      (parse host document input).run.run (second, state) := by
  unfold parse modifyParser
  rw [Effect.run_modify_bind, Effect.run_modify_bind]
  simp only [same]

end Parsing

namespace Parser

variable {compiled : CompiledGrammar} {config : ParserConfig} {parser : Parser}

/-- No history of calls changes what a parser serves. -/
theorem Used.serves
    (used : Used compiled config parser) :
    parser.Serves compiled config := by
  induction used with
  | new => exact ⟨rfl, rfl, rfl⟩
  | clear _ serves =>
      exact ⟨serves.grammar, serves.settings,
        congrArg (·.network.size) serves.grammar⟩
  | start document input _ serves => exact serves.start document input
  | @step parser _ host state _ serves =>
      exact serves.advances ((Parsing.advances_step host parser).leadsTo state)
  | @parse parser _ host state document input _ serves =>
      exact (serves.start document input).advances
        ((Parsing.advances_parse host document input parser).leadsTo state)

/--
Starting a parser after any history of calls is starting a new parser, so all that
follows is the same; clearing it, its evaluator in place, makes it a new parser.
-/
theorem Used.start_eq_new
    (used : Used compiled config parser)
    (document : Document)
    (input : List InputSpan) :
    { parser.clear with evaluator := parser.evaluator.clear } =
        Parser.new compiled config ∧
      parser.start document input =
        (Parser.new compiled config).start document input ∧
      (∀ {σ : Type} (host : Host σ) (state : σ) (count : Nat),
        (Parsing.step host).run.run
            (afterSteps host count (parser.start document input, state)) =
          (Parsing.step host).run.run
            (afterSteps host count
              ((Parser.new compiled config).start document input, state))) ∧
      ∀ {σ : Type} (host : Host σ) (state : σ),
        (Parsing.parse host document input).run.run (parser, state) =
          (Parsing.parse host document input).run.run
            (Parser.new compiled config, state) := by
  have serves := used.serves
  have same := serves.start_eq document input
  refine ⟨serves.clear_eq, same, fun host state count => ?_,
    fun host state => Parsing.run_parse_congr host same state⟩
  rw [same]

end Parser

section Sample

namespace Parser

private theorem namesFailed_facts :
    StopsFrom namesAsking (Parsing.step Host.stumbling) ∧
      namesFailed.candidates = [1] ∧
      namesFailed.synthesized.size = 1 := by
  decide +kernel

/-- A parser that was left in the middle of its second word starts like a new one. -/
theorem start_eq_new_names :
    Used (namesGrammar.compile {}) {} namesFailed ∧
      StopsFrom namesAsking (Parsing.step Host.stumbling) ∧
      namesFailed.candidates = [1] ∧
      namesFailed.synthesized.size = 1 ∧
      namesFailed.start ⟨"big dog"⟩ [⟨"Word", 0, 3, Features.empty⟩] =
        (new (namesGrammar.compile {}) {}).start ⟨"big dog"⟩
          [⟨"Word", 0, 3, Features.empty⟩] := by
  obtain ⟨stops, candidates, entered⟩ := namesFailed_facts
  have used : Used (namesGrammar.compile {}) {} namesFailed :=
    .step Host.stumbling namesAsking.2
      (.step Host.stumbling 0 (.start _ _ .new))
  exact ⟨used, stops, candidates, entered, (used.start_eq_new _ _).2.1⟩

end Parser

end Sample

end SpanForest
