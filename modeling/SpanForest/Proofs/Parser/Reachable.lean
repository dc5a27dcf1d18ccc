import SpanForest.Proofs.Parser.Settings
import SpanForest.Proofs.Parser.Start
import SpanForest.Proofs.Parser.Stepping

namespace SpanForest

/-!
# Parses that can be reached

A parser is reached by loading documents, clearing it and taking steps, with the
host in any state, and steps that end the parse are steps too. Whatever is
reached is sound, and has the settings with which it began.
-/

namespace Parser

variable {σ : Type} {host : Host σ}
variable {grammar : Grammar} {options : CompileOptions}
variable {compiled : CompiledGrammar} {config : ParserConfig}
variable {parser : Parser}

/-- The parsers that are reached with a host, whatever the states it is in. -/
inductive Reachable
    (host : Host σ)
    (compiled : CompiledGrammar)
    (config : ParserConfig) :
    Parser → Prop where
  | new : Reachable host compiled config (.new compiled config)
  | clear {parser : Parser} :
      Reachable host compiled config parser →
      Reachable host compiled config parser.clear
  | start {parser : Parser} (document : Document) (input : List InputSpan) :
      Reachable host compiled config parser →
      Reachable host compiled config (parser.start document input)
  | step {parser : Parser} (state : σ) :
      Reachable host compiled config parser →
      Reachable host compiled config
        ((Parsing.step host).run.run (parser, state)).2.1

/-- A parser with nothing queued or noted is sound at any word. -/
theorem Sound.atPosition
    (sound : parser.Sound host grammar options)
    (reductions : parser.reductions = [])
    (shifts : parser.shifts = [])
    (position : Nat) :
    Parser.Sound host { parser with position := position } grammar
      options := by
  have grows : parser.Grows 0 { parser with position := position } :=
    { Grows.refl 0 parser with }
  have carries : parser.Carries { parser with position := position } :=
    grows.carries (.refl _) rfl (fun _ => rfl) (fun _ => rfl) rfl
  constructor
  case loaded => exact sound.loaded.grows grows sound.loaded.numbered
  case stack => exact sound.stack
  case forest => exact sound.forest.sameStack sound.loaded sound.stack grows rfl
  case live => exact sound.live
  case spared =>
    obtain ⟨dropped, spares⟩ := sound.spared
    exact ⟨dropped, carries.spared dropped spares⟩
  case bounded => exact carries.bounded sound.bounded
  case rooted => exact carries.rooted sound.rooted
  case remembers =>
    exact sound.remembers.grows sound.loaded.ordered grows
      sound.remembers.evaluator (fun _ _ _ stored => .inl stored)
      fun _ _ _ stored => .inl stored
  case reductions =>
    intro reduction queued
    rw [reductions] at queued
    cases queued
  case shifts =>
    intro shift noted
    rw [shifts] at noted
    cases noted

/-- A step keeps a parse sound, whether it succeeds or ends the parse. -/
theorem Sound.step
    (wellFormed : grammar.WellFormed)
    (sound : parser.Sound host grammar options)
    (state : σ) :
    ((Parsing.step host).run.run (parser, state)).2.1.Sound host grammar
      options := by
  have terms : host.Terms grammar True := ⟨wellFormed, .inr trivial⟩
  have stepped := Parsing.ensures_step terms (fun _ => Kept.anything) sound (.inr trivial)
    (fun _ _ _ _ => trivial) state
  generalize (Parsing.step host).run.run (parser, state) = outcome at stepped
  obtain ⟨answer, after, changed⟩ := outcome
  cases answer with
  | error source => exact stepped.1
  | ok remains =>
      rcases stepped with ⟨-, -, same⟩ | ⟨-, _, _, finished, processed, -, rfl, -⟩
      · exact same ▸ sound
      · exact processed.sound.atPosition
          (processed.finishes.reductions.trans processed.reductions)
          processed.finishes.shifts _

/-- Whatever is reached is sound. -/
theorem Reachable.sound
    (wellFormed : grammar.WellFormed)
    (reachable : Reachable host (grammar.compile options) config parser) :
    parser.Sound host grammar options := by
  induction reachable with
  | new => exact (fresh_new config).sound host
  | @clear parser _ sound =>
      have cleared : (Parser.new (grammar.compile options) parser.config).Sound host
          grammar options :=
        (fresh_new parser.config).sound host
      rw [← sound.loaded.compiled] at cleared
      exact cleared
  | start document input _ sound =>
      exact (fresh_start sound.loaded.compiled document input).sound host
  | step state _ sound => exact sound.step wellFormed state

/-- Whatever is reached has the settings with which it began. -/
theorem Reachable.config_eq
    (reachable : Reachable host compiled config parser) :
    parser.config = config := by
  induction reachable with
  | new => rfl
  | clear _ same => exact same
  | start _ _ _ same => exact same
  | @step parser state _ same =>
      have advances := (Parsing.advances_step host parser).leadsTo state
      exact advances.config.trans same

/-- The parser after a number of steps with a host that began in some state. -/
def afterSteps
    (host : Host σ) :
    (count : Nat) →
    Parser × σ →
    Parser × σ
  | 0, run => run
  | count + 1, run =>
      afterSteps host count ((Parsing.step host).run.run run).2

/-- Steps keep a parse sound, whether they succeed or end the parse. -/
theorem Sound.afterSteps
    (wellFormed : grammar.WellFormed)
    (sound : parser.Sound host grammar options)
    (state : σ)
    (count : Nat) :
    (afterSteps host count (parser, state)).1.Sound host grammar options := by
  induction count generalizing parser state with
  | zero => exact sound
  | succ count inductionHypothesis =>
      exact inductionHypothesis (sound.step wellFormed state) _

/-- Steps get on with what was loaded. -/
theorem advances_afterSteps
    (host : Host σ)
    (parser : Parser)
    (state : σ)
    (count : Nat) :
    parser.Advances (afterSteps host count (parser, state)).1 := by
  induction count generalizing parser state with
  | zero => exact .refl _
  | succ count inductionHypothesis =>
      exact ((Parsing.advances_step host parser).leadsTo state).trans
        (inductionHypothesis _ _)

/-- Steps can be taken in two goes. -/
theorem afterSteps_add
    (host : Host σ)
    (early late : Nat)
    (run : Parser × σ) :
    afterSteps host (early + late) run =
      afterSteps host late (afterSteps host early run) := by
  induction early generalizing run with
  | zero => rw [Nat.zero_add]; rfl
  | succ early inductionHypothesis =>
      rw [Nat.succ_add]
      exact inductionHypothesis _

/-- No step changes a parse that is finished. -/
theorem afterSteps_of_isFinished
    (started : parser.started = true)
    (finished : parser.isFinished = true)
    (state : σ)
    (count : Nat) :
    (afterSteps host count (parser, state)).1 = parser := by
  have rests : Ensures parser (Parsing.step host)
      (fun _ after => after = parser) (fun _ => False) := by
    unfold Parsing.step
    refine Parsing.ensures_get ?_
    rw [if_neg (by simp [started]), if_pos finished]
    exact .pure rfl
  induction count generalizing state with
  | zero => rfl
  | succ count inductionHypothesis =>
      have rested := rests state
      rw [afterSteps]
      generalize (Parsing.step host).run.run (parser, state) = outcome
        at rested
      obtain ⟨answer, after, changed⟩ := outcome
      cases answer with
      | error source => exact rested.elim
      | ok remains =>
          obtain rfl : after = parser := rested
          exact inductionHypothesis changed

/-- What holds up to the end of a parse holds after any number of steps. -/
theorem forall_afterSteps
    {holds : Parser → Prop}
    {run : Parser × σ}
    (last : Nat)
    (started : (afterSteps host last run).1.started = true)
    (finished : (afterSteps host last run).1.isFinished = true)
    (few : ∀ count < last + 1, holds (afterSteps host count run).1)
    (count : Nat) :
    holds (afterSteps host count run).1 := by
  rcases Nat.lt_or_ge count (last + 1) with early | late
  · exact few count early
  · obtain ⟨more, rfl⟩ := Nat.exists_eq_add_of_le (Nat.le_of_succ_le late)
    rw [afterSteps_add, afterSteps_of_isFinished started finished]
    exact few last (Nat.lt_succ_self last)

/-- Taking steps reaches parsers. -/
theorem Reachable.afterSteps
    (reachable : Reachable host compiled config parser)
    (state : σ)
    (count : Nat) :
    Reachable host compiled config
      (Parser.afterSteps host count (parser, state)).1 := by
  induction count generalizing parser state with
  | zero => exact reachable
  | succ count inductionHypothesis =>
      exact inductionHypothesis (.step state reachable) _

end Parser

section Sample

/-- Declarations of phrases that begin with shorter phrases by way of `M`. -/
def nestedBuilder : GrammarBuilder where
  terminals := ["Word"]
  rules :=
    [⟨"G", [⟨"Word", none, none⟩], 0, none, some true⟩,
      ⟨"G", [⟨"M", none, none⟩, ⟨"Word", none, none⟩], 0, none, some true⟩,
      ⟨"M", [⟨"G", none, none⟩], 0, none, none⟩]
  predicates := Alphabet.empty
  start := some "G"
  defaultGreedy := none
  defaultWeight := none
  synthesized := []
  outputs := []

/-- The grammar `G → Word | M Word`, `M → G`, in numbers; the rules of `G` are greedy. -/
def nestedGrammar : Grammar where
  symbols :=
    #[⟨"$", false⟩, ⟨"ε", false⟩, ⟨"S'", true⟩, ⟨"G", true⟩, ⟨"M", true⟩,
      ⟨"Word", false⟩]
  rules :=
    #[⟨0, 3, [⟨5, none, none⟩], 0, 1.0, true⟩,
      ⟨1, 3, [⟨4, none, none⟩, ⟨5, none, none⟩], 0, 1.0, true⟩,
      ⟨2, 4, [⟨3, none, none⟩], 0, 1.0, false⟩]
  start := 3
  predicates := Alphabet.empty
  synthesized := []
  outputs := BitSet.ofList []

/-- Building the declarations yields the grammar. -/
theorem build_nestedBuilder :
    nestedBuilder.build = .ok nestedGrammar := by
  simp [nestedBuilder, nestedGrammar, GrammarBuilder.build,
    GrammarBuilder.addNonterminals, GrammarBuilder.addTerminals,
    GrammarBuilder.addSynthesized, GrammarBuilder.checkOperands,
    GrammarBuilder.resolveRules, GrammarBuilder.resolveRule,
    GrammarBuilder.resolveElement, GrammarBuilder.resolveStart,
    requireSymbol, addSymbol, findSymbol?, reservedSymbols, maxSymbols,
    List.findIdx?_cons, Alphabet.toList, Alphabet.empty, bind, Except.bind,
    pure, Except.pure]

/-- Declarations of phrases that share a beginning, after which an `A` may follow. -/
def sharedBuilder : GrammarBuilder where
  terminals := ["Word", "Mark"]
  rules :=
    [⟨"S", [⟨"S", none, none⟩, ⟨"P", none, none⟩], 0, none, none⟩,
      ⟨"S", [⟨"Word", none, none⟩, ⟨"P", none, none⟩], 0, none, none⟩,
      ⟨"S", [⟨"Word", none, none⟩, ⟨"X", none, none⟩, ⟨"Word", none, none⟩], 0,
        none, none⟩,
      ⟨"S", [⟨"Word", none, none⟩], 0, none, some true⟩,
      ⟨"S", [⟨"Word", none, none⟩, ⟨"Mark", none, none⟩], 0, none, some true⟩,
      ⟨"P", [⟨"A", none, none⟩], 0, none, none⟩,
      ⟨"A", [⟨"X", none, none⟩], 0, none, none⟩,
      ⟨"X", [⟨"Mark", none, none⟩], 0, none, none⟩]
  predicates := Alphabet.empty
  start := some "S"
  defaultGreedy := none
  defaultWeight := none
  synthesized := []
  outputs := []

/--
The grammar `S → S P | Word P | Word X Word | Word | Word Mark`, `P → A`,
`A → X`, `X → Mark` in numbers; the last two rules of `S` are greedy.
-/
def sharedGrammar : Grammar where
  symbols :=
    #[⟨"$", false⟩, ⟨"ε", false⟩, ⟨"S'", true⟩, ⟨"S", true⟩, ⟨"P", true⟩,
      ⟨"A", true⟩, ⟨"X", true⟩, ⟨"Word", false⟩, ⟨"Mark", false⟩]
  rules :=
    #[⟨0, 3, [⟨3, none, none⟩, ⟨4, none, none⟩], 0, 1.0, false⟩,
      ⟨1, 3, [⟨7, none, none⟩, ⟨4, none, none⟩], 0, 1.0, false⟩,
      ⟨2, 3, [⟨7, none, none⟩, ⟨6, none, none⟩, ⟨7, none, none⟩], 0, 1.0, false⟩,
      ⟨3, 3, [⟨7, none, none⟩], 0, 1.0, true⟩,
      ⟨4, 3, [⟨7, none, none⟩, ⟨8, none, none⟩], 0, 1.0, true⟩,
      ⟨5, 4, [⟨5, none, none⟩], 0, 1.0, false⟩,
      ⟨6, 5, [⟨6, none, none⟩], 0, 1.0, false⟩,
      ⟨7, 6, [⟨8, none, none⟩], 0, 1.0, false⟩]
  start := 3
  predicates := Alphabet.empty
  synthesized := []
  outputs := BitSet.ofList []

/-- Building the declarations yields the grammar. -/
theorem build_sharedBuilder :
    sharedBuilder.build = .ok sharedGrammar := by
  simp [sharedBuilder, sharedGrammar, GrammarBuilder.build,
    GrammarBuilder.addNonterminals, GrammarBuilder.addTerminals,
    GrammarBuilder.addSynthesized, GrammarBuilder.checkOperands,
    GrammarBuilder.resolveRules, GrammarBuilder.resolveRule,
    GrammarBuilder.resolveElement, GrammarBuilder.resolveStart,
    requireSymbol, addSymbol, findSymbol?, reservedSymbols, maxSymbols,
    rootSymbol, List.findIdx?_cons, Alphabet.toList, Alphabet.empty, bind,
    Except.bind, pure, Except.pure]

namespace Parser

/-- A parse of two words in the nested grammar. -/
def nestedStart : Parser :=
  (new (nestedGrammar.compile {}) {}).start ⟨"big dog"⟩
    [⟨"Word", 0, 3, Features.empty⟩, ⟨"Word", 4, 5, Features.empty⟩]

/-- The parse after all its steps. -/
def nestedEnd : Parser :=
  (afterSteps Host.inheriting 3 (nestedStart, ())).1

theorem reachable_nestedEnd :
    Reachable (Host.inheriting : Host Unit) (nestedGrammar.compile {}) {}
      nestedEnd :=
  Reachable.afterSteps (.start _ _ .new) () 3

/-- A parse of a word and a mark. -/
def sharedStart : Parser :=
  (new (sharedGrammar.compile {}) {}).start ⟨"a!"⟩
    [⟨"Word", 0, 1, Features.empty⟩, ⟨"Mark", 1, 2, Features.empty⟩]

end Parser

end Sample

end SpanForest
