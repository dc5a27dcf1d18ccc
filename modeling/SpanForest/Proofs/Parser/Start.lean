import SpanForest.Proofs.Parser.Input
import SpanForest.Proofs.Parser.Sound

namespace SpanForest

/-!
# Parses start soundly

A parser without a document, or with a document that was just loaded, has done
nothing yet: its forest is empty, it remembers nothing and nothing is queued.
-/

namespace Parser

variable {grammar : Grammar} {options : CompileOptions}

/-- A parser in which nothing was done since its document was loaded. -/
structure Fresh (grammar : Grammar) (options : CompileOptions) (parser : Parser) : Prop where
  loaded : parser.Loaded grammar options
  stack : parser.stack = GraphStack.new (parser.words.length + 1) startState
  evaluator : parser.evaluator = Evaluator.ofNetwork parser.compiled.network
  synthesized : parser.synthesized = ∅
  outcomes : parser.outcomes = ∅
  active : parser.active = []
  reductions : parser.reductions = []
  shifts : parser.shifts = []
  roots : parser.roots = []

/-- Nothing that needs to be accounted for is left out by doing nothing. -/
theorem Fresh.sound
    {σ : Type}
    (host : Host σ)
    {parser : Parser}
    (fresh : parser.Fresh grammar options) :
    parser.Sound host grammar options := by
  have noNodes : ∀ node : Nat, ¬ node < parser.stack.symbols.size := by
    intro node
    rw [fresh.stack]
    exact Nat.not_lt_zero node
  constructor
  case loaded => exact fresh.loaded
  case stack =>
    rw [fresh.stack]
    exact GraphStack.consistent_new _
  case forest => exact fun node inside => absurd inside (noNodes node)
  case live =>
    intro _
    rw [fresh.stack]
    exact GraphStack.live_new _
  case spared =>
    refine ⟨fun _ => False, fun _ isDropped => isDropped.elim, ?_, ?_⟩
    · exact fun node inside => absurd inside (noNodes node)
    · rintro _ _ _ _ ⟨_, _, isDropped⟩
      exact isDropped.elim
  case bounded =>
    intro word
    rw [fresh.stack, GraphStack.layer_new]
    exact Nat.zero_le _
  case rooted =>
    intro node
    rw [fresh.roots]
    exact ⟨fun listed => absurd listed List.not_mem_nil,
      fun isRoot => absurd isRoot.inside (noNodes node)⟩
  case remembers =>
    constructor
    case evaluator =>
      intro decide _
      rw [fresh.evaluator, fresh.loaded.compiled]
      constructor
      case width =>
        simp only [Parser.situation, ParseContext.situation,
          fresh.loaded.compiled]
        rfl
      case known =>
        intro id _ span value known
        simp [Evaluator.ofNetwork] at known
    case synthesized =>
      intro base symbol id stored
      simp [fresh.synthesized] at stored
    case produced =>
      intro rule ids id stored
      simp [fresh.outcomes] at stored
    case declined =>
      intro rule ids stored
      simp [fresh.outcomes] at stored
  case reductions =>
    intro reduction queued
    simp [fresh.reductions] at queued
  case shifts =>
    intro shift noted
    simp [fresh.shifts] at noted

/-- A parser without a document did nothing. -/
theorem fresh_new (config : ParserConfig) :
    (new (grammar.compile options) config).Fresh grammar options where
  loaded := by
    constructor
    case compiled => rfl
    case ordered =>
      constructor <;> simp [new, context, SpanStore.empty, SpanStore.size]
    case layers => simp [new, GraphStack.new]
    case input_terminal => simp [new]
    case word_input => simp [new]
    case input_worded => simp [new]
    case words_sorted => simp [new]
  stack := rfl
  evaluator := rfl
  synthesized := rfl
  outcomes := rfl
  active := rfl
  reductions := rfl
  shifts := rfl
  roots := rfl

/-- A parser that just loaded a document did nothing with it. -/
theorem fresh_start
    {parser : Parser}
    (compiled : parser.compiled = grammar.compile options)
    (document : Document)
    (input : List InputSpan) :
    (parser.start document input).Fresh grammar options where
  loaded := by
    have isGrammar : parser.compiled.grammar = grammar := by
      rw [compiled]
      rfl
    have bound : ∀ id : Nat, id < (bindInput grammar .empty input).size →
        grammar.Binds id ((bindInput grammar .empty input).get id) :=
      @binds_bindInput grammar .empty
        (fun id inside => absurd inside (Nat.not_lt_zero id)) input
    have sorted := pairwise_sortInput (bindInput grammar .empty input)
      (List.range (bindInput grammar .empty input).size)
    have worded := worded_wordsOf sorted
    have known : ∀ id ∈ sortInput (bindInput grammar .empty input)
        (List.range (bindInput grammar .empty input).size),
        id < (bindInput grammar .empty input).size := by
      intro id member
      exact List.mem_range.mp (mem_sortBy.mp member)
    constructor
    case compiled => exact compiled
    case ordered =>
      simp only [start, context, isGrammar]
      constructor
      case span_id => exact fun id inside => (bound id inside).own_id
      case input_known => exact known
      case input_sorted => exact List.pairwise_map.mpr sorted
      case input_proper => exact fun id member => (bound id (known id member)).proper
    case layers => simp [start, GraphStack.new]
    case input_terminal =>
      simp only [start, isGrammar]
      exact fun id member => (bound id (known id member)).terminal
    case word_input =>
      simp only [start, isGrammar]
      exact worded.known
    case input_worded =>
      simp only [start, isGrammar]
      refine fun id member symbol isSymbol => worded.complete id member ?_
      rw [Span.isIgnored, isSymbol]
      rfl
    case words_sorted =>
      simp only [start, isGrammar]
      exact worded.sorted
  stack := rfl
  evaluator := rfl
  synthesized := rfl
  outcomes := rfl
  active := rfl
  reductions := rfl
  shifts := rfl
  roots := rfl

end Parser

end SpanForest
