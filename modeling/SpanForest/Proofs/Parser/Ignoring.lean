import SpanForest.Proofs.Parser.EchoedSteps
import SpanForest.Proofs.Parser.Lawful

namespace SpanForest

/-!
# Ignored spans do not interfere

Input spans that are of no terminal belong to no word. Inserting such spans gives
the others other numbers, in the same order, and puts them into the same words.
So without context predicates, which do look at ignored spans, a parse of the
longer input echoes the parse of the shorter one.
-/

/-- Ways to insert ignored spans into a list of input spans, at any positions. -/
inductive Grammar.Insertion (grammar : Grammar) : List InputSpan → List InputSpan → Type where
  | nil : Insertion grammar [] []
  | keep {short long : List InputSpan} (span : InputSpan) :
      Insertion grammar short long →
      Insertion grammar (span :: short) (span :: long)
  | insert {short long : List InputSpan} (span : InputSpan) :
      grammar.terminal? span.typeName = none →
      Insertion grammar short long →
      Insertion grammar short (span :: long)

namespace Grammar.Insertion

variable {grammar : Grammar} {short long : List InputSpan}

/-- The number of a span after the insertion; each inserted span counts up what follows. -/
def rename {short long : List InputSpan} : Insertion grammar short long → SpanId → SpanId
  | nil, id => id
  | keep _ _, 0 => 0
  | keep _ rest, id + 1 => rest.rename id + 1
  | insert _ _ rest, id => rest.rename id + 1

/-- An insertion keeps the order of the spans, and of the numbers behind them. -/
theorem renumbers (insertion : Insertion grammar short long) :
    Renumbers insertion.rename short.length := by
  induction insertion with
  | nil => exact ⟨strictMono_id, fun _ _ => rfl⟩
  | keep span rest inductionHypothesis =>
      constructor
      case increasing =>
        refine strictMono_nat_of_lt_succ fun id => ?_
        cases id with
        | zero => exact Nat.succ_pos _
        | succ id =>
            exact Nat.succ_lt_succ (inductionHypothesis.increasing id.lt_succ_self)
      case gapless =>
        intro id enough
        cases id with
        | zero => cases enough
        | succ id =>
            exact congrArg (· + 1)
              (inductionHypothesis.gapless id (Nat.le_of_succ_le_succ enough))
  | insert span _ rest inductionHypothesis =>
      exact ⟨fun _ _ less => Nat.succ_lt_succ (inductionHypothesis.increasing less),
        fun id enough => congrArg (· + 1) (inductionHypothesis.gapless id enough)⟩

/-- What is committed first after the input gets the next number. -/
theorem rename_length (insertion : Insertion grammar short long) :
    insertion.rename short.length = long.length := by
  induction insertion with
  | nil => rfl
  | keep _ _ inductionHypothesis => exact congrArg (· + 1) inductionHypothesis
  | insert _ _ _ inductionHypothesis => exact congrArg (· + 1) inductionHypothesis

/-- A span is found under its new number. -/
theorem getElem?_rename
    (insertion : Insertion grammar short long)
    (id : SpanId) :
    long[insertion.rename id]? = short[id]? := by
  induction insertion generalizing id with
  | nil => rfl
  | keep _ _ inductionHypothesis =>
      cases id with
      | zero => rfl
      | succ id => exact inductionHypothesis id
  | insert _ _ _ inductionHypothesis => exact inductionHypothesis id

/-- What is found under any other number was inserted. -/
theorem renamed_or_ignored
    (insertion : Insertion grammar short long)
    {id : SpanId}
    {span : InputSpan}
    (isSpan : long[id]? = some span) :
    (∃ own, insertion.rename own = id) ∨
      grammar.terminal? span.typeName = none := by
  induction insertion generalizing id with
  | nil => cases isSpan
  | keep _ _ inductionHypothesis =>
      cases id with
      | zero => exact .inl ⟨0, rfl⟩
      | succ id =>
          refine (inductionHypothesis isSpan).imp_left ?_
          rintro ⟨own, rfl⟩
          exact ⟨own + 1, rfl⟩
  | insert _ ignored _ inductionHypothesis =>
      cases id with
      | zero => exact .inr (Option.some.inj isSpan ▸ ignored)
      | succ id =>
          refine (inductionHypothesis isSpan).imp_left ?_
          rintro ⟨own, rfl⟩
          exact ⟨own, rfl⟩

end Grammar.Insertion

section Input

variable {grammar : Grammar}

/-- Input spans are bound under their positions. -/
theorem bindInput_eq (input : List InputSpan) :
    bindInput grammar .empty input =
      ⟨(input.mapIdx fun id span => span.bind grammar id).toArray⟩ := by
  induction input using List.reverseRecOn with
  | nil => rfl
  | append_singleton input span inductionHypothesis =>
      have isNext : ∀ store : SpanStore,
          store.committed (span.bind grammar store.nextId) =
            span.bind grammar store.nextId :=
        fun store => SpanStore.committed_eq rfl
      have pushes : bindInput grammar .empty (input ++ [span]) =
          ⟨(bindInput grammar .empty input).spans.push (span.bind grammar
            (bindInput grammar .empty input).nextId)⟩ := by
        rw [bindInput, List.foldl_append, ← isNext]
        rfl
      rw [pushes, inductionHypothesis, List.mapIdx_concat]
      simp [SpanStore.nextId]

/-- A span of the input as it is bound. -/
theorem get?_bindInput
    (input : List InputSpan)
    (id : SpanId) :
    (bindInput grammar .empty input).get? id =
      input[id]?.map (·.bind grammar id) := by
  rw [bindInput_eq, SpanStore.get?]
  simp

@[simp] theorem size_bindInput (input : List InputSpan) :
    (bindInput grammar .empty input).size = input.length := by
  rw [bindInput_eq, SpanStore.size]
  simp

section Words

variable {rename : SpanId → SpanId} {count : Nat} {spans other : SpanStore}
variable (renumbers : Renumbers rename count)
variable (renumbered : spans.Renumbered rename other)

omit renumbers renumbered in
theorem addToWords_renumbered
    (rename : SpanId → SpanId)
    (start : Nat)
    (id : SpanId)
    (words : List InputWord) :
    addToWords start (rename id) (words.map (InputWord.renumbered rename)) =
      (addToWords start id words).map (InputWord.renumbered rename) := by
  cases words with
  | nil => rfl
  | cons word rest =>
      simp only [addToWords, List.map_cons, InputWord.renumbered]
      split <;> rfl

include renumbers renumbered

/-- New numbers leave it open in which order spans are as it was. -/
theorem inputCompare_renumbered (left right : SpanId) :
    inputCompare other (rename left) (rename right) =
      inputCompare spans left right := by
  have sameOrder : compare (rename left) (rename right) = compare left right := by
    rw [← cmp_eq_compare, ← cmp_eq_compare]
    exact renumbers.increasing.cmp_map_eq left right
  have sameSpans : (other.get (rename left)).inputOrder (other.get (rename right)) =
      (spans.get left).inputOrder (spans.get right) := by
    unfold Span.inputOrder
    simp only [renumbered.start_eq renumbers, renumbered.stop_eq renumbers,
      renumbered.symbol_eq renumbers]
  exact congrArg₂ Ordering.then sameSpans sameOrder

/-- Spans that were in order get into the same words under their new numbers. -/
theorem foldr_addToWords_renumbered (ids : List SpanId) :
    (ids.map rename).foldr
        (fun id words => addToWords (other.get id).start id words) [] =
      (ids.foldr (fun id words => addToWords (spans.get id).start id words)
        []).map (InputWord.renumbered rename) := by
  rw [List.foldr_map]
  induction ids with
  | nil => rfl
  | cons id rest inductionHypothesis =>
      rw [List.foldr_cons, List.foldr_cons, inductionHypothesis,
        addToWords_renumbered, renumbered.start_eq renumbers]

/-- The words under new numbers can be left in the same ways. -/
theorem wordEdges_renumbered
    (compiled : CompiledGrammar)
    (words : List InputWord)
    (index : Nat)
    (word : InputWord) :
    wordEdges compiled other (words.map (InputWord.renumbered rename)) index
        (word.renumbered rename) =
      wordEdges compiled spans words index word := by
  simp only [wordEdges, InputWord.renumbered, List.flatMap_map]
  refine List.flatMap_congr fun id _ => ?_
  simp only [renumbered.stop_eq renumbers, renumbered.symbol_eq renumbers,
    ← @nextWord_renumbered rename words]

/-- The same words are viable. -/
theorem viableWords_renumbered
    (compiled : CompiledGrammar)
    (filtered : Bool)
    (words : List InputWord) :
    viableWords compiled filtered other (words.map (InputWord.renumbered rename)) =
      viableWords compiled filtered spans words := by
  unfold viableWords
  rw [List.length_map, List.zipIdx_map, List.map_map]
  have sameEdges : ∀ indexed : InputWord × Nat,
      wordEdges compiled other (words.map (InputWord.renumbered rename)) indexed.2
          (indexed.1.renumbered rename) =
        wordEdges compiled spans words indexed.2 indexed.1 :=
    fun indexed => wordEdges_renumbered renumbers renumbered compiled words _ _
  simp only [Function.comp_def, Prod.map, id_eq, sameEdges]

end Words

namespace Grammar.Insertion

variable {short long : List InputSpan}

/-- The input spans are bound as they were, under their new numbers. -/
theorem bindInput
    (insertion : grammar.Insertion short long) :
    (bindInput grammar .empty short).Renumbered insertion.rename
      (SpanForest.bindInput grammar .empty long) where
  size := by
    rw [size_bindInput, size_bindInput, insertion.rename_length]
  get id inside := by
    have isShort := SpanStore.get?_of_lt inside
    rw [get?_bindInput] at isShort
    obtain ⟨span, isSpan, isBound⟩ := Option.map_eq_some_iff.mp isShort
    refine SpanStore.get_of_get? ?_
    rw [get?_bindInput, insertion.getElem?_rename, isSpan, ← isBound]
    rfl

/-- The readable spans are those that were readable, in the same order. -/
theorem sortInput
    (insertion : grammar.Insertion short long) :
    let spans := SpanForest.bindInput grammar .empty short
    let other := SpanForest.bindInput grammar .empty long
    (sortInput other (List.range other.size)).filter
        (fun id => !(other.get id).isIgnored) =
      ((SpanForest.sortInput spans (List.range spans.size)).filter
        fun id => !(spans.get id).isIgnored).map insertion.rename := by
  intro spans other
  have renumbers := insertion.renumbers
  have renumbered : spans.Renumbered insertion.rename other := insertion.bindInput
  have injective := renumbers.increasing.injective
  have sameIgnored : ∀ id : SpanId,
      (other.get (insertion.rename id)).isIgnored = (spans.get id).isIgnored :=
    fun id => congrArg Option.isNone (renumbered.symbol_eq renumbers id)
  have nodup : ∀ store : SpanStore,
      (SpanForest.sortInput store (List.range store.size)).Nodup :=
    fun store => sortBy_perm.nodup_iff.mpr List.nodup_range
  have sorted := (isLE_sortInput spans (List.range spans.size)).filter
    fun id => !(spans.get id).isIgnored
  simp only [← inputCompare_renumbered renumbers renumbered] at sorted
  refine List.Perm.eq_of_pairwise
    (fun _ _ _ _ early late => eq_of_isLE_inputCompare early late)
    ((isLE_sortInput other _).filter _) (List.pairwise_map.mpr sorted) ?_
  refine (List.perm_ext_iff_of_nodup ((nodup other).filter _)
    (((nodup spans).filter _).map injective)).mpr fun id => ?_
  simp only [List.mem_filter, List.mem_map, SpanForest.sortInput, mem_sortBy,
    List.mem_range, Bool.not_eq_true']
  constructor
  · rintro ⟨inside, readable⟩
    have stored := SpanStore.get?_of_lt inside
    rw [get?_bindInput] at stored
    obtain ⟨span, isSpan, isBound⟩ := Option.map_eq_some_iff.mp stored
    rcases insertion.renamed_or_ignored isSpan with ⟨own, rfl⟩ | ignored
    · exact ⟨own, ⟨(renumbered.inside_iff renumbers).mp inside,
        sameIgnored own ▸ readable⟩, rfl⟩
    · rw [← isBound, Span.isIgnored] at readable
      rw [show (span.bind grammar id).symbol = none from ignored] at readable
      cases readable
  · rintro ⟨own, ⟨inside, readable⟩, rfl⟩
    exact ⟨(renumbered.inside_iff renumbers).mpr inside,
      (sameIgnored own).trans readable⟩

/-- The words are the same, but for the numbers of their spans. -/
theorem wordsOf
    (insertion : grammar.Insertion short long) :
    let spans := SpanForest.bindInput grammar .empty short
    let other := SpanForest.bindInput grammar .empty long
    wordsOf other (SpanForest.sortInput other (List.range other.size)) =
      (SpanForest.wordsOf spans
        (SpanForest.sortInput spans (List.range spans.size))).map
          (InputWord.renumbered insertion.rename) := by
  unfold SpanForest.wordsOf
  simp only [insertion.sortInput]
  exact foldr_addToWords_renumbered insertion.renumbers insertion.bindInput _

end Grammar.Insertion

end Input

namespace Parser

variable {σ : Type} {grammar : Grammar} {options : CompileOptions}
variable {config : ParserConfig} {parser : Parser}
variable {short long : List InputSpan}

/-- A parse starts as an echo of the one without the inserted spans. -/
theorem echoes_start
    (compiled : parser.compiled = grammar.compile options)
    (insertion : grammar.Insertion short long)
    (document : Document) :
    Echoes insertion.rename short.length grammar options
      (parser.start document short) (parser.start document long) := by
  have isGrammar : parser.compiled.grammar = grammar := by
    rw [compiled]
    rfl
  have isNetwork : parser.compiled.network.size = grammar.predicates.size := by
    rw [compiled]
    rfl
  have renumbers := insertion.renumbers
  have stored := insertion.bindInput
  have words := insertion.wordsOf
  have viable := viableWords_renumbered renumbers stored parser.compiled
    parser.config.filtered (wordsOf (bindInput grammar .empty short)
      (sortInput (bindInput grammar .empty short)
        (List.range (bindInput grammar .empty short).size)))
  constructor
  case same =>
    simp only [start, renumbered, isGrammar, words, viable, List.length_map,
      GraphStack.renumbered_new]
    rfl
  case compiled => exact compiled
  case numbered =>
    exact (fresh_start compiled document short).loaded.ordered.span_id
  case store =>
    simp only [start, isGrammar]
    exact stored
  case enough =>
    simp only [start, isGrammar, size_bindInput]
    exact Nat.le_refl _
  case synthesized =>
    intro base symbol
    rw [(fresh_start compiled document short).synthesized,
      (fresh_start compiled document long).synthesized]
    simp
  case outcomes =>
    intro rule ids
    rw [(fresh_start compiled document short).outcomes,
      (fresh_start compiled document long).outcomes]
    simp
  case knows =>
    rw [(fresh_start compiled document short).evaluator, ← isNetwork]
    exact .ofNetwork _
  case echoKnows =>
    rw [(fresh_start compiled document long).evaluator, ← isNetwork]
    exact .ofNetwork _

/--
Inserting ignored spans changes nothing but the numbers of spans. Without context
predicates, with the host that only inherits features, both runs have the same
words, and after any number of steps the same stack, roots and counts, and their
next step comes to the same.
-/
theorem Reachable.insertion_renumbers
    {builder : GrammarBuilder}
    (built : builder.build = .ok grammar)
    (contextless : grammar.predicates.Contextless)
    (reachable :
      Reachable (Host.inheriting : Host σ) (grammar.compile options) config parser)
    (insertion : grammar.Insertion short long)
    (document : Document)
    (state : σ)
    (steps : Nat) :
    let rename := insertion.rename
    let run := Parser.afterSteps Host.inheriting steps
      (parser.start document short, state)
    let echo := Parser.afterSteps Host.inheriting steps
      (parser.start document long, state)
    StrictMono rename ∧
      (∀ id, long[rename id]? = short[id]?) ∧
      echo.1.words = run.1.words.map (InputWord.renumbered rename) ∧
      run.1.spans.Renumbered rename echo.1.spans ∧
      echo.1.stack = run.1.stack.renumbered rename ∧
      echo.1.roots = run.1.roots ∧
      echo.1.current = run.1.current ∧
      echo.1.wordStats = run.1.wordStats ∧
      echo.1.totals = run.1.totals ∧
      echo.1.position = run.1.position ∧
      AnswersAlike (fun error echoed => echoed = error.renumbered rename) Eq
        ((Parsing.step Host.inheriting).run.run run).1
        ((Parsing.step Host.inheriting).run.run echo).1 := by
  have wellFormed := GrammarBuilder.wellFormed_of_build built
  have compiled := (reachable.sound wellFormed).loaded.compiled
  have renumbers := insertion.renumbers
  have started : (parser.start document short).Sound (Host.inheriting : Host σ)
      grammar options :=
    (fresh_start compiled document short).sound _
  have sound := started.afterSteps wellFormed state steps
  have echoes := (echoes_start compiled insertion document).afterSteps renumbers
    contextless wellFormed started state state steps
  generalize Parser.afterSteps Host.inheriting steps (parser.start document short, state) =
    run at sound echoes
  generalize Parser.afterSteps Host.inheriting steps (parser.start document long, state) =
    echo at echoes
  obtain ⟨current, left⟩ := run
  obtain ⟨echoCurrent, right⟩ := echo
  have stepped := @Parsing.echoed_step _ _ _ _ _ _ _ left right renumbers
    contextless wellFormed echoes sound
  have same := fun (α : Type) (field : Parser → α) => congrArg field echoes.same
  exact ⟨renumbers.increasing, insertion.getElem?_rename, echoes.words_echo,
    echoes.store, echoes.stack_echo, same _ Parser.roots, same _ Parser.current,
    same _ Parser.wordStats, same _ Parser.totals, same _ Parser.position,
    stepped.answers⟩

/-- Two notes are inserted into the input of a parse, and a span of a nonterminal. -/
def noisyInsertion :
    sharedGrammar.Insertion
      [⟨"Word", 0, 1, Features.empty⟩, ⟨"Mark", 1, 2, Features.empty⟩]
      [⟨"Note", 0, 2, Features.empty⟩, ⟨"Word", 0, 1, Features.empty⟩,
        ⟨"S", 1, 1, Features.empty⟩, ⟨"Mark", 1, 2, Features.empty⟩,
        ⟨"Note", 2, 2, Features.empty⟩] :=
  .insert _ (by decide +kernel) <| .keep _ <|
    .insert _ (by decide +kernel) <| .keep _ <| .insert _ (by decide +kernel) .nil

private theorem contextless_sharedGrammar :
    sharedGrammar.predicates.Contextless := by
  intro id placement inner
  simp [sharedGrammar, Alphabet.get?, Alphabet.empty]

private theorem sharedStart_roots :
    (afterSteps Host.inheriting 3 (sharedStart, ())).1.roots = [7] := by
  decide +kernel

/-- The parse finds the same root, and reads the mark under its new number. -/
theorem insertion_renumbers_noisy :
    sharedBuilder.build = .ok sharedGrammar ∧
      sharedGrammar.predicates.Contextless ∧
      Reachable (Host.inheriting : Host Unit) (sharedGrammar.compile {}) {}
        (new (sharedGrammar.compile {}) {}) ∧
      noisyInsertion.rename 1 = 3 ∧
      (afterSteps Host.inheriting 3
        ((new (sharedGrammar.compile {}) {}).start ⟨"a!"⟩
          [⟨"Note", 0, 2, Features.empty⟩, ⟨"Word", 0, 1, Features.empty⟩,
            ⟨"S", 1, 1, Features.empty⟩, ⟨"Mark", 1, 2, Features.empty⟩,
            ⟨"Note", 2, 2, Features.empty⟩], ())).1.roots = [7] := by
  have reachable : Reachable (Host.inheriting : Host Unit)
      (sharedGrammar.compile {}) {} (new (sharedGrammar.compile {}) {}) :=
    .new
  obtain ⟨-, -, -, -, -, sameRoots, -⟩ := Reachable.insertion_renumbers
    build_sharedBuilder contextless_sharedGrammar reachable noisyInsertion
    ⟨"a!"⟩ () 3
  exact ⟨build_sharedBuilder, contextless_sharedGrammar, reachable, rfl,
    sameRoots.trans sharedStart_roots⟩

end Parser

end SpanForest
