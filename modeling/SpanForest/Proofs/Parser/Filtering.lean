import SpanForest.Proofs.Parser.Completeness
import SpanForest.Proofs.Parser.Placing
import SpanForest.Proofs.Parser.Rejecting
import SpanForest.Proofs.Parser.Resuming
import SpanForest.Proofs.Parser.Synthesizing

namespace SpanForest

/-!
# The prefix filter

Whatever stands in the forest of a parse with the inheriting host can be derived
from the words, whether the prefix filter is on or off. So a root begins at a word
that the filter lets pass in either case, and it can be derived from the words in
the other case as well. There it is found, unless a greedy pass removed something.

If the filter rejects only words at which nothing ahead begins what the start symbol
derives, then a parse without the filter goes through the same states, whatever a
greedy pass removes.
-/

namespace Parser

variable {σ : Type} {host : Host σ}
variable {grammar : Grammar} {options : CompileOptions} {word : Nat}
variable {config : ParserConfig}
variable {parser other start : Parser}

section Deriving

/-- What was read at the word where it begins was a candidate there. -/
theorem Sourced.candidate
    (sound : parser.Sound host grammar options)
    {id : Nat}
    (sourced : parser.Sourced id)
    {symbol : SymbolId}
    (isSymbol : (parser.spans.get id).symbol = some symbol)
    (opens : parser.Opens word (parser.spans.get id).start) :
    parser.Candidate word id := by
  have loaded := sound.loaded
  rcases sourced with inInput | ⟨base, own, stored⟩
  · obtain ⟨ahead, isAhead, member⟩ := loaded.mem_spans inInput isSymbol opens
    exact .input isAhead member
  · obtain ⟨declaration, rfl, synthesizes⟩ :=
      sound.remembers.synthesized base own id stored
    rw [SpanStore.get_of_get? synthesizes.stored] at opens
    obtain ⟨ahead, isAhead, member⟩ := loaded.mem_spans synthesizes.from_input
      synthesizes.isBase opens
    refine .synthesized isAhead member synthesizes.isBase ?_ stored
    exact List.mem_filter.mpr ⟨synthesizes.declared, beq_self_eq_true _⟩

/-- Where parts lie that begin and end at words: the first begins, each other ends one. -/
def borders (begins ends : Nat → Nat) : Nat → Nat
  | 0 => begins 0
  | position + 1 => ends position

theorem borders_of_lt
    {begins ends : Nat → Nat}
    {length : Nat}
    (meets : ∀ position, position + 1 < length →
      begins (position + 1) = ends position)
    {position : Nat}
    (inside : position < length) :
    borders begins ends position = begins position := by
  cases position with
  | zero => rfl
  | succ position => exact (meets position inside).symm

/-- A span that is derived from the word of a symbol node, and like the span of the node. -/
structure DerivedAt (parser : Parser) (word node last : Nat) (span : Span) : Prop where
  placed : parser.PlacedAt word node
  ends : (parser.stack.symbolNode node).word = some last
  derives :
    ∀ symbol, (parser.stack.symbolNode node).symbol = some symbol →
      parser.Derives word symbol span last
  alike : parser.ownSituation.Alike (parser.spanOf node) span

/-- What was read is derived as it is. -/
theorem Packed.derivedAt
    (sound : parser.Sound host grammar options)
    (packed : parser.Packed)
    {node : Nat}
    (inside : node < parser.stack.symbols.size)
    (isShifted : parser.Shifted node)
    (placedAt : parser.PlacedAt word node) :
    parser.DerivedAt word node
      (nextWord parser.words word (parser.spanOf node).stop)
      (parser.spanOf node) where
  placed := placedAt
  ends := placedAt.ends isShifted
  derives symbol isNode := by
    obtain ⟨-, own, isOwn, readable⟩ :=
      (sound.forest node inside).shifted isShifted
    rw [isNode] at isOwn
    obtain rfl := Option.some.inj isOwn
    have isSymbol := (readable.stored sound.loaded.ordered).2
    exact .read ((packed.shifted node inside isShifted).candidate sound isSymbol
      placedAt.opens) isSymbol
  alike := .refl _ _

/-- A node that stands on another one begins at the word where that one ends. -/
theorem DerivedAt.meets
    (sound : parser.Sound host grammar options)
    {node above last next : Nat}
    {span : Span}
    (derivedAt : parser.DerivedAt word node last span)
    (placedAt : parser.PlacedAt next above)
    (linked : parser.stack.Linked node above) :
    next = last := by
  obtain ⟨holder, holds, below⟩ := linked
  have isWord := (sound.stack.fits_of_mem ((holds holder).mpr rfl)).word
  rw [derivedAt.ends] at isWord
  exact (placedAt.rests holder below last isWord.symm).symm

section Reducing

variable {derivation : Derivation} {node : Nat}
variable {begins ends : Nat → Nat} {spans : Nat → Span}

/-- The nodes of a derivation are as many as the symbols of its rule. -/
theorem Yields.length_eq
    {at? : Option Nat}
    {id : Nat}
    (yields : parser.Yields host derivation at? id) :
    derivation.children.length =
      (parser.compiled.grammar.rule derivation.rule).length := by
  have lengths := congrArg List.length yields.symbols
  rwa [List.length_map, List.length_map, Rule.symbols, List.length_map]
    at lengths

/-- Nodes that lie on one another are derived from one word to the next. -/
theorem Yields.meets
    (sound : parser.Sound host grammar options)
    {at? : Option Nat}
    {id : Nat}
    (yields : parser.Yields host derivation at? id)
    (each : ∀ (position : Nat) (child : SymbolNodeId),
      derivation.children[position]? = some child →
        parser.DerivedAt (begins position) child (ends position)
          (spans position))
    {position : Nat}
    (inside : position + 1 < derivation.children.length) :
    begins (position + 1) = ends position := by
  have isLower := List.getElem?_eq_getElem (Nat.lt_of_succ_lt inside)
  have isUpper := List.getElem?_eq_getElem inside
  exact (each position _ isLower).meets sound (each (position + 1) _ isUpper).placed
    (List.isChain_iff_getElem.mp yields.linked position inside)

/-- What is born from nodes that are derived is derived. -/
theorem Yields.derivedAt
    (wellFormed : grammar.WellFormed)
    (sound : parser.Sound (Host.inheriting : Host σ) grammar options)
    (placedAt : parser.PlacedAt word node)
    (isLhs :
      (parser.stack.symbolNode node).symbol =
        some (parser.compiled.grammar.rule derivation.rule).lhs)
    (yields :
      parser.Yields (Host.inheriting : Host σ) derivation
        (parser.stack.symbolNode node).word
        (parser.stack.symbolNode node).span)
    (each : ∀ (position : Nat) (child : SymbolNodeId),
      derivation.children[position]? = some child →
        parser.DerivedAt (begins position) child (ends position)
          (spans position)) :
    ∃ last span, parser.DerivedAt word node last span := by
  have loaded := sound.loaded
  have length := yields.length_eq
  have member : parser.compiled.grammar.rule derivation.rule ∈ grammar.rules := by
    rw [← loaded.isGrammar]
    exact Grammar.rule_mem yields.user
  have nonempty := wellFormed.length_pos (Grammar.mem_allRules.mpr (.inl member))
  -- The node that stands for a part of the rule.
  have stands : ∀ (position : Nat) (part : RhsSymbol),
      (parser.compiled.grammar.rule derivation.rule).rhs[position]? = some part →
        ∃ child : SymbolNodeId, derivation.children[position]? = some child ∧
          (parser.stack.symbolNode child).symbol = some part.symbol ∧
          (parser.spansOf derivation.children)[position]? =
            some (parser.stack.symbolNode child).span := by
    intro position part isPart
    have same := congrArg (·[position]?) yields.symbols
    simp only [Rule.symbols, List.getElem?_map, isPart] at same
    obtain ⟨child, isChild, isSymbol⟩ := Option.map_eq_some_iff.mp same
    refine ⟨child, isChild, isSymbol, ?_⟩
    rw [spansOf, List.getElem?_map, isChild]
    rfl
  have derives : parser.Derives (borders begins ends 0)
      (parser.compiled.grammar.rule derivation.rule).lhs
      (parser.composed (parser.compiled.grammar.rule derivation.rule)
        ((List.range
          (parser.compiled.grammar.rule derivation.rule).length).map spans))
      (borders begins ends
        (parser.compiled.grammar.rule derivation.rule).length) := by
    refine .reduce yields.user ?_ ?_
    · intro position part isPart
      obtain ⟨child, isChild, isSymbol, -⟩ := stands position part isPart
      have inside := (List.getElem?_eq_some_iff.mp isChild).1
      rw [borders_of_lt (fun _ => yields.meets sound each) inside]
      exact (each position child isChild).derives part.symbol isSymbol
    · intro position part id isPart isPredicate
      obtain ⟨child, isChild, -, isSpan⟩ := stands position part isPart
      have paired : (part, (parser.stack.symbolNode child).span) ∈
          (parser.compiled.grammar.rule derivation.rule).rhs.zip
            (parser.spansOf derivation.children) :=
        List.mem_iff_getElem?.mpr
          ⟨position, List.getElem?_zip_eq_some.mpr ⟨isPart, isSpan⟩⟩
      exact (yields.permitted _ paired id isPredicate _
        Host.decides_inheriting).of_alike (each position child isChild).alike
  have forward := (derives.spanned wellFormed sound).proper
  rw [start_composed nonempty, stop_composed nonempty] at forward
  have alike := yields.accepted.inherits.alike_composed loaded
    (wellFormed.lhs_nonterminal member).1 (wellFormed.rootIndex_lt member)
    (by rw [spansOf, List.length_map, length])
    (fun position own stored => by
      rw [spansOf, List.getElem?_map] at stored
      obtain ⟨child, isChild, rfl⟩ := Option.map_eq_some_iff.mp stored
      exact (each position child isChild).alike)
    forward
  obtain rfl : word = begins 0 := by
    obtain ⟨child, isChild⟩ : ∃ child, derivation.children[0]? = some child :=
      ⟨_, List.getElem?_eq_getElem (length ▸ nonempty)⟩
    have first := each 0 child isChild
    refine loaded.opens_unique placedAt.opens ?_
    rw [spanOf, alike.start, start_composed nonempty, ← first.alike.start]
    exact first.placed.opens
  refine ⟨borders begins ends
    (parser.compiled.grammar.rule derivation.rule).length, _, placedAt, ?_,
    fun symbol isSymbol => ?_, alike⟩
  · obtain ⟨count, isCount⟩ := Nat.exists_eq_add_of_lt nonempty
    rw [Nat.zero_add] at isCount
    obtain ⟨child, isChild⟩ : ∃ child, derivation.children[count]? = some child :=
      ⟨_, List.getElem?_eq_getElem (by omega)⟩
    rw [← yields.word child, isCount]
    · exact (each count child isChild).ends
    · rw [List.getLast?_eq_getElem?, length, isCount]
      exact isChild
  · rw [isLhs] at isSymbol
    obtain rfl := Option.some.inj isSymbol
    exact derives

end Reducing

/-- With the inheriting host, whatever stands in the forest can be derived. -/
theorem Reachable.derivedAt
    (wellFormed : grammar.WellFormed)
    (reachable :
      Reachable (Host.inheriting : Host σ) (grammar.compile options) config
        parser)
    {node : Nat}
    (inside : node < parser.stack.symbols.size) :
    ∃ word last span, parser.DerivedAt word node last span := by
  have sound := reachable.sound wellFormed
  induction node using Nat.strong_induction_on with
  | _ node earlier =>
      obtain ⟨word, placedAt⟩ := (reachable.placed wellFormed
        Host.keepsExtent_inheriting).nodes node inside
      refine ⟨word, ?_⟩
      by_cases isShifted : parser.Shifted node
      · exact ⟨_, _, (reachable.packed wellFormed).derivedAt sound inside isShifted
          placedAt⟩
      · obtain ⟨derivation, isLhs, yields, older⟩ :=
          (sound.forest node inside).born isShifted
        have each : ∀ position : Nat, ∃ (begin last : Nat) (span : Span),
            ∀ child : SymbolNodeId, derivation.children[position]? = some child →
              parser.DerivedAt begin child last span := by
          intro position
          cases isChild : derivation.children[position]? with
          | none => exact ⟨0, 0, default, fun _ isOther => by cases isOther⟩
          | some child =>
              have member := List.mem_of_getElem? isChild
              obtain ⟨begin, last, span, derivedAt⟩ :=
                earlier child (older child member) (yields.known child member)
              exact ⟨begin, last, span, fun _ isOther => by
                obtain rfl := Option.some.inj isOther
                exact derivedAt⟩
        choose begins ends spans derivedAt using each
        exact yields.derivedAt wellFormed sound placedAt isLhs derivedAt

end Deriving

/-- Two parses by one grammar of the same words and input spans. -/
structure Alongside (parser other : Parser) : Prop where
  compiled : other.compiled = parser.compiled
  document : other.document = parser.document
  input : other.input = parser.input
  words : other.words = parser.words
  spans : ∀ id ∈ parser.input, other.spans.get id = parser.spans.get id

namespace Alongside

variable {otherConfig : ParserConfig}
variable (alongside : parser.Alongside other)
include alongside

/-- The same predicates are true of the same spans. -/
theorem situation_eq (decide : String → Span → Bool) :
    other.situation decide = parser.situation decide := by
  simp only [situation, ParseContext.situation, context, alongside.compiled,
    alongside.document, alongside.input]
  rw [List.map_congr_left alongside.spans]

variable (wellFormed : grammar.WellFormed)
variable (reached :
  Reachable (Host.inheriting : Host σ) (grammar.compile options) config parser)
variable (otherReached :
  Reachable (Host.inheriting : Host σ) (grammar.compile options) otherConfig
    other)
include wellFormed reached otherReached

/-- What was entered for a span in one parse is entered for it in the other one. -/
theorem exists_entered
    {base : Nat}
    (fromInput : base ∈ parser.input)
    {symbol : SymbolId}
    {id : SpanId}
    (stored :
      parser.synthesized[((base, symbol) : SpanId × SymbolId)]? = some (some id))
    {made : Option SpanId}
    (otherStored :
      other.synthesized[((base, symbol) : SpanId × SymbolId)]? = some made) :
    ∃ twin, made = some twin := by
  obtain ⟨-, own, declaration, isOwn, isFirst, tells⟩ :=
    reached.firstDecides wellFormed base symbol (some id) stored
  obtain ⟨-, otherOwn, otherDeclaration, isOtherOwn, isOtherFirst, otherTells⟩ :=
    otherReached.firstDecides wellFormed base symbol made otherStored
  rw [alongside.spans base fromInput, isOwn] at isOtherOwn
  obtain rfl := Option.some.inj isOtherOwn
  rw [alongside.compiled, isFirst] at isOtherFirst
  obtain rfl := Option.some.inj isOtherFirst
  have truth := tells _ Host.decides_inheriting
  have otherTruth := otherTells _ Host.decides_inheriting
  rw [alongside.situation_eq, alongside.spans base fromInput] at otherTruth
  exact Option.isSome_iff_exists.mp (otherTruth.unique truth)

/-- What is ahead at a word in one parse is ahead in the other one, if it draws all. -/
theorem exists_candidate
    (drawn : other.AllDrawn word)
    {id : Nat}
    (candidate : parser.Candidate word id) :
    ∃ twin, other.Candidate word twin ∧
      (other.spans.get twin).symbol = (parser.spans.get id).symbol ∧
      parser.ownSituation.Alike (parser.spans.get id)
        (other.spans.get twin) := by
  have sound := reached.sound wellFormed
  cases candidate with
  | input isAhead member =>
      have fromInput := (sound.loaded.word_known isAhead member).1
      refine ⟨id, .input (alongside.words ▸ isAhead) member, ?_, ?_⟩
      · rw [alongside.spans id fromInput]
      · rw [alongside.spans id fromInput]
        exact .refl _ _
  | @synthesized ahead base _ own declaration isAhead member isBase declared
      stored =>
      have fromInput := (sound.loaded.word_known isAhead member).1
      have isOtherBase := isBase
      have otherAhead := isAhead
      have otherDeclared := declared
      rw [← alongside.spans base fromInput] at isOtherBase
      rw [← alongside.words] at otherAhead
      rw [← alongside.compiled] at otherDeclared
      obtain ⟨made, otherStored⟩ := drawn ahead otherAhead base member own
        isOtherBase declaration otherDeclared
      obtain ⟨twin, rfl⟩ := alongside.exists_entered wellFormed reached
        otherReached fromInput stored otherStored
      obtain ⟨copies, notInput⟩ :=
        (reached.packed wellFormed).copies_of_entered wellFormed sound stored
      obtain ⟨otherCopies, notOtherInput⟩ :=
        (otherReached.packed wellFormed).copies_of_entered wellFormed
          (otherReached.sound wellFormed) otherStored
      rw [alongside.input] at notOtherInput
      refine ⟨twin, .synthesized otherAhead member isOtherBase otherDeclared
        otherStored, ?_, ?_⟩
      · rw [SpanStore.get_of_get? copies, SpanStore.get_of_get? otherCopies]
        rfl
      · rw [SpanStore.get_of_get? copies, SpanStore.get_of_get? otherCopies,
          alongside.compiled, alongside.spans base fromInput]
        refine ⟨rfl, rfl, rfl, rfl, fun sibling listed => ?_, fun _ => rfl⟩
        obtain ⟨sourceId, inInput, rfl⟩ := List.mem_map.mp listed
        have ordered := sound.loaded.ordered
        rw [show (parser.context.spans.get sourceId).id = sourceId from
          ordered.span_id sourceId (ordered.input_known sourceId inInput)]
        refine iff_of_false ?_ ?_
        · rintro rfl
          exact notInput inInput
        · rintro rfl
          exact notOtherInput inInput

/-- A rule composes alike spans from alike spans in both parses. -/
theorem alike_composed
    {rule : Rule}
    (inside : rule.rootIndex < rule.length)
    {spans twins : Nat → Span}
    (alike : ∀ position, position < rule.length →
      parser.ownSituation.Alike (spans position) (twins position)) :
    parser.ownSituation.Alike
      (parser.composed rule ((List.range rule.length).map spans))
      (other.composed rule ((List.range rule.length).map twins)) := by
  have nonempty : 0 < rule.length := Nat.zero_lt_of_lt inside
  have ordered := (reached.sound wellFormed).loaded.ordered
  have otherOrdered := (otherReached.sound wellFormed).loaded.ordered
  constructor
  case typeName =>
    change parser.compiled.grammar.name rule.lhs =
      other.compiled.grammar.name rule.lhs
    rw [alongside.compiled]
  case start =>
    rw [start_composed nonempty, start_composed nonempty]
    exact (alike 0 nonempty).start
  case stop =>
    rw [stop_composed nonempty, stop_composed nonempty]
    exact (alike (rule.length - 1) (by omega)).stop
  case features =>
    rw [features_composed inside, features_composed inside]
    exact (alike rule.rootIndex inside).features
  case number =>
    intro sibling listed
    obtain ⟨own, fromInput, rfl⟩ := List.mem_map.mp listed
    have known := ordered.input_known own fromInput
    have otherFromInput : own ∈ other.input := by
      rw [alongside.input]
      exact fromInput
    have otherKnown := otherOrdered.input_known own otherFromInput
    rw [show (parser.context.spans.get own).id = own from
      ordered.span_id own known]
    exact iff_of_false (Nat.ne_of_lt known) (Nat.ne_of_lt otherKnown)
  case decided => exact fun _ => rfl

/-- What is derived in one parse is derived in the other one, if it draws all. -/
theorem exists_derives
    (drawn : ∀ word, other.AllDrawn word)
    {last : Nat}
    {symbol : SymbolId}
    {span : Span}
    (derives : parser.Derives word symbol span last) :
    ∃ twin, other.Derives word symbol twin last ∧
      parser.ownSituation.Alike span twin := by
  have sound := reached.sound wellFormed
  induction derives with
  | @read word id symbol candidate isSymbol =>
      obtain ⟨twin, otherCandidate, sameSymbol, alike⟩ :=
        alongside.exists_candidate wellFormed reached otherReached (drawn word)
          candidate
      refine ⟨_, ?_, alike⟩
      rw [← alongside.words, alike.stop]
      exact .read otherCandidate (sameSymbol.trans isSymbol)
  | @reduce rule words spans user parts holds inductionHypothesis =>
      have each : ∀ position : Nat, ∃ twin : Span, ∀ part : RhsSymbol,
          (parser.compiled.grammar.rule rule).rhs[position]? = some part →
            other.Derives (words position) part.symbol twin
                (words (position + 1)) ∧
              parser.ownSituation.Alike (spans position) twin := by
        intro position
        cases isPart : (parser.compiled.grammar.rule rule).rhs[position]? with
        | none => exact ⟨default, fun _ isOther => by cases isOther⟩
        | some part =>
            obtain ⟨twin, both⟩ := inductionHypothesis position part isPart
            exact ⟨twin, fun _ isOther => Option.some.inj isOther ▸ both⟩
      choose twins derivesTwin using each
      have member : parser.compiled.grammar.rule rule ∈ grammar.rules := by
        rw [← sound.loaded.isGrammar]
        exact Grammar.rule_mem user
      have alike := alongside.alike_composed wellFormed reached otherReached
        (wellFormed.rootIndex_lt member) fun position inside =>
          (derivesTwin position _ (List.getElem?_eq_getElem inside)).2
      refine ⟨_, ?_, alike⟩
      rw [← alongside.compiled] at user holds derivesTwin ⊢
      refine .reduce user (fun position part isPart =>
        (derivesTwin position part isPart).1) ?_
      intro position part id isPart isPredicate
      rw [ownSituation, alongside.situation_eq]
      exact (holds position part id isPart isPredicate).of_alike
        (derivesTwin position part isPart).2

end Alongside

/-- A root is derived for the start symbol from a word that no filter rules out. -/
theorem Reachable.exists_derives_of_root
    (wellFormed : grammar.WellFormed)
    (reachable :
      Reachable (Host.inheriting : Host σ) (grammar.compile options) config
        parser)
    (loaded : start.Loaded grammar options)
    (advances : start.Advances parser)
    {root : Nat}
    (listed : root ∈ parser.roots) :
    ∃ word last span,
      parser.Opens word (parser.spanOf root).start ∧
        (∀ filtered, (viableWords start.compiled filtered start.spans
          start.words).contains word = true) ∧
        parser.Derives word grammar.start span last ∧
        parser.ownSituation.Alike (parser.spanOf root) span := by
  have sound := reachable.sound wellFormed
  have isRoot := (sound.rooted root).mp listed
  obtain ⟨word, last, span, derivedAt⟩ :=
    reachable.derivedAt wellFormed isRoot.inside
  have derives := derivedAt.derives grammar.start
    (isRoot.symbol.trans (by rw [sound.loaded.isGrammar]))
  exact ⟨word, last, span, derivedAt.placed.opens,
    derives.viable wellFormed sound loaded advances, derives, derivedAt.alike⟩

/-- What is the extent of a root in one parse is one in an exhausted parse, too. -/
theorem Alongside.rootExtents_subset
    (alongside : parser.Alongside other)
    (wellFormed : grammar.WellFormed)
    {otherConfig : ParserConfig}
    (reachable :
      Reachable (Host.inheriting : Host σ) (grammar.compile options) config
        parser)
    (otherReachable :
      Reachable (Host.inheriting : Host σ) (grammar.compile options) otherConfig
        other)
    {otherStart : Parser}
    (loaded : start.Loaded grammar options)
    (otherLoaded : otherStart.Loaded grammar options)
    (advances : start.Advances parser)
    (otherAdvances : otherStart.Advances other)
    (viable :
      otherStart.viable =
        viableWords otherStart.compiled otherStart.config.filtered
          otherStart.spans otherStart.words)
    (exhausted : Exhausted σ grammar options other)
    (live : other.stack.Live) :
    parser.rootExtents ⊆ other.rootExtents := by
  intro extent isExtent
  obtain ⟨root, listed, rfl⟩ := List.mem_map.mp isExtent
  obtain ⟨word, last, span, -, -, derives, alike⟩ :=
    reachable.exists_derives_of_root wellFormed loaded advances listed
  obtain ⟨twin, otherDerives, twinAlike⟩ := alongside.exists_derives wellFormed
    reachable otherReachable exhausted.drawn derives
  obtain ⟨otherRoot, isOtherRoot, otherAlike⟩ := exhausted.rooted wellFormed live
    otherLoaded otherAdvances viable otherDerives
  refine List.mem_map.mpr ⟨otherRoot, isOtherRoot, ?_⟩
  rw [otherAlike.start, otherAlike.stop, alike.start, alike.stop,
    twinAlike.start, twinAlike.stop]

/-- A parser with the prefix filter on or off. -/
def withFilter
    (compiled : CompiledGrammar)
    (config : ParserConfig)
    (filtered : Bool) :
    Parser :=
  new compiled { config with filtered := filtered }

/-- A parse that begins with the prefix filter on. -/
def filteredStart
    (compiled : CompiledGrammar)
    (config : ParserConfig)
    (document : Document)
    (input : List InputSpan) :
    Parser :=
  (withFilter compiled config true).start document input

/-- Some steps of a parse with the inheriting host, with the prefix filter on or off. -/
def filterRun
    (compiled : CompiledGrammar)
    (config : ParserConfig)
    (document : Document)
    (input : List InputSpan)
    (state : σ)
    (filtered : Bool)
    (count : Nat) :
    Parser × σ :=
  afterSteps Host.inheriting count
    ((withFilter compiled config filtered).start document input, state)

section Runs

variable {document : Document} {input : List InputSpan} {state : σ}
variable {filtered otherFiltered : Bool} {count otherCount : Nat}

theorem reachable_filterRun :
    Reachable (Host.inheriting : Host σ) (grammar.compile options)
      { config with filtered := filtered }
      (filterRun (grammar.compile options) config document input state filtered
        count).1 :=
  (Reachable.start document input .new).afterSteps state count

theorem loaded_withFilter :
    ((withFilter (grammar.compile options) config filtered).start document
      input).Loaded grammar options :=
  have isCompiled : (withFilter (grammar.compile options) config
      filtered).compiled = grammar.compile options :=
    rfl
  (fresh_start isCompiled document input).loaded

theorem advances_filterRun :
    ((withFilter (grammar.compile options) config filtered).start document
      input).Advances
        (filterRun (grammar.compile options) config document input state filtered
          count).1 :=
  advances_afterSteps Host.inheriting _ state count

/-- Parses with and without the filter are of the same words and spans. -/
theorem alongside_filterRun :
    (filterRun (grammar.compile options) config document input state filtered
      count).1.Alongside
      (filterRun (grammar.compile options) config document input state
        otherFiltered otherCount).1 := by
  have advances := @advances_filterRun σ grammar options config document input
    state filtered count
  have otherAdvances := @advances_filterRun σ grammar options config document
    input state otherFiltered otherCount
  have ordered := (@loaded_withFilter grammar options config document input
    filtered).ordered
  constructor
  case compiled => exact otherAdvances.compiled.trans advances.compiled.symm
  case document => exact otherAdvances.document.trans advances.document.symm
  case input => exact otherAdvances.input.trans advances.input.symm
  case words => exact otherAdvances.words.trans advances.words.symm
  case spans =>
    intro id fromInput
    rw [advances.input] at fromInput
    have known := ordered.input_known id fromInput
    exact (otherAdvances.spans.get known).2.trans (advances.spans.get known).2.symm

/-- What turning the prefix filter off changes when a document was loaded. -/
def unfiltered (parser : Parser) : Aside where
  filtered := fun _ => false
  viable := fun _ => viableWords parser.compiled false parser.spans parser.words

/-- With the filter off, no more is different than the setting and the viable words. -/
theorem withAside_unfiltered
    (isConfig : parser.config = { config with filtered := true }) :
    parser.withAside (unfiltered start) =
      { parser with
        config := { config with filtered := false }
        viable := (parser.withAside (unfiltered start)).viable } := by
  unfold withAside
  rw [isConfig]
  rfl

/-- Where barren words only are rejected, turning the filter off lets in idle words only. -/
theorem RejectsBarren.idleAside
    (wellFormed : grammar.WellFormed)
    (loaded : start.Loaded grammar options)
    (rejects : start.RejectsBarren) :
    start.IdleAside (unfiltered start) where
  truths _ := rfl
  words word inside := by
    have letIn : ((unfiltered start).viable start.viable).contains word = true := by
      simpa [unfiltered, viableWords] using inside
    cases viable : start.viable.contains word with
    | true => exact .inl letIn
    | false => exact .inr ⟨rfl, (rejects word inside viable).idle wellFormed loaded⟩

/-- Where the filter rejects barren words only, a parse without it is the same. -/
theorem run_parse_unfiltered
    (host : Host σ)
    (wellFormed : grammar.WellFormed)
    (rejects : (filteredStart (grammar.compile options) config document
      input).RejectsBarren) :
    (Parsing.parse host document input).run.run
        (withFilter (grammar.compile options) config false, state) =
      Parsing.besides
        (unfiltered (filteredStart (grammar.compile options) config document
          input))
        ((Parsing.parse host document input).run.run
          (withFilter (grammar.compile options) config true, state)) :=
  Parsing.run_parse_idle wellFormed rfl rfl
    (rejects.idleAside wellFormed loaded_withFilter) state

/--
The prefix filter and greedy passes. With the inheriting host, if no word reaches
its limit, a parse returns with the filter and without it. Whatever root it returns
begins at a word that the filter lets pass. And its extent is found in the other
case too, provided that no greedy pass removes anything there; so the roots have
the same extents if none removes anything in either case.

Whatever is removed, both parses end in the same state if the filter rejects only
words at which nothing ahead begins what the start symbol derives, as it does with
prefixes of one symbol.
-/
theorem parse_filtered
    {builder : GrammarBuilder}
    (built : builder.build = .ok grammar)
    (acyclic : grammar.predicates.Acyclic)
    (uncapped : ∀ filtered count,
      (filterRun (grammar.compile options) config document input state filtered
        count).1.capped = false) :
    ∃ after : Bool → Parser × σ,
      (∀ filtered,
        (Parsing.parse Host.inheriting document input).run.run
            (withFilter (grammar.compile options) config filtered, state) =
            (.ok (after filtered).1.roots, after filtered) ∧
          (∀ root ∈ (after filtered).1.roots, ∃ word,
            (after true).1.viable.contains word = true ∧
              (after filtered).1.Opens word
                ((after filtered).1.spanOf root).start) ∧
          ((∀ count, (filterRun (grammar.compile options) config document input
              state (!filtered) count).1.stack.Live) →
            (after filtered).1.rootExtents ⊆ (after !filtered).1.rootExtents)) ∧
      ((filteredStart (grammar.compile options) config document
          input).RejectsBarren →
        (after false).1.rootExtents = (after true).1.rootExtents ∧
          after false =
            ({ (after true).1 with
              config := { config with filtered := false }
              viable := (after false).1.viable }, (after true).2)) ∧
      (options.prefixLength ≤ 1 →
        (filteredStart (grammar.compile options) config document
          input).RejectsBarren) := by
  have wellFormed := GrammarBuilder.wellFormed_of_build built
  have terms : (Host.inheriting : Host σ).Terms grammar False :=
    Host.terms_inheriting wellFormed acyclic
  have compiled : ∀ filtered, (withFilter (grammar.compile options) config
      filtered).compiled = grammar.compile options :=
    fun _ => rfl
  have returns := fun filtered =>
    parse_returns terms (compiled filtered) document input state
  choose count isRun finished using returns
  refine ⟨fun filtered => filterRun (grammar.compile options) config document
    input state filtered (count filtered), fun filtered =>
      ⟨isRun filtered, fun root listed => ?_, fun live => ?_⟩, fun rejects => ?_,
    fun short word => loaded_withFilter.barren_of_rejected wellFormed short⟩
  · obtain ⟨word, -, -, opens, viable, -⟩ :=
      reachable_filterRun.exists_derives_of_root wellFormed loaded_withFilter
        advances_filterRun listed
    refine ⟨word, ?_, opens⟩
    rw [show (filterRun _ _ _ _ _ true (count true)).1.viable = _ from
      advances_filterRun.viable]
    exact viable true
  · have workedOut := parse_workedOut terms (compiled !filtered) document input
      state (fun earlier => ⟨uncapped (!filtered) earlier, live earlier⟩)
      (count !filtered)
    exact alongside_filterRun.rootExtents_subset wellFormed reachable_filterRun
      reachable_filterRun loaded_withFilter loaded_withFilter advances_filterRun
      advances_filterRun rfl (workedOut.exhausted (finished !filtered))
      workedOut.live
  · have sameRun := @run_parse_unfiltered _ _ _ _ _ _ state Host.inheriting
      wellFormed rejects
    rw [isRun, isRun] at sameRun
    have sameEnd : filterRun (grammar.compile options) config document input state
        false (count false) = _ :=
      (Prod.mk.inj sameRun).2
    dsimp only
    rw [sameEnd]
    exact ⟨rfl, congrArg (Prod.mk · _)
      (withAside_unfiltered advances_filterRun.config)⟩

end Runs

end Parser

section Sample

/-- The declarations of `S → Open G Close | G Mark`, `G → Short | Long`. -/
def bracketBuilder : GrammarBuilder where
  terminals := ["Open", "Long", "Short", "Close", "Mark"]
  rules :=
    [⟨"S", [⟨"Open", none, none⟩, ⟨"G", none, none⟩, ⟨"Close", none, none⟩], 0,
        none, none⟩,
      ⟨"S", [⟨"G", none, none⟩, ⟨"Mark", none, none⟩], 0, none, none⟩,
      ⟨"G", [⟨"Short", none, none⟩], 0, none, none⟩,
      ⟨"G", [⟨"Long", none, none⟩], 0, none, some true⟩]
  predicates := Alphabet.empty
  start := some "S"
  defaultGreedy := none
  defaultWeight := none
  synthesized := []
  outputs := []

/--
The grammar `S → Open G Close | G Mark`, `G → Short | Long` in numbers; the last
rule is greedy.
-/
def bracketGrammar : Grammar where
  symbols :=
    #[⟨"$", false⟩, ⟨"ε", false⟩, ⟨"S'", true⟩, ⟨"S", true⟩, ⟨"G", true⟩,
      ⟨"Open", false⟩, ⟨"Long", false⟩, ⟨"Short", false⟩, ⟨"Close", false⟩,
      ⟨"Mark", false⟩]
  rules :=
    #[⟨0, 3, [⟨5, none, none⟩, ⟨4, none, none⟩, ⟨8, none, none⟩], 0, 1.0, false⟩,
      ⟨1, 3, [⟨4, none, none⟩, ⟨9, none, none⟩], 0, 1.0, false⟩,
      ⟨2, 4, [⟨7, none, none⟩], 0, 1.0, false⟩,
      ⟨3, 4, [⟨6, none, none⟩], 0, 1.0, true⟩]
  start := 3
  predicates := Alphabet.empty
  synthesized := []
  outputs := BitSet.ofList []

/-- Building the declarations yields the grammar. -/
theorem build_bracketBuilder :
    bracketBuilder.build = .ok bracketGrammar := by
  simp [bracketBuilder, bracketGrammar, GrammarBuilder.build,
    GrammarBuilder.addNonterminals, GrammarBuilder.addTerminals,
    GrammarBuilder.addSynthesized, GrammarBuilder.checkOperands,
    GrammarBuilder.resolveRules, GrammarBuilder.resolveRule,
    GrammarBuilder.resolveElement, GrammarBuilder.resolveStart,
    requireSymbol, addSymbol, findSymbol?, reservedSymbols, maxSymbols,
    rootSymbol, List.findIdx?_cons, Alphabet.toList, Alphabet.empty, bind,
    Except.bind, pure, Except.pure]

namespace Parser

/-- An opening bracket, a short word and a closing bracket. -/
def bracketed : List InputSpan :=
  [⟨"Open", 0, 2, Features.empty⟩, ⟨"Short", 2, 3, Features.empty⟩,
    ⟨"Close", 3, 4, Features.empty⟩]

/-- The same, with a long word that begins inside the opening bracket. -/
def overlapped : List InputSpan :=
  ⟨"Long", 1, 3, Features.empty⟩ :: bracketed

/-- An opening bracket, a long word that ends in a short one, and a closing bracket. -/
def embraced : List InputSpan :=
  [⟨"Open", 0, 1, Features.empty⟩, ⟨"Long", 1, 3, Features.empty⟩,
    ⟨"Short", 2, 3, Features.empty⟩, ⟨"Close", 3, 4, Features.empty⟩]

/-- Steps of a parse of brackets and words, with greedy passes. -/
def bracketRun (input : List InputSpan) : Bool → Nat → Parser × Unit :=
  filterRun (bracketGrammar.compile {}) {} ⟨"abcd"⟩ input ()

/-- What a parse of brackets and words returns, and what it leaves. -/
def bracketParse
    (input : List InputSpan)
    (filtered : Bool) :
    Except ParseError (List SymbolNodeId) × Parser × Unit :=
  (Parsing.parse Host.inheriting ⟨"abcd"⟩ input).run.run
    (withFilter (bracketGrammar.compile {}) {} filtered, ())

/-- Steps of a parse of embraced words, filtered by prefixes of one symbol. -/
def embracedRun : Bool → Nat → Parser × Unit :=
  filterRun (bracketGrammar.compile { prefixLength := 1 }) {} ⟨"abcd"⟩ embraced ()

/-- What a parse of embraced words returns, and what it leaves. -/
def embracedParse (filtered : Bool) :
    Except ParseError (List SymbolNodeId) × Parser × Unit :=
  (Parsing.parse Host.inheriting ⟨"abcd"⟩ embraced).run.run
    (withFilter (bracketGrammar.compile { prefixLength := 1 }) {} filtered, ())

private theorem acyclic_bracketGrammar : bracketGrammar.predicates.Acyclic :=
  PredicateAlphabet.acyclic_empty

private theorem bracketRun_facts :
    (∀ filtered,
      ((bracketRun bracketed filtered 4).1.started = true ∧
        (bracketRun bracketed filtered 4).1.isFinished = true ∧
        ∀ count < 4 + 1, (bracketRun bracketed filtered count).1.capped = false ∧
          (bracketRun bracketed filtered count).1.stack.Live) ∧
      (bracketRun overlapped filtered 5).1.started = true ∧
        (bracketRun overlapped filtered 5).1.isFinished = true ∧
        ∀ count < 5 + 1,
          (bracketRun overlapped filtered count).1.capped = false) ∧
      (bracketParse overlapped true).2.1.rootExtents = [(0, 4)] ∧
      (bracketParse overlapped false).2.1.rootExtents = [] := by
  decide +kernel

private theorem embracedRun_facts :
    (∀ filtered,
      (embracedRun filtered 5).1.started = true ∧
        (embracedRun filtered 5).1.isFinished = true ∧
        ∀ count < 5 + 1, (embracedRun filtered count).1.capped = false) ∧
      (embracedParse true).2.1.rootExtents = [(0, 4)] ∧
      ¬(embracedParse true).2.1.stack.Live := by
  decide +kernel

private theorem calm_bracketed
    (filtered : Bool)
    (count : Nat) :
    (bracketRun bracketed filtered count).1.capped = false ∧
      (bracketRun bracketed filtered count).1.stack.Live := by
  obtain ⟨started, finished, few⟩ := (bracketRun_facts.1 filtered).1
  exact @forall_afterSteps _ _ (fun parser => parser.capped = false ∧
    parser.stack.Live) _ 4 started finished few count

private theorem uncapped_overlapped
    (filtered : Bool)
    (count : Nat) :
    (bracketRun overlapped filtered count).1.capped = false := by
  obtain ⟨started, finished, few⟩ := (bracketRun_facts.1 filtered).2
  exact @forall_afterSteps _ _ (fun parser => parser.capped = false) _ 5 started
    finished few count

private theorem uncapped_embraced
    (filtered : Bool)
    (count : Nat) :
    (embracedRun filtered count).1.capped = false := by
  obtain ⟨started, finished, few⟩ := embracedRun_facts.1 filtered
  exact @forall_afterSteps _ _ (fun parser => parser.capped = false) _ 5 started
    finished few count

/--
Where nothing is removed, brackets have the same extent with the filter as without;
and so they have where a short word is removed, if one symbol decides.
-/
theorem parse_filtered_bracketed :
    bracketBuilder.build = .ok bracketGrammar ∧
      bracketGrammar.predicates.Acyclic ∧
      (∀ filtered count,
        (bracketRun bracketed filtered count).1.capped = false) ∧
      (∀ filtered count, (bracketRun bracketed filtered count).1.stack.Live) ∧
      (∃ after : Bool → Parser × Unit,
        (∀ filtered, bracketParse bracketed filtered =
          (.ok (after filtered).1.roots, after filtered)) ∧
        (after true).1.rootExtents ⊆ (after false).1.rootExtents ∧
        (after false).1.rootExtents ⊆ (after true).1.rootExtents) ∧
      (∀ filtered count, (embracedRun filtered count).1.capped = false) ∧
      ∃ after : Bool → Parser × Unit,
        (∀ filtered, embracedParse filtered =
          (.ok (after filtered).1.roots, after filtered)) ∧
        ¬(after true).1.stack.Live ∧
        (after true).1.rootExtents = [(0, 4)] ∧
        (after false).1.rootExtents = [(0, 4)] := by
  have uncapped := fun filtered count => (calm_bracketed filtered count).1
  have live := fun filtered count => (calm_bracketed filtered count).2
  obtain ⟨after, returns, -⟩ := parse_filtered build_bracketBuilder
    acyclic_bracketGrammar uncapped
  refine ⟨build_bracketBuilder, acyclic_bracketGrammar, uncapped, live, ⟨after,
    fun filtered => (returns filtered).1, (returns true).2.2 (live false),
    (returns false).2.2 (live true)⟩, uncapped_embraced, ?_⟩
  obtain ⟨after, returns, same, rejects⟩ := parse_filtered build_bracketBuilder
    acyclic_bracketGrammar uncapped_embraced
  have isRun : ∀ filtered, embracedParse filtered =
      (.ok (after filtered).1.roots, after filtered) :=
    fun filtered => (returns filtered).1
  have extents := embracedRun_facts.2
  rw [isRun] at extents
  exact ⟨after, isRun, extents.2, extents.1,
    (same (rejects (Nat.le_refl 1))).1.trans extents.1⟩

/--
Without the filter, the long word is reduced although no bracket can follow it. The
greedy pass then removes the short word, and with it the root that the parse with
the filter ends with.
-/
theorem filter_matters_overlapped :
    bracketBuilder.build = .ok bracketGrammar ∧
      bracketGrammar.predicates.Acyclic ∧
      (∀ filtered count,
        (bracketRun overlapped filtered count).1.capped = false) ∧
      ({} : ParserConfig).greedy = true ∧
      ∃ after : Bool → Parser × Unit,
        (∀ filtered, bracketParse overlapped filtered =
          (.ok (after filtered).1.roots, after filtered)) ∧
        (after true).1.rootExtents = [(0, 4)] ∧
        (after false).1.rootExtents = [] := by
  refine ⟨build_bracketBuilder, acyclic_bracketGrammar, uncapped_overlapped, rfl,
    fun filtered => (bracketParse overlapped filtered).2, fun filtered => ?_,
    bracketRun_facts.2⟩
  have compiled : (withFilter (bracketGrammar.compile {}) {} filtered).compiled =
      bracketGrammar.compile {} :=
    rfl
  obtain ⟨count, isRun, -⟩ := parse_returns (Host.terms_inheriting
    (GrammarBuilder.wellFormed_of_build build_bracketBuilder)
    acyclic_bracketGrammar) compiled ⟨"abcd"⟩ overlapped ()
  simp only [bracketParse, isRun]

end Parser

end Sample

end SpanForest
