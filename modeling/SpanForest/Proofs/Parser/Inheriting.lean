import SpanForest.Proofs.Parser.Derivable

namespace SpanForest

/-!
# What the inheriting host produces

The inheriting host declines no rule. What it lets a rule produce begins with the
first span of the right-hand side, stops with the last one, and has the features
of the one at the root index. So what it produces from spans is what the rule
composes from spans that predicates cannot tell from them.
-/

namespace Parser

variable {σ : Type} {grammar : Grammar} {options : CompileOptions}
variable {parser : Parser} {rule otherRule : Rule}
variable {ids otherIds : List SpanId} {id other : Nat}

/-- A span that a rule produced from spans with the features of one of them. -/
structure Inherits
    (parser : Parser)
    (rule : Rule)
    (ids : List SpanId)
    (id : Nat) : Prop where
  committed : id < parser.spans.size
  symbol : (parser.spans.get id).symbol = some rule.lhs
  typeName :
    (parser.spans.get id).typeName = parser.compiled.grammar.name rule.lhs
  start :
    ∀ first, ids.head? = some first →
      (parser.spans.get id).start = (parser.spans.get first).start
  stop :
    ∀ first last, ids.head? = some first → ids.getLast? = some last →
      (parser.spans.get id).stop =
        max (parser.spans.get last).stop (parser.spans.get first).start
  features :
    ∀ root, ids[rule.rootIndex]? = some root →
      (parser.spans.get id).features = (parser.spans.get root).features

/-- Inheriting changes the features only. -/
theorem inheritFeatures_eq (target : Span) (rhs : List Span) :
    inheritFeatures rule target rhs =
      { target with
        features :=
          (rhs[rule.rootIndex]?.map Span.features).getD target.features } := by
  unfold inheritFeatures
  split <;> simp_all

/-- What the inheriting host accepted was produced by inheriting. -/
theorem Accepts.inherits
    (accepts : parser.Accepts (Host.inheriting : Host σ) rule ids id) :
    parser.Inherits rule ids id := by
  obtain ⟨spans, state, answer, answered, rfl, -, same, isStored⟩ := accepts.shown
  have isAnswer : inheritFeatures rule
      ({ parser with spans := spans }.target rule (ids.map spans.get))
      (ids.map spans.get) = answer := by
    simpa [asked, Host.inheriting] using answered
  rw [same, inheritFeatures_eq] at isAnswer
  rw [SpanStore.committed_eq (by rw [← isAnswer]; rfl)] at isStored
  have isSpan := (SpanStore.get_of_get? isStored).trans isAnswer.symm
  have committed := SpanStore.lt_of_get? isStored
  constructor
  case committed => exact committed
  case symbol => rw [isSpan]; rfl
  case typeName => rw [isSpan]; rfl
  case start =>
    intro first isFirst
    rw [isSpan]
    simp [target, Span.new, List.headD_eq_head?_getD, isFirst]
  case stop =>
    intro first last isFirst isLast
    rw [isSpan]
    simp [target, Span.new, List.headD_eq_head?_getD,
      List.getLastD_eq_getLast?, isFirst, isLast]
  case features =>
    intro root isRoot
    rw [isSpan]
    simp [isRoot]

/-- The inheriting host declines nothing. -/
theorem not_declines_inheriting :
    ¬ parser.Declines (Host.inheriting : Host σ) rule ids := by
  rintro ⟨spans, state, -, -, isNone | ⟨reason, isRejection⟩⟩
  · simp [asked, Host.inheriting] at isNone
  · simp [asked, Host.inheriting] at isRejection

/-- Input spans have other numbers than spans of nonterminals. -/
theorem Loaded.number_ne
    (loaded : parser.Loaded grammar options)
    {symbol : SymbolId}
    (nonterminal : grammar.isNonterminal symbol = true)
    (committed : id < parser.spans.size)
    (isSymbol : (parser.spans.get id).symbol = some symbol)
    {sibling : Span}
    (member : sibling ∈ parser.ownSituation.input) :
    sibling.id ≠ (parser.spans.get id).id := by
  obtain ⟨own, inInput, rfl⟩ := List.mem_map.mp member
  rw [show (parser.context.spans.get own).id = own from
      loaded.ordered.span_id own (loaded.ordered.input_known own inInput),
    show (parser.spans.get id).id = id from loaded.ordered.span_id id committed]
  rintro rfl
  rw [(loaded.input_terminal own inInput symbol isSymbol).1] at nonterminal
  cases nonterminal

/-- Predicates cannot tell equivalent spans apart that were produced for one symbol. -/
theorem Inherits.alike
    (loaded : parser.Loaded grammar options)
    (inherits : parser.Inherits rule ids id)
    (otherInherits : parser.Inherits otherRule otherIds other)
    (sameLhs : otherRule.lhs = rule.lhs)
    (nonterminal : grammar.isNonterminal rule.lhs = true)
    (isSpan : other = id ∨
      (parser.spans.get other).equivalent (parser.spans.get id) = true) :
    parser.ownSituation.Alike (parser.spans.get other)
      (parser.spans.get id) := by
  rcases isSpan with rfl | equivalent
  · exact .refl _ _
  · simp only [Span.equivalent, Bool.and_eq_true, beq_iff_eq] at equivalent
    obtain ⟨⟨⟨⟨⟨start, stop⟩, -⟩, -⟩, -⟩, features⟩ := equivalent
    constructor
    case typeName =>
      rw [otherInherits.typeName, inherits.typeName, sameLhs]
    case start => exact start
    case stop => exact stop
    case features => exact features
    case number =>
      intro sibling member
      have left := loaded.number_ne nonterminal otherInherits.committed
        (otherInherits.symbol.trans (congrArg some sameLhs)) member
      have right := loaded.number_ne nonterminal inherits.committed
        inherits.symbol member
      exact iff_of_false left right
    case decided => exact fun _ => rfl

/-- A rule produces from spans what it composes from spans like them. -/
theorem Inherits.alike_composed
    (loaded : parser.Loaded grammar options)
    (inherits : parser.Inherits rule ids id)
    (nonterminal : grammar.isNonterminal rule.lhs = true)
    (inside : rule.rootIndex < rule.length)
    (length : ids.length = rule.length)
    {spans : Nat → Span}
    (alike : ∀ position own, ids[position]? = some own →
      parser.ownSituation.Alike (parser.spans.get own) (spans position))
    (forward : (spans 0).start ≤ (spans (rule.length - 1)).stop) :
    parser.ownSituation.Alike (parser.spans.get id)
      (parser.composed rule ((List.range rule.length).map spans)) := by
  have nonempty : 0 < rule.length := Nat.zero_lt_of_lt inside
  have firstStored := List.getElem?_eq_getElem (length ▸ nonempty)
  obtain ⟨final, lastStored⟩ : ∃ final, ids[rule.length - 1]? = some final :=
    ⟨_, List.getElem?_eq_getElem (by omega)⟩
  have rootStored := List.getElem?_eq_getElem (length ▸ inside)
  have first := alike _ _ firstStored
  have last := alike _ _ lastStored
  rw [← List.head?_eq_getElem?] at firstStored
  rw [← length, ← List.getLast?_eq_getElem?] at lastStored
  constructor
  case typeName => exact inherits.typeName
  case start =>
    rw [start_composed nonempty, inherits.start _ firstStored, first.start]
  case stop =>
    rw [stop_composed nonempty, inherits.stop _ _ firstStored lastStored,
      first.start, last.stop]
    exact Nat.max_eq_left forward
  case features =>
    rw [features_composed inside, inherits.features _ rootStored]
    exact (alike _ _ rootStored).features
  case number =>
    intro sibling member
    refine iff_of_false
      (loaded.number_ne nonterminal inherits.committed inherits.symbol member) ?_
    obtain ⟨own, inInput, rfl⟩ := List.mem_map.mp member
    have known := loaded.ordered.input_known own inInput
    rw [show (parser.context.spans.get own).id = own from
      loaded.ordered.span_id own known]
    exact Nat.ne_of_lt known
  case decided => exact fun _ => rfl

end Parser

end SpanForest
