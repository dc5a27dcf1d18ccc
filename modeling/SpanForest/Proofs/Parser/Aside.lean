import SpanForest.Proofs.Parser.Attaching
import SpanForest.Proofs.Parser.Reading

namespace SpanForest

/-!
# What work on the stack does not look at

Waking, acting, attaching, reading and filtering look neither at the truth values
in memory nor at the words from which parses may start. So it makes no difference
to them when these are changed, before the work or after it. Only waking asks of
its own word whether a parse may start there.
-/

/-- Changes of what no work on the stack looks at. -/
structure Aside where
  evaluator : Evaluator → Evaluator := id
  filtered : Bool → Bool := id
  viable : BitSet → BitSet := id

namespace Parser

variable {parser : Parser} {aside : Aside}

/-- The same parse with other truth values in memory, or other words to start from. -/
def withAside (parser : Parser) (aside : Aside) : Parser :=
  { parser with
    config :=
      { parser.config with filtered := aside.filtered parser.config.filtered }
    viable := aside.viable parser.viable
    evaluator := aside.evaluator parser.evaluator }

/-- Changes that make no difference to what is aside, one after the other. -/
theorem foldl_withAside
    {α : Type}
    {change : Parser → α → Parser}
    (commutes : ∀ parser item,
      change (withAside parser aside) item =
        (change parser item).withAside aside)
    (items : List α) :
    items.foldl change (parser.withAside aside) =
      (items.foldl change parser).withAside aside := by
  induction items generalizing parser with
  | nil => rfl
  | cons item rest inductionHypothesis =>
      rw [List.foldl_cons, List.foldl_cons, commutes]
      exact inductionHypothesis

theorem queueReduction_withAside
    (parser : Parser)
    (reduction : Reduction) :
    (parser.withAside aside).queueReduction reduction =
      (parser.queueReduction reduction).withAside aside := by
  change (if parser.performed.contains reduction then _ else _) = _
  unfold queueReduction
  split <;> rfl

theorem act_withAside (node : StateNodeId) :
    (parser.withAside aside).act node = (parser.act node).withAside aside :=
  @foldl_withAside
    { parser with
      stack := parser.stack.setActive node false
      shifts := parser.shifts ++ parser.shiftsFrom node
        (parser.stack.stateNode node).state }
    aside _ _ queueReduction_withAside _

theorem pack_withAside
    (node : SymbolNodeId)
    (below : StateNodeId)
    (goto : StateId)
    (derivation : Derivation) :
    (parser.withAside aside).pack node below goto derivation =
      (parser.pack node below goto derivation).withAside aside := by
  rw [pack_eq, pack_eq, apply_ite (withAside · aside)]
  exact if_congr Iff.rfl
    (@foldl_withAside
      { parser with
        stack := (parser.stack.extendNode node derivation below).2 }
      aside _ _ queueReduction_withAside _) rfl

theorem grow_withAside
    (word : Nat)
    (below : StateNodeId)
    (goto : StateId)
    (lhs : SymbolId)
    (span : SpanId)
    (derivation : Derivation) :
    (parser.withAside aside).grow word below goto lhs span derivation =
      (parser.grow word below goto lhs span derivation).withAside aside := by
  have stack : (parser.withAside aside).stack = parser.stack := rfl
  have sprouted : (parser.withAside aside).sprout word below goto lhs span
      derivation =
      (parser.sprout word below goto lhs span derivation).withAside aside := by
    rw [sprout_eq, sprout_eq]
    rfl
  rw [grow_eq, grow_eq, sprouted, stack, apply_ite (withAside · aside)]
  generalize parser.sprout word below goto lhs span derivation = sprouted
  rfl

theorem attach_withAside
    (word : Nat)
    (below : StateNodeId)
    (span : SpanId)
    (derivation : Derivation) :
    (parser.withAside aside).attach word below span derivation =
      (parser.attach word below span derivation).withAside aside := by
  have compiled : (parser.withAside aside).compiled = parser.compiled := rfl
  have stack : (parser.withAside aside).stack = parser.stack := rfl
  have spans : (parser.withAside aside).spans = parser.spans := rfl
  simp only [attach, pack_withAside, grow_withAside, compiled, stack, spans]
  cases parser.compiled.table.goto? (parser.stack.stateNode below).state
    (parser.compiled.grammar.rule derivation.rule).lhs with
  | none => rfl
  | some goto =>
      dsimp only
      cases (parser.stack.findState? word goto).bind fun top =>
          parser.stack.findEquivalent? parser.spans top span with
      | some node => rfl
      | none =>
          dsimp only
          rw [apply_ite (withAside · aside)]
          rfl

theorem attachAll_withAside
    (word : Nat)
    (span : SpanId)
    (derivation : Derivation)
    (below : List StateNodeId) :
    (parser.withAside aside).attachAll word span derivation below =
      (parser.attachAll word span derivation below).withAside aside := by
  refine foldl_withAside (fun current node => ?_) below
  rw [attach_withAside, apply_ite (withAside · aside)]
  rfl

/-- Waking a word makes no difference if a parse may start there just as before. -/
theorem wakeWord_withAside
    {word : Nat}
    (sameViable : parser.isAtEnd word = false →
      (aside.viable parser.viable).contains word = parser.viable.contains word) :
    (parser.withAside aside).wakeWord word =
      (parser.wakeWord word).withAside aside := by
  have woken := fun nodes => @foldl_withAside { parser with active := [] }
    aside _ activate (fun _ _ => rfl) nodes
  have sameStarts : (!(parser.withAside aside).isAtEnd word &&
      (parser.withAside aside).viable.contains word) =
      (!parser.isAtEnd word && parser.viable.contains word) := by
    change (!parser.isAtEnd word && (aside.viable parser.viable).contains word) = _
    cases isAtEnd : parser.isAtEnd word with
    | true => rfl
    | false => rw [sameViable isAtEnd]
  unfold wakeWord
  rw [sameStarts, apply_ite (withAside · aside)]
  exact if_congr Iff.rfl (congrArg (activate · GraphStack.startNode) (woken _))
    (woken _)

theorem readShift_withAside
    (parser : Parser)
    (word : Nat)
    (shift : Shift) :
    (parser.withAside aside).readShift word shift =
      (parser.readShift word shift).withAside aside := by
  cases isRemoved : (parser.stack.stateNode shift.origin).removed with
  | true =>
      have skipped : ∀ current : Parser,
          (current.stack.stateNode shift.origin).removed = true →
          current.readShift word shift = current := by
        intro current removed
        unfold readShift
        exact if_pos removed
      rw [skipped parser isRemoved]
      exact skipped _ isRemoved
  | false =>
      rw [readShift_eq shift isRemoved]
      exact readShift_eq shift isRemoved

theorem readShifts_withAside (word : Nat) :
    (parser.withAside aside).readShifts word =
      (parser.readShifts word).withAside aside :=
  @foldl_withAside { parser with shifts := [] } aside _ _
    (fun current shift => current.readShift_withAside word shift) _

theorem finishWord_withAside (word : Nat) :
    (parser.withAside aside).finishWord word =
      (parser.finishWord word).withAside aside := by
  have filtered : ∀ read : Parser,
      (if (read.withAside aside).config.greedy then
          (read.withAside aside).filterWord word
        else
          read.withAside aside) =
        (if read.config.greedy then read.filterWord word else read).withAside
          aside := by
    intro read
    rw [apply_ite (withAside · aside)]
    rfl
  simp only [finishWord, readShifts_withAside, filtered]
  rfl

end Parser

end SpanForest
