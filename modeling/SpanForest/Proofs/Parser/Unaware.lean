import SpanForest.Proofs.Parser.Aside
import SpanForest.Proofs.Parser.Asking

namespace SpanForest

/-!
# Work that does not know where a parse may start

From which words a parse may start is asked only when a word is woken. All else
that is done at a word, be it to ask the host, to commit what it returns or to
work on the stack, answers the same whatever those words are, and leaves them as
they were.
-/

namespace Parsing

variable {σ α β : Type} {host : Host σ} {aside : Aside}

/-- What an effect comes to if something else stands aside all along. -/
def besides
    (aside : Aside)
    (outcome : Except ParseError α × Parser × σ) :
    Except ParseError α × Parser × σ :=
  (outcome.1, outcome.2.1.withAside aside, outcome.2.2)

/-- An effect that does the same to a parser whatever stands aside. -/
def UnawareAt
    (aside : Aside)
    (parser : Parser)
    (effect : Parsing σ α) : Prop :=
  ∀ state : σ,
    effect.run.run (parser.withAside aside, state) =
      besides aside (effect.run.run (parser, state))

/-- An effect that always does the same whatever stands aside. -/
def Unaware (aside : Aside) (effect : Parsing σ α) : Prop :=
  ∀ parser, UnawareAt aside parser effect

/-- An effect followed by another one, which begins where the first one may return. -/
theorem UnawareAt.bind
    {parser : Parser}
    {first : Parsing σ α}
    {rest : α → Parsing σ β}
    {between : α → Parser → Prop}
    {stops : Parser → Prop}
    (unaware : UnawareAt aside parser first)
    (ensures : Ensures parser first between stops)
    (restUnaware : ∀ value middle, between value middle →
      UnawareAt aside middle (rest value)) :
    UnawareAt aside parser (first >>= rest) := by
  intro state
  have holds := ensures state
  simp only [ExceptT.run_bind, StateT.run_bind, unaware state]
  generalize first.run.run (parser, state) = outcome at holds
  obtain ⟨answer, after, changed⟩ := outcome
  cases answer with
  | ok value => exact restUnaware value after holds changed
  | error error => rfl

/-- Looking at the parser as it stands, but not at what stands aside. -/
theorem UnawareAt.get
    {parser : Parser}
    {rest : Parser → Parsing σ α}
    (blind : rest (parser.withAside aside) = rest parser)
    (unaware : UnawareAt aside parser (rest parser)) :
    UnawareAt aside parser (Parsing.parser >>= rest) := by
  intro state
  change (rest (parser.withAside aside)).run.run _ = _
  rw [blind]
  exact unaware state

/-- Changing the parser as it stands, but not what stands aside. -/
theorem UnawareAt.modify
    {parser : Parser}
    {change : Parser → Parser}
    {rest : Unit → Parsing σ α}
    (commutes : change (parser.withAside aside) = (change parser).withAside aside)
    (unaware : UnawareAt aside (change parser) (rest ())) :
    UnawareAt aside parser (modifyParser change >>= rest) := by
  intro state
  change (rest ()).run.run (change (parser.withAside aside), state) = _
  rw [commutes]
  exact unaware state

namespace Unaware

theorem pure (value : α) : Unaware aside (Pure.pure value : Parsing σ α) :=
  fun _ _ => rfl

theorem throw (error : ParseError) :
    Unaware aside (MonadExcept.throw error : Parsing σ α) :=
  fun _ _ => rfl

theorem bind
    {first : Parsing σ α}
    {rest : α → Parsing σ β}
    (unaware : Unaware aside first)
    (restUnaware : ∀ value, Unaware aside (rest value)) :
    Unaware aside (first >>= rest) :=
  fun parser => (unaware parser).bind (.anything parser first)
    fun value middle _ => restUnaware value middle

/-- Looking at the parser, but not at what stands aside. -/
theorem get
    {rest : Parser → Parsing σ α}
    (blind : ∀ parser : Parser, rest (parser.withAside aside) = rest parser)
    (unaware : ∀ parser, Unaware aside (rest parser)) :
    Unaware aside (parser >>= rest) :=
  fun parser => .get (blind parser) (unaware parser parser)

/-- Changing the parser, but not what stands aside. -/
theorem modify
    {change : Parser → Parser}
    (commutes : ∀ parser : Parser,
      change (parser.withAside aside) = (change parser).withAside aside) :
    Unaware aside (modifyParser change : Parsing σ Unit) := by
  intro parser state
  change (Except.ok (), change (parser.withAside aside), state) = _
  rw [commutes]
  rfl

theorem forM
    {item : Type}
    {effect : item → Parsing σ PUnit}
    (unaware : ∀ one, Unaware aside (effect one))
    (items : List item) :
    Unaware aside (items.forM effect) := by
  induction items with
  | nil => exact .pure _
  | cons one rest inductionHypothesis =>
      exact (unaware one).bind fun _ => inductionHypothesis

theorem allM
    {item : Type}
    {effect : item → Parsing σ Bool}
    (unaware : ∀ one, Unaware aside (effect one))
    (items : List item) :
    Unaware aside (items.allM effect) := by
  induction items with
  | nil => exact .pure true
  | cons one rest inductionHypothesis =>
      refine (unaware one).bind fun answer => ?_
      cases answer with
      | true => exact inductionHypothesis
      | false => exact .pure false

end Unaware

theorem unaware_runAction
    (rule : Rule)
    (target : Span)
    (rhs : List Span) :
    Unaware aside (runAction host rule target rhs) :=
  fun _ _ => rfl

theorem unaware_commit (span : Span) :
    Unaware aside (commit span : Parsing σ SpanId) :=
  fun _ _ => rfl

theorem unaware_addCandidates (ids : List SpanId) :
    Unaware aside (addCandidates ids : Parsing σ Unit) :=
  fun _ _ => rfl

theorem unaware_produce (rule : Rule) (ids : List SpanId) :
    Unaware aside (produce host rule ids) := by
  have records : ∀ outcome : Option SpanId, Unaware aside (do
      modifyParser (·.recordOutcome rule.id ids outcome)
      return outcome : Parsing σ (Option SpanId)) :=
    fun outcome => .bind (.modify fun _ => rfl) fun _ => .pure outcome
  unfold produce
  refine .get (fun _ => rfl) fun parser =>
    (unaware_runAction _ _ _).bind fun answer => ?_
  dsimp only
  split
  · exact (unaware_commit _).bind fun id =>
      .bind (.modify fun _ => rfl) fun _ => records (some id)
  · exact records none
  · exact records none
  · exact (Unaware.throw _).bind records

section Asking

variable (sameTruths : ∀ evaluator, aside.evaluator evaluator = evaluator)
include sameTruths

theorem unaware_testPredicate (predicate : PredicateId) (span : SpanId) :
    Unaware aside (testPredicate host predicate span) := by
  obtain ⟨evaluator, filtered, viable⟩ := aside
  obtain rfl : evaluator = id := funext sameTruths
  intro parser state
  rw [run_testPredicate, run_testPredicate]
  rfl

theorem unaware_synthesize (base : SpanId) (declaration : Synthesized) :
    Unaware aside (synthesize host base declaration) := by
  unfold synthesize
  refine .get (fun _ => rfl) fun parser => ?_
  split
  · exact .pure _
  · have enters : ∀ made : Option SpanId, Unaware aside (do
        modifyParser fun current =>
          { current with
            synthesized :=
              current.synthesized.insert (base, declaration.symbol) made }
        return made : Parsing σ (Option SpanId)) :=
      fun made => .bind (.modify fun _ => rfl) fun _ => .pure made
    refine (unaware_testPredicate sameTruths _ _).bind fun holds => ?_
    cases holds with
    | true =>
        exact .get (fun _ => rfl) fun _ =>
          (unaware_commit _).bind fun id => enters (some id)
    | false => exact enters none

theorem unaware_collectFrom (base : SpanId) :
    Unaware aside (collectFrom host base) := by
  unfold collectFrom
  refine (unaware_addCandidates _).bind fun _ =>
    .get (fun _ => rfl) fun parser => ?_
  split
  · exact .forM (fun declaration => (unaware_synthesize sameTruths _ _).bind
      fun _ => unaware_addCandidates _) _
  · exact .pure ()

/-- What is ahead does not depend on where a parse may start. -/
theorem unaware_collectCandidates (word : Nat) :
    Unaware aside (collectCandidates host word) := by
  unfold collectCandidates
  refine .bind (.modify fun _ => rfl) fun _ => .get (fun _ => rfl) fun parser => ?_
  split
  · exact .forM (unaware_collectFrom sameTruths) _
  · exact .pure ()

theorem unaware_predicatesHold (rule : Rule) (ids : List SpanId) :
    Unaware aside (predicatesHold host rule ids) := by
  refine .allM (fun pair => ?_) _
  dsimp only
  split
  · exact unaware_testPredicate sameTruths _ _
  · exact .pure true

theorem unaware_reducePath (rule : Rule) (nodes : List SymbolNodeId) :
    Unaware aside (reducePath host rule nodes) := by
  unfold reducePath
  refine .bind (.modify fun _ => rfl) fun _ => .get (fun _ => rfl) fun parser => ?_
  refine (unaware_predicatesHold sameTruths _ _).bind fun holds => ?_
  cases holds with
  | false => exact .pure none
  | true =>
      refine .get (fun _ => rfl) fun current => ?_
      split
      · exact .bind (.modify fun _ => rfl) fun _ => .pure _
      · exact .pure none
      · exact unaware_produce _ _

theorem unaware_reducePaths
    (word : Nat)
    (rule : Rule)
    (via : Option StateNodeId)
    (paths : List (List SymbolNodeId)) :
    Unaware aside (reducePaths host word rule via paths) := by
  induction paths with
  | nil => exact .pure ()
  | cons nodes rest inductionHypothesis =>
      have goOn : Unaware aside (do
          let current ← parser
          if current.capped then
            return ()
          else
            reducePaths host word rule via rest) := by
        refine .get (fun _ => rfl) fun current => ?_
        split
        · exact .pure ()
        · exact inductionHypothesis
      unfold reducePaths
      refine .get (fun _ => rfl) fun current =>
        (unaware_reducePath sameTruths rule nodes).bind fun made => ?_
      cases made with
      | some span =>
          exact .bind (.modify fun _ => Parser.attachAll_withAside _ _ _ _)
            fun _ => goOn
      | none => exact goOn

theorem unaware_reduce (word : Nat) (reduction : Reduction) :
    Unaware aside (reduce host word reduction) := by
  unfold reduce
  refine .get (fun _ => rfl) fun current => ?_
  split
  · exact .pure ()
  · exact unaware_reducePaths sameTruths _ _ _ _

/-- A word is settled in the same way wherever a parse may start. -/
theorem unaware_settle (word fuel : Nat) :
    Unaware aside (settle host word fuel) := by
  induction fuel with
  | zero => exact .pure ()
  | succ fuel inductionHypothesis =>
      unfold settle
      refine .get (fun _ => rfl) fun current => ?_
      split
      · rename_i node active _
        refine .bind (.modify fun parser => ?_) fun _ => inductionHypothesis
        exact @Parser.act_withAside { parser with active := active } aside node
      · exact .bind (.modify fun _ => rfl) fun _ =>
          (unaware_reduce sameTruths word _).bind fun _ => inductionHypothesis
      · exact .pure ()

end Asking

end Parsing

end SpanForest
