import SpanForest.Proofs.Effect

namespace SpanForest

/-!
# Effects that simulate one another

Two effects may do the same up to what things are called. Then they both return
or both stop, with answers or errors that correspond, and lead to runs that do.
-/

/-- Both answers are values that correspond, or both are errors that do. -/
inductive AnswersAlike
    {ε α β : Type}
    (errors : ε → ε → Prop)
    (values : α → β → Prop) :
    Except ε α →
    Except ε β →
    Prop where
  | ok {left : α} {right : β} :
      values left right →
      AnswersAlike errors values (.ok left) (.ok right)
  | error {left right : ε} :
      errors left right →
      AnswersAlike errors values (.error left) (.error right)

/-- Two effects whose answers correspond and which lead to runs that are alike. -/
structure Simulates
    {ε S T σ τ α β : Type}
    (errors : ε → ε → Prop)
    (values : α → β → Prop)
    (alike : S × σ → T × τ → Prop)
    (first : S × σ)
    (second : T × τ)
    (left : Effect ε S σ α)
    (right : Effect ε T τ β) : Prop where
  answers :
    AnswersAlike errors values (left.run.run first).1 (right.run.run second).1
  after : alike (left.run.run first).2 (right.run.run second).2

namespace Simulates

variable {ε S T σ τ α β γ δ : Type}
variable {errors : ε → ε → Prop} {values : α → β → Prop}
variable {alike weaker : S × σ → T × τ → Prop}
variable {first : S × σ} {second : T × τ}

theorem pure
    {left : α}
    {right : β}
    (holds : alike first second)
    (corresponds : values left right) :
    Simulates errors values alike first second
      (Pure.pure left : Effect ε S σ α) (Pure.pure right : Effect ε T τ β) :=
  ⟨.ok corresponds, holds⟩

theorem throw
    {left right : ε}
    (holds : alike first second)
    (corresponds : errors left right) :
    Simulates errors values alike first second
      (MonadExcept.throw left : Effect ε S σ α)
      (MonadExcept.throw right : Effect ε T τ β) :=
  ⟨.error corresponds, holds⟩

/-- Effects that begin alike and go on alike wherever the first one may have led. -/
theorem bind_ensures
    {others : γ → δ → Prop}
    {left : Effect ε S σ α}
    {right : Effect ε T τ β}
    {leftRest : α → Effect ε S σ γ}
    {rightRest : β → Effect ε T τ δ}
    {between : α → S → Prop}
    {stops : S → Prop}
    (simulates : Simulates errors values alike first second left right)
    (ensures : Ensures first.1 left between stops)
    (rest : ∀ value answer leftAfter rightAfter,
      values value answer → alike leftAfter rightAfter →
      between value leftAfter.1 →
      Simulates errors others alike leftAfter rightAfter (leftRest value)
        (rightRest answer)) :
    Simulates errors others alike first second (left >>= leftRest)
      (right >>= rightRest) := by
  obtain ⟨subject, state⟩ := first
  obtain ⟨answers, after⟩ := simulates
  have ensured := ensures state
  generalize isLeft : left.run.run (subject, state) = leftOutcome
    at answers after ensured
  generalize isRight : right.run.run second = rightOutcome at answers after
  obtain ⟨leftAnswer, leftAfter⟩ := leftOutcome
  obtain ⟨rightAnswer, rightAfter⟩ := rightOutcome
  have unfolded : ((left >>= leftRest).run.run (subject, state),
      (right >>= rightRest).run.run second) =
      ((match (leftAnswer, leftAfter) with
        | (.ok value, after) => (leftRest value).run.run after
        | (.error error, after) => (.error error, after)),
        match (rightAnswer, rightAfter) with
        | (.ok value, after) => (rightRest value).run.run after
        | (.error error, after) => (.error error, after)) := by
    simp only [ExceptT.run_bind, StateT.run_bind, isLeft, isRight]
    cases leftAnswer <;> cases rightAnswer <;> rfl
  obtain ⟨leftUnfolded, rightUnfolded⟩ := Prod.mk.inj unfolded
  cases answers with
  | @ok value answer corresponds =>
      obtain ⟨restAnswers, restAfter⟩ :=
        rest value answer leftAfter rightAfter corresponds after ensured
      exact ⟨leftUnfolded ▸ rightUnfolded ▸ restAnswers,
        leftUnfolded ▸ rightUnfolded ▸ restAfter⟩
  | error corresponds =>
      exact ⟨leftUnfolded ▸ rightUnfolded ▸ .error corresponds,
        leftUnfolded ▸ rightUnfolded ▸ after⟩

/-- Effects that begin alike and go on alike. -/
theorem bind
    {others : γ → δ → Prop}
    {left : Effect ε S σ α}
    {right : Effect ε T τ β}
    {leftRest : α → Effect ε S σ γ}
    {rightRest : β → Effect ε T τ δ}
    (simulates : Simulates errors values alike first second left right)
    (rest : ∀ value answer leftAfter rightAfter,
      values value answer → alike leftAfter rightAfter →
      Simulates errors others alike leftAfter rightAfter (leftRest value)
        (rightRest answer)) :
    Simulates errors others alike first second (left >>= leftRest)
      (right >>= rightRest) :=
  simulates.bind_ensures (.anything first.1 left)
    fun value answer leftAfter rightAfter corresponds holds _ =>
      rest value answer leftAfter rightAfter corresponds holds

/-- Effects that do the same as others from the two runs simulate one another if those do. -/
theorem of_coincides
    {left leftSame : Effect ε S σ α}
    {right rightSame : Effect ε T τ β}
    (leftCoincides : left.run.run first = leftSame.run.run first)
    (rightCoincides : right.run.run second = rightSame.run.run second)
    (simulates : Simulates errors values alike first second leftSame rightSame) :
    Simulates errors values alike first second left right := by
  obtain ⟨answers, after⟩ := simulates
  exact ⟨leftCoincides ▸ rightCoincides ▸ answers,
    leftCoincides ▸ rightCoincides ▸ after⟩

/-- Runs that are alike are still so if less is asked of them. -/
theorem imp
    {left : Effect ε S σ α}
    {right : Effect ε T τ β}
    (simulates : Simulates errors values alike first second left right)
    (implies : ∀ leftAfter rightAfter, alike leftAfter rightAfter →
      weaker leftAfter rightAfter) :
    Simulates errors values weaker first second left right :=
  ⟨simulates.answers, implies _ _ simulates.after⟩

/-- Alike effects of which the first one is known to keep something. -/
theorem and_keeps
    {relates : S → S → Prop}
    {left : Effect ε S σ α}
    {right : Effect ε T τ β}
    (simulates : Simulates errors values alike first second left right)
    (keeps : Keeps relates left) :
    Simulates errors values (fun leftAfter rightAfter =>
        alike leftAfter rightAfter ∧ relates first.1 leftAfter.1)
      first second left right := by
  obtain ⟨subject, state⟩ := first
  refine ⟨simulates.answers, simulates.after, ?_⟩
  have keptAfter := keeps subject state
  generalize left.run.run (subject, state) = outcome at keptAfter ⊢
  obtain ⟨answer, after⟩ := outcome
  cases answer <;> exact keptAfter

section Lists

variable {item other : Type} {counterpart : item → other}

/-- Alike effects on things and on their counterparts, one after the other. -/
theorem forM
    {left : item → Effect ε S σ PUnit}
    {right : other → Effect ε T τ PUnit}
    (items : List item)
    (each : ∀ one ∈ items, ∀ leftBefore rightBefore,
      alike leftBefore rightBefore →
      Simulates errors (fun _ _ => True) alike leftBefore rightBefore (left one)
        (right (counterpart one)))
    (holds : alike first second) :
    Simulates errors (fun _ _ => True) alike first second (items.forM left)
      ((items.map counterpart).forM right) := by
  induction items generalizing first second with
  | nil => exact .pure holds trivial
  | cons one rest inductionHypothesis =>
      rw [List.map_cons, List.forM_eq_forM, List.forM_cons, List.forM_eq_forM,
        List.forM_cons]
      refine .bind (each one List.mem_cons_self first second holds) ?_
      intro _ _ leftAfter rightAfter _ after
      exact inductionHypothesis
        (fun next member => each next (List.mem_cons_of_mem _ member)) after

/-- Asking alike of things and of their counterparts whether all of them hold. -/
theorem allM
    {left : item → Effect ε S σ Bool}
    {right : other → Effect ε T τ Bool}
    (items : List item)
    (each : ∀ one ∈ items, ∀ leftBefore rightBefore,
      alike leftBefore rightBefore →
      Simulates errors Eq alike leftBefore rightBefore (left one)
        (right (counterpart one)))
    (holds : alike first second) :
    Simulates errors Eq alike first second (items.allM left)
      ((items.map counterpart).allM right) := by
  induction items generalizing first second with
  | nil => exact .pure holds rfl
  | cons one rest inductionHypothesis =>
      unfold List.allM
      refine .bind (each one List.mem_cons_self first second holds) ?_
      rintro answer _ leftAfter rightAfter rfl after
      cases answer with
      | true =>
          exact inductionHypothesis
            (fun next member => each next (List.mem_cons_of_mem _ member)) after
      | false => exact .pure after rfl

end Lists

end Simulates

namespace Parsing

variable {σ τ α β : Type} {errors : ParseError → ParseError → Prop}
variable {values : α → β → Prop} {alike : Parser × σ → Parser × τ → Prop}
variable {first second : Parser} {left : σ} {right : τ}

/-- Going on alike with the parsers as they stand. -/
theorem simulates_get
    {leftRest : Parser → Parsing σ α}
    {rightRest : Parser → Parsing τ β}
    (rest : Simulates errors values alike (first, left) (second, right)
      (leftRest first) (rightRest second)) :
    Simulates errors values alike (first, left) (second, right)
      (parser >>= leftRest) (parser >>= rightRest) :=
  ⟨rest.answers, rest.after⟩

/-- Going on alike with the parsers changed. -/
theorem simulates_modify
    {leftChange rightChange : Parser → Parser}
    {leftRest : Unit → Parsing σ α}
    {rightRest : Unit → Parsing τ β}
    (rest : Simulates errors values alike (leftChange first, left)
      (rightChange second, right) (leftRest ()) (rightRest ())) :
    Simulates errors values alike (first, left) (second, right)
      (modifyParser leftChange >>= leftRest)
      (modifyParser rightChange >>= rightRest) :=
  ⟨rest.answers, rest.after⟩

end Parsing

end SpanForest
