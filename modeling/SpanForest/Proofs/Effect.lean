import SpanForest.Parser.Step

namespace SpanForest

/-!
# Statements about effects

Evaluations and parses change a subject and a host state and may stop with an
error, which keeps the changes made before it. A statement about such an effect
says what holds of the subject when the effect returns, and what holds of it
when the effect stops, whatever the state of the host.
-/

/-- Effects on a subject and a host state; an error keeps what was done before it. -/
abbrev Effect (ε S σ α : Type) := ExceptT ε (StateM (S × σ)) α

/-- What holds after an effect returned, and what holds after it stopped. -/
def Ensures
    {ε S σ α : Type}
    (before : S)
    (effect : Effect ε S σ α)
    (returns : α → S → Prop)
    (stops : S → Prop) : Prop :=
  ∀ host : σ,
    match effect.run.run (before, host) with
    | (.ok value, after) => returns value after.1
    | (.error _, after) => stops after.1

/-- An effect that follows a change of the run. -/
theorem Effect.run_modify_bind
    {ε S σ α : Type}
    (change : S × σ → S × σ)
    (rest : Effect ε S σ α)
    (run : S × σ) :
    ((modify change : Effect ε S σ PUnit) >>= fun _ => rest).run.run run =
      rest.run.run (change run) :=
  rfl

namespace Ensures

variable {ε S σ α β : Type} {before : S} {stops : S → Prop}

/-- Returning at once changes nothing. -/
theorem pure
    {value : α}
    {returns : α → S → Prop}
    (holds : returns value before) :
    Ensures before (Pure.pure value : Effect ε S σ α) returns stops :=
  fun _ => holds

/-- Stopping at once changes nothing. -/
theorem throw
    {error : ε}
    {returns : α → S → Prop}
    (holds : stops before) :
    Ensures before (MonadExcept.throw error : Effect ε S σ α) returns stops :=
  fun _ => holds

/-- Whether an effect returns or stops, it leads somewhere. -/
theorem anything
    (before : S)
    (effect : Effect ε S σ α) :
    Ensures before effect (fun _ _ => True) fun _ => True := by
  intro host
  generalize effect.run.run (before, host) = outcome
  obtain ⟨result, after⟩ := outcome
  cases result <;> trivial

/-- An effect followed by another. -/
theorem bind
    {first : Effect ε S σ α}
    {second : α → Effect ε S σ β}
    {between : α → S → Prop}
    {returns : β → S → Prop}
    (firstEnsures : Ensures before first between stops)
    (secondEnsures : ∀ value middle, between value middle →
      Ensures middle (second value) returns stops) :
    Ensures before (first >>= second) returns stops := by
  intro host
  have firstHolds := firstEnsures host
  have unfolded :
      (first >>= second).run.run (before, host) =
        match first.run.run (before, host) with
        | (.ok value, after) => (second value).run.run after
        | (.error error, after) => (.error error, after) := by
    simp only [ExceptT.run_bind, StateT.run_bind]
    change (match first.run.run (before, host) with
      | (result, after) => _) = _
    generalize first.run.run (before, host) = outcome
    obtain ⟨result, after⟩ := outcome
    cases result <;> rfl
  rw [unfolded]
  generalize first.run.run (before, host) = outcome at firstHolds
  obtain ⟨result, middle, changed⟩ := outcome
  cases result with
  | ok value => exact secondEnsures value middle firstHolds changed
  | error error => exact firstHolds

/-- Weaker statements hold as well. -/
theorem imp
    {effect : Effect ε S σ α}
    {returns weaker : α → S → Prop}
    {stops' : S → Prop}
    (ensures : Ensures before effect returns stops)
    (returnsImp : ∀ value after, returns value after → weaker value after)
    (stopsImp : ∀ after, stops after → stops' after) :
    Ensures before effect weaker stops' := by
  intro host
  have holds := ensures host
  revert holds
  generalize effect.run.run (before, host) = outcome
  obtain ⟨result, after⟩ := outcome
  cases result with
  | ok value => exact returnsImp value after.1
  | error error => exact stopsImp after.1

/-- What an effect on each item of a list keeps, and what it brings about. -/
theorem forM
    {effect : α → Effect ε S σ PUnit}
    (invariant : S → Prop)
    (settled : α → S → Prop)
    (items : List α)
    (each : ∀ item ∈ items, ∀ current, invariant current →
      Ensures current (effect item)
        (fun _ after => invariant after ∧ settled item after ∧
          ∀ other, settled other current → settled other after) stops)
    (holds : invariant before) :
    Ensures before (items.forM effect)
      (fun _ after => invariant after ∧ (∀ item ∈ items, settled item after) ∧
        ∀ other, settled other before → settled other after) stops := by
  induction items generalizing before with
  | nil =>
      exact .pure ⟨holds, by simp, fun _ isSettled => isSettled⟩
  | cons item rest inductionHypothesis =>
      rw [List.forM_eq_forM, List.forM_cons]
      refine .bind (each item (by simp) before holds) ?_
      rintro _ middle ⟨middleHolds, itemSettled, keptFirst⟩
      rw [← List.forM_eq_forM]
      refine (inductionHypothesis
        (fun other member => each other (List.mem_cons_of_mem _ member))
        middleHolds).imp ?_ fun _ stopped => stopped
      rintro _ after ⟨afterHolds, restSettled, keptRest⟩
      refine ⟨afterHolds, ?_, fun other isSettled =>
        keptRest other (keptFirst other isSettled)⟩
      intro other member
      rcases List.mem_cons.mp member with isItem | later
      · exact isItem ▸ keptRest item itemSettled
      · exact restSettled other later

/-- Asking of the items of a list, in turn, whether all of them hold. -/
theorem allM
    {effect : α → Effect ε S σ Bool}
    (invariant : S → Prop)
    (answers : α → Bool → Prop)
    (items : List α)
    (each : ∀ item ∈ items, ∀ current, invariant current →
      Ensures current (effect item)
        (fun answer after => invariant after ∧ answers item answer) stops)
    (holds : invariant before) :
    Ensures before (items.allM effect)
      (fun answer after => invariant after ∧
        if answer then
          ∀ item ∈ items, answers item true
        else
          ∃ item ∈ items, answers item false)
      stops := by
  induction items generalizing before with
  | nil =>
      exact .pure ⟨holds, by simp⟩
  | cons item rest inductionHypothesis =>
      unfold List.allM
      refine .bind (each item (by simp) before holds) ?_
      rintro answer middle ⟨middleHolds, isAnswer⟩
      cases answer with
      | false =>
          exact .pure ⟨middleHolds, by simp [isAnswer]⟩
      | true =>
          refine (inductionHypothesis
            (fun other member => each other (List.mem_cons_of_mem _ member))
            middleHolds).imp ?_ fun _ stopped => stopped
          rintro restAnswer after ⟨afterHolds, isRest⟩
          refine ⟨afterHolds, ?_⟩
          cases restAnswer with
          | true => simpa [isAnswer] using isRest
          | false => simpa using .inr isRest

/-- Asking of the items of a list, in turn, whether one of them holds. -/
theorem anyM
    {effect : α → Effect ε S σ Bool}
    (invariant : S → Prop)
    (answers : α → Bool → Prop)
    (items : List α)
    (each : ∀ item ∈ items, ∀ current, invariant current →
      Ensures current (effect item)
        (fun answer after => invariant after ∧ answers item answer) stops)
    (holds : invariant before) :
    Ensures before (items.anyM effect)
      (fun answer after => invariant after ∧
        if answer then
          ∃ item ∈ items, answers item true
        else
          ∀ item ∈ items, answers item false)
      stops := by
  induction items generalizing before with
  | nil =>
      exact .pure ⟨holds, by simp⟩
  | cons item rest inductionHypothesis =>
      unfold List.anyM
      refine .bind (each item (by simp) before holds) ?_
      rintro answer middle ⟨middleHolds, isAnswer⟩
      cases answer with
      | true =>
          exact .pure ⟨middleHolds, by simp [isAnswer]⟩
      | false =>
          refine (inductionHypothesis
            (fun other member => each other (List.mem_cons_of_mem _ member))
            middleHolds).imp ?_ fun _ stopped => stopped
          rintro restAnswer after ⟨afterHolds, isRest⟩
          refine ⟨afterHolds, ?_⟩
          cases restAnswer with
          | false => simpa [isAnswer] using isRest
          | true => simpa using .inr isRest

/-- What is known of an effect in two ways is known together. -/
theorem and
    {effect : Effect ε S σ α}
    {returns also : α → S → Prop}
    {stops' : S → Prop}
    (ensures : Ensures before effect returns stops)
    (ensuresAlso : Ensures before effect also stops') :
    Ensures before effect
      (fun value after => returns value after ∧ also value after)
      (fun after => stops after ∧ stops' after) := by
  intro host
  have holds := ensures host
  have holdsAlso := ensuresAlso host
  generalize effect.run.run (before, host) = outcome at holds holdsAlso ⊢
  obtain ⟨result, after⟩ := outcome
  cases result <;> exact ⟨holds, holdsAlso⟩

/-- Where an effect leads if the same holds wherever it returns or stops. -/
theorem leadsTo
    {effect : Effect ε S σ α}
    (ensures : Ensures before effect (fun _ after => stops after) stops)
    (host : σ) :
    stops (effect.run.run (before, host)).2.1 := by
  have holds := ensures host
  generalize effect.run.run (before, host) = outcome at holds ⊢
  obtain ⟨result, after⟩ := outcome
  cases result <;> exact holds

end Ensures

/-- Changes that may be none and may follow each other. -/
structure Composes {S : Type} (relates : S → S → Prop) : Prop where
  refl : ∀ subject, relates subject subject
  trans :
    ∀ ⦃first second third : S⦄,
      relates first second → relates second third → relates first third

/-- An effect that relates the subject before it to the one after it, however it ends. -/
def Keeps
    {ε S σ α : Type}
    (relates : S → S → Prop)
    (effect : Effect ε S σ α) : Prop :=
  ∀ before : S,
    Ensures before effect (fun _ after => relates before after) (relates before)

namespace Keeps

variable {ε S σ α β : Type} {relates implied : S → S → Prop}

theorem imp
    {effect : Effect ε S σ α}
    (keeps : Keeps relates effect)
    (implies : ∀ ⦃before after : S⦄,
      relates before after → implied before after) :
    Keeps implied effect :=
  fun before => (keeps before).imp (fun _ _ kept => implies kept)
    fun _ kept => implies kept

section Composed

variable (composes : Composes relates)
include composes

theorem pure (value : α) :
    Keeps relates (Pure.pure value : Effect ε S σ α) :=
  fun before => .pure (composes.refl before)

theorem throw (error : ε) :
    Keeps relates (MonadExcept.throw error : Effect ε S σ α) :=
  fun before => .throw (composes.refl before)

theorem bind
    {first : Effect ε S σ α}
    {second : α → Effect ε S σ β}
    (firstKeeps : Keeps relates first)
    (secondKeeps : ∀ value, Keeps relates (second value)) :
    Keeps relates (first >>= second) := by
  intro before
  refine .bind (firstKeeps before |>.imp (fun _ _ early => early)
    fun _ early => early) fun value middle early => ?_
  exact (secondKeeps value middle).imp
    (fun _ _ late => composes.trans early late)
    fun _ late => composes.trans early late

theorem forM
    {effect : α → Effect ε S σ PUnit}
    (each : ∀ item, Keeps relates (effect item))
    (items : List α) :
    Keeps relates (items.forM effect) := by
  induction items with
  | nil => exact .pure composes _
  | cons item rest inductionHypothesis =>
      rw [List.forM_eq_forM, List.forM_cons]
      exact .bind composes (each item) fun _ => inductionHypothesis

theorem allM
    {effect : α → Effect ε S σ Bool}
    (each : ∀ item, Keeps relates (effect item))
    (items : List α) :
    Keeps relates (items.allM effect) := by
  induction items with
  | nil => exact .pure composes _
  | cons item rest inductionHypothesis =>
      unfold List.allM
      refine .bind composes (each item) fun answer => ?_
      cases answer with
      | true => exact inductionHypothesis
      | false => exact .pure composes _

theorem anyM
    {effect : α → Effect ε S σ Bool}
    (each : ∀ item, Keeps relates (effect item))
    (items : List α) :
    Keeps relates (items.anyM effect) := by
  induction items with
  | nil => exact .pure composes _
  | cons item rest inductionHypothesis =>
      unfold List.anyM
      refine .bind composes (each item) fun answer => ?_
      cases answer with
      | true => exact .pure composes _
      | false => exact inductionHypothesis

end Composed

section Parsing

variable {relates : Parser → Parser → Prop}

theorem modify
    {change : Parser → Parser}
    (changes : ∀ parser, relates parser (change parser)) :
    Keeps relates (Parsing.modifyParser change : Parsing σ Unit) :=
  fun before _ => changes before

theorem parser (composes : Composes relates) :
    Keeps relates (Parsing.parser : Parsing σ Parser) :=
  fun before _ => composes.refl before

end Parsing

end Keeps

/-- Two effects that do the same, whatever the state of the host. -/
def Coincides
    {ε S σ α : Type}
    (before : S)
    (left right : Effect ε S σ α) : Prop :=
  ∀ host : σ, left.run.run (before, host) = right.run.run (before, host)

namespace Coincides

variable {ε S σ α β : Type} {before : S}

theorem refl (effect : Effect ε S σ α) : Coincides before effect effect :=
  fun _ => rfl

/-- Effects that go on alike wherever the first of them may have led. -/
theorem bind
    {first : Effect ε S σ α}
    {left right : α → Effect ε S σ β}
    {between : α → S → Prop}
    {stops : S → Prop}
    (ensures : Ensures before first between stops)
    (rest : ∀ value middle, between value middle →
      Coincides middle (left value) (right value)) :
    Coincides before (first >>= left) (first >>= right) := by
  intro host
  have firstHolds := ensures host
  simp only [ExceptT.run_bind, StateT.run_bind]
  generalize first.run.run (before, host) = outcome at firstHolds
  obtain ⟨result, middle, changed⟩ := outcome
  cases result with
  | ok value => exact rest value middle firstHolds changed
  | error error => rfl

/-- Effects that begin alike and go on alike. -/
theorem seq
    {leftFirst rightFirst : Effect ε S σ α}
    {left right : α → Effect ε S σ β}
    {between : α → S → Prop}
    {stops : S → Prop}
    (first : Coincides before leftFirst rightFirst)
    (ensures : Ensures before rightFirst between stops)
    (rest : ∀ value middle, between value middle →
      Coincides middle (left value) (right value)) :
    Coincides before (leftFirst >>= left) (rightFirst >>= right) := by
  intro host
  have goesOn := bind ensures rest host
  simp only [ExceptT.run_bind, StateT.run_bind, first host] at goesOn ⊢
  exact goesOn

/-- Effects that begin alike and go on with the same. -/
theorem followed
    {left right : Effect ε S σ α}
    (first : Coincides before left right)
    (rest : α → Effect ε S σ β) :
    Coincides before (left >>= rest) (right >>= rest) := by
  intro host
  simp only [ExceptT.run_bind, StateT.run_bind, first host]

end Coincides

/-- An effect stops with an error from a run. -/
def StopsFrom
    {ε S σ α : Type}
    (run : S × σ)
    (effect : Effect ε S σ α) : Prop :=
  ∃ error, (effect.run.run run).1 = .error error

instance
    {ε S σ α : Type}
    (run : S × σ)
    (effect : Effect ε S σ α) :
    Decidable (StopsFrom run effect) :=
  match answer : (effect.run.run run).1 with
  | .error error => .isTrue ⟨error, answer⟩
  | .ok _ => .isFalse fun ⟨_, isError⟩ => by
      rw [answer] at isError
      cases isError

/--
Two effects on runs of two kinds that answer alike and lead to runs that are
alike, from two given runs, unless one of them stops where it may.
-/
def Mirrors
    {ε S T σ τ α : Type}
    (mayStop : Prop)
    (alike : S × σ → T × τ → Prop)
    (first : S × σ)
    (second : T × τ)
    (left : Effect ε S σ α)
    (right : Effect ε T τ α) : Prop :=
  ((left.run.run first).1 = (right.run.run second).1 ∧
      alike (left.run.run first).2 (right.run.run second).2) ∨
    (mayStop ∧ (StopsFrom first left ∨ StopsFrom second right))

/-- An effect stops if what it begins with does. -/
theorem StopsFrom.bind
    {ε S σ α β : Type}
    {run : S × σ}
    {effect : Effect ε S σ α}
    (stops : StopsFrom run effect)
    (rest : α → Effect ε S σ β) :
    StopsFrom run (effect >>= rest) := by
  obtain ⟨error, isError⟩ := stops
  refine ⟨error, ?_⟩
  simp only [ExceptT.run_bind, StateT.run_bind]
  generalize effect.run.run run = outcome at isError ⊢
  obtain ⟨answer, after⟩ := outcome
  obtain rfl : answer = .error error := isError
  rfl

/-- What holds after an effect that stops. -/
theorem Ensures.of_stops
    {ε S σ α : Type}
    {before : S}
    {host : σ}
    {effect : Effect ε S σ α}
    {returns : α → S → Prop}
    {stops : S → Prop}
    (ensures : Ensures before effect returns stops)
    (isStop : StopsFrom (before, host) effect) :
    stops (effect.run.run (before, host)).2.1 := by
  have holds := ensures host
  obtain ⟨error, isError⟩ := isStop
  generalize effect.run.run (before, host) = outcome at holds isError ⊢
  obtain ⟨answer, after⟩ := outcome
  obtain rfl : answer = .error error := isError
  exact holds

section Lists

variable {ε S σ item : Type} {effect : item → Effect ε S σ PUnit}
variable {run before : S × σ}

/-- Going on with the rest of a list behind items that are done. -/
theorem Effect.run_forM_append
    {done : List item}
    (isDone : (done.forM effect).run.run run = (.ok ⟨⟩, before))
    (rest : List item) :
    ((done ++ rest).forM effect).run.run run =
      (rest.forM effect).run.run before := by
  rw [List.forM_eq_forM] at isDone ⊢
  rw [List.forM_append]
  simp only [ExceptT.run_bind, StateT.run_bind, isDone]
  rfl

/-- An effect on each item of a list that stops does so at some item. -/
theorem StopsFrom.forM
    {items : List item}
    (stops : StopsFrom run (items.forM effect)) :
    ∃ done next rest before,
      items = done ++ next :: rest ∧
        (done.forM effect).run.run run = (.ok ⟨⟩, before) ∧
        StopsFrom before (effect next) ∧
        (items.forM effect).run.run run = (effect next).run.run before := by
  induction items generalizing run with
  | nil =>
      obtain ⟨error, isError⟩ := stops
      cases isError
  | cons first rest inductionHypothesis =>
      have unfolded : ((first :: rest).forM effect).run.run run =
          (effect first >>= fun _ => rest.forM effect).run.run run :=
        rfl
      unfold StopsFrom at stops
      rw [unfolded] at stops ⊢
      simp only [ExceptT.run_bind, StateT.run_bind] at stops ⊢
      cases isFirst : (effect first).run.run run with
      | mk answer middle =>
          rw [isFirst] at stops
          cases answer with
          | error error =>
              exact ⟨[], first, rest, run, rfl, rfl, ⟨error, by rw [isFirst]⟩,
                by rw [isFirst]; rfl⟩
          | ok _ =>
              obtain ⟨done, next, later, before, isItems, isDone, atNext, same⟩ :=
                inductionHypothesis stops
              refine ⟨first :: done, next, later, before, by rw [isItems]; rfl,
                ?_, atNext, same⟩
              change (effect first >>= fun _ => done.forM effect).run.run run = _
              simp only [ExceptT.run_bind, StateT.run_bind, isFirst]
              exact isDone

end Lists

namespace Mirrors

variable {ε S T σ τ α β : Type} {mayStop : Prop}
variable {alike : S × σ → T × τ → Prop}
variable {first : S × σ} {second : T × τ}

/-- Both effects answer the same and lead to runs that are alike. -/
theorem both
    {left : Effect ε S σ α}
    {right : Effect ε T τ α}
    (sameAnswer : (left.run.run first).1 = (right.run.run second).1)
    (holds : alike (left.run.run first).2 (right.run.run second).2) :
    Mirrors mayStop alike first second left right :=
  .inl ⟨sameAnswer, holds⟩

theorem pure
    (holds : alike first second)
    (value : α) :
    Mirrors mayStop alike first second
      (Pure.pure value : Effect ε S σ α)
      (Pure.pure value : Effect ε T τ α) :=
  .both rfl holds

theorem throw
    (holds : alike first second)
    (error : ε) :
    Mirrors mayStop alike first second
      (MonadExcept.throw error : Effect ε S σ α)
      (MonadExcept.throw error : Effect ε T τ α) :=
  .both rfl holds

/-- Effects that do not stop where they may answer alike. -/
theorem alikeAfter
    {left : Effect ε S σ α}
    {right : Effect ε T τ α}
    (mirrors : Mirrors mayStop alike first second left right)
    (goesOn : mayStop → ¬ StopsFrom first left ∧ ¬ StopsFrom second right) :
    (left.run.run first).1 = (right.run.run second).1 ∧
      alike (left.run.run first).2 (right.run.run second).2 := by
  refine mirrors.resolve_right ?_
  rintro ⟨stops, leftStops | rightStops⟩
  · exact (goesOn stops).1 leftStops
  · exact (goesOn stops).2 rightStops

/-- Effects that begin alike and go on alike wherever the second one may have led. -/
theorem bind_ensures
    {left : Effect ε S σ α}
    {right : Effect ε T τ α}
    {leftRest : α → Effect ε S σ β}
    {rightRest : α → Effect ε T τ β}
    {between : α → T → Prop}
    {stops : T → Prop}
    (mirrors : Mirrors mayStop alike first second left right)
    (ensures : Ensures second.1 right between stops)
    (rest : ∀ value leftAfter rightAfter, alike leftAfter rightAfter →
      between value rightAfter.1 →
      Mirrors mayStop alike leftAfter rightAfter (leftRest value)
        (rightRest value)) :
    Mirrors mayStop alike first second (left >>= leftRest)
      (right >>= rightRest) := by
  rcases mirrors with ⟨sameAnswer, holds⟩ | ⟨may, stops⟩
  · obtain ⟨subject, state⟩ := second
    have ensured := ensures state
    unfold Mirrors StopsFrom
    simp only [ExceptT.run_bind, StateT.run_bind]
    generalize left.run.run first = leftOutcome at sameAnswer holds ⊢
    generalize right.run.run (subject, state) = rightOutcome
      at sameAnswer holds ensured ⊢
    obtain ⟨leftAnswer, leftAfter⟩ := leftOutcome
    obtain ⟨rightAnswer, rightAfter⟩ := rightOutcome
    obtain rfl : leftAnswer = rightAnswer := sameAnswer
    cases leftAnswer with
    | ok value => exact rest value leftAfter rightAfter holds ensured
    | error error => exact .inl ⟨rfl, holds⟩
  · exact .inr ⟨may, stops.imp (StopsFrom.bind · _) (StopsFrom.bind · _)⟩

/-- Effects that begin alike and go on alike. -/
theorem bind
    {left : Effect ε S σ α}
    {right : Effect ε T τ α}
    {leftRest : α → Effect ε S σ β}
    {rightRest : α → Effect ε T τ β}
    (mirrors : Mirrors mayStop alike first second left right)
    (rest : ∀ value leftAfter rightAfter, alike leftAfter rightAfter →
      Mirrors mayStop alike leftAfter rightAfter (leftRest value)
        (rightRest value)) :
    Mirrors mayStop alike first second (left >>= leftRest)
      (right >>= rightRest) :=
  mirrors.bind_ensures (.anything second.1 right)
    fun value leftAfter rightAfter holds _ => rest value leftAfter rightAfter holds

/-- Runs that are alike are still so if less is asked of them. -/
theorem imp
    {weaker : S × σ → T × τ → Prop}
    {left : Effect ε S σ α}
    {right : Effect ε T τ α}
    (mirrors : Mirrors mayStop alike first second left right)
    (implies : ∀ leftAfter rightAfter, alike leftAfter rightAfter →
      weaker leftAfter rightAfter) :
    Mirrors mayStop weaker first second left right :=
  Or.imp_left (fun both => ⟨both.1, implies _ _ both.2⟩) mirrors

/-- Effects are alike if effects that do the same from the two runs are. -/
theorem of_coincides
    {left leftSame : Effect ε S σ α}
    {right rightSame : Effect ε T τ α}
    (leftCoincides : left.run.run first = leftSame.run.run first)
    (rightCoincides : right.run.run second = rightSame.run.run second)
    (mirrors : Mirrors mayStop alike first second leftSame rightSame) :
    Mirrors mayStop alike first second left right := by
  unfold Mirrors StopsFrom at mirrors ⊢
  rw [leftCoincides, rightCoincides]
  exact mirrors

/-- Alike effects of which the second one is known to keep something. -/
theorem and_keeps
    {relates : T → T → Prop}
    {left : Effect ε S σ α}
    {right : Effect ε T τ α}
    (mirrors : Mirrors mayStop alike first second left right)
    (keeps : Keeps relates right) :
    Mirrors mayStop (fun leftAfter rightAfter =>
        alike leftAfter rightAfter ∧ relates second.1 rightAfter.1)
      first second left right := by
  obtain ⟨subject, state⟩ := second
  have kept : relates subject (right.run.run (subject, state)).2.1 := by
    have keptAfter := keeps subject state
    generalize right.run.run (subject, state) = outcome at keptAfter ⊢
    obtain ⟨answer, after⟩ := outcome
    cases answer <;> exact keptAfter
  exact Or.imp_left (fun both => ⟨both.1, both.2, kept⟩) mirrors

section Lists

variable {item : Type}

/-- Alike effects on each item of a list. -/
theorem forM
    {left : item → Effect ε S σ PUnit}
    {right : item → Effect ε T τ PUnit}
    (items : List item)
    (each : ∀ one ∈ items, ∀ leftBefore rightBefore,
      alike leftBefore rightBefore →
      Mirrors mayStop alike leftBefore rightBefore (left one) (right one))
    (holds : alike first second) :
    Mirrors mayStop alike first second (items.forM left) (items.forM right) := by
  induction items generalizing first second with
  | nil => exact .pure holds _
  | cons one rest inductionHypothesis =>
      rw [List.forM_eq_forM, List.forM_cons, List.forM_eq_forM, List.forM_cons]
      refine .bind (each one List.mem_cons_self first second holds) ?_
      intro _ leftAfter rightAfter after
      exact inductionHypothesis
        (fun other member => each other (List.mem_cons_of_mem _ member)) after

/-- Asking alike of the items of a list, in turn, whether all of them hold. -/
theorem allM
    {left : item → Effect ε S σ Bool}
    {right : item → Effect ε T τ Bool}
    (items : List item)
    (each : ∀ one ∈ items, ∀ leftBefore rightBefore,
      alike leftBefore rightBefore →
      Mirrors mayStop alike leftBefore rightBefore (left one) (right one))
    (holds : alike first second) :
    Mirrors mayStop alike first second (items.allM left) (items.allM right) := by
  induction items generalizing first second with
  | nil => exact .pure holds _
  | cons one rest inductionHypothesis =>
      unfold List.allM
      refine .bind (each one List.mem_cons_self first second holds) ?_
      intro answer leftAfter rightAfter after
      cases answer with
      | true =>
          exact inductionHypothesis
            (fun other member => each other (List.mem_cons_of_mem _ member)) after
      | false => exact .pure after _

/-- Asking alike of the items of a list, in turn, whether one of them holds. -/
theorem anyM
    {left : item → Effect ε S σ Bool}
    {right : item → Effect ε T τ Bool}
    (items : List item)
    (each : ∀ one ∈ items, ∀ leftBefore rightBefore,
      alike leftBefore rightBefore →
      Mirrors mayStop alike leftBefore rightBefore (left one) (right one))
    (holds : alike first second) :
    Mirrors mayStop alike first second (items.anyM left) (items.anyM right) := by
  induction items generalizing first second with
  | nil => exact .pure holds _
  | cons one rest inductionHypothesis =>
      unfold List.anyM
      refine .bind (each one List.mem_cons_self first second holds) ?_
      intro answer leftAfter rightAfter after
      cases answer with
      | true => exact .pure after _
      | false =>
          exact inductionHypothesis
            (fun other member => each other (List.mem_cons_of_mem _ member)) after

end Lists

end Mirrors

namespace Parsing

variable {σ α : Type} {before : Parser} {stops : Parser → Prop}
variable {returns : α → Parser → Prop}

/-- Looking at the parser changes nothing. -/
theorem run_get
    {rest : Parser → Parsing σ α}
    (state : σ) :
    (parser >>= rest).run.run (before, state) =
      (rest before).run.run (before, state) :=
  rfl

/-- Going on with the parser as it stands. -/
theorem ensures_get
    {rest : Parser → Parsing σ α}
    (ensures : Ensures before (rest before) returns stops) :
    Ensures before (parser >>= rest) returns stops :=
  ensures

/-- Going on with the parser changed. -/
theorem ensures_modify
    {change : Parser → Parser}
    {rest : Unit → Parsing σ α}
    (ensures : Ensures (change before) (rest ()) returns stops) :
    Ensures before (modifyParser change >>= rest) returns stops :=
  ensures

/-- Going on alike with the parser as it stands. -/
theorem coincides_get
    {left right : Parser → Parsing σ α}
    (rest : Coincides before (left before) (right before)) :
    Coincides before (parser >>= left) (parser >>= right) :=
  rest

/-- Going on alike with the parser changed alike. -/
theorem coincides_modify
    {leftChange rightChange : Parser → Parser}
    {left right : Unit → Parsing σ α}
    (same : leftChange before = rightChange before)
    (rest : Coincides (rightChange before) (left ()) (right ())) :
    Coincides before (modifyParser leftChange >>= left)
      (modifyParser rightChange >>= right) := by
  intro host
  change (left ()).run.run (leftChange before, host) = _
  rw [same]
  exact rest host

section Mirroring

variable {τ : Type} {mayStop : Prop}
variable {alike : Parser × σ → Parser × τ → Prop}
variable {first second : Parser} {left : σ} {right : τ}

/-- Going on alike with the parsers as they stand. -/
theorem mirrors_get
    {leftRest : Parser → Parsing σ α}
    {rightRest : Parser → Parsing τ α}
    (rest : Mirrors mayStop alike (first, left) (second, right) (leftRest first)
      (rightRest second)) :
    Mirrors mayStop alike (first, left) (second, right) (parser >>= leftRest)
      (parser >>= rightRest) :=
  rest

/-- Going on alike with the parsers changed. -/
theorem mirrors_modify
    {leftChange rightChange : Parser → Parser}
    {leftRest : Unit → Parsing σ α}
    {rightRest : Unit → Parsing τ α}
    (rest : Mirrors mayStop alike (leftChange first, left) (rightChange second, right)
      (leftRest ()) (rightRest ())) :
    Mirrors mayStop alike (first, left) (second, right)
      (modifyParser leftChange >>= leftRest)
      (modifyParser rightChange >>= rightRest) :=
  rest

end Mirroring

end Parsing

namespace Evaluation

variable {σ α : Type} {before : Evaluator} {stops : Evaluator → Prop}
variable {returns : α → Evaluator → Prop}

/-- Looking at the evaluator changes nothing. -/
theorem run_get
    {rest : Evaluator → Evaluation σ α}
    (state : σ) :
    (evaluator >>= rest).run.run (before, state) =
      (rest before).run.run (before, state) :=
  rfl

/-- Going on with the evaluator as it stands. -/
theorem ensures_get
    {rest : Evaluator → Evaluation σ α}
    (ensures : Ensures before (rest before) returns stops) :
    Ensures before (evaluator >>= rest) returns stops :=
  ensures

/-- Going on with the evaluator changed. -/
theorem ensures_modify
    {change : Evaluator → Evaluator}
    {rest : Unit → Evaluation σ α}
    (ensures : Ensures (change before) (rest ()) returns stops) :
    Ensures before (modifyEvaluator change >>= rest) returns stops :=
  ensures

/-- An answer of the host, or its refusal thrown. -/
def ofAnswer : Except ActionError α → Evaluation σ α
  | .ok value => pure value
  | .error error => throw error

/-- A call of the host leaves the evaluator alone. -/
theorem run_callHost
    (call : σ → Except ActionError α × σ)
    (state : σ) :
    (callHost call).run.run (before, state) =
      ((call state).1, before, (call state).2) := by
  change (ofAnswer (call state).1).run.run (before, (call state).2) = _
  cases (call state).1 <;> rfl

/-- What a call of the host answers in some state of it. -/
theorem ensures_callHost
    {call : σ → Except ActionError α × σ}
    (answers : ∀ state value, (call state).1 = .ok value →
      returns value before)
    (refuses : ∀ state error, (call state).1 = .error error → stops before) :
    Ensures before (callHost call : Evaluation σ α) returns stops := by
  intro state
  rw [run_callHost]
  cases answered : (call state).1 with
  | ok value => exact answers state value answered
  | error error => exact refuses state error answered

section Mirroring

variable {τ : Type} {mayStop : Prop}
variable {alike : Evaluator × σ → Evaluator × τ → Prop}
variable {first second : Evaluator} {left : σ} {right : τ}

/-- Going on alike with the evaluators as they stand. -/
theorem mirrors_get
    {leftRest : Evaluator → Evaluation σ α}
    {rightRest : Evaluator → Evaluation τ α}
    (rest : Mirrors mayStop alike (first, left) (second, right) (leftRest first)
      (rightRest second)) :
    Mirrors mayStop alike (first, left) (second, right) (evaluator >>= leftRest)
      (evaluator >>= rightRest) :=
  rest

/-- Going on alike with the evaluators changed. -/
theorem mirrors_modify
    {leftChange rightChange : Evaluator → Evaluator}
    {leftRest : Unit → Evaluation σ α}
    {rightRest : Unit → Evaluation τ α}
    (rest : Mirrors mayStop alike (leftChange first, left) (rightChange second, right)
      (leftRest ()) (rightRest ())) :
    Mirrors mayStop alike (first, left) (second, right)
      (modifyEvaluator leftChange >>= leftRest)
      (modifyEvaluator rightChange >>= rightRest) :=
  rest

end Mirroring

end Evaluation

end SpanForest
