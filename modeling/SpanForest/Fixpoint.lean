namespace SpanForest

/-!
# Repeating until nothing changes

A round says whether it changed anything. Rounds over facts from a finite
domain come to an end, because each one that changes something leaves fewer
facts of the domain missing.
-/

/--
Repeat `round` until it reports no change, at most `fuel` times.

The result comes with the number of rounds, the last one included.
-/
def repeatRounds
    (round : σ → Bool × σ) :
    Nat →
    σ →
    Nat × σ
  | 0, state => (0, state)
  | fuel + 1, state =>
      match round state with
      | (false, final) => (1, final)
      | (true, next) =>
          let (count, final) := repeatRounds round fuel next
          (count + 1, final)

/--
Rounds that lower a measure whenever they report a change end in a round that
reports none.

The invariant is what the rounds keep; the measure need only fall under it.
-/
theorem exists_stable_repeatRounds
    {round : σ → Bool × σ}
    {motive : σ → Prop}
    {measure : σ → Nat}
    (kept : ∀ state, motive state → motive (round state).2)
    (falls : ∀ state, motive state → (round state).1 = true →
      measure (round state).2 < measure state)
    {fuel : Nat}
    {start : σ}
    (holds : motive start)
    (enough : measure start < fuel) :
    ∃ last, motive last ∧
      round last = (false, (repeatRounds round fuel start).2) := by
  induction fuel generalizing start with
  | zero =>
      omega
  | succ fuel inductionHypothesis =>
      unfold repeatRounds
      split
      · rename_i final same
        exact ⟨start, holds, same⟩
      · rename_i next changed
        have nextHolds := kept start holds
        have fewer := falls start holds (by rw [changed])
        rw [changed] at nextHolds fewer
        exact inductionHypothesis nextHolds (by simp at fewer; omega)

/-- Rounds that come to an end make no use of more fuel. -/
theorem repeatRounds_add
    {round : σ → Bool × σ}
    {motive : σ → Prop}
    {measure : σ → Nat}
    (kept : ∀ state, motive state → motive (round state).2)
    (falls : ∀ state, motive state → (round state).1 = true →
      measure (round state).2 < measure state)
    {fuel : Nat}
    {start : σ}
    (holds : motive start)
    (enough : measure start < fuel)
    (more : Nat) :
    repeatRounds round (fuel + more) start = repeatRounds round fuel start := by
  induction fuel generalizing start with
  | zero =>
      omega
  | succ fuel inductionHypothesis =>
      rw [Nat.succ_add]
      unfold repeatRounds
      split
      · rfl
      · rename_i next changed
        have nextHolds := kept start holds
        have fewer := falls start holds (by rw [changed])
        simp only [changed] at nextHolds fewer
        rw [inductionHypothesis nextHolds (by omega)]

/-- What every round keeps holds of the result. -/
theorem repeatRounds_induction
    {round : σ → Bool × σ}
    {motive : σ → Prop}
    (kept : ∀ state, motive state → motive (round state).2)
    (fuel : Nat)
    {start : σ}
    (holds : motive start) :
    motive (repeatRounds round fuel start).2 := by
  induction fuel generalizing start with
  | zero =>
      exact holds
  | succ fuel inductionHypothesis =>
      have nextHolds := kept start holds
      unfold repeatRounds
      split
      · rename_i final same
        rw [same] at nextHolds
        exact nextHolds
      · rename_i next changed
        rw [changed] at nextHolds
        exact inductionHypothesis nextHolds

/-- Rounds on what is read from the states of other rounds go like those. -/
theorem repeatRounds_map
    {round : σ → Bool × σ}
    {other : τ → Bool × τ}
    {read : σ → τ}
    {motive : σ → Prop}
    (kept : ∀ state, motive state → motive (round state).2)
    (commutes : ∀ state, motive state →
      other (read state) = ((round state).1, read (round state).2))
    (fuel : Nat)
    (start : σ)
    (holds : motive start) :
    repeatRounds other fuel (read start) =
      ((repeatRounds round fuel start).1, read (repeatRounds round fuel start).2) := by
  induction fuel generalizing start with
  | zero =>
      rfl
  | succ fuel inductionHypothesis =>
      have nextHolds := kept start holds
      unfold repeatRounds
      rw [commutes start holds]
      generalize round start = outcome at nextHolds
      obtain ⟨changed, next⟩ := outcome
      cases changed with
      | false =>
          rfl
      | true =>
          simp only [inductionHypothesis next nextHolds]

/-- Number of facts of the domain that do not hold. -/
def missingFacts (domain : List α) (holds : α → Bool) : Nat :=
  domain.countP fun fact => !holds fact

/-- Facts that stay and grow leave no more of the domain missing. -/
theorem missingFacts_le
    {domain : List α}
    {before after : α → Bool}
    (kept : ∀ fact, before fact = true → after fact = true) :
    missingFacts domain after ≤ missingFacts domain before := by
  unfold missingFacts
  apply List.countP_mono_left
  intro fact _ lacking
  cases held : before fact with
  | false =>
      rfl
  | true =>
      simp [kept fact held] at lacking

/-- A new fact of the domain leaves less of it missing. -/
theorem missingFacts_lt
    {domain : List α}
    {before after : α → Bool}
    (kept : ∀ fact, before fact = true → after fact = true)
    {gained : α}
    (member : gained ∈ domain)
    (lacked : before gained = false)
    (holds : after gained = true) :
    missingFacts domain after < missingFacts domain before := by
  induction domain with
  | nil =>
      simp at member
  | cons first rest inductionHypothesis =>
      have monotone : missingFacts rest after ≤ missingFacts rest before :=
        missingFacts_le kept
      unfold missingFacts at *
      simp only [List.countP_cons]
      rcases List.mem_cons.mp member with same | later
      · subst same
        simp only [lacked, holds]
        simp
        omega
      · have fewer := inductionHypothesis later
        cases held : before first with
        | false =>
            cases heldAfter : after first <;> simp <;> omega
        | true =>
            simp [kept first held]
            exact fewer

end SpanForest
