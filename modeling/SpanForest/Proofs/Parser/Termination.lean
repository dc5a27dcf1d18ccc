import SpanForest.Proofs.Parser.Reachable

namespace SpanForest

/-!
# Steps come to an end

The loops of a step run on fuel. None of them ever uses it up: a word is settled
when nothing is left to do, predicates that do not depend on themselves nest no
deeper than there are predicates, and rounds of pruning and sweeping end with
one that changes nothing. So more fuel makes no difference. What bounds the work
at a word is the limit of nodes, which no layer exceeds.
-/

namespace Parsing

variable {σ : Type} {host : Host σ}
variable {grammar : Grammar} {options : CompileOptions} {word : Nat}
variable {parser : Parser}

/-- Settle a word with more fuel. -/
def settleLonger (host : Host σ) (more word fuel : Nat) : Parsing σ Unit :=
  settle host word (fuel + more)

/-- Process the next word with more fuel to settle it. -/
def stepLonger (host : Host σ) (more : Nat) : Parsing σ Bool :=
  stepBy (settleLonger host more) host

/-- A round of settling in which a node acts. -/
theorem run_settle_act
    {node : StateNodeId}
    {rest : List StateNodeId}
    (isActive : parser.active = node :: rest)
    (fuel : Nat)
    (state : σ) :
    (settle host word (fuel + 1)).run.run (parser, state) =
      (settle host word fuel).run.run
        ({ parser with active := rest }.act node, state) := by
  cases parser
  subst isActive
  rfl

/-- A round of settling in which a reduction is tried. -/
theorem run_settle_reduce
    {reduction : Reduction}
    {rest : List Reduction}
    (noneActive : parser.active = [])
    (isNext : parser.reductions = reduction :: rest)
    (fuel : Nat)
    (state : σ) :
    (settle host word (fuel + 1)).run.run (parser, state) =
      (reduce host word reduction >>= fun _ => settle host word fuel).run.run
        ({ parser with reductions := rest }, state) := by
  cases parser
  subst noneActive isNext
  rfl

/-- The round in which nothing is left to do. -/
theorem run_settle_rest
    (noneActive : parser.active = [])
    (noneLeft : parser.reductions = [])
    (fuel : Nat)
    (state : σ) :
    (settle host word fuel).run.run (parser, state) =
      (.ok (), parser, state) := by
  cases fuel with
  | zero => rfl
  | succ fuel =>
      cases parser
      subst noneActive noneLeft
      rfl

/-- A word that is settled makes no use of more fuel. -/
theorem run_settle_add
    {fuel : Nat}
    {state : σ}
    (ended : ∀ after, (settle host word fuel).run.run (parser, state) =
      (.ok (), after) → after.1.active = [] ∧ after.1.reductions = [])
    (more : Nat) :
    (settle host word (fuel + more)).run.run (parser, state) =
      (settle host word fuel).run.run (parser, state) := by
  induction fuel generalizing parser state with
  | zero =>
      obtain ⟨noneActive, noneLeft⟩ := ended (parser, state) rfl
      rw [run_settle_rest noneActive noneLeft,
        run_settle_rest noneActive noneLeft]
  | succ fuel inductionHypothesis =>
      rw [Nat.succ_add]
      cases isActive : parser.active with
      | cons node active =>
          rw [run_settle_act isActive] at ended
          rw [run_settle_act isActive, run_settle_act isActive]
          exact inductionHypothesis ended
      | nil =>
          cases isNext : parser.reductions with
          | nil =>
              rw [run_settle_rest isActive isNext,
                run_settle_rest isActive isNext]
          | cons reduction reductions =>
              rw [run_settle_reduce isActive isNext] at ended
              rw [run_settle_reduce isActive isNext,
                run_settle_reduce isActive isNext]
              simp only [ExceptT.run_bind, StateT.run_bind] at ended ⊢
              generalize (reduce host word reduction).run.run
                ({ parser with reductions := reductions }, state) = outcome
                at ended ⊢
              obtain ⟨result, after, changed⟩ := outcome
              cases result with
              | ok value => exact inductionHypothesis ended
              | error error => rfl

/-- More fuel to settle words changes no step of a sound parse. -/
theorem coincides_stepLonger
    (wellFormed : grammar.WellFormed)
    (sound : parser.Sound host grammar options)
    (more : Nat) :
    Coincides parser (stepLonger host more) (step host) := by
  have terms : host.Terms grammar True := ⟨wellFormed, .inr trivial⟩
  refine coincides_stepBy wellFormed sound fun woken working state => ?_
  have settled := ensures_settle terms Parser.Kept.anything working trivial _ _ _
    (Nat.le_refl _) (Nat.le_refl _)
    (Parser.weight_lt_workBound woken parser.position) state
  refine run_settle_add (fun after ended => ?_) more
  rw [ended] at settled
  exact settled.2.2.2

end Parsing

namespace Parser

variable {σ : Type} {host : Host σ}
variable {grammar : Grammar} {options : CompileOptions}
variable {config : ParserConfig} {parser : Parser}

/-- A step that processed a word left nothing to do. -/
theorem Sound.rested_step
    (wellFormed : grammar.WellFormed)
    (sound : parser.Sound host grammar options)
    (unfinished : parser.isFinished = false)
    {state : σ}
    {remains : Bool}
    {after : Parser × σ}
    (stepped : (Parsing.step host).run.run (parser, state) =
      (.ok remains, after)) :
    after.1.active = [] ∧ after.1.reductions = [] := by
  have terms : host.Terms grammar True := ⟨wellFormed, .inr trivial⟩
  have ensured := Parsing.ensures_step terms (fun _ => Kept.anything) sound (.inr trivial)
    (fun _ _ _ _ => trivial) state
  rw [stepped] at ensured
  rcases ensured with ⟨-, isFinished, -⟩ | ⟨-, _, _, _, processed, -, isAfter, -⟩
  · rw [unfinished] at isFinished
    cases isFinished
  · rw [isAfter]
    exact ⟨processed.finishes.active.trans processed.active,
      processed.finishes.reductions.trans processed.reductions⟩

/--
In every parse that is reached, no layer has more reduced nodes than the limit
allows. A step ends for want of work: what is queued was done, and more fuel to
settle the word, to evaluate predicates, or to prune and sweep the stack would
change nothing.
-/
theorem Reachable.step_ends
    {builder : GrammarBuilder}
    (built : builder.build = .ok grammar)
    (acyclic : grammar.predicates.Acyclic)
    (reachable : Reachable host (grammar.compile options) config parser) :
    (∀ word, (parser.stack.layer word).reduced.length ≤ config.maxReduced) ∧
    (∀ state remains after, parser.isFinished = false →
      (Parsing.step host).run.run (parser, state) = (.ok remains, after) →
        after.1.active = [] ∧ after.1.reductions = []) ∧
    (∀ more state, (Parsing.stepLonger host more).run.run (parser, state) =
      (Parsing.step host).run.run (parser, state)) ∧
    (∀ (context : ParseContext) (id : PredicateId) (more : Nat),
      id < grammar.predicates.size →
        evaluateWithin (grammar.compile options).network host context
            ((grammar.compile options).network.size *
              (context.spans.size + 1) + more) id =
          evaluatePredicate (grammar.compile options).network host context
            id) ∧
    (∀ (stack : GraphStack) (start more : Nat),
      (repeatRounds (GraphStack.sweepRound start)
          (stack.states.size + stack.symbols.size + 1 + more) (0, stack)).2 =
        stack.sweep start) ∧
    ∀ (pass : GreedyPass) (spans : SpanStore) (winners : Winners) (more : Nat),
      pass.dead.isEmpty = false →
        (repeatRounds
            (GreedyPass.pruneRound (grammar.compile options) spans winners
              pass.dependents)
            ((pass.dependents.map fun id =>
              (pass.stack.symbolNode id).derivations.length).foldr (· + ·) 0 + 1 + more)
            pass).2 =
          pass.pruneAll (grammar.compile options) spans winners := by
  have wellFormed := GrammarBuilder.wellFormed_of_build built
  have sound := reachable.sound wellFormed
  obtain ⟨rank, ranked⟩ := acyclic.exists_ranked wellFormed.operand_known
  refine ⟨fun word => ?_, fun state remains after unfinished stepped =>
      sound.rested_step wellFormed unfinished stepped,
    fun more state => Parsing.coincides_stepLonger wellFormed sound more state,
    fun context id more inside => ?_,
    fun stack start more => GraphStack.repeatRounds_sweepRound start more,
    fun pass spans winners more someDead =>
      GreedyPass.repeatRounds_pruneRound someDead more⟩
  · exact reachable.config_eq ▸ sound.bounded word
  · have enough : rank id < (grammar.compile options).network.size *
        (context.spans.size + 1) :=
      Nat.lt_of_lt_of_le (ranked.bounded id inside)
        (Nat.le_mul_of_pos_right _ (Nat.succ_pos _))
    exact @evaluateWithin_eq_of_rank_lt _ _ (grammar.compile options).network
      _ rank ranked _ _ _ (Nat.lt_add_right more enough) enough

/-- The steps of a parse of two words come to an end. -/
theorem step_ends_nested :
    nestedBuilder.build = .ok nestedGrammar ∧
      nestedGrammar.predicates.Acyclic ∧
      Reachable (Host.inheriting : Host Unit) (nestedGrammar.compile {}) {}
        nestedEnd ∧
      (nestedEnd.stack.layer 2).reduced.length ≤ 4096 ∧
      Reachable (Host.inheriting : Host Unit) (nestedGrammar.compile {}) {}
        nestedStart ∧
      ∀ more, (Parsing.stepLonger Host.inheriting more).run.run
          (nestedStart, ()) =
        (Parsing.step Host.inheriting).run.run (nestedStart, ()) := by
  have acyclic : nestedGrammar.predicates.Acyclic :=
    PredicateAlphabet.acyclic_empty
  have begun : Reachable (Host.inheriting : Host Unit)
      (nestedGrammar.compile {}) {} nestedStart :=
    .start _ _ .new
  have bounded :=
    (Reachable.step_ends build_nestedBuilder acyclic reachable_nestedEnd).1
  obtain ⟨-, -, longer, -⟩ :=
    Reachable.step_ends build_nestedBuilder acyclic begun
  exact ⟨build_nestedBuilder, acyclic, reachable_nestedEnd, bounded 2, begun,
    fun more => longer more ()⟩

end Parser

end SpanForest
