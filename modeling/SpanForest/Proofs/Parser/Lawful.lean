import SpanForest.Proofs.Parser.Leading
import SpanForest.Proofs.Parser.Reachable

namespace SpanForest

/-!
# Which derivations a greedy pass keeps

A pass keeps a derivation if all its nodes survive, and else only by exemption:
if a greedy rule builds a span that starts with the winner of its symbol. The
sweep comes last, however, and no derivation is looked at after it. A node that
stands on several stacks may therefore keep a derivation through a node that
stood on one of them and was swept away with it.
-/

namespace Parser

variable {σ : Type} {host : Host σ}
variable {grammar : Grammar} {options : CompileOptions}
variable {config : ParserConfig}

section Law

variable (parser : Parser) (word : Nat)

/-- The stack that a greedy pass at a word leaves. -/
def filtered : GraphStack :=
  (parser.filterWord word).stack

/-- The winners of a greedy pass at a word. -/
def winners : Winners :=
  winnersAt parser.compiled parser.stack parser.spans word

/-- A derivation by a greedy rule of a span that starts with the winner of its symbol. -/
def Exempt (node : SymbolNodeId) (derivation : Derivation) : Prop :=
  ∃ winner,
    winnerOf? (parser.winners word) (parser.stack.symbolNode node) = some winner ∧
      (parser.spanOf winner).start = (parser.spanOf node).start ∧
      (parser.compiled.grammar.rule derivation.rule).greedy = true

/-- A node that a greedy pass at a word does not remove. -/
def Survives (node : SymbolNodeId) : Prop :=
  (parser.stack.symbolNode node).removed = false →
    ((parser.filtered word).symbolNode node).removed = false

/-- A node that neither lost to a winner nor lost its derivations, but all its states. -/
structure SweptAway (node : SymbolNodeId) : Prop where
  wins : node ∉ losersTo parser.stack parser.spans (parser.winners word)
  derived :
    ((parser.filtered word).symbolNode node).derivations = [] →
      (parser.stack.symbolNode node).derivations = []
  floats :
    ∀ below ∈ (parser.stack.symbolNode node).children,
      ((parser.filtered word).stateNode below).removed = true

/-- No live node keeps a derivation through a removed node, exemptions apart. -/
def SeversAll : Prop :=
  ∀ node : SymbolNodeId, ((parser.filtered word).symbolNode node).removed = false →
    ∀ derivation ∈ ((parser.filtered word).symbolNode node).derivations,
      parser.Exempt word node derivation ∨
        ∀ child ∈ derivation.children, parser.Survives word child

end Law

variable {parser : Parser} {word : Nat}

/-- A child that a pass did not drop survives it or is swept away. -/
theorem survives_or_sweptAway
    {start : Nat}
    {pass : GreedyPass}
    (ended :
      pass.Ended parser.compiled parser.spans (parser.winners word) parser.stack
        (parser.filtered word) start)
    {child : Nat}
    (notDropped : ¬ pass.Dropped child) :
    parser.Survives word child ∨ parser.SweptAway word child := by
  have drops := ended.drops
  refine or_iff_not_imp_left.mpr fun dies => ?_
  unfold Survives at dies
  simp only [Classical.not_imp, Bool.not_eq_false] at dies
  obtain ⟨wasLive, isRemoved⟩ := dies
  constructor
  case wins => exact fun loses => notDropped (ended.losers child loses)
  case derived =>
    intro isEmpty
    rw [ended.derivations] at isEmpty
    exact (drops.emptied child isEmpty).resolve_right notDropped
  case floats =>
    rcases ended.swept.symbol child isRemoved with before | ⟨-, floats⟩
    · rcases drops.only child before with old | isDropped
      · rw [wasLive] at old
        cases old
      · exact absurd isDropped notDropped
    · rw [(drops.trimmed.shape.symbol child).2.2.2] at floats
      exact floats

/-- A live node that depends on a dropped one does so by exemption. -/
theorem Sound.exempt_of_dropped
    (sound : parser.Sound host grammar options)
    {start : Nat}
    {pass : GreedyPass}
    (ended :
      pass.Ended parser.compiled parser.spans (parser.winners word) parser.stack
        (parser.filtered word) start)
    {node : Nat}
    (isLive : ((parser.filtered word).symbolNode node).removed = false)
    {derivation : Derivation}
    (member :
      derivation ∈ ((parser.filtered word).symbolNode node).derivations)
    {child : Nat}
    (isChild : child ∈ derivation.children)
    (isDropped : pass.Dropped child) :
    parser.Exempt word node derivation := by
  have drops := ended.drops
  have shape := drops.trimmed.shape
  rw [ended.derivations] at member
  have wasMember := (drops.trimmed.derivations node).subset member
  have inside := GraphStack.lt_size_of_mem_derivations wasMember
  have liveAtLast : (pass.stack.symbolNode node).removed = false :=
    Bool.eq_false_iff.mpr fun wasRemoved =>
      Bool.eq_false_iff.mp isLive (ended.swept.trimmed.removed node wasRemoved)
  have late : ∀ own : Nat, (parser.stack.symbolNode node).word = some own →
      start ≤ own := by
    intro own isOwn
    obtain ⟨-, id, yields, -⟩ :=
      (sound.forest node inside).justified derivation wasMember
    rw [isOwn] at yields
    obtain ⟨lower, isLower, le⟩ := yields.word_le sound.stack child isChild
    exact Nat.le_trans (drops.late child isDropped lower isLower) le
  rcases ended.clean node liveAtLast late with keepsAll | nothing
  · have kept := keepsAll derivation member
    unfold GreedyPass.keeps at kept
    simp only [Bool.or_eq_true, Bool.and_eq_true, Option.any_eq_true,
      beq_iff_eq] at kept
    rcases kept with ⟨⟨winner, isWinner, sameStart⟩, isGreedy⟩ | noneDead
    · rw [winnerOf?, (shape.symbol node).2.1] at isWinner
      rw [(shape.symbol winner).1, (shape.symbol node).1] at sameStart
      exact ⟨winner, isWinner, sameStart, isGreedy⟩
    · have notDead := List.all_eq_true.mp noneDead child isChild
      rw [GreedyPass.Dropped] at isDropped
      simp [isDropped] at notDead
  · exact absurd isDropped (nothing child)

/-- A derivation through a removed node is kept by exemption, or through the sweep alone. -/
theorem Sound.keeps_derivation
    (sound : parser.Sound host grammar options)
    {node : Nat}
    (isLive : ((parser.filtered word).symbolNode node).removed = false)
    {derivation : Derivation}
    (member :
      derivation ∈ ((parser.filtered word).symbolNode node).derivations) :
    parser.Exempt word node derivation ∨
      ∀ child ∈ derivation.children,
        parser.Survives word child ∨ parser.SweptAway word child := by
  rcases filterGreedily_cases parser.compiled parser.spans word parser.stack
    parser.roots with unchanged | ⟨start, pass, ended⟩
  · have same : parser.filtered word = parser.stack :=
      congrArg GreedyResult.stack unchanged
    refine .inr fun child _ => .inl fun wasLive => ?_
    rw [same]
    exact wasLive
  · by_cases through : ∃ child ∈ derivation.children, pass.Dropped child
    · obtain ⟨child, isChild, isDropped⟩ := through
      exact .inl (sound.exempt_of_dropped ended isLive member isChild isDropped)
    · exact .inr fun child isChild => survives_or_sweptAway ended
        fun isDropped => through ⟨child, isChild, isDropped⟩

/-- A derivation all of whose nodes survive a pass is kept. -/
theorem keeps_of_survives
    {node : Nat}
    {derivation : Derivation}
    (member : derivation ∈ (parser.stack.symbolNode node).derivations)
    (survive : ∀ child ∈ derivation.children, parser.Survives word child) :
    derivation ∈ ((parser.filtered word).symbolNode node).derivations := by
  rcases filterGreedily_cases parser.compiled parser.spans word parser.stack
    parser.roots with unchanged | ⟨start, pass, ended⟩
  · have same : parser.filtered word = parser.stack :=
      congrArg GreedyResult.stack unchanged
    rw [same]
    exact member
  · have isStack : (filterGreedily parser.compiled parser.spans word parser.stack
        parser.roots).stack = parser.filtered word :=
      rfl
    rw [isStack] at ended
    rw [ended.derivations]
    refine (ended.drops.lost node derivation member).resolve_right ?_
    rintro ⟨child, isChild, isDropped⟩
    have removed := ended.swept.trimmed.removed child
      (ended.drops.removed child isDropped)
    rw [survive child isChild (ended.drops.wasLive child isDropped)] at removed
    cases removed

/--
When the work at a word is done and what was noted is read, the greedy pass
keeps every derivation all of whose nodes survive. Any other one that a live
node keeps is exempt, or leads through survivors and nodes that were swept away.
-/
theorem Reachable.derivation_law
    {builder : GrammarBuilder}
    (built : builder.build = .ok grammar)
    (reachable : Reachable host (grammar.compile options) config parser)
    (isGreedy : config.greedy = true)
    (started : parser.started = true)
    (unfinished : parser.isFinished = false)
    {state changed : σ}
    {settled : Parser}
    (ends : (Parsing.workOn host parser.position).run.run (parser, state) =
      (.ok (), settled, changed)) :
    let word := parser.position
    let read := settled.readShifts word
    ((Parsing.step host).run.run (parser, state)).2.1.stack =
        read.filtered word ∧
      (∀ node : SymbolNodeId,
        ∀ derivation ∈ (read.stack.symbolNode node).derivations,
          (∀ child ∈ derivation.children, read.Survives word child) →
            derivation ∈ ((read.filtered word).symbolNode node).derivations) ∧
      ∀ node : SymbolNodeId,
        ((read.filtered word).symbolNode node).removed = false →
          ∀ derivation ∈ ((read.filtered word).symbolNode node).derivations,
            read.Exempt word node derivation ∨
              ∀ child ∈ derivation.children,
                read.Survives word child ∨ read.SweptAway word child := by
  have wellFormed := GrammarBuilder.wellFormed_of_build built
  have sound := reachable.sound wellFormed
  have known : parser.position ≤ parser.words.length :=
    Nat.le_of_not_lt (of_decide_eq_false unfinished)
  have settles := Parsing.ensures_workOn wellFormed sound rfl known state
  rw [ends] at settles
  obtain ⟨working, -, -⟩ := settles
  have readSound := (working.sound.readShifts wellFormed working.position).1
  have isStep := Parsing.run_step wellFormed sound started unfinished ends
  refine ⟨?_, fun node derivation => keeps_of_survives,
    fun node isLive derivation => readSound.keeps_derivation isLive⟩
  have settings := (Reachable.step state reachable).config_eq
  rw [isStep] at settings ⊢
  have readGreedy : (settled.readShifts parser.position).config.greedy = true := by
    rw [(advances_readShifts _).config, ← (advances_finishWord _).config]
    exact (congrArg ParserConfig.greedy settings).trans isGreedy
  simp only [finishWord, readGreedy, if_true]
  rfl

end Parser

section Sample

namespace Parser

/-- The parse before its end is processed. -/
def sharedAhead : Parser :=
  (afterSteps Host.inheriting 2 (sharedStart, ())).1

theorem reachable_sharedAhead :
    Reachable (Host.inheriting : Host Unit) (sharedGrammar.compile {}) {}
      sharedAhead := by
  have begun : Reachable (Host.inheriting : Host Unit)
      (sharedGrammar.compile {}) {} sharedStart := by
    unfold sharedStart
    exact .start _ _ .new
  exact begun.afterSteps () 2

/-- The parse when all the work at its end is done. -/
def sharedSettled : Parser :=
  ((Parsing.workOn Host.inheriting 2).run.run (sharedAhead, ())).2.1

/-- The parse as the last greedy pass finds it. -/
def sharedRead : Parser :=
  sharedSettled.readShifts 2

/-- What the last greedy pass makes of the `A` that stands on two stacks. -/
private theorem sharedRead_facts :
    sharedAhead.position = 2 ∧ sharedAhead.started = true ∧
      sharedAhead.isFinished = false ∧
      ((Parsing.workOn Host.inheriting 2).run.run
        (sharedAhead, ())).1.toBool = true ∧
      ((sharedRead.filtered 2).symbolNode 5).removed = false ∧
      ((sharedRead.filtered 2).symbolNode 5).derivations =
        [⟨6, [4]⟩, ⟨6, [8]⟩] ∧
      (sharedRead.stack.symbolNode 8).removed = false ∧
      ((sharedRead.filtered 2).symbolNode 8).removed = true ∧
      (sharedRead.compiled.grammar.rule 6).greedy = false := by
  decide +kernel

theorem sharedSettled_ends :
    (Parsing.workOn Host.inheriting 2).run.run (sharedAhead, ()) =
      (.ok (), sharedSettled, ()) := by
  have succeeds := sharedRead_facts.2.2.2.1
  unfold sharedSettled
  generalize (Parsing.workOn Host.inheriting 2).run.run (sharedAhead, ()) =
    outcome at succeeds
  obtain ⟨answer, after, changed⟩ := outcome
  cases answer with
  | error error => cases succeeds
  | ok _ => rfl

private theorem not_exempt_shared : ¬ sharedRead.Exempt 2 5 ⟨6, [8]⟩ := by
  rintro ⟨-, -, -, isGreedy⟩
  obtain ⟨-, -, -, -, -, -, -, -, notGreedy⟩ := sharedRead_facts
  rw [notGreedy] at isGreedy
  cases isGreedy

private theorem not_survives_shared : ¬ sharedRead.Survives 2 8 := by
  obtain ⟨-, -, -, -, -, -, wasLive, isRemoved, -⟩ := sharedRead_facts
  intro survives
  rw [survives wasLive] at isRemoved
  cases isRemoved

/-- The `A` keeps a derivation through an `X` that stood on a stack swept away. -/
theorem derivation_law_shared :
    sharedBuilder.build = .ok sharedGrammar ∧
      Reachable (Host.inheriting : Host Unit) (sharedGrammar.compile {}) {}
        sharedAhead ∧
      ((sharedRead.filtered 2).symbolNode 5).removed = false ∧
      ⟨6, [8]⟩ ∈ ((sharedRead.filtered 2).symbolNode 5).derivations ∧
      sharedRead.SweptAway 2 8 := by
  obtain ⟨atEnd, started, unfinished, -, isLive, kept, -⟩ := sharedRead_facts
  have member : ⟨6, [8]⟩ ∈
      ((sharedRead.filtered 2).symbolNode 5).derivations := by
    rw [kept]
    exact List.mem_cons_of_mem _ List.mem_cons_self
  obtain ⟨-, -, law⟩ := Reachable.derivation_law build_sharedBuilder
    reachable_sharedAhead rfl started unfinished
    (atEnd.symm ▸ sharedSettled_ends)
  rw [atEnd] at law
  refine ⟨build_sharedBuilder, reachable_sharedAhead, isLive, member, ?_⟩
  have through := (law 5 isLive ⟨6, [8]⟩ member).resolve_left not_exempt_shared
  exact (through 8 List.mem_cons_self).resolve_left not_survives_shared

/-- A greedy pass does not sever all derivations through removed nodes. -/
theorem not_seversAll_shared :
    sharedBuilder.build = .ok sharedGrammar ∧
      Reachable (Host.inheriting : Host Unit) (sharedGrammar.compile {}) {}
        sharedAhead ∧
      (Parsing.workOn Host.inheriting sharedAhead.position).run.run
          (sharedAhead, ()) =
        (.ok (), sharedSettled, ()) ∧
      ¬ (sharedSettled.readShifts sharedAhead.position).SeversAll
        sharedAhead.position := by
  obtain ⟨atEnd, -, -, -, isLive, kept, -⟩ := sharedRead_facts
  rw [atEnd]
  refine ⟨build_sharedBuilder, reachable_sharedAhead, sharedSettled_ends, ?_⟩
  intro severs
  have member : ⟨6, [8]⟩ ∈
      ((sharedRead.filtered 2).symbolNode 5).derivations := by
    rw [kept]
    exact List.mem_cons_of_mem _ List.mem_cons_self
  rcases severs 5 isLive ⟨6, [8]⟩ member with exempt | survive
  · exact not_exempt_shared exempt
  · exact not_survives_shared (survive 8 List.mem_cons_self)

end Parser

end Sample

end SpanForest
