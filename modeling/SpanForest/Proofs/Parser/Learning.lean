import SpanForest.Proofs.Parser.Sound
import SpanForest.Proofs.Predicate.Acyclic

namespace SpanForest

/-!
# Asking and remembering

Testing predicates, synthesizing spans and running actions adds spans and
memories to a parse but leaves its stack and its work alone. What is added is
true, so a sound parse stays sound, and the answers can be relied on.
-/

/--
Hosts and grammars that never end a parse: neither tests nor actions are fatal,
and no predicate depends on itself.
-/
structure Host.Undisturbed {σ : Type} (host : Host σ) (grammar : Grammar) : Prop where
  tests : host.TestsCalmly
  actions :
    ∀ context rule target rhs state reason,
      (host.execute context rule target rhs state).1 ≠ .error (.fatal reason)
  operands : grammar.predicates.Acyclic

/--
Hosts and grammars whose predicates never end a parse: no test is fatal, and no
predicate depends on itself.
-/
structure Host.Responsive {σ : Type} (host : Host σ) (grammar : Grammar) : Prop where
  tests : host.TestsCalmly
  operands : grammar.predicates.Acyclic

theorem Host.Undisturbed.responsive
    {σ : Type}
    {host : Host σ}
    {grammar : Grammar}
    (undisturbed : host.Undisturbed grammar) :
    host.Responsive grammar :=
  ⟨undisturbed.tests, undisturbed.operands⟩

/-- What is taken for granted of predicates; they are answered unless a parse may stop. -/
structure Host.TestTerms
    {σ : Type}
    (host : Host σ)
    (grammar : Grammar)
    (mayStop : Prop) : Prop where
  wellFormed : grammar.WellFormed
  calm :
    (host.Responsive grammar ∧ ∃ decide, host.Decides decide) ∨ mayStop

/-- What is taken for granted; a parse is undisturbed unless it may stop. -/
structure Host.Terms
    {σ : Type}
    (host : Host σ)
    (grammar : Grammar)
    (mayStop : Prop) : Prop where
  wellFormed : grammar.WellFormed
  calm :
    (host.Undisturbed grammar ∧ ∃ decide, host.Decides decide) ∨ mayStop

theorem Host.Terms.tests
    {σ : Type}
    {host : Host σ}
    {grammar : Grammar}
    {mayStop : Prop}
    (terms : host.Terms grammar mayStop) :
    host.TestTerms grammar mayStop where
  wellFormed := terms.wellFormed
  calm := terms.calm.imp_left fun both => ⟨both.1.responsive, both.2⟩

/-- The inheriting host stops no parse whose predicates do not depend on themselves. -/
theorem Host.terms_inheriting
    {σ : Type}
    {grammar : Grammar}
    (wellFormed : grammar.WellFormed)
    (acyclic : grammar.predicates.Acyclic) :
    (Host.inheriting : Host σ).Terms grammar False := by
  refine ⟨wellFormed, .inl ⟨⟨?_, ?_, acyclic⟩, _, Host.decides_inheriting⟩⟩
  · intro name context span state reason isFatal
    cases isFatal
  · intro context rule target rhs state reason isFatal
    cases isFatal

namespace Parser

/-- A parse that has got further spans and memories, and nothing else. -/
structure Learns (before after : Parser) : Prop where
  compiled : after.compiled = before.compiled
  config : after.config = before.config
  document : after.document = before.document
  input : after.input = before.input
  words : after.words = before.words
  viable : after.viable = before.viable
  position : after.position = before.position
  started : after.started = before.started
  spans : before.spans.Extends after.spans
  stack : after.stack = before.stack
  synthesized :
    ∀ (key : SpanId × SymbolId) (made : Option SpanId),
      before.synthesized[key]? = some made →
        after.synthesized[key]? = some made
  candidates : after.candidates = before.candidates
  active : after.active = before.active
  reductions : after.reductions = before.reductions
  shifts : after.shifts = before.shifts
  performed : after.performed = before.performed
  roots : after.roots = before.roots
  capped : after.capped = before.capped

variable {σ : Type} {host : Host σ}
variable {grammar : Grammar} {options : CompileOptions}
variable {first second third before after : Parser}

theorem Learns.refl (parser : Parser) : parser.Learns parser := by
  constructor
  case spans => exact .refl _
  case synthesized => exact fun _ _ stored => stored
  all_goals rfl

theorem Learns.trans
    (early : first.Learns second)
    (late : second.Learns third) :
    first.Learns third where
  compiled := late.compiled.trans early.compiled
  config := late.config.trans early.config
  document := late.document.trans early.document
  input := late.input.trans early.input
  words := late.words.trans early.words
  viable := late.viable.trans early.viable
  position := late.position.trans early.position
  started := late.started.trans early.started
  spans := early.spans.trans late.spans
  stack := late.stack.trans early.stack
  synthesized key made stored :=
    late.synthesized key made (early.synthesized key made stored)
  candidates := late.candidates.trans early.candidates
  active := late.active.trans early.active
  reductions := late.reductions.trans early.reductions
  shifts := late.shifts.trans early.shifts
  performed := late.performed.trans early.performed
  roots := late.roots.trans early.roots
  capped := late.capped.trans early.capped

theorem learns_evaluator
    (parser : Parser)
    (evaluator : Evaluator) :
    parser.Learns { parser with evaluator := evaluator } :=
  { Learns.refl parser with }

/-- A stack that is left alone has grown, whatever the word. -/
theorem Learns.grows
    (learns : before.Learns after)
    (since : Nat) :
    before.Grows since after where
  compiled := learns.compiled
  config := learns.config
  document := learns.document
  input := learns.input
  words := learns.words
  viable := learns.viable
  started := learns.started
  spans := learns.spans
  stack := by
    rw [learns.stack]
    exact .refl _ _

/-- The spans of a parse have their own numbers. -/
def Numbered (parser : Parser) : Prop :=
  ∀ id : Nat, id < parser.spans.size → (parser.spans.get id).id = id

/-- A span that is committed gets its own number. -/
theorem Numbered.push
    (numbered : before.Numbered)
    (span : Span) :
    Numbered { before with spans := (before.spans.push span).2 } := by
  intro id inside
  rw [SpanStore.size_push] at inside
  change ((before.spans.push span).2.get id).id = id
  rcases Nat.lt_succ_iff_lt_or_eq.mp inside with old | isNew
  · rw [((SpanStore.extends_push span).get old).2]
    exact numbered id old
  · rw [isNew, show before.spans.size = before.spans.nextId from rfl,
      SpanStore.get_push]
    rfl

theorem Loaded.numbered
    (loaded : before.Loaded grammar options) :
    before.Numbered :=
  loaded.ordered.span_id

/-- What was remembered stays true, and what is added is asked to be. -/
theorem Remembers.grows
    {since : Nat}
    (remembers : before.Remembers host)
    (ordered : before.context.Ordered)
    (grows : before.Grows since after)
    (evaluator : ∀ decide, host.Decides decide →
      after.evaluator.Sound (before.situation decide) after.spans)
    (synthesized :
      ∀ (base : SpanId) (symbol : SymbolId) (id : SpanId),
        after.synthesized[(base, symbol)]? = some (some id) →
          before.synthesized[(base, symbol)]? = some (some id) ∨
            ∃ declaration, declaration.symbol = symbol ∧
              after.Synthesizes host base declaration id)
    (outcomes :
      ∀ (rule : RuleId) (ids : List SpanId) (outcome : Option SpanId),
        after.outcomes[(rule, ids)]? = some outcome →
          before.outcomes[(rule, ids)]? = some outcome ∨
            match outcome with
            | some id =>
                after.Accepts host (after.compiled.grammar.rule rule) ids id
            | none =>
                after.Declines host (after.compiled.grammar.rule rule) ids) :
    after.Remembers host := by
  constructor
  case evaluator =>
    intro decide decides
    rw [grows.situation ordered]
    exact evaluator decide decides
  case synthesized =>
    intro base symbol id stored
    rcases synthesized base symbol id stored with old | new
    · obtain ⟨declaration, isSymbol, synthesizes⟩ :=
        remembers.synthesized base symbol id old
      exact ⟨declaration, isSymbol, synthesizes.grows grows ordered⟩
    · exact new
  case produced =>
    intro rule ids id stored
    rcases outcomes rule ids _ stored with old | new
    · rw [grows.compiled]
      exact (remembers.produced rule ids id old).grows grows
    · exact new
  case declined =>
    intro rule ids stored
    rcases outcomes rule ids _ stored with old | new
    · rw [grows.compiled]
      exact (remembers.declined rule ids old).grows grows
    · exact new

/-- What accounts for a forest still does if the stack is left alone. -/
theorem Forest.sameStack
    {since : Nat}
    (forest : before.Forest host)
    (loaded : before.Loaded grammar options)
    {table : PackedTable}
    (consistent : before.stack.Consistent table)
    (grows : before.Grows since after)
    (sameStack : after.stack = before.stack) :
    after.Forest host := by
  intro node inside
  rw [sameStack] at inside
  refine Accounted.grows forest grows loaded.ordered (sameStack ▸ consistent)
    inside ?_
  rw [sameStack]
  exact List.Subset.refl _

/-- A parse stays sound if its stack is left alone and its memories are true. -/
theorem Sound.sameStack
    {since : Nat}
    (sound : before.Sound host grammar options)
    (grows : before.Grows since after)
    (position : after.position = before.position)
    (sameStack : after.stack = before.stack)
    (roots : after.roots = before.roots)
    (numbered : after.Numbered)
    (remembers : after.Remembers host)
    (reductions : after.reductions ⊆ before.reductions)
    (shifts : after.shifts ⊆ before.shifts) :
    after.Sound host grammar options := by
  have ordered := sound.loaded.ordered
  have carries : before.Carries after := by
    refine grows.carries ?_ ?_ ?_ ?_ roots <;> rw [sameStack]
    · exact .refl _
    · exact fun _ => rfl
    · exact fun _ => rfl
  constructor
  case loaded => exact sound.loaded.grows grows numbered
  case stack =>
    rw [sameStack, grows.compiled]
    exact sound.stack
  case forest =>
    exact sound.forest.sameStack sound.loaded sound.stack grows sameStack
  case live =>
    rw [grows.config, sameStack]
    exact sound.live
  case spared =>
    obtain ⟨dropped, spares⟩ := sound.spared
    exact ⟨dropped, carries.spared dropped spares⟩
  case bounded => exact carries.bounded sound.bounded
  case rooted => exact carries.rooted sound.rooted
  case remembers => exact remembers
  case reductions =>
    intro reduction queued
    rw [position]
    exact (sound.reductions reduction (reductions queued)).grows grows
      carries.unharmed sound.stack
  case shifts =>
    intro shift noted
    rw [position]
    exact (sound.shifts shift (shifts noted)).grows grows ordered

/-- A sound parse stays sound if what it learns is true. -/
theorem Sound.learns
    (sound : before.Sound host grammar options)
    (learns : before.Learns after)
    (numbered : after.Numbered)
    (remembers : after.Remembers host) :
    after.Sound host grammar options :=
  sound.sameStack (learns.grows 0) learns.position learns.stack learns.roots
    numbered remembers
    (fun _ queued => learns.reductions ▸ queued)
    (fun _ noted => learns.shifts ▸ noted)

/-- Candidates and the work that is left may be given up. -/
theorem Sound.dropWork
    (sound : before.Sound host grammar options)
    (candidates : List SpanId)
    (active : List StateNodeId)
    {reductions : List Reduction}
    (subset : reductions ⊆ before.reductions)
    (capped : Bool) :
    Parser.Sound host
      { before with
        candidates := candidates
        active := active
        reductions := reductions
        capped := capped }
      grammar options := by
  have grows : before.Grows 0
      { before with
        candidates := candidates
        active := active
        reductions := reductions
        capped := capped } :=
    { Grows.refl 0 before with }
  exact sound.sameStack grows rfl rfl rfl sound.loaded.numbered
    (sound.remembers.grows sound.loaded.ordered grows
      sound.remembers.evaluator (fun _ _ _ stored => .inl stored)
      fun _ _ _ stored => .inl stored)
    subset (List.Subset.refl _)

/-- Committing a span. -/
theorem Sound.commit
    (sound : before.Sound host grammar options)
    (span : Span) :
    before.Learns { before with spans := (before.spans.push span).2 } ∧
      Parser.Sound host
        { before with spans := (before.spans.push span).2 }
        grammar options := by
  have learns : before.Learns
      { before with spans := (before.spans.push span).2 } :=
    { Learns.refl before with spans := SpanStore.extends_push span }
  refine ⟨learns, sound.learns learns ?_ (sound.remembers.grows
    sound.loaded.ordered (learns.grows 0)
    (fun decide decides => (sound.remembers.evaluator decide decides).grows
      (SpanStore.extends_push span))
    (fun _ _ _ stored => .inl stored) fun _ _ _ stored => .inl stored)⟩
  exact sound.loaded.numbered.push span

/-- Entering what was synthesized from a span for the first time. -/
theorem Sound.synthesized
    (sound : before.Sound host grammar options)
    {base : Nat}
    {declaration : Synthesized}
    (unknown : before.synthesized[(base, declaration.symbol)]? = none)
    {made : Option SpanId}
    (isMade : ∀ id : Nat, made = some id →
      before.Synthesizes host base declaration id) :
    before.Learns { before with
        synthesized :=
          before.synthesized.insert (base, declaration.symbol) made } ∧
      Parser.Sound host
        { before with
          synthesized :=
            before.synthesized.insert (base, declaration.symbol) made }
        grammar options := by
  have learns : before.Learns { before with
      synthesized :=
        before.synthesized.insert (base, declaration.symbol) made } :=
    { Learns.refl before with
      synthesized := by
        intro key known stored
        simp only [Std.TreeMap.getElem?_insert]
        split
        · rename_i same
          rw [← Std.LawfulEqCmp.eq_of_compare same, unknown] at stored
          cases stored
        · exact stored }
  refine ⟨learns, sound.learns learns sound.loaded.numbered
    (sound.remembers.grows sound.loaded.ordered (learns.grows 0)
      sound.remembers.evaluator ?_ fun _ _ _ stored => .inl stored)⟩
  intro otherBase symbol id stored
  simp only [Std.TreeMap.getElem?_insert] at stored
  split at stored
  · rename_i same
    obtain ⟨rfl, rfl⟩ := Prod.mk.inj (Std.LawfulEqCmp.eq_of_compare same)
    refine .inr ⟨declaration, rfl, ?_⟩
    exact (isMade id (Option.some.inj stored)).grows (learns.grows 0)
      sound.loaded.ordered
  · exact .inl stored

/-- Entering the outcome of a reduction. -/
theorem Sound.recordOutcome
    (sound : before.Sound host grammar options)
    {rule : RuleId}
    {ids : List SpanId}
    {outcome : Option SpanId}
    (isOutcome :
      match outcome with
      | some id =>
          before.Accepts host (before.compiled.grammar.rule rule) ids id
      | none => before.Declines host (before.compiled.grammar.rule rule) ids) :
    before.Learns (before.recordOutcome rule ids outcome) ∧
      (before.recordOutcome rule ids outcome).Sound host grammar
        options := by
  have learns : before.Learns (before.recordOutcome rule ids outcome) :=
    { Learns.refl before with }
  refine ⟨learns, sound.learns learns sound.loaded.numbered
    (sound.remembers.grows sound.loaded.ordered (learns.grows 0)
      sound.remembers.evaluator (fun _ _ _ stored => .inl stored) ?_)⟩
  intro otherRule otherIds other stored
  simp only [Parser.recordOutcome, Std.TreeMap.getElem?_insert] at stored
  split at stored
  · rename_i same
    obtain ⟨rfl, rfl⟩ := Prod.mk.inj (Std.LawfulEqCmp.eq_of_compare same)
    obtain rfl := Option.some.inj stored
    cases outcome with
    | some id => exact .inr (isOutcome.grows (learns.grows 0))
    | none => exact .inr (isOutcome.grows (learns.grows 0))
  · exact .inl stored

/-- Counting attempts and successes. -/
theorem Sound.count
    (sound : before.Sound host grammar options)
    (stats : ReductionStats) :
    before.Learns { before with current := stats } ∧
      Parser.Sound host { before with current := stats } grammar
        options := by
  have learns : before.Learns { before with current := stats } :=
    { Learns.refl before with }
  exact ⟨learns, sound.learns learns sound.loaded.numbered
    (sound.remembers.grows sound.loaded.ordered (learns.grows 0)
      sound.remembers.evaluator (fun _ _ _ stored => .inl stored)
      fun _ _ _ stored => .inl stored)⟩

end Parser

end SpanForest
