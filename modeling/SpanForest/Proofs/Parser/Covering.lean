import SpanForest.Proofs.Parser.Moving
import SpanForest.Proofs.Parser.Settings
import SpanForest.Proofs.Parser.Settling

namespace SpanForest

/-!
# Nothing is left out at a word

Whatever can be done at a word was done, or is noted, queued or being tried.
A rule that a state reduces is applied along every way down from every node
that the state holds: along those that were there when the state acted, and
along each link that was added later. So when nothing is left to do, and the
word did not reach its limit, every rule was applied wherever it can be.
-/

namespace Parser

variable {σ : Type} {host : Host σ}
variable {grammar : Grammar} {options : CompileOptions} {word : Nat}
variable {before after parser : Parser}

/-- State nodes that act at a word: those of its layer, and maybe the start node. -/
def ActsAt (parser : Parser) (word : Nat) (node : Nat) : Prop :=
  node ∈ (parser.stack.layer word).nodes ∨
    node = GraphStack.startNode ∧ parser.isAtEnd word = false ∧
      parser.viable.contains word = true

/-- A rule was applied along all ways from a node down through a state node. -/
def WaySettled
    (host : Host σ)
    (word : Nat)
    (parser : Parser)
    (rule : RuleId)
    (anchor : SymbolNodeId)
    (through : StateNodeId) : Prop :=
  ∀ (base : Nat) (nodes : List SymbolNodeId),
    parser.stack.Climbs base nodes through →
    nodes.length + 1 = (parser.compiled.grammar.rule rule).length →
    parser.Settled host word (parser.compiled.grammar.rule rule)
      (nodes ++ [anchor]) [base]

/-- A rule is still to be applied from a node down through a state node. -/
def Pending
    (trying : List Reduction)
    (parser : Parser)
    (rule : RuleId)
    (anchor : SymbolNodeId)
    (through : StateNodeId) : Prop :=
  ⟨rule, anchor, none⟩ ∈ parser.reductions ∨
    ⟨rule, anchor, some through⟩ ∈ parser.reductions ∨
    ⟨rule, anchor, some through⟩ ∈ trying

/-- Everything that can be done at a word is done or waits to be done. -/
structure Covered
    (host : Host σ)
    (word : Nat)
    (trying : List Reduction)
    (parser : Parser) : Prop where
  live : parser.stack.Live
  waiting :
    ∀ node : Nat, node ∈ (parser.stack.layer word).nodes →
      (parser.stack.stateNode node).active = true → node ∈ parser.active
  noted :
    ∀ node : Nat, parser.ActsAt word node → node ∈ parser.active ∨
      parser.shiftsFrom node (parser.stack.stateNode node).state ⊆
        parser.shifts
  acted :
    ∀ node : Nat, node ∈ (parser.stack.layer word).nodes →
      node ∈ parser.active ∨
        ∀ rule ∈ parser.lookaheadRules (parser.stack.stateNode node).state,
          ∀ anchor : Nat, anchor ∈ (parser.stack.stateNode node).children →
            ⟨rule, anchor, none⟩ ∈ parser.performed
  linked :
    ∀ reduction ∈ parser.performed,
      (reduction.anchor : Nat) < parser.stack.symbols.size ∧
        ∀ through, reduction.via = some through →
          through ∈ (parser.stack.symbolNode reduction.anchor).children
  handled :
    ∀ holder : Nat, holder ∈ (parser.stack.layer word).nodes →
      ∀ rule ∈ parser.lookaheadRules (parser.stack.stateNode holder).state,
        ∀ anchor : Nat, anchor ∈ (parser.stack.stateNode holder).children →
          ⟨rule, anchor, none⟩ ∈ parser.performed →
            ∀ through : Nat,
              through ∈ (parser.stack.symbolNode anchor).children →
                parser.Pending trying rule anchor through ∨
                  parser.WaySettled host word rule anchor through

/-- What can be reduced and read is settled by the spans ahead. -/
theorem Ahead.same
    {since : Nat}
    (ahead : before.Ahead host)
    (grows : before.Grows since after)
    (candidates : after.candidates = before.candidates) :
    (∀ state, after.lookaheadRules state = before.lookaheadRules state) ∧
      ∀ node state, after.shiftsFrom node state =
        before.shiftsFrom node state := by
  have sameSpan : ∀ id ∈ before.candidates,
      after.spans.get id = before.spans.get id :=
    fun id member => (grows.spans.get (ahead id member).1).2
  constructor
  · intro state
    simp only [lookaheadRules, lookaheads, candidates, grows.compiled]
    rw [List.filterMap_congr fun id member =>
      congrArg Span.symbol (sameSpan id member)]
  · intro node state
    simp only [shiftsFrom, candidates, grows.compiled]
    refine List.filterMap_congr fun id member => ?_
    rw [sameSpan id member]

/-- What was settled along a way stays settled while the parse goes on. -/
theorem WaySettled.grows
    (sound : before.Sound host grammar options)
    (grows : before.Grows word after)
    (consistent : after.stack.Consistent after.compiled.table)
    {rule : RuleId}
    {anchor : Nat}
    (anchorInside : anchor < before.stack.symbols.size)
    {through : Nat}
    (inside : through < before.stack.states.size)
    (earlier : WordBefore (before.stack.stateNode through).word word)
    (settled : before.WaySettled host word rule anchor through) :
    after.WaySettled host word rule anchor through := by
  intro base nodes climbs length
  have climbed := sound.stack.climbs_of_extends grows.stack inside earlier climbs
  obtain ⟨baseInside, known⟩ := climbed.inside sound.stack inside
  rw [grows.compiled] at length ⊢
  refine (settled base nodes climbed length).grows sound grows consistent ?_ ?_
  · intro node member
    rcases List.mem_append.mp member with lower | isAnchor
    · exact known node lower
    · rw [List.mem_singleton.mp isAnchor]
      exact anchorInside
  · intro below member
    rw [List.mem_singleton.mp member]
    exact baseInside

/-- Where a way leads down from a node that is held at a word. -/
theorem Sound.way_placed
    (sound : parser.Sound host grammar options)
    {holder anchor through : Nat}
    (listed : holder ∈ (parser.stack.layer word).nodes)
    (held : anchor ∈ (parser.stack.stateNode holder).children)
    (below : through ∈ (parser.stack.symbolNode anchor).children) :
    anchor < parser.stack.symbols.size ∧
      through < parser.stack.states.size ∧
      WordBefore (parser.stack.stateNode through).word word := by
  have fits := sound.stack.fits_of_mem held
  obtain ⟨inside, ⟨own, isOwn, before⟩, -⟩ := fits.child through below
  have isWord := ((sound.stack.mem_layer holder word).mp listed).2
  rw [isWord] at isOwn
  cases isOwn
  exact ⟨sound.stack.child_known holder anchor held, inside, before⟩

/-- What acts at a word is settled by the stack and the words. -/
theorem Grows.actsAt
    {since : Nat}
    (grows : before.Grows since after)
    {node : Nat}
    (acts : after.ActsAt word node) :
    node ∈ (after.stack.layer word).nodes ∨ before.ActsAt word node := by
  refine acts.imp_right fun ⟨isStart, notAtEnd, isViable⟩ =>
    .inr ⟨isStart, ?_, ?_⟩
  · simpa only [isAtEnd, numWords, grows.words] using notAtEnd
  · rw [← grows.viable]
    exact isViable

/-- A parse stays covered if its stack is left alone and no work is lost. -/
theorem Covered.sameStack
    {trying still : List Reduction}
    (working : before.Working host grammar options word)
    (grows : before.Grows word after)
    (stack : after.stack = before.stack)
    (candidates : after.candidates = before.candidates)
    (active : after.active = before.active)
    (shifts : after.shifts = before.shifts)
    (performed : after.performed = before.performed)
    (pending : ∀ (rule : RuleId) (anchor through : Nat),
      through ∈ (before.stack.symbolNode anchor).children →
      before.Pending trying rule anchor through →
        after.Pending still rule anchor through ∨
          after.WaySettled host word rule anchor through)
    (covered : before.Covered host word trying) :
    after.Covered host word still := by
  obtain ⟨sameRules, sameShifts⟩ := working.ahead.same grows candidates
  have sound := working.sound
  constructor
  case live => exact stack ▸ covered.live
  case waiting =>
    rw [stack, active]
    exact covered.waiting
  case noted =>
    intro node acts
    rw [stack, active, shifts, sameShifts]
    refine covered.noted node ((grows.actsAt acts).elim (fun listed => .inl ?_) id)
    rw [← stack]
    exact listed
  case acted =>
    rw [stack, active, performed]
    simp only [sameRules]
    exact covered.acted
  case linked =>
    rw [stack, performed]
    exact covered.linked
  case handled =>
    rw [stack, performed]
    simp only [sameRules]
    intro holder listed rule isRule anchor held isPerformed through below
    obtain ⟨anchorInside, inside, earlier⟩ :=
      sound.way_placed listed held below
    rcases covered.handled holder listed rule isRule anchor held isPerformed
      through below with waits | settled
    · exact pending rule anchor through below waits
    · refine .inr (settled.grows sound grows ?_ anchorInside inside earlier)
      rw [stack, grows.compiled]
      exact sound.stack

theorem Pending.queues
    {reductions trying : List Reduction}
    (queues : before.Queues reductions after)
    {rule : RuleId}
    {anchor through : Nat}
    (pending : before.Pending trying rule anchor through) :
    after.Pending trying rule anchor through :=
  pending.imp (fun queued => queues.kept queued)
    (.imp_left fun queued => queues.kept queued)

/-- A node that acts notes what can be read and queues what can be reduced. -/
theorem Covered.act
    (wellFormed : grammar.WellFormed)
    (working : before.Working host grammar options word)
    {node : Nat}
    {rest : List StateNodeId}
    (isActive : before.active = node :: rest)
    (covered : before.Covered host word []) :
    ({ before with active := rest }.act node).Covered host word [] := by
  have sound := working.sound
  obtain ⟨taken, takes⟩ := working.drop (isActive ▸ List.suffix_cons node rest)
    (List.suffix_refl _)
  obtain ⟨-, acts⟩ := taken.act wellFormed
    (working.active node (isActive ▸ List.mem_cons_self))
  have grows := (takes.trans acts).grows
  obtain ⟨sameRules, sameShifts⟩ :=
    working.ahead.same grows (takes.trans acts).candidates
  obtain ⟨reductions, queues, mem_reductions⟩ :=
    before.queues_act covered.live node rest
  generalize ({ before with active := rest } : Parser).act node = after
    at grows sameRules sameShifts queues
  have consistent : after.stack.Consistent after.compiled.table := by
    rw [grows.compiled, queues.only]
    exact (GraphStack.sameShape_setActive node false).consistent sound.stack
  have stack : after.stack = before.stack.setActive node false := by
    rw [queues.only]
  have active : after.active = rest := by
    rw [queues.only]
  have shifts : after.shifts = before.shifts ++ before.shiftsFrom node
      (before.stack.stateNode node).state := by
    rw [queues.only]
  have shape := @GraphStack.sameShape_setActive before.stack node false
  have layer := shape.layer word
  have stillActive : ∀ other : Nat, other ∈ before.active →
      other = node ∨ other ∈ after.active := by
    intro other member
    rw [isActive] at member
    rw [active]
    exact List.mem_cons.mp member
  constructor
  case live =>
    rw [stack]
    exact (GraphStack.unharmed_setActive node false).live covered.live
  case waiting =>
    intro other listed flagged
    rw [stack, layer] at listed
    rw [stack] at flagged
    rcases GraphStack.active_of_setActive flagged with
      ⟨-, isMarked⟩ | ⟨differs, isFlagged⟩
    · cases isMarked
    · exact (stillActive other
        (covered.waiting other listed isFlagged)).resolve_left differs
  case noted =>
    intro other acts
    rw [stack, (shape.state other).1, shifts, sameShifts]
    have actsBefore : before.ActsAt word other := by
      refine (grows.actsAt acts).elim (fun listed => .inl ?_) id
      rw [stack, layer] at listed
      exact listed
    rcases covered.noted other actsBefore with waits | noted
    · rcases stillActive other waits with isNode | waits
      · rw [isNode]
        exact .inr (List.subset_append_right _ _)
      · exact .inl waits
    · exact .inr (List.Subset.trans noted (List.subset_append_left _ _))
  case acted =>
    intro other listed
    rw [stack, layer] at listed
    rw [stack, (shape.state other).1, (shape.state other).2.2, sameRules]
    rcases covered.acted other listed with waits | acted
    · rcases stillActive other waits with isNode | waits
      · refine .inr fun rule isRule anchor held =>
          (queues.performed _).mpr (.inr ?_)
        exact (mem_reductions _).mpr
          ⟨rule, isNode ▸ isRule, anchor, isNode ▸ held, rfl⟩
      · exact .inl waits
    · exact .inr fun rule isRule anchor held =>
        (queues.performed _).mpr (.inl (acted rule isRule anchor held))
  case linked =>
    intro reduction isPerformed
    rw [stack, shape.symbols_size]
    rcases (queues.performed reduction).mp isPerformed with old | isNew
    · exact covered.linked reduction old
    · obtain ⟨rule, -, anchor, held, rfl⟩ := (mem_reductions reduction).mp isNew
      exact ⟨sound.stack.child_known node anchor held,
        fun through isVia => by cases isVia⟩
  case handled =>
    intro holder listed rule isRule anchor held isPerformed through below
    rw [stack, layer] at listed
    rw [stack, (shape.state holder).1, sameRules] at isRule
    rw [stack, (shape.state holder).2.2] at held
    rw [stack, (shape.symbol anchor).2.2.2] at below
    obtain ⟨anchorInside, inside, earlier⟩ :=
      sound.way_placed listed held below
    have carried : before.Pending [] rule anchor through ∨
        before.WaySettled host word rule anchor through →
        after.Pending [] rule anchor through ∨
          after.WaySettled host word rule anchor through :=
      Or.imp (fun waits => waits.queues queues) fun settled =>
        settled.grows sound grows consistent anchorInside inside earlier
    rcases (queues.performed _).mp isPerformed with old | isNew
    · exact carried (covered.handled holder listed rule isRule anchor held old
        through below)
    · rcases queues.queued _ isNew with old | queued
      · exact carried (covered.handled holder listed rule isRule anchor held
          old through below)
      · exact .inl (.inl queued)

/-- A link that is new leads a way down, along which every rule is queued. -/
theorem Covered.packs
    {trying reductions : List Reduction}
    {stack : GraphStack}
    {top node below : Nat}
    {derivation : Derivation}
    (working : before.Working host grammar options word)
    (held : node ∈ (before.stack.stateNode top).children)
    (consistent : stack.Consistent before.compiled.table)
    (extended :
      GraphStack.NodeExtended word node derivation below before.stack stack)
    (only :
      ∀ reduction ∈ reductions,
        reduction.anchor = node ∧ reduction.via = some below)
    (complete :
      below ∉ (before.stack.symbolNode node).children →
        ∀ rule ∈ before.lookaheadRules (before.stack.stateNode top).state,
          ⟨rule, node, some below⟩ ∈ reductions)
    (queues : Queues reductions { before with stack := stack } after)
    (covered : before.Covered host word trying) :
    after.Covered host word trying := by
  have sound := working.sound
  have nodeInside := sound.stack.child_known top node held
  have grows : before.Grows word { before with stack := stack } :=
    (proceeds_nodeExtended extended).grows
  have growsAfter : before.Grows word after := by
    rw [queues.only]
    exact { grows with }
  have isStack : after.stack = stack := by
    rw [queues.only]
  have active : after.active = before.active := by
    rw [queues.only]
  have shifts : after.shifts = before.shifts := by
    rw [queues.only]
  have candidates : after.candidates = before.candidates := by
    rw [queues.only]
  have consistentAfter : after.stack.Consistent after.compiled.table := by
    rw [isStack, growsAfter.compiled]
    exact consistent
  obtain ⟨sameRules, sameShifts⟩ := working.ahead.same growsAfter candidates
  have sameState : ∀ id : Nat,
      after.stack.stateNode id = before.stack.stateNode id := by
    intro id
    rw [isStack, extended.sameState]
  have sameLayer : after.stack.layer word = before.stack.layer word := by
    rw [isStack, extended.sameLayer]
  constructor
  case live =>
    rw [isStack]
    exact extended.unharmed.live covered.live
  case waiting =>
    intro other isListed
    rw [sameState, active]
    exact covered.waiting other (sameLayer ▸ isListed)
  case noted =>
    intro other acts
    rw [sameState, active, shifts, sameShifts]
    refine covered.noted other ((growsAfter.actsAt acts).elim
      (fun listed => .inl ?_) fun actsBefore => actsBefore)
    exact sameLayer ▸ listed
  case acted =>
    intro other isListed
    rw [sameState, active, sameRules]
    refine (covered.acted other (sameLayer ▸ isListed)).imp_right
      fun acted rule isRule anchor isHeld =>
        (queues.performed _).mpr (.inl (acted rule isRule anchor isHeld))
  case linked =>
    intro reduction isPerformed
    rw [isStack, extended.symbols]
    rcases (queues.performed reduction).mp isPerformed with old | queued
    · obtain ⟨inside, through⟩ := covered.linked reduction old
      exact ⟨inside, fun own isVia =>
        (extended.children _ own).mpr (.inl (through own isVia))⟩
    · obtain ⟨isAnchor, isVia⟩ := only reduction queued
      rw [isAnchor, isVia]
      refine ⟨nodeInside, fun through isThrough => ?_⟩
      exact (extended.children _ _).mpr
        (.inr ⟨rfl, (Option.some.inj isThrough).symm⟩)
  case handled =>
    intro holder isListed rule isRule anchor isHeld isPerformed through isBelow
    rw [sameLayer] at isListed
    rw [sameState] at isHeld
    rw [sameState, sameRules] at isRule
    by_cases old : through ∈ (before.stack.symbolNode anchor).children
    · obtain ⟨anchorInside, inside, earlier⟩ :=
        sound.way_placed isListed isHeld old
      have wasPerformed : (⟨rule, anchor, none⟩ : Reduction) ∈
          before.performed := by
        refine ((queues.performed _).mp isPerformed).resolve_right
          fun queued => ?_
        cases (only _ queued).2
      exact (covered.handled holder isListed rule isRule anchor isHeld
        wasPerformed through old).imp (fun waits => waits.queues queues)
          fun settled => settled.grows sound growsAfter consistentAfter
            anchorInside inside earlier
    · rw [isStack] at isBelow
      obtain ⟨isNode, isLink⟩ :=
        ((extended.children anchor through).mp isBelow).resolve_left old
      subst isNode isLink
      have isTop : holder = top :=
        ((sound.stack.fits_of_mem held).holds holder).mp isHeld
      have queued := complete old rule (isTop ▸ isRule)
      refine .inl (.inr (.inl ((queues.queued _ queued).resolve_left
        fun performed => ?_)))
      exact old ((covered.linked _ performed).2 through rfl)

/-- What growing a node brings about, the mark of its holder apart. -/
structure Sprouts (top : Nat) (content : SymbolNode) (before after : Parser) : Prop where
  only :
    after =
      { before with
        stack := after.stack, active := after.active, roots := after.roots }
  awake : top ∈ after.active
  active : before.active ⊆ after.active
  other_state :
    ∀ other : Nat, other < before.stack.states.size → other ≠ top →
      after.stack.stateNode other = before.stack.stateNode other
  only_top :
    ∀ other : Nat, before.stack.states.size ≤ other →
      other < after.stack.states.size → other = top
  children :
    (after.stack.stateNode top).children =
      (before.stack.stateNode top).children ++ [before.stack.symbols.size]
  symbols : before.stack.symbols.size ≤ after.stack.symbols.size
  symbol :
    ∀ other : Nat, after.stack.symbolNode other =
      if other = before.stack.symbols.size then
        content
      else
        before.stack.symbolNode other

/-- A node that grows is held by a state node that waits to act. -/
theorem Sprouts.of_grown
    {stack : GraphStack}
    {goto : StateId}
    {top : Nat}
    {content : SymbolNode}
    {roots : List SymbolNodeId}
    (sound : before.Sound host grammar options)
    (waiting : ∀ node : Nat, node ∈ (before.stack.layer word).nodes →
      (before.stack.stateNode node).active = true → node ∈ before.active)
    (consistent : stack.Consistent before.compiled.table)
    (grown : GraphStack.NodeGrown word goto content top before.stack stack)
    (wakes : Wakes { before with stack := stack, roots := roots } after)
    (awake : (stack.stateNode top).active = true ∨ top ∈ after.active)
    (others :
      ∀ other : Nat, other ≠ top →
        after.stack.stateNode other = stack.stateNode other) :
    Sprouts top content before after := by
  have shape : stack.SameShape after.stack := wakes.shape
  constructor
  case only =>
    rw [wakes.only_marks]
  case awake =>
    refine awake.elim (fun isActive => wakes.active ?_) id
    rw [grown.active] at isActive
    have inside : top < before.stack.states.size := by
      refine Nat.lt_of_not_le fun outside => ?_
      rw [GraphStack.stateNode_of_le outside] at isActive
      cases isActive
    exact waiting top ((grown.grows.mem_layer sound.stack consistent inside
      word).mp grown.listed) isActive
  case active => exact wakes.active
  case other_state =>
    intro other inside differs
    exact (others other differs).trans (grown.other_state other inside differs)
  case only_top =>
    rw [shape.states_size]
    exact grown.only_top
  case children => exact (shape.state top).2.2.trans grown.children
  case symbols =>
    rw [shape.symbols_size, grown.symbols]
    exact Nat.le_succ _
  case symbol =>
    intro other
    rw [GraphStack.symbolNode, wakes.symbols]
    exact grown.symbol other

/-- What a node that grew brings to do is done when its holder acts. -/
theorem Covered.sprouts
    {trying : List Reduction}
    (working : before.Working host grammar options word)
    (afterWorking : after.Working host grammar options word)
    (proceeds : before.Proceeds word after)
    {top : Nat}
    {content : SymbolNode}
    (sprouts : Sprouts top content before after)
    (covered : before.Covered host word trying) :
    after.Covered host word trying := by
  have sound := working.sound
  have grows := proceeds.grows
  have consistent := afterWorking.sound.stack
  obtain ⟨sameRules, sameShifts⟩ :=
    working.ahead.same grows proceeds.candidates
  have shifts : after.shifts = before.shifts := by
    rw [sprouts.only]
  have reductions : after.reductions = before.reductions := by
    rw [sprouts.only]
  have performed : after.performed = before.performed := by
    rw [sprouts.only]
  have cases_of_listed : ∀ other : Nat,
      other ∈ (after.stack.layer word).nodes → other = top ∨
        other ∈ (before.stack.layer word).nodes ∧
          after.stack.stateNode other = before.stack.stateNode other := by
    intro other listed
    by_cases isTop : other = top
    · exact .inl isTop
    · refine .inr ?_
      have inside : other < before.stack.states.size :=
        Nat.lt_of_not_le fun outside => isTop (sprouts.only_top other outside
          ((consistent.mem_layer other word).mp listed).1)
      exact ⟨(grows.stack.mem_layer sound.stack consistent inside word).mp
        listed, sprouts.other_state other inside isTop⟩
  constructor
  case live => exact proceeds.unharmed.live covered.live
  case waiting =>
    intro other listed flagged
    rcases cases_of_listed other listed with isTop | ⟨wasListed, same⟩
    · exact isTop ▸ sprouts.awake
    · exact sprouts.active (covered.waiting other wasListed (same ▸ flagged))
  case noted =>
    intro other acts
    rw [shifts, sameShifts]
    have noted : before.ActsAt word other →
        after.stack.stateNode other = before.stack.stateNode other →
        other ∈ after.active ∨
          before.shiftsFrom other (after.stack.stateNode other).state ⊆
            before.shifts := by
      intro actsBefore same
      rw [same]
      exact (covered.noted other actsBefore).imp_left fun waits =>
        sprouts.active waits
    rcases grows.actsAt acts with listed | actsBefore
    · rcases cases_of_listed other listed with isTop | ⟨wasListed, same⟩
      · exact .inl (isTop ▸ sprouts.awake)
      · exact noted (.inl wasListed) same
    · by_cases isTop : other = top
      · exact .inl (isTop ▸ sprouts.awake)
      · refine noted actsBefore (sprouts.other_state other ?_ isTop)
        rcases actsBefore with listed | ⟨isStart, -⟩
        · exact ((sound.stack.mem_layer other word).mp listed).1
        · exact isStart ▸ sound.stack.start_inside
  case acted =>
    intro other listed
    rw [performed, sameRules]
    rcases cases_of_listed other listed with isTop | ⟨wasListed, same⟩
    · exact .inl (isTop ▸ sprouts.awake)
    · rw [same]
      exact (covered.acted other wasListed).imp_left fun waits =>
        sprouts.active waits
  case linked =>
    intro reduction isPerformed
    obtain ⟨inside, through⟩ := covered.linked reduction (performed ▸ isPerformed)
    refine ⟨Nat.lt_of_lt_of_le inside sprouts.symbols, ?_⟩
    rw [sprouts.symbol, if_neg (Nat.ne_of_lt inside)]
    exact through
  case handled =>
    intro holder listed rule isRule anchor held isPerformed through below
    rw [performed] at isPerformed
    rw [sameRules] at isRule
    have anchorInside : anchor < before.stack.symbols.size :=
      (covered.linked _ isPerformed).1
    rw [sprouts.symbol, if_neg (Nat.ne_of_lt anchorInside)] at below
    obtain ⟨wasListed, wasHeld, sameState⟩ :
        holder ∈ (before.stack.layer word).nodes ∧
          anchor ∈ (before.stack.stateNode holder).children ∧
          (after.stack.stateNode holder).state =
            (before.stack.stateNode holder).state := by
      rcases cases_of_listed holder listed with isTop | ⟨wasListed, same⟩
      · subst isTop
        have wasHeld : anchor ∈ (before.stack.stateNode holder).children := by
          rw [sprouts.children] at held
          refine (List.mem_append.mp held).resolve_right fun isNew => ?_
          exact Nat.ne_of_lt anchorInside (List.mem_singleton.mp isNew)
        have inside := (sound.stack.fits_of_mem wasHeld).inside
        exact ⟨(grows.stack.mem_layer sound.stack consistent inside word).mp
          listed, wasHeld, (grows.stack.state holder inside).state⟩
      · exact ⟨wasListed, same ▸ held, by rw [same]⟩
    rw [sameState] at isRule
    obtain ⟨-, inside, earlier⟩ := sound.way_placed wasListed wasHeld below
    refine (covered.handled holder wasListed rule isRule anchor wasHeld
      isPerformed through below).imp ?_ fun settled =>
        settled.grows sound grows consistent anchorInside inside earlier
    unfold Pending
    rw [reductions]
    exact fun waits => waits

/-- A produced span that is attached brings nothing that does not wait to be done. -/
theorem Covered.attach
    (wellFormed : grammar.WellFormed)
    {trying : List Reduction}
    (working : before.Working host grammar options word)
    {below : Nat}
    {derivation : Derivation}
    {id : Nat}
    (attachable : before.Attachable host word below derivation id)
    (covered : before.Covered host word trying) :
    (before.attach word below id derivation).capped = true ∨
      (before.attach word below id derivation).Covered host word trying := by
  obtain ⟨afterWorking, proceeds, -⟩ := working.attach wellFormed attachable
  have attaches := working.attaches wellFormed attachable
  generalize before.attach word below id derivation = after
    at afterWorking proceeds attaches ⊢
  cases attaches with
  | packs _ held _ consistent extended only complete queues =>
      exact .inr (covered.packs working held consistent extended only complete
        queues)
  | limits => exact .inl rfl
  | grows _ consistent grown _ wakes awake others =>
      exact .inr (covered.sprouts working afterWorking proceeds
        (.of_grown working.sound covered.waiting consistent grown wakes awake
          others))

/-- The ways of a reduction that was tried are settled. -/
theorem Working.waySettled
    (working : before.Working host grammar options word)
    (live : before.stack.Live)
    {reduction : Reduction}
    (ready : before.ReductionReady word reduction)
    (proceeds : before.Proceeds word after)
    (settled :
      ∀ path ∈ before.stack.paths reduction.anchor
          (grammar.rule reduction.rule).length reduction.via,
        after.Settled host word (grammar.rule reduction.rule) path.reverse
          (before.basesOf reduction.via path.reverse))
    {rule : RuleId}
    {anchor through : Nat}
    (isWay : ⟨rule, anchor, some through⟩ ∈ before.waysOf reduction) :
    after.WaySettled host word rule anchor through := by
  have sound := working.sound
  have grows := proceeds.grows
  have isGrammar : before.compiled.grammar = grammar := sound.loaded.isGrammar
  obtain ⟨isRule, isAnchor, isVia, below⟩ :
      rule = reduction.rule ∧ anchor = reduction.anchor ∧
        (∀ other ∈ reduction.via, other = through) ∧
        through ∈ (before.stack.symbolNode reduction.anchor).children := by
    unfold waysOf at isWay
    split at isWay
    · rename_i via isVia
      obtain rfl := List.mem_singleton.mp isWay
      exact ⟨rfl, rfl, fun other isOther => (Option.some.inj isOther).symm,
        ready.via through rfl⟩
    · rename_i noVia
      obtain ⟨own, below, same⟩ := List.mem_map.mp isWay
      cases same
      refine ⟨rfl, rfl, fun other isOther => ?_, below⟩
      rw [noVia] at isOther
      cases isOther
  subst isRule isAnchor
  obtain ⟨holder, held, isWord, -⟩ := ready.held
  have listed : holder ∈ (before.stack.layer word).nodes :=
    (sound.stack.mem_layer holder word).mpr
      ⟨(sound.stack.fits_of_mem held).inside, isWord⟩
  obtain ⟨-, inside, earlier⟩ := sound.way_placed listed held below
  intro base nodes climbs length
  have climbed := sound.stack.climbs_of_extends grows.stack inside earlier
    climbs
  rw [grows.compiled, isGrammar] at length ⊢
  have isPath := live.mem_paths climbed below isVia
  rw [length] at isPath
  have ways := settled _ isPath
  rw [List.reverse_reverse] at ways
  refine ways.of_subset fun own isBase => ?_
  rw [List.mem_singleton.mp isBase]
  unfold basesOf
  split
  · rename_i via single isVia' isSingle
    have isEmpty : nodes = [] := by
      rw [List.append_eq_singleton_iff] at isSingle
      rcases isSingle with ⟨noNodes, -⟩ | ⟨-, noAnchor⟩
      · exact noNodes
      · cases noAnchor
    rw [isVia via isVia', climbed.eq_base isEmpty]
    exact List.mem_singleton.mpr rfl
  · exact (GraphStack.Climbs.snoc climbed below held).base_mem (by simp)

/-- A word that is covered stays covered, unless it reaches its limit. -/
theorem Kept.covered
    (wellFormed : grammar.WellFormed)
    (start : Parser) :
    Kept host grammar options word fun trying parser =>
      start.Retains parser ∧
      (parser.capped = true ∨ parser.Covered host word trying) where
  learns working learns sound covered := by
    refine ⟨fun key made stored =>
      learns.synthesized key made (covered.1 key made stored), ?_⟩
    rw [learns.capped]
    exact covered.2.imp_right fun covered => covered.sameStack working
      (learns.grows _) learns.stack learns.candidates learns.active
      learns.shifts learns.performed fun rule anchor through _ waits =>
        .inl <| by
          unfold Pending at waits ⊢
          rw [learns.reductions]
          exact waits
  attaches := by
    intro trying before below derivation id working attachable covered
    refine ⟨fun key made stored => ?_, ?_⟩
    · rw [before.onlyWork_attach word below id derivation]
      exact covered.1 key made stored
    · rcases covered.2 with capped | covered
      · exact .inl ((working.attach wellFormed attachable).2.1.capped capped)
      · exact covered.attach wellFormed working attachable
  acts := by
    intro before node rest working isActive covered
    refine ⟨fun key made stored => ?_, ?_⟩
    · rw [onlyWork_act]
      exact covered.1 key made stored
    · obtain ⟨taken, takes⟩ := working.drop
        (isActive ▸ List.suffix_cons node rest) (List.suffix_refl _)
      have acts := (taken.act wellFormed
        (working.active node (isActive ▸ List.mem_cons_self))).2
      exact covered.2.imp (takes.trans acts).capped fun covered =>
        covered.act wellFormed working isActive
  takes := by
    intro before reduction rest working noneActive isNext covered
    refine ⟨covered.1, covered.2.imp_right fun covered => ?_⟩
    obtain ⟨-, takes⟩ := working.drop (List.suffix_refl _)
      (isNext ▸ List.suffix_cons reduction rest)
    refine covered.sameStack working takes.grows rfl rfl rfl rfl rfl ?_
    intro rule anchor through below waits
    unfold Pending at waits ⊢
    rw [isNext] at waits
    simp only [List.mem_cons, List.not_mem_nil, or_false] at waits
    have isWay : ∀ via : Option StateNodeId,
        (∀ own, via = some own → own = through) →
        ⟨rule, anchor, via⟩ = reduction →
        ⟨rule, anchor, some through⟩ ∈ before.waysOf reduction := by
      rintro via isThrough rfl
      cases via with
      | none => exact List.mem_map.mpr ⟨through, below, rfl⟩
      | some own =>
          rw [isThrough own rfl]
          exact List.mem_singleton.mpr rfl
    rcases waits with (isReduction | queued) | (isReduction | queued)
    · exact .inl (.inr (.inr (isWay none (fun own isOwn => by cases isOwn)
        isReduction)))
    · exact .inl (.inl queued)
    · exact .inl (.inr (.inr (isWay (some through)
        (fun own isOwn => (Option.some.inj isOwn).symm) isReduction)))
    · exact .inl (.inr (.inl queued))
  tries := by
    intro before after reduction working ready proceeds afterWorking settled
      beforeCovered covered
    refine ⟨covered.1, ?_⟩
    rcases covered.2 with capped | covered
    · exact .inl capped
    rcases beforeCovered.2 with capped | beforeCovered
    · exact .inl (proceeds.capped capped)
    rcases settled beforeCovered.live with capped | settled
    · exact .inl capped
    refine .inr (covered.sameStack afterWorking (.refl _ _) rfl rfl rfl rfl rfl
      fun rule anchor through _ waits => ?_)
    rcases waits with queued | queued | isWay
    · exact .inl (.inl queued)
    · exact .inl (.inr (.inl queued))
    · exact .inr (working.waySettled beforeCovered.live ready proceeds settled
        isWay)

end Parser

end SpanForest
