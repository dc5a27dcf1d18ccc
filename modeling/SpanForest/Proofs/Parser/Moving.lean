import SpanForest.Proofs.Parser.Attaching

namespace SpanForest

/-!
# The moves of a step

A step wakes state nodes, queues reductions and attaches produced spans. What a
parse keeps while it works is shown for these moves one by one, so each of them
is described by all that it changes.
-/

namespace Parser

variable {σ : Type} {host : Host σ}
variable {grammar : Grammar} {options : CompileOptions} {word : Nat}
variable {first second third before after parser : Parser}

/-- A parse in which some state nodes were woken, and nothing else changed. -/
structure Wakes (before after : Parser) : Prop where
  only_marks :
    after = { before with stack := after.stack, active := after.active }
  shape : before.stack.SameShape after.stack
  symbols : after.stack.symbols = before.stack.symbols
  removed :
    ∀ id : Nat, (after.stack.stateNode id).removed =
      (before.stack.stateNode id).removed
  active : before.active ⊆ after.active
  flagged :
    ∀ id : Nat, (after.stack.stateNode id).active = true →
      (before.stack.stateNode id).active = true ∨ id ∈ after.active

theorem Wakes.refl (parser : Parser) : parser.Wakes parser where
  only_marks := rfl
  shape := .refl _
  symbols := rfl
  removed _ := rfl
  active := List.Subset.refl _
  flagged _ := .inl

theorem Wakes.trans
    (early : first.Wakes second)
    (late : second.Wakes third) :
    first.Wakes third where
  only_marks := by
    rw [late.only_marks, early.only_marks]
  shape := early.shape.trans late.shape
  symbols := late.symbols.trans early.symbols
  removed id := (late.removed id).trans (early.removed id)
  active := List.Subset.trans early.active late.active
  flagged id isActive := by
    rcases late.flagged id isActive with isEarly | listed
    · exact (early.flagged id isEarly).imp_right fun listed =>
        late.active listed
    · exact .inr listed

theorem Wakes.grows (wakes : before.Wakes after) (since : Nat) :
    before.Grows since after := by
  rw [wakes.only_marks]
  exact { Grows.refl since before with stack := wakes.shape.extends since }

theorem wakes_activate (node : Nat) : parser.Wakes (parser.activate node) := by
  constructor
  case only_marks => rfl
  case shape => exact GraphStack.sameShape_setActive node true
  case symbols => rfl
  case removed => exact fun id => GraphStack.removed_setActive node id true
  case active => exact fun _ listed => List.mem_cons_of_mem _ listed
  case flagged =>
    intro id isActive
    rcases GraphStack.active_of_setActive isActive with ⟨isNode, -⟩ | ⟨-, same⟩
    · exact .inr (isNode ▸ List.mem_cons_self)
    · exact .inl same

/-- Reductions were queued, unless they had been before. -/
structure Queues (reductions : List Reduction) (before after : Parser) : Prop where
  only :
    after =
      { before with
        reductions := after.reductions, performed := after.performed }
  performed :
    ∀ reduction, reduction ∈ after.performed ↔
      reduction ∈ before.performed ∨ reduction ∈ reductions
  kept : before.reductions ⊆ after.reductions
  queued :
    ∀ reduction ∈ reductions,
      reduction ∈ before.performed ∨ reduction ∈ after.reductions

theorem queues_queueReduction (reduction : Reduction) :
    parser.Queues [reduction] (parser.queueReduction reduction) := by
  unfold queueReduction
  split
  · rename_i known
    have isKnown := Std.TreeSet.contains_iff_mem.mp known
    refine ⟨rfl, fun other => ?_, List.Subset.refl _, fun other member => ?_⟩
    · refine ⟨.inl, fun either => either.elim id fun same => ?_⟩
      rw [List.mem_singleton.mp same]
      exact isKnown
    · rw [List.mem_singleton.mp member]
      exact .inl isKnown
  · refine ⟨rfl, fun other => ?_, List.subset_cons_self _ _,
      fun other member => ?_⟩
    · rw [Std.TreeSet.mem_insert, Std.LawfulEqCmp.compare_eq_iff_eq,
        List.mem_singleton, or_comm, eq_comm]
    · rw [List.mem_singleton.mp member]
      exact .inr List.mem_cons_self

theorem queues_foldl (reductions : List Reduction) :
    parser.Queues reductions (reductions.foldl queueReduction parser) := by
  induction reductions generalizing parser with
  | nil =>
      exact ⟨rfl, fun _ => by simp, List.Subset.refl _,
        fun _ member => by cases member⟩
  | cons reduction rest inductionHypothesis =>
      rw [List.foldl_cons]
      have first := @queues_queueReduction parser reduction
      have later := @inductionHypothesis (parser.queueReduction reduction)
      constructor
      case only => rw [later.only, first.only]
      case performed =>
        intro other
        rw [later.performed, first.performed, or_assoc, ← List.mem_append,
          List.singleton_append]
      case kept => exact List.Subset.trans first.kept later.kept
      case queued =>
        intro other member
        rcases List.mem_cons.mp member with isFirst | inRest
        · exact (first.queued other (isFirst ▸ List.mem_cons_self)).imp_right
            fun queued => later.kept queued
        · rcases later.queued other inRest with known | queued
          · rcases (first.performed other).mp known with old | isFirst
            · exact .inl old
            · exact (first.queued other isFirst).imp_right
                fun queued => later.kept queued
          · exact .inr queued

/--
The ways to attach a produced span. It is packed into an equivalent one, is given
up at the limit of the word, or grows a node of its own, whose holder is awake.
-/
inductive Attaches
    (word : Nat)
    (parser : Parser)
    (below : StateNodeId)
    (derivation : Derivation)
    (id : SpanId) : Parser → Prop where
  | packs
      {top node : Nat}
      {stack : GraphStack}
      {reductions : List Reduction}
      {after : Parser}
      (listed : top ∈ (parser.stack.layer word).nodes)
      (held : node ∈ (parser.stack.stateNode top).children)
      (equivalent :
        (parser.spans.get (parser.stack.symbolNode node).span).equivalent
          (parser.spans.get id) = true)
      (consistent : stack.Consistent parser.compiled.table)
      (extended :
        GraphStack.NodeExtended word node derivation below parser.stack stack)
      (only :
        ∀ reduction ∈ reductions,
          reduction.anchor = node ∧ reduction.via = some below)
      (complete :
        below ∉ (parser.stack.symbolNode node).children →
          ∀ rule ∈ parser.lookaheadRules (parser.stack.stateNode top).state,
            ⟨rule, node, some below⟩ ∈ reductions)
      (queues : Queues reductions { parser with stack := stack } after) :
      Attaches word parser below derivation id after
  | limits : Attaches word parser below derivation id parser.reachLimit
  | grows
      {goto : StateId}
      {top : Nat}
      {stack : GraphStack}
      {roots : List SymbolNodeId}
      {after : Parser}
      (unmatched :
        ((parser.stack.findState? word goto).bind fun found =>
          parser.stack.findEquivalent? parser.spans found id) = none)
      (consistent : stack.Consistent parser.compiled.table)
      (grown :
        GraphStack.NodeGrown word goto
          ⟨id, some (parser.compiled.grammar.rule derivation.rule).lhs,
            some word, [below], [derivation], false⟩
          top parser.stack stack)
      (isRoots :
        roots =
          if (parser.compiled.grammar.rule derivation.rule).lhs =
              parser.compiled.grammar.start then
            parser.roots ++ [parser.stack.symbols.size]
          else
            parser.roots)
      (wakes : Wakes { parser with stack := stack, roots := roots } after)
      (awake : (stack.stateNode top).active = true ∨ top ∈ after.active)
      (others :
        ∀ other : Nat, other ≠ top →
          after.stack.stateNode other = stack.stateNode other) :
      Attaches word parser below derivation id after

/-- Packing queues the reductions that lead through a link that is new. -/
theorem queues_pack
    (node : SymbolNodeId)
    (below : StateNodeId)
    (goto : StateId)
    (derivation : Derivation) :
    ∃ reductions,
      Queues reductions
          { parser with
            stack := (parser.stack.extendNode node derivation below).2 }
          (parser.pack node below goto derivation) ∧
        (∀ reduction ∈ reductions,
          reduction.anchor = node ∧ reduction.via = some below) ∧
        (below ∉ (parser.stack.symbolNode node).children →
          ∀ rule ∈ parser.lookaheadRules goto,
            ⟨rule, node, some below⟩ ∈ reductions) := by
  have isNew : (parser.stack.extendNode node derivation below).1 = true ↔
      below ∉ (parser.stack.symbolNode node).children := by
    have shape : parser.stack.SameShape
        (parser.stack.addDerivation node derivation).2 :=
      GraphStack.sameShape_addDerivation node derivation
    rw [GraphStack.extendNode, GraphStack.link_fst, (shape.symbol node).2.2.2]
  rw [pack_eq]
  split
  · refine ⟨_, queues_foldl _, fun reduction member => ?_,
      fun _ rule isRule => List.mem_map_of_mem isRule⟩
    obtain ⟨rule, -, rfl⟩ := List.mem_map.mp member
    exact ⟨rfl, rfl⟩
  · rename_i notNew
    refine ⟨[], queues_foldl [], fun _ member => ?_,
      fun missing => absurd (isNew.mpr missing) notNew⟩
    cases member

/-- A node that acts notes what can be read and queues what can be reduced. -/
theorem queues_act
    (live : parser.stack.Live)
    (node : StateNodeId)
    (rest : List StateNodeId) :
    ∃ reductions,
      Queues reductions
          { parser with
            active := rest
            stack := parser.stack.setActive node false
            shifts := parser.shifts ++ parser.shiftsFrom node
              (parser.stack.stateNode node).state }
          ({ parser with active := rest }.act node) ∧
        ∀ reduction, reduction ∈ reductions ↔
          ∃ rule ∈ parser.lookaheadRules (parser.stack.stateNode node).state,
            ∃ anchor ∈ (parser.stack.stateNode node).children,
              reduction = ⟨rule, anchor, none⟩ := by
  refine ⟨((parser.lookaheadRules (parser.stack.stateNode node).state).flatMap
    fun rule => ((parser.stack.stateNode node).children.filter fun child =>
      !(parser.stack.symbolNode child).removed).map fun anchor =>
        Reduction.mk rule anchor none), queues_foldl _, fun reduction => ?_⟩
  simp [live.symbol, eq_comm]

/-- A span that can be attached is attached in one of the ways. -/
theorem Working.attaches
    (wellFormed : grammar.WellFormed)
    (working : parser.Working host grammar options word)
    {below : Nat}
    {derivation : Derivation}
    {id : Nat}
    (attachable : parser.Attachable host word below derivation id) :
    parser.Attaches word below derivation id
      (parser.attach word below id derivation) := by
  have sound := working.sound
  obtain ⟨goto, leads⟩ := attachable.leads
  unfold Parser.attach
  simp only [leads]
  split
  · rename_i node isEquivalent
    obtain ⟨top, found, stands⟩ := Option.bind_eq_some_iff.mp isEquivalent
    obtain ⟨listed, isState⟩ := GraphStack.findState?_eq_some found
    obtain ⟨held, -, equivalent⟩ := GraphStack.findChild?_eq_some stands
    subst isState
    have isWord := ((sound.stack.mem_layer top word).mp listed).2
    have isSymbol := sound.symbol_of_leads wellFormed held leads
    obtain ⟨consistent, extended⟩ := sound.stack.extendNode held
      attachable.inside isWord attachable.before ⟨_, isSymbol, leads⟩ derivation
    obtain ⟨reductions, queues, only, complete⟩ := parser.queues_pack node below
      (parser.stack.stateNode top).state derivation
    exact .packs listed held equivalent consistent extended only complete queues
  · rename_i unmatched
    split
    · exact .limits
    · rename_i room
      obtain ⟨grown, grownSound⟩ := sound.growNode working.position working.known
        attachable leads (Nat.lt_of_not_le room) rfl
      have consistent := grownSound.stack
      rw [grow_eq, sprout_eq]
      generalize parser.stack.growNode word goto id
        (parser.compiled.grammar.rule derivation.rule).lhs below derivation =
          stack at grown consistent ⊢
      generalize isRoots :
        (if (parser.compiled.grammar.rule derivation.rule).lhs =
            parser.compiled.grammar.start then
          parser.roots ++ [parser.stack.symbols.size]
        else
          parser.roots) = roots
      split
      · rename_i isActive
        exact .grows unmatched consistent grown isRoots.symm (.refl _)
          (.inl isActive) fun _ _ => rfl
      · exact .grows unmatched consistent grown isRoots.symm (wakes_activate _)
          (.inr List.mem_cons_self) fun _ differs =>
            GraphStack.stateNode_setActive_of_ne differs true

end Parser

end SpanForest
