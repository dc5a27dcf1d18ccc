import SpanForest.Proofs.Parser.Reachable

namespace SpanForest

/-!
# Marked nodes wait to act

A state node is marked from when it is woken until it acts, and as long it waits
among the nodes that are to act. Reading and filtering leave all marks alone. So
when a word is settled no node is marked, and none is marked between the words.
-/

namespace GraphStack

variable {first second third stack : GraphStack}

/-- The same state nodes are marked as waiting to act. -/
structure SameMarks (before after : GraphStack) : Prop where
  active : ∀ id : Nat, (after.stateNode id).active = (before.stateNode id).active

theorem SameMarks.refl (stack : GraphStack) : stack.SameMarks stack :=
  ⟨fun _ => rfl⟩

theorem SameMarks.trans
    (early : first.SameMarks second)
    (late : second.SameMarks third) :
    first.SameMarks third :=
  ⟨fun id => (late.active id).trans (early.active id)⟩

theorem SameMarks.of_states
    (same : second.states = first.states) :
    first.SameMarks second := by
  refine ⟨fun id => ?_⟩
  rw [stateNode, stateNode, same]

theorem sameMarks_modifyState
    {change : StateNode → StateNode}
    (keeps : ∀ node, (change node).active = node.active)
    (id : Nat) :
    stack.SameMarks (stack.modifyState id change) := by
  refine ⟨fun other => ?_⟩
  by_cases inside : id < stack.states.size
  · rw [stateNode_modifyState inside]
    split
    · rename_i same
      rw [same, keeps]
    · rfl
  · rw [modifyState_of_le (Nat.le_of_not_lt inside)]

theorem sameMarks_setStateRemoved (id : Nat) (removed : Bool) :
    stack.SameMarks (stack.setStateRemoved id removed) :=
  sameMarks_modifyState (by exact fun _ => rfl) id

theorem sameMarks_addState (word : Nat) (state : StateId) :
    stack.SameMarks (stack.addState word state).2 := by
  cases found : stack.findState? word state with
  | some id =>
      rw [addState_of_found found]
      exact sameMarks_setStateRemoved id false
  | none =>
      rw [addState_of_missing found]
      refine ⟨fun id => ?_⟩
      rw [stateNode_pushState]
      split
      · rename_i isNew
        rw [isNew, stateNode_of_le (Nat.le_refl _)]
        rfl
      · rfl

theorem sameMarks_addSymbol
    (parent : StateNodeId)
    (span : SpanId)
    (symbol : Option SymbolId)
    (child : StateNodeId) :
    stack.SameMarks (stack.addSymbol parent span symbol child).2 := by
  unfold addSymbol
  refine SameMarks.trans (.of_states ?_) (sameMarks_modifyState ?_ parent)
  · rfl
  · exact fun _ => rfl

theorem sameMarks_addDerivation
    (node : SymbolNodeId)
    (derivation : Derivation) :
    stack.SameMarks (stack.addDerivation node derivation).2 := by
  unfold addDerivation
  split <;> exact .of_states rfl

theorem sameMarks_link (node : SymbolNodeId) (child : StateNodeId) :
    stack.SameMarks (stack.link node child).2 := by
  unfold link
  split <;> exact .of_states rfl

theorem sameMarks_markReduced (id : SymbolNodeId) :
    stack.SameMarks (stack.markReduced id) := by
  unfold markReduced
  split <;> exact .of_states rfl

theorem sameMarks_growNode
    (word : Nat)
    (goto : StateId)
    (span : SpanId)
    (lhs : SymbolId)
    (below : StateNodeId)
    (derivation : Derivation) :
    stack.SameMarks (stack.growNode word goto span lhs below derivation) := by
  rw [growNode_eq]
  refine .trans ?_ (sameMarks_markReduced _)
  unfold placeNode
  exact (sameMarks_addState word goto).trans
    ((sameMarks_addSymbol _ _ _ _).trans (sameMarks_addDerivation _ _))

theorem sameMarks_sweepStates
    (ids : List StateNodeId)
    (swept : Nat × GraphStack) :
    swept.2.SameMarks (sweepStates ids swept).2 := by
  induction ids generalizing swept with
  | nil => exact .refl _
  | cons id rest inductionHypothesis =>
      unfold sweepStates
      split
      · exact (sameMarks_setStateRemoved id true).trans
          (inductionHypothesis (_, _))
      · exact inductionHypothesis _

theorem sameMarks_sweepSymbols
    (start : Nat)
    (ids : List SymbolNodeId)
    (swept : Nat × GraphStack) :
    swept.2.SameMarks (sweepSymbols start ids swept).2 := by
  induction ids generalizing swept with
  | nil => exact .refl _
  | cons id rest inductionHypothesis =>
      unfold sweepSymbols
      split
      · refine SameMarks.trans ?_ (inductionHypothesis (_, _))
        exact .of_states rfl
      · exact inductionHypothesis _

theorem sameMarks_sweep (start : Nat) :
    stack.SameMarks (stack.sweep start).2 := by
  unfold sweep
  refine repeatRounds_induction
    (motive := fun swept : Nat × GraphStack => stack.SameMarks swept.2)
    ?_ _ (.refl stack)
  intro swept same
  exact same.trans
    ((sameMarks_sweepStates _ _).trans (sameMarks_sweepSymbols start _ _))

end GraphStack

namespace Parser

variable {σ : Type} {host : Host σ}
variable {grammar : Grammar} {options : CompileOptions} {word : Nat}
variable {before after parser : Parser}

/-- Whatever is marked waits to act. -/
def Awake (parser : Parser) : Prop :=
  ∀ id : Nat, (parser.stack.stateNode id).active = true → id ∈ parser.active

/-- No node is marked. -/
def Rested (parser : Parser) : Prop :=
  ∀ id : Nat, (parser.stack.stateNode id).active = false

theorem Awake.of_sameMarks
    (awake : before.Awake)
    (marks : before.stack.SameMarks after.stack)
    (active : before.active ⊆ after.active) :
    after.Awake := by
  intro id isMarked
  rw [marks.active id] at isMarked
  exact active (awake id isMarked)

theorem Awake.activate
    (awake : parser.Awake)
    (node : Nat) :
    (parser.activate node).Awake := by
  intro id isMarked
  rcases (wakes_activate node).flagged id isMarked with wasMarked | listed
  · exact List.mem_cons_of_mem _ (awake id wasMarked)
  · exact listed

/-- When nothing waits, nothing is marked. -/
theorem Awake.rested
    (awake : parser.Awake)
    (settled : parser.active = []) :
    parser.Rested := by
  intro id
  refine Bool.eq_false_iff.mpr fun isMarked => ?_
  have waits := awake id isMarked
  rw [settled] at waits
  cases waits

theorem Rested.of_sameMarks
    (rested : before.Rested)
    (marks : before.stack.SameMarks after.stack) :
    after.Rested :=
  fun id => (marks.active id).trans (rested id)

/-- Waking the nodes of a word marks those that will act. -/
theorem Rested.wakeWord
    (rested : parser.Rested)
    (word : Nat) :
    (parser.wakeWord word).Awake := by
  have begun : Awake { parser with active := [] } := by
    intro id isMarked
    rw [rested id] at isMarked
    cases isMarked
  have woken : ∀ (nodes : List StateNodeId) (current : Parser),
      current.Awake → (nodes.foldl Parser.activate current).Awake := by
    intro nodes
    induction nodes with
    | nil => exact fun _ awake => awake
    | cons node rest inductionHypothesis =>
        exact fun current awake =>
          inductionHypothesis _ (awake.activate node)
  unfold Parser.wakeWord
  dsimp only
  split
  · exact (woken _ _ begun).activate _
  · exact woken _ _ begun

/-- A node that acts is marked no longer, and wakes no other. -/
theorem marks_act (node : StateNodeId) :
    (parser.act node).stack = parser.stack.setActive node false ∧
      (parser.act node).active = parser.active := by
  unfold Parser.act
  dsimp only
  rw [(queues_foldl _).only]
  exact ⟨rfl, rfl⟩

theorem Awake.act
    {node : StateNodeId}
    {rest : List StateNodeId}
    (awake : parser.Awake)
    (isNext : parser.active = node :: rest) :
    Awake ({ parser with active := rest }.act node) := by
  obtain ⟨stack, active⟩ := @marks_act { parser with active := rest } node
  intro id isMarked
  rw [stack] at isMarked
  rw [active]
  rcases GraphStack.active_of_setActive isMarked with ⟨-, unmarked⟩ |
    ⟨differs, wasMarked⟩
  · cases unmarked
  · have waits := awake id wasMarked
    rw [isNext] at waits
    exact (List.mem_cons.mp waits).resolve_left differs

/-- A node that a derivation is packed into is held by nodes as they were. -/
theorem Awake.pack
    (awake : parser.Awake)
    (node : SymbolNodeId)
    (below : StateNodeId)
    (goto : StateId)
    (derivation : Derivation) :
    (parser.pack node below goto derivation).Awake := by
  have marks : parser.stack.SameMarks
      (parser.stack.extendNode node derivation below).2 :=
    (GraphStack.sameMarks_addDerivation node derivation).trans
      (GraphStack.sameMarks_link node below)
  obtain ⟨reductions, queues, -⟩ := parser.queues_pack node below goto derivation
  rw [queues.only]
  exact awake.of_sameMarks marks (List.Subset.refl _)

/-- A node that grows wakes its holder, if it is not awake. -/
theorem Awake.grow
    (awake : parser.Awake)
    (word : Nat)
    (below : StateNodeId)
    (goto : StateId)
    (lhs : SymbolId)
    (span : SpanId)
    (derivation : Derivation) :
    (parser.grow word below goto lhs span derivation).Awake := by
  have sprouted : (parser.sprout word below goto lhs span derivation).Awake := by
    rw [sprout_eq]
    refine awake.of_sameMarks ?_ (List.Subset.refl parser.active)
    dsimp only
    exact GraphStack.sameMarks_growNode word goto span lhs below derivation
  rw [grow_eq]
  split
  · exact sprouted
  · exact sprouted.activate _

theorem Awake.attach
    (awake : parser.Awake)
    (word : Nat)
    (below : StateNodeId)
    (span : SpanId)
    (derivation : Derivation) :
    (parser.attach word below span derivation).Awake := by
  unfold Parser.attach
  dsimp only
  split
  · exact awake
  · split
    · exact awake.pack _ _ _ _
    · split
      · exact awake
      · exact awake.grow _ _ _ _ _ _

/-- While a word is worked on, whatever is marked waits to act. -/
theorem Kept.awake :
    Kept host grammar options word fun _ parser => parser.Awake where
  learns _ learns _ awake :=
    awake.of_sameMarks (.of_states (by rw [learns.stack]))
      (by rw [learns.active]; exact List.Subset.refl _)
  attaches _ _ awake := awake.attach _ _ _ _
  acts _ isNext awake := awake.act isNext
  takes _ _ _ awake := awake
  tries _ _ _ _ _ _ awake := awake

theorem sameMarks_readShift (word : Nat) (shift : Shift) :
    parser.stack.SameMarks (parser.readShift word shift).stack := by
  cases isRemoved : (parser.stack.stateNode shift.origin).removed with
  | true =>
      unfold readShift
      rw [if_pos isRemoved]
      exact .refl _
  | false =>
      rw [readShift_eq shift isRemoved]
      unfold GraphStack.readNode
      dsimp only
      split
      · exact (GraphStack.sameMarks_addState _ _).trans
          (GraphStack.sameMarks_link _ _)
      · exact (GraphStack.sameMarks_addState _ _).trans
          (GraphStack.sameMarks_addSymbol _ _ _ _)

/-- Finishing a word wakes no node. -/
theorem sameMarks_finishWord (word : Nat) :
    parser.stack.SameMarks (parser.finishWord word).stack := by
  have reads : ∀ (shifts : List Shift) (current : Parser),
      current.stack.SameMarks (shifts.foldl
        (fun current shift => current.readShift word shift) current).stack := by
    intro shifts
    induction shifts with
    | nil => exact fun _ => .refl _
    | cons shift rest inductionHypothesis =>
        exact fun current =>
          (sameMarks_readShift word shift).trans (inductionHypothesis _)
  have filters : ∀ read : Parser,
      read.stack.SameMarks (read.filterWord word).stack := by
    intro read
    unfold filterWord
    rw [filterGreedily_eq]
    dsimp only
    split
    · exact .refl _
    · obtain ⟨_, ended⟩ := GreedyPass.ended_last read.compiled read.spans word
        read.stack (winnersAt read.compiled read.stack read.spans word)
      exact (GraphStack.SameMarks.of_states ended.drops.states).trans
        (GraphStack.sameMarks_sweep _)
  have read : parser.stack.SameMarks (parser.readShifts word).stack :=
    reads parser.shifts { parser with shifts := [] }
  unfold finishWord
  dsimp only
  split
  · exact read.trans (filters _)
  · exact read

/-- When a document was loaded, nothing is marked. -/
theorem Fresh.rested
    (fresh : parser.Fresh grammar options) :
    parser.Rested := by
  intro id
  rw [fresh.stack]
  cases id <;> rfl

end Parser

namespace Parsing

variable {σ : Type} {host : Host σ}
variable {grammar : Grammar} {options : CompileOptions} {parser : Parser}

/-- A step that returns leaves nothing marked. -/
theorem ensures_step_rested
    (wellFormed : grammar.WellFormed)
    (sound : parser.Sound host grammar options)
    (rested : parser.Rested) :
    Ensures parser (step host)
      (fun _ after => after.Sound host grammar options ∧ after.Rested)
      fun _ => True := by
  have terms : host.Terms grammar True := ⟨wellFormed, .inr trivial⟩
  refine (ensures_step terms (fun _ => Parser.Kept.awake) sound (.inr trivial)
    ?_).imp ?_ fun _ _ => trivial
  · intro collected learns _ _
    have stillRested : collected.Rested :=
      rested.of_sameMarks (.of_states (by rw [learns.stack]))
    exact stillRested.wakeWord parser.position
  · rintro remains after (⟨-, -, rfl⟩ |
      ⟨-, collected, settled, finished, processed, awake, rfl, -⟩)
    · exact ⟨sound, rested⟩
    · have finishedRested := (awake.rested processed.active).of_sameMarks
        (Parser.sameMarks_finishWord parser.position)
      rw [← processed.ended] at finishedRested
      exact ⟨processed.sound.atPosition
        (processed.finishes.reductions.trans processed.reductions)
        processed.finishes.shifts _, finishedRested⟩

end Parsing

end SpanForest
