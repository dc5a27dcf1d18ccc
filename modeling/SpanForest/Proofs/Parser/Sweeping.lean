import SpanForest.Proofs.Parser.Greedy

namespace SpanForest

/-!
# What a sweep leaves

A sweep removes nothing below the word from which it starts. It comes to an end
when no state node from there on has lost all its children and no symbol node
all its states, so that whatever is live there is supported.
-/

namespace GraphStack

variable {first second third stack : GraphStack} {start : Nat}

/-- A stack from which nodes of some word or later were removed. -/
structure Swept (start : Nat) (before after : GraphStack) : Prop where
  trimmed : before.Trimmed after
  state :
    ∀ id : Nat, (after.stateNode id).removed = true →
      (before.stateNode id).removed = true ∨
        ∃ word, start ≤ word ∧ id ∈ (before.layer word).nodes
  stranded :
    ∀ id : Nat, (after.stateNode id).removed = true →
      (before.stateNode id).removed = true ∨
        (before.stateNode id).children ≠ [] ∧
          ∀ child ∈ (before.stateNode id).children,
            (after.symbolNode child).removed = true
  symbol :
    ∀ id : Nat, (after.symbolNode id).removed = true →
      (before.symbolNode id).removed = true ∨
        (∃ word, start ≤ word ∧ (before.symbolNode id).word = some word) ∧
          ∀ child ∈ (before.symbolNode id).children,
            (after.stateNode child).removed = true
  stays :
    ∀ id : Nat, (before.stateNode id).removed = true →
      (after.stateNode id).removed = true

/-- A stack on which nothing is unsupported from a word on. -/
structure Stable (start : Nat) (stack : GraphStack) : Prop where
  state :
    ∀ word : Nat, start ≤ word → ∀ id ∈ (stack.layer word).nodes,
      stack.isStranded id = false
  symbol : ∀ id : Nat, stack.isFloating start id = false

theorem Swept.refl (start : Nat) (stack : GraphStack) : stack.Swept start stack where
  trimmed := .refl stack
  state _ := .inl
  stranded _ := .inl
  symbol _ := .inl
  stays _ := id

theorem Swept.trans
    (early : first.Swept start second)
    (late : second.Swept start third) :
    first.Swept start third where
  trimmed := early.trimmed.trans late.trimmed
  stays id isRemoved := late.stays id (early.stays id isRemoved)
  state id isRemoved := by
    rcases late.state id isRemoved with before | ⟨word, le, listed⟩
    · exact early.state id before
    · rw [early.trimmed.shape.layer] at listed
      exact .inr ⟨word, le, listed⟩
  stranded id isRemoved := by
    rcases late.stranded id isRemoved with before | ⟨hasChildren, allRemoved⟩
    · refine (early.stranded id before).imp_right fun ⟨hasChildren, allRemoved⟩ =>
        ⟨hasChildren, fun child isChild => ?_⟩
      exact late.trimmed.removed child (allRemoved child isChild)
    · rw [(early.trimmed.shape.state id).2.2] at hasChildren allRemoved
      exact .inr ⟨hasChildren, allRemoved⟩
  symbol id isRemoved := by
    have shape := early.trimmed.shape.symbol id
    rcases late.symbol id isRemoved with before | ⟨⟨word, le, isWord⟩, floats⟩
    · refine (early.symbol id before).imp_right fun ⟨atWord, floats⟩ =>
        ⟨atWord, fun child isChild => late.stays child (floats child isChild)⟩
    · rw [shape.2.2.1] at isWord
      rw [shape.2.2.2] at floats
      exact .inr ⟨⟨word, le, isWord⟩, floats⟩

/-- A state node that is removed was so before, or is the one just removed. -/
theorem removed_of_setStateRemoved
    {id other : Nat}
    (isRemoved : ((stack.setStateRemoved id true).stateNode other).removed = true) :
    (stack.stateNode other).removed = true ∨ other = id := by
  by_cases inside : id < stack.states.size
  · rw [setStateRemoved, stateNode_modifyState inside] at isRemoved
    split at isRemoved
    · rename_i same
      exact .inr same
    · exact .inl isRemoved
  · rw [setStateRemoved, modifyState_of_le (Nat.le_of_not_lt inside)]
      at isRemoved
    exact .inl isRemoved

theorem swept_setStateRemoved
    {id word : Nat}
    (late : start ≤ word)
    (listed : id ∈ (stack.layer word).nodes)
    (stranded : stack.isStranded id = true) :
    stack.Swept start (stack.setStateRemoved id true) where
  trimmed := trimmed_setStateRemoved id
  symbol _ := .inl
  state other isRemoved := by
    refine (removed_of_setStateRemoved isRemoved).imp_right ?_
    rintro rfl
    exact ⟨word, late, listed⟩
  stranded other isRemoved := by
    refine (removed_of_setStateRemoved isRemoved).imp_right ?_
    rintro rfl
    simp only [isStranded, Bool.and_eq_true, Bool.not_eq_true',
      List.isEmpty_eq_false_iff, List.all_eq_true] at stranded
    exact ⟨stranded.1.2, stranded.2⟩
  stays other isRemoved := by
    by_cases inside : id < stack.states.size
    · rw [setStateRemoved, stateNode_modifyState inside]
      split
      · rfl
      · exact isRemoved
    · rw [setStateRemoved, modifyState_of_le (Nat.le_of_not_lt inside)]
      exact isRemoved

theorem swept_setSymbolRemoved
    {id word : Nat}
    (late : start ≤ word)
    (isWord : (stack.symbolNode id).word = some word)
    (floats : ∀ child ∈ (stack.symbolNode id).children,
      (stack.stateNode child).removed = true) :
    stack.Swept start (stack.setSymbolRemoved id true) where
  trimmed := trimmed_setSymbolRemoved id
  state _ := .inl
  stranded _ := .inl
  stays _ isRemoved := isRemoved
  symbol other isRemoved := by
    by_cases same : other = id
    · exact .inr ⟨⟨word, late, same ▸ isWord⟩, same ▸ floats⟩
    · by_cases inside : id < stack.symbols.size
      · rw [setSymbolRemoved, symbolNode_modifySymbol inside, if_neg same]
          at isRemoved
        exact .inl isRemoved
      · rw [setSymbolRemoved, modifySymbol_of_le (Nat.le_of_not_lt inside)]
          at isRemoved
        exact .inl isRemoved

/-- The state nodes over which a sweep goes. -/
def statesFrom (stack : GraphStack) (start : Nat) : List StateNodeId :=
  (stack.layers.toList.drop start).flatMap (·.nodes)

theorem mem_statesFrom {id : Nat} :
    id ∈ stack.statesFrom start ↔
      ∃ word, start ≤ word ∧ id ∈ (stack.layer word).nodes := by
  have atWord : ∀ word : Nat, (stack.layers.toList[word]?).getD ⟨[], []⟩ =
      stack.layer word := by
    intro word
    rw [layer, Array.getD_eq_getD_getElem?, Array.getElem?_toList]
  rw [statesFrom, List.mem_flatMap]
  constructor
  · rintro ⟨layer, member, listed⟩
    obtain ⟨index, isLayer⟩ := List.mem_iff_getElem?.mp member
    rw [List.getElem?_drop] at isLayer
    refine ⟨start + index, Nat.le_add_right _ _, ?_⟩
    rw [← atWord, isLayer]
    exact listed
  · rintro ⟨word, late, listed⟩
    rw [← atWord] at listed
    cases isLayer : stack.layers.toList[word]? with
    | none =>
        rw [isLayer] at listed
        cases listed
    | some layer =>
        rw [isLayer] at listed
        refine ⟨layer, List.mem_iff_getElem?.mpr ⟨word - start, ?_⟩, listed⟩
        rw [List.getElem?_drop, Nat.add_sub_cancel' late]
        exact isLayer

/-- Removing stranded state nodes among those from a word on. -/
theorem swept_sweepStates
    (ids : List StateNodeId)
    {swept : Nat × GraphStack}
    (late : ids ⊆ swept.2.statesFrom start) :
    swept.2.Swept start (sweepStates ids swept).2 := by
  induction ids generalizing swept with
  | nil => exact .refl _ _
  | cons id rest inductionHypothesis =>
      obtain ⟨count, stack⟩ := swept
      obtain ⟨word, le, listed⟩ := mem_statesFrom.mp (late List.mem_cons_self)
      have restLate : rest ⊆ stack.statesFrom start :=
        fun _ member => late (List.mem_cons_of_mem id member)
      unfold sweepStates
      split
      · rename_i stranded
        exact (swept_setStateRemoved le listed stranded).trans
          (@inductionHypothesis (_, _) restLate)
      · exact inductionHypothesis restLate

/-- Removing floating symbol nodes from a word on. -/
theorem swept_sweepSymbols
    (ids : List SymbolNodeId)
    {swept : Nat × GraphStack} :
    swept.2.Swept start (sweepSymbols start ids swept).2 := by
  induction ids generalizing swept with
  | nil => exact .refl _ _
  | cons id rest inductionHypothesis =>
      obtain ⟨count, stack⟩ := swept
      unfold sweepSymbols
      split
      · rename_i floating
        simp only [isFloating, Bool.and_eq_true, Option.any_eq_true,
          decide_eq_true_eq, List.all_eq_true] at floating
        obtain ⟨⟨-, word, isWord, le⟩, floats⟩ := floating
        exact (swept_setSymbolRemoved le isWord floats).trans
          (@inductionHypothesis (_, _))
      · exact inductionHypothesis

/-- A pass over state nodes that counts none found none stranded. -/
theorem sweepStates_quiet
    {ids : List StateNodeId}
    {swept : Nat × GraphStack}
    (quiet : (sweepStates ids swept).1 = swept.1) :
    sweepStates ids swept = swept ∧
      ∀ id ∈ ids, swept.2.isStranded id = false := by
  induction ids generalizing swept with
  | nil => exact ⟨rfl, fun _ member => nomatch member⟩
  | cons id rest inductionHypothesis =>
      obtain ⟨count, stack⟩ := swept
      unfold sweepStates at quiet ⊢
      split
      · rename_i stranded
        have counted := (@liveNodes_sweepStates rest
          (count + 1, stack.setStateRemoved id true)).1
        rw [if_pos stranded] at quiet
        simp only at quiet counted
        omega
      · rename_i supported
        rw [if_neg supported] at quiet
        obtain ⟨same, restSupported⟩ := inductionHypothesis quiet
        refine ⟨same, fun other member => ?_⟩
        rcases List.mem_cons.mp member with isId | inRest
        · simpa [isId] using supported
        · exact restSupported other inRest

/-- A pass over symbol nodes that counts none found none floating. -/
theorem sweepSymbols_quiet
    {ids : List SymbolNodeId}
    {swept : Nat × GraphStack}
    (quiet : (sweepSymbols start ids swept).1 = swept.1) :
    sweepSymbols start ids swept = swept ∧
      ∀ id ∈ ids, swept.2.isFloating start id = false := by
  induction ids generalizing swept with
  | nil => exact ⟨rfl, fun _ member => nomatch member⟩
  | cons id rest inductionHypothesis =>
      obtain ⟨count, stack⟩ := swept
      unfold sweepSymbols at quiet ⊢
      split
      · rename_i floating
        have counted := (@liveNodes_sweepSymbols start rest
          (count + 1, stack.setSymbolRemoved id true)).1
        rw [if_pos floating] at quiet
        simp only at quiet counted
        omega
      · rename_i supported
        rw [if_neg supported] at quiet
        obtain ⟨same, restSupported⟩ := inductionHypothesis quiet
        refine ⟨same, fun other member => ?_⟩
        rcases List.mem_cons.mp member with isId | inRest
        · simpa [isId] using supported
        · exact restSupported other inRest

/-- A round goes over the state nodes from a word on, then over all symbol nodes. -/
theorem sweepRound_eq (swept : Nat × GraphStack) :
    sweepRound start swept =
      let result := sweepSymbols start (List.range swept.2.symbols.size)
        (sweepStates (swept.2.statesFrom start) swept)
      (result.1 != swept.1, result) :=
  rfl

theorem swept_sweepRound (swept : Nat × GraphStack) :
    swept.2.Swept start (sweepRound start swept).2.2 := by
  rw [sweepRound_eq]
  exact (swept_sweepStates _ (List.Subset.refl _)).trans (swept_sweepSymbols _)

/-- A round that changes nothing leaves a stable stack. -/
theorem stable_sweepRound
    {swept final : Nat × GraphStack}
    (quiet : sweepRound start swept = (false, final)) :
    final.2.Stable start := by
  have states := (@liveNodes_sweepStates (swept.2.statesFrom start) swept).1
  have symbols := (@liveNodes_sweepSymbols start
    (List.range swept.2.symbols.size)
    (sweepStates (swept.2.statesFrom start) swept)).1
  simp only [sweepRound_eq, Prod.mk.injEq, bne_eq_false_iff_eq] at quiet
  obtain ⟨counted, isFinal⟩ := quiet
  obtain ⟨sameStates, stateStable⟩ := sweepStates_quiet (Nat.le_antisymm
    (counted ▸ symbols) states)
  rw [sameStates] at counted isFinal
  obtain ⟨sameSymbols, symbolStable⟩ := sweepSymbols_quiet counted
  rw [← isFinal, sameSymbols]
  constructor
  case state =>
    intro word late id listed
    exact stateStable id (mem_statesFrom.mpr ⟨word, late, listed⟩)
  case symbol =>
    intro id
    by_cases inside : id < swept.2.symbols.size
    · exact symbolStable id (List.mem_range.mpr inside)
    · rw [isFloating, symbolNode_of_le (Nat.le_of_not_lt inside)]
      rfl

/-- A sweep takes away what is unsupported from a word on, until nothing is. -/
theorem swept_sweep (start : Nat) :
    stack.Swept start (stack.sweep start).2 ∧
      (stack.sweep start).2.Stable start := by
  unfold sweep
  constructor
  · have kept : ∀ swept : Nat × GraphStack, stack.Swept start swept.2 →
        stack.Swept start (sweepRound start swept).2.2 :=
      fun swept isSwept => isSwept.trans (swept_sweepRound swept)
    exact repeatRounds_induction
      (motive := fun swept : Nat × GraphStack => stack.Swept start swept.2)
      kept _ (.refl _ _)
  · have falls : ∀ swept : Nat × GraphStack, True →
        (sweepRound start swept).1 = true →
        (sweepRound start swept).2.2.liveNodes < swept.2.liveNodes :=
      fun swept _ => liveNodes_sweepRound
    obtain ⟨last, -, quiet⟩ := @exists_stable_repeatRounds _ _
      (fun _ => True) (fun swept : Nat × GraphStack => swept.2.liveNodes)
      (fun _ _ => trivial) falls _ (0, stack) trivial
      (Nat.lt_succ_of_le stack.liveNodes_le)
    exact stable_sweepRound quiet

end GraphStack

end SpanForest
