import SpanForest.Proofs.Span
import SpanForest.Proofs.Stack.Growth

namespace SpanForest

/-!
# Packed stacks

In a packed stack no two live symbol nodes that one state node holds carry
equivalent spans, and no symbol node has a derivation twice. A stack stays packed
when a node is put below a state node that holds no live equivalent of it, and
when nodes are removed or lose derivations.
-/

namespace GraphStack

variable {stack before after : GraphStack} {table : PackedTable}
variable {spans more : SpanStore}

/-- A stack in which what is interchangeable is packed into one node. -/
structure Packed (spans : SpanStore) (stack : GraphStack) : Prop where
  apart :
    ∀ parent first second : Nat,
      first ∈ (stack.stateNode parent).children →
      second ∈ (stack.stateNode parent).children → first ≠ second →
      (stack.symbolNode first).removed = false →
      (stack.symbolNode second).removed = false →
      (spans.get (stack.symbolNode first).span).equivalent
        (spans.get (stack.symbolNode second).span) = false
  once : ∀ node : Nat, (stack.symbolNode node).derivations.Nodup

/-- The start node alone is packed. -/
theorem packed_new (count : Nat) (start : StateId) :
    (GraphStack.new count start).Packed spans where
  apart parent first _ isFirst := by
    have noChildren :
        ((GraphStack.new count start).stateNode parent).children = [] := by
      cases parent <;> rfl
    rw [noChildren] at isFirst
    cases isFirst
  once _ := List.nodup_nil

/-- Spans that are committed change nothing. -/
theorem Packed.commits
    (packed : stack.Packed spans)
    (consistent : stack.Consistent table)
    (known : ∀ node : Nat, node < stack.symbols.size →
      (stack.symbolNode node).span < spans.size)
    (extended : spans.Extends more) :
    stack.Packed more where
  apart parent first second isFirst isSecond differ firstLive secondLive := by
    have firstKnown := known first (consistent.child_known parent first isFirst)
    have secondKnown :=
      known second (consistent.child_known parent second isSecond)
    rw [(extended.get firstKnown).2, (extended.get secondKnown).2]
    exact packed.apart parent first second isFirst isSecond differ firstLive
      secondLive
  once := packed.once

/-- A stack with fewer live nodes and fewer derivations. -/
theorem Packed.shrinks
    (packed : before.Packed spans)
    (shape : before.SameShape after)
    (derivations : ∀ node : Nat, (after.symbolNode node).derivations.Sublist
      (before.symbolNode node).derivations)
    (removed : ∀ node : Nat, (before.symbolNode node).removed = true →
      (after.symbolNode node).removed = true) :
    after.Packed spans where
  apart parent first second isFirst isSecond differ firstLive secondLive := by
    have wasLive : ∀ node : Nat, (after.symbolNode node).removed = false →
        (before.symbolNode node).removed = false :=
      fun node isLive => Bool.eq_false_iff.mpr fun wasRemoved =>
        Bool.eq_false_iff.mp isLive (removed node wasRemoved)
    rw [(shape.state parent).2.2] at isFirst isSecond
    rw [(shape.symbol first).1, (shape.symbol second).1]
    exact packed.apart parent first second isFirst isSecond differ
      (wasLive first firstLive) (wasLive second secondLive)
  once node := (packed.once node).sublist (derivations node)

/--
A stack that grew at most one symbol node, below a state node that held no live
equivalent of it.
-/
theorem Packed.grows
    (packed : before.Packed spans)
    (consistent : before.Consistent table)
    (span : ∀ node : Nat, node < before.symbols.size →
      (after.symbolNode node).span = (before.symbolNode node).span)
    (removed : ∀ node : Nat, node < before.symbols.size →
      (after.symbolNode node).removed = (before.symbolNode node).removed)
    (children : ∀ parent child : Nat,
      child ∈ (after.stateNode parent).children →
        child ∈ (before.stateNode parent).children ∨
          child = before.symbols.size ∧
            ∀ other ∈ (before.stateNode parent).children,
              (before.symbolNode other).removed = false →
                (spans.get (before.symbolNode other).span).equivalent
                  (spans.get (after.symbolNode child).span) = false)
    (once : ∀ node : Nat, (after.symbolNode node).derivations.Nodup) :
    after.Packed spans where
  apart parent first second isFirst isSecond differ firstLive secondLive := by
    have inside := consistent.child_known parent
    rcases children parent first isFirst with firstOld | ⟨isNew, firstApart⟩
    · have firstInside := inside first firstOld
      rw [removed first firstInside] at firstLive
      rw [span first firstInside]
      rcases children parent second isSecond with secondOld | ⟨-, secondApart⟩
      · have secondInside := inside second secondOld
        rw [removed second secondInside] at secondLive
        rw [span second secondInside]
        exact packed.apart parent first second firstOld secondOld differ
          firstLive secondLive
      · exact secondApart first firstOld firstLive
    · rcases children parent second isSecond with secondOld | ⟨isNewToo, -⟩
      · have secondInside := inside second secondOld
        rw [removed second secondInside] at secondLive
        rw [span second secondInside, Span.equivalent_comm]
        exact firstApart second secondOld secondLive
      · exact absurd (isNew.trans isNewToo.symm) differ
  once := once

/-- A search that finds no equivalent leaves none. -/
theorem Consistent.not_equivalent
    (consistent : stack.Consistent table)
    {word top : Nat}
    {goto : StateId}
    {span : SpanId}
    (unmatched :
      ((stack.findState? word goto).bind fun found =>
        stack.findEquivalent? spans found span) = none)
    (listed : top ∈ (stack.layer word).nodes)
    (state : (stack.stateNode top).state = goto) :
    ∀ other ∈ (stack.stateNode top).children,
      (stack.symbolNode other).removed = false →
        (spans.get (stack.symbolNode other).span).equivalent
          (spans.get span) = false := by
  cases found : stack.findState? word goto with
  | none => exact absurd state (findState?_eq_none found top listed)
  | some other =>
      obtain ⟨otherListed, otherState⟩ := findState?_eq_some found
      obtain rfl : top = other := consistent.state_unique word top other listed
        otherListed (state.trans otherState.symm)
      rw [found, Option.bind_some] at unmatched
      exact findChild?_eq_none unmatched

/-- A node with one more derivation, which is packed into it. -/
theorem Packed.nodeExtended
    {word node below : Nat}
    {derivation : Derivation}
    (packed : before.Packed spans)
    (consistent : before.Consistent table)
    (extended : NodeExtended word node derivation below before after) :
    after.Packed spans := by
  refine packed.grows consistent
    (fun own inside => (extended.grows.symbol own inside).span)
    (fun own _ => extended.removed own) (fun parent child isChild => .inl ?_)
    fun own => extended.once own (packed.once own)
  rwa [stateNode, extended.states] at isChild

/-- A node that is grown for a span of which no equivalent was found. -/
theorem Packed.nodeGrown
    {word top : Nat}
    {goto : StateId}
    {content : SymbolNode}
    (packed : before.Packed spans)
    (consistent : before.Consistent table)
    (afterConsistent : after.Consistent table)
    (grown : NodeGrown word goto content top before after)
    (single : content.derivations.Nodup)
    (unmatched :
      ((before.findState? word goto).bind fun found =>
        before.findEquivalent? spans found content.span) = none) :
    after.Packed spans := by
  refine packed.grows consistent
    (fun own inside => (grown.grows.symbol own inside).span) ?_ ?_ ?_
  · intro own inside
    rw [grown.symbol, if_neg (Nat.ne_of_lt inside)]
  · intro parent child isChild
    by_cases isTop : parent = top
    · subst isTop
      rw [grown.children] at isChild
      rcases List.mem_append.mp isChild with old | isNew
      · exact .inl old
      · refine .inr ⟨List.mem_singleton.mp isNew, fun other isOther => ?_⟩
        have inside : parent < before.states.size := by
          refine Nat.lt_of_not_le fun outside => ?_
          rw [stateNode_of_le outside] at isOther
          cases isOther
        have listed := (grown.grows.mem_layer consistent afterConsistent inside
          word).mp grown.listed
        have state := (grown.grows.state parent inside).state
        rw [List.mem_singleton.mp isNew, grown.symbol, if_pos rfl]
        exact consistent.not_equivalent unmatched listed
          (state.symm.trans grown.state) other isOther
    · rw [grown.stateNode_of_ne isTop] at isChild
      exact .inl isChild
  · intro own
    rw [grown.symbol]
    split
    · exact single
    · exact packed.once own

/-- A span that is read where no live node has an equivalent but its own. -/
theorem Packed.nodeRead
    {word below : Nat}
    {target : StateId}
    {content : SymbolNode}
    (packed : before.Packed spans)
    (consistent : before.Consistent table)
    (afterConsistent : after.Consistent table)
    (read : NodeRead word target content below before after)
    (single : content.derivations.Nodup)
    (equal : ∀ parent : Nat, parent < before.states.size →
      (before.stateNode parent).state = target →
      ∀ other ∈ (before.stateNode parent).children,
        (spans.get (before.symbolNode other).span).equivalent
            (spans.get content.span) = true →
          (before.symbolNode other).span = content.span) :
    after.Packed spans := by
  refine packed.grows consistent
    (fun own inside => (read.grows.symbol own inside).span)
    (fun own inside => (read.symbol own inside).2) ?_ ?_
  · intro parent child isChild
    rcases read.held parent child isChild with old | ⟨isNew, state, differs⟩
    · exact .inl old
    · refine .inr ⟨isNew, fun other isOther isLive =>
        Bool.eq_false_iff.mpr fun isEquivalent => ?_⟩
      have inside : parent < before.states.size := by
        refine Nat.lt_of_not_le fun outside => ?_
        rw [stateNode_of_le outside] at isOther
        cases isOther
      have isContent : after.symbolNode child = content :=
        read.added child (Nat.le_of_eq isNew.symm)
          (afterConsistent.child_known parent child isChild)
      rw [isContent] at isEquivalent
      exact differs other isOther isLive (equal parent inside
        ((read.grows.state parent inside).state.symm.trans state) other isOther
        isEquivalent)
  · intro own
    by_cases old : own < before.symbols.size
    · rw [(read.symbol own old).1]
      exact packed.once own
    · by_cases inside : own < after.symbols.size
      · rw [read.added own (Nat.le_of_not_lt old) inside]
        exact single
      · rw [symbolNode_of_le (Nat.le_of_not_lt inside)]
        exact List.nodup_nil

end GraphStack

end SpanForest
