import SpanForest.Proofs.Lr.CompiledTable
import SpanForest.Proofs.Stack.Consistent

namespace SpanForest

/-!
# Paths spell right-hand sides

A path is found without looking at symbols. But the state above it holds an
item whose symbols before the cursor were read on every way to that state. So a
path as long as the right-hand side of a complete item spells that side.
-/

namespace GraphStack

variable {stack : GraphStack}

/-- The state node that holds `left` is one of those below `right`. -/
def Linked (stack : GraphStack) (left right : Nat) : Prop :=
  ∃ holder, stack.Holds holder left ∧
    holder ∈ (stack.symbolNode right).children

/-- The nodes one step below a symbol node. -/
theorem mem_nodesBelow
    {anchor next : Nat}
    (member : next ∈ stack.nodesBelow anchor) :
    ∃ child, child ∈ (stack.symbolNode anchor).children ∧
      next ∈ (stack.stateNode child).children := by
  obtain ⟨child, below, live⟩ := List.mem_flatMap.mp member
  refine ⟨child, below, ?_⟩
  unfold liveChildren at live
  split at live
  · simp at live
  · exact (List.mem_filter.mp live).1

/-- A path through a particular state is a path. -/
theorem mem_pathsBelow_of_mem_paths
    {anchor count : Nat}
    {via : Option StateNodeId}
    {path : List SymbolNodeId}
    (member : path ∈ stack.paths anchor (count + 1) via) :
    path ∈ stack.pathsBelow count anchor := by
  cases via with
  | none =>
      exact member
  | some via =>
      cases count with
      | zero =>
          exact member
      | succ count =>
          obtain ⟨next, isNext, rest⟩ := List.mem_flatMap.mp member
          obtain ⟨child, below, live⟩ := List.mem_flatMap.mp isNext
          exact List.mem_flatMap.mpr
            ⟨next, List.mem_flatMap.mpr
              ⟨child, (List.mem_filter.mp below).1, live⟩, rest⟩

/-- A path from a live node leads through live nodes. -/
theorem live_of_pathsBelow
    {count : Nat}
    {anchor : Nat}
    (live : (stack.symbolNode anchor).removed = false)
    {path : List SymbolNodeId}
    (member : path ∈ stack.pathsBelow count anchor) :
    ∀ node : Nat, node ∈ path → (stack.symbolNode node).removed = false := by
  induction count generalizing anchor path with
  | zero =>
      intro node isNode
      rw [List.mem_singleton.mp member] at isNode
      rw [List.mem_singleton.mp isNode]
      exact live
  | succ count inductionHypothesis =>
      obtain ⟨next, isNext, isPath⟩ := List.mem_flatMap.mp member
      obtain ⟨rest, isRest, rfl⟩ := List.mem_map.mp isPath
      obtain ⟨child, -, isLive⟩ := List.mem_flatMap.mp isNext
      unfold liveChildren at isLive
      split at isLive
      · cases isLive
      · have nextLive := (List.mem_filter.mp isLive).2
        intro node isNode
        rcases List.mem_cons.mp isNode with isAnchor | inRest
        · rw [isAnchor]
          exact live
        · exact inductionHypothesis (by simpa using nextLive) isRest node inRest

/-- State nodes are climbed from one to another along symbol nodes, lowest first. -/
inductive Climbs (stack : GraphStack) (base : Nat) :
    List SymbolNodeId → Nat → Prop where
  | nil : Climbs stack base [] base
  | snoc {nodes : List SymbolNodeId} {middle node top : Nat} :
      Climbs stack base nodes middle →
      middle ∈ (stack.symbolNode node).children →
      node ∈ (stack.stateNode top).children →
      Climbs stack base (nodes ++ [node]) top

theorem Climbs.eq_base
    {base top : Nat}
    {nodes : List SymbolNodeId}
    (climbs : stack.Climbs base nodes top)
    (isEmpty : nodes = []) :
    top = base := by
  cases climbs with
  | nil => rfl
  | snoc => simp at isEmpty

/-- A climb begins below its first node. -/
theorem Climbs.base_mem
    {base top : Nat}
    {nodes : List SymbolNodeId}
    (climbs : stack.Climbs base nodes top)
    (nonempty : nodes ≠ []) :
    base ∈ (stack.symbolNode (nodes.headD 0)).children := by
  induction climbs with
  | nil => exact absurd rfl nonempty
  | @snoc nodes middle node top lower below held inductionHypothesis =>
      cases nodes with
      | nil => exact lower.eq_base rfl ▸ below
      | cons first rest => exact inductionHypothesis (List.cons_ne_nil _ _)

/-- A climb leads over nodes of the stack. -/
theorem Climbs.inside
    {table : PackedTable}
    (consistent : stack.Consistent table)
    {base top : Nat}
    {nodes : List SymbolNodeId}
    (climbs : stack.Climbs base nodes top)
    (topInside : top < stack.states.size) :
    base < stack.states.size ∧
      ∀ node : Nat, node ∈ nodes → node < stack.symbols.size := by
  induction climbs with
  | nil => exact ⟨topInside, fun node member => by cases member⟩
  | snoc lower below held inductionHypothesis =>
      have fits := consistent.fits_of_mem held
      obtain ⟨baseInside, known⟩ := inductionHypothesis (fits.child _ below).1
      refine ⟨baseInside, fun node member => ?_⟩
      rcases List.mem_append.mp member with lower | isLast
      · exact known node lower
      · rw [List.mem_singleton.mp isLast]
        exact consistent.child_known _ _ held

/-- What was climbed to a node that is settled was climbed before. -/
theorem Consistent.climbs_of_extends
    {table : PackedTable}
    {since : Nat}
    {after : GraphStack}
    (consistent : stack.Consistent table)
    (extended : stack.Extends since after)
    {base top : Nat}
    {nodes : List SymbolNodeId}
    (inside : top < stack.states.size)
    (settled : WordBefore (stack.stateNode top).word since)
    (climbs : after.Climbs base nodes top) :
    stack.Climbs base nodes top := by
  induction climbs with
  | nil => exact .nil
  | snoc lower below held inductionHypothesis =>
      rw [(extended.state _ inside).settled settled] at held
      have fits := consistent.fits_of_mem held
      have sameBelow := (extended.symbol _
        (consistent.child_known _ _ held)).settled (fits.word.symm ▸ settled)
      rw [sameBelow] at below
      obtain ⟨middleInside, ⟨word, isWord, before⟩, -⟩ := fits.child _ below
      refine .snoc (inductionHypothesis middleInside fun own isOwn => ?_) below
        held
      exact Nat.lt_trans (before own isOwn) (settled word isWord)

/-- A climb in a live stack is a path, read from its end. -/
theorem Live.mem_pathsBelow
    (live : stack.Live)
    {base through : Nat}
    {nodes : List SymbolNodeId}
    (climbs : stack.Climbs base nodes through)
    {anchor : Nat}
    (below : through ∈ (stack.symbolNode anchor).children) :
    anchor :: nodes.reverse ∈ stack.pathsBelow nodes.length anchor := by
  induction climbs generalizing anchor with
  | nil => exact List.mem_singleton.mpr rfl
  | @snoc nodes middle node top _ middleBelow held inductionHypothesis =>
      rw [List.reverse_append, List.length_append]
      refine List.mem_flatMap.mpr ⟨node, List.mem_flatMap.mpr ⟨top, below, ?_⟩,
        List.mem_map.mpr ⟨_, inductionHypothesis middleBelow, rfl⟩⟩
      simp [liveChildren, live.state, live.symbol, held]

/-- A climb in a live stack is one of the paths through its last state node. -/
theorem Live.mem_paths
    (live : stack.Live)
    {base through : Nat}
    {nodes : List SymbolNodeId}
    (climbs : stack.Climbs base nodes through)
    {anchor : Nat}
    (below : through ∈ (stack.symbolNode anchor).children)
    {via : Option StateNodeId}
    (isVia : ∀ other ∈ via, other = through) :
    (nodes ++ [anchor]).reverse ∈
      stack.paths anchor (nodes.length + 1) via := by
  have isPath := live.mem_pathsBelow climbs below
  rw [List.reverse_append]
  cases via with
  | none => exact isPath
  | some other =>
      obtain rfl := isVia other rfl
      cases climbs with
      | nil => exact isPath
      | @snoc nodes middle node _ lower middleBelow held =>
          rw [List.length_append]
          refine List.mem_flatMap.mpr ⟨node, ?_, List.mem_map.mpr
            ⟨_, live.mem_pathsBelow lower middleBelow, ?_⟩⟩
          · refine List.mem_flatMap.mpr ⟨other, by simp [below], ?_⟩
            simp [liveChildren, live.state, live.symbol, held]
          · rw [List.reverse_append]
            rfl

/-- A path leads to earlier words. -/
theorem Consistent.word_le_of_pathsBelow
    {table : PackedTable}
    (consistent : stack.Consistent table)
    {count word : Nat}
    {anchor : Nat}
    (isWord : (stack.symbolNode anchor).word = some word)
    {path : List SymbolNodeId}
    (member : path ∈ stack.pathsBelow count anchor) :
    ∀ node : Nat, node ∈ path → ∀ own : Nat,
      (stack.symbolNode node).word = some own → own ≤ word := by
  induction count generalizing anchor word path with
  | zero =>
      intro node isNode own isOwn
      rw [List.mem_singleton.mp member] at isNode
      rw [List.mem_singleton.mp isNode, isWord] at isOwn
      exact Nat.le_of_eq (Option.some.inj isOwn).symm
  | succ count inductionHypothesis =>
      obtain ⟨next, isNext, isPath⟩ := List.mem_flatMap.mp member
      obtain ⟨rest, isRest, rfl⟩ := List.mem_map.mp isPath
      obtain ⟨child, below, nextHeld⟩ := mem_nodesBelow isNext
      have nextFits := consistent.fits_of_mem nextHeld
      obtain ⟨low, isLow⟩ := List.exists_mem_of_ne_nil _ nextFits.supported
      obtain ⟨-, ⟨nextWord, isNextWord, -⟩, -⟩ := nextFits.child low isLow
      have anchorInside : anchor < stack.symbols.size := by
        refine Nat.lt_of_not_le fun outside => ?_
        rw [symbolNode_of_le outside] at isWord
        cases isWord
      obtain ⟨holder, fits⟩ := consistent.fits anchor anchorInside
      obtain ⟨-, ⟨holderWord, isHolderWord, before⟩, -⟩ :=
        fits.child child below
      rw [← fits.word, isWord] at isHolderWord
      cases isHolderWord
      have earlier := before nextWord isNextWord
      intro node isNode own isOwn
      rcases List.mem_cons.mp isNode with isAnchor | inRest
      · rw [isAnchor, isWord] at isOwn
        exact Nat.le_of_eq (Option.some.inj isOwn).symm
      · have le := inductionHypothesis (nextFits.word.trans isNextWord) isRest
          node inRest own isOwn
        omega

/-- What is known of a path below a state with a given item. -/
structure Spells
    (grammar : Grammar)
    (stack : GraphStack)
    (rule : RuleId)
    (base count : Nat)
    (bound : Nat)
    (path : List SymbolNodeId) : Prop where
  length : path.length = count
  symbols :
    path.reverse.map (fun node => (stack.symbolNode node).symbol) =
      (((grammar.rule rule).symbols.drop base).take count).map some
  chain : path.IsChain fun right left => stack.Linked left right
  bottom :
    ∀ last ∈ path.getLast?, ∀ child ∈ (stack.symbolNode last).children,
      ⟨rule, base⟩ ∈ ((Automaton.ofGrammar grammar).state
          (stack.stateNode child).state).items ∧
        WordBefore (stack.stateNode child).word bound
  begun :
    ∀ last ∈ path.getLast?, ∃ holder, last ∈ (stack.stateNode holder).children ∧
      ⟨rule, base + 1⟩ ∈ ((Automaton.ofGrammar grammar).state
        (stack.stateNode holder).state).items

/-- A path below a state spells the symbols that an item of the state has read. -/
theorem Consistent.spells
    {grammar : Grammar}
    {options : CompileOptions}
    (wellFormed : grammar.WellFormed)
    (consistent : stack.Consistent (grammar.compile options).table)
    {rule : RuleId}
    {base count word : Nat}
    {anchor holder : Nat}
    (held : anchor ∈ (stack.stateNode holder).children)
    (isWord : (stack.stateNode holder).word = some word)
    (item :
      ⟨rule, base + count + 1⟩ ∈ ((Automaton.ofGrammar grammar).state
        (stack.stateNode holder).state).items)
    {path : List SymbolNodeId}
    (member : path ∈ stack.pathsBelow count anchor) :
    path.head? = some anchor ∧
      Spells grammar stack rule base (count + 1) word path := by
  have fits := consistent.fits_of_mem held
  have read : ∀ child ∈ (stack.symbolNode anchor).children,
      ∃ own, (stack.symbolNode anchor).symbol = some own ∧
        ⟨rule, base + count⟩ ∈ ((Automaton.ofGrammar grammar).state
          (stack.stateNode child).state).items ∧
        (grammar.rule rule).symbols[base + count]? = some own := by
    intro child below
    obtain ⟨-, -, own, isOwn, leads⟩ := fits.child child below
    exact ⟨own, isOwn,
      CompiledGrammar.reader_of_goto? wellFormed leads item⟩
  induction count generalizing anchor holder word path with
  | zero =>
      have single : path = [anchor] := List.mem_singleton.mp member
      subst single
      refine ⟨rfl, rfl, ?_, .singleton _, ?_, ?_⟩
      · obtain ⟨child, below⟩ := List.exists_mem_of_ne_nil _ fits.supported
        obtain ⟨own, isOwn, -, isSymbol⟩ := read child below
        have inside := (List.getElem?_eq_some_iff.mp isSymbol)
        rw [Nat.add_zero] at isSymbol
        simp [isOwn, List.take_one, List.head?_drop, isSymbol]
      · intro last isLast child below
        obtain rfl : last = anchor := by simpa [eq_comm] using isLast
        obtain ⟨_, -, isItem, -⟩ := read child below
        obtain ⟨-, ⟨own, isOwn, before⟩, -⟩ := fits.child child below
        rw [isWord] at isOwn
        cases isOwn
        exact ⟨isItem, before⟩
      · intro last isLast
        obtain rfl : last = anchor := by simpa [eq_comm] using isLast
        exact ⟨holder, held, item⟩
  | succ count inductionHypothesis =>
      obtain ⟨next, isNext, isPath⟩ := List.mem_flatMap.mp member
      obtain ⟨rest, isRest, rfl⟩ := List.mem_map.mp isPath
      obtain ⟨child, below, nextHeld⟩ := mem_nodesBelow isNext
      obtain ⟨own, isOwn, isItem, isSymbol⟩ := read child below
      obtain ⟨-, ⟨_, isHolderWord, before⟩, -⟩ := fits.child child below
      rw [isWord] at isHolderWord
      cases isHolderWord
      have nextFits := consistent.fits_of_mem nextHeld
      obtain ⟨low, isLow⟩ := List.exists_mem_of_ne_nil _ nextFits.supported
      obtain ⟨-, ⟨childWord, isChildWord, -⟩, -⟩ := nextFits.child low isLow
      obtain ⟨restHead, spells⟩ := inductionHypothesis nextHeld isChildWord
        isItem isRest nextFits fun under isUnder => by
          obtain ⟨-, -, symbol, isSymbol', leads⟩ :=
            nextFits.child under isUnder
          exact ⟨symbol, isSymbol',
            CompiledGrammar.reader_of_goto? wellFormed leads isItem⟩
      have restNonempty : rest ≠ [] := by
        rintro rfl
        cases restHead
      refine ⟨rfl, ?_, ?_, ?_, ?_, ?_⟩
      · rw [List.length_cons, spells.length]
      · rw [List.reverse_cons, List.map_append, spells.symbols,
          List.take_add_one (i := count + 1), List.map_append,
          List.getElem?_drop]
        congr 1
        rw [show base + (count + 1) = base + count + 1 by omega] at isSymbol
        simp only [List.map_cons, List.map_nil, isOwn]
        rw [show base + (count + 1) = base + count + 1 by omega, isSymbol]
        rfl
      · refine List.isChain_cons.mpr ⟨?_, spells.chain⟩
        intro first isFirst
        rw [restHead] at isFirst
        cases isFirst
        exact ⟨child, nextFits.holds, below⟩
      · intro last isLast
        rw [List.getLast?_cons_of_ne_nil restNonempty] at isLast
        intro under isUnder
        obtain ⟨bottomItem, bottomBefore⟩ :=
          spells.bottom last isLast under isUnder
        have earlier := before childWord isChildWord
        exact ⟨bottomItem, fun some isSome =>
          Nat.lt_trans (bottomBefore some isSome) earlier⟩
      · intro last isLast
        rw [List.getLast?_cons_of_ne_nil restNonempty] at isLast
        exact spells.begun last isLast

end GraphStack

end SpanForest
