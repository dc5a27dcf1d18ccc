import SpanForest.Proofs.Parser.Placing

namespace SpanForest

/-!
# Extents

With a host that keeps extents, a symbol node stops before the word begins at which
it stands, and a node begins no earlier than the one stops that it lies on. So what
is produced from nodes reaches from the start of the first to the stop of the last,
and the nodes lie within it one behind the other.
-/

namespace Parser

variable {σ : Type} {host : Host σ}
variable {grammar : Grammar} {options : CompileOptions}
variable {parser : Parser}

/-- A symbol node whose span stops before the word begins at which the node stands. -/
structure Spread (parser : Parser) (node : Nat) : Prop where
  proper : (parser.spanOf node).start ≤ (parser.spanOf node).stop
  ends :
    ∀ own ahead, (parser.stack.symbolNode node).word = some own →
      parser.words[own]? = some ahead →
        (parser.spanOf node).stop ≤ ahead.start

/-- Nodes that lie one behind the other, from where a span starts to where it stops. -/
structure Covers
    (parser : Parser)
    (nodes : List SymbolNodeId)
    (span : Span) : Prop where
  first :
    ∃ first, nodes.head? = some first ∧ span.start = (parser.spanOf first).start
  last :
    ∃ last, nodes.getLast? = some last ∧ span.stop = (parser.spanOf last).stop
  apart :
    nodes.IsChain fun left right =>
      (parser.spanOf left).stop ≤ (parser.spanOf right).start

section Nodes

variable {nodes : List SymbolNodeId} {span : Span}

/-- Nodes that lie one behind the other lie between the first and the last. -/
theorem within_of_apart
    (apart : nodes.IsChain fun left right =>
      (parser.spanOf left).stop ≤ (parser.spanOf right).start)
    (proper : ∀ node ∈ nodes,
      (parser.spanOf node).start ≤ (parser.spanOf node).stop)
    {first last node : SymbolNodeId}
    (isFirst : nodes.head? = some first)
    (isLast : nodes.getLast? = some last)
    (member : node ∈ nodes) :
    (parser.spanOf first).start ≤ (parser.spanOf node).start ∧
      (parser.spanOf node).stop ≤ (parser.spanOf last).stop := by
  induction nodes generalizing first node with
  | nil => cases member
  | cons head rest inductionHypothesis =>
      obtain rfl := Option.some.inj isFirst
      have headProper := proper head List.mem_cons_self
      cases rest with
      | nil =>
          obtain rfl := List.mem_singleton.mp member
          obtain rfl := Option.some.inj isLast
          exact ⟨Nat.le_refl _, Nat.le_refl _⟩
      | cons second others =>
          obtain ⟨headApart, restApart⟩ := List.isChain_cons_cons.mp apart
          have within := fun other => @inductionHypothesis restApart
            (fun other member => proper other (List.mem_cons_of_mem _ member))
            second other rfl (by simpa using isLast)
          have secondProper := proper second
            (List.mem_cons_of_mem _ List.mem_cons_self)
          rcases List.mem_cons.mp member with rfl | inRest
          · refine ⟨Nat.le_refl _, ?_⟩
            calc
              (parser.spanOf node).stop ≤ (parser.spanOf second).start := headApart
              _ ≤ (parser.spanOf second).stop := secondProper
              _ ≤ (parser.spanOf last).stop :=
                (within second List.mem_cons_self).2
          · refine ⟨?_, (within node inRest).2⟩
            calc
              (parser.spanOf head).start ≤ (parser.spanOf head).stop := headProper
              _ ≤ (parser.spanOf second).start := headApart
              _ ≤ (parser.spanOf node).start := (within node inRest).1

/-- Nodes lie within what they cover. -/
theorem Covers.within
    (covers : parser.Covers nodes span)
    (proper : ∀ node ∈ nodes,
      (parser.spanOf node).start ≤ (parser.spanOf node).stop)
    {node : SymbolNodeId}
    (member : node ∈ nodes) :
    span.start ≤ (parser.spanOf node).start ∧
      (parser.spanOf node).stop ≤ span.stop := by
  obtain ⟨first, isFirst, isStart⟩ := covers.first
  obtain ⟨last, isLast, isStop⟩ := covers.last
  rw [isStart, isStop]
  exact within_of_apart covers.apart proper isFirst isLast member

/-- What is covered does not stop before it starts. -/
theorem Covers.proper
    (covers : parser.Covers nodes span)
    (proper : ∀ node ∈ nodes,
      (parser.spanOf node).start ≤ (parser.spanOf node).stop) :
    span.start ≤ span.stop := by
  obtain ⟨first, isFirst, -⟩ := covers.first
  have member := List.mem_of_head? isFirst
  obtain ⟨starts, stops⟩ := covers.within proper member
  exact Nat.le_trans starts (Nat.le_trans (proper first member) stops)

/-- What nodes cover depends on the extent of the span only. -/
theorem Covers.congr
    {other : Span}
    (covers : parser.Covers nodes span)
    (start : other.start = span.start)
    (stop : other.stop = span.stop) :
    parser.Covers nodes other where
  first := start ▸ covers.first
  last := stop ▸ covers.last
  apart := covers.apart

end Nodes

/-- What can be read does not stop before it starts. -/
theorem Readable.start_le_stop
    (sound : parser.Sound host grammar options)
    {id : Nat}
    {symbol : SymbolId}
    (readable : parser.Readable host id symbol) :
    (parser.spans.get id).start ≤ (parser.spans.get id).stop := by
  cases readable with
  | input member _ => exact sound.loaded.ordered.input_proper id member
  | synthesized synthesizes =>
      rw [SpanStore.get_of_get? synthesizes.stored]
      exact sound.loaded.ordered.input_proper _ synthesizes.from_input

/-- A node stops before the one starts that lies on it. -/
theorem Spread.stop_le_start
    (sound : parser.Sound host grammar options)
    (placed : parser.Placed)
    {lower upper : Nat}
    (spread : parser.Spread lower)
    (inside : upper < parser.stack.symbols.size)
    (linked : parser.stack.Linked lower upper) :
    (parser.spanOf lower).stop ≤ (parser.spanOf upper).start := by
  obtain ⟨first, placedAt⟩ := placed.nodes upper inside
  obtain ⟨ahead, isAhead, isStart⟩ := placedAt.opens
  obtain ⟨holder, holds, below⟩ := linked
  have held := (holds holder).mpr rfl
  have isWord := (sound.stack.fits_of_mem held).word
  rw [← isStart]
  cases isHolder : (parser.stack.stateNode holder).word with
  | none =>
      have isStartNode := sound.stack.only_start holder
        (sound.stack.fits_of_mem held).inside isHolder
      rw [isStartNode, sound.stack.start_children] at held
      cases held
  | some own =>
      obtain rfl := placedAt.rests holder below own isHolder
      exact spread.ends own ahead (isWord.trans isHolder) isAhead

/-- What a host produced from nodes is covered by them. -/
theorem Yields.covers
    (wellFormed : grammar.WellFormed)
    (keeps : host.KeepsExtent)
    (sound : parser.Sound host grammar options)
    (placed : parser.Placed)
    {derivation : Derivation}
    {at? : Option Nat}
    {id : Nat}
    (yields : parser.Yields host derivation at? id)
    (each : ∀ child ∈ derivation.children, parser.Spread child) :
    parser.Covers derivation.children (parser.spans.get id) := by
  have nonempty := yields.children_ne_nil wellFormed sound.loaded
  have isFirst := List.head?_eq_some_head nonempty
  have isLast := List.getLast?_eq_some_getLast nonempty
  have firstMember := List.head_mem nonempty
  generalize derivation.children.head nonempty = first at isFirst firstMember
  generalize derivation.children.getLast nonempty = last at isLast
  have apart : derivation.children.IsChain fun left right =>
      (parser.spanOf left).stop ≤ (parser.spanOf right).start :=
    yields.linked.imp_of_mem_imp fun left right isLeft isRight linked =>
      (each left isLeft).stop_le_start sound placed (yields.known right isRight)
        linked
  have proper : ∀ child ∈ derivation.children,
      (parser.spanOf child).start ≤ (parser.spanOf child).stop :=
    fun child member => (each child member).proper
  have firstSpan : (parser.spansOf derivation.children).head? =
      some (parser.stack.symbolNode first).span := by
    rw [spansOf, List.head?_map, isFirst]
    rfl
  have lastSpan : (parser.spansOf derivation.children).getLast? =
      some (parser.stack.symbolNode last).span := by
    rw [spansOf, List.getLast?_map, isLast]
    rfl
  obtain ⟨isStart, isStop⟩ := yields.accepted.extent keeps firstSpan lastSpan
  have forward : (parser.spanOf first).start ≤ (parser.spanOf last).stop :=
    Nat.le_trans (proper first firstMember)
      (within_of_apart apart proper isFirst isLast firstMember).2
  exact ⟨⟨first, isFirst, isStart⟩,
    ⟨last, isLast, isStop.trans (Nat.max_eq_left forward)⟩, apart⟩

section Spread

variable (wellFormed : grammar.WellFormed)
variable (keeps : host.KeepsExtent)
variable (sound : parser.Sound host grammar options)
variable (placed : parser.Placed)
include wellFormed keeps sound placed

/-- With a host that keeps extents, every symbol node stops before its word begins. -/
theorem Sound.spread
    {node : Nat}
    (inside : node < parser.stack.symbols.size) :
    parser.Spread node := by
  induction node using Nat.strong_induction_on with
  | _ node earlier =>
      obtain ⟨first, placedAt⟩ := placed.nodes node inside
      by_cases isShifted : parser.Shifted node
      · obtain ⟨-, symbol, -, readable⟩ :=
          (sound.forest node inside).shifted isShifted
        refine ⟨readable.start_le_stop sound, fun own ahead isOwn isAhead => ?_⟩
        rw [placedAt.ends isShifted] at isOwn
        obtain rfl := Option.some.inj isOwn
        exact le_start_nextWord isAhead
      · obtain ⟨derivation, -, yields, older⟩ :=
          (sound.forest node inside).born isShifted
        have each : ∀ child ∈ derivation.children, parser.Spread child :=
          fun child member =>
            earlier child (older child member) (yields.known child member)
        have covers := yields.covers wellFormed keeps sound placed each
        obtain ⟨last, isLast, isStop⟩ := covers.last
        have lastSpread := each last (List.mem_of_getLast? isLast)
        refine ⟨covers.proper fun child member => (each child member).proper,
          fun own ahead isOwn isAhead => ?_⟩
        rw [spanOf, isStop]
        exact lastSpread.ends own ahead ((yields.word last isLast).trans isOwn)
          isAhead

/-- What was produced from nodes is covered by them. -/
theorem Sound.covers_of_yields
    {derivation : Derivation}
    {at? : Option Nat}
    {id : Nat}
    (yields : parser.Yields host derivation at? id) :
    parser.Covers derivation.children (parser.spans.get id) :=
  yields.covers wellFormed keeps sound placed fun child member =>
    sound.spread wellFormed keeps placed (yields.known child member)

/-- The nodes from which a node can be derived cover it. -/
theorem Sound.covers
    {node : Nat}
    {derivation : Derivation}
    (member : derivation ∈ (parser.stack.symbolNode node).derivations) :
    parser.Covers derivation.children (parser.spanOf node) := by
  have inside := GraphStack.lt_size_of_mem_derivations member
  obtain ⟨id, yields, isSpan⟩ :=
    ((sound.forest node inside).justified derivation member).yielded
  have covers := sound.covers_of_yields wellFormed keeps placed yields
  rcases isSpan with rfl | equivalent
  · exact covers
  · simp only [Span.equivalent, Bool.and_eq_true, beq_iff_eq] at equivalent
    exact covers.congr equivalent.1.1.1.1.1 equivalent.1.1.1.1.2

/-- A node stops no earlier than the nodes from which it can be derived. -/
theorem Sound.child_stop_le
    {node : Nat}
    {derivation : Derivation}
    (member : derivation ∈ (parser.stack.symbolNode node).derivations)
    {child : SymbolNodeId}
    (isChild : child ∈ derivation.children) :
    (parser.spanOf child).stop ≤ (parser.spanOf node).stop := by
  have inside := GraphStack.lt_size_of_mem_derivations member
  obtain ⟨_, yields, -⟩ :=
    ((sound.forest node inside).justified derivation member).yielded
  exact ((sound.covers wellFormed keeps placed member).within
    (fun other isOther => (sound.spread wellFormed keeps placed
      (yields.known other isOther)).proper) isChild).2

end Spread

end Parser

end SpanForest
