import Mathlib.Data.List.Lex
import SpanForest.Proofs.Stack.Building

namespace SpanForest

/-!
# Walking the paths of a stack

Paths can be asked for one at a time. A walk goes down and up the stack with a
cursor for every node of the path on which it stands; a cursor says which child of
which child state to try next. Exhausting a walk yields every path once, in the
order of child positions: on every stack each node has its own place, whichever
nodes are marked as removed.
-/

/-- A walk over the paths of `length` nodes. -/
structure PathWalk where
  length : Nat
  /-- The state node through which the first hop must lead. -/
  via : Option StateNodeId
  /-- Whether no path was asked for yet. -/
  fresh : Bool
  /-- The nodes of the path on which the walk stands, the lowest first. -/
  nodes : List SymbolNodeId
  /-- For every node, the child state and the child of it to be tried next. -/
  cursors : List (Nat × Nat)
  deriving Repr, DecidableEq

namespace GraphStack

/-- The first live node from a position on, and the position behind it. -/
def nextLive
    (stack : GraphStack)
    (children : List SymbolNodeId)
    (position : Nat) :
    Option (SymbolNodeId × Nat) :=
  if inside : position < children.length then
    if (stack.symbolNode children[position]).removed then
      stack.nextLive children (position + 1)
    else
      some (children[position], position + 1)
  else
    none
termination_by children.length - position

/-- Whether a hop may lead through a state node. -/
def admits (stack : GraphStack) (via : Option StateNodeId) (state : StateNodeId) : Bool :=
  via.all (· == state) && !(stack.stateNode state).removed

/-- The first live child of a state node from a position on, if a hop may lead there. -/
def nextHeld
    (stack : GraphStack)
    (via : Option StateNodeId)
    (state : StateNodeId)
    (position : Nat) :
    Option (SymbolNodeId × Nat) :=
  if stack.admits via state then
    stack.nextLive (stack.stateNode state).children position
  else
    none

/-- The next live node below some child states, and the cursor behind it. -/
def nextChild
    (stack : GraphStack)
    (states : List StateNodeId)
    (via : Option StateNodeId)
    (cursor : Nat × Nat) :
    Option (SymbolNodeId × Nat × Nat) :=
  if inside : cursor.1 < states.length then
    match stack.nextHeld via states[cursor.1] cursor.2 with
    | some (child, position) => some (child, cursor.1, position)
    | none => stack.nextChild states via (cursor.1 + 1, 0)
  else
    none
termination_by states.length - cursor.1

end GraphStack

namespace PathWalk

/-- The walk over the paths that begin with `anchor`. -/
def start
    (anchor : SymbolNodeId)
    (length : Nat)
    (via : Option StateNodeId) :
    PathWalk :=
  ⟨length, via, true, [anchor], [(0, 0)]⟩

/-- The walk one node further up. -/
def up (walk : PathWalk) : PathWalk :=
  { walk with nodes := walk.nodes.tail, cursors := walk.cursors.tail }

/-- What one round of the search for the next path comes to. -/
inductive Round where
  | descended (walk : PathWalk)
  | ascended (walk : PathWalk)
  | exhausted

/-- Go down to the next child of the lowest node, or up if it has no more. -/
def round (stack : GraphStack) (walk : PathWalk) : Round :=
  match walk.nodes, walk.cursors with
  | node :: nodes, cursor :: cursors =>
      let via := if nodes.isEmpty then walk.via else none
      match stack.nextChild (stack.symbolNode node).children via cursor with
      | some (child, moved) =>
          .descended
            { walk with
              nodes := child :: node :: nodes
              cursors := (0, 0) :: moved :: cursors }
      | none => .ascended walk.up
  | _, _ => .exhausted

/-- Rounds are made until the path is long enough, or until none is left. -/
inductive Searches
    (stack : GraphStack) :
    PathWalk → Option (List SymbolNodeId × PathWalk) → Prop where
  | found {walk below : PathWalk} :
      walk.round stack = .descended below →
      below.nodes.length = below.length →
      Searches stack walk (some (below.nodes.reverse, below))
  | descended
      {walk below : PathWalk}
      {result : Option (List SymbolNodeId × PathWalk)} :
      walk.round stack = .descended below →
      below.nodes.length ≠ below.length →
      Searches stack below result →
      Searches stack walk result
  | ascended
      {walk above : PathWalk}
      {result : Option (List SymbolNodeId × PathWalk)} :
      walk.round stack = .ascended above →
      Searches stack above result →
      Searches stack walk result
  | exhausted {walk : PathWalk} :
      walk.round stack = .exhausted →
      Searches stack walk none

/--
Asking for the next path.

The anchor alone is a path if no more nodes are wanted. A walk that yielded a path
before goes on above its end.
-/
inductive Next
    (stack : GraphStack) :
    PathWalk → Option (List SymbolNodeId × PathWalk) → Prop where
  | anchor {walk : PathWalk} :
      walk.fresh = true →
      walk.nodes.length = walk.length →
      Next stack walk
        (some (walk.nodes.reverse, { walk with fresh := false }))
  | begin
      {walk : PathWalk}
      {result : Option (List SymbolNodeId × PathWalk)} :
      walk.fresh = true →
      walk.nodes.length ≠ walk.length →
      Searches stack { walk with fresh := false } result →
      Next stack walk result
  | resume
      {walk : PathWalk}
      {result : Option (List SymbolNodeId × PathWalk)} :
      walk.fresh = false →
      Searches stack walk.up result →
      Next stack walk result

/-- A walk that is asked for paths until it has none yields these. -/
inductive Exhausts
    (stack : GraphStack) :
    PathWalk → List (List SymbolNodeId) → Prop where
  | done {walk : PathWalk} :
      Next stack walk none →
      Exhausts stack walk []
  | yields
      {walk later : PathWalk}
      {path : List SymbolNodeId}
      {paths : List (List SymbolNodeId)} :
      Next stack walk (some (path, later)) →
      Exhausts stack later paths →
      Exhausts stack walk (path :: paths)

section Determined

variable {stack : GraphStack} {walk : PathWalk}
variable {left right : Option (List SymbolNodeId × PathWalk)}

/-- A search comes to one end. -/
theorem Searches.unique
    (first : Searches stack walk left)
    (second : Searches stack walk right) :
    left = right := by
  induction first with
  | found isRound long =>
      cases second <;> simp_all
  | descended isRound short _ inductionHypothesis =>
      cases second <;> simp_all
  | ascended isRound _ inductionHypothesis =>
      cases second <;> simp_all
  | exhausted isRound =>
      cases second <;> simp_all

theorem Next.unique
    (first : Next stack walk left)
    (second : Next stack walk right) :
    left = right := by
  cases first with
  | anchor fresh long =>
      cases second <;> simp_all
  | begin fresh short searches =>
      cases second with
      | anchor _ long => exact absurd long short
      | begin _ _ others => exact searches.unique others
      | resume stale => simp_all
  | resume stale searches =>
      cases second with
      | anchor fresh => simp_all
      | begin fresh => simp_all
      | resume _ others => exact searches.unique others

/-- A walk yields one list of paths. -/
theorem Exhausts.unique
    {paths others : List (List SymbolNodeId)}
    (first : Exhausts stack walk paths)
    (second : Exhausts stack walk others) :
    paths = others := by
  induction first generalizing others with
  | done noMore =>
      cases second with
      | done => rfl
      | yields isNext => cases noMore.unique isNext
  | yields isNext _ inductionHypothesis =>
      cases second with
      | done noMore => cases isNext.unique noMore
      | yields isOther rest =>
          cases isNext.unique isOther
          rw [inductionHypothesis rest]

end Determined

end PathWalk

namespace GraphStack

section Children

variable {stack : GraphStack} {via : Option StateNodeId}

/-- The live children of a state node from a position on, if a hop may lead there. -/
def entered
    (stack : GraphStack)
    (via : Option StateNodeId)
    (state : StateNodeId)
    (position : Nat) :
    List SymbolNodeId :=
  if stack.admits via state then
    ((stack.stateNode state).children.drop position).filter fun child =>
      !(stack.symbolNode child).removed
  else
    []

/-- The nodes to which a cursor over some child states still leads. -/
def ahead
    (stack : GraphStack)
    (states : List StateNodeId)
    (via : Option StateNodeId)
    (cursor : Nat × Nat) :
    List SymbolNodeId :=
  match states.drop cursor.1 with
  | [] => []
  | state :: rest =>
      stack.entered via state cursor.2 ++ rest.flatMap (stack.entered via · 0)

/-- Trying positions one after the other finds the first live node. -/
theorem nextLive_spec
    (children : List SymbolNodeId)
    (position : Nat) :
    match stack.nextLive children position with
    | none =>
        (children.drop position).filter
          (fun child => !(stack.symbolNode child).removed) = []
    | some (child, behind) =>
        (children.drop position).filter
            (fun child => !(stack.symbolNode child).removed) =
          child :: (children.drop behind).filter
            (fun child => !(stack.symbolNode child).removed) := by
  induction position using nextLive.induct stack children with
  | case1 position inside isRemoved inductionHypothesis =>
      rw [nextLive, dif_pos inside, if_pos isRemoved,
        List.drop_eq_getElem_cons inside, List.filter_cons, isRemoved]
      exact inductionHypothesis
  | case2 position inside isLive =>
      rw [nextLive, dif_pos inside, if_neg isLive]
      simp only [List.drop_eq_getElem_cons inside, List.filter_cons,
        Bool.eq_false_iff.mpr isLive, Bool.not_false, if_true]
  | case3 position outside =>
      rw [nextLive, dif_neg outside]
      simp [List.drop_eq_nil_of_le (Nat.le_of_not_lt outside)]

theorem nextHeld_spec
    (state : StateNodeId)
    (position : Nat) :
    match stack.nextHeld via state position with
    | none => stack.entered via state position = []
    | some (child, behind) =>
        stack.entered via state position =
          child :: stack.entered via state behind := by
  unfold nextHeld entered
  cases stack.admits via state with
  | true => exact nextLive_spec _ _
  | false => rfl

/-- From the first child of a state node on, all its live children are ahead. -/
theorem ahead_zero
    (states : List StateNodeId)
    (position : Nat) :
    stack.ahead states via (position, 0) =
      (states.drop position).flatMap (stack.entered via · 0) := by
  unfold ahead
  cases states.drop position with
  | nil => rfl
  | cons state rest => rfl

/-- Moving the cursor takes the next node off those that are ahead. -/
theorem nextChild_spec
    (states : List StateNodeId)
    (cursor : Nat × Nat) :
    match stack.nextChild states via cursor with
    | none => stack.ahead states via cursor = []
    | some (child, moved) =>
        stack.ahead states via cursor = child :: stack.ahead states via moved := by
  induction cursor using nextChild.induct stack states via with
  | case1 cursor inside child position isNext =>
      have held := @nextHeld_spec stack via states[cursor.1] cursor.2
      rw [isNext] at held
      rw [nextChild, dif_pos inside, isNext]
      simp only [ahead, List.drop_eq_getElem_cons inside, held,
        List.cons_append]
  | case2 cursor inside noNext inductionHypothesis =>
      have held := @nextHeld_spec stack via states[cursor.1] cursor.2
      rw [noNext] at held
      have moved : stack.ahead states via cursor =
          stack.ahead states via (cursor.1 + 1, 0) := by
        rw [ahead_zero]
        simp only [ahead, List.drop_eq_getElem_cons inside, held,
          List.nil_append]
      rw [nextChild, dif_pos inside, noNext, moved]
      exact inductionHypothesis
  | case3 cursor outside =>
      rw [nextChild, dif_neg outside]
      simp only [ahead, List.drop_eq_nil_of_le (Nat.le_of_not_lt outside)]

theorem nextChild_eq_none
    {states : List StateNodeId}
    {cursor : Nat × Nat}
    (isAhead : stack.ahead states via cursor = []) :
    stack.nextChild states via cursor = none := by
  have moves := @nextChild_spec stack via states cursor
  split at moves
  · assumption
  · rw [isAhead] at moves
    cases moves

theorem nextChild_eq_some
    {states : List StateNodeId}
    {cursor : Nat × Nat}
    {child : SymbolNodeId}
    {rest : List SymbolNodeId}
    (isAhead : stack.ahead states via cursor = child :: rest) :
    ∃ moved, stack.nextChild states via cursor = some (child, moved) ∧
      stack.ahead states via moved = rest := by
  have moves := @nextChild_spec stack via states cursor
  split at moves
  · rw [isAhead] at moves
    cases moves
  · rename_i next moved isNext
    obtain ⟨rfl, rfl⟩ := List.cons.inj (isAhead.symm.trans moves)
    exact ⟨moved, isNext, rfl⟩

/-- The nodes one hop below an anchor. -/
def nodesThrough
    (stack : GraphStack)
    (via : Option StateNodeId)
    (anchor : SymbolNodeId) :
    List SymbolNodeId :=
  stack.ahead (stack.symbolNode anchor).children via (0, 0)

theorem nodesThrough_none (anchor : SymbolNodeId) :
    stack.nodesThrough none anchor = stack.nodesBelow anchor := by
  rw [nodesThrough, ahead_zero, List.drop_zero, nodesBelow]
  congr 1
  funext state
  simp only [entered, admits, liveChildren, List.drop_zero]
  cases (stack.stateNode state).removed <;> rfl

theorem nodesThrough_some (anchor : SymbolNodeId) (only : StateNodeId) :
    stack.nodesThrough (some only) anchor = stack.nodesVia anchor only := by
  rw [nodesThrough, ahead_zero, List.drop_zero, nodesVia]
  induction (stack.symbolNode anchor).children with
  | nil => rfl
  | cons state rest inductionHypothesis =>
      rw [List.flatMap_cons, inductionHypothesis, List.filter_cons]
      by_cases same : state = only
      · subst same
        cases isRemoved : (stack.stateNode state).removed <;>
          simp [entered, admits, liveChildren, isRemoved]
      · simp [same, Ne.symm same, entered, admits]

/-- A longer path goes on from a node one hop below its anchor. -/
theorem paths_succ_succ
    (anchor : SymbolNodeId)
    (count : Nat) :
    stack.paths anchor (count + 2) via =
      (stack.nodesThrough via anchor).flatMap fun next =>
        (stack.pathsBelow count next).map (anchor :: ·) := by
  cases via with
  | none => rw [nodesThrough_none]; rfl
  | some only => rw [nodesThrough_some]; rfl

theorem paths_one (anchor : SymbolNodeId) :
    stack.paths anchor 1 via = [[anchor]] := by
  cases via <;> rfl

end Children

end GraphStack

namespace PathWalk

section Search

variable {stack : GraphStack} {length : Nat} {via : Option StateNodeId}

/--
The paths that a walk comes upon from where it stands.

A node is left again when the path that ends in it was found.
-/
inductive Finds
    (stack : GraphStack)
    (length : Nat)
    (via : Option StateNodeId) :
    List SymbolNodeId → List (Nat × Nat) → List (List SymbolNodeId) → Prop where
  | exhausted : Finds stack length via [] [] []
  | ascended
      {node : SymbolNodeId}
      {nodes : List SymbolNodeId}
      {cursor : Nat × Nat}
      {cursors : List (Nat × Nat)}
      {paths : List (List SymbolNodeId)} :
      stack.nextChild (stack.symbolNode node).children
        (if nodes.isEmpty then via else none) cursor = none →
      Finds stack length via nodes cursors paths →
      Finds stack length via (node :: nodes) (cursor :: cursors) paths
  | found
      {node child : SymbolNodeId}
      {nodes : List SymbolNodeId}
      {cursor moved : Nat × Nat}
      {cursors : List (Nat × Nat)}
      {paths : List (List SymbolNodeId)} :
      stack.nextChild (stack.symbolNode node).children
        (if nodes.isEmpty then via else none) cursor = some (child, moved) →
      nodes.length + 2 = length →
      Finds stack length via (node :: nodes) (moved :: cursors) paths →
      Finds stack length via (node :: nodes) (cursor :: cursors)
        ((child :: node :: nodes).reverse :: paths)
  | descended
      {node child : SymbolNodeId}
      {nodes : List SymbolNodeId}
      {cursor moved : Nat × Nat}
      {cursors : List (Nat × Nat)}
      {paths : List (List SymbolNodeId)} :
      stack.nextChild (stack.symbolNode node).children
        (if nodes.isEmpty then via else none) cursor = some (child, moved) →
      nodes.length + 2 ≠ length →
      Finds stack length via (child :: node :: nodes)
        ((0, 0) :: moved :: cursors) paths →
      Finds stack length via (node :: nodes) (cursor :: cursors) paths

/-- A node contributes what each of the nodes ahead of its cursor contributes. -/
theorem Finds.children
    {node : SymbolNodeId}
    {nodes : List SymbolNodeId}
    {cursor : Nat × Nat}
    {cursors : List (Nat × Nat)}
    {paths : List (List SymbolNodeId)}
    {part : SymbolNodeId → List (List SymbolNodeId)}
    (above : Finds stack length via nodes cursors paths)
    (each : ∀ child cursor moved later,
      stack.nextChild (stack.symbolNode node).children
        (if nodes.isEmpty then via else none) cursor = some (child, moved) →
      Finds stack length via (node :: nodes) (moved :: cursors) later →
      Finds stack length via (node :: nodes) (cursor :: cursors)
        (part child ++ later)) :
    Finds stack length via (node :: nodes) (cursor :: cursors)
      ((stack.ahead (stack.symbolNode node).children
        (if nodes.isEmpty then via else none) cursor).flatMap part ++ paths) := by
  generalize isAhead : stack.ahead (stack.symbolNode node).children
    (if nodes.isEmpty then via else none) cursor = ahead
  induction ahead generalizing cursor with
  | nil => exact .ascended (GraphStack.nextChild_eq_none isAhead) above
  | cons child rest inductionHypothesis =>
      obtain ⟨moved, isNext, isRest⟩ := GraphStack.nextChild_eq_some isAhead
      rw [List.flatMap_cons, List.append_assoc]
      exact each child cursor moved _ isNext (inductionHypothesis isRest)

/-- A node contributes the paths through the nodes ahead of its cursor. -/
theorem Finds.node
    {count : Nat}
    {node : SymbolNodeId}
    {nodes : List SymbolNodeId}
    {cursor : Nat × Nat}
    {cursors : List (Nat × Nat)}
    {paths : List (List SymbolNodeId)}
    (above : Finds stack length via nodes cursors paths)
    (size : nodes.length + count + 2 = length) :
    Finds stack length via (node :: nodes) (cursor :: cursors)
      ((stack.ahead (stack.symbolNode node).children
          (if nodes.isEmpty then via else none) cursor).flatMap
        (fun next => (stack.pathsBelow count next).map
          ((node :: nodes).reverse ++ ·)) ++ paths) := by
  induction count generalizing node nodes cursor cursors paths with
  | zero =>
      refine above.children fun child cursor moved later isNext rest => ?_
      simpa [GraphStack.pathsBelow] using Finds.found isNext size rest
  | succ count inductionHypothesis =>
      refine above.children fun child cursor moved later isNext rest => ?_
      refine .descended isNext (by omega) ?_
      have below := @inductionHypothesis child (node :: nodes) (0, 0)
        (moved :: cursors) _ rest (by simp only [List.length_cons]; omega)
      simpa [GraphStack.pathsBelow, ← GraphStack.nodesThrough_none,
        GraphStack.nodesThrough, List.map_flatMap, Function.comp_def] using below

/-- Whether a search ends with the first of these paths and leaves the others. -/
def Leaves
    (stack : GraphStack)
    (length : Nat)
    (via : Option StateNodeId) :
    Option (List SymbolNodeId × PathWalk) → List (List SymbolNodeId) → Prop
  | none, paths => paths = []
  | some (path, below), paths =>
      ∃ rest, paths = path :: rest ∧ below.length = length ∧ below.via = via ∧
        below.fresh = false ∧
        Finds stack length via below.up.nodes below.up.cursors rest

/-- The search from where a walk stands. -/
theorem Finds.searches
    {nodes : List SymbolNodeId}
    {cursors : List (Nat × Nat)}
    {paths : List (List SymbolNodeId)}
    (finds : Finds stack length via nodes cursors paths) :
    ∃ result, Searches stack ⟨length, via, false, nodes, cursors⟩ result ∧
      Leaves stack length via result paths := by
  induction finds with
  | exhausted => exact ⟨none, .exhausted rfl, rfl⟩
  | @ascended node nodes cursor cursors paths noNext _ inductionHypothesis =>
      obtain ⟨result, searches, leaves⟩ := inductionHypothesis
      refine ⟨result, .ascended ?_ searches, leaves⟩
      simp only [round, noNext, up, List.tail_cons]
  | @found node child nodes cursor moved cursors paths isNext size rest =>
      refine ⟨some (_, ⟨length, via, false, child :: node :: nodes,
        (0, 0) :: moved :: cursors⟩), .found ?_ size, paths, rfl, rfl, rfl, rfl, rest⟩
      simp only [round, isNext]
  | @descended node child nodes cursor moved cursors paths isNext short _
      inductionHypothesis =>
      obtain ⟨result, searches, leaves⟩ := inductionHypothesis
      have isRound : round stack ⟨length, via, false, node :: nodes, cursor :: cursors⟩ =
          .descended ⟨length, via, false, child :: node :: nodes,
            (0, 0) :: moved :: cursors⟩ := by
        simp only [round, isNext]
      exact ⟨result, .descended isRound short searches, leaves⟩

/-- A walk whose next path is the first of these yields them all. -/
theorem Leaves.exhausts
    {walk : PathWalk}
    {result : Option (List SymbolNodeId × PathWalk)}
    {paths : List (List SymbolNodeId)}
    (isNext : Next stack walk result)
    (leaves : Leaves stack length via result paths) :
    Exhausts stack walk paths := by
  induction paths generalizing walk result with
  | nil =>
      cases result with
      | none => exact .done isNext
      | some found =>
          obtain ⟨rest, impossible, -⟩ := leaves
          cases impossible
  | cons path rest inductionHypothesis =>
      cases result with
      | none => cases leaves
      | some found =>
          obtain ⟨rest, isPath, rfl, rfl, stale, later⟩ := leaves
          cases isPath
          obtain ⟨result, searches, laterLeaves⟩ := later.searches
          rw [← stale] at searches
          exact .yields isNext
            (inductionHypothesis (.resume stale searches) laterLeaves)

/-- Asking for paths until there are none yields all of them, one after the other. -/
theorem exhausts_start
    (stack : GraphStack)
    (anchor : SymbolNodeId)
    (count : Nat)
    (via : Option StateNodeId) :
    Exhausts stack (start anchor (count + 1) via)
      (stack.paths anchor (count + 1) via) := by
  cases count with
  | zero =>
      rw [GraphStack.paths_one]
      exact Leaves.exhausts (.anchor rfl rfl) ⟨[], rfl, rfl, rfl, rfl, .exhausted⟩
  | succ count =>
      obtain ⟨result, searches, leaves⟩ :=
        (@Finds.node stack (count + 2) via count anchor [] (0, 0) [] [] .exhausted
          (by simp)).searches
      rw [List.append_nil] at leaves
      rw [GraphStack.paths_succ_succ]
      exact leaves.exhausts (.begin rfl (by simp [start]) searches)

end Search

end PathWalk

namespace GraphStack

section Order

variable {stack : GraphStack} {via : Option StateNodeId}

/--
A hop from a node to a live node below it.

The position names the child state through which it leads, and the child of that.
-/
def Hop
    (stack : GraphStack)
    (via : Option StateNodeId)
    (anchor : SymbolNodeId)
    (position : Nat × Nat)
    (next : SymbolNodeId) : Prop :=
  ∃ state : StateNodeId,
    (stack.symbolNode anchor).children[position.1]? = some state ∧
      (∀ only ∈ via, state = only) ∧
      (stack.stateNode state).removed = false ∧
      (stack.stateNode state).children[position.2]? = some next ∧
      (stack.symbolNode next).removed = false

/-- A path from an anchor, with the positions of its hops. -/
inductive PathAt
    (stack : GraphStack) :
    Option StateNodeId → SymbolNodeId → List (Nat × Nat) → List SymbolNodeId → Prop
    where
  | last {via : Option StateNodeId} {anchor : SymbolNodeId} :
      PathAt stack via anchor [] [anchor]
  | hop
      {via : Option StateNodeId}
      {anchor next : SymbolNodeId}
      {position : Nat × Nat}
      {positions : List (Nat × Nat)}
      {path : List SymbolNodeId} :
      stack.Hop via anchor position next →
      PathAt stack none next positions path →
      PathAt stack via anchor (position :: positions) (anchor :: path)

/-- A node is one hop below another. -/
theorem mem_nodesThrough
    {anchor next : SymbolNodeId} :
    next ∈ stack.nodesThrough via anchor ↔
      ∃ position, stack.Hop via anchor position next := by
  rw [nodesThrough, ahead_zero, List.drop_zero, List.mem_flatMap]
  constructor
  · rintro ⟨state, isState, isNext⟩
    obtain ⟨upper, isUpper⟩ := List.mem_iff_getElem?.mp isState
    unfold entered at isNext
    split at isNext
    · rename_i admitted
      obtain ⟨isChild, isLive⟩ := List.mem_filter.mp isNext
      obtain ⟨lower, isLower⟩ := List.mem_iff_getElem?.mp isChild
      simp only [admits, Bool.and_eq_true, Bool.not_eq_true'] at admitted
      refine ⟨(upper, lower), state, isUpper, ?_, admitted.2, isLower,
        by simpa using isLive⟩
      rintro only isOnly
      rw [Option.mem_def.mp isOnly, Option.all_some] at admitted
      exact (eq_of_beq admitted.1).symm
    · cases isNext
  · rintro ⟨⟨upper, lower⟩, state, isUpper, isVia, isLive, isLower, nextLive⟩
    refine ⟨state, List.mem_of_getElem? isUpper, ?_⟩
    have admitted : stack.admits via state = true := by
      cases via with
      | none => simp [admits, isLive]
      | some only =>
          obtain rfl := isVia only rfl
          simp [admits, isLive]
    rw [entered, if_pos admitted, List.drop_zero]
    exact List.mem_filter.mpr
      ⟨List.mem_of_getElem? isLower, by simp [nextLive]⟩

/-- The paths are the chains of hops. -/
theorem mem_paths_iff
    {anchor : SymbolNodeId}
    {count : Nat}
    {path : List SymbolNodeId} :
    path ∈ stack.paths anchor (count + 1) via ↔
      ∃ positions, positions.length = count ∧
        stack.PathAt via anchor positions path := by
  induction count generalizing via anchor path with
  | zero =>
      rw [paths_one, List.mem_singleton]
      constructor
      · rintro rfl
        exact ⟨[], rfl, .last⟩
      · rintro ⟨positions, isEmpty, isPath⟩
        obtain rfl := List.length_eq_zero_iff.mp isEmpty
        cases isPath
        rfl
  | succ count inductionHypothesis =>
      rw [paths_succ_succ, List.mem_flatMap]
      constructor
      · rintro ⟨next, isNext, isPath⟩
        obtain ⟨rest, isRest, rfl⟩ := List.mem_map.mp isPath
        obtain ⟨position, hop⟩ := mem_nodesThrough.mp isNext
        obtain ⟨positions, size, pathAt⟩ :=
          (@inductionHypothesis none next rest).mp isRest
        exact ⟨position :: positions, congrArg (· + 1) size, .hop hop pathAt⟩
      · rintro ⟨positions, size, pathAt⟩
        cases pathAt with
        | last => cases size
        | hop hop pathAt =>
            refine ⟨_, mem_nodesThrough.mpr ⟨_, hop⟩, List.mem_map_of_mem ?_⟩
            exact (@inductionHypothesis none _ _).mpr
              ⟨_, Nat.succ.inj size, pathAt⟩

/-- In a list without repetitions an item has one position. -/
theorem eq_of_getElem?_nodup
    {α : Type}
    {items : List α}
    {item : α}
    {left right : Nat}
    (distinct : items.Nodup)
    (isLeft : items[left]? = some item)
    (isRight : items[right]? = some item) :
    left = right :=
  (List.getElem?_inj (List.getElem?_eq_some_iff.mp isLeft).1 distinct).mp
    (isLeft.trans isRight.symm)

/-- In a list without repetitions items are in the order of their positions. -/
theorem pairwise_getElem?_lt
    {α : Type}
    {items : List α}
    (distinct : items.Nodup) :
    items.Pairwise fun first second => ∀ left right : Nat,
      items[left]? = some first → items[right]? = some second → left < right := by
  refine List.pairwise_iff_getElem.mpr fun first second firstInside secondInside
    before left right isLeft isRight => ?_
  have sameLeft := eq_of_getElem?_nodup distinct isLeft
    (List.getElem?_eq_getElem firstInside)
  have sameRight := eq_of_getElem?_nodup distinct isRight
    (List.getElem?_eq_getElem secondInside)
  rw [sameLeft, sameRight]
  exact before

/-- Positions are compared by the child state first. -/
def Earlier (left right : Nat × Nat) : Prop :=
  Prod.Lex (· < ·) (· < ·) left right

/-- A hop leads through the holder of the node to which it leads. -/
theorem HeldOnce.hop_through
    (heldOnce : stack.HeldOnce)
    {anchor next : SymbolNodeId}
    {position : Nat × Nat}
    {state : StateNodeId}
    (hop : stack.Hop via anchor position next)
    (isHolder : next ∈ (stack.stateNode state).children) :
    (stack.symbolNode anchor).children[position.1]? = some state ∧
      (stack.stateNode state).children[position.2]? = some next := by
  obtain ⟨through, isUpper, -, -, isLower, -⟩ := hop
  obtain rfl := heldOnce.holder through state next
    (List.mem_of_getElem? isLower) isHolder
  exact ⟨isUpper, isLower⟩

/-- A node is one hop below another in one way at most. -/
theorem HeldOnce.hop_unique
    (heldOnce : stack.HeldOnce)
    {anchor next : SymbolNodeId}
    {left right : Nat × Nat}
    (isLeft : stack.Hop via anchor left next)
    (isRight : stack.Hop via anchor right next) :
    left = right := by
  obtain ⟨state, leftUpper, -, -, leftLower, -⟩ := isLeft
  obtain ⟨rightUpper, rightLower⟩ :=
    heldOnce.hop_through isRight (List.mem_of_getElem? leftLower)
  exact Prod.ext
    (eq_of_getElem?_nodup (heldOnce.linked anchor) leftUpper rightUpper)
    (eq_of_getElem?_nodup (heldOnce.held state) leftLower rightLower)

/-- The nodes one hop below are in the order of their positions. -/
theorem HeldOnce.pairwise_nodesThrough
    (heldOnce : stack.HeldOnce)
    (anchor : SymbolNodeId) :
    (stack.nodesThrough via anchor).Pairwise fun first second =>
      ∀ left right, stack.Hop via anchor left first →
        stack.Hop via anchor right second → Earlier left right := by
  have sublist : ∀ state : Nat,
      (stack.entered via state 0).Sublist (stack.stateNode state).children := by
    intro state
    unfold entered
    split
    · exact List.filter_sublist
    · exact List.nil_sublist _
  rw [nodesThrough, ahead_zero, List.drop_zero, List.pairwise_flatMap]
  constructor
  case left =>
    intro state _
    refine ((pairwise_getElem?_lt (heldOnce.held state)).sublist
      (sublist state)).imp_of_mem ?_
    intro first second isFirst isSecond before left right leftHop rightHop
    obtain ⟨leftUpper, leftLower⟩ :=
      heldOnce.hop_through leftHop ((sublist state).mem isFirst)
    obtain ⟨rightUpper, rightLower⟩ :=
      heldOnce.hop_through rightHop ((sublist state).mem isSecond)
    have sameUpper :=
      eq_of_getElem?_nodup (heldOnce.linked anchor) leftUpper rightUpper
    exact Prod.lex_def.mpr
      (.inr ⟨sameUpper, before left.2 right.2 leftLower rightLower⟩)
  case right =>
    refine (pairwise_getElem?_lt (heldOnce.linked anchor)).imp ?_
    intro upper lower before first isFirst second isSecond left right leftHop rightHop
    have leftUpper := (heldOnce.hop_through leftHop ((sublist upper).mem isFirst)).1
    have rightUpper := (heldOnce.hop_through rightHop ((sublist lower).mem isSecond)).1
    exact Prod.lex_def.mpr (.inl (before left.1 right.1 leftUpper rightUpper))

/-- A path begins with its anchor. -/
theorem PathAt.eq_cons
    {anchor first : SymbolNodeId}
    {positions : List (Nat × Nat)}
    {rest : List SymbolNodeId}
    (pathAt : stack.PathAt via anchor positions (first :: rest)) :
    first = anchor := by
  cases pathAt <;> rfl

/-- Paths are in the lexicographic order of the positions of their hops. -/
theorem HeldOnce.pairwise_paths
    (heldOnce : stack.HeldOnce)
    (anchor : SymbolNodeId)
    (count : Nat) :
    (stack.paths anchor (count + 1) via).Pairwise fun first second =>
      ∀ left right, stack.PathAt via anchor left first →
        stack.PathAt via anchor right second → List.Lex Earlier left right := by
  induction count generalizing via anchor with
  | zero =>
      rw [paths_one]
      exact List.pairwise_singleton _ _
  | succ count inductionHypothesis =>
      have starts : ∀ {next : SymbolNodeId} {rest : List SymbolNodeId},
          rest ∈ stack.pathsBelow count next → ∃ others, rest = next :: others := by
        intro next rest isRest
        obtain ⟨positions, -, pathAt⟩ :=
          (@mem_paths_iff stack none next count rest).mp isRest
        cases pathAt <;> exact ⟨_, rfl⟩
      rw [paths_succ_succ, List.pairwise_flatMap]
      constructor
      case left =>
        intro next _
        rw [List.pairwise_map]
        refine (@inductionHypothesis none next).imp_of_mem ?_
        intro first second isFirst isSecond before left right leftAt rightAt
        obtain ⟨firstRest, rfl⟩ := starts isFirst
        obtain ⟨secondRest, rfl⟩ := starts isSecond
        cases leftAt with
        | hop leftHop leftBelow =>
            cases rightAt with
            | hop rightHop rightBelow =>
                obtain rfl := leftBelow.eq_cons
                obtain rfl := rightBelow.eq_cons
                obtain rfl := heldOnce.hop_unique leftHop rightHop
                exact .cons (before _ _ leftBelow rightBelow)
      case right =>
        refine (heldOnce.pairwise_nodesThrough anchor).imp ?_
        intro upper lower before first isFirst second isSecond left right leftAt rightAt
        obtain ⟨firstRest, isFirstRest, rfl⟩ := List.mem_map.mp isFirst
        obtain ⟨secondRest, isSecondRest, rfl⟩ := List.mem_map.mp isSecond
        obtain ⟨_, rfl⟩ := starts isFirstRest
        obtain ⟨_, rfl⟩ := starts isSecondRest
        cases leftAt with
        | hop leftHop leftBelow =>
            cases rightAt with
            | hop rightHop rightBelow =>
                obtain rfl := leftBelow.eq_cons
                obtain rfl := rightBelow.eq_cons
                exact .rel (before _ _ leftHop rightHop)

/-- No position is earlier than itself. -/
theorem Earlier.ne
    {left right : Nat × Nat}
    (earlier : Earlier left right) :
    left ≠ right := by
  rintro rfl
  rcases Prod.lex_def.mp earlier with upper | ⟨-, lower⟩
  · exact Nat.lt_irrefl _ upper
  · exact Nat.lt_irrefl _ lower

/-- No path is listed twice. -/
theorem HeldOnce.nodup_paths
    (heldOnce : stack.HeldOnce)
    (anchor : SymbolNodeId)
    (count : Nat) :
    (stack.paths anchor (count + 1) via).Nodup := by
  refine (heldOnce.pairwise_paths anchor count).imp_of_mem ?_
  rintro first second isFirst - before rfl
  obtain ⟨positions, -, pathAt⟩ := mem_paths_iff.mp isFirst
  exact List.Lex.to_ne (List.Lex.imp (fun _ _ => Earlier.ne) _ _
    (before positions positions pathAt pathAt)) rfl

end Order

/-- Walking from an anchor yields its paths of some length, each once and in order. -/
structure WalksExactly
    (stack : GraphStack)
    (anchor : SymbolNodeId)
    (length : Nat)
    (via : Option StateNodeId) : Prop where
  /-- Asking for paths comes to an end, and there is one list that it can yield. -/
  exhausts :
    ∀ paths, PathWalk.Exhausts stack (.start anchor length via) paths ↔
      paths = stack.paths anchor length via
  /-- These are the chains of live nodes below live state nodes. -/
  mem_iff :
    ∀ path, path ∈ stack.paths anchor length via ↔
      ∃ positions, positions.length + 1 = length ∧
        stack.PathAt via anchor positions path
  nodup : (stack.paths anchor length via).Nodup
  /-- They come in the lexicographic order of child positions. -/
  ordered :
    (stack.paths anchor length via).Pairwise fun first second =>
      ∀ left right, stack.PathAt via anchor left first →
        stack.PathAt via anchor right second → List.Lex Earlier left right

/-- On every stack, walking yields the paths of a length, each once and in order. -/
theorem walksExactly_built
    (words : Nat)
    (start : StateId)
    (operations : List Operation)
    (anchor : SymbolNodeId)
    (count : Nat)
    (via : Option StateNodeId) :
    (built words start operations).WalksExactly anchor (count + 1) via := by
  have heldOnce := heldOnce_built words start operations
  generalize built words start operations = stack at heldOnce
  constructor
  case exhausts =>
    intro paths
    have exhausts := PathWalk.exhausts_start stack anchor count via
    exact ⟨fun others => others.unique exhausts, fun same => same ▸ exhausts⟩
  case mem_iff =>
    intro path
    simp only [Nat.add_right_cancel_iff]
    exact mem_paths_iff
  case nodup => exact heldOnce.nodup_paths anchor count
  case ordered => exact heldOnce.pairwise_paths anchor count

/-- Two symbols below one state are two paths; once one is removed, it is skipped. -/
example :
    let operations : List Operation :=
      [.addState 1 5, .addSymbol 1 0 (some 3) 0, .addSymbol 1 1 (some 3) 0,
        .addState 2 6, .addSymbol 2 2 (some 4) 1]
    (built 3 0 operations).paths 2 2 none = [[2, 0], [2, 1]] ∧
      (built 3 0 (operations ++ [.setSymbolRemoved 0 true])).paths 2 2 (some 1) =
        [[2, 1]] := by
  decide

end GraphStack

end SpanForest
