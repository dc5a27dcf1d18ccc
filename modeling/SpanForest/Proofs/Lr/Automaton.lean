import Mathlib.Data.Fintype.BigOperators
import Mathlib.Data.Fintype.Pi
import Mathlib.Data.Finset.Option
import Mathlib.Data.List.Induction
import SpanForest.Proofs.Lr.Validity

namespace SpanForest

/-!
# The item automaton reads valid items

States are found one kernel after the other. Kernels are distinct lists of
distinct items, so the bound on their number is never met and the exploration
ends with one state for each kernel. From the start state a string of symbols
leads somewhere exactly if some item is valid for it, and then to the state
whose items are those valid for it.
-/

/-- There are few duplicate-free lists over a finite domain. -/
theorem length_le_of_nodup_lists
    {α : Type}
    [DecidableEq α]
    {domain : List α}
    {lists : List (List α)}
    (distinct : lists.Nodup)
    (within : ∀ list ∈ lists, list.Nodup ∧ list ⊆ domain) :
    lists.length ≤ (domain.length + 1) ^ domain.length := by
  let positions : Finset (Fin domain.length → Option α) :=
    Fintype.piFinset fun _ => Finset.insertNone domain.toFinset
  have entries :
      lists.toFinset.card ≤ positions.card := by
    refine Finset.card_le_card_of_injOn
      (fun list position => list[position.val]?) ?_ ?_
    · intro list member
      have listMember := within list (by simpa using member)
      refine Fintype.mem_piFinset.mpr fun position => ?_
      rw [Finset.mem_insertNone]
      intro item stored
      exact List.mem_toFinset.mpr
        (listMember.2 (List.mem_of_getElem? stored))
    · intro left leftMember right rightMember same
      have short : ∀ list : List α, list ∈ lists →
          list.length ≤ domain.length := fun list member =>
        (within list member).1.length_le_of_subset (within list member).2
      have leftShort := short left (by simpa using leftMember)
      have rightShort := short right (by simpa using rightMember)
      refine List.ext_getElem? fun position => ?_
      by_cases inside : position < domain.length
      · exact congrFun same ⟨position, inside⟩
      · rw [List.getElem?_eq_none (by omega),
          List.getElem?_eq_none (by omega)]
  have few : domain.toFinset.card ≤ domain.length :=
    List.toFinset_card_le domain
  calc
    lists.length = lists.toFinset.card :=
      (List.toFinset_card_of_nodup distinct).symm
    _ ≤ positions.card := entries
    _ = (domain.toFinset.card + 1) ^ domain.length := by
      simp [positions, Fintype.card_piFinset]
    _ ≤ (domain.length + 1) ^ domain.length :=
      Nat.pow_le_pow_left (by omega) _

/-- Dropping repeated entries leaves none. -/
theorem nodup_eraseDups
    {α : Type}
    [DecidableEq α] :
    ∀ items : List α, items.eraseDups.Nodup
  | [] => by
      simp
  | first :: rest => by
      rw [List.eraseDups_cons]
      refine List.nodup_cons.mpr ⟨?_, nodup_eraseDups _⟩
      rw [List.mem_eraseDups]
      simp
termination_by items => items.length
decreasing_by
  exact Nat.lt_succ_of_le (List.length_filter_le _ _)

section Kernels

variable {grammar : Grammar} {items : List Item}

/-- The symbols to be read next. -/
theorem mem_nextSymbols
    {symbol : SymbolId} :
    symbol ∈ nextSymbols grammar items ↔
      ∃ item ∈ items, item.nextSymbol? grammar = some symbol := by
  simp [nextSymbols, mem_sortBy, List.mem_eraseDups,
    List.mem_filterMap]

theorem nodup_nextSymbols :
    (nextSymbols grammar items).Nodup :=
  sortBy_perm.nodup_iff.mpr (nodup_eraseDups _)

/-- The kernel behind a symbol holds the items that read it. -/
theorem mem_shiftedKernel
    {symbol : SymbolId}
    {item : Item} :
    item ∈ shiftedKernel grammar items symbol ↔
      ∃ reader ∈ items, reader.nextSymbol? grammar = some symbol ∧
        item = reader.advance := by
  simp only [shiftedKernel, List.mem_map, List.mem_filter, beq_iff_eq,
    and_assoc, eq_comm (a := item)]

/-- Distinct items have distinct successors. -/
theorem Item.advance_injective : Function.Injective Item.advance := by
  rintro ⟨leftRule, leftCursor⟩ ⟨rightRule, rightCursor⟩ same
  simpa [Item.advance] using same

theorem nodup_shiftedKernel
    (distinct : items.Nodup)
    (symbol : SymbolId) :
    (shiftedKernel grammar items symbol).Nodup :=
  (distinct.filter _).map Item.advance_injective

end Kernels

/-- Which edge a numbered kernel became. -/
def EdgeTo
    (kernels : Array (List Item))
    (numbered : SymbolId × List Item)
    (edge : SymbolId × StateId) : Prop :=
  edge.1 = numbered.1 ∧ kernels[(edge.2 : Nat)]? = some numbered.2

/-- Kernels keep their numbers when others are added. -/
def KernelsExtend (before after : Array (List Item)) : Prop :=
  ∀ (id : Nat) (kernel : List Item),
    before[id]? = some kernel → after[id]? = some kernel

/-- Numbering gives every kernel the number of an equal one, or a new one. -/
theorem numberKernels_spec
    (numbered : List (SymbolId × List Item))
    {kernels : Array (List Item)}
    (distinct : kernels.toList.Nodup) :
    KernelsExtend kernels (numberKernels numbered kernels).2 ∧
      kernels.size ≤ (numberKernels numbered kernels).2.size ∧
      (numberKernels numbered kernels).2.toList.Nodup ∧
      (∀ kernel ∈ (numberKernels numbered kernels).2,
        kernel ∈ kernels ∨ kernel ∈ numbered.map (·.2)) ∧
      List.Forall₂ (EdgeTo (numberKernels numbered kernels).2) numbered
        (numberKernels numbered kernels).1 := by
  induction numbered generalizing kernels with
  | nil =>
      exact ⟨fun _ _ stored => stored, Nat.le_refl _, distinct,
        fun _ member => .inl member, .nil⟩
  | cons first rest inductionHypothesis =>
      obtain ⟨symbol, kernel⟩ := first
      unfold numberKernels
      split
      rename_i target known chosen
      simp only
      have numberedKernel : known[target]? = some kernel ∧
          KernelsExtend kernels known ∧
          kernels.size ≤ known.size ∧
          known.toList.Nodup ∧
          ∀ other ∈ known, other ∈ kernels ∨ other = kernel := by
        split at chosen
        · rename_i found
          cases chosen
          obtain ⟨bound, same, -⟩ :=
            Array.findIdx?_eq_some_iff_getElem.mp found
          have stored : kernels[target]? = some kernel := by
            rw [Array.getElem?_eq_getElem bound]
            exact congrArg some (by simpa using same)
          exact ⟨stored, fun _ _ stored => stored, Nat.le_refl _, distinct,
            fun _ member => .inl member⟩
        · rename_i unknown
          cases chosen
          have absent : kernel ∉ kernels := by
            intro member
            have differs := Array.findIdx?_eq_none_iff.mp unknown _ member
            simp at differs
          refine ⟨by simp, ?_, by simp, ?_, ?_⟩
          · intro id other stored
            obtain ⟨bound, same⟩ := Array.getElem?_eq_some_iff.mp stored
            rw [Array.getElem?_push_lt bound, same]
          · rw [Array.toList_push, List.nodup_append]
            refine ⟨distinct, by simp, ?_⟩
            intro left leftMember right rightMember same
            rw [List.mem_singleton.mp rightMember] at same
            exact absent (same ▸ Array.mem_toList_iff.mp leftMember)
          · intro other member
            exact Array.mem_push.mp member
      obtain ⟨stored, extended, larger, knownDistinct, origins⟩ :=
        numberedKernel
      obtain ⟨later, largest, allDistinct, allOrigins, edges⟩ :=
        inductionHypothesis knownDistinct
      refine ⟨fun id other held => later id other (extended id other held),
        Nat.le_trans larger largest, allDistinct, ?_,
        .cons ⟨rfl, later target kernel stored⟩ edges⟩
      intro other member
      rcases allOrigins other member with isKnown | inRest
      · rcases origins other isKnown with old | new
        · exact .inl old
        · exact .inr (by simp [new])
      · exact .inr (List.mem_cons_of_mem _ inRest)

/-- A state agrees with its kernel, and its edges with the known kernels. -/
structure StateOf
    (grammar : Grammar)
    (kernels : Array (List Item))
    (kernel : List Item)
    (state : LrState) : Prop where
  items_eq : state.items = closure grammar kernel
  edges :
    List.Forall₂ (EdgeTo kernels) (shiftedKernels grammar state.items)
      state.edges

/-- What holds of states and kernels while states are built. -/
structure Explored
    (grammar : Grammar)
    (states : Array LrState)
    (kernels : Array (List Item)) : Prop where
  distinct : kernels.toList.Nodup
  kernel_proper :
    ∀ kernel ∈ kernels, kernel.Nodup ∧
      ∀ item ∈ kernel, item.Proper grammar
  kernel_begun :
    ∀ kernel ∈ kernels, kernel = [grammar.rootItem] ∨
      kernel ≠ [] ∧ ∀ item ∈ kernel, 0 < item.cursor
  root : kernels[0]? = some [grammar.rootItem]
  covered : states.size ≤ kernels.size
  state :
    ∀ (id : Nat) (state : LrState), states[id]? = some state →
      ∃ kernel, kernels[id]? = some kernel ∧
        StateOf grammar kernels kernel state

namespace Explored

variable {grammar : Grammar}
variable {states : Array LrState} {kernels : Array (List Item)}

/-- The kernel of the root item alone. -/
theorem initial :
    Explored grammar #[] #[[grammar.rootItem]] where
  distinct := by simp
  kernel_proper := by
    intro kernel member
    have same : kernel = [grammar.rootItem] := by simpa using member
    subst same
    refine ⟨by simp, ?_⟩
    intro item itemMember
    have isRoot := List.mem_singleton.mp itemMember
    subst isRoot
    exact ⟨Nat.le_refl _, Nat.zero_le _⟩
  kernel_begun := by
    intro kernel member
    exact .inl (by simpa using member)
  root := rfl
  covered := Nat.zero_le _
  state := by simp

/-- There are no more kernels than the automaton allows for. -/
theorem size_kernels_le
    (wellFormed : grammar.WellFormed)
    (explored : Explored grammar states kernels) :
    kernels.size ≤
      (Automaton.numItems grammar + 1) ^ Automaton.numItems grammar := by
  rw [← Grammar.length_allItems, ← Array.length_toList]
  refine length_le_of_nodup_lists explored.distinct ?_
  intro kernel member
  obtain ⟨nodup, proper⟩ :=
    explored.kernel_proper kernel (Array.mem_toList_iff.mp member)
  exact ⟨nodup, fun item itemMember =>
    (proper item itemMember).mem_allItems wellFormed⟩

/-- The items of a state are proper and distinct. -/
theorem items_proper
    (wellFormed : grammar.WellFormed)
    {kernel : List Item}
    (nodup : kernel.Nodup)
    (proper : ∀ item ∈ kernel, item.Proper grammar) :
    (closure grammar kernel).Nodup ∧
      ∀ item ∈ closure grammar kernel, item.Proper grammar :=
  ⟨nodup_closure wellFormed nodup, fun _ member =>
    ((mem_closure wellFormed nodup).mp member).proper wellFormed proper⟩

/-- Building the state of one more kernel. -/
theorem next
    (wellFormed : grammar.WellFormed)
    (explored : Explored grammar states kernels)
    {kernel : List Item}
    (stored : kernels[states.size]? = some kernel) :
    Explored grammar
      (states.push
        ⟨closure grammar kernel,
          (numberKernels
            (shiftedKernels grammar (closure grammar kernel)) kernels).1⟩)
      (numberKernels
        (shiftedKernels grammar (closure grammar kernel)) kernels).2 := by
  obtain ⟨extended, larger, distinct, origins, edges⟩ :=
    numberKernels_spec (shiftedKernels grammar (closure grammar kernel))
      explored.distinct
  have inside := (Array.getElem?_eq_some_iff.mp stored).1
  obtain ⟨kernelNodup, kernelProper⟩ :=
    explored.kernel_proper kernel (Array.mem_of_getElem? stored)
  obtain ⟨itemsNodup, itemsProper⟩ :=
    items_proper wellFormed kernelNodup kernelProper
  constructor
  case distinct =>
    exact distinct
  case kernel_proper =>
    intro other member
    rcases origins other member with old | new
    · exact explored.kernel_proper other old
    · obtain ⟨⟨symbol, shifted⟩, numbered, rfl⟩ := List.mem_map.mp new
      obtain ⟨_, -, same⟩ := List.mem_map.mp numbered
      cases same
      refine ⟨nodup_shiftedKernel itemsNodup _, ?_⟩
      intro item itemMember
      obtain ⟨reader, readerMember, reads, rfl⟩ :=
        mem_shiftedKernel.mp itemMember
      exact (itemsProper reader readerMember).advance reads
  case kernel_begun =>
    intro other member
    rcases origins other member with old | new
    · exact explored.kernel_begun other old
    · obtain ⟨⟨symbol, shifted⟩, numbered, rfl⟩ := List.mem_map.mp new
      obtain ⟨_, isNext, same⟩ := List.mem_map.mp numbered
      cases same
      obtain ⟨reader, readerMember, reads⟩ := mem_nextSymbols.mp isNext
      refine .inr ⟨List.ne_nil_of_mem
        (mem_shiftedKernel.mpr ⟨reader, readerMember, reads, rfl⟩), ?_⟩
      intro item itemMember
      obtain ⟨_, -, -, rfl⟩ := mem_shiftedKernel.mp itemMember
      exact Nat.succ_pos _
  case root =>
    exact extended 0 _ explored.root
  case covered =>
    rw [Array.size_push]
    omega
  case state =>
    intro id state stateStored
    by_cases old : id < states.size
    · rw [Array.getElem?_push_lt old] at stateStored
      obtain ⟨own, ownStored, agrees⟩ := explored.state id state
        (by rw [Array.getElem?_eq_getElem old]; exact stateStored)
      refine ⟨own, extended id own ownStored, agrees.items_eq, ?_⟩
      exact agrees.edges.imp fun _ _ edge =>
        ⟨edge.1, extended _ _ edge.2⟩
    · have isNew : id = states.size := by
        have bound := (Array.getElem?_eq_some_iff.mp stateStored).1
        rw [Array.size_push] at bound
        omega
      subst isNew
      rw [Array.getElem?_push_size] at stateStored
      cases stateStored
      exact ⟨kernel, extended _ _ stored, rfl, edges⟩

/-- With room for every kernel, exploring ends with a state for each. -/
theorem exploreKernels_complete
    (wellFormed : grammar.WellFormed)
    {fuel : Nat}
    (explored : Explored grammar states kernels)
    (enough :
      (Automaton.numItems grammar + 1) ^ Automaton.numItems grammar + 1 ≤
        fuel + states.size) :
    ∃ all, Explored grammar (exploreKernels grammar fuel states kernels) all ∧
      all.size = (exploreKernels grammar fuel states kernels).size := by
  induction fuel generalizing states kernels with
  | zero =>
      have few := explored.size_kernels_le wellFormed
      have covered := explored.covered
      omega
  | succ fuel inductionHypothesis =>
      unfold exploreKernels
      split
      · rename_i finished
        refine ⟨kernels, explored, ?_⟩
        have beyond := Array.getElem?_eq_none_iff.mp finished
        exact Nat.le_antisymm beyond explored.covered
      · rename_i kernel stored
        refine inductionHypothesis (explored.next wellFormed stored) ?_
        rw [Array.size_push]
        omega

end Explored

namespace Automaton

variable {grammar : Grammar}

/-- The kernels of the states of a grammar's automaton. -/
theorem exists_explored (wellFormed : grammar.WellFormed) :
    ∃ kernels, Explored grammar (ofGrammar grammar).states kernels ∧
      kernels.size = (ofGrammar grammar).states.size :=
  Explored.initial.exploreKernels_complete wellFormed (by simp)

/-- A known state is the state of its kernel. -/
theorem stateOf_state
    {automaton : Automaton}
    {kernels : Array (List Item)}
    (explored : Explored grammar automaton.states kernels)
    (complete : kernels.size = automaton.states.size)
    {id : StateId}
    {kernel : List Item}
    (stored : kernels[id]? = some kernel) :
    StateOf grammar kernels kernel (automaton.state id) := by
  have bound : id < automaton.states.size :=
    complete ▸ (Array.getElem?_eq_some_iff.mp stored).1
  have stateStored := Array.getElem?_eq_getElem bound
  obtain ⟨own, ownStored, agrees⟩ :=
    explored.state id _ stateStored
  rw [stored] at ownStored
  cases ownStored
  rw [state, Array.getD_eq_getD_getElem?, stateStored]
  exact agrees

/-- Looking an edge up finds the kernel behind its symbol. -/
private theorem lookup_edges
    {kernels : Array (List Item)}
    {items : List Item}
    {symbols : List SymbolId}
    {edges : List (SymbolId × StateId)}
    (matched :
      List.Forall₂ (EdgeTo kernels)
        (symbols.map fun symbol => (symbol, shiftedKernel grammar items symbol))
        edges)
    (symbol : SymbolId) :
    match edges.lookup symbol with
    | some target =>
        symbol ∈ symbols ∧
          kernels[(target : Nat)]? =
            some (shiftedKernel grammar items symbol)
    | none => symbol ∉ symbols := by
  induction symbols generalizing edges with
  | nil =>
      cases matched
      simp
  | cons first rest inductionHypothesis =>
      cases matched with
      | @cons _ edge _ others here later =>
          obtain ⟨label, target⟩ := edge
          obtain ⟨sameLabel, stored⟩ := here
          simp only at sameLabel stored
          subst sameLabel
          by_cases same : symbol = label
          · subst same
            simp [stored]
          · have differs : (symbol == label) = false := by simpa using same
            have found := inductionHypothesis later
            simp only [List.lookup_cons, differs, List.mem_cons, same,
              false_or]
            exact found

section States

variable {kernels : Array (List Item)}

/-- Every state of the automaton has a kernel, other numbers have no items. -/
theorem state_cases
    (explored : Explored grammar (ofGrammar grammar).states kernels)
    (id : StateId) :
    (∃ kernel, kernels[id]? = some kernel ∧ kernel.Nodup ∧
        (∀ item ∈ kernel, item.Proper grammar) ∧
        StateOf grammar kernels kernel ((ofGrammar grammar).state id)) ∨
      (ofGrammar grammar).state id = ⟨[], []⟩ := by
  cases stored : (ofGrammar grammar).states[id]? with
  | none =>
      right
      rw [state, Array.getD_eq_getD_getElem?, stored]
      rfl
  | some found =>
      left
      obtain ⟨kernel, kernelStored, agrees⟩ :=
        explored.state id found stored
      obtain ⟨nodup, proper⟩ := explored.kernel_proper kernel
        (Array.mem_of_getElem? kernelStored)
      refine ⟨kernel, kernelStored, nodup, proper, ?_⟩
      rw [state, Array.getD_eq_getD_getElem?, stored]
      exact agrees

/-- Going on by a symbol leads to the state of the kernel behind it. -/
theorem goto?_spec
    (explored : Explored grammar (ofGrammar grammar).states kernels)
    (id : StateId)
    (symbol : SymbolId) :
    match (ofGrammar grammar).goto? id symbol with
    | some target =>
        symbol ∈ nextSymbols grammar ((ofGrammar grammar).state id).items ∧
          kernels[(target : Nat)]? =
            some (shiftedKernel grammar
              ((ofGrammar grammar).state id).items symbol)
    | none =>
        symbol ∉
          nextSymbols grammar ((ofGrammar grammar).state id).items := by
  rcases state_cases explored id with
    ⟨kernel, -, -, -, agrees⟩ | outside
  · exact lookup_edges agrees.edges symbol
  · simp [goto?, outside, nextSymbols]

end States

/-- The edges of a state carry distinct symbols. -/
theorem nodup_edges
    (wellFormed : grammar.WellFormed)
    {state : LrState}
    (member : state ∈ (ofGrammar grammar).states) :
    (state.edges.map (·.1)).Nodup := by
  obtain ⟨kernels, explored, -⟩ := exists_explored wellFormed
  obtain ⟨id, stored⟩ := Array.mem_iff_getElem?.mp member
  obtain ⟨kernel, -, agrees⟩ := explored.state id state stored
  have labels : state.edges.map (·.1) = nextSymbols grammar state.items := by
    have matched := agrees.edges
    unfold shiftedKernels at matched
    generalize nextSymbols grammar state.items = symbols at matched
    generalize state.edges = edges at matched
    induction symbols generalizing edges with
    | nil =>
        cases matched
        rfl
    | cons first rest inductionHypothesis =>
        cases matched with
        | cons here later =>
            rw [List.map_cons, inductionHypothesis _ later, here.1]
  rw [labels]
  exact nodup_nextSymbols

section Items

variable (wellFormed : grammar.WellFormed)

include wellFormed

/-- No state holds an item twice, and all its items are proper. -/
theorem items_nodup_proper (id : StateId) :
    ((ofGrammar grammar).state id).items.Nodup ∧
      ∀ item ∈ ((ofGrammar grammar).state id).items,
        item.Proper grammar := by
  obtain ⟨kernels, explored, -⟩ := exists_explored wellFormed
  rcases state_cases explored id with
    ⟨kernel, -, nodup, proper, agrees⟩ | outside
  · rw [agrees.items_eq]
    exact Explored.items_proper wellFormed nodup proper
  · simp [outside]

/-- A user's rule stands at its start only where an item asks for its symbol. -/
theorem exists_asker
    {id : StateId}
    {rule : RuleId}
    (user : rule < grammar.rules.size)
    (member : ⟨rule, 0⟩ ∈ ((ofGrammar grammar).state id).items) :
    ∃ item ∈ ((ofGrammar grammar).state id).items,
      item.nextSymbol? grammar = some (grammar.rule rule).lhs := by
  obtain ⟨kernels, explored, -⟩ := exists_explored wellFormed
  rcases state_cases explored id with
    ⟨kernel, stored, nodup, -, agrees⟩ | outside
  · rw [agrees.items_eq] at member ⊢
    have predicted := (mem_closure wellFormed nodup).mp member
    generalize isItem : (⟨rule, 0⟩ : Item) = item at predicted
    cases predicted with
    | kernel inKernel =>
        rcases explored.kernel_begun kernel (Array.mem_of_getElem? stored) with
          isRoot | ⟨-, begun⟩
        · rw [isRoot, List.mem_singleton, ← isItem] at inKernel
          cases inKernel
          exact absurd user (Nat.lt_irrefl _)
        · have behind := begun item inKernel
          rw [← isItem] at behind
          exact absurd behind (Nat.lt_irrefl _)
    | @ask asker _ asked asks =>
        obtain ⟨symbol, next, -, isStart⟩ := asks
        obtain ⟨own, isRule, isLhs, isNew⟩ := Item.mem_starting.mp isStart
        rw [isNew] at isItem
        cases isItem
        rw [(wellFormed.rule_rule_id isRule).1, isLhs]
        exact ⟨asker, (mem_closure wellFormed nodup).mpr asked, next⟩
  · simp [outside] at member

/-- A state holds what its items ask for. -/
theorem mem_items_of_asksFor
    {id : StateId}
    {item start : Item}
    (member : item ∈ ((ofGrammar grammar).state id).items)
    (asks : item.AsksFor grammar start) :
    start ∈ ((ofGrammar grammar).state id).items := by
  obtain ⟨kernels, explored, -⟩ := exists_explored wellFormed
  rcases state_cases explored id with
    ⟨kernel, -, nodup, -, agrees⟩ | outside
  · rw [agrees.items_eq] at member ⊢
    exact (mem_closure wellFormed nodup).mpr
      (.ask ((mem_closure wellFormed nodup).mp member) asks)
  · simp [outside] at member

/-- The start state holds what the root item predicts. -/
theorem mem_items_startState
    {item : Item} :
    item ∈ ((ofGrammar grammar).state startState).items ↔
      Predicted grammar (· = grammar.rootItem) item := by
  obtain ⟨kernels, explored, complete⟩ := exists_explored wellFormed
  have agrees := stateOf_state explored complete explored.root
  rw [startState, agrees.items_eq, mem_closure wellFormed (by simp)]
  simp only [List.mem_singleton]

/-- The items behind a symbol are what the items that read it predict. -/
theorem mem_items_of_goto?
    {id target : StateId}
    {symbol : SymbolId}
    (leads : (ofGrammar grammar).goto? id symbol = some target)
    {item : Item} :
    item ∈ ((ofGrammar grammar).state target).items ↔
      Predicted grammar
        (fun advanced => ∃ reader ∈ ((ofGrammar grammar).state id).items,
          reader.nextSymbol? grammar = some symbol ∧
            advanced = reader.advance)
        item := by
  obtain ⟨kernels, explored, complete⟩ := exists_explored wellFormed
  have found := goto?_spec explored id symbol
  rw [leads] at found
  have agrees := stateOf_state explored complete found.2
  have nodup := (items_nodup_proper wellFormed id).1
  rw [agrees.items_eq, mem_closure wellFormed (nodup_shiftedKernel nodup _)]
  simp only [mem_shiftedKernel]

/-- A symbol leads on from a state exactly if some item of it reads the symbol. -/
theorem goto?_isSome_iff
    {id : StateId}
    {symbol : SymbolId} :
    ((ofGrammar grammar).goto? id symbol).isSome = true ↔
      ∃ item ∈ ((ofGrammar grammar).state id).items,
        item.nextSymbol? grammar = some symbol := by
  obtain ⟨kernels, explored, -⟩ := exists_explored wellFormed
  have found := goto?_spec explored id symbol
  rw [← mem_nextSymbols]
  split at found
  · rename_i leads
    simp [leads, found.1]
  · rename_i leads
    simp [leads, found]

end Items

/-- The state reached from the start by reading a string of symbols. -/
def run? (automaton : Automaton) (string : List SymbolId) : Option StateId :=
  string.foldlM automaton.goto? startState

/-- Reading one more symbol goes on from where the string led. -/
theorem run?_append_singleton
    (automaton : Automaton)
    (string : List SymbolId)
    (symbol : SymbolId) :
    automaton.run? (string ++ [symbol]) =
      (automaton.run? string).bind (automaton.goto? · symbol) := by
  simp [run?, List.foldlM_append]

/-- The state that a string leads to holds exactly the items valid for it. -/
theorem mem_items_of_run?
    (wellFormed : grammar.WellFormed)
    {string : List SymbolId}
    {id : StateId}
    (reached : (ofGrammar grammar).run? string = some id)
    {item : Item} :
    item ∈ ((ofGrammar grammar).state id).items ↔
      ValidItem grammar string item := by
  induction string using List.reverseRecOn generalizing id item with
  | nil =>
      cases reached
      rw [mem_items_startState wellFormed, ValidItem.nil_iff_predicted]
  | append_singleton string symbol inductionHypothesis =>
      rw [run?_append_singleton] at reached
      obtain ⟨before, beforeReached, leads⟩ :=
        Option.bind_eq_some_iff.mp reached
      rw [mem_items_of_goto? wellFormed leads,
        ValidItem.append_iff_predicted]
      simp only [inductionHypothesis beforeReached]

/-- A string leads to a state exactly if some item is valid for it. -/
theorem run?_isSome_iff
    (wellFormed : grammar.WellFormed)
    {string : List SymbolId} :
    ((ofGrammar grammar).run? string).isSome = true ↔
      ∃ item, ValidItem grammar string item := by
  induction string using List.reverseRecOn with
  | nil =>
      exact ⟨fun _ => ⟨_, .start⟩, fun _ => rfl⟩
  | append_singleton string symbol inductionHypothesis =>
      rw [run?_append_singleton]
      constructor
      · intro reached
        obtain ⟨id, both⟩ := Option.isSome_iff_exists.mp reached
        obtain ⟨before, beforeReached, leads⟩ :=
          Option.bind_eq_some_iff.mp both
        obtain ⟨reader, member, reads⟩ :=
          (goto?_isSome_iff wellFormed).mp (by rw [leads]; rfl)
        exact ⟨_, .advance
          ((mem_items_of_run? wellFormed beforeReached).mp member) reads⟩
      · rintro ⟨item, valid⟩
        obtain ⟨reader, readerValid, reads⟩ :
            ∃ reader, ValidItem grammar string reader ∧
              reader.nextSymbol? grammar = some symbol := by
          induction ValidItem.append_iff_predicted.mp valid with
          | kernel member =>
              obtain ⟨reader, readerValid, reads, -⟩ := member
              exact ⟨reader, readerValid, reads⟩
          | ask predicted _ inductionHypothesis =>
              exact inductionHypothesis
                (ValidItem.append_iff_predicted.mpr predicted)
        obtain ⟨before, beforeReached⟩ := Option.isSome_iff_exists.mp
          (inductionHypothesis.mpr ⟨reader, readerValid⟩)
        rw [beforeReached]
        exact (goto?_isSome_iff wellFormed).mpr ⟨reader,
          (mem_items_of_run? wellFormed beforeReached).mpr readerValid, reads⟩

end Automaton

end SpanForest
