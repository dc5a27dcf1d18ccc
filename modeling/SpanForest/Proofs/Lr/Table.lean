import SpanForest.Lr.Table
import SpanForest.Proofs.BitSet
import SpanForest.Proofs.Lr.Automaton

namespace SpanForest

/-!
# The action table lists edges and complete items

A cell changes only while the actions of its own state are added. So the cell
of a state and a symbol holds the edge of that state by the symbol, and the
rules whose complete items stand in the state and which the symbol may follow.
-/

section Cells

variable {cells : List (CellKey × Cell)} {key : CellKey} {change : Cell → Cell}

/-- Changing a cell changes that cell only. -/
theorem lookup_updateCell (other : CellKey) :
    (updateCell key change cells).lookup other =
      if other = key then
        some (change ((cells.lookup key).getD .empty))
      else
        cells.lookup other := by
  induction cells with
  | nil =>
      by_cases same : other = key
      · simp [updateCell, same]
      · have differs : (other == key) = false := by simpa using same
        simp [updateCell, List.lookup_cons, differs, same]
  | cons entry rest inductionHypothesis =>
      obtain ⟨first, cell⟩ := entry
      by_cases found : first = key
      · subst found
        by_cases same : other = first
        · simp [updateCell, same]
        · have differs : (other == first) = false := by simpa using same
          simp [updateCell, List.lookup_cons, differs, same]
      · have behind : (key == first) = false := by
          simpa using Ne.symm found
        by_cases same : other = first
        · subst same
          simp [updateCell, found]
        · have differs : (other == first) = false := by simpa using same
          simp [updateCell, found, List.lookup_cons, differs, behind,
            inductionHypothesis]

/-- An entry was there before a cell was changed or is the changed one. -/
theorem mem_updateCell
    {entry : CellKey × Cell}
    (member : entry ∈ updateCell key change cells) :
    entry ∈ cells ∨ entry.1 = key ∧ ∃ cell, entry.2 = change cell := by
  induction cells with
  | nil =>
      rw [List.mem_singleton.mp member]
      exact .inr ⟨rfl, _, rfl⟩
  | cons first rest inductionHypothesis =>
      obtain ⟨other, cell⟩ := first
      unfold updateCell at member
      split at member
      · rename_i same
        rcases List.mem_cons.mp member with rfl | later
        · exact .inr ⟨same, cell, rfl⟩
        · exact .inl (List.mem_cons_of_mem _ later)
      · rcases List.mem_cons.mp member with rfl | later
        · exact .inl List.mem_cons_self
        · exact (inductionHypothesis later).imp_left (List.mem_cons_of_mem _)

/-- Changing a cell adds no key but its own. -/
theorem mem_keys_updateCell
    {other : CellKey}
    (member : other ∈ (updateCell key change cells).map (·.1)) :
    other = key ∨ other ∈ cells.map (·.1) := by
  obtain ⟨entry, inUpdated, rfl⟩ := List.mem_map.mp member
  rcases mem_updateCell inUpdated with old | ⟨same, -⟩
  · exact .inr (List.mem_map_of_mem old)
  · exact .inl same

/-- Changing a cell repeats no key. -/
theorem nodup_keys_updateCell
    (distinct : (cells.map (·.1)).Nodup) :
    ((updateCell key change cells).map (·.1)).Nodup := by
  induction cells with
  | nil =>
      simp [updateCell]
  | cons entry rest inductionHypothesis =>
      obtain ⟨first, cell⟩ := entry
      obtain ⟨absent, restDistinct⟩ := List.nodup_cons.mp distinct
      by_cases found : first = key
      · simpa [updateCell, found] using distinct
      · rw [updateCell, if_neg found, List.map_cons]
        refine List.nodup_cons.mpr ⟨?_, inductionHypothesis restDistinct⟩
        intro member
        rcases mem_keys_updateCell member with same | later
        · exact found same
        · exact absent later

/-- With distinct keys, looking a key up finds its entry. -/
theorem lookup_eq_some_iff_mem
    {α β : Type}
    [BEq α]
    [LawfulBEq α]
    {entries : List (α × β)}
    (distinct : (entries.map (·.1)).Nodup)
    {label : α}
    {value : β} :
    entries.lookup label = some value ↔ (label, value) ∈ entries := by
  induction entries with
  | nil =>
      simp
  | cons entry rest inductionHypothesis =>
      obtain ⟨first, stored⟩ := entry
      obtain ⟨absent, restDistinct⟩ := List.nodup_cons.mp distinct
      by_cases same : label = first
      · subst same
        have notLater : (label, value) ∉ rest := fun member =>
          absent (List.mem_map.mpr ⟨_, member, rfl⟩)
        simp [notLater, eq_comm]
      · have differs : (label == first) = false := by simpa using same
        simp [List.lookup_cons, differs, same,
          inductionHypothesis restDistinct]

end Cells

namespace Cell

variable {cell : Cell} {rule other : RuleId}

theorem shift_withReduce :
    (cell.withReduce rule).shift = cell.shift := by
  unfold withReduce
  split <;> rfl

theorem mem_withReduce :
    other ∈ (cell.withReduce rule).reduces ↔
      other ∈ cell.reduces ∨ other = rule := by
  unfold withReduce
  split
  · rename_i held
    have member : rule ∈ cell.reduces := by simpa using held
    constructor
    · exact .inl
    · rintro (inside | rfl)
      · exact inside
      · exact member
  · simp

theorem nodup_withReduce
    (distinct : cell.reduces.Nodup) :
    (cell.withReduce rule).reduces.Nodup := by
  unfold withReduce
  split
  · exact distinct
  · rename_i lacking
    have absent : rule ∉ cell.reduces := by simpa using lacking
    exact List.nodup_append.mpr ⟨distinct, by simp, fun _ member _ single same =>
      absent (List.mem_singleton.mp single ▸ same ▸ member)⟩

@[simp] theorem withReduce_twice :
    (cell.withReduce rule).withReduce rule = cell.withReduce rule := by
  have held : rule ∈ (cell.withReduce rule).reduces :=
    mem_withReduce.mpr (.inr rfl)
  rw [withReduce, if_pos (by simpa using held)]

end Cell

namespace SparseTable

/-- The cell of a state and a symbol, the empty one if they have none. -/
def cell (table : SparseTable) (state : StateId) (symbol : SymbolId) : Cell :=
  (table.get? state symbol).getD .empty

section Operations

variable {table : SparseTable} {state id : StateId} {symbol : SymbolId}

@[simp] theorem cell_empty :
    empty.cell state symbol = .empty :=
  rfl

theorem cell_addShift
    (label : SymbolId)
    (target : StateId) :
    (table.addShift id label target).cell state symbol =
      if state = id ∧ symbol = label then
        { table.cell state symbol with shift := some target }
      else
        table.cell state symbol := by
  simp only [cell, get?, addShift, lookup_updateCell, Prod.mk.injEq]
  split
  · rename_i same
    obtain ⟨rfl, rfl⟩ := same
    rfl
  · rfl

theorem cell_addReduce
    (label : SymbolId)
    (rule : RuleId) :
    (table.addReduce id label rule).cell state symbol =
      if state = id ∧ symbol = label then
        (table.cell state symbol).withReduce rule
      else
        table.cell state symbol := by
  simp only [cell, get?, addReduce, lookup_updateCell, Prod.mk.injEq]
  split
  · rename_i same
    obtain ⟨rfl, rfl⟩ := same
    rfl
  · rfl

/-- Adding edges sets the shifts of their state. -/
theorem cell_addEdges
    {edges : List (SymbolId × StateId)}
    (distinct : (edges.map (·.1)).Nodup) :
    (table.addEdges id edges).cell state symbol =
      if state = id ∧ symbol ≠ endOfInput then
        { table.cell state symbol with
          shift :=
            (edges.lookup symbol).or (table.cell state symbol).shift }
      else
        table.cell state symbol := by
  induction edges generalizing table with
  | nil =>
      simp [addEdges]
  | cons edge rest inductionHypothesis =>
      obtain ⟨label, target⟩ := edge
      obtain ⟨absent, restDistinct⟩ := List.nodup_cons.mp distinct
      have later := @inductionHypothesis
      by_cases ending : label = endOfInput
      · have skipped :
            table.addEdges id ((label, target) :: rest) =
              table.addEdges id rest := by
          simp [addEdges, ending]
        rw [skipped, inductionHypothesis restDistinct]
        by_cases own : state = id ∧ symbol ≠ endOfInput
        · have differs : (symbol == label) = false := by
            simpa [ending] using own.2
          rw [if_pos own, if_pos own, List.lookup_cons, differs]
        · rw [if_neg own, if_neg own]
      · have unfolded :
            table.addEdges id ((label, target) :: rest) =
              (table.addShift id label target).addEdges id rest := by
          simp [addEdges, ending]
        rw [unfolded, inductionHypothesis restDistinct, cell_addShift]
        by_cases same : symbol = label
        · subst same
          have notLater : rest.lookup symbol = none := by
            refine Option.eq_none_iff_forall_ne_some.mpr ?_
            intro value found
            exact absent (List.mem_map.mpr ⟨_,
              (lookup_eq_some_iff_mem restDistinct).mp found, rfl⟩)
          by_cases own : state = id
          · simp [own, ending, notLater]
          · simp [own]
        · have differs : (symbol == label) = false := by simpa using same
          simp only [same, and_false, if_false, List.lookup_cons, differs]

/-- Adding one rule under several symbols. -/
theorem cell_addReduce_foldl
    {rule : RuleId}
    (symbols : List SymbolId) :
    (symbols.foldl
        (fun current label => current.addReduce id label rule)
        table).cell state symbol =
      if state = id ∧ symbol ∈ symbols then
        (table.cell state symbol).withReduce rule
      else
        table.cell state symbol := by
  induction symbols generalizing table with
  | nil =>
      simp
  | cons label rest inductionHypothesis =>
      rw [List.foldl_cons, inductionHypothesis, cell_addReduce]
      by_cases own : state = id
      · by_cases here : symbol = label
        · simp [own, here]
        · simp [own, here]
      · simp [own]

/-- Whether a state reduces the rule of an item with a symbol ahead. -/
def Reduces
    (grammar : Grammar)
    (follow : FollowSets)
    (symbol : SymbolId)
    (item : Item) : Prop :=
  item.isComplete grammar = true ∧
    (grammar.rule item.rule).lhs ≠ rootSymbol ∧
    (follow.get (grammar.rule item.rule).lhs).contains symbol = true

/-- Adding the reductions of items changes the cells of their state only. -/
theorem cell_addReductions_of_ne
    {grammar : Grammar}
    {follow : FollowSets}
    (other : state ≠ id)
    (items : List Item) :
    (table.addReductions grammar follow id items).cell state symbol =
      table.cell state symbol := by
  unfold addReductions
  generalize items.filter _ = complete
  induction complete generalizing table with
  | nil =>
      rfl
  | cons item rest inductionHypothesis =>
      rw [List.foldl_cons, inductionHypothesis, cell_addReduce_foldl]
      simp [other]

/-- Adding the reductions of items changes no shift. -/
theorem shift_addReductions
    {grammar : Grammar}
    {follow : FollowSets}
    (items : List Item) :
    ((table.addReductions grammar follow id items).cell state symbol).shift =
      (table.cell state symbol).shift := by
  unfold addReductions
  generalize items.filter _ = complete
  induction complete generalizing table with
  | nil =>
      rfl
  | cons item rest inductionHypothesis =>
      rw [List.foldl_cons, inductionHypothesis, cell_addReduce_foldl]
      split
      · exact Cell.shift_withReduce
      · rfl

/-- The reductions of items are each added once. -/
theorem reduces_addReductions
    {grammar : Grammar}
    {follow : FollowSets}
    (items : List Item)
    (distinct : (table.cell id symbol).reduces.Nodup) :
    ((table.addReductions grammar follow id items).cell
        id symbol).reduces.Nodup ∧
      ∀ rule, rule ∈ ((table.addReductions grammar follow id items).cell
          id symbol).reduces ↔
        rule ∈ (table.cell id symbol).reduces ∨
          ∃ item ∈ items, Reduces grammar follow symbol item ∧
            item.rule = rule := by
  unfold addReductions
  induction items generalizing table with
  | nil =>
      simp [distinct]
  | cons item rest inductionHypothesis =>
      by_cases complete :
          item.isComplete grammar = true ∧
            (grammar.rule item.rule).lhs ≠ rootSymbol
      · rw [List.filter_cons_of_pos (by simpa using complete),
          List.foldl_cons]
        have added :
            ((follow.get (grammar.rule item.rule).lhs).toList.foldl
              (fun current label => current.addReduce id label item.rule)
              table).cell id symbol = _ :=
          cell_addReduce_foldl _
        have stillDistinct := inductionHypothesis
          (by
            rw [added]
            split
            · exact Cell.nodup_withReduce distinct
            · exact distinct)
        refine ⟨stillDistinct.1, fun rule => ?_⟩
        rw [stillDistinct.2 rule, added]
        simp only [List.mem_cons, or_and_right, exists_or, exists_eq_left]
        by_cases ahead :
            (follow.get (grammar.rule item.rule).lhs).contains symbol = true
        · have reduces : Reduces grammar follow symbol item :=
            ⟨complete.1, complete.2, ahead⟩
          simp [BitSet.mem_toList, ahead, Cell.mem_withReduce, reduces, or_assoc,
            eq_comm]
        · have notReduces : ¬ Reduces grammar follow symbol item :=
            fun reduces => ahead reduces.2.2
          simp [BitSet.mem_toList, ahead, notReduces]
      · have notReduces : ¬ Reduces grammar follow symbol item :=
          fun reduces => complete ⟨reduces.1, reduces.2.1⟩
        rw [List.filter_cons_of_neg (by simpa using complete)]
        have others := inductionHypothesis distinct
        refine ⟨others.1, fun rule => ?_⟩
        rw [others.2 rule]
        simp only [List.mem_cons, or_and_right, exists_or, exists_eq_left,
          notReduces, false_and, false_or]

end Operations

/-- What a cell holds of the actions of a state. -/
structure CellOf
    (grammar : Grammar)
    (follow : FollowSets)
    (state : LrState)
    (symbol : SymbolId)
    (cell : Cell) : Prop where
  shift :
    cell.shift =
      if symbol = endOfInput then none else state.edges.lookup symbol
  reduces_nodup : cell.reduces.Nodup
  mem_reduces :
    ∀ rule, rule ∈ cell.reduces ↔
      ∃ item ∈ state.items, Reduces grammar follow symbol item ∧
        item.rule = rule

section Automaton

variable {grammar : Grammar} {follow : FollowSets} {table : SparseTable}
variable {id : StateId} {symbol : SymbolId} {state : LrState}

/-- Adding the actions of a state leaves the cells of other states alone. -/
theorem cell_addState_of_ne
    {other : StateId}
    (distinct : (state.edges.map (·.1)).Nodup)
    (differs : other ≠ id) :
    (table.addState grammar follow id state).cell other symbol =
      table.cell other symbol := by
  rw [addState, cell_addReductions_of_ne differs, cell_addEdges distinct]
  simp [differs]

/-- Adding the actions of a state to an empty cell. -/
theorem cellOf_addState
    (distinct : (state.edges.map (·.1)).Nodup)
    (fresh : table.cell id symbol = .empty) :
    CellOf grammar follow state symbol
      ((table.addState grammar follow id state).cell id symbol) := by
  have edges : (table.addEdges id state.edges).cell id symbol = _ :=
    cell_addEdges distinct
  have noReduces :
      ((table.addEdges id state.edges).cell id symbol).reduces = [] := by
    rw [edges, fresh]
    split <;> rfl
  have reductions :=
    @reduces_addReductions (table.addEdges id state.edges) id symbol grammar
      follow state.items (by simp [noReduces])
  constructor
  case shift =>
    rw [addState, shift_addReductions, edges, fresh]
    by_cases ending : symbol = endOfInput
    · simp [ending, Cell.empty]
    · simp [ending, Cell.empty]
  case reduces_nodup =>
    exact reductions.1
  case mem_reduces =>
    intro rule
    rw [addState, reductions.2 rule, noReduces]
    simp

/-- The cells of an automaton's table hold the actions of its states. -/
theorem cellOf_ofAutomaton
    {automaton : Automaton}
    (distinct :
      ∀ state ∈ automaton.states, (state.edges.map (·.1)).Nodup) :
    CellOf grammar follow (automaton.state id) symbol
      ((ofAutomaton grammar automaton follow).cell id symbol) := by
  obtain ⟨⟨states⟩⟩ := automaton
  have edgesDistinct :
      ∀ state ∈ states, (state.edges.map (·.1)).Nodup := by
    simpa using distinct
  suffices pointwise :
      ∀ id, CellOf grammar follow (states[(id : Nat)]?.getD ⟨[], []⟩) symbol
        ((states.zipIdx.foldl
          (fun table entry =>
            table.addState grammar follow entry.2 entry.1)
          empty).cell id symbol) ∧
        (states.length ≤ id →
          (states.zipIdx.foldl
            (fun table entry =>
              table.addState grammar follow entry.2 entry.1)
            empty).cell id symbol = .empty) by
    have own := (pointwise id).1
    simpa [Automaton.state, ofAutomaton, Array.getD_eq_getD_getElem?]
      using own
  clear distinct
  -- The states are added in order, so the last one meets empty cells.
  induction states using List.reverseRecOn with
  | nil =>
      intro id
      refine ⟨⟨?_, ?_, ?_⟩, fun _ => rfl⟩ <;> simp [Cell.empty]
  | append_singleton states last inductionHypothesis =>
      intro id
      have lastDistinct := edgesDistinct last (by simp)
      obtain ⟨own, beyond⟩ := inductionHypothesis
        (fun state member => edgesDistinct state (by simp [member])) id
      rw [List.zipIdx_append, List.foldl_append]
      simp only [List.zipIdx_cons, List.zipIdx_nil, List.foldl_cons,
        List.foldl_nil, Nat.zero_add]
      by_cases isLast : id = states.length
      · subst isLast
        rw [List.getElem?_concat_length]
        refine ⟨cellOf_addState lastDistinct (beyond (Nat.le_refl _)), ?_⟩
        intro tooLong
        rw [List.length_append, List.length_singleton] at tooLong
        omega
      · rw [cell_addState_of_ne lastDistinct isLast]
        by_cases inside : id < states.length
        · rw [List.getElem?_append_left inside]
          refine ⟨own, fun tooLong => beyond ?_⟩
          rw [List.length_append, List.length_singleton] at tooLong
          omega
        · have outside : states.length ≤ id := by omega
          rw [List.getElem?_eq_none outside] at own
          rw [List.getElem?_eq_none (by simp; omega)]
          exact ⟨own, fun _ => beyond outside⟩

/-- No key of an automaton's table is repeated. -/
theorem nodup_keys_ofAutomaton
    {automaton : Automaton} :
    ((ofAutomaton grammar automaton follow).cells.map (·.1)).Nodup := by
  have noKeys : (empty.cells.map (·.1)).Nodup := List.nodup_nil
  unfold ofAutomaton
  refine List.foldlRecOn
    (motive := fun table : SparseTable => (table.cells.map (·.1)).Nodup)
    _ _ noKeys ?_
  rintro table distinct ⟨state, id⟩ -
  have edgesAdded :
      ((table.addEdges id state.edges).cells.map (·.1)).Nodup := by
    unfold addEdges
    refine List.foldlRecOn
      (motive := fun table : SparseTable => (table.cells.map (·.1)).Nodup)
      _ _ distinct ?_
    intro current currentDistinct edge _
    exact nodup_keys_updateCell currentDistinct
  unfold addState addReductions
  refine List.foldlRecOn
    (motive := fun table : SparseTable => (table.cells.map (·.1)).Nodup)
    _ _ edgesAdded ?_
  intro current currentDistinct item _
  refine List.foldlRecOn
    (motive := fun table : SparseTable => (table.cells.map (·.1)).Nodup)
    _ _ currentDistinct ?_
  intro inner innerDistinct label _
  exact nodup_keys_updateCell innerDistinct

end Automaton

end SparseTable

end SpanForest
