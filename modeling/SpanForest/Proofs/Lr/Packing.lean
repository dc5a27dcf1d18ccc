import Mathlib.Data.Finset.Card
import SpanForest.Proofs.Lr.PackedTable

namespace SpanForest

/-!
# Packing loses nothing

A table that was filled call by call has no two cells with one key and no cell
without actions. Packing places each of its cells in a slot of its own, stores equal
cells once, and does not depend on the order in which the cells are listed.
-/

/-- A call that adds an action to a table. -/
inductive TableCall where
  | shift (state : StateId) (symbol : SymbolId) (target : StateId)
  | reduce (state : StateId) (symbol : SymbolId) (rule : RuleId)
  deriving Repr, DecidableEq

namespace TableCall

/-- The state whose row is changed. -/
def state : TableCall → StateId
  | .shift state _ _ => state
  | .reduce state _ _ => state

/-- Carry a call out. -/
def apply (table : SparseTable) : TableCall → SparseTable
  | .shift state symbol target => table.addShift state symbol target
  | .reduce state symbol rule => table.addReduce state symbol rule

end TableCall

/-- The table that is filled by calls, one after the other. -/
def SparseTable.ofCalls (calls : List TableCall) : SparseTable :=
  calls.foldl TableCall.apply .empty

/-- What holds of a table that was filled by calls. -/
structure FilledBy (calls : List TableCall) (table : SparseTable) : Prop where
  distinct : (table.cells.map (·.1)).Nodup
  occupied : ∀ entry ∈ table.cells, entry.2.isEmpty = false
  called : ∀ entry ∈ table.cells, ∃ call ∈ calls, call.state = entry.1.1

/-- One more call keeps the keys apart and leaves no cell without actions. -/
theorem FilledBy.apply
    {calls : List TableCall}
    {table : SparseTable}
    (filled : FilledBy calls table)
    {call : TableCall}
    (member : call ∈ calls) :
    FilledBy calls (call.apply table) := by
  obtain ⟨key, change, same, updated, acts⟩ :
      ∃ (key : CellKey) (change : Cell → Cell), key.1 = call.state ∧
        (call.apply table).cells = updateCell key change table.cells ∧
          ∀ cell, (change cell).isEmpty = false := by
    cases call with
    | shift state symbol target =>
        exact ⟨(state, symbol), _, rfl, rfl, fun cell => rfl⟩
    | reduce state symbol rule =>
        refine ⟨(state, symbol), _, rfl, rfl, fun cell => ?_⟩
        have reduces : rule ∈ (cell.withReduce rule).reduces :=
          Cell.mem_withReduce.mpr (.inr rfl)
        cases listed : (cell.withReduce rule).reduces with
        | nil => simp [listed] at reduces
        | cons => simp [Cell.isEmpty, listed]
  constructor
  case distinct =>
    rw [updated]
    exact nodup_keys_updateCell filled.distinct
  case occupied =>
    intro entry inUpdated
    rcases mem_updateCell (updated ▸ inUpdated) with old | ⟨-, cell, isChanged⟩
    · exact filled.occupied entry old
    · exact isChanged ▸ acts cell
  case called =>
    intro entry inUpdated
    rcases mem_updateCell (updated ▸ inUpdated) with old | ⟨isKey, -⟩
    · exact filled.called entry old
    · exact ⟨call, member, by rw [isKey, same]⟩

theorem filledBy_ofCalls
    (calls : List TableCall) :
    FilledBy calls (SparseTable.ofCalls calls) := by
  apply List.foldlRecOn (motive := FilledBy calls)
  · constructor <;> simp [SparseTable.empty]
  · intro table filled call member
    exact filled.apply member

section Order

variable {cells order : List (CellKey × Cell)} (same : order.Perm cells)

include same

theorem numRows_eq_of_perm :
    numRows order = numRows cells := by
  apply same.foldl_eq'
  intro left _ right _ count
  omega

/-- Cells with distinct keys make up the same rows, in whichever order they are listed. -/
theorem rowOf_eq_of_perm
    (distinct : (cells.map (·.1)).Nodup)
    (state : StateId) :
    rowOf order state = rowOf cells state := by
  have samePerm : (rowOf order state).Perm (rowOf cells state) :=
    sortBy_perm.trans (((same.filter _).map _).trans sortBy_perm.symm)
  have sorted : ∀ cells : List (CellKey × Cell),
      (rowOf cells state).Pairwise fun left right =>
        decide (left.1 ≤ right.1) = true := by
    intro cells
    apply pairwise_sortBy
    · intro left middle right
      simpa using Nat.le_trans
    · intro left right
      simpa using Nat.le_total left.1 right.1
  apply samePerm.eq_of_pairwise _ (sorted order) (sorted cells)
  intro left right leftMember rightMember leftFirst rightFirst
  -- A row has no two cells in one column, so columns can be told apart by order.
  have sameColumn : left.1 = right.1 :=
    Nat.le_antisymm (by simpa using leftFirst) (by simpa using rightFirst)
  exact List.inj_on_of_nodup_map (nodup_columns_rowOf distinct)
    (samePerm.mem_iff.mp leftMember) rightMember sameColumn

/-- The packed table does not depend on the order in which the cells are listed. -/
theorem pack_eq_of_perm
    (distinct : (cells.map (·.1)).Nodup) :
    (SparseTable.mk order).pack = (SparseTable.mk cells).pack := by
  have sameRows : rowOf order = rowOf cells :=
    funext (rowOf_eq_of_perm same distinct)
  simp only [SparseTable.pack, numRows_eq_of_perm same, sameRows]

end Order

/-- There are as many rows as the states of the cells require. -/
theorem numRows_le
    {cells : List (CellKey × Cell)}
    {bound : Nat}
    (below : ∀ entry ∈ cells, entry.1.1 < bound) :
    numRows cells ≤ bound := by
  apply List.foldlRecOn (motive := (· ≤ bound))
  · exact Nat.zero_le bound
  · intro count small entry member
    exact Nat.max_le.mpr ⟨small, below entry member⟩

/-- The distinct cells and the empty one are stored, each once. -/
theorem SparseTable.numCells_pack
    {calls : List TableCall}
    {table : SparseTable}
    (filled : FilledBy calls table) :
    table.pack.numCells = (table.cells.map (·.2)).toFinset.card + 1 := by
  have placed := rowsPlaced_pack filled.distinct
  have stored : table.pack.cells.toList.toFinset =
      insert .empty (table.cells.map (·.2)).toFinset := by
    ext cell
    simp only [Finset.mem_insert, List.mem_toFinset, List.mem_map]
    constructor
    · intro member
      refine (placed.cells_used cell member).imp_right ?_
      rintro ⟨state, symbol, inRow⟩
      have found := ((mem_rows filled.distinct).mp inRow).1
      exact ⟨_, (lookup_eq_some_iff_mem filled.distinct).mp found, rfl⟩
    · rintro (rfl | ⟨⟨⟨state, symbol⟩, cell⟩, member, rfl⟩)
      · exact Alphabet.mem_toList_iff.mpr ⟨0, placed.empty_first⟩
      · obtain ⟨_, id, -, -, content⟩ := found_pack filled.distinct
          ((lookup_eq_some_iff_mem filled.distinct).mpr member)
          (filled.occupied _ member)
        exact Alphabet.mem_toList_iff.mpr ⟨id, content⟩
  have notEmpty : Cell.empty ∉ (table.cells.map (·.2)).toFinset := by
    simp only [List.mem_toFinset, List.mem_map]
    rintro ⟨entry, member, isEmpty⟩
    simpa [isEmpty, Cell.isEmpty, Cell.empty] using filled.occupied entry member
  calc table.pack.numCells
      = table.pack.cells.toList.length := by
        simp [PackedTable.numCells, Alphabet.size, Alphabet.toList]
    _ = table.pack.cells.toList.toFinset.card :=
        (List.toFinset_card_of_nodup table.pack.cells.distinct).symm
    _ = (table.cells.map (·.2)).toFinset.card + 1 := by
        rw [stored, Finset.card_insert_of_notMem notEmpty]

/-- The greatest machine word, which stands for the owner of a slot without one. -/
def noOwner : StateId :=
  2 ^ 64 - 1

namespace PackedTable

/-- The states that own the slots. -/
def ownerStates (table : PackedTable) : Array StateId :=
  table.slots.map fun slot => (slot.map (·.state)).getD noOwner

/-- The symbols that own the slots, zero for a slot without an owner. -/
def ownerSymbols (table : PackedTable) : Array SymbolId :=
  table.slots.map fun slot => (slot.map (·.symbol)).getD 0

/-- The numbers of the cells in the slots, zero for a slot without an owner. -/
def cellIds (table : PackedTable) : Array Nat :=
  table.slots.map fun slot => (slot.map (·.cell)).getD 0

/-- Look a cell up in the flat arrays: both owners must be the ones that ask. -/
def getChecked (table : PackedTable) (state : StateId) (symbol : SymbolId) : Cell :=
  let hit := table.offsets[state]?.bind fun offset =>
    if table.ownerStates[offset + symbol]? = some state ∧
        table.ownerSymbols[offset + symbol]? = some symbol then
      table.cellIds[offset + symbol]?
    else
      none
  (table.cells.get? (hit.getD 0)).getD .empty

/-- The array of owners names the owner of every slot that has one. -/
theorem getD_ownerStates
    {table : PackedTable}
    (index : Nat) :
    table.ownerStates.getD index noOwner =
      ((slotAt table.slots index).map (·.state)).getD noOwner := by
  simp only [ownerStates, slotAt, Array.getD_eq_getD_getElem?,
    Array.getElem?_map]
  cases table.slots[index]? <;> rfl

/-- The flat arrays tell every slot apart unless a state is the one without slots. -/
theorem getChecked_eq_get
    {table : PackedTable}
    (emptyFirst : table.cells.get? 0 = some .empty)
    (small : table.offsets.size ≤ noOwner)
    (state : StateId)
    (symbol : SymbolId) :
    table.getChecked state symbol = table.get state symbol := by
  unfold getChecked get slot?
  cases placedAt : table.offsets[state]? with
  | none => simp [emptyFirst]
  | some offset =>
      have known : state ≠ noOwner := by
        have inside := (Array.getElem?_eq_some_iff.mp placedAt).1
        exact Nat.ne_of_lt (Nat.lt_of_lt_of_le inside small)
      simp only [ownerStates, ownerSymbols, cellIds, Array.getElem?_map,
        Array.getD_eq_getD_getElem?]
      rcases stored : table.slots[offset + symbol]? with - | - | slot
      · simp [stored, emptyFirst]
      · simp [stored, emptyFirst, Ne.symm known]
      · by_cases owns : slot.state = state ∧ slot.symbol = symbol
        · simp [stored, owns]
        · simp [stored, owns, emptyFirst]

end PackedTable

/-- A packed table has everything that a table has, and nothing else. -/
structure PacksLosslessly (table : SparseTable) (packed : PackedTable) : Prop where
  /-- A look-up yields the cell, or the empty one if there is none. -/
  get :
    ∀ state symbol,
      packed.get state symbol = (table.get? state symbol).getD .empty
  /-- So does a look-up that compares the owners in two flat arrays. -/
  getChecked :
    ∀ state symbol,
      packed.getChecked state symbol = (table.get? state symbol).getD .empty
  /-- Every cell has a slot behind the offset of its state. -/
  placed :
    ∀ state symbol cell, table.get? state symbol = some cell →
      ∃ offset id, packed.offsets[(state : Nat)]? = some offset ∧
        slotAt packed.slots (offset + symbol) = some ⟨state, symbol, id⟩ ∧
        packed.cells.get? id = some cell
  /-- Every occupied slot is that of the cell of its owner. -/
  owned :
    ∀ index slot, slotAt packed.slots index = some slot →
      ∃ offset cell, packed.offsets[(slot.state : Nat)]? = some offset ∧
        index = offset + slot.symbol ∧
        table.get? slot.state slot.symbol = some cell ∧
        packed.cells.get? slot.cell = some cell
  /-- No two cells have one slot. -/
  unshared :
    ∀ left right : CellKey,
      (table.get? left.1 left.2).isSome = true →
      (table.get? right.1 right.2).isSome = true →
      ∀ leftOffset rightOffset,
        packed.offsets[(left.1 : Nat)]? = some leftOffset →
        packed.offsets[(right.1 : Nat)]? = some rightOffset →
        leftOffset + left.2 = rightOffset + right.2 →
        left = right
  /-- The array of owners marks exactly the slots that are free. -/
  free :
    ∀ index, packed.ownerStates.getD index noOwner = noOwner ↔
      slotAt packed.slots index = none
  /-- Equal cells are stored once, and one empty cell besides. -/
  numCells :
    packed.numCells = (table.cells.map (·.2)).toFinset.card + 1
  /-- Listing the cells in another order changes nothing. -/
  unordered :
    ∀ order, order.Perm table.cells → (SparseTable.mk order).pack = packed

namespace SparseTable

/--
Packing is lossless: whichever calls filled a table, the packed table answers every
look-up with the cell of the table, each slot has one owner, distinct cells are stored
once, and the order of the cells does not matter. The search for an offset always
finds one at which the row fits, the least.
-/
theorem pack_lossless
    (calls : List TableCall)
    (below : ∀ call ∈ calls, call.state < noOwner) :
    PacksLosslessly (ofCalls calls) (ofCalls calls).pack ∧
      ∀ slots row, fitsAt slots row (findOffset slots row) = true ∧
        ∀ offset < findOffset slots row, fitsAt slots row offset = false := by
  have filled := filledBy_ofCalls calls
  generalize ofCalls calls = table at filled ⊢
  have small : ∀ entry ∈ table.cells, entry.1.1 < noOwner := by
    intro entry member
    obtain ⟨call, isCall, same⟩ := filled.called entry member
    exact same ▸ below call isCall
  have rowsPlaced := rowsPlaced_pack filled.distinct
  have placed : ∀ state symbol cell, table.get? state symbol = some cell → _ :=
    fun state symbol cell stored => found_pack filled.distinct stored
      (filled.occupied _ ((lookup_eq_some_iff_mem filled.distinct).mp stored))
  refine ⟨?_, findOffset_spec⟩
  constructor
  case get =>
    exact get_pack filled.distinct
  case getChecked =>
    intro state symbol
    rw [PackedTable.getChecked_eq_get rowsPlaced.empty_first]
    · exact get_pack filled.distinct state symbol
    · rw [rowsPlaced.offsets_size]
      simpa [rows] using numRows_le small
  case placed =>
    exact placed
  case owned =>
    intro index slot stored
    obtain ⟨offset, cell, placedAt, position, own, -, content⟩ :=
      owned_pack filled.distinct stored
    exact ⟨offset, cell, placedAt, position, own, content⟩
  case unshared =>
    intro left right leftStored rightStored leftOffset rightOffset
      leftAt rightAt meet
    obtain ⟨leftCell, leftStored⟩ := Option.isSome_iff_exists.mp leftStored
    obtain ⟨rightCell, rightStored⟩ := Option.isSome_iff_exists.mp rightStored
    obtain ⟨_, leftId, leftPlaced, leftSlot, -⟩ := placed _ _ _ leftStored
    obtain ⟨_, rightId, rightPlaced, rightSlot, -⟩ := placed _ _ _ rightStored
    cases leftAt.symm.trans leftPlaced
    cases rightAt.symm.trans rightPlaced
    have sameSlot := leftSlot.symm.trans (meet ▸ rightSlot)
    simp only [Option.some.injEq, Slot.mk.injEq] at sameSlot
    exact Prod.ext sameSlot.1 sameSlot.2.1
  case free =>
    intro index
    rw [PackedTable.getD_ownerStates]
    cases stored : slotAt table.pack.slots index with
    | none => simp
    | some slot =>
        obtain ⟨-, cell, -, -, own, -⟩ := owned_pack filled.distinct stored
        have inTable := (lookup_eq_some_iff_mem filled.distinct).mp own
        simpa using Nat.ne_of_lt (small _ inTable)
  case numCells =>
    exact numCells_pack filled
  case unordered =>
    intro order same
    exact pack_eq_of_perm same filled.distinct

/--
Rows whose gaps are filled by other rows, states without a row, a rule that is added
twice and two states with equal cells are packed without loss.
-/
theorem pack_lossless_interleaved :
    let calls : List TableCall :=
      [.shift 2 0 1, .reduce 2 3 4, .reduce 2 3 4, .shift 0 1 3, .reduce 0 4 2,
        .shift 5 0 1, .shift 0 4 6]
    (∀ call ∈ calls, call.state < noOwner) ∧
      PacksLosslessly (ofCalls calls) (ofCalls calls).pack := by
  intro calls
  have below : ∀ call ∈ calls, call.state < noOwner := by decide
  exact ⟨below, (pack_lossless calls below).1⟩

end SparseTable

end SpanForest
