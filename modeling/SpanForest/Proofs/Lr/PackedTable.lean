import SpanForest.Lr.PackedTable
import SpanForest.Proofs.Alphabet
import SpanForest.Proofs.Lr.Table

namespace SpanForest

/-!
# Packing keeps every cell

Rows are placed one after the other, each where its columns meet free slots
only. So slots once occupied stay as they are, every cell of a placed row can
be found behind its row's offset, and every slot belongs to a cell of a placed
row. A look-up in the packed table is therefore a look-up in the sparse one.
-/

/-- The slot at a position, if there is one and it is occupied. -/
abbrev slotAt (slots : Array (Option Slot)) (index : Nat) : Option Slot :=
  slots.getD index none

/-- Growing the array and occupying a slot changes that slot only. -/
theorem slotAt_set
    (slots : Array (Option Slot))
    (slot : Slot)
    (index other : Nat) :
    slotAt
        ((slots ++ Array.replicate (index + 1 - slots.size) none).setIfInBounds
          index (some slot)) other =
      if other = index then some slot else slotAt slots other := by
  have grown : index < (slots ++
      Array.replicate (index + 1 - slots.size) (none : Option Slot)).size := by
    rw [Array.size_append, Array.size_replicate]
    omega
  simp only [slotAt, Array.getD_eq_getD_getElem?, Array.getElem?_setIfInBounds]
  by_cases same : other = index
  · subst same
    rw [if_pos rfl, if_pos grown, if_pos rfl]
    rfl
  · rw [if_neg (Ne.symm same), if_neg same]
    by_cases inside : other < slots.size
    · rw [Array.getElem?_append_left inside]
    · rw [Array.getElem?_append_right (by omega),
        Array.getElem?_eq_none (by omega : slots.size ≤ other),
        Array.getElem?_replicate]
      split <;> rfl

/-- What placing the cells of a row brings about. -/
structure CellsPlaced
    (state : StateId)
    (offset : Nat)
    (row : Row)
    (before after : Array (Option Slot) × Alphabet Cell) : Prop where
  cells_kept :
    ∀ id cell, before.2.get? id = some cell → after.2.get? id = some cell
  slots_kept :
    ∀ index slot, slotAt before.1 index = some slot →
      slotAt after.1 index = some slot
  placed :
    ∀ symbol cell, (symbol, cell) ∈ row →
      ∃ id, slotAt after.1 (offset + symbol) = some ⟨state, symbol, id⟩ ∧
        after.2.get? id = some cell
  owned :
    ∀ index slot, slotAt after.1 index = some slot →
      slotAt before.1 index = some slot ∨
        slot.state = state ∧ index = offset + slot.symbol ∧
          ∃ cell, (slot.symbol, cell) ∈ row ∧
            after.2.get? slot.cell = some cell
  cells_new :
    ∀ cell ∈ after.2.toList,
      cell ∈ before.2.toList ∨ ∃ symbol, (symbol, cell) ∈ row

namespace CellsPlaced

variable {state : StateId} {offset : Nat} {first rest : Row}
variable {before between after : Array (Option Slot) × Alphabet Cell}

/-- Placing no cell changes nothing. -/
theorem nil : CellsPlaced state offset [] before before where
  cells_kept _ _ stored := stored
  slots_kept _ _ stored := stored
  placed _ _ member := by cases member
  owned _ _ stored := .inl stored
  cells_new _ member := .inl member

/-- Cells that are placed stay when further ones are. -/
theorem append
    (early : CellsPlaced state offset first before between)
    (late : CellsPlaced state offset rest between after) :
    CellsPlaced state offset (first ++ rest) before after where
  cells_kept id cell stored :=
    late.cells_kept id cell (early.cells_kept id cell stored)
  slots_kept index slot stored :=
    late.slots_kept index slot (early.slots_kept index slot stored)
  placed symbol cell member := by
    rcases List.mem_append.mp member with inFirst | inRest
    · obtain ⟨id, stored, content⟩ := early.placed symbol cell inFirst
      exact ⟨id, late.slots_kept _ _ stored, late.cells_kept _ _ content⟩
    · exact late.placed symbol cell inRest
  owned index slot stored := by
    rcases late.owned index slot stored with
      old | ⟨own, position, cell, inRest, content⟩
    · refine (early.owned index slot old).imp_right ?_
      rintro ⟨own, position, cell, inFirst, content⟩
      exact ⟨own, position, cell, List.mem_append_left rest inFirst,
        late.cells_kept _ _ content⟩
    · exact .inr
        ⟨own, position, cell, List.mem_append_right first inRest, content⟩
  cells_new cell member := by
    rcases late.cells_new cell member with old | ⟨symbol, inRest⟩
    · refine (early.cells_new cell old).imp_right ?_
      rintro ⟨symbol, inFirst⟩
      exact ⟨symbol, List.mem_append_left rest inFirst⟩
    · exact .inr ⟨symbol, List.mem_append_right first inRest⟩

/-- One cell is placed in a free slot. -/
theorem single
    {slots grown : Array (Option Slot)}
    {symbol : SymbolId}
    {cell : Cell}
    (cells : Alphabet Cell)
    (free : slotAt slots (offset + symbol) = none)
    (set : ∀ index, slotAt grown index =
      if index = offset + symbol then
        some ⟨state, symbol, (cells.intern cell).1⟩
      else
        slotAt slots index) :
    CellsPlaced state offset [(symbol, cell)] (slots, cells)
      (grown, (cells.intern cell).2) where
  cells_kept := Alphabet.extends_intern cells cell
  slots_kept index slot stored := by
    have differs : index ≠ offset + symbol := by
      rintro rfl
      rw [free] at stored
      cases stored
    rw [set, if_neg differs]
    exact stored
  placed label content member := by
    cases List.mem_singleton.mp member
    exact ⟨_, (set _).trans (if_pos rfl), Alphabet.get?_intern cells cell⟩
  owned index slot stored := by
    rw [set] at stored
    split at stored
    · rename_i here
      cases stored
      exact .inr ⟨rfl, here, cell, List.mem_singleton_self _,
        Alphabet.get?_intern cells cell⟩
    · exact .inl stored
  cells_new content member := by
    refine (Alphabet.mem_toList_intern member).imp_right ?_
    rintro rfl
    exact ⟨symbol, List.mem_singleton_self _⟩

end CellsPlaced

/-- Distinct columns are placed in free slots. -/
theorem cellsPlaced_placeCells
    (state : StateId)
    {offset : Nat}
    {row : Row}
    {slots : Array (Option Slot)}
    (cells : Alphabet Cell)
    (distinct : (row.map (·.1)).Nodup)
    (free : ∀ entry ∈ row, slotAt slots (offset + entry.1) = none) :
    CellsPlaced state offset row (slots, cells)
      (placeCells state offset row (slots, cells)) := by
  induction row generalizing slots cells with
  | nil => exact .nil
  | cons entry rest inductionHypothesis =>
      obtain ⟨symbol, cell⟩ := entry
      obtain ⟨absent, restDistinct⟩ := List.nodup_cons.mp distinct
      have set := slotAt_set slots ⟨state, symbol, (cells.intern cell).1⟩
        (offset + symbol)
      apply (CellsPlaced.single cells (free _ List.mem_cons_self) set).append
      apply inductionHypothesis _ restDistinct
      intro other member
      have differs : offset + other.1 ≠ offset + symbol := by
        intro same
        apply absent
        exact List.mem_map.mpr ⟨other, member, Nat.add_left_cancel same⟩
      rw [set, if_neg differs]
      exact free other (List.mem_cons_of_mem _ member)

/-- A row fits at the offset that is found and at no smaller one. -/
theorem findOffset_spec
    (slots : Array (Option Slot))
    (row : Row) :
    fitsAt slots row (findOffset slots row) = true ∧
      ∀ offset < findOffset slots row, fitsAt slots row offset = false := by
  unfold findOffset
  cases found : (List.range slots.size).find? (fitsAt slots row) with
  | some least =>
      obtain ⟨fits, -, smaller⟩ := List.find?_range_eq_some.mp found
      exact ⟨fits, fun offset before => by simpa using smaller offset before⟩
  | none =>
      -- Behind all slots nothing is occupied.
      refine ⟨by simp [fitsAt, Array.getD_eq_getD_getElem?], ?_⟩
      intro offset before
      have unfit := List.find?_eq_none.mp found offset (List.mem_range.mpr before)
      simpa using unfit

/-- Every column of a row meets a free slot at the offset that is found. -/
theorem free_findOffset
    (slots : Array (Option Slot))
    (row : Row) :
    ∀ entry ∈ row, slotAt slots (findOffset slots row + entry.1) = none := by
  intro entry member
  have isFree := List.all_eq_true.mp (findOffset_spec slots row).1 entry member
  simpa using isFree

/-- What holds when the rows of some states are placed. -/
structure RowsPlaced
    (rows : Array Row)
    (placed : List StateId)
    (table : PackedTable) : Prop where
  offsets_size : table.offsets.size = rows.size
  found :
    ∀ state ∈ placed, ∀ symbol cell, (symbol, cell) ∈ rows.getD state [] →
      ∃ offset id, table.offsets[(state : Nat)]? = some offset ∧
        slotAt table.slots (offset + symbol) = some ⟨state, symbol, id⟩ ∧
        table.cells.get? id = some cell
  owned :
    ∀ index slot, slotAt table.slots index = some slot →
      slot.state ∈ placed ∧
        (∃ offset, table.offsets[(slot.state : Nat)]? = some offset ∧
          index = offset + slot.symbol) ∧
        ∃ cell, (slot.symbol, cell) ∈ rows.getD slot.state [] ∧
          table.cells.get? slot.cell = some cell
  empty_first : table.cells.get? 0 = some .empty
  cells_used :
    ∀ cell ∈ table.cells.toList,
      cell = .empty ∨ ∃ state symbol, (symbol, cell) ∈ rows.getD state []

namespace RowsPlaced

variable {rows : Array Row} {placed : List StateId} {table : PackedTable}
variable {state : StateId}

/-- A state without cells counts as placed. -/
theorem withoutRow
    (rowsPlaced : RowsPlaced rows placed table)
    (empty : rows.getD state [] = []) :
    RowsPlaced rows (placed ++ [state]) table where
  offsets_size := rowsPlaced.offsets_size
  found other member symbol cell inRow := by
    rcases List.mem_append.mp member with old | new
    · exact rowsPlaced.found other old symbol cell inRow
    · rw [List.mem_singleton.mp new, empty] at inRow
      cases inRow
  owned index slot stored := by
    obtain ⟨member, owner⟩ := rowsPlaced.owned index slot stored
    exact ⟨List.mem_append_left _ member, owner⟩
  empty_first := rowsPlaced.empty_first
  cells_used := rowsPlaced.cells_used

/-- The cells of one more row are placed, at an offset of their own. -/
theorem withRow
    (rowsPlaced : RowsPlaced rows placed table)
    (inside : state < rows.size)
    (fresh : state ∉ placed)
    {offset : Nat}
    {after : Array (Option Slot) × Alphabet Cell}
    (cellsPlaced : CellsPlaced state offset (rows.getD state [])
      (table.slots, table.cells) after) :
    RowsPlaced rows (placed ++ [state])
      ⟨table.offsets.setIfInBounds state offset, after.1, after.2⟩ := by
  have ownOffset : (table.offsets.setIfInBounds state offset)[(state : Nat)]? =
      some offset := by
    have inOffsets := rowsPlaced.offsets_size ▸ inside
    simp [inOffsets]
  have otherOffset : ∀ other ∈ placed,
      (table.offsets.setIfInBounds state offset)[(other : Nat)]? =
        table.offsets[(other : Nat)]? := by
    intro other old
    have differs : state ≠ other := by
      rintro rfl
      exact fresh old
    rw [Array.getElem?_setIfInBounds, if_neg differs]
  constructor
  case offsets_size =>
    simpa using rowsPlaced.offsets_size
  case found =>
    intro other member symbol cell inRow
    rcases List.mem_append.mp member with old | new
    · obtain ⟨own, id, placedAt, stored, content⟩ :=
        rowsPlaced.found other old symbol cell inRow
      exact ⟨own, id, (otherOffset other old).trans placedAt,
        cellsPlaced.slots_kept _ _ stored,
        cellsPlaced.cells_kept _ _ content⟩
    · cases List.mem_singleton.mp new
      obtain ⟨id, stored, content⟩ := cellsPlaced.placed symbol cell inRow
      exact ⟨offset, id, ownOffset, stored, content⟩
  case owned =>
    intro index slot stored
    rcases cellsPlaced.owned index slot stored with
      before | ⟨own, position, cell, inRow, content⟩
    · obtain ⟨member, ⟨other, placedAt, position⟩, cell, inRow, content⟩ :=
        rowsPlaced.owned index slot before
      exact ⟨List.mem_append_left _ member,
        ⟨other, (otherOffset _ member).trans placedAt, position⟩,
        cell, inRow, cellsPlaced.cells_kept _ _ content⟩
    · rw [own]
      exact ⟨by simp, ⟨offset, ownOffset, position⟩, cell, inRow, content⟩
  case empty_first =>
    exact cellsPlaced.cells_kept _ _ rowsPlaced.empty_first
  case cells_used =>
    intro cell member
    rcases cellsPlaced.cells_new cell member with before | ⟨symbol, inRow⟩
    · exact rowsPlaced.cells_used cell before
    · exact .inr ⟨state, symbol, inRow⟩

/-- Placing the row of one more state. -/
theorem placeRow
    (rowsPlaced : RowsPlaced rows placed table)
    (distinct : ((rows.getD state []).map (·.1)).Nodup)
    (inside : state < rows.size)
    (fresh : state ∉ placed) :
    RowsPlaced rows (placed ++ [state]) (SpanForest.placeRow rows table state) := by
  unfold SpanForest.placeRow
  split
  · rename_i empty
    exact rowsPlaced.withoutRow empty
  · apply rowsPlaced.withRow inside fresh
    exact cellsPlaced_placeCells state table.cells distinct
      (free_findOffset table.slots (rows.getD state []))

end RowsPlaced

/-- Placing rows of distinct states from an empty table on. -/
theorem rowsPlaced_foldl
    {rows : Array Row}
    {start : PackedTable}
    (initial : RowsPlaced rows [] start)
    (rowsDistinct : ∀ state, ((rows.getD state []).map (·.1)).Nodup)
    {order : List StateId}
    (orderDistinct : order.Nodup)
    (inside : ∀ state ∈ order, state < rows.size) :
    RowsPlaced rows order (order.foldl (placeRow rows) start) := by
  induction order using List.reverseRecOn with
  | nil =>
      exact initial
  | append_singleton order last inductionHypothesis =>
      obtain ⟨before, -, apart⟩ := List.nodup_append.mp orderDistinct
      rw [List.foldl_append]
      refine (inductionHypothesis before fun state member =>
        inside state (by simp [member])).placeRow (rowsDistinct last)
          (inside last (by simp)) ?_
      intro member
      exact apart last member last (by simp) rfl

section Rows

variable {cells : List (CellKey × Cell)} {state : StateId}

/-- A row holds the cells of its state that have actions. -/
theorem mem_rowOf
    {symbol : SymbolId}
    {cell : Cell} :
    (symbol, cell) ∈ rowOf cells state ↔
      ((state, symbol), cell) ∈ cells ∧ cell.isEmpty = false := by
  simp only [rowOf, mem_sortBy, List.mem_map, List.mem_filter]
  constructor
  · rintro ⟨⟨⟨owner, label⟩, content⟩, ⟨member, accepted⟩, same⟩
    cases same
    simp only [Bool.and_eq_true, beq_iff_eq, Bool.not_eq_true'] at accepted
    exact ⟨accepted.1 ▸ member, accepted.2⟩
  · rintro ⟨member, occupied⟩
    exact ⟨_, ⟨member, by simp [occupied]⟩, rfl⟩

/-- The columns of a row are distinct if the keys of the cells are. -/
theorem nodup_columns_rowOf
    (distinct : (cells.map (·.1)).Nodup) :
    ((rowOf cells state).map (·.1)).Nodup := by
  have sorted : ((rowOf cells state).map (·.1)).Perm
      ((cells.filter fun entry =>
        entry.1.1 == state && !entry.2.isEmpty).map fun entry => entry.1.2) := by
    refine (sortBy_perm.map _).trans ?_
    rw [List.map_map]
    exact .refl _
  refine sorted.nodup_iff.mpr ?_
  have owned := (List.pairwise_map.mp distinct).filter
    fun entry => entry.1.1 == state && !entry.2.isEmpty
  refine List.pairwise_map.mpr (owned.imp_of_mem ?_)
  intro left right leftMember rightMember differs same
  have leftOwner := (List.mem_filter.mp leftMember).2
  have rightOwner := (List.mem_filter.mp rightMember).2
  simp only [Bool.and_eq_true, beq_iff_eq] at leftOwner rightOwner
  exact differs (Prod.ext (leftOwner.1.trans rightOwner.1.symm) same)

/-- Every state with a cell has a row. -/
theorem lt_numRows
    {entry : CellKey × Cell}
    (member : entry ∈ cells) :
    entry.1.1 < numRows cells := by
  have grows : ∀ (rest : List (CellKey × Cell)) (count : Nat),
      count ≤ rest.foldl (fun count entry => max count (entry.1.1 + 1)) count ∧
        ∀ entry ∈ rest, entry.1.1 <
          rest.foldl (fun count entry => max count (entry.1.1 + 1)) count := by
    intro rest
    induction rest with
    | nil =>
        simp
    | cons first rest inductionHypothesis =>
        intro count
        obtain ⟨larger, covered⟩ :=
          inductionHypothesis (max count (first.1.1 + 1))
        rw [List.foldl_cons]
        refine ⟨by omega, fun entry member => ?_⟩
        rcases List.mem_cons.mp member with same | later
        · subst same
          exact Nat.lt_of_lt_of_le (by omega) larger
        · exact covered entry later
  exact (grows cells 0).2 entry member

end Rows

/-- The states are placed each once. -/
theorem packingOrder_perm (rows : Array Row) :
    (packingOrder rows).Perm (List.range rows.size) :=
  sortBy_perm

namespace SparseTable

variable {table : SparseTable} {state : StateId} {symbol : SymbolId}

/-- The rows that are packed, by state. -/
def rows (table : SparseTable) : Array Row :=
  ((List.range (numRows table.cells)).map (rowOf table.cells)).toArray

theorem getD_rows :
    table.rows.getD state [] =
      if state < numRows table.cells then rowOf table.cells state else [] := by
  rw [Array.getD_eq_getD_getElem?]
  by_cases inside : state < numRows table.cells <;> simp [rows, inside]

variable (distinct : (table.cells.map (·.1)).Nodup)

include distinct

/-- The rows hold the cells that have actions. -/
theorem mem_rows
    {cell : Cell} :
    (symbol, cell) ∈ table.rows.getD state [] ↔
      table.get? state symbol = some cell ∧ cell.isEmpty = false := by
  rw [getD_rows, get?, lookup_eq_some_iff_mem distinct]
  constructor
  · intro member
    split at member
    · exact mem_rowOf.mp member
    · simp at member
  · rintro ⟨member, occupied⟩
    rw [if_pos (lt_numRows member)]
    exact mem_rowOf.mpr ⟨member, occupied⟩

/-- Packing places all rows. -/
theorem rowsPlaced_pack :
    RowsPlaced table.rows (packingOrder table.rows) table.pack := by
  have onlyEmpty : ∀ cell ∈ (Alphabet.empty.intern Cell.empty).2.toList,
      cell = .empty := by
    intro cell member
    simpa [Alphabet.toList, Alphabet.empty] using
      Alphabet.mem_toList_intern member
  apply rowsPlaced_foldl
  · exact ⟨by simp [rows], by simp, by simp [slotAt], rfl,
      fun cell member => .inl (onlyEmpty cell member)⟩
  · intro id
    rw [getD_rows]
    split
    · exact nodup_columns_rowOf distinct
    · simp
  · exact (packingOrder_perm table.rows).nodup_iff.mpr List.nodup_range
  · intro id member
    exact List.mem_range.mp ((packingOrder_perm table.rows).mem_iff.mp member)

/-- A cell with actions stands in its own slot behind the offset of its state. -/
theorem found_pack
    {cell : Cell}
    (stored : table.get? state symbol = some cell)
    (occupied : cell.isEmpty = false) :
    ∃ offset id, table.pack.offsets[(state : Nat)]? = some offset ∧
      slotAt table.pack.slots (offset + symbol) = some ⟨state, symbol, id⟩ ∧
      table.pack.cells.get? id = some cell := by
  have inRow := (mem_rows distinct).mpr ⟨stored, occupied⟩
  apply (rowsPlaced_pack distinct).found state _ symbol cell inRow
  apply (packingOrder_perm table.rows).mem_iff.mpr
  apply List.mem_range.mpr
  refine Nat.lt_of_not_le fun outside => ?_
  simp [Array.getD_eq_getD_getElem?, outside] at inRow

/-- An occupied slot holds the cell of its owner behind the owner's offset. -/
theorem owned_pack
    {index : Nat}
    {slot : Slot}
    (stored : slotAt table.pack.slots index = some slot) :
    ∃ offset cell, table.pack.offsets[(slot.state : Nat)]? = some offset ∧
      index = offset + slot.symbol ∧
      table.get? slot.state slot.symbol = some cell ∧ cell.isEmpty = false ∧
      table.pack.cells.get? slot.cell = some cell := by
  obtain ⟨-, ⟨offset, placedAt, position⟩, cell, inRow, content⟩ :=
    (rowsPlaced_pack distinct).owned index slot stored
  obtain ⟨own, occupied⟩ := (mem_rows distinct).mp inRow
  exact ⟨offset, cell, placedAt, position, own, occupied, content⟩

/-- A look-up in a packed table yields the cell of the table that was packed. -/
theorem get_pack
    (state : StateId)
    (symbol : SymbolId) :
    table.pack.get state symbol = table.cell state symbol := by
  by_cases occupied : (table.cell state symbol).isEmpty = false
  · have stored : table.get? state symbol = some (table.cell state symbol) := by
      rw [cell] at occupied ⊢
      cases stored : table.get? state symbol with
      | some cell => rfl
      | none => simp [stored, Cell.isEmpty, Cell.empty] at occupied
    obtain ⟨offset, id, found, stored, content⟩ :=
      found_pack distinct stored occupied
    have owns : table.pack.slot? state symbol = some ⟨state, symbol, id⟩ := by
      simp only [PackedTable.slot?, found, stored, Option.bind_eq_bind,
        Option.bind_some, and_self, if_true]
    rw [PackedTable.get, owns]
    simp [content]
  · have isEmpty : table.cell state symbol = .empty := by
      generalize table.cell state symbol = cell at occupied
      obtain ⟨shift, reduces⟩ := cell
      simp [Cell.isEmpty] at occupied
      rw [occupied.1, occupied.2]
      rfl
    have ownsNone : table.pack.slot? state symbol = none := by
      refine Option.eq_none_iff_forall_ne_some.mpr ?_
      intro slot owns
      simp only [PackedTable.slot?, Option.bind_eq_bind,
        Option.bind_eq_some_iff] at owns
      obtain ⟨offset, -, slot', stored, same⟩ := owns
      split at same
      · rename_i own
        cases same
        obtain ⟨-, content, -, -, member, used, -⟩ := owned_pack distinct stored
        rw [own.1, own.2] at member
        refine occupied ?_
        rw [SparseTable.cell, member]
        exact used
      · cases same
    rw [PackedTable.get, ownsNone, isEmpty]

end SparseTable

end SpanForest
