import SpanForest.Alphabet
import SpanForest.Lr.Table
import SpanForest.Sorting

namespace SpanForest

/-!
# Packed action tables

The rows of the states are laid over one another in a single array. Each row
has an offset at which its occupied columns meet only free slots, and every
slot names the state and symbol that own it, so that a look-up can tell its own
slot from another row's. Equal cells are stored once.
-/

/-- An occupied slot. -/
structure Slot where
  state : StateId
  symbol : SymbolId
  /-- The number of the cell. -/
  cell : Nat
  deriving Repr, DecidableEq, Inhabited

/-- The occupied columns of one state, by symbol. -/
abbrev Row := List (SymbolId × Cell)

/-- A table for look-ups. -/
structure PackedTable where
  /-- Offset of every state's row. -/
  offsets : Array Nat
  slots : Array (Option Slot)
  /-- Distinct cells, the empty one first. -/
  cells : Alphabet Cell
  deriving Inhabited

/-- Number of states that have a row: one more than the greatest used state. -/
def numRows (cells : List (CellKey × Cell)) : Nat :=
  cells.foldl (fun count entry => max count (entry.1.1 + 1)) 0

/-- The row of a state: its cells with actions, in the order of their symbols. -/
def rowOf (cells : List (CellKey × Cell)) (state : StateId) : Row :=
  sortBy (fun left right => left.1 ≤ right.1) <|
    (cells.filter fun entry =>
      entry.1.1 == state && !entry.2.isEmpty).map fun entry =>
        (entry.1.2, entry.2)

/-- States by row length, the longest first; equal lengths by number. -/
def packingOrder (rows : Array Row) : List StateId :=
  let lengthOf (state : StateId) := (rows.getD state []).length
  sortBy
    (fun left right =>
      lengthOf right < lengthOf left ||
        (lengthOf right == lengthOf left && left ≤ right))
    (List.range rows.size)

/-- Whether every column of a row meets a free slot at the given offset. -/
def fitsAt (slots : Array (Option Slot)) (row : Row) (offset : Nat) : Bool :=
  row.all fun (symbol, _) => (slots.getD (offset + symbol) none).isNone

/-- The least offset at which a row fits; behind all slots it always does. -/
def findOffset (slots : Array (Option Slot)) (row : Row) : Nat :=
  ((List.range slots.size).find? (fitsAt slots row)).getD slots.size

/-- Occupy the slots of a row, numbering its cells. -/
def placeCells
    (state : StateId)
    (offset : Nat) :
    Row →
    Array (Option Slot) × Alphabet Cell →
    Array (Option Slot) × Alphabet Cell
  | [], packed => packed
  | (symbol, cell) :: rest, (slots, cells) =>
      let (id, cells) := cells.intern cell
      let index := offset + symbol
      let grown := slots ++ Array.replicate (index + 1 - slots.size) none
      placeCells state offset rest
        (grown.setIfInBounds index (some ⟨state, symbol, id⟩), cells)

/-- Place the row of one state; a state without cells stays at offset zero. -/
def placeRow
    (rows : Array Row)
    (table : PackedTable)
    (state : StateId) :
    PackedTable :=
  match rows.getD state [] with
  | [] => table
  | row =>
      let offset := findOffset table.slots row
      let (slots, cells) :=
        placeCells state offset row (table.slots, table.cells)
      ⟨table.offsets.setIfInBounds state offset, slots, cells⟩

/-- Pack a table. -/
def SparseTable.pack (table : SparseTable) : PackedTable :=
  let count := numRows table.cells
  let rows := ((List.range count).map (rowOf table.cells)).toArray
  (packingOrder rows).foldl (placeRow rows)
    ⟨Array.replicate count 0, #[], (Alphabet.empty.intern Cell.empty).2⟩

namespace PackedTable

/-- The slot that a state and a symbol own, if they own one. -/
def slot? (table : PackedTable) (state : StateId) (symbol : SymbolId) : Option Slot := do
  let offset ← table.offsets[state]?
  let slot ← table.slots.getD (offset + symbol) none
  if slot.state = state ∧ slot.symbol = symbol then some slot else none

/-- The cell of a state and a symbol, the empty one if they have none. -/
def get (table : PackedTable) (state : StateId) (symbol : SymbolId) : Cell :=
  match table.slot? state symbol with
  | some slot => (table.cells.get? slot.cell).getD .empty
  | none => .empty

/-- The state reached from a state by reading a symbol. -/
def goto?
    (table : PackedTable)
    (state : StateId)
    (symbol : SymbolId) :
    Option StateId :=
  (table.get state symbol).shift

/-- Number of states with a row. -/
def numStates (table : PackedTable) : Nat :=
  table.offsets.size

/-- Number of slots. -/
def size (table : PackedTable) : Nat :=
  table.slots.size

/-- Whether there is no slot. -/
def isEmpty (table : PackedTable) : Bool :=
  table.slots.isEmpty

/-- Number of distinct cells, the empty one included. -/
def numCells (table : PackedTable) : Nat :=
  table.cells.size

/-- Number of occupied slots. -/
def numUsed (table : PackedTable) : Nat :=
  table.slots.countP Option.isSome

/-- The measures of the table on one line. -/
def render (table : PackedTable) : String :=
  "GlrTable \x7b states: " ++ toString table.numStates ++
    ", slots: " ++ toString table.size ++
    ", used: " ++ toString table.numUsed ++
    ", cells: " ++ toString table.numCells ++ " \x7d"

end PackedTable

end SpanForest
