import SpanForest.Grammar.Follow
import SpanForest.Lr.Automaton

namespace SpanForest

/-!
# Action tables

A cell says where a state goes by a symbol and which rules it reduces with that
symbol ahead. Several actions may share a cell; the parser follows all of them.
-/

/-- The actions of one state on one symbol. -/
structure Cell where
  /-- The state reached by reading the symbol. -/
  shift : Option StateId
  /-- Rules to reduce, each once, in the order in which they were added. -/
  reduces : List RuleId
  deriving Repr, DecidableEq, Inhabited

/-- The cell without actions. -/
def Cell.empty : Cell :=
  ⟨none, []⟩

/-- Whether the cell has no action. -/
def Cell.isEmpty (cell : Cell) : Bool :=
  cell.shift.isNone && cell.reduces.isEmpty

/-- The cell with one more rule to reduce, unless it holds that rule. -/
def Cell.withReduce (cell : Cell) (rule : RuleId) : Cell :=
  if cell.reduces.contains rule then
    cell
  else
    { cell with reduces := cell.reduces ++ [rule] }

/-- A state and a symbol. -/
abbrev CellKey := StateId × SymbolId

/-- Cells by state and symbol, each key once, in the order of their first use. -/
structure SparseTable where
  cells : List (CellKey × Cell)
  deriving Repr, DecidableEq, Inhabited

/-- Change the cell of a key; a key without one starts from the empty cell. -/
def updateCell
    (key : CellKey)
    (change : Cell → Cell) :
    List (CellKey × Cell) →
    List (CellKey × Cell)
  | [] => [(key, change .empty)]
  | (other, cell) :: rest =>
      if other = key then
        (other, change cell) :: rest
      else
        (other, cell) :: updateCell key change rest

namespace SparseTable

/-- The table without cells. -/
def empty : SparseTable :=
  ⟨[]⟩

/-- Let a state go to another by a symbol. -/
def addShift
    (table : SparseTable)
    (state : StateId)
    (symbol : SymbolId)
    (target : StateId) :
    SparseTable :=
  ⟨updateCell (state, symbol) (fun cell => { cell with shift := some target })
    table.cells⟩

/-- Let a state reduce a rule with a symbol ahead. -/
def addReduce
    (table : SparseTable)
    (state : StateId)
    (symbol : SymbolId)
    (rule : RuleId) :
    SparseTable :=
  ⟨updateCell (state, symbol) (·.withReduce rule) table.cells⟩

/-- The cell of a state and a symbol. -/
def get?
    (table : SparseTable)
    (state : StateId)
    (symbol : SymbolId) :
    Option Cell :=
  table.cells.lookup (state, symbol)

/-- Number of cells. -/
def size (table : SparseTable) : Nat :=
  table.cells.length

/-- Whether there is no cell. -/
def isEmpty (table : SparseTable) : Bool :=
  table.cells.isEmpty

/-- Add the edges of a state; the end of the input is never read. -/
def addEdges
    (table : SparseTable)
    (state : StateId)
    (edges : List (SymbolId × StateId)) :
    SparseTable :=
  (edges.filter (·.1 != endOfInput)).foldl
    (fun current edge => current.addShift state edge.1 edge.2)
    table

/-- Add the reductions of a state: complete items under what may follow them. -/
def addReductions
    (table : SparseTable)
    (grammar : Grammar)
    (follow : FollowSets)
    (state : StateId)
    (items : List Item) :
    SparseTable :=
  let complete := items.filter fun item =>
    item.isComplete grammar && (grammar.rule item.rule).lhs != rootSymbol
  complete.foldl
    (fun current item =>
      (follow.get (grammar.rule item.rule).lhs).toList.foldl
        (fun current symbol => current.addReduce state symbol item.rule)
        current)
    table

/-- Add the actions of a state. -/
def addState
    (grammar : Grammar)
    (follow : FollowSets)
    (table : SparseTable)
    (id : StateId)
    (state : LrState) :
    SparseTable :=
  (table.addEdges id state.edges).addReductions grammar follow id state.items

/-- The table of an automaton. -/
def ofAutomaton
    (grammar : Grammar)
    (automaton : Automaton)
    (follow : FollowSets) :
    SparseTable :=
  automaton.states.toList.zipIdx.foldl
    (fun table (state, id) => table.addState grammar follow id state)
    empty

end SparseTable

end SpanForest
