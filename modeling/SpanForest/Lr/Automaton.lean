import SpanForest.Lr.Item
import SpanForest.Sorting

namespace SpanForest

/-!
# The item automaton

States are closed item lists, each determined by its kernel: the items reached
by reading one symbol. States are numbered breadth first, the edges of a state
in the order of their symbols, so the numbering depends on the grammar alone.
-/

/-- A state with its edges, ordered by symbol. -/
structure LrState where
  items : List Item
  edges : List (SymbolId × StateId)
  deriving Repr, DecidableEq, Inhabited

/-- The symbols behind the cursors of items, in ascending order. -/
def nextSymbols (grammar : Grammar) (items : List Item) : List SymbolId :=
  sortBy (· ≤ ·) (items.filterMap (·.nextSymbol? grammar)).eraseDups

/-- The kernel reached by reading `symbol`; items keep their order. -/
def shiftedKernel
    (grammar : Grammar)
    (items : List Item)
    (symbol : SymbolId) :
    List Item :=
  (items.filter (·.nextSymbol? grammar == some symbol)).map Item.advance

/-- The kernels reached from a state, by symbol. -/
def shiftedKernels
    (grammar : Grammar)
    (items : List Item) :
    List (SymbolId × List Item) :=
  (nextSymbols grammar items).map fun symbol =>
    (symbol, shiftedKernel grammar items symbol)

/-- Number kernels, new ones behind those known; the numbers become edges. -/
def numberKernels :
    List (SymbolId × List Item) →
    Array (List Item) →
    List (SymbolId × StateId) × Array (List Item)
  | [], kernels => ([], kernels)
  | (symbol, kernel) :: rest, kernels =>
      let (target, known) :=
        match kernels.findIdx? (· == kernel) with
        | some target => (target, kernels)
        | none => (kernels.size, kernels.push kernel)
      let (edges, all) := numberKernels rest known
      ((symbol, target) :: edges, all)

/-- Build the states of the kernels from the first one without a state on. -/
def exploreKernels
    (grammar : Grammar) :
    Nat →
    (states : Array LrState) →
    (kernels : Array (List Item)) →
    Array LrState
  | 0, states, _ => states
  | fuel + 1, states, kernels =>
      match kernels[states.size]? with
      | none => states
      | some kernel =>
          let items := closure grammar kernel
          let (edges, known) :=
            numberKernels (shiftedKernels grammar items) kernels
          exploreKernels grammar fuel (states.push ⟨items, edges⟩) known

/-- The states of a grammar, numbered from the start state. -/
structure Automaton where
  states : Array LrState
  deriving Repr, DecidableEq, Inhabited

namespace Automaton

/-- Number of items of a grammar. -/
def numItems (grammar : Grammar) : Nat :=
  (grammar.allRules.map fun rule => rule.length + 1).foldr (· + ·) 0

/--
The automaton of a grammar with its root rule.

Kernels are lists of distinct items, which bounds the number of states.
-/
def ofGrammar (grammar : Grammar) : Automaton :=
  let count := numItems grammar
  ⟨exploreKernels grammar (Nat.pow (count + 1) count + 1) #[]
    #[[⟨grammar.rules.size, 0⟩]]⟩

/-- Number of states. -/
def numStates (automaton : Automaton) : Nat :=
  automaton.states.size

/-- The state with a given number, without items if there is none. -/
def state (automaton : Automaton) (id : StateId) : LrState :=
  automaton.states.getD id ⟨[], []⟩

/-- The state reached from a state by reading a symbol. -/
def goto?
    (automaton : Automaton)
    (id : StateId)
    (symbol : SymbolId) :
    Option StateId :=
  (automaton.state id).edges.lookup symbol

end Automaton

end SpanForest
