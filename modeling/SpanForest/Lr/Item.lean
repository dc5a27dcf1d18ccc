import SpanForest.Grammar.Basic

namespace SpanForest

/-!
# Items

An item is a rule with a cursor in its right-hand side. The closure of a list
of items adds, for every nonterminal behind a cursor, the items that stand at
the start of its rules.
-/

/-- A rule with the number of right-hand side positions already read. -/
structure Item where
  rule : RuleId
  cursor : Nat
  deriving Repr, DecidableEq, Inhabited

namespace Item

/-- The symbol behind the cursor. -/
def nextSymbol? (grammar : Grammar) (item : Item) : Option SymbolId :=
  (grammar.rule item.rule).symbols[item.cursor]?

/-- The item with the cursor behind the next symbol. -/
def advance (item : Item) : Item :=
  { item with cursor := item.cursor + 1 }

/-- Whether the cursor stands at the end. -/
def isComplete (grammar : Grammar) (item : Item) : Bool :=
  item.cursor == (grammar.rule item.rule).length

/-- The items at the start of the rules for a symbol. -/
def starting (grammar : Grammar) (lhs : SymbolId) : List Item :=
  (grammar.rulesFor lhs).map fun rule => ⟨rule.id, 0⟩

/-- The item by symbol numbers, with a dot for the cursor. -/
def render (grammar : Grammar) (item : Item) : String :=
  let rule := grammar.rule item.rule
  let symbols := rule.symbols.map toString
  " ".intercalate <|
    [toString rule.lhs, "→"] ++ symbols.take item.cursor ++ ["•"] ++
      symbols.drop item.cursor

end Item

/-- The items that `item` asks for and that `items` do not hold. -/
def predicted (grammar : Grammar) (items : List Item) (item : Item) : List Item :=
  match item.nextSymbol? grammar with
  | some symbol =>
      if grammar.isNonterminal symbol then
        (Item.starting grammar symbol).filter fun start =>
          !items.contains start
      else
        []
  | none => []

/--
Close `items` under prediction, where those before `index` were seen to.

New items go to the end, in the order of their rules.
-/
def closeFrom
    (grammar : Grammar) :
    Nat →
    (index : Nat) →
    List Item →
    List Item
  | 0, _, items => items
  | fuel + 1, index, items =>
      match items[index]? with
      | none => items
      | some item =>
          closeFrom grammar fuel (index + 1)
            (items ++ predicted grammar items item)

/--
The closure of a kernel.

Beyond the kernel there are at most as many items as rules, so the last item
is reached before the bound.
-/
def closure (grammar : Grammar) (kernel : List Item) : List Item :=
  closeFrom grammar (kernel.length + grammar.allRules.length + 1) 0 kernel

end SpanForest
