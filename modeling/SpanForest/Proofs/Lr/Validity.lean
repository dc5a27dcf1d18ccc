import SpanForest.Proofs.Lr.Closure

namespace SpanForest

/-!
# Valid items

The items of a grammar are the states of a nondeterministic automaton that reads
symbol strings. An item is valid for a string if the automaton can reach it by
reading that string. The items valid for a longer string are what the items
that read its last symbol predict.
-/

/-- The item `S' → • start $`. -/
def Grammar.rootItem (grammar : Grammar) : Item :=
  ⟨grammar.rules.size, 0⟩

/-- Whether an item can be reached by reading a string of symbols. -/
inductive ValidItem (grammar : Grammar) : List SymbolId → Item → Prop where
  | start :
      ValidItem grammar [] grammar.rootItem
  | advance {read : List SymbolId} {item : Item} {symbol : SymbolId} :
      ValidItem grammar read item →
      item.nextSymbol? grammar = some symbol →
      ValidItem grammar (read ++ [symbol]) item.advance
  | predict {read : List SymbolId} {item : Item} {rule : Rule} :
      ValidItem grammar read item →
      item.nextSymbol? grammar = some rule.lhs →
      grammar.isNonterminal rule.lhs = true →
      rule ∈ grammar.allRules →
      ValidItem grammar read ⟨rule.id, 0⟩

namespace ValidItem

variable {grammar : Grammar} {read : List SymbolId} {item : Item}

/-- An item that a valid item asks for is valid for the same string. -/
theorem ask
    {start : Item}
    (valid : ValidItem grammar read item)
    (asks : item.AsksFor grammar start) :
    ValidItem grammar read start := by
  obtain ⟨symbol, next, nonterminal, isStart⟩ := asks
  obtain ⟨rule, member, rfl, rfl⟩ := Item.mem_starting.mp isStart
  exact .predict valid next nonterminal member

/-- What valid items predict is valid. -/
theorem of_predicted
    {kernel : Item → Prop}
    (kernelValid : ∀ item, kernel item → ValidItem grammar read item)
    (predicted : Predicted grammar kernel item) :
    ValidItem grammar read item := by
  induction predicted with
  | kernel member => exact kernelValid _ member
  | ask _ asks inductionHypothesis => exact inductionHypothesis.ask asks

/-- An item that stands at the start of a rule is asked for. -/
theorem asksFor_of_predict
    {rule : Rule}
    (next : item.nextSymbol? grammar = some rule.lhs)
    (nonterminal : grammar.isNonterminal rule.lhs = true)
    (member : rule ∈ grammar.allRules) :
    item.AsksFor grammar ⟨rule.id, 0⟩ :=
  ⟨rule.lhs, next, nonterminal,
    Item.mem_starting.mpr ⟨rule, member, rfl, rfl⟩⟩

/-- Before anything is read the valid items are those the root item predicts. -/
theorem nil_iff_predicted :
    ValidItem grammar [] item ↔
      Predicted grammar (· = grammar.rootItem) item := by
  constructor
  · intro valid
    generalize empty : ([] : List SymbolId) = string at valid
    induction valid with
    | start =>
        exact .kernel rfl
    | advance _ _ _ =>
        simp at empty
    | predict _ next nonterminal member inductionHypothesis =>
        exact .ask (inductionHypothesis empty)
          (asksFor_of_predict next nonterminal member)
  · exact of_predicted fun _ same => same ▸ .start

/-- After one more symbol the valid items are those that its readers predict. -/
theorem append_iff_predicted
    {symbol : SymbolId} :
    ValidItem grammar (read ++ [symbol]) item ↔
      Predicted grammar
        (fun advanced => ∃ reader, ValidItem grammar read reader ∧
          reader.nextSymbol? grammar = some symbol ∧
            advanced = reader.advance)
        item := by
  constructor
  · intro valid
    generalize whole : read ++ [symbol] = string at valid
    induction valid with
    | start =>
        simp at whole
    | @advance before reader last valid next _ =>
        obtain ⟨sameRead, sameSymbol⟩ := List.append_inj' whole rfl
        cases sameSymbol
        subst sameRead
        exact .kernel ⟨reader, valid, next, rfl⟩
    | predict _ next nonterminal member inductionHypothesis =>
        exact .ask (inductionHypothesis whole)
          (asksFor_of_predict next nonterminal member)
  · refine of_predicted ?_
    rintro _ ⟨reader, valid, next, rfl⟩
    exact .advance valid next

end ValidItem

/-- An item of a rule of the grammar, with the cursor inside or at the end. -/
def Item.Proper (grammar : Grammar) (item : Item) : Prop :=
  item.rule ≤ grammar.rules.size ∧
    item.cursor ≤ (grammar.rule item.rule).length

/-- All items of a grammar. -/
def Grammar.allItems (grammar : Grammar) : List Item :=
  grammar.allRules.flatMap fun rule =>
    (List.range (rule.length + 1)).map (Item.mk rule.id)

section Proper

variable {grammar : Grammar} {item : Item}

/-- There are as many items as the automaton counts. -/
theorem Grammar.length_allItems :
    grammar.allItems.length = Automaton.numItems grammar := by
  simp [allItems, Automaton.numItems, List.length_flatMap, List.sum_eq_foldr]

/-- Every proper item is listed. -/
theorem Item.Proper.mem_allItems
    (wellFormed : grammar.WellFormed)
    (proper : item.Proper grammar) :
    item ∈ grammar.allItems := by
  have member : grammar.rule item.rule ∈ grammar.allRules := by
    rcases Nat.lt_or_eq_of_le proper.1 with user | root
    · exact Grammar.mem_allRules.mpr (.inl (Grammar.rule_mem user))
    · rw [root, Grammar.rule_size]
      exact Grammar.mem_allRules.mpr (.inr rfl)
  refine List.mem_flatMap.mpr ⟨_, member, List.mem_map.mpr
    ⟨item.cursor, List.mem_range.mpr (Nat.lt_succ_of_le proper.2), ?_⟩⟩
  rw [wellFormed.id_rule proper.1]

/-- Reading a symbol keeps an item proper. -/
theorem Item.Proper.advance
    (proper : item.Proper grammar)
    {symbol : SymbolId}
    (next : item.nextSymbol? grammar = some symbol) :
    item.advance.Proper grammar := by
  refine ⟨proper.1, ?_⟩
  have inside := (List.getElem?_eq_some_iff.mp next).1
  rw [Rule.symbols, List.length_map] at inside
  exact inside

/-- What a proper item asks for is proper. -/
theorem Item.Proper.ask
    (wellFormed : grammar.WellFormed)
    {start : Item}
    (asks : item.AsksFor grammar start) :
    start.Proper grammar := by
  obtain ⟨symbol, -, -, isStart⟩ := asks
  obtain ⟨rule, member, -, rfl⟩ := Item.mem_starting.mp isStart
  exact ⟨(wellFormed.rule_rule_id member).2, Nat.zero_le _⟩

/-- Proper items predict proper items only. -/
theorem Predicted.proper
    (wellFormed : grammar.WellFormed)
    {kernel : Item → Prop}
    (kernelProper : ∀ item, kernel item → item.Proper grammar)
    (predicted : Predicted grammar kernel item) :
    item.Proper grammar := by
  cases predicted with
  | kernel member => exact kernelProper _ member
  | ask _ asks => exact .ask wellFormed asks

end Proper

end SpanForest
