namespace SpanForest

/-!
# Identifiers

Symbols, rules, predicates, spans and automaton states are numbered from zero
in the order in which they are introduced. Three symbols are reserved: the end
of the input `$`, the empty string `ε` and the augmented start symbol `S'`.
-/

/-- Position of a symbol in a grammar's symbol list. -/
abbrev SymbolId := Nat

/-- Position of a rule in a grammar's rule list; the root rule comes last. -/
abbrev RuleId := Nat

/-- Position of a predicate in its alphabet. -/
abbrev PredicateId := Nat

/-- Position of a span in its store. -/
abbrev SpanId := Nat

/-- Position of an item set in the automaton. -/
abbrev StateId := Nat

/-- The end of the input, `$`. -/
abbrev endOfInput : SymbolId := 0

/-- The empty string, `ε`. -/
abbrev emptyString : SymbolId := 1

/-- The augmented start symbol, `S'`. -/
abbrev rootSymbol : SymbolId := 2

/-- The state holding the item `S' → • start $`. -/
abbrev startState : StateId := 0

end SpanForest
