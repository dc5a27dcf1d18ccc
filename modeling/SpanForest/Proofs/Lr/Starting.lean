import SpanForest.Proofs.Grammar.Derivation
import SpanForest.Proofs.Lr.CompiledTable

namespace SpanForest

/-!
# What the start state reads

The items of the start state are predicted from the root item before anything was
read. So whatever one of them reads, apart from the empty string, is the first
symbol of something that the start symbol derives.
-/

variable {grammar : Grammar}

/-- A symbol that a predicted item reads begins something that the start symbol derives. -/
theorem Predicted.begins_derived
    (wellFormed : grammar.WellFormed)
    {item : Item}
    (predicted : Predicted grammar (· = grammar.rootItem) item)
    {symbol : SymbolId}
    (next : item.nextSymbol? grammar = some symbol)
    (notEmpty : symbol ≠ emptyString) :
    ∃ rest, grammar.Derives [grammar.start] (symbol :: rest) := by
  induction predicted generalizing symbol with
  | kernel isRoot =>
      subst isRoot
      have isStart : grammar.start = symbol := by
        simpa [Item.nextSymbol?, Grammar.rootItem, Grammar.rootRule, Rule.symbols,
          RhsSymbol.plain] using next
      exact ⟨[], isStart ▸ .refl⟩
  | @ask item start _ asks inductionHypothesis =>
      obtain ⟨lhs, reads, nonterminal, isStart⟩ := asks
      obtain ⟨rule, member, rfl, rfl⟩ := Item.mem_starting.mp isStart
      obtain ⟨rest, derives⟩ :=
        inductionHypothesis reads (wellFormed.ne_emptyString nonterminal)
      rw [Item.nextSymbol?, (wellFormed.rule_rule_id member).1] at next
      obtain ⟨behind, isRhs⟩ : ∃ behind, rule.symbols = symbol :: behind := by
        cases isRhs : rule.symbols with
        | nil => simp [isRhs] at next
        | cons first behind =>
            simp only [isRhs, List.getElem?_cons_zero, Option.some.injEq] at next
            exact ⟨behind, by rw [next]⟩
      have begun := (Grammar.derives_rule member).within [] rest
      rw [isRhs, spelled_cons, spelled_singleton notEmpty] at begun
      exact ⟨spelled behind ++ rest, derives.trans begun⟩

/-- What can be read in the start state begins something that the start symbol derives. -/
theorem CompiledGrammar.exists_derives_of_goto?_startState
    (wellFormed : grammar.WellFormed)
    {options : CompileOptions}
    {symbol : SymbolId}
    {target : StateId}
    (leads :
      (grammar.compile options).table.goto? startState symbol = some target)
    (notEmpty : symbol ≠ emptyString) :
    ∃ rest, grammar.Derives [grammar.start] (symbol :: rest) := by
  rw [goto?_table wellFormed] at leads
  split at leads
  · cases leads
  · obtain ⟨item, member, next⟩ := (Automaton.goto?_isSome_iff wellFormed).mp
      (Option.isSome_of_eq_some leads)
    exact ((Automaton.mem_items_startState wellFormed).mp
      member).begins_derived wellFormed next notEmpty

end SpanForest
