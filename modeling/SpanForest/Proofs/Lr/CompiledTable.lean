import SpanForest.Compiled
import SpanForest.Proofs.Lr.PackedTable

namespace SpanForest

/-!
# The compiled table is the table of valid items

Going along the edges of the packed table reads the strings for which some item
is valid. The state reached holds the items valid for the string, and its cells
reduce the rules whose complete items are valid, before what may follow them.
-/

/-- The state that a table reaches from the start by reading a string. -/
def PackedTable.run? (table : PackedTable) (string : List SymbolId) : Option StateId :=
  string.foldlM table.goto? startState

namespace CompiledGrammar

section Cells

variable {grammar : Grammar} (wellFormed : grammar.WellFormed)
variable {options : CompileOptions} {state : StateId} {symbol : SymbolId}

include wellFormed

/-- The cells of a compiled table hold the actions of the automaton's states. -/
theorem cellOf_table :
    SparseTable.CellOf grammar (grammar.compile options).follow
      ((Automaton.ofGrammar grammar).state state) symbol
      ((grammar.compile options).table.get state symbol) := by
  have packed :
      (grammar.compile options).table.get state symbol =
        (SparseTable.ofAutomaton grammar (Automaton.ofGrammar grammar)
          (grammar.compile options).follow).cell state symbol :=
    SparseTable.get_pack SparseTable.nodup_keys_ofAutomaton state symbol
  rw [packed]
  exact SparseTable.cellOf_ofAutomaton fun _ member =>
    Automaton.nodup_edges wellFormed member

/-- The table reads what the automaton reads, apart from the end of the input. -/
theorem goto?_table :
    (grammar.compile options).table.goto? state symbol =
      if symbol = endOfInput then
        none
      else
        (Automaton.ofGrammar grammar).goto? state symbol :=
  (cellOf_table wellFormed).shift

/-- A state reduces the rules of its complete items before what follows them. -/
theorem mem_reduces_table
    {rule : RuleId} :
    rule ∈ ((grammar.compile options).table.get state symbol).reduces ↔
      ⟨rule, (grammar.rule rule).length⟩ ∈
          ((Automaton.ofGrammar grammar).state state).items ∧
        rule ≠ grammar.rules.size ∧
        ((grammar.compile options).follow.get
          (grammar.rule rule).lhs).contains symbol = true := by
  rw [(cellOf_table wellFormed).mem_reduces]
  constructor
  · rintro ⟨⟨own, cursor⟩, member, ⟨complete, notRoot, follows⟩, rfl⟩
    have atEnd : cursor = (grammar.rule own).length := by
      simpa [Item.isComplete] using complete
    subst atEnd
    refine ⟨member, ?_, follows⟩
    rintro rfl
    exact notRoot (by rw [Grammar.rule_size]; rfl)
  · rintro ⟨member, notRoot, follows⟩
    have proper := (Automaton.items_nodup_proper wellFormed state).2 _ member
    have user : rule < grammar.rules.size :=
      Nat.lt_of_le_of_ne proper.1 notRoot
    have lhs := (wellFormed.lhs_nonterminal (Grammar.rule_mem user)).2
    exact ⟨_, member, ⟨by simp [Item.isComplete], Nat.ne_of_gt lhs, follows⟩, rfl⟩

/-- Without the end of the input, table and automaton read the same strings. -/
theorem run?_table
    {string : List SymbolId}
    (noEnd : endOfInput ∉ string) :
    (grammar.compile options).table.run? string =
      (Automaton.ofGrammar grammar).run? string := by
  unfold PackedTable.run? Automaton.run?
  generalize startState = state
  induction string generalizing state with
  | nil =>
      rfl
  | cons symbol rest inductionHypothesis =>
      have notEnd : symbol ≠ endOfInput := fun same =>
        noEnd (same ▸ List.mem_cons_self)
      have restNoEnd : endOfInput ∉ rest := fun member =>
        noEnd (List.mem_cons_of_mem _ member)
      rw [List.foldlM_cons, List.foldlM_cons, goto?_table wellFormed,
        if_neg notEnd]
      congr
      funext next
      exact inductionHypothesis restNoEnd next

/-- An item behind its first symbol was read from the state before. -/
theorem reader_of_goto?
    {target : StateId}
    (leads : (grammar.compile options).table.goto? state symbol = some target)
    {rule : RuleId}
    {cursor : Nat}
    (member :
      ⟨rule, cursor + 1⟩ ∈ ((Automaton.ofGrammar grammar).state target).items) :
    ⟨rule, cursor⟩ ∈ ((Automaton.ofGrammar grammar).state state).items ∧
      (grammar.rule rule).symbols[cursor]? = some symbol := by
  rw [goto?_table wellFormed] at leads
  split at leads
  · cases leads
  · have predicted := (Automaton.mem_items_of_goto? wellFormed leads).mp member
    generalize isItem : (⟨rule, cursor + 1⟩ : Item) = item at predicted
    cases predicted with
    | kernel inKernel =>
        obtain ⟨⟨own, position⟩, readerMember, reads, isAdvance⟩ := inKernel
        rw [isAdvance] at isItem
        cases isItem
        exact ⟨readerMember, reads⟩
    | ask _ asks =>
        obtain ⟨_, -, -, isStart⟩ := asks
        obtain ⟨_, -, -, isNew⟩ := Item.mem_starting.mp isStart
        rw [isNew] at isItem
        cases isItem

/-- A symbol that an item reads, unless it is the end of the input, leads on. -/
theorem advance_of_next
    {item : Item}
    (member : item ∈ ((Automaton.ofGrammar grammar).state state).items)
    (next : item.nextSymbol? grammar = some symbol)
    (notEnd : symbol ≠ endOfInput) :
    ∃ target,
      (grammar.compile options).table.goto? state symbol = some target ∧
        item.advance ∈ ((Automaton.ofGrammar grammar).state target).items := by
  obtain ⟨target, leads⟩ := Option.isSome_iff_exists.mp
    ((Automaton.goto?_isSome_iff wellFormed).mpr ⟨item, member, next⟩)
  refine ⟨target, ?_, (Automaton.mem_items_of_goto? wellFormed leads).mpr
    (.kernel ⟨item, member, next, rfl⟩)⟩
  rw [goto?_table wellFormed, if_neg notEnd]
  exact leads

/-- A state in which a user's rule starts leads on by the rule's left-hand side. -/
theorem exists_goto?_lhs
    {rule : RuleId}
    (user : rule < grammar.rules.size)
    (member : ⟨rule, 0⟩ ∈ ((Automaton.ofGrammar grammar).state state).items) :
    ∃ target,
      (grammar.compile options).table.goto? state (grammar.rule rule).lhs =
        some target := by
  obtain ⟨asker, isItem, next⟩ := Automaton.exists_asker wellFormed user member
  have behindRoot := (wellFormed.lhs_nonterminal (Grammar.rule_mem user)).2
  obtain ⟨target, leads, -⟩ := advance_of_next wellFormed isItem next
    (Nat.ne_of_gt (Nat.lt_of_le_of_lt (Nat.zero_le _) behindRoot))
  exact ⟨target, leads⟩

/-- A state is reached by one symbol only. -/
theorem goto?_symbol_unique
    {other target : StateId}
    {otherSymbol : SymbolId}
    (leads : (grammar.compile options).table.goto? state symbol = some target)
    (otherLeads :
      (grammar.compile options).table.goto? other otherSymbol = some target) :
    symbol = otherSymbol := by
  have found := leads
  rw [goto?_table wellFormed] at found
  split at found
  · cases found
  · obtain ⟨item, member, next⟩ := (Automaton.goto?_isSome_iff wellFormed).mp
      (by rw [found]; rfl)
    have advanced := (Automaton.mem_items_of_goto? wellFormed found).mpr
      (.kernel ⟨item, member, next, rfl⟩)
    have here := (reader_of_goto? wellFormed leads advanced).2
    have there := (reader_of_goto? wellFormed otherLeads advanced).2
    exact Option.some.inj (here.symm.trans there)

end Cells

/--
What the table of a grammar reads, and what it finds there.

The strings it reads are those for which an item is valid. The state reached
holds these items, each once, and reduces a user's rule before a symbol, once,
exactly if the complete item of the rule is one of them and the symbol is in
FOLLOW of its left-hand side.
-/
theorem table_reads_validItems
    {builder : GrammarBuilder}
    {grammar : Grammar}
    (built : builder.build = .ok grammar)
    (options : CompileOptions)
    {string : List SymbolId}
    (noEnd : endOfInput ∉ string) :
    (((grammar.compile options).table.run? string).isSome = true ↔
        ∃ item, ValidItem grammar string item) ∧
      ∀ state, (grammar.compile options).table.run? string = some state →
        (((grammar.compile options).automaton.state state).items.Nodup ∧
          ∀ item,
            item ∈ ((grammar.compile options).automaton.state state).items ↔
              ValidItem grammar string item) ∧
        ∀ terminal,
          ((grammar.compile options).table.get state terminal).reduces.Nodup ∧
          ∀ rule,
            rule ∈ ((grammar.compile options).table.get
                state terminal).reduces ↔
              ValidItem grammar string ⟨rule, (grammar.rule rule).length⟩ ∧
                rule ≠ grammar.rules.size ∧
                ((grammar.compile options).follow.get
                  (grammar.rule rule).lhs).contains terminal = true := by
  have wellFormed := GrammarBuilder.wellFormed_of_build built
  rw [run?_table wellFormed noEnd]
  refine ⟨Automaton.run?_isSome_iff wellFormed, ?_⟩
  intro state reached
  refine ⟨⟨(Automaton.items_nodup_proper wellFormed state).1, fun item =>
    Automaton.mem_items_of_run? wellFormed reached⟩, ?_⟩
  intro terminal
  refine ⟨(cellOf_table wellFormed).reduces_nodup, fun rule => ?_⟩
  rw [mem_reduces_table wellFormed,
    Automaton.mem_items_of_run? wellFormed reached]

/-- The table of `S → a` reads `a`. -/
theorem table_reads_validItems_sample :
    sampleBuilder.build = .ok sampleGrammar ∧ endOfInput ∉ [4] ∧
      ((sampleGrammar.compile {}).table.run? [4]).isSome = true := by
  have noEnd : endOfInput ∉ [4] := by decide
  have ruleStarts : ValidItem sampleGrammar [] ⟨0, 0⟩ :=
    @ValidItem.predict _ _ _ (sampleGrammar.rule 0) .start rfl rfl
      (Grammar.mem_allRules.mpr (.inl (Grammar.rule_mem (by decide))))
  have afterTerminal : ValidItem sampleGrammar [4] ⟨0, 1⟩ :=
    .advance ruleStarts rfl
  exact ⟨build_sampleBuilder, noEnd,
    (table_reads_validItems build_sampleBuilder {} noEnd).1.mpr
      ⟨_, afterTerminal⟩⟩

end CompiledGrammar

end SpanForest
