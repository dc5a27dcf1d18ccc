import SpanForest.Proofs.Lr.CompiledTable

namespace SpanForest

/-!
# States with the same items

A state is known by its kernel as a list. The order of a kernel is inherited from
the closure it was shifted from, and closures of different kernels may find the
same items in different orders; so two states may have the same items. Such
states read the same strings and reduce the same rules: the one is as good as
the other.
-/

namespace Explored

variable {grammar : Grammar}
variable {states : Array LrState} {kernels : Array (List Item)}

/-- Kernels are told apart as lists. -/
theorem eq_of_same_kernel
    (explored : Explored grammar states kernels)
    {left right : StateId}
    {kernel : List Item}
    (leftStored : kernels[left]? = some kernel)
    (rightStored : kernels[right]? = some kernel) :
    left = right := by
  obtain ⟨leftInside, leftSame⟩ := Array.getElem?_eq_some_iff.mp leftStored
  obtain ⟨rightInside, rightSame⟩ := Array.getElem?_eq_some_iff.mp rightStored
  refine (@List.Nodup.getElem_inj_iff _ _ explored.distinct left leftInside right
    rightInside).mp ?_
  rw [Array.getElem_toList, Array.getElem_toList, leftSame, rightSame]

/-- Behind the start state kernels hold items behind some symbol. -/
theorem begun_of_ne_startState
    (explored : Explored grammar states kernels)
    {id : StateId}
    {kernel : List Item}
    (stored : kernels[id]? = some kernel)
    (notStart : id ≠ startState) :
    kernel ≠ [] ∧ ∀ item ∈ kernel, 0 < item.cursor := by
  rcases explored.kernel_begun kernel (Array.mem_of_getElem? stored) with
    isRoot | begun
  · exact absurd (explored.eq_of_same_kernel (isRoot ▸ stored) explored.root)
      notStart
  · exact begun

end Explored

namespace Automaton

/-- The items that a state was built from: the root item, or what was read into. -/
def kernel (automaton : Automaton) (id : StateId) : List Item :=
  if id = startState then
    (automaton.state id).items.take 1
  else
    (automaton.state id).items.filter (0 < ·.cursor)

/-- States that hold the same items, in whatever order. -/
def SameItems (automaton : Automaton) (left right : StateId) : Prop :=
  ∀ item, item ∈ (automaton.state left).items ↔
    item ∈ (automaton.state right).items

/-- The state that reading a string leads to from a given one. -/
def runFrom?
    (automaton : Automaton)
    (id : StateId)
    (string : List SymbolId) :
    Option StateId :=
  string.foldlM automaton.goto? id

variable {grammar : Grammar} {id left right : StateId}

section Kernels

variable (wellFormed : grammar.WellFormed)
include wellFormed

/-- The kernel of a state is the list of items by which the state is known. -/
theorem kernel_spec
    {kernels : Array (List Item)}
    (explored : Explored grammar (ofGrammar grammar).states kernels)
    (complete : kernels.size = (ofGrammar grammar).states.size)
    (inside : id < (ofGrammar grammar).numStates) :
    kernels[id]? = some ((ofGrammar grammar).kernel id) := by
  obtain ⟨items, stored⟩ : ∃ items, kernels[id]? = some items :=
    ⟨_, Array.getElem?_eq_getElem (Nat.lt_of_lt_of_eq inside complete.symm)⟩
  obtain ⟨nodup, -⟩ :=
    explored.kernel_proper items (Array.mem_of_getElem? stored)
  have isClosure := (stateOf_state explored complete stored).items_eq
  obtain ⟨later, isAppended, starts⟩ := closure_eq_append wellFormed nodup
  refine stored.trans (congrArg some ?_)
  unfold kernel
  rw [isClosure, isAppended]
  split
  · rename_i isStart
    subst isStart
    rw [startState, explored.root] at stored
    cases stored
    rfl
  · rename_i notStart
    obtain ⟨-, begun⟩ := explored.begun_of_ne_startState stored notStart
    have kept : items.filter (0 < ·.cursor) = items :=
      List.filter_eq_self.mpr fun item member => by simpa using begun item member
    have dropped : later.filter (0 < ·.cursor) = [] :=
      List.filter_eq_nil_iff.mpr fun item member => by simp [starts item member]
    rw [List.filter_append, kept, dropped, List.append_nil]

/-- A state holds what its kernel predicts. -/
theorem mem_items_iff_predicted
    (inside : id < (ofGrammar grammar).numStates)
    {item : Item} :
    item ∈ ((ofGrammar grammar).state id).items ↔
      Predicted grammar (· ∈ (ofGrammar grammar).kernel id) item := by
  obtain ⟨kernels, explored, complete⟩ := exists_explored wellFormed
  have stored := kernel_spec wellFormed explored complete inside
  obtain ⟨nodup, -⟩ := explored.kernel_proper _ (Array.mem_of_getElem? stored)
  rw [(stateOf_state explored complete stored).items_eq,
    mem_closure wellFormed nodup]

/-- The kernel behind a symbol holds the items that read it, in their order. -/
theorem kernel_of_goto?
    {target : StateId}
    {symbol : SymbolId}
    (leads : (ofGrammar grammar).goto? id symbol = some target) :
    (ofGrammar grammar).kernel target =
      shiftedKernel grammar ((ofGrammar grammar).state id).items symbol := by
  obtain ⟨kernels, explored, complete⟩ := exists_explored wellFormed
  have found := goto?_spec explored id symbol
  rw [leads] at found
  have inside : target < (ofGrammar grammar).numStates :=
    Nat.lt_of_lt_of_eq (Array.getElem?_eq_some_iff.mp found.2).1 complete
  have stored := kernel_spec wellFormed explored complete inside
  exact Option.some.inj (stored.symm.trans found.2)

/-- No two states have the same list of items for a kernel. -/
theorem eq_of_kernel_eq
    (leftInside : left < (ofGrammar grammar).numStates)
    (rightInside : right < (ofGrammar grammar).numStates)
    (same : (ofGrammar grammar).kernel left = (ofGrammar grammar).kernel right) :
    left = right := by
  obtain ⟨kernels, explored, complete⟩ := exists_explored wellFormed
  have leftStored := kernel_spec wellFormed explored complete leftInside
  have rightStored := kernel_spec wellFormed explored complete rightInside
  exact explored.eq_of_same_kernel leftStored (same ▸ rightStored)

/-- Only the start state has items all of which stand at the start of rules. -/
theorem exists_begun_iff
    (inside : id < (ofGrammar grammar).numStates) :
    (∃ item ∈ ((ofGrammar grammar).state id).items, 0 < item.cursor) ↔
      id ≠ startState := by
  obtain ⟨kernels, explored, complete⟩ := exists_explored wellFormed
  have stored := kernel_spec wellFormed explored complete inside
  constructor
  · rintro ⟨item, member, begun⟩ rfl
    cases (mem_items_startState wellFormed).mp member with
    | kernel isRoot =>
        subst isRoot
        exact Nat.lt_irrefl _ begun
    | ask _ asks =>
        obtain ⟨_, -, -, isStart⟩ := asks
        obtain ⟨_, -, -, rfl⟩ := Item.mem_starting.mp isStart
        exact Nat.lt_irrefl _ begun
  · intro notStart
    obtain ⟨notEmpty, begun⟩ := explored.begun_of_ne_startState stored notStart
    obtain ⟨item, member⟩ := List.exists_mem_of_ne_nil _ notEmpty
    exact ⟨item, (mem_items_iff_predicted wellFormed inside).mpr
      (.kernel member), begun item member⟩

/-- States have the same kernel, as a set, exactly if they have the same items. -/
theorem mem_kernel_congr_iff_sameItems
    (leftInside : left < (ofGrammar grammar).numStates)
    (rightInside : right < (ofGrammar grammar).numStates) :
    (∀ item, item ∈ (ofGrammar grammar).kernel left ↔
        item ∈ (ofGrammar grammar).kernel right) ↔
      (ofGrammar grammar).SameItems left right := by
  constructor
  · intro same item
    rw [mem_items_iff_predicted wellFormed leftInside,
      mem_items_iff_predicted wellFormed rightInside]
    exact ⟨.mono fun other => (same other).mp, .mono fun other => (same other).mpr⟩
  · intro same item
    have bothStart : left = startState ↔ right = startState := by
      rw [← not_iff_not, ← ne_eq, ← ne_eq,
        ← exists_begun_iff wellFormed leftInside,
        ← exists_begun_iff wellFormed rightInside]
      exact exists_congr fun other => and_congr_left' (same other)
    by_cases isStart : left = startState
    · rw [isStart, bothStart.mp isStart]
    · rw [kernel, kernel, if_neg isStart, if_neg (mt bothStart.mpr isStart),
        List.mem_filter, List.mem_filter, same]

end Kernels

namespace SameItems

variable (wellFormed : grammar.WellFormed)
include wellFormed

/-- Reading a symbol leads from states with the same items to such states again. -/
theorem goto?
    (same : (ofGrammar grammar).SameItems left right)
    (symbol : SymbolId) :
    Option.Rel (ofGrammar grammar).SameItems
      ((ofGrammar grammar).goto? left symbol)
      ((ofGrammar grammar).goto? right symbol) := by
  have leadsBoth :
      ((ofGrammar grammar).goto? left symbol).isSome = true ↔
        ((ofGrammar grammar).goto? right symbol).isSome = true := by
    rw [goto?_isSome_iff wellFormed, goto?_isSome_iff wellFormed]
    exact exists_congr fun item => and_congr_left' (same item)
  cases leftLeads : (ofGrammar grammar).goto? left symbol with
  | none =>
      cases rightLeads : (ofGrammar grammar).goto? right symbol with
      | none => exact .none
      | some _ => simp [leftLeads, rightLeads] at leadsBoth
  | some leftTarget =>
      cases rightLeads : (ofGrammar grammar).goto? right symbol with
      | none => simp [leftLeads, rightLeads] at leadsBoth
      | some rightTarget =>
          refine .some fun item => ?_
          rw [mem_items_of_goto? wellFormed leftLeads,
            mem_items_of_goto? wellFormed rightLeads]
          simp only [same _]

/-- States with the same items read the same strings, up to such states. -/
theorem runFrom?
    (same : (ofGrammar grammar).SameItems left right)
    (string : List SymbolId) :
    Option.Rel (ofGrammar grammar).SameItems
      ((ofGrammar grammar).runFrom? left string)
      ((ofGrammar grammar).runFrom? right string) := by
  induction string generalizing left right with
  | nil => exact .some same
  | cons symbol rest inductionHypothesis =>
      have step := same.goto? wellFormed symbol
      unfold Automaton.runFrom?
      rw [List.foldlM_cons, List.foldlM_cons]
      generalize (ofGrammar grammar).goto? left symbol = leftNext at step ⊢
      generalize (ofGrammar grammar).goto? right symbol = rightNext at step ⊢
      cases step with
      | none => exact .none
      | some sameNext => exact inductionHypothesis sameNext

/-- States with the same items reduce the same rules before every symbol. -/
theorem mem_reduces
    (same : (ofGrammar grammar).SameItems left right)
    (options : CompileOptions)
    {symbol : SymbolId}
    {rule : RuleId} :
    rule ∈ ((grammar.compile options).table.get left symbol).reduces ↔
      rule ∈ ((grammar.compile options).table.get right symbol).reduces := by
  rw [CompiledGrammar.mem_reduces_table wellFormed,
    CompiledGrammar.mem_reduces_table wellFormed, same]

end SameItems

/--
What tells the states of an automaton apart.

Distinct states have distinct lists of items for kernels. States that have the
same kernel as a set have the same items, and conversely; such states read the
same strings, to states that have the same items again, and reduce the same
rules before every symbol.
-/
theorem states_unique
    {builder : GrammarBuilder}
    (built : builder.build = .ok grammar)
    (leftInside : left < (ofGrammar grammar).numStates)
    (rightInside : right < (ofGrammar grammar).numStates) :
    ((ofGrammar grammar).kernel left = (ofGrammar grammar).kernel right →
        left = right) ∧
      ((∀ item, item ∈ (ofGrammar grammar).kernel left ↔
          item ∈ (ofGrammar grammar).kernel right) ↔
        (ofGrammar grammar).SameItems left right) ∧
      ((ofGrammar grammar).SameItems left right →
        (∀ string, Option.Rel (ofGrammar grammar).SameItems
          ((ofGrammar grammar).runFrom? left string)
          ((ofGrammar grammar).runFrom? right string)) ∧
        ∀ options symbol rule,
          rule ∈ ((grammar.compile options).table.get left symbol).reduces ↔
            rule ∈
              ((grammar.compile options).table.get right symbol).reduces) := by
  have wellFormed := GrammarBuilder.wellFormed_of_build built
  exact ⟨eq_of_kernel_eq wellFormed leftInside rightInside,
    mem_kernel_congr_iff_sameItems wellFormed leftInside rightInside,
    fun same => ⟨same.runFrom? wellFormed, fun options _ _ =>
      same.mem_reduces wellFormed options⟩⟩

/-- The declarations of `S → x A | x B | y B | y A` with `A → t` and `B → t`. -/
def crossedBuilder : GrammarBuilder where
  terminals := ["x", "y", "t"]
  rules :=
    [⟨"S", [⟨"x", none, none⟩, ⟨"A", none, none⟩], 0, none, none⟩,
      ⟨"S", [⟨"x", none, none⟩, ⟨"B", none, none⟩], 0, none, none⟩,
      ⟨"S", [⟨"y", none, none⟩, ⟨"B", none, none⟩], 0, none, none⟩,
      ⟨"S", [⟨"y", none, none⟩, ⟨"A", none, none⟩], 0, none, none⟩,
      ⟨"A", [⟨"t", none, none⟩], 0, none, none⟩,
      ⟨"B", [⟨"t", none, none⟩], 0, none, none⟩]
  predicates := Alphabet.empty
  start := some "S"
  defaultGreedy := none
  defaultWeight := none
  synthesized := []
  outputs := []

/-- The grammar `S → x A | x B | y B | y A`, `A → t`, `B → t` in numbers. -/
def crossedGrammar : Grammar where
  symbols :=
    #[⟨"$", false⟩, ⟨"ε", false⟩, ⟨"S'", true⟩, ⟨"S", true⟩, ⟨"A", true⟩,
      ⟨"B", true⟩, ⟨"x", false⟩, ⟨"y", false⟩, ⟨"t", false⟩]
  rules :=
    #[⟨0, 3, [⟨6, none, none⟩, ⟨4, none, none⟩], 0, 1.0, false⟩,
      ⟨1, 3, [⟨6, none, none⟩, ⟨5, none, none⟩], 0, 1.0, false⟩,
      ⟨2, 3, [⟨7, none, none⟩, ⟨5, none, none⟩], 0, 1.0, false⟩,
      ⟨3, 3, [⟨7, none, none⟩, ⟨4, none, none⟩], 0, 1.0, false⟩,
      ⟨4, 4, [⟨8, none, none⟩], 0, 1.0, false⟩,
      ⟨5, 5, [⟨8, none, none⟩], 0, 1.0, false⟩]
  start := 3
  predicates := Alphabet.empty
  synthesized := []
  outputs := BitSet.ofList []

/-- Building the declarations yields the grammar. -/
theorem build_crossedBuilder :
    crossedBuilder.build = .ok crossedGrammar := by
  simp [crossedBuilder, crossedGrammar, GrammarBuilder.build,
    GrammarBuilder.addNonterminals, GrammarBuilder.addTerminals,
    GrammarBuilder.addSynthesized, GrammarBuilder.checkOperands,
    GrammarBuilder.resolveRules, GrammarBuilder.resolveRule,
    GrammarBuilder.resolveElement, GrammarBuilder.resolveStart,
    requireSymbol, addSymbol, findSymbol?, reservedSymbols, maxSymbols,
    List.findIdx?_cons, Alphabet.toList, Alphabet.empty, bind, Except.bind,
    pure, Except.pure]

private theorem crossed_facts :
    (ofGrammar crossedGrammar).numStates = 11 ∧
      ((ofGrammar crossedGrammar).state 7).items = [⟨4, 1⟩, ⟨5, 1⟩] ∧
      ((ofGrammar crossedGrammar).state 10).items = [⟨5, 1⟩, ⟨4, 1⟩] := by
  decide +kernel

/--
Behind `x` the closure finds `A → • t` first, behind `y` it finds `B → • t` first,
so behind `x t` and `y t` there are two states; they reduce the same rules.
-/
theorem states_unique_crossed :
    crossedBuilder.build = .ok crossedGrammar ∧
      (7 < (ofGrammar crossedGrammar).numStates ∧
        10 < (ofGrammar crossedGrammar).numStates) ∧
      (ofGrammar crossedGrammar).kernel 7 ≠ (ofGrammar crossedGrammar).kernel 10 ∧
      (ofGrammar crossedGrammar).SameItems 7 10 ∧
      ∀ symbol rule,
        rule ∈ ((crossedGrammar.compile {}).table.get 7 symbol).reduces ↔
          rule ∈ ((crossedGrammar.compile {}).table.get 10 symbol).reduces := by
  obtain ⟨count, leftItems, rightItems⟩ := crossed_facts
  have leftInside : 7 < (ofGrammar crossedGrammar).numStates := by
    rw [count]
    decide
  have rightInside : 10 < (ofGrammar crossedGrammar).numStates := by
    rw [count]
    decide
  have same : (ofGrammar crossedGrammar).SameItems 7 10 := by
    intro item
    rw [leftItems, rightItems, List.mem_pair, List.mem_pair, or_comm]
  obtain ⟨distinct, -, alike⟩ :=
    states_unique build_crossedBuilder leftInside rightInside
  exact ⟨build_crossedBuilder, ⟨leftInside, rightInside⟩,
    fun sameKernel => absurd (distinct sameKernel) (by decide), same,
    (alike same).2 {}⟩

/-- Two states have the same kernel as a set. -/
theorem not_kernel_sets_unique_crossed :
    crossedBuilder.build = .ok crossedGrammar ∧
      ¬∀ left right, left < (ofGrammar crossedGrammar).numStates →
        right < (ofGrammar crossedGrammar).numStates →
        (∀ item, item ∈ (ofGrammar crossedGrammar).kernel left ↔
          item ∈ (ofGrammar crossedGrammar).kernel right) →
        left = right := by
  refine ⟨build_crossedBuilder, fun unique => ?_⟩
  obtain ⟨count, leftItems, rightItems⟩ := crossed_facts
  have same : (7 : StateId) = 10 := by
    refine unique 7 10 (by rw [count]; decide) (by rw [count]; decide) ?_
    intro item
    rw [kernel, kernel, leftItems, rightItems]
    simp [or_comm]
  exact absurd same (by decide)

end Automaton

end SpanForest
