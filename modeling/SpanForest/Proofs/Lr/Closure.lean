import Mathlib.Data.List.Nodup
import SpanForest.Lr.Automaton
import SpanForest.Proofs.Grammar.WellFormed

namespace SpanForest

/-!
# Closures of items

The closure of a kernel holds exactly the items that can be predicted from it,
each of them once. The bound on the number of rounds is never met: behind the
kernel a closure only holds items that stand at the start of rules.
-/

namespace Item

variable {grammar : Grammar}

/-- Whether `item` stands in front of a nonterminal with `start` among its rules. -/
def AsksFor (grammar : Grammar) (item start : Item) : Prop :=
  ∃ symbol, item.nextSymbol? grammar = some symbol ∧
    grammar.isNonterminal symbol = true ∧
      start ∈ starting grammar symbol

/-- Starting items stand at the beginning of rules for their symbol. -/
theorem mem_starting
    {symbol : SymbolId}
    {start : Item} :
    start ∈ starting grammar symbol ↔
      ∃ rule ∈ grammar.allRules, rule.lhs = symbol ∧ start = ⟨rule.id, 0⟩ := by
  simp only [starting, List.mem_map, Grammar.mem_rulesFor, and_assoc,
    eq_comm (a := start)]

/-- All items at the start of rules, each once. -/
theorem nodup_starts (wellFormed : grammar.WellFormed) :
    (grammar.allRules.map fun rule => Item.mk rule.id 0).Nodup := by
  have ids : (grammar.allRules.map (·.id)).Nodup := by
    rw [wellFormed.map_id_allRules]
    exact List.nodup_range
  have injective : Function.Injective fun id : RuleId => Item.mk id 0 := by
    intro left right same
    exact congrArg Item.rule same
  simpa [Function.comp_def] using ids.map injective

/-- No item starts twice for one symbol. -/
theorem nodup_starting
    (wellFormed : grammar.WellFormed)
    (symbol : SymbolId) :
    (starting grammar symbol).Nodup := by
  refine (nodup_starts wellFormed).sublist ?_
  exact List.filter_sublist.map _

end Item

/-- The items that can be predicted from a set of items, itself included. -/
inductive Predicted (grammar : Grammar) (kernel : Item → Prop) : Item → Prop where
  | kernel {item : Item} :
      kernel item →
      Predicted grammar kernel item
  | ask {item start : Item} :
      Predicted grammar kernel item →
      item.AsksFor grammar start →
      Predicted grammar kernel start

namespace Predicted

variable {grammar : Grammar}

/-- A larger kernel predicts more. -/
theorem mono
    {small large : Item → Prop}
    (included : ∀ item, small item → large item)
    {item : Item}
    (predicted : Predicted grammar small item) :
    Predicted grammar large item := by
  induction predicted with
  | kernel member => exact .kernel (included _ member)
  | ask _ asks inductionHypothesis => exact .ask inductionHypothesis asks

end Predicted

section Closing

variable {grammar : Grammar} {kernel items : List Item} {index : Nat}

/-- New items are those that are asked for and not there yet. -/
theorem mem_predicted
    {item start : Item} :
    start ∈ predicted grammar items item ↔
      item.AsksFor grammar start ∧ start ∉ items := by
  unfold predicted Item.AsksFor
  split
  · rename_i symbol next
    split
    · rename_i nonterminal
      simp [next, nonterminal]
    · rename_i terminal
      simp [next, terminal]
  · rename_i next
    simp [next]

/-- New items come once each. -/
theorem nodup_predicted
    (wellFormed : grammar.WellFormed)
    (item : Item) :
    (predicted grammar items item).Nodup := by
  unfold predicted
  split
  · split
    · exact (Item.nodup_starting wellFormed _).filter _
    · exact List.nodup_nil
  · exact List.nodup_nil

/-- What holds of the items while those before `index` were seen to. -/
structure Closing
    (grammar : Grammar)
    (kernel : List Item)
    (index : Nat)
    (items : List Item) : Prop where
  nodup : items.Nodup
  extends_kernel : kernel <+: items
  sound : ∀ item ∈ items, Predicted grammar (· ∈ kernel) item
  seen :
    ∀ position < index, ∀ item, items[position]? = some item →
      ∀ start, item.AsksFor grammar start → start ∈ items
  index_le : index ≤ items.length

namespace Closing

/-- Nothing was seen to in the kernel itself. -/
theorem ofKernel
    (distinct : kernel.Nodup) :
    Closing grammar kernel 0 kernel where
  nodup := distinct
  extends_kernel := List.prefix_rfl
  sound := fun _ member => .kernel member
  seen := by simp
  index_le := Nat.zero_le _

/-- Adding what one more item asks for. -/
theorem next
    (wellFormed : grammar.WellFormed)
    (closing : Closing grammar kernel index items)
    {item : Item}
    (stored : items[index]? = some item) :
    Closing grammar kernel (index + 1)
      (items ++ predicted grammar items item) := by
  have inside : index < items.length :=
    (List.getElem?_eq_some_iff.mp stored).1
  constructor
  case nodup =>
    refine List.nodup_append.mpr
      ⟨closing.nodup, nodup_predicted wellFormed item, ?_⟩
    intro old oldMember new newMember same
    exact (mem_predicted.mp newMember).2 (same ▸ oldMember)
  case extends_kernel =>
    exact closing.extends_kernel.trans (List.prefix_append _ _)
  case sound =>
    intro other member
    rcases List.mem_append.mp member with old | new
    · exact closing.sound other old
    · have origin := closing.sound item (List.mem_of_getElem? stored)
      exact .ask origin (mem_predicted.mp new).1
  case seen =>
    intro position before other otherStored start asks
    rw [List.getElem?_append_left (by omega)] at otherStored
    rcases Nat.lt_succ_iff_lt_or_eq.mp before with earlier | current
    · exact List.mem_append_left _
        (closing.seen position earlier other otherStored start asks)
    · subst current
      have same : item = other := by
        rw [stored] at otherStored
        exact Option.some.inj otherStored
      subst same
      by_cases known : start ∈ items
      · exact List.mem_append_left _ known
      · exact List.mem_append_right _ (mem_predicted.mpr ⟨asks, known⟩)
  case index_le =>
    rw [List.length_append]
    omega

/-- Behind the kernel there are items at the start of rules only. -/
theorem eq_append
    (closing : Closing grammar kernel index items) :
    ∃ later, items = kernel ++ later ∧
      later ⊆ grammar.allRules.map fun rule => Item.mk rule.id 0 := by
  obtain ⟨later, rfl⟩ := closing.extends_kernel
  refine ⟨later, rfl, fun item member => ?_⟩
  have apart : item ∉ kernel := fun inKernel =>
    (List.nodup_append.mp closing.nodup).2.2 item inKernel item member rfl
  cases closing.sound item (List.mem_append_right _ member) with
  | kernel inKernel =>
      exact (apart inKernel).elim
  | ask _ asks =>
      obtain ⟨symbol, -, -, isStart⟩ := asks
      obtain ⟨rule, ruleMember, -, rfl⟩ := Item.mem_starting.mp isStart
      exact List.mem_map_of_mem ruleMember

/-- Behind the kernel there is at most one item for each rule. -/
theorem length_le
    (closing : Closing grammar kernel index items) :
    items.length ≤ kernel.length + grammar.allRules.length := by
  obtain ⟨later, rfl, starts⟩ := closing.eq_append
  have few := (List.nodup_append.mp closing.nodup).2.1.length_le_of_subset
    starts
  simp only [List.length_append]
  simpa using few

/-- With room for every rule, closing ends when all items were seen to. -/
theorem closeFrom_complete
    (wellFormed : grammar.WellFormed)
    {fuel : Nat}
    (closing : Closing grammar kernel index items)
    (enough :
      kernel.length + grammar.allRules.length + 1 ≤ fuel + index) :
    ∃ count,
      Closing grammar kernel count (closeFrom grammar fuel index items) ∧
        (closeFrom grammar fuel index items).length ≤ count := by
  induction fuel generalizing index items with
  | zero =>
      have short := closing.length_le
      have reached := closing.index_le
      omega
  | succ fuel inductionHypothesis =>
      unfold closeFrom
      split
      · rename_i finished
        exact ⟨index, closing, List.getElem?_eq_none_iff.mp finished⟩
      · rename_i item stored
        exact inductionHypothesis (closing.next wellFormed stored)
          (by omega)

end Closing

/-- The closure of distinct items has seen to all of its items. -/
theorem closing_closure
    (wellFormed : grammar.WellFormed)
    (distinct : kernel.Nodup) :
    ∃ count, Closing grammar kernel count (closure grammar kernel) ∧
      (closure grammar kernel).length ≤ count :=
  (Closing.ofKernel distinct).closeFrom_complete wellFormed (by omega)

/-- A closure of distinct items holds no item twice. -/
theorem nodup_closure
    (wellFormed : grammar.WellFormed)
    (distinct : kernel.Nodup) :
    (closure grammar kernel).Nodup := by
  obtain ⟨_, closing, -⟩ := closing_closure wellFormed distinct
  exact closing.nodup

/-- Behind its kernel a closure holds items at the start of rules only. -/
theorem closure_eq_append
    (wellFormed : grammar.WellFormed)
    (distinct : kernel.Nodup) :
    ∃ later, closure grammar kernel = kernel ++ later ∧
      ∀ item ∈ later, item.cursor = 0 := by
  obtain ⟨_, closing, -⟩ := closing_closure wellFormed distinct
  obtain ⟨later, isAppended, starts⟩ := closing.eq_append
  refine ⟨later, isAppended, fun item member => ?_⟩
  obtain ⟨rule, -, rfl⟩ := List.mem_map.mp (starts member)
  rfl

/-- A closure holds exactly what its kernel predicts. -/
theorem mem_closure
    (wellFormed : grammar.WellFormed)
    (distinct : kernel.Nodup)
    {item : Item} :
    item ∈ closure grammar kernel ↔
      Predicted grammar (· ∈ kernel) item := by
  obtain ⟨count, closing, finished⟩ := closing_closure wellFormed distinct
  constructor
  · exact closing.sound item
  · intro predicted
    induction predicted with
    | kernel member =>
        exact closing.extends_kernel.subset member
    | ask _ asks inductionHypothesis =>
        obtain ⟨position, stored⟩ :=
          List.getElem?_of_mem inductionHypothesis
        have inside := (List.getElem?_eq_some_iff.mp stored).1
        exact closing.seen position (by omega) _ stored _ asks

end Closing

end SpanForest
