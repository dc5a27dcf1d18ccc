import Mathlib.Data.List.Induction
import Mathlib.Data.Prod.Lex
import SpanForest.Parser.Greedy
import SpanForest.Proofs.Span

namespace SpanForest

/-!
# Who wins a greedy pass

Weights that are numbers lie on a line, so spans are ranked by a key of four
entries. The winner of a symbol is then a contender that none of the others
precedes, and there is one as soon as there is a contender.
-/

/-- Where a number lies: by its kind, then its exponent, then its mantissa. -/
def numberKey : Float.Model.UnpackedFloat → Int ×ₗ Int ×ₗ Int
  | .notANumber => toLex (0, toLex (0, 0))
  | .infinity .negative => toLex (-2, toLex (0, 0))
  | .finite .negative mantissa exponent _ =>
      toLex (-1, toLex (-exponent, -mantissa))
  | .zero _ => toLex (0, toLex (0, 0))
  | .finite .positive mantissa exponent _ => toLex (1, toLex (exponent, mantissa))
  | .infinity .positive => toLex (2, toLex (0, 0))

theorem lt_iff_numberKey
    {left right : Float.Model.UnpackedFloat}
    (leftNumber : left.isNaN = false)
    (rightNumber : right.isNaN = false) :
    left.lt right = true ↔ numberKey left < numberKey right := by
  have below : ∀ (exponent power : Int) (mantissa share : Nat),
      (compare exponent power).then (compare mantissa share) = .lt ↔
        exponent < power ∨ exponent = power ∧ mantissa < share := by
    intro exponent power mantissa share
    rw [Ordering.then_eq_lt, compare_lt_iff_lt, compare_eq_iff_eq,
      Nat.compare_eq_lt]
  have above : ∀ (exponent power : Int) (mantissa share : Nat),
      (compare exponent power).then (compare mantissa share) = .gt ↔
        power < exponent ∨ exponent = power ∧ share < mantissa := by
    intro exponent power mantissa share
    rw [Ordering.then_eq_gt, compare_gt_iff_gt, compare_eq_iff_eq,
      Nat.compare_eq_gt]
  unfold Float.Model.UnpackedFloat.lt
  rw [beq_iff_eq]
  cases left with
  | notANumber => cases leftNumber
  | infinity sign =>
      cases right with
      | notANumber => cases rightNumber
      | infinity other => cases sign <;> cases other <;> decide
      | zero other => cases sign <;> cases other <;> decide
      | finite other =>
          cases sign <;> cases other <;>
            dsimp only [Float.Model.UnpackedFloat.compare, numberKey] <;>
              simp [Prod.Lex.lt_iff]
  | zero sign =>
      cases right with
      | notANumber => cases rightNumber
      | infinity other => cases sign <;> cases other <;> decide
      | zero other => cases sign <;> cases other <;> decide
      | finite other =>
          cases sign <;> cases other <;>
            dsimp only [Float.Model.UnpackedFloat.compare, numberKey] <;>
              simp [Prod.Lex.lt_iff]
  | finite sign mantissa exponent positive =>
      cases right with
      | notANumber => cases rightNumber
      | infinity other =>
          cases sign <;> cases other <;>
            dsimp only [Float.Model.UnpackedFloat.compare, numberKey] <;>
              simp [Prod.Lex.lt_iff]
      | zero other =>
          cases sign <;> cases other <;>
            dsimp only [Float.Model.UnpackedFloat.compare, numberKey] <;>
              simp [Prod.Lex.lt_iff]
      | finite other share power sharePositive =>
          cases sign <;> cases other
          case positive.positive =>
            dsimp only [Float.Model.UnpackedFloat.compare, numberKey]
            simp [Prod.Lex.lt_iff, below]
          case negative.negative =>
            dsimp only [Float.Model.UnpackedFloat.compare, numberKey]
            simp [Prod.Lex.lt_iff, above]
          all_goals
            dsimp only [Float.Model.UnpackedFloat.compare, numberKey]
            simp [Prod.Lex.lt_iff]

/-- Of weights that are numbers, the heavier comes first. -/
theorem compareWeights_spec
    {left right : Float}
    (leftNumber : left.isNaN = false)
    (rightNumber : right.isNaN = false) :
    (compareWeights left right = .lt ↔
        numberKey right.toModel.unpack < numberKey left.toModel.unpack) ∧
      (compareWeights left right = .eq ↔
        numberKey left.toModel.unpack = numberKey right.toModel.unpack) := by
  have heavier : right < left ↔
      numberKey right.toModel.unpack < numberKey left.toModel.unpack :=
    decide_eq_true_iff.trans (lt_iff_numberKey rightNumber leftNumber)
  have lighter : left < right ↔
      numberKey left.toModel.unpack < numberKey right.toModel.unpack :=
    decide_eq_true_iff.trans (lt_iff_numberKey leftNumber rightNumber)
  unfold compareWeights
  simp only [heavier, lighter]
  rcases lt_trichotomy (numberKey left.toModel.unpack)
    (numberKey right.toModel.unpack) with less | same | more
  · simp [less, less.not_gt, less.ne]
  · simp [same]
  · simp [more, more.ne']

/-- If all stored weights are numbers, so are those that are looked up. -/
theorem SpanStore.get_isNaN
    {spans : SpanStore}
    (noNaN : ∀ span ∈ spans.toList, span.weight.isNaN = false)
    (id : SpanId) :
    (spans.get id).weight.isNaN = false := by
  by_cases inside : id < spans.size
  · exact noNaN _ (Array.mem_toList_iff.mpr
      (Array.mem_of_getElem? (SpanStore.get?_of_lt inside)))
  · rw [SpanStore.get, Array.getD_eq_getD_getElem?,
      Array.getElem?_eq_none (Nat.le_of_not_lt inside)]
    rfl

/-- The key by which spans are ranked: start, stop, weight and number. -/
def Span.rankKey (span : Span) : Nat ×ₗ Natᵒᵈ ×ₗ (Int ×ₗ Int ×ₗ Int)ᵒᵈ ×ₗ Nat :=
  toLex (span.start, toLex (OrderDual.toDual span.stop,
    toLex (OrderDual.toDual (numberKey span.weight.toModel.unpack), span.id)))

/-- Of spans whose weights are numbers, the one with the smaller key comes first. -/
theorem Span.rank_eq_lt_iff
    {left right : Span}
    (leftNumber : left.weight.isNaN = false)
    (rightNumber : right.weight.isNaN = false) :
    left.rank right = .lt ↔ left.rankKey < right.rankKey := by
  obtain ⟨heavier, asHeavy⟩ := compareWeights_spec leftNumber rightNumber
  simp only [rank, rankKey, Ordering.then_assoc, Ordering.then_eq_lt,
    Nat.compare_eq_lt, Nat.compare_eq_eq, heavier, asHeavy,
    Prod.Lex.toLex_lt_toLex, OrderDual.toDual_lt_toDual, OrderDual.toDual_inj]
  rw [@eq_comm _ right.stop]

/-- The winners after a node competed, if it does. -/
def contend
    (compiled : CompiledGrammar)
    (stack : GraphStack)
    (spans : SpanStore)
    (winners : Winners)
    (id : SymbolNodeId) :
    Winners :=
  match (stack.symbolNode id).symbol with
  | some symbol =>
      if isContender compiled (stack.symbolNode id) then
        competeFor stack spans symbol id winners
      else
        winners
  | none => winners

section Winners

variable {compiled : CompiledGrammar} {stack : GraphStack} {spans : SpanStore}
variable {winners : Winners} {word : Nat} {symbol : SymbolId} {id : SymbolNodeId}

theorem winnersAt_eq (spans : SpanStore) :
    winnersAt compiled stack spans word =
      (stack.layer word).reduced.foldl (contend compiled stack spans) [] :=
  rfl

/-- A live node of a greedy symbol that some greedy rule derives. -/
structure GraphStack.Contends
    (compiled : CompiledGrammar)
    (stack : GraphStack)
    (symbol : SymbolId)
    (id : SymbolNodeId) : Prop where
  live : (stack.symbolNode id).removed = false
  isSymbol : (stack.symbolNode id).symbol = some symbol
  greedySymbol : compiled.isGreedy symbol = true
  derived :
    ∃ derivation ∈ (stack.symbolNode id).derivations,
      (compiled.grammar.rule derivation.rule).greedy = true

/-- A contender among some nodes that no other contender among them precedes. -/
structure GraphStack.Wins
    (compiled : CompiledGrammar)
    (stack : GraphStack)
    (spans : SpanStore)
    (nodes : List SymbolNodeId)
    (symbol : SymbolId)
    (id : SymbolNodeId) : Prop where
  listed : id ∈ nodes
  contends : stack.Contends compiled symbol id
  first :
    ∀ other ∈ nodes, stack.Contends compiled symbol other →
      (spans.get (stack.symbolNode other).span).rank
        (spans.get (stack.symbolNode id).span) ≠ .lt

theorem contends_iff :
    stack.Contends compiled symbol id ↔
      (stack.symbolNode id).symbol = some symbol ∧
        isContender compiled (stack.symbolNode id) = true := by
  simp only [isContender, Bool.and_eq_true, Bool.not_eq_true', List.any_eq_true]
  constructor
  · rintro ⟨live, isSymbol, greedy, derived⟩
    exact ⟨isSymbol, ⟨live, by simp [isSymbol, greedy]⟩, derived⟩
  · rintro ⟨isSymbol, ⟨live, greedy⟩, derived⟩
    exact ⟨live, isSymbol, by simpa [isSymbol] using greedy, derived⟩

/-- A node that competes challenges the winner of its symbol alone. -/
theorem lookup_competeFor (other : SymbolId) :
    (competeFor stack spans symbol id winners).lookup other =
      if other = symbol then
        match winners.lookup symbol with
        | none => some id
        | some best =>
            if (spans.get (stack.symbolNode id).span).rank
                (spans.get (stack.symbolNode best).span) = .lt then
              some id
            else
              some best
      else
        winners.lookup other := by
  induction winners with
  | nil =>
      by_cases same : other = symbol
      · simp [competeFor, same]
      · simp [competeFor, List.lookup_cons, beq_false_of_ne same, same]
  | cons first rest inductionHypothesis =>
      obtain ⟨own, best⟩ := first
      unfold competeFor
      by_cases isOwn : own = symbol
      · subst isOwn
        by_cases same : other = own
        · subst same
          simp only [if_true, List.lookup_cons, beq_self_eq_true]
          split <;> rfl
        · simp [List.lookup_cons, beq_false_of_ne same, same]
      · rw [if_neg isOwn, List.lookup_cons, inductionHypothesis, List.lookup_cons]
        by_cases same : other = symbol
        · subst same
          simp [beq_false_of_ne (Ne.symm isOwn)]
        · rw [if_neg same, if_neg same, List.lookup_cons]

/-- The winner of a symbol after a contender for it competed. -/
theorem lookup_contend
    (contends : stack.Contends compiled symbol id) :
    (contend compiled stack spans winners id).lookup symbol =
      match winners.lookup symbol with
      | none => some id
      | some best =>
          if (spans.get (stack.symbolNode id).span).rank
              (spans.get (stack.symbolNode best).span) = .lt then
            some id
          else
            some best := by
  obtain ⟨isSymbol, isContending⟩ := contends_iff.mp contends
  simp only [contend, isSymbol, isContending, if_true, lookup_competeFor]

/-- A node that does not contend for a symbol leaves its winner as it is. -/
theorem lookup_contend_of_not
    (notContends : ¬ stack.Contends compiled symbol id) :
    (contend compiled stack spans winners id).lookup symbol =
      winners.lookup symbol := by
  rw [contends_iff] at notContends
  unfold contend
  split
  · rename_i own isOwn
    split
    · rename_i isContending
      rw [lookup_competeFor, if_neg]
      exact fun same => notContends ⟨same ▸ isOwn, isContending⟩
    · rfl
  · rfl

/-- A winner still wins among one more node that does not precede it. -/
theorem GraphStack.Wins.extend
    {nodes : List SymbolNodeId}
    {best : SymbolNodeId}
    (wins : stack.Wins compiled spans nodes symbol best)
    (behind : stack.Contends compiled symbol id →
      (spans.get (stack.symbolNode id).span).rank
        (spans.get (stack.symbolNode best).span) ≠ .lt) :
    stack.Wins compiled spans (nodes ++ [id]) symbol best where
  listed := List.mem_append_left _ wins.listed
  contends := wins.contends
  first other listed contends := by
    rcases List.mem_append.mp listed with old | new
    · exact wins.first other old contends
    · obtain rfl := List.mem_singleton.mp new
      exact behind contends

/-- The winners among some nodes, by symbol. -/
structure Winners.Among
    (compiled : CompiledGrammar)
    (stack : GraphStack)
    (spans : SpanStore)
    (nodes : List SymbolNodeId)
    (winners : Winners) : Prop where
  wins :
    ∀ symbol id, winners.lookup symbol = some id →
      stack.Wins compiled spans nodes symbol id
  unclaimed :
    ∀ symbol, winners.lookup symbol = none →
      ∀ id ∈ nodes, ¬ stack.Contends compiled symbol id

section Numbers

variable (numbers : ∀ id : Nat, (spans.get id).weight.isNaN = false)
include numbers

/-- Nothing precedes itself. -/
theorem rank_self_ne_lt (id : SpanId) :
    (spans.get id).rank (spans.get id) ≠ .lt := by
  rw [ne_eq, Span.rank_eq_lt_iff (numbers _) (numbers _)]
  exact lt_irrefl _

/-- A contender that precedes the winner wins instead. -/
theorem GraphStack.Wins.overtake
    {nodes : List SymbolNodeId}
    {best : SymbolNodeId}
    (wins : stack.Wins compiled spans nodes symbol best)
    (contends : stack.Contends compiled symbol id)
    (precedes : (spans.get (stack.symbolNode id).span).rank
      (spans.get (stack.symbolNode best).span) = .lt) :
    stack.Wins compiled spans (nodes ++ [id]) symbol id where
  listed := List.mem_append_right _ List.mem_cons_self
  contends := contends
  first other listed otherContends := by
    rcases List.mem_append.mp listed with old | new
    · have notFirst := wins.first other old otherContends
      rw [ne_eq, Span.rank_eq_lt_iff (numbers _) (numbers _)] at notFirst ⊢
      rw [Span.rank_eq_lt_iff (numbers _) (numbers _)] at precedes
      exact fun less => notFirst (less.trans precedes)
    · obtain rfl := List.mem_singleton.mp new
      exact rank_self_ne_lt numbers _

/-- The winners among some nodes and one more. -/
theorem Winners.Among.contend
    {nodes : List SymbolNodeId}
    (among : winners.Among compiled stack spans nodes)
    (id : SymbolNodeId) :
    Winners.Among compiled stack spans (nodes ++ [id])
      (contend compiled stack spans winners id) := by
  constructor
  case wins =>
    intro symbol winner found
    by_cases contends : stack.Contends compiled symbol id
    · rw [lookup_contend contends] at found
      split at found
      · rename_i unclaimed
        cases found
        refine ⟨List.mem_append_right _ List.mem_cons_self, contends, ?_⟩
        intro other listed otherContends
        rcases List.mem_append.mp listed with old | new
        · exact absurd otherContends (among.unclaimed symbol unclaimed other old)
        · obtain rfl := List.mem_singleton.mp new
          exact rank_self_ne_lt numbers _
      · rename_i best isBest
        have wins := among.wins symbol best isBest
        split at found
        · rename_i precedes
          cases found
          exact wins.overtake numbers contends precedes
        · rename_i behind
          cases found
          exact wins.extend fun _ => behind
    · rw [lookup_contend_of_not contends] at found
      exact (among.wins symbol winner found).extend (absurd · contends)
  case unclaimed =>
    intro symbol notFound other listed
    by_cases contends : stack.Contends compiled symbol id
    · rw [lookup_contend contends] at notFound
      split at notFound
      · cases notFound
      · split at notFound <;> cases notFound
    · rw [lookup_contend_of_not contends] at notFound
      rcases List.mem_append.mp listed with old | new
      · exact among.unclaimed symbol notFound other old
      · obtain rfl := List.mem_singleton.mp new
        exact contends

variable (compiled stack word) in
/-- The winners of a word are those among the nodes reduced there. -/
theorem among_winnersAt :
    Winners.Among compiled stack spans (stack.layer word).reduced
      (winnersAt compiled stack spans word) := by
  rw [winnersAt_eq]
  generalize (stack.layer word).reduced = nodes
  induction nodes using List.reverseRecOn with
  | nil =>
      exact ⟨fun _ _ found => by simp at found, fun _ _ _ listed => by simp at listed⟩
  | append_singleton nodes id inductionHypothesis =>
      rw [List.foldl_append, List.foldl_cons, List.foldl_nil]
      exact inductionHypothesis.contend numbers id

/-- Winners of the same symbol cover the same offsets. -/
theorem GraphStack.Wins.same_extent
    {nodes : List SymbolNodeId}
    {best : SymbolNodeId}
    (wins : stack.Wins compiled spans nodes symbol id)
    (alsoWins : stack.Wins compiled spans nodes symbol best) :
    (spans.get (stack.symbolNode id).span).start =
        (spans.get (stack.symbolNode best).span).start ∧
      (spans.get (stack.symbolNode id).span).stop =
        (spans.get (stack.symbolNode best).span).stop := by
  have notBefore := alsoWins.first id wins.listed wins.contends
  have notBehind := wins.first best alsoWins.listed alsoWins.contends
  rw [ne_eq, Span.rank_eq_lt_iff (numbers _) (numbers _)] at notBefore notBehind
  have same := le_antisymm (not_lt.mp notBehind) (not_lt.mp notBefore)
  unfold Span.rankKey at same
  simp only [EmbeddingLike.apply_eq_iff_eq, Prod.mk.injEq] at same
  exact ⟨same.1, same.2.1⟩

end Numbers

end Winners

end SpanForest
