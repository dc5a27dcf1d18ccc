import SpanForest.Grammar.Follow
import SpanForest.Proofs.BitSet
import SpanForest.Proofs.Grammar.WellFormed

namespace SpanForest

/-!
# FIRST and FOLLOW are closed

Passes over the rules add members to sets and tell whether they did. They come
to an end, since members and symbols are finitely many, and the last pass added
nothing. So the sets that were computed are closed under every rule.
-/

/-- No set has a member beyond a bound. -/
def MembersBelow (bound : Nat) (sets : Array BitSet) : Prop :=
  ∀ index member, (setAt sets index).contains member = true → member < bound

/-- Sets that got further members below a bound, as the flag tells. -/
structure Widens (bound : Nat) (before after : Bool × Array BitSet) : Prop where
  size : after.2.size = before.2.size
  kept :
    ∀ index member, (setAt before.2 index).contains member = true →
      (setAt after.2 index).contains member = true
  below : MembersBelow bound before.2 → MembersBelow bound after.2
  told :
    after.1 = true → before.1 = true ∨ ∃ index member,
      (setAt before.2 index).contains member = false ∧
        (setAt after.2 index).contains member = true
  quiet :
    after.1 = false → before.1 = false ∧ ∀ index member,
      (setAt after.2 index).contains member =
        (setAt before.2 index).contains member

/-- Replacing one set leaves the others alone. -/
theorem setAt_setIfInBounds
    {sets : Array BitSet}
    {target : SymbolId}
    (inside : target < sets.size)
    (set : BitSet)
    (index : Nat) :
    setAt (sets.setIfInBounds target set) index =
      if index = target then set else setAt sets index := by
  simp only [setAt, Array.getD_eq_getD_getElem?, Array.getElem?_setIfInBounds]
  by_cases same : index = target
  · simp [same, inside]
  · simp [same, Ne.symm same]

/-- A member after one set was replaced is in the new set or was there before. -/
theorem contains_setIfInBounds
    {sets : Array BitSet}
    {target index : SymbolId}
    {set : BitSet}
    {member : Nat}
    (held : (setAt (sets.setIfInBounds target set) index).contains member = true) :
    index = target ∧ set.contains member = true ∨
      (setAt sets index).contains member = true := by
  by_cases inside : target < sets.size
  · rw [setAt_setIfInBounds inside] at held
    split at held
    · rename_i isTarget
      exact .inl ⟨isTarget, held⟩
    · exact .inr held
  · rw [Array.setIfInBounds_eq_of_size_le (Nat.le_of_not_lt inside)] at held
    exact .inr held

namespace Widens

variable {bound : Nat} {first second third before after : Bool × Array BitSet}

theorem refl (bound : Nat) (state : Bool × Array BitSet) :
    Widens bound state state where
  size := rfl
  kept _ _ := id
  below := id
  told := .inl
  quiet isQuiet := ⟨isQuiet, fun _ _ => rfl⟩

theorem trans
    (early : Widens bound first second)
    (late : Widens bound second third) :
    Widens bound first third where
  size := late.size.trans early.size
  kept index member held := late.kept index member (early.kept index member held)
  below isBelow := late.below (early.below isBelow)
  told isTold := by
    rcases late.told isTold with earlyTold | ⟨index, member, lacked, gained⟩
    · refine (early.told earlyTold).imp_right ?_
      rintro ⟨index, member, lacked, gained⟩
      exact ⟨index, member, lacked, late.kept index member gained⟩
    · refine .inr ⟨index, member, ?_, gained⟩
      refine Bool.eq_false_iff.mpr fun held => ?_
      rw [early.kept index member held] at lacked
      cases lacked
  quiet isQuiet := by
    obtain ⟨lateQuiet, lateSame⟩ := late.quiet isQuiet
    obtain ⟨earlyQuiet, earlySame⟩ := early.quiet lateQuiet
    exact ⟨earlyQuiet, fun index member =>
      (lateSame index member).trans (earlySame index member)⟩

/-- Replacing one set by a larger one, and telling whether it is larger. -/
theorem put
    {changed grew : Bool}
    {sets : Array BitSet}
    {target : SymbolId}
    {set : BitSet}
    (inside : target < sets.size)
    (kept : ∀ member, (setAt sets target).contains member = true →
      set.contains member = true)
    (below : MembersBelow bound sets → ∀ member,
      set.contains member = true → member < bound)
    (tells : grew = true ↔ ∃ member,
      (setAt sets target).contains member = false ∧
        set.contains member = true) :
    Widens bound (changed, sets)
      (changed || grew, sets.setIfInBounds target set) := by
  have content := setAt_setIfInBounds inside set
  constructor
  case size => exact Array.size_setIfInBounds
  case kept =>
    intro index member held
    rw [content]
    split
    · rename_i same
      exact kept member (same ▸ held)
    · exact held
  case below =>
    intro isBelow index member held
    rw [content] at held
    split at held
    · exact below isBelow member held
    · exact isBelow index member held
  case told =>
    intro isTold
    refine (Bool.or_eq_true _ _ ▸ isTold).imp_right fun isGrown => ?_
    obtain ⟨member, lacked, gained⟩ := tells.mp isGrown
    exact ⟨target, member, lacked, by rwa [content, if_pos rfl]⟩
  case quiet =>
    intro isQuiet
    obtain ⟨wasQuiet, notGrown⟩ := Bool.or_eq_false_iff.mp isQuiet
    refine ⟨wasQuiet, fun index member => ?_⟩
    rw [content]
    split
    · rename_i same
      subst same
      cases held : (setAt sets index).contains member with
      | true => exact kept member held
      | false =>
          refine Bool.eq_false_iff.mpr fun gained => ?_
          rw [tells.mpr ⟨member, held, gained⟩] at notGrown
          cases notGrown
    · rfl

end Widens

/-- A set that has a member is one of the sets. -/
theorem lt_size_of_contains_setAt
    {sets : Array BitSet}
    {index member : Nat}
    (held : (setAt sets index).contains member = true) :
    index < sets.size := by
  refine Nat.lt_of_not_le fun outside => ?_
  rw [setAt, Array.getD_eq_getD_getElem?, Array.getElem?_eq_none outside,
    Option.getD_none, BitSet.contains_empty] at held
  cases held

/-- The pairs of an index and a member below a bound that sets do not hold. -/
def missingMembers (bound : Nat) (sets : Array BitSet) : Nat :=
  missingFacts
    ((List.range bound).flatMap fun index =>
      (List.range bound).map fun member => (index, member))
    fun fact => (setAt sets fact.1).contains fact.2

theorem missingMembers_lt_succ (bound : Nat) (sets : Array BitSet) :
    missingMembers bound sets < bound * bound + 1 := by
  refine Nat.lt_succ_of_le (Nat.le_trans List.countP_le_length ?_)
  simp only [List.length_flatMap, List.length_map, List.length_range,
    List.map_const', List.sum_replicate_nat, Nat.le_refl]

/-- Sets that got a further member miss fewer. -/
theorem Widens.missingMembers_lt
    {bound : Nat}
    {sets : Array BitSet}
    {after : Bool × Array BitSet}
    (widens : Widens bound (false, sets) after)
    (size : sets.size = bound)
    (below : MembersBelow bound sets)
    (isTold : after.1 = true) :
    missingMembers bound after.2 < missingMembers bound sets := by
  obtain ⟨index, member, lacked, gained⟩ :=
    (widens.told isTold).resolve_left Bool.false_ne_true
  have inside := lt_size_of_contains_setAt gained
  rw [widens.size, size] at inside
  have listed : (index, member) ∈ (List.range bound).flatMap fun index =>
      (List.range bound).map fun member => (index, member) :=
    List.mem_flatMap.mpr ⟨index, List.mem_range.mpr inside,
      List.mem_map.mpr ⟨member,
        List.mem_range.mpr (widens.below below index member gained), rfl⟩⟩
  unfold missingMembers
  exact missingFacts_lt (fun fact held => widens.kept fact.1 fact.2 held) listed
    lacked gained

section Passes

variable {bound : Nat} {pass : Array BitSet → Bool × Array BitSet}
variable {initial : Array BitSet}
variable (size : initial.size = bound) (below : MembersBelow bound initial)
variable
  (widens : ∀ sets : Array BitSet, sets.size = bound →
    MembersBelow bound sets → Widens bound (false, sets) (pass sets))
include size below widens

/-- Passes that widen sets end with a pass that adds nothing. -/
theorem exists_quiet_pass :
    ∃ last : Array BitSet, last.size = bound ∧ MembersBelow bound last ∧
      (∀ index member, (setAt initial index).contains member = true →
        (setAt last index).contains member = true) ∧
      pass last = (false, (repeatRounds pass (bound * bound + 1) initial).2) := by
  obtain ⟨last, ⟨lastSize, lastBelow, kept⟩, quiet⟩ :=
    @exists_stable_repeatRounds _ pass
      (fun sets => sets.size = bound ∧ MembersBelow bound sets ∧
        ∀ index member, (setAt initial index).contains member = true →
          (setAt sets index).contains member = true)
      (missingMembers bound)
      (by
        rintro sets ⟨isSize, isBelow, kept⟩
        have wider := widens sets isSize isBelow
        exact ⟨wider.size.trans isSize, wider.below isBelow,
          fun index member held =>
            wider.kept index member (kept index member held)⟩)
      (fun sets ⟨isSize, isBelow, _⟩ =>
        (widens sets isSize isBelow).missingMembers_lt isSize isBelow)
      (bound * bound + 1) initial ⟨size, below, fun _ _ => id⟩
      (missingMembers_lt_succ bound initial)
  exact ⟨last, lastSize, lastBelow, kept, quiet⟩

/-- Passes that widen sets end by themselves: more would change nothing. -/
theorem repeatRounds_passes (more : Nat) :
    repeatRounds pass (bound * bound + 1 + more) initial =
      repeatRounds pass (bound * bound + 1) initial := by
  refine @repeatRounds_add _ pass
    (fun sets => sets.size = bound ∧ MembersBelow bound sets)
    (missingMembers bound) ?_ ?_ _ initial ⟨size, below⟩
    (missingMembers_lt_succ bound initial) more
  · rintro sets ⟨isSize, isBelow⟩
    have wider := widens sets isSize isBelow
    exact ⟨wider.size.trans isSize, wider.below isBelow⟩
  · exact fun sets ⟨isSize, isBelow⟩ =>
      (widens sets isSize isBelow).missingMembers_lt isSize isBelow

end Passes

namespace FirstSets

variable (first : FirstSets)

theorem contains_extend
    (known : BitSet)
    (symbols : List SymbolId)
    (member : Nat) :
    (first.extend known symbols).contains member =
      (known.contains member || (first.ofSequence symbols).contains member) := by
  unfold ofSequence
  induction symbols generalizing known with
  | nil => simp [extend, Bool.or_comm]
  | cons symbol rest inductionHypothesis =>
      unfold extend
      simp only
      split
      · rw [inductionHypothesis, @inductionHypothesis (BitSet.unionExcept _ _ _).2]
        simp [Bool.or_assoc]
      · simp

@[simp] theorem contains_ofSequence_nil (member : Nat) :
    (first.ofSequence []).contains member = (member == emptyString) := by
  simp [ofSequence, extend]

/-- FIRST of a string has what begins its first symbol, or else what follows that. -/
theorem contains_ofSequence_cons
    {symbol : SymbolId}
    {rest : List SymbolId}
    {member : Nat} :
    (first.ofSequence (symbol :: rest)).contains member = true ↔
      member ≠ emptyString ∧ (first.get symbol).contains member = true ∨
        first.nullable symbol = true ∧
          (first.ofSequence rest).contains member = true := by
  conv_lhs => rw [ofSequence]; unfold extend
  by_cases isNullable : first.nullable symbol = true
  · rw [if_pos isNullable, contains_extend]
    simp [isNullable, and_comm]
  · rw [if_neg isNullable]
    simp [isNullable, and_comm]

/-- FIRST of strings depends on what the sets hold alone. -/
theorem contains_ofSequence_congr
    {sets other : Array BitSet}
    (same : ∀ index member,
      (setAt other index).contains member = (setAt sets index).contains member)
    (passes more : Nat)
    (symbols : List SymbolId)
    (member : Nat) :
    (ofSequence ⟨other, more⟩ symbols).contains member =
      (ofSequence ⟨sets, passes⟩ symbols).contains member := by
  induction symbols with
  | nil => rw [contains_ofSequence_nil, contains_ofSequence_nil]
  | cons symbol rest inductionHypothesis =>
      have sameEmpty : nullable ⟨other, more⟩ symbol =
          nullable ⟨sets, passes⟩ symbol :=
        same symbol emptyString
      have sameFirst : (get ⟨other, more⟩ symbol).contains member =
          (get ⟨sets, passes⟩ symbol).contains member :=
        same symbol member
      rw [Bool.eq_iff_iff, contains_ofSequence_cons, contains_ofSequence_cons,
        sameEmpty, sameFirst, inductionHypothesis]

/-- FIRST of two strings in a row. -/
theorem contains_ofSequence_append
    {form other : List SymbolId}
    {member : SymbolId} :
    (first.ofSequence (form ++ other)).contains member = true ↔
      member ≠ emptyString ∧ (first.ofSequence form).contains member = true ∨
        (first.ofSequence form).contains emptyString = true ∧
          (first.ofSequence other).contains member = true := by
  induction form with
  | nil => simp
  | cons symbol rest inductionHypothesis =>
      rw [List.cons_append, first.contains_ofSequence_cons, inductionHypothesis,
        first.contains_ofSequence_cons, first.contains_ofSequence_cons]
      simp only [ne_eq, not_true_eq_false, false_and, false_or]
      grind

/--
Whether a terminal may come first behind some position.

The symbols stand between the position and the trailer: the terminal begins
what they derive, or they vanish and the trailer has it.
-/
def Trails (symbols : List SymbolId) (trailer : BitSet) (member : SymbolId) : Prop :=
  member ≠ emptyString ∧ (first.ofSequence symbols).contains member = true ∨
    (first.ofSequence symbols).contains emptyString = true ∧
      trailer.contains member = true

@[simp] theorem trails_nil
    {trailer : BitSet}
    {member : SymbolId} :
    first.Trails [] trailer member ↔ trailer.contains member = true := by
  simp [Trails]

/-- What trails behind two strings in a row. -/
theorem trails_append
    {form other : List SymbolId}
    {trailer : BitSet}
    {member : SymbolId} :
    first.Trails (form ++ other) trailer member ↔
      member ≠ emptyString ∧ (first.ofSequence form).contains member = true ∨
        (first.ofSequence form).contains emptyString = true ∧
          first.Trails other trailer member := by
  simp only [Trails, contains_ofSequence_append, ne_eq, not_true_eq_false,
    false_and, false_or]
  grind

/-- The trailer in front of one more symbol has what trails behind it. -/
theorem trails_singleton
    {symbol : SymbolId}
    {trailer : BitSet}
    {member : SymbolId} :
    first.Trails [symbol] trailer member ↔
      member ≠ emptyString ∧ (first.get symbol).contains member = true ∨
        first.nullable symbol = true ∧ trailer.contains member = true := by
  simp only [Trails, contains_ofSequence_cons, contains_ofSequence_nil, ne_eq,
    not_true_eq_false, false_and, false_or, beq_self_eq_true, and_true,
    beq_iff_eq]
  grind

end FirstSets

section First

variable {bound : Nat} {sets : Array BitSet}

/-- What one symbol adds to FIRST of another. -/
theorem widens_absorbSet
    {changed : Bool}
    {target : SymbolId}
    (inside : target < sets.size)
    (source : SymbolId) :
    Widens bound (changed, sets)
        (changed || (absorbSet sets target source).1,
          (absorbSet sets target source).2) ∧
      ∀ member, member ≠ emptyString →
        (setAt sets source).contains member = true →
          (setAt (absorbSet sets target source).2 target).contains member =
            true := by
  unfold absorbSet
  split
  · rename_i same
    rw [Bool.or_false]
    exact ⟨.refl _ _, fun member _ held => same ▸ held⟩
  · constructor
    · refine .put inside ?_ ?_ (BitSet.unionExcept_fst_eq_true_iff _ _ _)
      · intro member held
        rw [BitSet.contains_unionExcept, held, Bool.true_or]
      · intro isBelow member held
        rw [BitSet.contains_unionExcept, Bool.or_eq_true,
          Bool.and_eq_true] at held
        rcases held with old | ⟨new, -⟩
        · exact isBelow target member old
        · exact isBelow source member new
    · intro member notEmpty held
      rw [setAt_setIfInBounds inside, if_pos rfl, BitSet.contains_unionExcept,
        held, bne_iff_ne.mpr notEmpty, Bool.true_and, Bool.or_true]

/--
What one right-hand side adds to FIRST of its left-hand side. If it adds nothing,
the left-hand side has all that FIRST of the right-hand side holds.
-/
theorem widens_addFirst
    {lhs : SymbolId}
    (emptyBelow : emptyString < bound)
    (changed : Bool)
    (inside : lhs < sets.size)
    (symbols : List SymbolId) :
    Widens bound (changed, sets) (addFirst lhs symbols (changed, sets)) ∧
      ((addFirst lhs symbols (changed, sets)).1 = false →
        ∀ passes member,
          (FirstSets.ofSequence ⟨sets, passes⟩ symbols).contains member = true →
            (setAt sets lhs).contains member = true) := by
  induction symbols generalizing changed sets with
  | nil =>
      constructor
      · refine @Widens.put bound changed ((setAt sets lhs).insert emptyString).1
          sets lhs ((setAt sets lhs).insert emptyString).2 inside ?_ ?_ ?_
        · intro member held
          rw [BitSet.contains_insert, held, Bool.or_true]
        · intro isBelow member held
          rw [BitSet.contains_insert, Bool.or_eq_true, beq_iff_eq] at held
          rcases held with rfl | old
          · exact emptyBelow
          · exact isBelow lhs member old
        · rw [BitSet.insert_fst, Bool.not_eq_true']
          refine ⟨fun absent => ⟨emptyString, absent, by simp⟩, ?_⟩
          rintro ⟨member, lacked, gained⟩
          rw [BitSet.contains_insert, lacked, Bool.or_false, beq_iff_eq] at gained
          exact gained ▸ lacked
      · intro isQuiet passes member held
        rw [FirstSets.contains_ofSequence_nil, beq_iff_eq] at held
        have present : (!(setAt sets lhs).contains emptyString) = false := by
          rw [← BitSet.insert_fst]
          exact (Bool.or_eq_false_iff.mp isQuiet).2
        rw [held]
        simpa using present
  | cons symbol rest inductionHypothesis =>
      obtain ⟨absorbed, gains⟩ :=
        @widens_absorbSet bound sets changed lhs inside symbol
      obtain ⟨later, closed⟩ := @inductionHypothesis
        (absorbSet sets lhs symbol).2
        (changed || (absorbSet sets lhs symbol).1)
        (absorbed.size.symm ▸ inside)
      unfold addFirst
      simp only
      split
      · refine ⟨absorbed.trans later, fun isQuiet passes member held => ?_⟩
        have same := (absorbed.quiet (later.quiet isQuiet).1).2
        rw [← same]
        rcases (FirstSets.contains_ofSequence_cons ⟨sets, passes⟩).mp held with
          ⟨notEmpty, begins⟩ | ⟨-, follows⟩
        · exact gains member notEmpty begins
        · refine closed isQuiet passes member ?_
          rw [FirstSets.contains_ofSequence_congr same passes]
          exact follows
      · rename_i notNullable
        refine ⟨absorbed, fun isQuiet passes member held => ?_⟩
        have same := (absorbed.quiet isQuiet).2
        rw [← same]
        rcases (FirstSets.contains_ofSequence_cons ⟨sets, passes⟩).mp held with
          ⟨notEmpty, begins⟩ | ⟨isNullable, -⟩
        · exact gains member notEmpty begins
        · rw [same] at notNullable
          exact absurd isNullable notNullable

/-- A pass over rules widens FIRST; if it adds nothing, FIRST is closed. -/
theorem widens_firstPass
    (emptyBelow : emptyString < bound)
    (changed : Bool)
    (rules : List Rule)
    (inside : ∀ rule ∈ rules, rule.lhs < sets.size) :
    Widens bound (changed, sets)
        (rules.foldl (fun state rule => addFirst rule.lhs rule.symbols state)
          (changed, sets)) ∧
      ((rules.foldl
          (fun state rule => addFirst rule.lhs rule.symbols state)
          (changed, sets)).1 = false →
        ∀ rule ∈ rules, ∀ passes member,
          (FirstSets.ofSequence ⟨sets, passes⟩ rule.symbols).contains member =
              true →
            (setAt sets rule.lhs).contains member = true) := by
  induction rules generalizing changed sets with
  | nil => exact ⟨.refl _ _, fun _ _ member => by cases member⟩
  | cons rule rest inductionHypothesis =>
      obtain ⟨added, closed⟩ := widens_addFirst emptyBelow changed
        (inside rule List.mem_cons_self) rule.symbols
      rw [List.foldl_cons]
      generalize addFirst rule.lhs rule.symbols (changed, sets) = middle
        at added closed ⊢
      obtain ⟨middleChanged, middleSets⟩ := middle
      obtain ⟨later, restClosed⟩ := @inductionHypothesis middleSets middleChanged
        fun other member => added.size.symm ▸
          inside other (List.mem_cons_of_mem _ member)
      refine ⟨added.trans later, fun isQuiet other isRule passes member held => ?_⟩
      have middleQuiet := (later.quiet isQuiet).1
      rcases List.mem_cons.mp isRule with isFirst | inRest
      · rw [isFirst] at held ⊢
        exact closed middleQuiet passes member held
      · have same := (added.quiet middleQuiet).2
        rw [← same]
        refine restClosed isQuiet other inRest passes member ?_
        rw [FirstSets.contains_ofSequence_congr same passes]
        exact held

end First

section Follow

variable {bound : Nat} {grammar : Grammar} {first : FirstSets}
variable {sets : Array BitSet}

/--
What one right-hand side, read backwards, adds to FOLLOW: each nonterminal gets
all that trails behind it.
-/
theorem widens_addFollow
    (size : grammar.numSymbols ≤ sets.size)
    (firstBelow : MembersBelow bound first.sets)
    {trailer : BitSet}
    (trailerBelow : ∀ member, trailer.contains member = true → member < bound)
    (changed : Bool)
    (symbols : List SymbolId) :
    Widens bound (changed, sets)
        (addFollow grammar first trailer symbols (changed, sets)) ∧
      ∀ after symbol before, symbols = after ++ symbol :: before →
        grammar.isNonterminal symbol = true →
          ∀ member, first.Trails after.reverse trailer member →
            (setAt (addFollow grammar first trailer symbols (changed, sets)).2
              symbol).contains member = true := by
  induction symbols generalizing changed sets trailer with
  | nil =>
      refine ⟨.refl _ _, fun after symbol before isWhole => ?_⟩
      simp at isWhole
  | cons symbol before inductionHypothesis =>
      let added : Bool × Array BitSet :=
        if grammar.isNonterminal symbol then
          ((setAt sets symbol).union trailer |>.1,
            sets.setIfInBounds symbol ((setAt sets symbol).union trailer).2)
        else
          (false, sets)
      have widens : Widens bound (changed, sets)
          (changed || added.1, added.2) := by
        simp only [added]
        split
        · rename_i nonterminal
          have inside := Nat.lt_of_lt_of_le
            (Grammar.lt_numSymbols_of_isNonterminal nonterminal) size
          refine .put inside ?_ ?_ (BitSet.union_fst_eq_true_iff _ _)
          · intro member held
            rw [BitSet.contains_union, held, Bool.true_or]
          · intro isBelow member held
            rw [BitSet.contains_union, Bool.or_eq_true] at held
            rcases held with old | new
            · exact isBelow symbol member old
            · exact trailerBelow member new
        · rw [Bool.or_false]
          exact .refl _ _
      let next :=
        ((if first.nullable symbol then trailer else trailer.clear).unionExcept
          (first.get symbol) emptyString).2
      have isNext : addFollow grammar first trailer (symbol :: before)
          (changed, sets) =
            addFollow grammar first next before
              (changed || added.1, added.2) :=
        rfl
      have nextHas : ∀ member, next.contains member = true ↔
          first.Trails [symbol] trailer member := by
        intro member
        rw [FirstSets.trails_singleton, BitSet.contains_unionExcept]
        cases isNullable : first.nullable symbol <;>
          simp [and_comm, or_comm]
      have nextBelow : ∀ member, next.contains member = true →
          member < bound := by
        intro member held
        rcases (first.trails_singleton).mp ((nextHas member).mp held) with
          ⟨-, begins⟩ | ⟨-, behind⟩
        · exact firstBelow symbol member begins
        · exact trailerBelow member behind
      have onSymbol : grammar.isNonterminal symbol = true → ∀ member,
          trailer.contains member = true →
            (setAt added.2 symbol).contains member = true := by
        intro nonterminal member held
        have inside := Nat.lt_of_lt_of_le
          (Grammar.lt_numSymbols_of_isNonterminal nonterminal) size
        simp only [added, if_pos nonterminal]
        rw [setAt_setIfInBounds inside, if_pos rfl, BitSet.contains_union,
          held, Bool.or_true]
      obtain ⟨later, closed⟩ := @inductionHypothesis added.2
        (Nat.le_trans size (Nat.le_of_eq widens.size.symm)) next nextBelow
        (changed || added.1)
      rw [isNext]
      refine ⟨widens.trans later, ?_⟩
      intro after left rest isWhole nonterminal member trails
      cases after with
      | nil =>
          cases isWhole
          apply later.kept
          exact onSymbol nonterminal member (first.trails_nil.mp trails)
      | cons right after =>
          cases isWhole
          apply closed after left rest rfl nonterminal
          rw [List.reverse_cons, FirstSets.trails_append] at trails
          exact trails.imp_right fun ⟨vanishes, behind⟩ =>
            ⟨vanishes, (nextHas member).mpr behind⟩

/--
A pass over rules widens FOLLOW. If it adds nothing, FOLLOW is closed: a
nonterminal of a right-hand side has what trails behind it and then behind the
left-hand side.
-/
theorem widens_followPass
    (size : grammar.numSymbols ≤ sets.size)
    (firstBelow : MembersBelow bound first.sets)
    (setsBelow : MembersBelow bound sets)
    (changed : Bool)
    (rules : List Rule) :
    Widens bound (changed, sets)
        (rules.foldl
          (fun state rule => addFollow grammar first (setAt state.2 rule.lhs)
            rule.symbols.reverse state)
          (changed, sets)) ∧
      ∀ final, rules.foldl
            (fun state rule => addFollow grammar first (setAt state.2 rule.lhs)
              rule.symbols.reverse state)
            (changed, sets) = (false, final) →
        ∀ rule ∈ rules, ∀ before symbol after,
          rule.symbols = before ++ symbol :: after →
            grammar.isNonterminal symbol = true →
              ∀ member, first.Trails after (setAt final rule.lhs) member →
                (setAt final symbol).contains member = true := by
  induction rules generalizing changed sets with
  | nil => exact ⟨.refl _ _, fun _ _ _ member => by cases member⟩
  | cons rule rest inductionHypothesis =>
      obtain ⟨added, onAdded⟩ := widens_addFollow size firstBelow
        (setsBelow rule.lhs) changed rule.symbols.reverse
      rw [List.foldl_cons]
      generalize addFollow grammar first (setAt sets rule.lhs)
        rule.symbols.reverse (changed, sets) = middle at added onAdded ⊢
      obtain ⟨middleChanged, middleSets⟩ := middle
      obtain ⟨later, closed⟩ := @inductionHypothesis middleSets
        (Nat.le_trans size (Nat.le_of_eq added.size.symm))
        (added.below setsBelow) middleChanged
      have widens := added.trans later
      refine ⟨widens, fun final isFinal other isRule => ?_⟩
      rcases List.mem_cons.mp isRule with isFirst | inRest
      · rw [isFirst]
        rw [isFinal] at widens later
        intro before symbol after isWhole nonterminal member trails
        apply later.kept
        apply onAdded after.reverse symbol before.reverse (by simp [isWhole])
          nonterminal
        rw [List.reverse_reverse]
        -- A pass that adds nothing leaves the trailer of the rule as it was.
        exact trails.imp_right fun ⟨vanishes, behind⟩ =>
          ⟨vanishes, ((widens.quiet rfl).2 rule.lhs member).symm.trans behind⟩
      · exact closed final isFinal other inRest

end Follow

section Computed

variable {grammar : Grammar}

/-- To begin with, terminals have themselves in FIRST, and nothing else is there. -/
theorem FirstSets.initial_spec :
    (FirstSets.initial grammar).size = grammar.numSymbols ∧
      MembersBelow grammar.numSymbols (FirstSets.initial grammar) ∧
      ∀ symbol member,
        (setAt (FirstSets.initial grammar) symbol).contains member = true ↔
          symbol < grammar.numSymbols ∧ grammar.isNonterminal symbol = false ∧
            member = symbol := by
  have size : (FirstSets.initial grammar).size = grammar.numSymbols := by
    simp [FirstSets.initial, Grammar.symbolIds]
  have content : ∀ symbol member,
      (setAt (FirstSets.initial grammar) symbol).contains member = true ↔
        symbol < grammar.numSymbols ∧ grammar.isNonterminal symbol = false ∧
          member = symbol := by
    intro symbol member
    by_cases inside : symbol < grammar.numSymbols
    · have isSet : setAt (FirstSets.initial grammar) symbol =
          if grammar.isNonterminal symbol then
            BitSet.empty
          else
            BitSet.ofList [symbol] := by
        simp [setAt, FirstSets.initial, Grammar.symbolIds, inside]
      rw [isSet]
      cases isKind : grammar.isNonterminal symbol <;> simp [inside]
    · refine ⟨fun held => absurd (lt_size_of_contains_setAt held) ?_,
        fun known => absurd known.1 inside⟩
      rwa [size]
  refine ⟨size, fun symbol member held => ?_, content⟩
  obtain ⟨inside, -, rfl⟩ := (content symbol member).mp held
  exact inside

variable (wellFormed : grammar.WellFormed)
include wellFormed

/-- Passes over the rules widen FIRST. -/
theorem FirstSets.widens_pass
    (sets : Array BitSet)
    (size : sets.size = grammar.numSymbols) :
    Widens grammar.numSymbols (false, sets)
        (firstPass grammar.allRules sets) ∧
      ((firstPass grammar.allRules sets).1 = false →
        ∀ rule ∈ grammar.allRules, ∀ passes member,
          (FirstSets.ofSequence ⟨sets, passes⟩ rule.symbols).contains member =
              true →
            (setAt sets rule.lhs).contains member = true) :=
  widens_firstPass (Nat.lt_trans (by decide) wellFormed.reserved.1) false
    grammar.allRules fun _ member => size ▸
      Grammar.lt_numSymbols_of_isNonterminal
        (wellFormed.isNonterminal_lhs member)

/--
FIRST holds symbols only, has every terminal, and is closed: a left-hand side has
what its right-hand sides have.
-/
theorem FirstSets.compute_spec :
    MembersBelow grammar.numSymbols (FirstSets.compute grammar).sets ∧
      (∀ symbol, symbol < grammar.numSymbols →
        grammar.isNonterminal symbol = false →
          ((FirstSets.compute grammar).get symbol).contains symbol = true) ∧
      ∀ rule ∈ grammar.allRules, ∀ member,
        ((FirstSets.compute grammar).ofSequence rule.symbols).contains member =
            true →
          ((FirstSets.compute grammar).get rule.lhs).contains member = true := by
  obtain ⟨size, initialBelow, content⟩ := @FirstSets.initial_spec grammar
  have widens := FirstSets.widens_pass wellFormed
  obtain ⟨last, isSize, isBelow, kept, isLast⟩ := exists_quiet_pass size
    initialBelow fun sets isSize _ => (widens sets isSize).1
  obtain ⟨wider, closed⟩ := widens last isSize
  have isQuiet : (firstPass grammar.allRules last).1 = false := by
    rw [isLast]
  have isFinal : (firstPass grammar.allRules last).2 =
      (FirstSets.compute grammar).sets :=
    congrArg Prod.snd isLast
  have same := (wider.quiet isQuiet).2
  rw [isFinal] at same
  refine ⟨isFinal ▸ wider.below isBelow, fun symbol inside terminal => ?_, ?_⟩
  · have held := kept symbol symbol
      ((content symbol symbol).mpr ⟨inside, terminal, rfl⟩)
    exact (same symbol symbol).trans held
  · intro rule isRule member held
    have heldBefore := (FirstSets.contains_ofSequence_congr same 0
      (FirstSets.compute grammar).passes rule.symbols member).symm.trans held
    exact (same rule.lhs member).trans
      (closed isQuiet rule isRule 0 member heldBefore)

omit wellFormed in
/-- To begin with, the end of the input follows the start symbol, and nothing else. -/
theorem FollowSets.initial_spec
    (known : grammar.start < grammar.numSymbols) :
    (FollowSets.initial grammar).size = grammar.numSymbols ∧
      MembersBelow grammar.numSymbols (FollowSets.initial grammar) ∧
      ∀ symbol member,
        (setAt (FollowSets.initial grammar) symbol).contains member = true ↔
          symbol = grammar.start ∧ member = endOfInput := by
  have content : ∀ symbol member,
      (setAt (FollowSets.initial grammar) symbol).contains member = true ↔
        symbol = grammar.start ∧ member = endOfInput := by
    intro symbol member
    have isSet : setAt (FollowSets.initial grammar) symbol =
        if symbol = grammar.start then
          BitSet.ofList [endOfInput]
        else
          setAt (Array.replicate grammar.numSymbols BitSet.empty) symbol :=
      setAt_setIfInBounds (by simpa using known) _ _
    have noMember :
        (setAt (Array.replicate grammar.numSymbols BitSet.empty)
          symbol).contains member = false := by
      by_cases inside : symbol < grammar.numSymbols <;>
        simp [setAt, Array.getD_eq_getD_getElem?, inside]
    rw [isSet]
    by_cases isStart : symbol = grammar.start <;> simp [isStart, noMember]
  refine ⟨by simp [FollowSets.initial], fun symbol member held => ?_, content⟩
  obtain ⟨-, rfl⟩ := (content symbol member).mp held
  exact Nat.lt_of_le_of_lt (Nat.zero_le _) known

/-- Passes over the rules widen FOLLOW. -/
theorem FollowSets.widens_pass
    (sets : Array BitSet)
    (size : sets.size = grammar.numSymbols)
    (below : MembersBelow grammar.numSymbols sets) :
    Widens grammar.numSymbols (false, sets)
        (followPass grammar (FirstSets.compute grammar) sets) ∧
      ∀ final,
        followPass grammar (FirstSets.compute grammar) sets = (false, final) →
          ∀ rule ∈ grammar.allRules, ∀ before symbol after,
            rule.symbols = before ++ symbol :: after →
              grammar.isNonterminal symbol = true →
                ∀ member, (FirstSets.compute grammar).Trails after
                    (setAt final rule.lhs) member →
                  (setAt final symbol).contains member = true :=
  widens_followPass (Nat.le_of_eq size.symm) (FirstSets.compute_spec wellFormed).1
    below false grammar.allRules

/--
FOLLOW of the start symbol has the end of the input, and FOLLOW is closed: a
nonterminal of a right-hand side has what trails behind it and then behind the
left-hand side.
-/
theorem FollowSets.closed_compute :
    ((FollowSets.compute grammar (FirstSets.compute grammar)).get
        grammar.start).contains endOfInput = true ∧
      ∀ rule ∈ grammar.allRules, ∀ before symbol after,
        rule.symbols = before ++ symbol :: after →
          grammar.isNonterminal symbol = true →
            ∀ member, (FirstSets.compute grammar).Trails after
                ((FollowSets.compute grammar (FirstSets.compute grammar)).get
                  rule.lhs) member →
              ((FollowSets.compute grammar (FirstSets.compute grammar)).get
                symbol).contains member = true := by
  obtain ⟨size, initialBelow, content⟩ := FollowSets.initial_spec
    (Grammar.lt_numSymbols_of_isNonterminal wellFormed.start_nonterminal.1)
  have widens := FollowSets.widens_pass wellFormed
  obtain ⟨last, isSize, isBelow, kept, isLast⟩ := exists_quiet_pass size
    initialBelow fun sets isSize isBelow => (widens sets isSize isBelow).1
  obtain ⟨wider, closed⟩ := widens last isSize isBelow
  rw [isLast] at wider
  refine ⟨wider.kept grammar.start endOfInput ?_, closed _ isLast⟩
  exact kept grammar.start endOfInput ((content _ _).mpr ⟨rfl, rfl⟩)

/--
FOLLOW of the start symbol has the end of the input; what follows a left-hand
side follows the last symbol of the right-hand side, and FIRST of a symbol
follows the one before it.
-/
theorem FollowSets.compute_spec :
    ((FollowSets.compute grammar (FirstSets.compute grammar)).get
        grammar.start).contains endOfInput = true ∧
      ∀ rule ∈ grammar.allRules,
        (∀ last ∈ rule.symbols.getLast?,
          grammar.isNonterminal last = true → ∀ member,
            ((FollowSets.compute grammar (FirstSets.compute grammar)).get
                rule.lhs).contains member = true →
              ((FollowSets.compute grammar (FirstSets.compute grammar)).get
                last).contains member = true) ∧
        ∀ left right, [left, right] <:+: rule.symbols →
          grammar.isNonterminal left = true → ∀ member,
            member ≠ emptyString →
              ((FirstSets.compute grammar).get right).contains member = true →
                ((FollowSets.compute grammar (FirstSets.compute grammar)).get
                  left).contains member = true := by
  obtain ⟨atStart, closed⟩ := FollowSets.closed_compute wellFormed
  refine ⟨atStart, fun rule isRule => ⟨?_, ?_⟩⟩
  · intro last isLast nonterminal member held
    obtain ⟨before, isWhole⟩ := List.getLast?_eq_some_iff.mp isLast
    exact closed rule isRule before last [] isWhole nonterminal member
      ((FirstSets.trails_nil _).mpr held)
  · rintro left right ⟨before, after, isWhole⟩ nonterminal member notEmpty held
    refine closed rule isRule before left (right :: after)
      (by simpa using isWhole.symm) nonterminal member (.inl ⟨notEmpty, ?_⟩)
    exact (FirstSets.contains_ofSequence_cons _).mpr (.inl ⟨notEmpty, held⟩)

end Computed

end SpanForest
