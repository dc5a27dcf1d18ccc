import Mathlib.Data.List.Sort
import Mathlib.Data.Nat.Bitwise
import SpanForest.Proofs.BitSet

namespace SpanForest

/-!
# Iterating over a bit set

The members of a set can be asked for one at a time. A cursor holds what is left of
one word and the words behind it; it skips words without bits, yields the lowest bit
that is left and clears it. Exhausting it yields every member once, in ascending
order, which is the list of the members.
-/

section Lowest

variable {bits : BitVec 32}

/-- A word without its lowest bit. -/
def clearLowest (bits : BitVec 32) : BitVec 32 :=
  bits &&& (bits - 1#32)

/-- A word that is not zero is its lowest bit and what stands above it. -/
theorem exists_toNat_eq_add_lowest (nonzero : bits ≠ 0#32) :
    ∃ above, bits.toNat =
      2 ^ (bits.ctz.toNat + 1) * above + 2 ^ bits.ctz.toNat := by
  have lowest : bits.toNat % 2 ^ (bits.ctz.toNat + 1) = 2 ^ bits.ctz.toNat := by
    refine Nat.eq_of_testBit_eq fun bit => ?_
    rw [Nat.testBit_mod_two_pow, Nat.testBit_two_pow, BitVec.testBit_toNat]
    -- Bits below the lowest are clear, and the remainder has none above it.
    rcases Nat.lt_trichotomy bit bits.ctz.toNat with below | rfl | above
    · rw [BitVec.getLsbD_false_of_lt_ctz below]
      simp [Nat.ne_of_gt below]
    · rw [BitVec.getLsbD_true_ctz_of_ne_zero nonzero]
      simp
    · have outside : ¬ bit < bits.ctz.toNat + 1 := by omega
      simp [outside, Nat.ne_of_lt above]
  rw [← lowest]
  exact ⟨_, (Nat.div_add_mod _ _).symm⟩

/-- Clearing the lowest bit clears no other. -/
theorem getLsbD_clearLowest
    (nonzero : bits ≠ 0#32)
    (bit : Nat) :
    (clearLowest bits).getLsbD bit =
      (bits.getLsbD bit && decide (bit ≠ bits.ctz.toNat)) := by
  obtain ⟨above, shape⟩ := exists_toNat_eq_add_lowest nonzero
  have positive : 0 < 2 ^ bits.ctz.toNat := Nat.two_pow_pos _
  have larger : 2 ^ bits.ctz.toNat < 2 ^ (bits.ctz.toNat + 1) :=
    Nat.pow_lt_pow_right (by decide) (Nat.lt_succ_self _)
  have lessOne : (bits - 1#32).toNat =
      2 ^ (bits.ctz.toNat + 1) * above + (2 ^ bits.ctz.toNat - 1) := by
    have atLeastOne : 1#32 ≤ bits := by
      rw [BitVec.le_def, shape]
      exact Nat.le_add_left_of_le positive
    rw [BitVec.toNat_sub_of_le atLeastOne, shape]
    exact Nat.add_sub_assoc positive _
  rw [clearLowest, BitVec.getLsbD_and, ← BitVec.testBit_toNat, ← BitVec.testBit_toNat,
    lessOne, shape, Nat.testBit_two_pow_mul_add _ larger,
    Nat.testBit_two_pow_mul_add _ (by omega), Nat.testBit_two_pow,
    Nat.testBit_two_pow_sub_one]
  split
  · have apart : ¬(bits.ctz.toNat = bit ∧ bit < bits.ctz.toNat) := by omega
    by_cases same : bits.ctz.toNat = bit
    · simp [same]
    · simp [same]
  · have differs : bit ≠ bits.ctz.toNat := by omega
    simp [differs]

end Lowest

/-- What is left of a bit set: the bits of a word and the words behind it. -/
structure BitCursor where
  /-- The number of the lowest bit of the word. -/
  offset : Nat
  head : BitVec 32
  tail : List (BitVec 32)
  deriving Repr, DecidableEq

namespace BitCursor

/-- The next member and what is left then; words without bits are skipped. -/
def next? (cursor : BitCursor) : Option (Nat × BitCursor) :=
  if cursor.head = 0#32 then
    match tailIs : cursor.tail with
    | [] => none
    | word :: rest => next? ⟨cursor.offset + 32, word, rest⟩
  else
    some (cursor.offset + cursor.head.ctz.toNat,
      { cursor with head := clearLowest cursor.head })
termination_by cursor.tail.length
decreasing_by
  rw [tailIs]
  exact Nat.lt_succ_self _

/-- A cursor that is asked for members until it has none yields these. -/
inductive Yields : BitCursor → List Nat → Prop where
  | done {cursor : BitCursor} :
      cursor.next? = none →
      Yields cursor []
  | next {cursor later : BitCursor} {member : Nat} {members : List Nat} :
      cursor.next? = some (member, later) →
      Yields later members →
      Yields cursor (member :: members)

/-- A cursor yields one list of members. -/
theorem Yields.unique
    {cursor : BitCursor}
    {left right : List Nat}
    (first : cursor.Yields left)
    (second : cursor.Yields right) :
    left = right := by
  induction first generalizing right with
  | done isNone =>
      cases second <;> simp_all
  | next isNext _ inductionHypothesis =>
      cases second with
      | done isNone => simp_all
      | next isOther others =>
          rw [isNext] at isOther
          cases isOther
          rw [inductionHypothesis others]

end BitCursor

/-- The numbers of the bits of a word the lowest of which has number `offset`. -/
def bitsFrom (offset : Nat) (bits : BitVec 32) : List Nat :=
  ((List.range 32).filter bits.getLsbD).map (offset + ·)

/-- The numbers of the bits of some words in a row. -/
def membersFrom (offset : Nat) : List (BitVec 32) → List Nat
  | [] => []
  | bits :: rest => bitsFrom offset bits ++ membersFrom (offset + 32) rest

section Members

variable {bits : BitVec 32} {offset : Nat}

@[simp] theorem bitsFrom_zero : bitsFrom offset 0#32 = [] := by
  simp [bitsFrom]

/-- A word yields its lowest bit, then what it yields without it. -/
theorem bitsFrom_eq_cons (nonzero : bits ≠ 0#32) :
    bitsFrom offset bits =
      (offset + bits.ctz.toNat) :: bitsFrom offset (clearLowest bits) := by
  have isBit := BitVec.getLsbD_true_ctz_of_ne_zero nonzero
  have inside : bits.ctz.toNat < 32 := BitVec.lt_of_getLsbD isBit
  have same : (List.range 32).filter bits.getLsbD =
      bits.ctz.toNat :: (List.range 32).filter (clearLowest bits).getLsbD := by
    have ascending := fun word : BitVec 32 =>
      (List.pairwise_lt_range (n := 32)).filter word.getLsbD
    -- Both lists ascend, so it is enough that they have the same members.
    refine List.Pairwise.eq_of_mem_iff (ascending bits)
      (List.pairwise_cons.mpr ⟨fun bit member => ?_, ascending (clearLowest bits)⟩)
      fun bit => ?_
    · have isLeft := (List.mem_filter.mp member).2
      rw [getLsbD_clearLowest nonzero, Bool.and_eq_true, decide_eq_true_eq] at isLeft
      refine Nat.lt_of_le_of_ne (Nat.le_of_not_lt fun below => ?_) (Ne.symm isLeft.2)
      rw [BitVec.getLsbD_false_of_lt_ctz below] at isLeft
      exact Bool.false_ne_true isLeft.1
    · simp only [List.mem_cons, List.mem_filter, List.mem_range,
        getLsbD_clearLowest nonzero, Bool.and_eq_true, decide_eq_true_eq]
      by_cases isLowest : bit = bits.ctz.toNat
      · simp [isLowest, inside, isBit]
      · simp [isLowest]
  rw [bitsFrom, same]
  rfl

theorem mem_bitsFrom
    {member : Nat}
    (isMember : member ∈ bitsFrom offset bits) :
    offset ≤ member ∧ member < offset + 32 := by
  simp only [bitsFrom, List.mem_map, List.mem_filter, List.mem_range] at isMember
  obtain ⟨bit, ⟨inside, -⟩, rfl⟩ := isMember
  omega

theorem le_of_mem_membersFrom
    {words : List (BitVec 32)}
    {member : Nat}
    (isMember : member ∈ membersFrom offset words) :
    offset ≤ member := by
  induction words generalizing offset with
  | nil => cases isMember
  | cons bits rest inductionHypothesis =>
      rcases List.mem_append.mp isMember with inWord | behind
      · exact (mem_bitsFrom inWord).1
      · have := inductionHypothesis behind
        omega

/-- The numbers of the bits of words in a row ascend. -/
theorem pairwise_membersFrom (words : List (BitVec 32)) :
    (membersFrom offset words).Pairwise (· < ·) := by
  induction words generalizing offset with
  | nil => exact .nil
  | cons bits rest inductionHypothesis =>
      refine List.pairwise_append.mpr ⟨?_, inductionHypothesis, ?_⟩
      · exact ((List.pairwise_lt_range (n := 32)).filter _).map _
          fun _ _ less => Nat.add_lt_add_left less offset
      · intro member inWord other behind
        exact Nat.lt_of_lt_of_le (mem_bitsFrom inWord).2 (le_of_mem_membersFrom behind)

theorem length_membersFrom (words : List (BitVec 32)) :
    (membersFrom offset words).length =
      (words.map BitSet.population).foldr (· + ·) 0 := by
  induction words generalizing offset with
  | nil => rfl
  | cons bits rest inductionHypothesis =>
      rw [membersFrom, List.length_append, inductionHypothesis, bitsFrom, List.length_map,
        ← List.countP_eq_length_filter]
      rfl

end Members

namespace BitCursor

/-- What a cursor still leads to. -/
def ahead (cursor : BitCursor) : List Nat :=
  membersFrom cursor.offset (cursor.head :: cursor.tail)

/-- Asking for the next member takes the first of those ahead. -/
theorem ahead_eq (cursor : BitCursor) :
    cursor.ahead =
      match cursor.next? with
      | none => []
      | some (member, later) => member :: later.ahead := by
  fun_induction next? cursor with
  | case1 cursor isZero tailIs =>
      simp [ahead, isZero, tailIs, membersFrom]
  | case2 cursor isZero word rest tailIs inductionHypothesis =>
      rw [← inductionHypothesis]
      simp [ahead, isZero, tailIs, membersFrom]
  | case3 cursor nonzero =>
      simp [ahead, membersFrom, bitsFrom_eq_cons nonzero]

/-- A cursor yields what is ahead of it. -/
theorem yields_ahead (cursor : BitCursor) : cursor.Yields cursor.ahead := by
  generalize same : cursor.ahead = members
  induction members generalizing cursor with
  | nil =>
      rw [ahead_eq] at same
      cases isNext : cursor.next? with
      | none => exact .done isNext
      | some next =>
          rw [isNext] at same
          cases same
  | cons member rest inductionHypothesis =>
      rw [ahead_eq] at same
      cases isNext : cursor.next? with
      | none =>
          rw [isNext] at same
          cases same
      | some next =>
          rw [isNext] at same
          obtain ⟨rfl, rfl⟩ := List.cons_eq_cons.mp same
          exact .next isNext (inductionHypothesis next.2 rfl)

end BitCursor

namespace BitSet

variable {set : BitSet}

/-- The cursor before the first member. -/
def cursor (set : BitSet) : BitCursor :=
  ⟨0, set.words.toList.head?.getD 0#32, set.words.toList.tail⟩

theorem membersOfWord_eq_bitsFrom (index : Nat) (bits : BitVec 32) :
    membersOfWord index bits = bitsFrom (32 * index) bits := by
  unfold membersOfWord
  split
  · rename_i zero
    rw [zero, bitsFrom_zero]
  · rfl

theorem toList_eq_membersFrom (set : BitSet) :
    set.toList = membersFrom 0 set.words.toList := by
  have listed : ∀ (words : List (BitVec 32)) (index : Nat),
      ((words.zipIdx index).flatMap fun entry => membersOfWord entry.2 entry.1) =
        membersFrom (32 * index) words := by
    intro words
    induction words with
    | nil => exact fun _ => rfl
    | cons bits rest inductionHypothesis =>
        intro index
        rw [List.zipIdx_cons, List.flatMap_cons, inductionHypothesis]
        exact congrArg (· ++ _) (membersOfWord_eq_bitsFrom index bits)
  exact listed set.words.toList 0

/-- The members are listed in ascending order. -/
theorem pairwise_toList (set : BitSet) : set.toList.Pairwise (· < ·) := by
  rw [toList_eq_membersFrom]
  exact pairwise_membersFrom _

theorem length_toList (set : BitSet) : set.toList.length = set.size := by
  rw [toList_eq_membersFrom, length_membersFrom]
  rfl

/-- Iterating over a set yields the list of its members. -/
theorem yields_cursor (set : BitSet) : set.cursor.Yields set.toList := by
  have isAhead : set.cursor.ahead = set.toList := by
    rw [toList_eq_membersFrom, BitCursor.ahead, cursor]
    cases set.words.toList with
    | nil => simp [membersFrom]
    | cons bits rest => rfl
  rw [← isAhead]
  exact BitCursor.yields_ahead _

/-- A set is empty exactly if it lists no members. -/
theorem isEmpty_eq_true_iff : set.isEmpty = true ↔ set.toList = [] := by
  rw [List.eq_nil_iff_forall_not_mem]
  constructor
  · intro isEmpty member isMember
    rw [mem_toList, contains_of_isEmpty isEmpty] at isMember
    cases isMember
  · intro noMember
    refine Array.all_eq_true'.mpr fun bits stored => beq_iff_eq.mpr ?_
    refine Decidable.byContradiction fun nonzero => ?_
    have isBit := BitVec.getLsbD_true_ctz_of_ne_zero nonzero
    have inside : bits.ctz.toNat < 32 := BitVec.lt_of_getLsbD isBit
    obtain ⟨index, isWord⟩ := Array.mem_iff_getElem?.mp stored
    refine noMember (32 * index + bits.ctz.toNat) ?_
    have quotient : (32 * index + bits.ctz.toNat) / 32 = index := by omega
    have remainder : (32 * index + bits.ctz.toNat) % 32 = bits.ctz.toNat := by omega
    rw [mem_toList, contains_eq_getLsbD, quotient, remainder, word,
      Array.getD_eq_getD_getElem?, isWord]
    exact isBit

end BitSet

end SpanForest
