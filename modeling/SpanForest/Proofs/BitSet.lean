import SpanForest.BitSet
import Mathlib.Data.List.Basic

namespace SpanForest

/-!
# Bit sets as sets of numbers

A bit set is read through `contains`. Every operation is characterized by what
it does to that view, and the flags of the operations that add members say
exactly whether the view changed.
-/

/-- A word meets a single bit exactly if it has it. -/
theorem and_twoPow_bne_zero
    {width bit : Nat}
    (word : BitVec width)
    (inside : bit < width) :
    (word &&& BitVec.twoPow width bit != BitVec.ofNat width 0) = word.getLsbD bit := by
  rw [BitVec.and_twoPow]
  cases word.getLsbD bit with
  | false =>
      simp
  | true =>
      have nonzero : BitVec.twoPow width bit ≠ BitVec.ofNat width 0 := by
        intro zero
        have same := congrArg (fun word => word.getLsbD bit) zero
        simp [inside] at same
      simpa using nonzero

namespace BitSet

/-- A word meets the mask of a number exactly if it has the number's bit. -/
theorem and_mask_ne_zero
    (bits : BitVec 32)
    (member : Nat) :
    (bits &&& mask member != 0#32) = bits.getLsbD (member % 32) :=
  and_twoPow_bne_zero bits (Nat.mod_lt _ (by decide))

/-- Membership reads one bit of one word. -/
theorem contains_eq_getLsbD
    (set : BitSet)
    (member : Nat) :
    set.contains member =
      (set.word (member / 32)).getLsbD (member % 32) :=
  and_mask_ne_zero _ _

/-- The word behind the last one is zero. -/
theorem word_of_size_le
    {set : BitSet}
    {index : Nat}
    (beyond : set.words.size ≤ index) :
    set.word index = 0#32 := by
  simp [word, Array.getD_eq_getD_getElem?, beyond]

/-- Padding adds zero words only. -/
theorem getD_padded
    (set : BitSet)
    (count index : Nat) :
    (set.padded count).getD index 0#32 = set.word index := by
  simp only [padded, word, Array.getD_eq_getD_getElem?,
    Array.getElem?_append]
  split
  · rfl
  · rename_i beyond
    have outside : set.words[index]? = none := by
      simpa using beyond
    rw [outside, Array.getElem?_replicate]
    split <;> rfl

/-- Padding makes room for the asked number of words. -/
theorem size_padded
    (set : BitSet)
    (count : Nat) :
    (set.padded count).size = max set.words.size count := by
  simp only [padded, Array.size_append, Array.size_replicate]
  omega

/-- The empty set has no members. -/
@[simp] theorem contains_empty (member : Nat) :
    empty.contains member = false := by
  simp [contains_eq_getLsbD, word, empty]

/-- Setting a bit of one word leaves all other bits alone. -/
theorem getLsbD_modify_mask
    {words : Array (BitVec 32)}
    {member : Nat}
    (other : Nat)
    (room : member / 32 < words.size) :
    ((words.modify (member / 32) (· ||| mask member)).getD
        (other / 32) 0#32).getLsbD (other % 32) =
      (other == member ||
        (words.getD (other / 32) 0#32).getLsbD (other % 32)) := by
  have otherBound : other % 32 < 32 := Nat.mod_lt _ (by decide)
  simp only [Array.getD_eq_getD_getElem?, Array.getElem?_modify]
  by_cases sameWord : member / 32 = other / 32
  · have stored : words[other / 32]? = some words[other / 32] :=
      Array.getElem?_eq_getElem (sameWord ▸ room)
    have sameBit : member % 32 = other % 32 ↔ other = member := by
      omega
    have memberBound : member % 32 < 32 := Nat.mod_lt _ (by decide)
    simp only [sameWord, ↓reduceIte, stored, Option.map_some,
      Option.getD_some, BitVec.getLsbD_or, mask, BitVec.getLsbD_twoPow,
      memberBound, decide_true, Bool.true_and, sameBit]
    rw [Bool.or_comm]
    rfl
  · have different : other ≠ member := fun same => sameWord (same ▸ rfl)
    simp [sameWord, different]

/-- Inserting a number makes it a member and changes nothing else. -/
@[simp] theorem contains_insert
    (set : BitSet)
    (member other : Nat) :
    (set.insert member).2.contains other =
      (other == member || set.contains other) := by
  rw [contains_eq_getLsbD, contains_eq_getLsbD]
  have room : member / 32 < (set.padded (member / 32 + 1)).size := by
    rw [size_padded]
    omega
  have modified := getLsbD_modify_mask other room
  rw [getD_padded] at modified
  exact modified

/-- An insertion reports whether the number was absent. -/
@[simp] theorem insert_fst
    (set : BitSet)
    (member : Nat) :
    (set.insert member).1 = !set.contains member := by
  simp [insert, contains, bne]

/-- Removing a number leaves all other members alone. -/
@[simp] theorem contains_remove
    (set : BitSet)
    (member other : Nat) :
    (set.remove member).2.contains other =
      (set.contains other && decide (other ≠ member)) := by
  have otherBound : other % 32 < 32 := Nat.mod_lt _ (by decide)
  rw [contains_eq_getLsbD, contains_eq_getLsbD]
  simp only [remove, word, Array.getD_eq_getD_getElem?, Array.getElem?_modify]
  by_cases sameWord : member / 32 = other / 32
  · have sameBit : other % 32 = member % 32 ↔ other = member := by omega
    cases stored : set.words[other / 32]? with
    | none => simp
    | some bits => simp [sameWord, mask, otherBound, sameBit]
  · have different : other ≠ member := fun same => sameWord (same ▸ rfl)
    simp [sameWord, different]

/-- A removal reports whether the number was present. -/
@[simp] theorem remove_fst
    (set : BitSet)
    (member : Nat) :
    (set.remove member).1 = set.contains member :=
  rfl

/-- Making room adds no member. -/
@[simp] theorem contains_withCapacity (count member : Nat) :
    (withCapacity count).contains member = false := by
  rw [contains_eq_getLsbD, withCapacity, word, Array.getD_eq_getD_getElem?,
    Array.getElem?_replicate]
  split <;> exact BitVec.getLsbD_zero

/-- Clearing leaves no member. -/
@[simp] theorem contains_clear
    (set : BitSet)
    (member : Nat) :
    set.clear.contains member = false := by
  rw [contains_eq_getLsbD]
  cases stored : set.words[member / 32]? <;>
    simp [clear, word, Array.getD_eq_getD_getElem?, stored]

/-- A set without bits has no member. -/
theorem contains_of_isEmpty
    {set : BitSet}
    (isEmpty : set.isEmpty = true)
    (member : Nat) :
    set.contains member = false := by
  have zero : set.word (member / 32) = 0#32 := by
    rw [word, Array.getD_eq_getD_getElem?]
    cases stored : set.words[member / 32]? with
    | none => rfl
    | some bits =>
        have all := Array.all_eq_true'.mp isEmpty bits
          (Array.mem_of_getElem? stored)
        exact eq_of_beq all
  rw [contains_eq_getLsbD, zero]
  exact BitVec.getLsbD_zero

section Absorb

variable {set : BitSet} {count : Nat} {added : Nat → BitVec 32}

/-- Absorbing joins the bits word by word. -/
theorem word_absorb
    (bounded : ∀ index, count ≤ index → added index = 0#32)
    (index : Nat) :
    (set.absorb count added).2.word index =
      set.word index ||| added index := by
  have unpadded := getD_padded set count index
  by_cases inside : index < (set.padded count).size
  · have stored := Array.getElem?_eq_getElem inside
    rw [Array.getD_eq_getD_getElem?, stored] at unpadded
    simp only [Option.getD_some] at unpadded
    rw [← unpadded]
    simp [absorb, word, Array.getD_eq_getD_getElem?, inside]
  · have outside := inside
    rw [size_padded] at outside
    have beyond : set.word index = 0#32 := word_of_size_le (by omega)
    rw [beyond, bounded index (by omega)]
    apply word_of_size_le
    simp only [absorb, Array.size_mapIdx]
    omega

/-- Absorbing reports a change exactly if a word received a new bit. -/
theorem absorb_fst_eq_true_iff
    (bounded : ∀ index, count ≤ index → added index = 0#32) :
    (set.absorb count added).1 = true ↔
      ∃ index, added index &&& ~~~set.word index ≠ 0#32 := by
  simp only [absorb, List.any_eq_true, bne_iff_ne, ne_eq]
  constructor
  · rintro ⟨⟨bits, index⟩, member, changed⟩
    have stored := List.mem_zipIdx_iff_getElem?.mp member
    simp only [Array.getElem?_toList] at stored
    have unpadded := getD_padded set count index
    rw [Array.getD_eq_getD_getElem?, stored] at unpadded
    exact ⟨index, unpadded ▸ changed⟩
  · rintro ⟨index, changed⟩
    have inside : index < (set.padded count).size := by
      refine Decidable.byContradiction fun outside => changed ?_
      rw [size_padded] at outside
      simp [bounded index (by omega)]
    have unpadded := getD_padded set count index
    rw [Array.getD_eq_getD_getElem?, Array.getElem?_eq_getElem inside]
      at unpadded
    simp only [Option.getD_some] at unpadded
    refine ⟨((set.padded count)[index], index), ?_, ?_⟩
    · rw [List.mem_zipIdx_iff_getElem?]
      simp [inside]
    · rw [unpadded]
      exact changed

/-- The members after absorbing are the old ones and the added bits. -/
theorem contains_absorb
    (bounded : ∀ index, count ≤ index → added index = 0#32)
    (member : Nat) :
    (set.absorb count added).2.contains member =
      (set.contains member ||
        (added (member / 32)).getLsbD (member % 32)) := by
  rw [contains_eq_getLsbD, word_absorb bounded, BitVec.getLsbD_or,
    ← contains_eq_getLsbD]

/-- Absorbing reports a change exactly if some number became a member. -/
theorem absorb_fst_eq_true_iff_gained
    (bounded : ∀ index, count ≤ index → added index = 0#32) :
    (set.absorb count added).1 = true ↔
      ∃ member, set.contains member = false ∧
        (set.absorb count added).2.contains member = true := by
  rw [absorb_fst_eq_true_iff bounded]
  constructor
  · rintro ⟨index, changed⟩
    obtain ⟨bit, bound, difference⟩ :
        ∃ bit, ∃ _ : bit < 32,
          (added index &&& ~~~set.word index).getLsbD bit = true := by
      refine Decidable.byContradiction fun none => changed ?_
      apply BitVec.eq_of_getLsbD_eq
      intro bit bound
      have lacking : ¬(added index &&& ~~~set.word index).getLsbD bit = true :=
        fun held => none ⟨bit, bound, held⟩
      simpa using lacking
    have quotient : (32 * index + bit) / 32 = index := by omega
    have remainder : (32 * index + bit) % 32 = bit := by omega
    simp only [BitVec.getLsbD_and, BitVec.getLsbD_not, bound, decide_true,
      Bool.true_and, Bool.and_eq_true, Bool.not_eq_true'] at difference
    refine ⟨32 * index + bit, ?_, ?_⟩
    · rw [contains_eq_getLsbD, quotient, remainder]
      exact difference.2
    · rw [contains_absorb bounded, quotient, remainder, difference.1,
        Bool.or_true]
  · rintro ⟨member, lacked, gained⟩
    rw [contains_absorb bounded, lacked, Bool.false_or] at gained
    rw [contains_eq_getLsbD] at lacked
    refine ⟨member / 32, fun zero => ?_⟩
    have bound : member % 32 < 32 := Nat.mod_lt _ (by decide)
    have bit := congrArg (fun word => word.getLsbD (member % 32)) zero
    rw [BitVec.getLsbD_and, BitVec.getLsbD_not, gained, lacked] at bit
    simp [bound] at bit

end Absorb

/-- Words behind the last one of another set add nothing to a union. -/
private theorem word_bounded
    (other : BitSet)
    (index : Nat)
    (beyond : other.words.size ≤ index) :
    other.word index = 0#32 :=
  word_of_size_le beyond

/-- Nor do they if one number is left out. -/
private theorem wordExcept_bounded
    (other : BitSet)
    (excepted index : Nat)
    (beyond : other.words.size ≤ index) :
    (if index = excepted / 32 then
      other.word index &&& ~~~mask excepted
    else
      other.word index) = 0#32 := by
  rw [word_of_size_le beyond]
  split <;> simp

/-- A union has the members of both sets. -/
@[simp] theorem contains_union
    (set other : BitSet)
    (member : Nat) :
    (set.union other).2.contains member =
      (set.contains member || other.contains member) := by
  rw [union, contains_absorb (word_bounded other), ← contains_eq_getLsbD]

/-- A union reports whether the set grew. -/
theorem union_fst_eq_true_iff
    (set other : BitSet) :
    (set.union other).1 = true ↔
      ∃ member, set.contains member = false ∧
        (set.union other).2.contains member = true :=
  absorb_fst_eq_true_iff_gained (word_bounded other)

/-- A union that leaves out a number neither adds nor removes it. -/
@[simp] theorem contains_unionExcept
    (set other : BitSet)
    (excepted member : Nat) :
    (set.unionExcept other excepted).2.contains member =
      (set.contains member ||
        (other.contains member && member != excepted)) := by
  rw [unionExcept, contains_absorb (wordExcept_bounded other excepted)]
  congr 1
  have bound : member % 32 < 32 := Nat.mod_lt _ (by decide)
  by_cases sameWord : member / 32 = excepted / 32
  · have sameBit : excepted % 32 = member % 32 ↔ member = excepted := by
      omega
    simp only [sameWord, ↓reduceIte, BitVec.getLsbD_and,
      BitVec.getLsbD_not, bound, decide_true, Bool.true_and, mask,
      BitVec.getLsbD_twoPow]
    rw [contains_eq_getLsbD, sameWord]
    congr 1
    have exceptedBound : excepted % 32 < 32 := Nat.mod_lt _ (by decide)
    by_cases same : member = excepted <;>
      simp [sameBit, same, exceptedBound]
  · have different : member ≠ excepted := fun same => sameWord (same ▸ rfl)
    simp [sameWord, different, contains_eq_getLsbD]

/-- A union that leaves out a number reports whether the set grew. -/
theorem unionExcept_fst_eq_true_iff
    (set other : BitSet)
    (excepted : Nat) :
    (set.unionExcept other excepted).1 = true ↔
      ∃ member, set.contains member = false ∧
        (set.unionExcept other excepted).2.contains member = true :=
  absorb_fst_eq_true_iff_gained (wordExcept_bounded other excepted)

/-- The set of a list has the numbers of the list as members. -/
@[simp] theorem contains_ofList
    (members : List Nat)
    (member : Nat) :
    (ofList members).contains member = decide (member ∈ members) := by
  have folded : ∀ set : BitSet,
      (members.foldl (fun set member => (set.insert member).2) set).contains
          member =
        (set.contains member || decide (member ∈ members)) := by
    induction members with
    | nil =>
        simp
    | cons first rest inductionHypothesis =>
        intro set
        rw [List.foldl_cons, inductionHypothesis, contains_insert]
        by_cases same : member = first
        · simp [same]
        · have different : (member == first) = false := by simpa using same
          simp [same, different]
  simpa [ofList] using folded empty

/-- The numbers listed for a word are those of its bits. -/
theorem mem_membersOfWord
    {index member : Nat}
    {bits : BitVec 32} :
    member ∈ membersOfWord index bits ↔
      member / 32 = index ∧ bits.getLsbD (member % 32) = true := by
  have listed :
      (∃ bit, (bit < 32 ∧ bits.getLsbD bit = true) ∧
          32 * index + bit = member) ↔
        member / 32 = index ∧ bits.getLsbD (member % 32) = true := by
    constructor
    · rintro ⟨bit, ⟨bound, held⟩, rfl⟩
      have quotient : (32 * index + bit) / 32 = index := by omega
      have remainder : (32 * index + bit) % 32 = bit := by omega
      rw [remainder]
      exact ⟨quotient, held⟩
    · rintro ⟨rfl, held⟩
      exact ⟨member % 32, ⟨Nat.mod_lt _ (by decide), held⟩, by omega⟩
  unfold membersOfWord
  split
  · rename_i zero
    simp [zero]
  · simpa using listed

/-- The list of members holds exactly the members. -/
theorem mem_toList
    {set : BitSet}
    {member : Nat} :
    member ∈ set.toList ↔ set.contains member = true := by
  simp only [toList, List.mem_flatMap, Prod.exists,
    List.mem_zipIdx_iff_getElem?, Array.getElem?_toList,
    mem_membersOfWord, contains_eq_getLsbD, word,
    Array.getD_eq_getD_getElem?]
  constructor
  · rintro ⟨bits, index, stored, rfl, held⟩
    rw [stored]
    exact held
  · intro held
    cases stored : set.words[member / 32]? with
    | none =>
        simp [stored] at held
    | some bits =>
        rw [stored] at held
        exact ⟨bits, member / 32, stored, rfl, held⟩

end BitSet

end SpanForest
