import Std.Data.HashMap.Lemmas
import SpanForest.Proofs.Predicate.Network

namespace SpanForest

/-!
# The automaton of the groups

The groups of a network can share one table of transitions. Accessors and values are
numbered for all groups together, a transition leads from the number of an accessor
and the number of a value to a final state, and a value without a transition leads
to the state of the values that the group does not name. A value that is named on
another accessor has a number, too; it leads on like one that is named nowhere.
-/

/-- A group whose accessor is given by its number. -/
structure NumberedGroup where
  accessor : Nat
  members : List PredicateId
  missing : Nat
  elsewhere : Nat
  deriving Repr, DecidableEq

/-- Groups over one table of transitions. -/
structure GroupAutomaton where
  /-- All values that were named on some accessor. -/
  values : Alphabet Value
  groups : List NumberedGroup
  /-- Final states by the numbers of an accessor and of a value. -/
  transitions : Std.HashMap (Nat × Nat) Nat
  finals : Alphabet (List PredicateId)

namespace GroupAutomaton

/-- The accessors of the categorical predicates. -/
def accessorsOf (predicates : PredicateAlphabet) : Alphabet Accessor :=
  Alphabet.empty.internAll
    (predicates.entries.filterMap (·.2.categoricalAccessor?))

/-- The automaton without groups, with the values that categorical predicates name. -/
def initial (predicates : PredicateAlphabet) : GroupAutomaton where
  values := Alphabet.empty.internAll
    ((predicates.entries.filter (·.2.categoricalAccessor?.isSome)).flatMap
      (·.2.mentioned))
  groups := []
  transitions := ∅
  finals := Alphabet.empty

/-- Lead a value on an accessor to the state of the members that hold of it. -/
def addValue
    (accessor : Nat)
    (members : List Member)
    (automaton : GroupAutomaton)
    (value : Value) :
    GroupAutomaton :=
  let (number, values) := automaton.values.intern value
  let (target, finals) :=
    automaton.finals.intern (holdingAt members (some value))
  { automaton with
    values := values
    finals := finals
    transitions := automaton.transitions.insert (accessor, number) target }

/-- Add the group of an accessor, given by its number. -/
def addGroup
    (automaton : GroupAutomaton)
    (accessor : Nat)
    (members : List Member) :
    GroupAutomaton :=
  let (missing, known) := automaton.finals.intern (holdingAt members none)
  let (elsewhere, known) :=
    known.intern
      ((members.filter fun member => member.2.holdsElsewhere).map (·.1))
  let filled :=
    (members.flatMap (·.2.mentioned)).foldl (addValue accessor members)
      { automaton with finals := known }
  { filled with
    groups :=
      filled.groups ++ [⟨accessor, members.map (·.1), missing, elsewhere⟩] }

/-- The automaton of all accessors with `threshold` or more members. -/
def ofPredicates
    (predicates : PredicateAlphabet)
    (threshold : Nat) :
    GroupAutomaton :=
  let accessors := accessorsOf predicates
  (membersByAccessor predicates).foldl
    (fun automaton (accessor, members) =>
      if max threshold 1 ≤ members.length then
        automaton.addGroup (accessors.intern accessor).1 members
      else
        automaton)
    (initial predicates)

/-- The transition for a value on an accessor. -/
def transition?
    (automaton : GroupAutomaton)
    (accessor : Nat)
    (value : Value) :
    Option Nat :=
  (automaton.values.find? value).bind fun number =>
    automaton.transitions[(accessor, number)]?

/-- The final state of a group for what its accessor yields. -/
def target
    (automaton : GroupAutomaton)
    (group : NumberedGroup)
    (value : Option Value) :
    Nat :=
  match value with
  | none => group.missing
  | some value =>
      (automaton.transition? group.accessor value).getD group.elsewhere

/-- The members of a group that hold for what its accessor yields. -/
def walk
    (automaton : GroupAutomaton)
    (group : NumberedGroup)
    (value : Option Value) :
    List PredicateId :=
  (automaton.finals.get? (automaton.target group value)).getD []

section Transitions

variable {automaton : GroupAutomaton} {accessor : Nat} {members : List Member}

/-- Transitions stand at the numbers of values. -/
def Numbered (automaton : GroupAutomaton) : Prop :=
  ∀ accessor number, (accessor, number) ∈ automaton.transitions →
    number < automaton.values.size

/-- Adding a value for an accessor changes no other transition. -/
theorem transition?_addValue
    (numbered : automaton.Numbered)
    (value : Value)
    (other : Nat)
    (named : Value) :
    (automaton.addValue accessor members value).transition? other named =
      if other = accessor ∧ named = value then
        some (automaton.finals.intern (holdingAt members (some value))).1
      else
        automaton.transition? other named := by
  simp only [transition?, addValue, Alphabet.find?_intern]
  by_cases same : named = value
  · subst same
    simp only [if_true, Option.bind_some, Std.HashMap.getElem?_insert, and_true]
    by_cases own : other = accessor
    · simp [own]
    · have apart : ((accessor, (automaton.values.intern named).1) ==
          (other, (automaton.values.intern named).1)) = false := by
        simp [Ne.symm own]
      rw [apart, if_neg own]
      simp only [Bool.false_eq_true, if_false]
      cases found : automaton.values.find? named with
      | some number => simp [Alphabet.intern_of_find? found]
      | none =>
          -- the value is new, and transitions stand at known values only
          refine Std.HashMap.getElem?_eq_none fun listed => ?_
          have known := numbered _ _ listed
          rw [Alphabet.intern_of_unseen found] at known
          exact absurd known (Nat.lt_irrefl _)
  · simp only [same, if_false, and_false]
    cases found : automaton.values.find? named with
    | none => rfl
    | some number =>
        have apart : (automaton.values.intern value).1 ≠ number := by
          rintro rfl
          have stored := Alphabet.extends_intern _ value _ _
            (Alphabet.find?_eq_some_iff.mp found)
          rw [Alphabet.get?_intern] at stored
          exact same (Option.some.inj stored).symm
        simp [Std.HashMap.getElem?_insert, apart]

/-- Transitions of an added value stand at a number, too. -/
theorem Numbered.addValue
    (numbered : automaton.Numbered)
    (value : Value) :
    (automaton.addValue accessor members value).Numbered := by
  intro other number listed
  have inside := Alphabet.get?_intern automaton.values value
  rcases Std.HashMap.mem_insert.mp listed with same | old
  · obtain ⟨rfl, rfl⟩ := Prod.mk.inj (eq_of_beq same)
    exact Alphabet.lt_size_of_get? inside
  · exact Nat.lt_of_lt_of_le (numbered other number old)
      (Alphabet.extends_intern automaton.values value).size_le

/-- What adding the values of one accessor leaves and what it leads where. -/
structure Filled
    (accessor : Nat)
    (members : List Member)
    (values : List Value)
    (before after : GroupAutomaton) : Prop where
  numbered : after.Numbered
  groups : after.groups = before.groups
  finals : before.finals.Extends after.finals
  others :
    ∀ other, other ≠ accessor → ∀ value,
      after.transition? other value = before.transition? other value
  unnamed :
    ∀ value, value ∉ values →
      after.transition? accessor value = before.transition? accessor value
  named :
    ∀ value ∈ values, ∃ target,
      after.transition? accessor value = some target ∧
        after.finals.get? target = some (holdingAt members (some value))

/-- Every value that is added leads to the state of the members that hold of it. -/
theorem filled_foldl
    (accessor : Nat)
    (members : List Member)
    (values : List Value)
    (automaton : GroupAutomaton)
    (numbered : automaton.Numbered) :
    Filled accessor members values automaton
      (values.foldl (GroupAutomaton.addValue accessor members) automaton) := by
  induction values generalizing automaton with
  | nil =>
      exact ⟨numbered, rfl, fun _ _ stored => stored, fun _ _ _ => rfl,
        fun _ _ => rfl, by simp⟩
  | cons first rest inductionHypothesis =>
      have later := inductionHypothesis (automaton.addValue accessor members first)
        (numbered.addValue first)
      have step := @transition?_addValue _ accessor members numbered first
      constructor
      case numbered => exact later.numbered
      case groups => exact later.groups
      case finals =>
        exact fun id item stored =>
          later.finals id item (Alphabet.get?_intern_of_get? stored)
      case others =>
        intro other apart value
        rw [List.foldl_cons, later.others other apart value, step]
        simp [apart]
      case unnamed =>
        intro value absent
        rw [List.mem_cons, not_or] at absent
        obtain ⟨differs, absentLater⟩ := absent
        rw [List.foldl_cons, later.unnamed value absentLater, step]
        simp [differs]
      case named =>
        intro value isNamed
        by_cases again : value ∈ rest
        · exact later.named value again
        · obtain rfl := (List.mem_cons.mp isNamed).resolve_right again
          refine ⟨_, ?_, later.finals _ _ (Alphabet.get?_intern _ _)⟩
          rw [List.foldl_cons, later.unnamed value again, step]
          simp

end Transitions

section Groups

variable {automaton : GroupAutomaton} {accessor : Nat} {members : List Member}
variable {classes : List (Nat × List Member)}

/-- A numbered group leads from every value to the members that hold of it. -/
structure GroupAt
    (automaton : GroupAutomaton)
    (entry : Nat × List Member)
    (group : NumberedGroup) : Prop where
  accessor_eq : group.accessor = entry.1
  members_eq : group.members = entry.2.map (·.1)
  target :
    ∀ value, automaton.finals.get? (automaton.target group value) =
      some (holdingAt entry.2 value)

/-- The groups of an automaton are those of numbered classes. -/
structure Covers
    (classes : List (Nat × List Member))
    (automaton : GroupAutomaton) : Prop where
  numbered : automaton.Numbered
  /-- Transitions belong to the accessors of the classes. -/
  owned :
    ∀ accessor value target,
      automaton.transition? accessor value = some target →
        accessor ∈ classes.map (·.1)
  groups : List.Forall₂ automaton.GroupAt classes automaton.groups

theorem covers_initial (predicates : PredicateAlphabet) :
    Covers [] (initial predicates) where
  numbered accessor number listed := by simp [initial] at listed
  owned accessor value target isTransition := by
    simp [transition?, initial] at isTransition
  groups := .nil

/-- A group leads on as before once another accessor is filled. -/
theorem GroupAt.filled
    {before after : GroupAutomaton}
    {values : List Value}
    {entry : Nat × List Member}
    {group : NumberedGroup}
    (groupAt : before.GroupAt entry group)
    (filled : Filled accessor members values before after)
    (apart : entry.1 ≠ accessor) :
    after.GroupAt entry group where
  accessor_eq := groupAt.accessor_eq
  members_eq := groupAt.members_eq
  target value := by
    have sameTarget : after.target group value = before.target group value := by
      cases value with
      | none => rfl
      | some value =>
          have sameTransition := filled.others group.accessor
            (groupAt.accessor_eq ▸ apart) value
          simp only [GroupAutomaton.target, sameTransition]
    rw [sameTarget]
    exact filled.finals _ _ (groupAt.target value)

/-- Adding a group keeps those of the other accessors. -/
theorem Covers.addGroup
    {predicates : PredicateAlphabet}
    {owner : Accessor}
    (covers : Covers classes automaton)
    (fresh : accessor ∉ classes.map (·.1))
    (known : ∀ member ∈ members, MemberOf predicates owner member) :
    Covers (classes ++ [(accessor, members)])
      (automaton.addGroup accessor members) := by
  let values := members.flatMap (·.2.mentioned)
  let withMissing := automaton.finals.intern (holdingAt members none)
  let withElsewhere := withMissing.2.intern
    ((members.filter fun member => member.2.holdsElsewhere).map (·.1))
  let before : GroupAutomaton := { automaton with finals := withElsewhere.2 }
  let after := values.foldl (addValue accessor members) before
  have extended : automaton.finals.Extends before.finals :=
    fun id item stored => Alphabet.get?_intern_of_get?
      (Alphabet.get?_intern_of_get? stored)
  have filled : Filled accessor members values before after :=
    filled_foldl accessor members values before covers.numbered
  constructor
  case numbered => exact filled.numbered
  case owned =>
    intro other value target isTransition
    rw [List.map_append, List.mem_append]
    by_cases own : other = accessor
    · exact .inr (List.mem_singleton.mpr own)
    · exact .inl (covers.owned other value target
        ((filled.others other own value).symm.trans isTransition))
  case groups =>
    have sameGroups : after.groups = automaton.groups := filled.groups
    have kept : List.Forall₂ after.GroupAt classes after.groups := by
      rw [sameGroups]
      have apart : ∀ entry ∈ classes, entry.1 ≠ accessor := fun entry listed same =>
        fresh (same ▸ List.mem_map_of_mem listed)
      refine ((List.forall₂_and_left _ _).mpr ⟨apart, covers.groups⟩).imp
        fun entry group ⟨apart, groupAt⟩ => GroupAt.filled ?_ filled apart
      exact ⟨groupAt.accessor_eq, groupAt.members_eq,
        fun value => extended _ _ (groupAt.target value)⟩
    have added : after.GroupAt (accessor, members)
        ⟨accessor, members.map (·.1), withMissing.1, withElsewhere.1⟩ := by
      refine ⟨rfl, rfl, fun value => ?_⟩
      cases value with
      | none =>
          exact filled.finals _ _
            (Alphabet.get?_intern_of_get? (Alphabet.get?_intern _ _))
      | some value =>
          show after.finals.get?
            ((after.transition? accessor value).getD withElsewhere.1) = _
          by_cases isNamed : value ∈ values
          · obtain ⟨target, isTarget, isFinal⟩ := filled.named value isNamed
            rw [isTarget]
            exact isFinal
          · have noTransition : before.transition? accessor value = none := by
              refine Option.eq_none_iff_forall_ne_some.mpr fun target isTarget => ?_
              exact fresh (covers.owned accessor value target isTarget)
            rw [filled.unnamed value isNamed, noTransition,
              ← holdingAt_elsewhere known isNamed]
            exact filled.finals _ _ (Alphabet.get?_intern _ _)
    exact (List.rel_append kept (.cons added .nil)).imp fun _ _ groupAt =>
      ⟨groupAt.accessor_eq, groupAt.members_eq, groupAt.target⟩

/-- The groups of classes with numbers of their own, added one after the other. -/
theorem Covers.foldl_addGroup
    {predicates : PredicateAlphabet}
    {rest : List (Nat × List Member)}
    (covers : Covers classes automaton)
    (distinct : ((classes ++ rest).map (·.1)).Nodup)
    (known : ∀ entry ∈ rest, ∃ owner, ∀ member ∈ entry.2,
      MemberOf predicates owner member) :
    Covers (classes ++ rest)
      (rest.foldl (fun automaton entry => automaton.addGroup entry.1 entry.2)
        automaton) := by
  induction rest generalizing classes automaton with
  | nil => simpa using covers
  | cons first rest inductionHypothesis =>
      obtain ⟨owner, ownMembers⟩ := known first List.mem_cons_self
      have fresh : first.1 ∉ classes.map (·.1) := by
        rw [List.map_append, List.map_cons, List.nodup_append] at distinct
        intro listed
        exact distinct.2.2 _ listed _ List.mem_cons_self rfl
      rw [List.append_cons] at distinct ⊢
      exact inductionHypothesis (covers.addGroup fresh ownMembers) distinct
        fun entry listed => known entry (List.mem_cons_of_mem _ listed)

end Groups

end GroupAutomaton

section Classes

variable {predicates : PredicateAlphabet} {threshold : Nat}

/-- The classes with enough members for a group. -/
def groupedClasses
    (predicates : PredicateAlphabet)
    (threshold : Nat) :
    List (Accessor × List Member) :=
  (membersByAccessor predicates).filter fun (_, members) =>
    max threshold 1 ≤ members.length

theorem classesKnown_groupedClasses :
    ClassesKnown predicates (groupedClasses predicates threshold) :=
  fun entry listed =>
    classesKnown_membersByAccessor entry (List.mem_filter.mp listed).1

/-- The groups of a network are those of the classes with enough members. -/
theorem forall₂_groups_compile :
    List.Forall₂
      (GroupOf predicates (PredicateNetwork.compile predicates threshold).finals)
      (groupedClasses predicates threshold)
      (PredicateNetwork.compile predicates threshold).groups.toList :=
  (buildGroups_spec Alphabet.empty classesKnown_groupedClasses).2

/-- The accessor of a class with enough members has a number. -/
theorem get?_accessorsOf
    {entry : Accessor × List Member}
    (listed : entry ∈ groupedClasses predicates threshold) :
    (GroupAutomaton.accessorsOf predicates).get?
        ((GroupAutomaton.accessorsOf predicates).intern entry.1).1 =
      some entry.1 := by
  obtain ⟨isClass, enough⟩ := List.mem_filter.mp listed
  have someMember : 0 < entry.2.length := by
    have enough := of_decide_eq_true enough
    omega
  obtain ⟨member, inside⟩ := List.exists_mem_of_length_pos someMember
  obtain ⟨stored, categorical⟩ :=
    classesKnown_membersByAccessor entry isClass member inside
  have appears : entry.1 ∈ (GroupAutomaton.accessorsOf predicates).toList :=
    Alphabet.mem_toList_internAll.mpr (.inr (List.mem_filterMap.mpr
      ⟨member, Alphabet.mem_entries_iff.mpr stored, categorical⟩))
  obtain ⟨number, isNumber⟩ := Alphabet.mem_toList_iff.mp appears
  rw [Alphabet.intern_of_find? (Alphabet.find?_eq_some_iff.mpr isNumber)]
  exact isNumber

/-- The classes with enough members, by the numbers of their accessors. -/
def numberedClasses
    (predicates : PredicateAlphabet)
    (threshold : Nat) :
    List (Nat × List Member) :=
  (groupedClasses predicates threshold).map fun (accessor, members) =>
    (((GroupAutomaton.accessorsOf predicates).intern accessor).1, members)

theorem GroupAutomaton.covers_ofPredicates :
    Covers (numberedClasses predicates threshold)
      (ofPredicates predicates threshold) := by
  have asFold : ofPredicates predicates threshold =
      (numberedClasses predicates threshold).foldl
        (fun automaton entry => automaton.addGroup entry.1 entry.2)
        (initial predicates) := by
    simp [ofPredicates, numberedClasses, groupedClasses, List.foldl_map,
      List.foldl_filter]
  rw [asFold]
  refine @Covers.foldl_addGroup _ _ predicates _ (covers_initial predicates)
    ?distinct ?known
  case distinct =>
    have distinct : ((groupedClasses predicates threshold).map (·.1)).Nodup :=
      classify_membersByAccessor.distinct.sublist (List.filter_sublist.map _)
    rw [List.nil_append, List.map_map, List.Nodup, List.pairwise_map]
    refine (List.pairwise_map.mp distinct).imp_of_mem
      fun {left right} leftListed rightListed apart sameNumber => apart ?_
    have leftStored := get?_accessorsOf leftListed
    have rightStored := get?_accessorsOf rightListed
    simp only [Function.comp_apply] at sameNumber
    rw [sameNumber, rightStored] at leftStored
    exact (Option.some.inj leftStored).symm
  case known =>
    intro entry listed
    obtain ⟨⟨accessor, members⟩, isClass, rfl⟩ := List.mem_map.mp listed
    exact ⟨accessor, classesKnown_groupedClasses _ isClass⟩

/-- The members of a class with enough of them, in ascending order. -/
theorem eq_membersOn
    {entry : Accessor × List Member}
    (listed : entry ∈ groupedClasses predicates threshold) :
    entry.2 = membersOn entry.1 predicates.entries :=
  classify_membersByAccessor.members entry (List.mem_filter.mp listed).1

/-- The accessors with a group are those with enough categorical predicates. -/
theorem mem_accessors_groupedClasses
    {accessor : Accessor} :
    accessor ∈ (groupedClasses predicates threshold).map (·.1) ↔
      max threshold 1 ≤ (membersOn accessor predicates.entries).length := by
  constructor
  · intro listed
    obtain ⟨entry, isClass, rfl⟩ := List.mem_map.mp listed
    rw [← eq_membersOn isClass]
    exact of_decide_eq_true (List.mem_filter.mp isClass).2
  · intro enough
    have someMember : 0 < (membersOn accessor predicates.entries).length := by
      omega
    obtain ⟨member, inside⟩ := List.exists_mem_of_length_pos someMember
    obtain ⟨isEntry, isOn⟩ := List.mem_filter.mp inside
    obtain ⟨entry, isClass, rfl⟩ := List.mem_map.mp
      (classify_membersByAccessor.complete member isEntry accessor
        (of_decide_eq_true isOn))
    rw [← classify_membersByAccessor.members entry isClass] at enough
    exact List.mem_map_of_mem
      (List.mem_filter.mpr ⟨isClass, decide_eq_true enough⟩)

/-- The predicates on an accessor that hold of a value, in ascending order. -/
structure ListsMembers
    (predicates : PredicateAlphabet)
    (holds : Predicate → Prop)
    (accessor : Accessor)
    (ids : List PredicateId) : Prop where
  ascending : ids.Pairwise (· < ·)
  mem_iff :
    ∀ id, id ∈ ids ↔
      ∃ predicate, MemberOf predicates accessor (id, predicate) ∧ holds predicate

/-- Selected members of an accessor are listed in ascending order. -/
theorem listsMembers_filter
    (accessor : Accessor)
    (selects : Member → Bool)
    (holds : Predicate → Prop)
    (right : ∀ member, selects member = true ↔ holds member.2) :
    ListsMembers predicates holds accessor
      (((membersOn accessor predicates.entries).filter selects).map (·.1)) where
  ascending :=
    List.pairwise_map.mpr
      (predicates.pairwise_entries.sublist
        (List.filter_sublist.trans List.filter_sublist))
  mem_iff id := by
    simp [mem_membersOn, right]

end Classes

/--
The records of a network settle soundly, and its groups list exactly the members
that hold, whether they are walked alone or over one table of transitions.
-/
structure PredicateNetwork.Exact
    (predicates : PredicateAlphabet)
    (network : PredicateNetwork)
    (automaton : GroupAutomaton)
    (threshold : Nat) : Prop where
  /-- What the truth of a categorical predicate entails is so on every value. -/
  entailed :
    ∀ id predicate accessor value truth,
      MemberOf predicates accessor (id, predicate) →
      predicate.categoricalTruth? value = some truth →
        (if truth then (network.implications id).whenTrue
          else (network.implications id).whenFalse).Sound
            predicates accessor value
  /-- An accessor has a group if it has enough categorical predicates. -/
  grouped :
    ∀ accessor, accessor ∈ network.groups.toList.map (·.accessor) ↔
      max threshold 1 ≤ (membersOn accessor predicates.entries).length
  /-- The members of a group are all categorical predicates of its accessor. -/
  members :
    ∀ group ∈ network.groups, ListsMembers predicates (fun _ => True) group.accessor
      group.members
  /-- Walking a group lists the members that hold of the value. -/
  walk :
    ∀ group ∈ network.groups, ∀ value,
      ListsMembers predicates (·.categoricalTruth? value = some true) group.accessor
        (network.walk group value)
  /-- So does walking it over the transitions that all groups share. -/
  shared :
    List.Forall₂
      (fun group numbered =>
        (GroupAutomaton.accessorsOf predicates).get? numbered.accessor =
            some group.accessor ∧
          numbered.members = group.members ∧
          ∀ value, automaton.walk numbered value = network.walk group value)
      network.groups.toList automaton.groups

/-- What is related to the same list piece by piece is related to one another. -/
theorem forall₂_join
    {α β γ : Type}
    {left : α → β → Prop}
    {right : α → γ → Prop}
    {items : List α}
    {lefts : List β}
    {rights : List γ}
    (isLeft : List.Forall₂ left items lefts)
    (isRight : List.Forall₂ right items rights) :
    List.Forall₂ (fun second third => ∃ item ∈ items, left item second ∧ right item third)
      lefts rights := by
  induction isLeft generalizing rights with
  | nil =>
      cases isRight
      exact .nil
  | cons isFirst _ inductionHypothesis =>
      cases isRight with
      | cons isOther others =>
          refine .cons ⟨_, List.mem_cons_self, isFirst, isOther⟩
            ((inductionHypothesis others).imp ?_)
          rintro _ _ ⟨item, listed, both⟩
          exact ⟨item, List.mem_cons_of_mem _ listed, both⟩

/-- Every network that is compiled settles soundly and lists exactly. -/
theorem PredicateNetwork.exact_compile
    (predicates : PredicateAlphabet)
    (threshold : Nat) :
    Exact predicates (compile predicates threshold)
      (GroupAutomaton.ofPredicates predicates threshold) threshold := by
  have groups := @forall₂_groups_compile predicates threshold
  have classOf : ∀ group ∈ (compile predicates threshold).groups,
      ∃ entry ∈ groupedClasses predicates threshold,
        GroupOf predicates (compile predicates threshold).finals entry group := by
    intro group listed
    obtain ⟨index, inside, isGroup⟩ := List.getElem_of_mem (Array.mem_def.mp listed)
    have isClass := groups.length_eq ▸ inside
    exact ⟨_, List.getElem_mem isClass, isGroup ▸ groups.get isClass inside⟩
  have walked : ∀ {group entry},
      GroupOf predicates (compile predicates threshold).finals entry group →
        ∀ value, (compile predicates threshold).walk group value =
          holdingAt entry.2 value := fun groupOf value =>
    congrArg (·.getD []) (groupOf.target value)
  constructor
  case entailed =>
    intro id predicate accessor value truth memberOf holds
    exact (recordOf_compile threshold memberOf.1 memberOf.2).entailed value truth
      holds
  case grouped =>
    intro accessor
    have accessors : (compile predicates threshold).groups.toList.map (·.accessor) =
        (groupedClasses predicates threshold).map (·.1) := by
      rw [← List.forall₂_eq_eq_eq, List.forall₂_map_left_iff,
        List.forall₂_map_right_iff]
      exact groups.flip.imp fun _ _ groupOf => groupOf.accessor_eq
    rw [accessors, mem_accessors_groupedClasses]
  case members =>
    intro group listed
    obtain ⟨entry, isClass, groupOf⟩ := classOf group listed
    rw [groupOf.members_eq, groupOf.accessor_eq, eq_membersOn isClass]
    simpa using @listsMembers_filter predicates entry.1 (fun _ => true)
      (fun _ => True) (by simp)
  case walk =>
    intro group listed value
    obtain ⟨entry, isClass, groupOf⟩ := classOf group listed
    rw [walked groupOf, groupOf.accessor_eq, eq_membersOn isClass]
    exact listsMembers_filter _ _ _ (by simp)
  case shared =>
    have numbered := List.forall₂_map_left_iff.mp
      (@GroupAutomaton.covers_ofPredicates predicates threshold).groups
    refine (forall₂_join groups numbered).imp ?_
    rintro group other ⟨entry, isClass, groupOf, groupAt⟩
    refine ⟨?_, groupAt.members_eq.trans groupOf.members_eq.symm, fun value => ?_⟩
    · rw [groupAt.accessor_eq, groupOf.accessor_eq]
      exact get?_accessorsOf isClass
    · rw [walked groupOf]
      exact congrArg (·.getD []) (groupAt.target value)

/-- A value that is named for shapes only is like an unknown one for colours. -/
example :
    let predicates : PredicateAlphabet := Alphabet.empty.internAll
      [.compare (.feature "colour") .eq (.text "red"),
        .compare (.feature "colour") .ne (.text "blue"),
        .oneOf (.feature "shape") [.text "round", .text "red"]]
    let automaton := GroupAutomaton.ofPredicates predicates 1
    automaton.groups.map (automaton.walk · (some (.text "round"))) =
      [[1], [2]] := by
  cbv

end SpanForest
