import Mathlib.Data.List.Forall2
import SpanForest.Predicate.Network
import SpanForest.Proofs.Alphabet

namespace SpanForest

/-!
# The predicate network is sound

Whatever the network says to be settled holds. The truth of a categorical
predicate is a matter of what its accessor yields; so are the truths that its
own truth entails, and so is the final state of its group.
-/

/-- A member is a categorical predicate of the alphabet with the given accessor. -/
def MemberOf
    (predicates : PredicateAlphabet)
    (accessor : Accessor)
    (member : Member) : Prop :=
  predicates.get? member.1 = some member.2 ∧
    member.2.categoricalAccessor? = some accessor

/-- What is listed holds, or does not hold, of what the accessor yields. -/
structure Entailed.Sound
    (predicates : PredicateAlphabet)
    (accessor : Accessor)
    (value : Option Value)
    (entailed : Entailed) : Prop where
  alsoTrue :
    ∀ id ∈ entailed.alsoTrue, ∃ predicate,
      MemberOf predicates accessor (id, predicate) ∧
        predicate.categoricalTruth? value = some true
  alsoFalse :
    ∀ id ∈ entailed.alsoFalse, ∃ predicate,
      MemberOf predicates accessor (id, predicate) ∧
        predicate.categoricalTruth? value = some false

section Entailments

variable {predicates : PredicateAlphabet} {accessor : Accessor}
variable {members : List Member} {value : Option Value}

@[simp] theorem Predicate.categoricalTruth?_eq
    (other : Accessor)
    (expected : Value) :
    (compare other .eq expected).categoricalTruth? value =
      some (decide (value = some expected)) := by
  by_cases same : value = some expected <;>
    simp [categoricalTruth?, Comparison.holds, same]

@[simp] theorem Predicate.categoricalTruth?_ne
    (other : Accessor)
    (expected : Value) :
    (compare other .ne expected).categoricalTruth? value =
      some (decide (value ≠ some expected)) := by
  by_cases same : value = some expected <;>
    simp [categoricalTruth?, Comparison.holds, same]

/-- A categorical predicate has a truth for whatever its accessor yields. -/
theorem Predicate.categoricalTruth?_isSome
    {predicate : Predicate}
    (categorical : predicate.categoricalAccessor? = some accessor)
    (value : Option Value) :
    (predicate.categoricalTruth? value).isSome = true := by
  unfold categoricalAccessor? at categorical
  split at categorical <;> simp_all [categoricalTruth?]

/-- A categorical predicate looks at nothing but what its accessor yields. -/
theorem Predicate.localTruth?_eq_categoricalTruth?
    {predicate : Predicate}
    (categorical : predicate.categoricalAccessor? = some accessor)
    (span : Span)
    (document : Document) :
    predicate.localTruth? span document =
      predicate.categoricalTruth? (accessor.read? span document) := by
  unfold categoricalAccessor? at categorical
  split at categorical <;> cases categorical <;> rfl

/-- A way to settle truths that is right about members settles soundly. -/
theorem Entailed.sound_entailedBy
    {truth? : Predicate → Option Bool}
    (known : ∀ member ∈ members, MemberOf predicates accessor member)
    (right : ∀ predicate truth,
      predicate.categoricalAccessor? = some accessor →
      truth? predicate = some truth →
      predicate.categoricalTruth? value = some truth) :
    (entailedBy members truth?).Sound predicates accessor value := by
  constructor
  case alsoTrue =>
    intro id listed
    obtain ⟨⟨_, predicate⟩, member, rfl⟩ := List.mem_map.mp listed
    obtain ⟨inside, settled⟩ := List.mem_filter.mp member
    exact ⟨predicate, known _ inside,
      right predicate true (known _ inside).2 (by simpa using settled)⟩
  case alsoFalse =>
    intro id listed
    obtain ⟨⟨_, predicate⟩, member, rfl⟩ := List.mem_map.mp listed
    obtain ⟨inside, settled⟩ := List.mem_filter.mp member
    exact ⟨predicate, known _ inside,
      right predicate false (known _ inside).2 (by simpa using settled)⟩

/-- Truths settled by excluded values are right if the value is none of them. -/
theorem Predicate.truthExcluding?_right
    {excluded : List Value}
    (outside : ∀ found, value = some found → found ∉ excluded)
    {predicate : Predicate}
    {truth : Bool}
    (categorical : predicate.categoricalAccessor? = some accessor)
    (settled : predicate.truthExcluding? excluded = some truth) :
    predicate.categoricalTruth? value = some truth := by
  unfold categoricalAccessor? at categorical
  split at categorical
  · rename_i expected
    have differs : expected ∈ excluded → value ≠ some expected :=
      fun member same => outside expected same member
    by_cases member : expected ∈ excluded <;>
      simp_all [truthExcluding?]
  · rename_i expected
    have differs : expected ∈ excluded → value ≠ some expected :=
      fun member same => outside expected same member
    by_cases member : expected ∈ excluded <;>
      simp_all [truthExcluding?]
    all_goals simp [← settled]
  · rename_i values
    simp only [truthExcluding?] at settled
    split at settled
    · rename_i covered
      cases settled
      cases found : value with
      | none => rfl
      | some content =>
          have absent := outside content found
          simp only [categoricalTruth?, Option.any_some, Option.some.injEq]
          have covered' : ∀ other ∈ values, other ∈ excluded := by
            simpa using covered
          have notListed : content ∉ values := fun member =>
            absent (covered' content member)
          simpa using notListed
    · cases settled
  · cases categorical

/-- Truths settled by candidates are right if the value is one of them. -/
theorem Predicate.truthWithin?_right
    {candidates : List Value}
    {found : Value}
    (inside : found ∈ candidates)
    {predicate : Predicate}
    {truth : Bool}
    (categorical : predicate.categoricalAccessor? = some accessor)
    (settled : predicate.truthWithin? candidates = some truth) :
    predicate.categoricalTruth? (some found) = some truth := by
  unfold categoricalAccessor? at categorical
  split at categorical
  · rename_i expected
    have differs : expected ∉ candidates → found ≠ expected :=
      fun absent same => absent (same ▸ inside)
    by_cases member : expected ∈ candidates <;>
      simp_all [truthWithin?]
  · rename_i expected
    have differs : expected ∉ candidates → found ≠ expected :=
      fun absent same => absent (same ▸ inside)
    by_cases member : expected ∈ candidates <;>
      simp_all [truthWithin?]
    all_goals simp [← settled]
  · simp [truthWithin?] at settled
  · cases categorical

/-- What the truth of one member settles among the others. -/
theorem sound_entailments
    {id : PredicateId}
    {predicate : Predicate}
    {truth : Bool}
    (known : ∀ member ∈ members, MemberOf predicates accessor member)
    (categorical : predicate.categoricalAccessor? = some accessor)
    (holds : predicate.categoricalTruth? value = some truth) :
    (if truth then
        (entailments members id predicate).1
      else
        (entailments members id predicate).2).Sound
      predicates accessor value := by
  have othersKnown :
      ∀ member ∈ members.filter (fun member => member.1 != id),
        MemberOf predicates accessor member :=
    fun member listed => known member (List.mem_filter.mp listed).1
  unfold Predicate.categoricalAccessor? at categorical
  split at categorical
  · rename_i expected
    by_cases same : value = some expected
    · subst same
      have isTrue : truth = true := by
        simpa [eq_comm] using holds
      subst isTrue
      exact Entailed.sound_entailedBy othersKnown
        fun _ _ _ settled => settled
    · have isFalse : truth = false := by
        simpa [same, eq_comm] using holds
      subst isFalse
      refine Entailed.sound_entailedBy othersKnown
        fun _ _ => Predicate.truthExcluding?_right ?_
      intro found isFound member
      exact same (isFound.trans (congrArg some (List.mem_singleton.mp member)))
  · rename_i expected
    by_cases same : value = some expected
    · subst same
      have isFalse : truth = false := by
        simpa [eq_comm] using holds
      subst isFalse
      exact Entailed.sound_entailedBy othersKnown
        fun _ _ _ settled => settled
    · have isTrue : truth = true := by
        simpa [same, eq_comm] using holds
      subst isTrue
      refine Entailed.sound_entailedBy othersKnown
        fun _ _ => Predicate.truthExcluding?_right ?_
      intro found isFound member
      exact same (isFound.trans (congrArg some (List.mem_singleton.mp member)))
  · rename_i values
    cases truth with
    | true =>
        obtain ⟨found, isFound, member⟩ :
            ∃ found, value = some found ∧ found ∈ values := by
          simpa [Predicate.categoricalTruth?, Option.any_eq_true] using holds
        subst isFound
        exact Entailed.sound_entailedBy othersKnown
          fun _ _ => Predicate.truthWithin?_right member
    | false =>
        refine Entailed.sound_entailedBy othersKnown
          fun _ _ => Predicate.truthExcluding?_right ?_
        intro found isFound member
        subst isFound
        simp [Predicate.categoricalTruth?, member] at holds
  · cases categorical

end Entailments

section Classes

variable {predicates : PredicateAlphabet} {accessor : Accessor}
variable {classes : List (Accessor × List Member)}
variable {members listed : List Member} {member : Member}

/-- The categorical predicates on an accessor among listed ones, in their order. -/
def membersOn (accessor : Accessor) (listed : List Member) : List Member :=
  listed.filter fun member => member.2.categoricalAccessor? = some accessor

/-- Classes that hold each listed categorical predicate in the class of its accessor. -/
structure Classify
    (listed : List Member)
    (classes : List (Accessor × List Member)) : Prop where
  distinct : (classes.map (·.1)).Nodup
  members : ∀ entry ∈ classes, entry.2 = membersOn entry.1 listed
  complete :
    ∀ member ∈ listed, ∀ accessor,
      member.2.categoricalAccessor? = some accessor →
        accessor ∈ classes.map (·.1)

/-- A class is added at the end if the accessor has none. -/
theorem accessors_addMember :
    (addMember classes accessor member).map (·.1) =
      if accessor ∈ classes.map (·.1) then
        classes.map (·.1)
      else
        classes.map (·.1) ++ [accessor] := by
  induction classes with
  | nil => rfl
  | cons first rest inductionHypothesis =>
      unfold addMember
      by_cases same : first.1 = accessor
      · simp [same]
      · simp only [same, if_false, List.map_cons, inductionHypothesis,
          List.mem_cons, Ne.symm same, false_or]
        split <;> rfl

/-- A class is one of before, or that of the accessor with one more member. -/
theorem mem_addMember
    (distinct : (classes.map (·.1)).Nodup)
    {entry : Accessor × List Member}
    (added : entry ∈ addMember classes accessor member) :
    (entry ∈ classes ∧ entry.1 ≠ accessor) ∨
      ∃ before, entry = (accessor, before ++ [member]) ∧
        ((accessor, before) ∈ classes ∨
          before = [] ∧ accessor ∉ classes.map (·.1)) := by
  induction classes with
  | nil =>
      obtain rfl := List.mem_singleton.mp added
      exact .inr ⟨[], rfl, .inr ⟨rfl, List.not_mem_nil⟩⟩
  | cons first rest inductionHypothesis =>
      obtain ⟨own, others⟩ := first
      obtain ⟨absent, restDistinct⟩ := List.nodup_cons.mp distinct
      unfold addMember at added
      split at added
      · rename_i same
        subst same
        rcases List.mem_cons.mp added with rfl | later
        · exact .inr ⟨others, rfl, .inl List.mem_cons_self⟩
        · refine .inl ⟨List.mem_cons_of_mem _ later, fun same => absent ?_⟩
          exact List.mem_map.mpr ⟨entry, later, same⟩
      · rename_i differs
        rcases List.mem_cons.mp added with rfl | later
        · exact .inl ⟨List.mem_cons_self, differs⟩
        · rcases inductionHypothesis restDistinct later with
            ⟨old, apart⟩ | ⟨before, isEntry, origin⟩
          · exact .inl ⟨List.mem_cons_of_mem _ old, apart⟩
          · refine .inr ⟨before, isEntry, origin.imp
              (List.mem_cons_of_mem _) (And.imp_right fun unknown => ?_)⟩
            rw [List.map_cons, List.mem_cons, not_or]
            exact ⟨Ne.symm differs, unknown⟩

/-- Adding a categorical predicate to the class of its accessor. -/
theorem Classify.addMember
    (classify : Classify listed classes)
    (categorical : member.2.categoricalAccessor? = some accessor) :
    Classify (listed ++ [member]) (addMember classes accessor member) where
  distinct := by
    rw [accessors_addMember]
    split
    · exact classify.distinct
    · rename_i absent
      refine List.nodup_append.mpr ⟨classify.distinct, by simp, ?_⟩
      rintro known isKnown other isOther rfl
      exact absent (List.mem_singleton.mp isOther ▸ isKnown)
  members := by
    intro entry added
    rcases mem_addMember classify.distinct added with
      ⟨old, apart⟩ | ⟨before, rfl, origin⟩
    · rw [classify.members entry old]
      simp [membersOn, categorical, Ne.symm apart]
    · have isBefore : before = membersOn accessor listed := by
        rcases origin with old | ⟨rfl, unknown⟩
        · exact classify.members _ old
        · refine (List.filter_eq_nil_iff.mpr fun other isListed isOn => ?_).symm
          exact unknown (classify.complete other isListed accessor
            (of_decide_eq_true isOn))
      simp [isBefore, membersOn, categorical]
  complete := by
    intro other isListed otherAccessor isOn
    rw [accessors_addMember]
    rcases List.mem_append.mp isListed with old | isNew
    · have known := classify.complete other old otherAccessor isOn
      split
      · exact known
      · exact List.mem_append_left _ known
    · obtain rfl := List.mem_singleton.mp isNew
      obtain rfl := Option.some.inj (categorical.symm.trans isOn)
      split
      · assumption
      · exact List.mem_append_right _ List.mem_cons_self

/-- Sorting one predicate after the other into classes sorts them all. -/
theorem classify_foldl
    {sortIn : List (Accessor × List Member) → Member → List (Accessor × List Member)}
    (sorts : ∀ listed member classes, Classify listed classes →
      Classify (listed ++ [member]) (sortIn classes member))
    (listed rest : List Member)
    (classes : List (Accessor × List Member))
    (classify : Classify listed classes) :
    Classify (listed ++ rest) (rest.foldl sortIn classes) := by
  induction rest generalizing listed classes with
  | nil => simpa using classify
  | cons member rest inductionHypothesis =>
      rw [List.append_cons, List.foldl_cons]
      exact inductionHypothesis _ _ (sorts listed member classes classify)

/-- Every categorical predicate of an alphabet is in the class of its accessor. -/
theorem classify_membersByAccessor :
    Classify predicates.entries (membersByAccessor predicates) := by
  unfold membersByAccessor
  refine classify_foldl (fun listed member classes classify => ?_) []
    predicates.entries [] ⟨List.nodup_nil, fun _ known => (List.not_mem_nil known).elim,
      fun _ isListed => (List.not_mem_nil isListed).elim⟩
  obtain ⟨id, predicate⟩ := member
  cases categorical : predicate.categoricalAccessor? with
  | some accessor =>
      simp only [categorical]
      exact classify.addMember categorical
  | none =>
      simp only [categorical]
      refine ⟨classify.distinct, fun entry known => ?_,
        fun other isListed accessor isOn => ?_⟩
      · simp [classify.members entry known, membersOn, categorical]
      · rcases List.mem_append.mp isListed with old | isNew
        · exact classify.complete other old accessor isOn
        · obtain rfl := List.mem_singleton.mp isNew
          rw [categorical] at isOn
          cases isOn

/-- Whether classes hold members of their accessors only. -/
def ClassesKnown
    (predicates : PredicateAlphabet)
    (classes : List (Accessor × List Member)) : Prop :=
  ∀ entry ∈ classes, ∀ member ∈ entry.2, MemberOf predicates entry.1 member

/-- The members on an accessor are its categorical predicates. -/
theorem mem_membersOn :
    member ∈ membersOn accessor predicates.entries ↔
      MemberOf predicates accessor member := by
  rw [membersOn, List.mem_filter, Alphabet.mem_entries_iff, MemberOf,
    decide_eq_true_iff]

/-- The classes of an alphabet hold members of their accessors. -/
theorem classesKnown_membersByAccessor :
    ClassesKnown predicates (membersByAccessor predicates) := by
  intro entry listed member inside
  rw [classify_membersByAccessor.members entry listed] at inside
  exact mem_membersOn.mp inside

/-- The members that hold of a value are listed by their numbers. -/
theorem mem_holdingAt
    (known : ∀ member ∈ members, MemberOf predicates accessor member)
    {value : Option Value}
    (inside : member ∈ members) :
    member.1 ∈ holdingAt members value ↔
      member.2.categoricalTruth? value = some true := by
  constructor
  · intro listed
    obtain ⟨other, otherListed, same⟩ := List.mem_map.mp listed
    obtain ⟨otherInside, otherHolds⟩ := List.mem_filter.mp otherListed
    have samePredicate : other.2 = member.2 := by
      have stored := (known other otherInside).1
      rw [same, (known member inside).1] at stored
      exact (Option.some.inj stored).symm
    rw [← samePredicate]
    exact eq_of_beq otherHolds
  · intro memberHolds
    exact List.mem_map.mpr
      ⟨member, List.mem_filter.mpr ⟨inside, beq_iff_eq.mpr memberHolds⟩, rfl⟩

/-- Of a value that no member names, the unequal ones hold. -/
theorem holdingAt_elsewhere
    (known : ∀ member ∈ members, MemberOf predicates accessor member)
    {value : Value}
    (unnamed : value ∉ members.flatMap (·.2.mentioned)) :
    (members.filter fun member => member.2.holdsElsewhere).map (·.1) =
      holdingAt members (some value) := by
  refine congrArg (List.map Prod.fst) (List.filter_congr fun member inside => ?_)
  have notMentioned : value ∉ member.2.mentioned := fun named =>
    unnamed (List.mem_flatMap.mpr ⟨member, inside, named⟩)
  have categorical := (known member inside).2
  generalize member.2 = predicate at notMentioned categorical
  unfold Predicate.categoricalAccessor? at categorical
  split at categorical
  · have differs : value ≠ _ := fun same =>
      notMentioned (List.mem_singleton.mpr same)
    simp [Predicate.holdsElsewhere, differs]
  · have differs : value ≠ _ := fun same =>
      notMentioned (List.mem_singleton.mpr same)
    simp [Predicate.holdsElsewhere, differs]
  · simp only [Predicate.holdsElsewhere, Predicate.categoricalTruth?]
    simpa [Predicate.mentioned] using notMentioned
  · cases categorical

end Classes

section Groups

variable {predicates : PredicateAlphabet} {accessor : Accessor}
variable {members : List Member} {finals : Alphabet (List PredicateId)}

/-- Every named value leads to the state of the members that hold of it. -/
theorem addTargets_spec
    (members : List Member)
    (values : List Value)
    (finals : Alphabet (List PredicateId)) :
    finals.Extends (addTargets members values finals).2 ∧
      ∀ value,
        match (addTargets members values finals).1.lookup value with
        | some target =>
            (addTargets members values finals).2.get? target =
              some (holdingAt members (some value))
        | none => value ∉ values := by
  induction values generalizing finals with
  | nil =>
      exact ⟨fun _ _ stored => stored, by simp [addTargets]⟩
  | cons first rest inductionHypothesis =>
      obtain ⟨later, targets⟩ := @inductionHypothesis
        (finals.intern (holdingAt members (some first))).2
      have stored := Alphabet.get?_intern finals
        (holdingAt members (some first))
      refine ⟨fun id item kept =>
        later id item (Alphabet.extends_intern finals _ id item kept), ?_⟩
      intro value
      by_cases isFirst : value = first
      · subst isFirst
        simp only [addTargets, List.lookup_cons_self]
        exact later _ _ stored
      · have differs : (value == first) = false := by simpa using isFirst
        have found := targets value
        simp only [addTargets, List.lookup_cons, differs]
        split at found
        · rename_i target isTarget
          rw [isTarget]
          exact found
        · rename_i isTarget
          rw [isTarget]
          simp [isFirst, found]

/-- A group leads from every value to the members that hold of it. -/
structure GroupOf
    (predicates : PredicateAlphabet)
    (finals : Alphabet (List PredicateId))
    (entry : Accessor × List Member)
    (group : AccessorGroup) : Prop where
  accessor_eq : group.accessor = entry.1
  members_eq : group.members = entry.2.map (·.1)
  target :
    ∀ value, finals.get? (group.target value) = some (holdingAt entry.2 value)

theorem GroupOf.extend
    {entry : Accessor × List Member}
    {group : AccessorGroup}
    {more : Alphabet (List PredicateId)}
    (groupOf : GroupOf predicates finals entry group)
    (extended : finals.Extends more) :
    GroupOf predicates more entry group where
  accessor_eq := groupOf.accessor_eq
  members_eq := groupOf.members_eq
  target value := extended _ _ (groupOf.target value)

theorem buildGroup_spec
    (finals : Alphabet (List PredicateId))
    (known : ∀ member ∈ members, MemberOf predicates accessor member) :
    finals.Extends (buildGroup accessor members finals).2 ∧
      GroupOf predicates (buildGroup accessor members finals).2
        (accessor, members) (buildGroup accessor members finals).1 := by
  let withMissing := (finals.intern (holdingAt members none)).2
  let unequal :=
    (members.filter fun member => member.2.holdsElsewhere).map (·.1)
  let withElsewhere := (withMissing.intern unequal).2
  obtain ⟨later, targets⟩ :=
    addTargets_spec members (members.flatMap (·.2.mentioned)) withElsewhere
  have elsewhereKept := Alphabet.extends_intern withMissing unequal
  refine ⟨fun id item stored => later id item (elsewhereKept id item
    (Alphabet.extends_intern finals _ id item stored)), rfl, rfl, ?_⟩
  intro value
  cases value with
  | none =>
      exact later _ _ (elsewhereKept _ _ (Alphabet.get?_intern finals _))
  | some value =>
      have found := targets value
      simp only [AccessorGroup.target, buildGroup]
      split at found
      · rename_i target isTarget
        rw [isTarget]
        exact found
      · rename_i isTarget
        rw [isTarget, ← holdingAt_elsewhere known found]
        exact later _ _ (Alphabet.get?_intern withMissing unequal)

theorem buildGroups_spec
    (finals : Alphabet (List PredicateId))
    {classes : List (Accessor × List Member)}
    (known : ClassesKnown predicates classes) :
    finals.Extends (buildGroups classes finals).2 ∧
      List.Forall₂ (GroupOf predicates (buildGroups classes finals).2) classes
        (buildGroups classes finals).1 := by
  induction classes generalizing finals with
  | nil =>
      exact ⟨fun _ _ stored => stored, .nil⟩
  | cons first rest inductionHypothesis =>
      obtain ⟨accessor, members⟩ := first
      obtain ⟨grown, group⟩ := buildGroup_spec finals
        (known (accessor, members) (by simp))
      obtain ⟨later, groups⟩ :=
        @inductionHypothesis (buildGroup accessor members finals).2
          fun entry listed => known entry (List.mem_cons_of_mem _ listed)
      exact ⟨fun id item stored => later id item (grown id item stored),
        .cons (group.extend later) groups⟩

end Groups

namespace PredicateNetwork

variable {predicates : PredicateAlphabet} {threshold : Nat}
variable {id : PredicateId} {predicate : Predicate} {accessor : Accessor}

@[simp] theorem predicates_compile :
    (compile predicates threshold).predicates = predicates :=
  rfl

/-- What the record of a predicate says. -/
structure RecordOf
    (network : PredicateNetwork)
    (accessor : Accessor)
    (predicate : Predicate)
    (record : Implications) : Prop where
  entailed :
    ∀ value truth, predicate.categoricalTruth? value = some truth →
      (if truth then record.whenTrue else record.whenFalse).Sound
        network.predicates accessor value
  group :
    ∀ group, record.group.bind (network.groups[·]?) = some group →
      group.accessor = accessor ∧
        ∀ value, ∀ member ∈ group.members, ∃ predicate,
          MemberOf network.predicates accessor (member, predicate) ∧
            predicate.categoricalTruth? value =
              some ((network.walk group value).contains member)

/-- The record of a categorical predicate is right. -/
theorem recordOf_compile
    (threshold : Nat)
    (stored : predicates.get? id = some predicate)
    (categorical : predicate.categoricalAccessor? = some accessor) :
    RecordOf (compile predicates threshold) accessor predicate
      ((compile predicates threshold).implications id) := by
  let classes := membersByAccessor predicates
  let grouped := classes.filter fun entry =>
    max threshold 1 ≤ entry.2.length
  have classesKnown : ClassesKnown predicates classes :=
    classesKnown_membersByAccessor
  have groupedKnown : ClassesKnown predicates grouped := fun entry listed =>
    classesKnown entry (List.mem_filter.mp listed).1
  have record :
      (compile predicates threshold).implications id =
        recordOf classes grouped id predicate := by
    have atPosition : predicates.items[id]? = some predicate := stored
    simp [implications, compile, Alphabet.entries, classes, grouped,
      atPosition]
  rw [record]
  have memberKnown :
      ∀ member ∈ (classes.lookup accessor).getD [],
        MemberOf predicates accessor member := by
    intro member inside
    cases found : classes.lookup accessor with
    | none =>
        simp [found] at inside
    | some members =>
        rw [found] at inside
        obtain ⟨before, after, split, -⟩ := List.lookup_eq_some_iff.mp found
        exact classesKnown (accessor, members) (by rw [split]; simp) member
          inside
  simp only [recordOf, categorical]
  constructor
  case entailed =>
    intro value truth holds
    exact sound_entailments memberKnown categorical holds
  case group =>
    intro group found
    obtain ⟨-, groups⟩ :=
      buildGroups_spec Alphabet.empty groupedKnown
    obtain ⟨index, isIndex, isGroup⟩ := Option.bind_eq_some_iff.mp found
    obtain ⟨inside, same, -⟩ := List.findIdx?_eq_some_iff_getElem.mp isIndex
    have groupStored :
        (buildGroups grouped Alphabet.empty).1[index]? = some group := by
      simpa [compile, classes, grouped] using isGroup
    obtain ⟨bound, isElement⟩ := List.getElem?_eq_some_iff.mp groupStored
    have groupOf := (List.forall₂_iff_get.mp groups).2 index inside bound
    simp only [List.get_eq_getElem, isElement] at groupOf
    have accessorSame : grouped[index].1 = accessor := by simpa using same
    refine ⟨groupOf.accessor_eq.trans accessorSame, ?_⟩
    intro value member listed
    rw [groupOf.members_eq] at listed
    obtain ⟨⟨memberId, memberPredicate⟩, memberListed, rfl⟩ :=
      List.mem_map.mp listed
    have memberOf := groupedKnown _ (List.getElem_mem inside) _ memberListed
    rw [accessorSame] at memberOf
    refine ⟨memberPredicate, memberOf, ?_⟩
    have walked :
        (compile predicates threshold).walk group value =
          holdingAt grouped[index].2 value := by
      simp only [walk, compile]
      exact congrArg (·.getD []) (groupOf.target value)
    rw [walked]
    obtain ⟨truth, isTruth⟩ := Option.isSome_iff_exists.mp
      (Predicate.categoricalTruth?_isSome memberOf.2 value)
    have settled := @mem_holdingAt _ _ _ (memberId, memberPredicate)
      (groupedKnown _ (List.getElem_mem inside)) value memberListed
    simp only [isTruth, Option.some.injEq] at settled ⊢
    cases truth with
    | true => simpa using settled.mpr rfl
    | false => simpa using settled

/-- Nothing is settled by a predicate that is not categorical. -/
theorem implications_eq_nothing
    (stored : predicates.get? id = some predicate)
    (notCategorical : predicate.categoricalAccessor? = none) :
    (compile predicates threshold).implications id =
      ⟨.nothing, .nothing, none⟩ := by
  have atPosition : predicates.items[id]? = some predicate := stored
  simp [implications, compile, Alphabet.entries, atPosition, recordOf,
    notCategorical]

end PredicateNetwork

end SpanForest
