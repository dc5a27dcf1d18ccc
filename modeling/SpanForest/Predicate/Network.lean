import SpanForest.Predicate.Basic

namespace SpanForest

/-!
# Entailments between categorical predicates

Categorical predicates on the same accessor depend on one another: if the value
is known to be `a`, every other predicate on that accessor is settled. The
network records for each predicate what its truth and its falsehood settle. For
an accessor with many categorical predicates it also holds a group, which leads
from the value itself straight to the members that hold of it.
-/

/-- Predicates whose truth is settled, in ascending order. -/
structure Entailed where
  alsoTrue : List PredicateId
  alsoFalse : List PredicateId
  deriving Repr, DecidableEq, Inhabited

/-- Nothing is settled. -/
def Entailed.nothing : Entailed :=
  ⟨[], []⟩

/-- Whether nothing is settled. -/
def Entailed.isEmpty (entailed : Entailed) : Bool :=
  entailed.alsoTrue.isEmpty && entailed.alsoFalse.isEmpty

/-- What is known once a predicate was evaluated. -/
structure Implications where
  whenTrue : Entailed
  whenFalse : Entailed
  /-- The group that settles the predicate, if its accessor has one. -/
  group : Option Nat
  deriving Repr, DecidableEq, Inhabited

/-- Whether evaluating the predicate settles nothing else. -/
def Implications.isEmpty (implications : Implications) : Bool :=
  implications.whenTrue.isEmpty && implications.whenFalse.isEmpty &&
    implications.group.isNone

/-- A categorical predicate with its number. -/
abbrev Member := PredicateId × Predicate

namespace Predicate

/-- The values that a categorical predicate names. -/
def mentioned : Predicate → List Value
  | .compare _ _ value => [value]
  | .oneOf _ values => values
  | _ => []

/--
The truth of a predicate when the value is none of `excluded`, or missing.

It is settled only if the predicate names nothing but excluded values.
-/
def truthExcluding? (excluded : List Value) : Predicate → Option Bool
  | .compare _ comparison value =>
      if excluded.contains value then
        some (comparison != .eq)
      else
        none
  | .oneOf _ values =>
      if values.all excluded.contains then some false else none
  | _ => none

/--
The truth of a predicate when the value is one of `candidates`.

It is settled only for a comparison with a value outside of them.
-/
def truthWithin? (candidates : List Value) : Predicate → Option Bool
  | .compare _ comparison value =>
      if candidates.contains value then
        none
      else
        some (comparison != .eq)
  | _ => none

/-- Whether the predicate holds of a value that no member of its group names. -/
def holdsElsewhere : Predicate → Bool
  | .compare _ .ne _ => true
  | _ => false

end Predicate

/-- The members whose truth `truth?` settles. -/
def entailedBy
    (members : List Member)
    (truth? : Predicate → Option Bool) :
    Entailed where
  alsoTrue :=
    (members.filter fun member => truth? member.2 == some true).map (·.1)
  alsoFalse :=
    (members.filter fun member => truth? member.2 == some false).map (·.1)

/-- What the truth and the falsehood of one member settle among the others. -/
def entailments
    (members : List Member)
    (id : PredicateId)
    (predicate : Predicate) :
    Entailed × Entailed :=
  let others := members.filter fun member => member.1 != id
  let knowing (value : Value) :=
    entailedBy others (·.categoricalTruth? (some value))
  let excluding (values : List Value) :=
    entailedBy others (·.truthExcluding? values)
  match predicate with
  | .compare _ .eq value => (knowing value, excluding [value])
  | .compare _ _ value => (excluding [value], knowing value)
  | .oneOf _ values =>
      (entailedBy others (·.truthWithin? values), excluding values)
  | _ => (.nothing, .nothing)

/-- The categorical predicates of one accessor, and where its values lead. -/
structure AccessorGroup where
  accessor : Accessor
  /-- The members in ascending order. -/
  members : List PredicateId
  /-- Final state when the accessor yields nothing. -/
  missing : Nat
  /-- Final state for a value that no member names. -/
  elsewhere : Nat
  /-- Final states of the values that members name. -/
  targets : List (Value × Nat)
  deriving Repr, DecidableEq, Inhabited

/-- The final state of a group for what its accessor yields. -/
def AccessorGroup.target (group : AccessorGroup) (value : Option Value) : Nat :=
  match value with
  | none => group.missing
  | some value => (group.targets.lookup value).getD group.elsewhere

/-- Predicates with what their evaluation settles. -/
structure PredicateNetwork where
  predicates : PredicateAlphabet
  records : Array Implications
  groups : Array AccessorGroup
  /-- Final states: the members that hold there. -/
  finals : Alphabet (List PredicateId)
  deriving Inhabited

/-- The members of `members` that hold when their accessor yields `value`. -/
def holdingAt (members : List Member) (value : Option Value) : List PredicateId :=
  (members.filter fun member =>
    member.2.categoricalTruth? value == some true).map (·.1)

/-- Add one categorical predicate to the list of its accessor. -/
def addMember
    (classes : List (Accessor × List Member))
    (accessor : Accessor)
    (member : Member) :
    List (Accessor × List Member) :=
  match classes with
  | [] => [(accessor, [member])]
  | (other, members) :: rest =>
      if other = accessor then
        (other, members ++ [member]) :: rest
      else
        (other, members) :: addMember rest accessor member

/-- Categorical predicates by accessor, in the order in which accessors appear. -/
def membersByAccessor
    (predicates : PredicateAlphabet) :
    List (Accessor × List Member) :=
  predicates.entries.foldl
    (fun classes (id, predicate) =>
      match predicate.categoricalAccessor? with
      | some accessor => addMember classes accessor (id, predicate)
      | none => classes)
    []

/-- The final states of named values, added to those known so far. -/
def addTargets
    (members : List Member)
    (values : List Value)
    (finals : Alphabet (List PredicateId)) :
    List (Value × Nat) × Alphabet (List PredicateId) :=
  match values with
  | [] => ([], finals)
  | value :: rest =>
      let (target, known) := finals.intern (holdingAt members (some value))
      let (targets, all) := addTargets members rest known
      ((value, target) :: targets, all)

/-- Build the group of one accessor, adding its final states. -/
def buildGroup
    (accessor : Accessor)
    (members : List Member)
    (finals : Alphabet (List PredicateId)) :
    AccessorGroup × Alphabet (List PredicateId) :=
  let (missing, known) := finals.intern (holdingAt members none)
  let (elsewhere, known) :=
    known.intern
      ((members.filter fun member => member.2.holdsElsewhere).map (·.1))
  let (targets, known) :=
    addTargets members (members.flatMap (·.2.mentioned)) known
  (⟨accessor, members.map (·.1), missing, elsewhere, targets⟩, known)

/-- Build the groups of several accessors in turn. -/
def buildGroups
    (classes : List (Accessor × List Member))
    (finals : Alphabet (List PredicateId)) :
    List AccessorGroup × Alphabet (List PredicateId) :=
  match classes with
  | [] => ([], finals)
  | (accessor, members) :: rest =>
      let (group, known) := buildGroup accessor members finals
      let (groups, all) := buildGroups rest known
      (group :: groups, all)

/-- What evaluating one predicate settles, given all classes and those grouped. -/
def recordOf
    (classes grouped : List (Accessor × List Member))
    (id : PredicateId)
    (predicate : Predicate) :
    Implications :=
  match predicate.categoricalAccessor? with
  | none => ⟨.nothing, .nothing, none⟩
  | some accessor =>
      let members := (classes.lookup accessor).getD []
      let (whenTrue, whenFalse) := entailments members id predicate
      ⟨whenTrue, whenFalse, grouped.findIdx? (·.1 == accessor)⟩

namespace PredicateNetwork

/-- Derive the network; an accessor with `threshold` or more members is grouped. -/
def compile
    (predicates : PredicateAlphabet)
    (threshold : Nat) :
    PredicateNetwork :=
  let classes := membersByAccessor predicates
  let grouped := classes.filter fun (_, members) =>
    max threshold 1 ≤ members.length
  let (groups, finals) := buildGroups grouped Alphabet.empty
  { predicates := predicates
    records :=
      (predicates.entries.map fun (id, predicate) =>
        recordOf classes grouped id predicate).toArray
    groups := groups.toArray
    finals := finals }

/-- Number of predicates. -/
def size (network : PredicateNetwork) : Nat :=
  network.predicates.size

/-- What evaluating predicate `id` settles. -/
def implications (network : PredicateNetwork) (id : PredicateId) : Implications :=
  network.records.getD id ⟨.nothing, .nothing, none⟩

/-- Number of groups and final states. -/
def numStates (network : PredicateNetwork) : Nat :=
  network.groups.size + network.finals.size

/-- The members of a group that hold for what its accessor yields. -/
def walk
    (network : PredicateNetwork)
    (group : AccessorGroup)
    (value : Option Value) :
    List PredicateId :=
  (network.finals.get? (group.target value)).getD []

end PredicateNetwork

end SpanForest
