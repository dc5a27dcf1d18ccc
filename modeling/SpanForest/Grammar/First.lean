import SpanForest.Fixpoint
import SpanForest.Grammar.Basic

namespace SpanForest

/-!
# FIRST sets

FIRST of a symbol holds the terminals that can begin what it derives, and the
empty string if it derives that. The sets grow in place, rule by rule, until a
pass over all rules adds nothing.
-/

/-- The set at `index`, empty past the end. -/
def setAt (sets : Array BitSet) (index : Nat) : BitSet :=
  sets.getD index .empty

/--
Add to the set at `target` the members of the set at `source`.

The empty string is left out; the flag says whether the target grew.
-/
def absorbSet
    (sets : Array BitSet)
    (target source : SymbolId) :
    Bool × Array BitSet :=
  if target = source then
    (false, sets)
  else
    let (grew, set) :=
      (setAt sets target).unionExcept (setAt sets source) emptyString
    (grew, sets.setIfInBounds target set)

/--
Add to FIRST of `lhs` what one right-hand side contributes.

Symbols are read up to the first that does not derive the empty string; if
there is none, `lhs` derives it as well. The flag collects changes.
-/
def addFirst
    (lhs : SymbolId) :
    List SymbolId →
    Bool × Array BitSet →
    Bool × Array BitSet
  | [], (changed, sets) =>
      let (absent, set) := (setAt sets lhs).insert emptyString
      (changed || absent, sets.setIfInBounds lhs set)
  | symbol :: rest, (changed, sets) =>
      let (grew, sets) := absorbSet sets lhs symbol
      if (setAt sets symbol).contains emptyString then
        addFirst lhs rest (changed || grew, sets)
      else
        (changed || grew, sets)

/-- One pass over rules. -/
def firstPass (rules : List Rule) (sets : Array BitSet) : Bool × Array BitSet :=
  rules.foldl
    (fun state rule => addFirst rule.lhs rule.symbols state)
    (false, sets)

/-- FIRST of every symbol. -/
structure FirstSets where
  sets : Array BitSet
  /-- Number of passes, the last of which added nothing. -/
  passes : Nat
  deriving Repr, DecidableEq, Inhabited

namespace FirstSets

/-- Terminals begin with themselves; nothing is known of nonterminals. -/
def initial (grammar : Grammar) : Array BitSet :=
  (grammar.symbolIds.map fun symbol =>
    if grammar.isNonterminal symbol then
      BitSet.empty
    else
      BitSet.ofList [symbol]).toArray

/--
Compute FIRST of every symbol.

A pass that changes something adds one of the pairs of a symbol and a member,
so there are no more passes than pairs, and one.
-/
def compute (grammar : Grammar) : FirstSets :=
  let (passes, sets) :=
    repeatRounds (firstPass grammar.allRules)
      (grammar.numSymbols * grammar.numSymbols + 1) (initial grammar)
  ⟨sets, passes⟩

/-- FIRST of a symbol. -/
def get (first : FirstSets) (symbol : SymbolId) : BitSet :=
  setAt first.sets symbol

/-- Whether a symbol derives the empty string. -/
def nullable (first : FirstSets) (symbol : SymbolId) : Bool :=
  (first.get symbol).contains emptyString

/-- FIRST of what follows `known` members contributed by earlier symbols. -/
def extend (first : FirstSets) (known : BitSet) : List SymbolId → BitSet
  | [] => (known.insert emptyString).2
  | symbol :: rest =>
      let extended := (known.unionExcept (first.get symbol) emptyString).2
      if first.nullable symbol then
        first.extend extended rest
      else
        extended

/-- FIRST of a string of symbols. -/
def ofSequence (first : FirstSets) (symbols : List SymbolId) : BitSet :=
  first.extend .empty symbols

end FirstSets

end SpanForest
