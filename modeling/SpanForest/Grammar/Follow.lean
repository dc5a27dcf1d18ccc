import SpanForest.Grammar.First

namespace SpanForest

/-!
# FOLLOW sets

FOLLOW of a nonterminal holds the terminals that can come directly behind it.
A right-hand side is read backwards with the terminals that may follow the
current position; the sets grow in place until a pass adds nothing.
-/

/--
Add what one right-hand side contributes to FOLLOW of its nonterminals.

The symbols come in reverse order, and `trailer` holds what may follow the
first of them.
-/
def addFollow
    (grammar : Grammar)
    (first : FirstSets) :
    (trailer : BitSet) →
    List SymbolId →
    Bool × Array BitSet →
    Bool × Array BitSet
  | _, [], state => state
  | trailer, symbol :: before, (changed, sets) =>
      let (grew, sets) :=
        if grammar.isNonterminal symbol then
          let (grew, set) := (setAt sets symbol).union trailer
          (grew, sets.setIfInBounds symbol set)
        else
          (false, sets)
      let remaining :=
        if first.nullable symbol then trailer else trailer.clear
      let trailer :=
        (remaining.unionExcept (first.get symbol) emptyString).2
      addFollow grammar first trailer before (changed || grew, sets)

/-- One pass over rules. -/
def followPass
    (grammar : Grammar)
    (first : FirstSets)
    (sets : Array BitSet) :
    Bool × Array BitSet :=
  grammar.allRules.foldl
    (fun (changed, sets) rule =>
      addFollow grammar first (setAt sets rule.lhs) rule.symbols.reverse
        (changed, sets))
    (false, sets)

/-- FOLLOW of every symbol; terminals have an empty one. -/
structure FollowSets where
  sets : Array BitSet
  deriving Repr, DecidableEq, Inhabited

namespace FollowSets

/-- The end of the input follows the start symbol. -/
def initial (grammar : Grammar) : Array BitSet :=
  (Array.replicate grammar.numSymbols BitSet.empty).setIfInBounds
    grammar.start (BitSet.ofList [endOfInput])

/--
Compute FOLLOW of every nonterminal.

A pass that changes something adds one of the pairs of a symbol and a member,
so there are no more passes than pairs, and one.
-/
def compute (grammar : Grammar) (first : FirstSets) : FollowSets :=
  ⟨(repeatRounds (followPass grammar first)
    (grammar.numSymbols * grammar.numSymbols + 1) (initial grammar)).2⟩

/-- FOLLOW of a symbol. -/
def get (follow : FollowSets) (symbol : SymbolId) : BitSet :=
  setAt follow.sets symbol

end FollowSets

end SpanForest
