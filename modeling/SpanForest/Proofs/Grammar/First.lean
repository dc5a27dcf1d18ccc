import SpanForest.Proofs.Grammar.Derivation
import SpanForest.Proofs.Grammar.FirstFollow

namespace SpanForest

/-!
# FIRST is exact

FIRST of a symbol holds a terminal exactly if the symbol derives a form that begins
with it, and the empty string exactly if the symbol derives that; and so for
strings. No pass puts anything else into the sets, and a form that derives
another has all that begins the other, since the sets are closed.
-/

namespace Grammar

/-- A terminal begins a form that is derived; the empty string does if it is derived. -/
def Begins (grammar : Grammar) (form : List SymbolId) (member : SymbolId) : Prop :=
  member = emptyString ∧ grammar.Derives form [] ∨
    member ≠ emptyString ∧ grammar.IsTerminal member ∧
      ∃ rest, grammar.Derives form (member :: rest)

variable {grammar : Grammar} {form other : List SymbolId} {member : SymbolId}

/-- What begins a form that is derived begins what it is derived from. -/
theorem Begins.of_derives
    (derives : grammar.Derives form other)
    (begins : grammar.Begins other member) :
    grammar.Begins form member := by
  rcases begins with ⟨isEmpty, vanishes⟩ | ⟨notEmpty, terminal, rest, leads⟩
  · exact .inl ⟨isEmpty, derives.trans vanishes⟩
  · exact .inr ⟨notEmpty, terminal, rest, derives.trans leads⟩

/-- A terminal that begins the first part of a string begins the string. -/
theorem Begins.append_right
    (begins : grammar.Begins form member)
    (notEmpty : member ≠ emptyString)
    (after : List SymbolId) :
    grammar.Begins (form ++ after) member := by
  rcases begins with ⟨isEmpty, -⟩ | ⟨-, terminal, rest, leads⟩
  · exact absurd isEmpty notEmpty
  · exact .inr ⟨notEmpty, terminal, rest ++ after, leads.append .refl⟩

/-- What begins a string begins it behind what vanishes. -/
theorem Begins.behind
    {before : List SymbolId}
    (vanishes : grammar.Derives before [])
    (begins : grammar.Begins form member) :
    grammar.Begins (before ++ form) member :=
  begins.of_derives (vanishes.append .refl)

theorem begins_emptyString :
    grammar.Begins form emptyString ↔ grammar.Derives form [] := by
  simp [Begins]

end Grammar

section Sound

variable {grammar : Grammar} {sets : Array BitSet} {changed : Bool}

/-- Every member of a set begins what the set's symbol derives. -/
def MembersBegin (grammar : Grammar) (sets : Array BitSet) : Prop :=
  ∀ symbol member, (setAt sets symbol).contains member = true →
    grammar.Begins (spelled [symbol]) member

theorem membersBegin_setIfInBounds
    (begin : MembersBegin grammar sets)
    {target : SymbolId}
    {set : BitSet}
    (new : ∀ member, set.contains member = true →
      grammar.Begins (spelled [target]) member) :
    MembersBegin grammar (sets.setIfInBounds target set) := by
  intro symbol member held
  rcases contains_setIfInBounds held with ⟨rfl, added⟩ | old
  · exact new member added
  · exact begin symbol member old

/-- What a symbol of a right-hand side contributes begins what derives the symbol. -/
theorem membersBegin_absorbSet
    (begin : MembersBegin grammar sets)
    {target source : SymbolId}
    {rest : List SymbolId}
    (derives :
      grammar.Derives (spelled [target]) (spelled (source :: rest))) :
    MembersBegin grammar (absorbSet sets target source).2 := by
  unfold absorbSet
  split
  · exact begin
  · refine membersBegin_setIfInBounds begin fun member held => ?_
    rw [BitSet.contains_unionExcept, Bool.or_eq_true, Bool.and_eq_true,
      bne_iff_ne] at held
    rcases held with old | ⟨new, notEmpty⟩
    · exact begin target member old
    · rw [spelled_cons source] at derives
      exact .of_derives derives
        ((begin source member new).append_right notEmpty _)

/-- What a right-hand side adds begins what its left-hand side derives. -/
theorem membersBegin_addFirst
    (begin : MembersBegin grammar sets)
    {lhs : SymbolId}
    (symbols : List SymbolId)
    (derives : grammar.Derives (spelled [lhs]) (spelled symbols)) :
    MembersBegin grammar (addFirst lhs symbols (changed, sets)).2 := by
  induction symbols generalizing changed sets with
  | nil =>
      change MembersBegin grammar (sets.setIfInBounds lhs
        ((setAt sets lhs).insert emptyString).2)
      refine membersBegin_setIfInBounds begin fun member held => ?_
      rw [BitSet.contains_insert, Bool.or_eq_true, beq_iff_eq] at held
      rcases held with rfl | old
      · exact Grammar.begins_emptyString.mpr derives
      · exact begin lhs member old
  | cons symbol rest inductionHypothesis =>
      have absorbed := membersBegin_absorbSet begin derives
      unfold addFirst
      simp only
      split
      · rename_i isNullable
        refine inductionHypothesis absorbed ?_
        have vanishes := Grammar.begins_emptyString.mp
          (absorbed symbol emptyString isNullable)
        rw [spelled_cons symbol] at derives
        exact derives.trans (vanishes.append .refl)
      · exact absorbed

/-- A pass over rules adds only what begins what their left-hand sides derive. -/
theorem membersBegin_firstPass
    (begin : MembersBegin grammar sets)
    (rules : List Rule)
    (derive : ∀ rule ∈ rules,
      grammar.Derives (spelled [rule.lhs]) (spelled rule.symbols)) :
    MembersBegin grammar
      (rules.foldl (fun state rule => addFirst rule.lhs rule.symbols state)
        (changed, sets)).2 := by
  induction rules generalizing changed sets with
  | nil => exact begin
  | cons rule rest inductionHypothesis =>
      exact inductionHypothesis
        (membersBegin_addFirst begin rule.symbols
          (derive rule List.mem_cons_self))
        fun other member => derive other (List.mem_cons_of_mem _ member)

end Sound

namespace FirstSets

variable {grammar : Grammar} {form other : List SymbolId} {member : SymbolId}

section Closed

variable {first : FirstSets}

/-- Symbols that stand for the empty string may be left out if FIRST knows them to. -/
theorem contains_ofSequence_spelled
    (only : ∀ member : Nat,
      (first.get emptyString).contains member = true ↔ member = emptyString)
    (symbols : List SymbolId)
    (member : Nat) :
    (first.ofSequence (spelled symbols)).contains member =
      (first.ofSequence symbols).contains member := by
  induction symbols with
  | nil => rfl
  | cons symbol rest inductionHypothesis =>
      have isNullable : first.nullable emptyString = true := by
        rw [nullable, only]
      by_cases isEmpty : symbol = emptyString
      · subst isEmpty
        rw [spelled_cons, spelled_emptyString, List.nil_append,
          inductionHypothesis, Bool.eq_iff_iff, first.contains_ofSequence_cons,
          only]
        simp [isNullable]
      · rw [spelled_cons, spelled_singleton isEmpty, Bool.eq_iff_iff]
        simp only [List.singleton_append, first.contains_ofSequence_cons,
          inductionHypothesis]

end Closed

section WellFormed

variable (wellFormed : grammar.WellFormed)
include wellFormed

/-- Everything in FIRST of a symbol begins what the symbol derives. -/
theorem membersBegin_compute :
    MembersBegin grammar (FirstSets.compute grammar).sets := by
  have steps : ∀ sets : Array BitSet, MembersBegin grammar sets →
      MembersBegin grammar (firstPass grammar.allRules sets).2 := by
    refine fun sets begin =>
      membersBegin_firstPass begin grammar.allRules fun rule member => ?_
    rw [spelled_singleton
      (wellFormed.ne_emptyString (wellFormed.isNonterminal_lhs member))]
    exact Grammar.derives_rule member
  have starts : MembersBegin grammar (FirstSets.initial grammar) := by
    intro symbol member held
    obtain ⟨inside, terminal, rfl⟩ := (initial_spec.2.2 symbol member).mp held
    by_cases isEmpty : member = emptyString
    · exact .inl ⟨isEmpty, isEmpty ▸ .refl⟩
    · rw [spelled_singleton isEmpty]
      exact .inr ⟨isEmpty, ⟨inside, terminal⟩, [], .refl⟩
  have computed := repeatRounds_induction (motive := MembersBegin grammar) steps
    (grammar.numSymbols * grammar.numSymbols + 1) starts
  exact computed

/-- FIRST of the empty string is the empty string. -/
theorem contains_get_emptyString (member : Nat) :
    ((FirstSets.compute grammar).get emptyString).contains member = true ↔
      member = emptyString := by
  constructor
  · intro held
    rcases membersBegin_compute wellFormed emptyString member held with
      ⟨isEmpty, -⟩ | ⟨-, -, rest, derives⟩
    · exact isEmpty
    · cases Grammar.eq_nil_of_derives_nil derives
  · rintro rfl
    exact (compute_spec wellFormed).2.1 emptyString
      (Nat.lt_trans (by decide) wellFormed.reserved.1) wellFormed.reserved.2.2.1

/-- Everything in FIRST of a string begins what the string derives. -/
theorem begins_of_contains
    {symbols : List SymbolId}
    (held :
      ((FirstSets.compute grammar).ofSequence symbols).contains member = true) :
    grammar.Begins (spelled symbols) member := by
  induction symbols with
  | nil =>
      rw [contains_ofSequence_nil, beq_iff_eq] at held
      exact .inl ⟨held, .refl⟩
  | cons symbol rest inductionHypothesis =>
      have begin := membersBegin_compute wellFormed symbol
      rw [spelled_cons]
      rcases (contains_ofSequence_cons _).mp held with
        ⟨notEmpty, begins⟩ | ⟨isNullable, follows⟩
      · exact (begin member begins).append_right notEmpty _
      · exact (inductionHypothesis follows).behind
          (Grammar.begins_emptyString.mp (begin emptyString isNullable))

/-- A form has in FIRST what a form has that it is rewritten to. -/
theorem contains_of_rewrites
    (rewrites : grammar.Rewrites form other)
    (held :
      ((FirstSets.compute grammar).ofSequence other).contains member = true) :
    ((FirstSets.compute grammar).ofSequence form).contains member = true := by
  obtain ⟨-, -, closed⟩ := compute_spec wellFormed
  cases rewrites with
  | @rule rule before after isRule =>
      have spells := contains_ofSequence_spelled
        (contains_get_emptyString wellFormed) rule.symbols
      have isNullable : ∀ symbol,
          (FirstSets.compute grammar).nullable symbol =
            ((FirstSets.compute grammar).get symbol).contains emptyString :=
        fun _ => rfl
      simp only [contains_ofSequence_append, contains_ofSequence_cons, spells,
        isNullable] at held ⊢
      have ofRule := closed rule isRule
      grind

/-- A form has in FIRST what the forms have that it derives. -/
theorem contains_of_derives
    (derives : grammar.Derives form other)
    (held :
      ((FirstSets.compute grammar).ofSequence other).contains member = true) :
    ((FirstSets.compute grammar).ofSequence form).contains member = true := by
  induction derives using Relation.ReflTransGen.head_induction_on with
  | refl => exact held
  | head rewrites _ inductionHypothesis =>
      exact contains_of_rewrites wellFormed rewrites inductionHypothesis

/-- A form has in FIRST whatever begins what it derives. -/
theorem contains_of_begins
    (begins : grammar.Begins form member) :
    ((FirstSets.compute grammar).ofSequence form).contains member = true := by
  rcases begins with ⟨rfl, vanishes⟩ | ⟨notEmpty, terminal, rest, derives⟩
  · refine contains_of_derives wellFormed vanishes ?_
    rw [contains_ofSequence_nil, beq_self_eq_true]
  · refine contains_of_derives wellFormed derives
      ((contains_ofSequence_cons _).mpr (.inl ⟨notEmpty, ?_⟩))
    exact (compute_spec wellFormed).2.1 member terminal.1 terminal.2

/-- FIRST of a string holds exactly what begins what the string derives. -/
theorem contains_ofSequence_iff (symbols : List SymbolId) :
    ((FirstSets.compute grammar).ofSequence symbols).contains member = true ↔
      grammar.Begins (spelled symbols) member := by
  refine ⟨begins_of_contains wellFormed, fun begins => ?_⟩
  rw [← contains_ofSequence_spelled (contains_get_emptyString wellFormed)]
  exact contains_of_begins wellFormed begins

/-- FIRST of a symbol holds exactly what begins what the symbol derives. -/
theorem contains_get_iff (symbol : SymbolId) :
    ((FirstSets.compute grammar).get symbol).contains member = true ↔
      grammar.Begins (spelled [symbol]) member := by
  rw [← contains_ofSequence_iff wellFormed, contains_ofSequence_cons,
    contains_ofSequence_nil, nullable, beq_iff_eq]
  by_cases isEmpty : member = emptyString <;> simp [isEmpty]

end WellFormed

/--
FIRST is exact, of symbols and of strings, and so is what it says of the empty
string; and the passes that compute it end by themselves.
-/
theorem compute_exact
    {builder : GrammarBuilder}
    (built : builder.build = .ok grammar) :
    (∀ symbol terminal, terminal ≠ emptyString →
      (((FirstSets.compute grammar).get symbol).contains terminal = true ↔
        grammar.IsTerminal terminal ∧
          ∃ rest, grammar.Derives (spelled [symbol]) (terminal :: rest))) ∧
      (∀ symbol,
        ((FirstSets.compute grammar).get symbol).contains emptyString = true ↔
          grammar.Derives (spelled [symbol]) []) ∧
      (∀ symbols terminal, terminal ≠ emptyString →
        (((FirstSets.compute grammar).ofSequence symbols).contains terminal =
            true ↔
          grammar.IsTerminal terminal ∧
            ∃ rest, grammar.Derives (spelled symbols) (terminal :: rest))) ∧
      (∀ symbols,
        ((FirstSets.compute grammar).ofSequence symbols).contains emptyString =
            true ↔
          grammar.Derives (spelled symbols) []) ∧
      ∀ more,
        repeatRounds (firstPass grammar.allRules)
            (grammar.numSymbols * grammar.numSymbols + 1 + more)
            (FirstSets.initial grammar) =
          ((FirstSets.compute grammar).passes,
            (FirstSets.compute grammar).sets) := by
  have wellFormed := GrammarBuilder.wellFormed_of_build built
  have begins_iff : ∀ {form : List SymbolId} {terminal : SymbolId},
      terminal ≠ emptyString →
        (grammar.Begins form terminal ↔ grammar.IsTerminal terminal ∧
          ∃ rest, grammar.Derives form (terminal :: rest)) := by
    intro form terminal notEmpty
    simp [Grammar.Begins, notEmpty]
  refine ⟨fun symbol terminal notEmpty => ?_, fun symbol => ?_,
    fun symbols terminal notEmpty => ?_, fun symbols => ?_, fun more => ?_⟩
  · rw [contains_get_iff wellFormed, begins_iff notEmpty]
  · rw [contains_get_iff wellFormed, Grammar.begins_emptyString]
  · rw [contains_ofSequence_iff wellFormed, begins_iff notEmpty]
  · rw [contains_ofSequence_iff wellFormed, Grammar.begins_emptyString]
  · obtain ⟨size, below, -⟩ := @initial_spec grammar
    exact repeatRounds_passes size below
      (fun sets isSize _ => (widens_pass wellFormed sets isSize).1) more

/-- The start symbol of the sample grammar derives its terminal, so FIRST has it. -/
theorem compute_exact_sample :
    sampleBuilder.build = .ok sampleGrammar ∧
      ((FirstSets.compute sampleGrammar).get 3).contains 4 = true := by
  have isRule : sampleGrammar.rule 0 ∈ sampleGrammar.allRules :=
    List.mem_cons_self
  have derives : sampleGrammar.Derives (spelled [3]) [4] :=
    Grammar.derives_rule isRule
  exact ⟨build_sampleBuilder,
    ((compute_exact build_sampleBuilder).1 3 4 (by decide)).mpr
      ⟨⟨by decide, by decide⟩, [], derives⟩⟩

end FirstSets

end SpanForest
