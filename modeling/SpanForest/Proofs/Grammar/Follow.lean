import SpanForest.Proofs.Grammar.First

namespace SpanForest

/-!
# FOLLOW is exact

FOLLOW of a nonterminal holds a terminal exactly if some nonterminal derives a
form in which the terminal stands directly behind the nonterminal. A pass puts
nothing else into the sets, because its trailer holds only what can stand behind
the position that it has come to. Nothing is missing, because the sets are closed:
in every form that is derived, a nonterminal has in FOLLOW what trails behind it,
and a rule that rewrites the form changes neither side of that.
-/

namespace Grammar

/-- A terminal stands directly behind a form in what some nonterminal derives. -/
structure FollowedBy
    (grammar : Grammar)
    (form : List SymbolId)
    (terminal : SymbolId) : Prop where
  isTerminal : grammar.IsTerminal terminal
  notEmpty : terminal ≠ emptyString
  derived :
    ∃ origin before after, grammar.isNonterminal origin = true ∧
      grammar.Derives [origin] (before ++ (form ++ terminal :: after))

namespace FollowedBy

variable {grammar : Grammar} {form other : List SymbolId} {terminal : SymbolId}

/-- What follows a form follows what the form derives. -/
theorem of_derives
    (derives : grammar.Derives form other)
    (followed : grammar.FollowedBy form terminal) :
    grammar.FollowedBy other terminal := by
  obtain ⟨isTerminal, notEmpty, origin, before, after, nonterminal, reaches⟩ :=
    followed
  refine ⟨isTerminal, notEmpty, origin, before, after, nonterminal, ?_⟩
  exact reaches.trans (derives.within before (terminal :: after))

/-- What follows two strings in a row follows the second one. -/
theorem of_append
    (followed : grammar.FollowedBy (form ++ other) terminal) :
    grammar.FollowedBy other terminal := by
  obtain ⟨isTerminal, notEmpty, origin, before, after, nonterminal, reaches⟩ :=
    followed
  refine ⟨isTerminal, notEmpty, origin, before ++ form, after, nonterminal, ?_⟩
  simpa only [List.append_assoc] using reaches

/-- What begins the second of two strings in a row follows the first one. -/
theorem of_begins
    {origin : SymbolId}
    {rest : List SymbolId}
    (nonterminal : grammar.isNonterminal origin = true)
    (derives : grammar.Derives [origin] (form ++ (other ++ rest)))
    (notEmpty : terminal ≠ emptyString)
    (begins : grammar.Begins other terminal) :
    grammar.FollowedBy form terminal := by
  obtain ⟨isEmpty, -⟩ | ⟨-, isTerminal, after, leads⟩ := begins
  · exact absurd isEmpty notEmpty
  · refine ⟨isTerminal, notEmpty, origin, [], after ++ rest, nonterminal, ?_⟩
    simpa using derives.trans (leads.within form rest)

end FollowedBy

namespace WellFormed

variable {grammar : Grammar} (wellFormed : grammar.WellFormed)
include wellFormed

/-- In the root rule, the end of the input stands behind the start symbol. -/
theorem endOfInput_follows_start :
    grammar.FollowedBy [grammar.start] endOfInput := by
  obtain ⟨rootInside, endTerminal, -, rootNonterminal⟩ := wellFormed.reserved
  have startNotEmpty := wellFormed.ne_emptyString wellFormed.start_nonterminal.1
  have isSpelled : spelled grammar.rootRule.symbols =
      [grammar.start, endOfInput] := by
    change spelled [grammar.start, endOfInput] = _
    rw [spelled_cons, spelled_singleton startNotEmpty]
    rfl
  have derives := derives_rule (mem_allRules.mpr (.inr rfl) :
    grammar.rootRule ∈ grammar.allRules)
  rw [isSpelled] at derives
  exact {
    isTerminal := ⟨Nat.lt_of_le_of_lt (Nat.zero_le _) rootInside, endTerminal⟩
    notEmpty := by decide
    derived := ⟨rootSymbol, [], [], rootNonterminal, derives⟩
  }

end WellFormed

end Grammar

section Sound

variable {grammar : Grammar} {sets : Array BitSet} {changed : Bool}

/-- Every member of a set follows the set's symbol, which is a nonterminal. -/
def MembersFollow (grammar : Grammar) (sets : Array BitSet) : Prop :=
  ∀ symbol member, (setAt sets symbol).contains member = true →
    grammar.isNonterminal symbol = true ∧ grammar.FollowedBy [symbol] member

variable (wellFormed : grammar.WellFormed)
include wellFormed

/--
What a right-hand side, read backwards, adds to FOLLOW follows its nonterminals.

The left-hand side derives what is still to be read and something behind it, and
the trailer holds only what follows the string still to be read.
-/
theorem membersFollow_addFollow
    (follow : MembersFollow grammar sets)
    {lhs : SymbolId}
    (nonterminal : grammar.isNonterminal lhs = true)
    (symbols : List SymbolId)
    {rest : List SymbolId}
    (derives : grammar.Derives [lhs] (spelled symbols.reverse ++ rest))
    {trailer : BitSet}
    (trailing : ∀ member, trailer.contains member = true →
      grammar.FollowedBy (spelled symbols.reverse) member) :
    MembersFollow grammar
      (addFollow grammar (FirstSets.compute grammar) trailer symbols
        (changed, sets)).2 := by
  induction symbols generalizing changed sets rest trailer with
  | nil => exact follow
  | cons symbol before inductionHypothesis =>
      rw [List.reverse_cons, spelled_append] at derives trailing
      unfold addFollow
      simp only
      apply @inductionHypothesis _ _ ?follow (spelled [symbol] ++ rest) ?derives
        _ ?trailing
      case follow =>
        split
        · rename_i isNonterminal
          rw [spelled_singleton (wellFormed.ne_emptyString isNonterminal)]
            at trailing
          intro other member held
          rcases contains_setIfInBounds held with ⟨rfl, added⟩ | old
          · rw [BitSet.contains_union, Bool.or_eq_true] at added
            rcases added with old | new
            · exact follow other member old
            · exact ⟨isNonterminal, (trailing member new).of_append⟩
          · exact follow other member old
        · exact follow
      case derives =>
        simpa only [List.append_assoc] using derives
      case trailing =>
        intro member held
        rw [BitSet.contains_unionExcept, Bool.or_eq_true, Bool.and_eq_true,
          bne_iff_ne] at held
        rcases held with old | ⟨begins, notEmpty⟩
        · split at old
          · rename_i isNullable
            have vanishes := Grammar.begins_emptyString.mp
              ((FirstSets.contains_get_iff wellFormed symbol).mp isNullable)
            apply Grammar.FollowedBy.of_derives _ (trailing member old)
            simpa using vanishes.within (spelled before.reverse) []
          · rw [BitSet.contains_clear] at old
            cases old
        · rw [List.append_assoc] at derives
          exact .of_begins nonterminal derives notEmpty
            ((FirstSets.contains_get_iff wellFormed symbol).mp begins)

/-- A pass over rules adds only what follows. -/
theorem membersFollow_followPass
    (follow : MembersFollow grammar sets)
    (rules : List Rule)
    (known : ∀ rule ∈ rules, rule ∈ grammar.allRules) :
    MembersFollow grammar
      (rules.foldl
        (fun state rule =>
          addFollow grammar (FirstSets.compute grammar)
            (setAt state.2 rule.lhs) rule.symbols.reverse state)
        (changed, sets)).2 := by
  induction rules generalizing changed sets with
  | nil => exact follow
  | cons rule rest inductionHypothesis =>
      have isRule := known rule List.mem_cons_self
      have derives := Grammar.derives_rule isRule
      have isRead : grammar.Derives [rule.lhs]
          (spelled rule.symbols.reverse.reverse ++ []) := by
        simpa using derives
      apply inductionHypothesis _
        fun other member => known other (List.mem_cons_of_mem _ member)
      apply membersFollow_addFollow wellFormed follow
        (wellFormed.isNonterminal_lhs isRule) rule.symbols.reverse isRead
      intro member held
      rw [List.reverse_reverse]
      exact (follow rule.lhs member held).2.of_derives derives

end Sound

namespace FollowSets

variable {grammar : Grammar}

section WellFormed

variable (wellFormed : grammar.WellFormed)
include wellFormed

/-- Everything in FOLLOW of a symbol follows it, and the symbol is a nonterminal. -/
theorem membersFollow_compute :
    MembersFollow grammar
      (FollowSets.compute grammar (FirstSets.compute grammar)).sets := by
  have steps : ∀ sets : Array BitSet, MembersFollow grammar sets →
      MembersFollow grammar
        (followPass grammar (FirstSets.compute grammar) sets).2 :=
    fun sets follow => membersFollow_followPass wellFormed follow
      grammar.allRules fun _ => id
  have startNonterminal := wellFormed.start_nonterminal.1
  have starts : MembersFollow grammar (FollowSets.initial grammar) := by
    intro symbol member held
    obtain ⟨-, -, content⟩ := FollowSets.initial_spec
      (Grammar.lt_numSymbols_of_isNonterminal startNonterminal)
    obtain ⟨rfl, rfl⟩ := (content symbol member).mp held
    exact ⟨startNonterminal, wellFormed.endOfInput_follows_start⟩
  exact repeatRounds_induction (motive := MembersFollow grammar) steps
    (grammar.numSymbols * grammar.numSymbols + 1) starts

variable {form other before after : List SymbolId} {symbol member : SymbolId}
variable {trailer : BitSet}

/-- What trails behind a form trails behind whatever is rewritten to it. -/
theorem trails_of_rewrites
    (rewrites : grammar.Rewrites form other)
    (trails : (FirstSets.compute grammar).Trails other trailer member) :
    (FirstSets.compute grammar).Trails form trailer member := by
  have kept := fun {terminal : SymbolId} =>
    @FirstSets.contains_of_rewrites grammar form other terminal wellFormed rewrites
  exact trails.imp (fun ⟨notEmpty, begins⟩ => ⟨notEmpty, kept begins⟩)
    (fun ⟨vanishes, behind⟩ => ⟨kept vanishes, behind⟩)

/-- A nonterminal of a right-hand side has what trails behind it as it is spelled. -/
theorem contains_of_trails_spelled
    {rule : Rule}
    (isRule : rule ∈ grammar.allRules)
    (isWhole : spelled rule.symbols = before ++ symbol :: after)
    (nonterminal : grammar.isNonterminal symbol = true)
    (trails : (FirstSets.compute grammar).Trails after
      ((FollowSets.compute grammar (FirstSets.compute grammar)).get rule.lhs)
      member) :
    ((FollowSets.compute grammar (FirstSets.compute grammar)).get
      symbol).contains member = true := by
  obtain ⟨left, rest, isSymbols, -, isRest⟩ :=
    List.filter_eq_append_iff.mp isWhole
  obtain ⟨empties, right, rfl, -, -, isRight⟩ :=
    List.filter_eq_cons_iff.mp isRest
  have spells := FirstSets.contains_ofSequence_spelled
    (FirstSets.contains_get_emptyString wellFormed) right
  have isSpelled : spelled right = after := isRight
  rw [isSpelled] at spells
  apply (closed_compute wellFormed).2 rule isRule (left ++ empties) symbol right
    (by simp [isSymbols]) nonterminal
  simpa only [FirstSets.Trails, spells] using trails

/--
In a form that is derived, a nonterminal has in FOLLOW what trails behind it and
then behind the symbol from which the form is derived.

The induction is on the derivation. A rule that rewrites a symbol right of the
nonterminal adds nothing to what trails; where the nonterminal itself comes from
the right-hand side, FOLLOW is closed under the rule.
-/
theorem contains_of_trails
    {origin : SymbolId}
    (derives : grammar.Derives [origin] form)
    (isForm : form = before ++ symbol :: after)
    (nonterminal : grammar.isNonterminal symbol = true)
    (trails : (FirstSets.compute grammar).Trails after
      ((FollowSets.compute grammar (FirstSets.compute grammar)).get origin)
      member) :
    ((FollowSets.compute grammar (FirstSets.compute grammar)).get
      symbol).contains member = true := by
  induction derives generalizing before symbol after with
  | refl =>
      obtain ⟨rfl, rfl, rfl⟩ : before = [] ∧ symbol = origin ∧ after = [] := by
        cases before <;> simp_all
      exact (FirstSets.trails_nil _).mp trails
  | tail _ rewrites inductionHypothesis =>
      cases rewrites with
      | @rule rule left right isRule =>
          rcases mem_parts_of_append isForm with
            ⟨rest, isLeft, rfl⟩ | ⟨rest, rfl, isBehind⟩
          -- The nonterminal stands left of what was rewritten.
          · apply @inductionHypothesis before (rest ++ rule.lhs :: right) symbol
              (by simp [isLeft]) nonterminal
            exact trails_of_rewrites wellFormed (.rule rest right isRule) trails
          rcases mem_parts_of_append isBehind with
            ⟨behind, isSpelled, rfl⟩ | ⟨between, rfl, isRight⟩
          -- It comes from the right-hand side.
          · apply contains_of_trails_spelled wellFormed isRule isSpelled
              nonterminal
            refine ((FirstSets.trails_append _).mp trails).imp_right ?_
            rintro ⟨vanishes, trailing⟩
            exact ⟨vanishes, @inductionHypothesis left right rule.lhs rfl
              (wellFormed.isNonterminal_lhs isRule) trailing⟩
          -- It stands right of what was rewritten.
          · exact @inductionHypothesis (left ++ rule.lhs :: between) after symbol
              (by simp [isRight]) nonterminal trails

/-- A terminal that follows a nonterminal is in its FOLLOW. -/
theorem contains_of_derives
    {origin terminal : SymbolId}
    (nonterminal : grammar.isNonterminal symbol = true)
    (isTerminal : grammar.IsTerminal terminal)
    (notEmpty : terminal ≠ emptyString)
    (derives :
      grammar.Derives [origin] (before ++ symbol :: terminal :: after)) :
    ((FollowSets.compute grammar (FirstSets.compute grammar)).get
      symbol).contains terminal = true := by
  apply contains_of_trails wellFormed derives rfl nonterminal
  refine .inl ⟨notEmpty, (FirstSets.contains_ofSequence_cons _).mpr (.inl ?_)⟩
  exact ⟨notEmpty, (FirstSets.compute_spec wellFormed).2.1 terminal isTerminal.1
    isTerminal.2⟩

end WellFormed

/--
FOLLOW is exact: a nonterminal has the terminals that stand directly behind it in
what some nonterminal derives. The empty string is in no FOLLOW set, terminals have
empty ones, and the passes that compute the sets end by themselves.
-/
theorem follow_exact
    {builder : GrammarBuilder}
    (built : builder.build = .ok grammar) :
    (∀ symbol terminal, grammar.isNonterminal symbol = true →
      terminal ≠ emptyString →
        (((FollowSets.compute grammar (FirstSets.compute grammar)).get
            symbol).contains terminal = true ↔
          grammar.IsTerminal terminal ∧
            ∃ origin before after, grammar.isNonterminal origin = true ∧
              grammar.Derives [origin]
                (before ++ symbol :: terminal :: after))) ∧
      (∀ symbol,
        ((FollowSets.compute grammar (FirstSets.compute grammar)).get
          symbol).contains emptyString = false) ∧
      (∀ symbol, grammar.isNonterminal symbol = false → ∀ member,
        ((FollowSets.compute grammar (FirstSets.compute grammar)).get
          symbol).contains member = false) ∧
      ∃ passes, ∀ more,
        repeatRounds (followPass grammar (FirstSets.compute grammar))
            (grammar.numSymbols * grammar.numSymbols + 1 + more)
            (FollowSets.initial grammar) =
          (passes,
            (FollowSets.compute grammar (FirstSets.compute grammar)).sets) := by
  have wellFormed := GrammarBuilder.wellFormed_of_build built
  have sound := membersFollow_compute wellFormed
  refine ⟨?exact, ?noEmpty, ?noTerminal, ?ends⟩
  case exact =>
    intro symbol terminal nonterminal notEmpty
    constructor
    · intro held
      obtain ⟨isTerminal, -, derived⟩ := (sound symbol terminal held).2
      exact ⟨isTerminal, derived⟩
    · rintro ⟨isTerminal, origin, before, after, -, derives⟩
      exact contains_of_derives wellFormed nonterminal isTerminal notEmpty derives
  case noEmpty =>
    intro symbol
    apply Bool.eq_false_iff.mpr
    intro held
    exact (sound symbol emptyString held).2.notEmpty rfl
  case noTerminal =>
    intro symbol terminal member
    apply Bool.eq_false_iff.mpr
    intro held
    rw [(sound symbol member held).1] at terminal
    cases terminal
  case ends =>
    obtain ⟨size, below, -⟩ := FollowSets.initial_spec
      (Grammar.lt_numSymbols_of_isNonterminal wellFormed.start_nonterminal.1)
    have same := repeatRounds_passes size below fun sets isSize isBelow =>
      (widens_pass wellFormed sets isSize isBelow).1
    exact ⟨_, same⟩

/-- In `S → A B y` with `B → ε`, the terminal `y` follows `A`. -/
theorem follow_exact_suffix :
    suffixBuilder.build = .ok suffixGrammar ∧
      ((FollowSets.compute suffixGrammar
        (FirstSets.compute suffixGrammar)).get 4).contains 7 = true := by
  have behind := (follow_exact build_suffixBuilder).1 4 7 rfl (by decide)
  exact ⟨build_suffixBuilder,
    behind.mpr ⟨⟨by decide, rfl⟩, 3, [], [], rfl, suffixGrammar_derives⟩⟩

end FollowSets

end SpanForest
