import Mathlib.Logic.Relation
import SpanForest.Proofs.Grammar.WellFormed

namespace SpanForest

/-!
# Sentential forms

Rules rewrite strings of symbols, the root rule among them. The symbol `ε` stands
for the empty string, so it is left out wherever it is written: a rule with the
right-hand side `ε` makes its left-hand side vanish.
-/

/-- A string of symbols in which the empty string is written as nothing. -/
def spelled (symbols : List SymbolId) : List SymbolId :=
  symbols.filter (· != emptyString)

@[simp] theorem spelled_nil : spelled [] = [] :=
  rfl

theorem spelled_append (left right : List SymbolId) :
    spelled (left ++ right) = spelled left ++ spelled right :=
  List.filter_append ..

theorem spelled_cons (symbol : SymbolId) (rest : List SymbolId) :
    spelled (symbol :: rest) = spelled [symbol] ++ spelled rest :=
  spelled_append [symbol] rest

@[simp] theorem spelled_emptyString : spelled [emptyString] = [] :=
  rfl

theorem spelled_singleton
    {symbol : SymbolId}
    (notEmpty : symbol ≠ emptyString) :
    spelled [symbol] = [symbol] := by
  simp [spelled, notEmpty]

/-- A symbol of two strings in a row stands in one of them. -/
theorem mem_parts_of_append
    {left right before after : List SymbolId}
    {symbol : SymbolId}
    (same : left ++ right = before ++ symbol :: after) :
    (∃ rest, left = before ++ symbol :: rest ∧ after = rest ++ right) ∨
      ∃ rest, before = left ++ rest ∧ right = rest ++ symbol :: after := by
  rcases List.append_eq_append_iff.mp same with
    ⟨rest, isBefore, isRight⟩ | ⟨rest, isLeft, isRest⟩
  · exact .inr ⟨rest, isBefore, isRight⟩
  · cases rest with
    | nil => exact .inr ⟨[], by simpa using isLeft.symm, by simpa using isRest.symm⟩
    | cons head rest =>
        cases isRest
        exact .inl ⟨rest, isLeft, rfl⟩

namespace Grammar

/-- The empty string is not a nonterminal. -/
theorem WellFormed.ne_emptyString
    {grammar : Grammar}
    (wellFormed : grammar.WellFormed)
    {symbol : SymbolId}
    (nonterminal : grammar.isNonterminal symbol = true) :
    symbol ≠ emptyString := by
  rintro rfl
  rw [wellFormed.reserved.2.2.1] at nonterminal
  cases nonterminal

/-- A symbol of the grammar that no rule rewrites. -/
def IsTerminal (grammar : Grammar) (symbol : SymbolId) : Prop :=
  symbol < grammar.numSymbols ∧ grammar.isNonterminal symbol = false

/-- A rule rewrites one symbol of a sentential form. -/
inductive Rewrites (grammar : Grammar) : List SymbolId → List SymbolId → Prop where
  | rule {rule : Rule} (before after : List SymbolId) :
      rule ∈ grammar.allRules →
      Rewrites grammar (before ++ rule.lhs :: after)
        (before ++ (spelled rule.symbols ++ after))

/-- Rules rewrite a sentential form into another, in any number of steps. -/
abbrev Derives (grammar : Grammar) : List SymbolId → List SymbolId → Prop :=
  Relation.ReflTransGen grammar.Rewrites

variable {grammar : Grammar} {form other : List SymbolId}

theorem Rewrites.within
    (rewrites : grammar.Rewrites form other)
    (before after : List SymbolId) :
    grammar.Rewrites (before ++ (form ++ after)) (before ++ (other ++ after)) := by
  cases rewrites with
  | @rule rule left right member =>
      have rewritten :=
        @Rewrites.rule grammar rule (before ++ left) (right ++ after) member
      simpa only [List.append_assoc, List.cons_append] using rewritten

/-- What derives something does so wherever it stands. -/
theorem Derives.within
    (derives : grammar.Derives form other)
    (before after : List SymbolId) :
    grammar.Derives (before ++ (form ++ after)) (before ++ (other ++ after)) := by
  induction derives with
  | refl => exact .refl
  | tail _ rewrites derived => exact derived.tail (rewrites.within before after)

/-- Strings derive what their parts derive. -/
theorem Derives.append
    {left right leftTo rightTo : List SymbolId}
    (first : grammar.Derives left leftTo)
    (second : grammar.Derives right rightTo) :
    grammar.Derives (left ++ right) (leftTo ++ rightTo) := by
  have begun := first.within [] right
  have ended := second.within leftTo []
  simp only [List.nil_append, List.append_nil] at begun ended
  exact begun.trans ended

/-- A left-hand side derives its right-hand side. -/
theorem derives_rule
    {rule : Rule}
    (member : rule ∈ grammar.allRules) :
    grammar.Derives [rule.lhs] (spelled rule.symbols) := by
  have rewritten := @Rewrites.rule grammar rule [] [] member
  simp only [List.nil_append, List.append_nil] at rewritten
  exact .single rewritten

/-- The empty string derives nothing else. -/
theorem eq_nil_of_derives_nil
    (derives : grammar.Derives [] form) :
    form = [] := by
  induction derives with
  | refl => rfl
  | tail _ rewrites isNil =>
      subst isNil
      generalize isForm : ([] : List SymbolId) = empty at rewrites
      cases rewrites with
      | rule before after member => simp at isForm

/--
A form that is derived has symbols of the grammar only, and writes the empty string
as nothing.
-/
theorem WellFormed.known_of_derives
    (wellFormed : grammar.WellFormed)
    (derives : grammar.Derives form other)
    (known : ∀ symbol ∈ form,
      symbol < grammar.numSymbols ∧ symbol ≠ emptyString) :
    ∀ symbol ∈ other, symbol < grammar.numSymbols ∧ symbol ≠ emptyString := by
  induction derives with
  | refl => exact known
  | tail _ rewrites inductionHypothesis =>
      cases rewrites with
      | @rule rule before after isRule =>
          intro symbol member
          rcases List.mem_append.mp member with left | member
          · exact inductionHypothesis symbol (List.mem_append_left _ left)
          rcases List.mem_append.mp member with own | right
          · obtain ⟨named, notEmpty⟩ := List.mem_filter.mp own
            exact ⟨wellFormed.symbol_lt_numSymbols isRule named,
              bne_iff_ne.mp notEmpty⟩
          · exact inductionHypothesis symbol (by simp [right])

end Grammar

section Suffix

/-- The declarations of a grammar in which a symbol inside a rule vanishes. -/
def suffixBuilder : GrammarBuilder where
  terminals := ["x", "y"]
  rules :=
    [⟨"S", [⟨"A", none, none⟩, ⟨"B", none, none⟩, ⟨"y", none, none⟩],
        0, none, none⟩,
      ⟨"A", [⟨"x", none, none⟩], 0, none, none⟩,
      ⟨"B", [], 0, none, none⟩]
  predicates := Alphabet.empty
  start := some "S"
  defaultGreedy := none
  defaultWeight := none
  synthesized := []
  outputs := []

/-- The grammar `S → A B y`, `A → x`, `B → ε` in numbers. -/
def suffixGrammar : Grammar where
  symbols :=
    #[⟨"$", false⟩, ⟨"ε", false⟩, ⟨"S'", true⟩, ⟨"S", true⟩, ⟨"A", true⟩,
      ⟨"B", true⟩, ⟨"x", false⟩, ⟨"y", false⟩]
  rules :=
    #[⟨0, 3, [⟨4, none, none⟩, ⟨5, none, none⟩, ⟨7, none, none⟩],
        0, 1.0, false⟩,
      ⟨1, 4, [⟨6, none, none⟩], 0, 1.0, false⟩,
      ⟨2, 5, [.plain emptyString], 0, 1.0, false⟩]
  start := 3
  predicates := Alphabet.empty
  synthesized := []
  outputs := BitSet.ofList []

/-- Building the declarations yields the grammar. -/
theorem build_suffixBuilder :
    suffixBuilder.build = .ok suffixGrammar := by
  simp [suffixBuilder, suffixGrammar, GrammarBuilder.build,
    GrammarBuilder.addNonterminals, GrammarBuilder.addTerminals,
    GrammarBuilder.addSynthesized, GrammarBuilder.checkOperands,
    GrammarBuilder.resolveRules, GrammarBuilder.resolveRule,
    GrammarBuilder.resolveElement, GrammarBuilder.resolveStart,
    requireSymbol, addSymbol, findSymbol?, reservedSymbols, maxSymbols,
    List.findIdx?_cons, Alphabet.toList, Alphabet.empty, bind, Except.bind,
    pure, Except.pure]

/-- The start symbol derives `A y`, since `B` vanishes. -/
theorem suffixGrammar_derives : suffixGrammar.Derives [3] [4, 7] := by
  have isFirst : suffixGrammar.rule 0 ∈ suffixGrammar.allRules :=
    Grammar.mem_allRules.mpr (.inl (Grammar.rule_mem (by decide)))
  have isLast : suffixGrammar.rule 2 ∈ suffixGrammar.allRules :=
    Grammar.mem_allRules.mpr (.inl (Grammar.rule_mem (by decide)))
  have begun : suffixGrammar.Derives [3] [4, 5, 7] := Grammar.derives_rule isFirst
  have vanishes : suffixGrammar.Derives [5] [] := Grammar.derives_rule isLast
  exact begun.trans (vanishes.within [4] [7])

end Suffix

end SpanForest
