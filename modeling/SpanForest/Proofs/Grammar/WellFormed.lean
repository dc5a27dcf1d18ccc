import Mathlib.Data.List.Forall2
import SpanForest.Grammar.Builder

namespace SpanForest

/-!
# Well-formed grammars

What a grammar that was built promises: rules carry their own numbers, left-hand
sides are nonterminals of the user, and every symbol and predicate that is
named exists.
-/

/-- The promises of a built grammar. -/
structure Grammar.WellFormed (grammar : Grammar) : Prop where
  rule_id :
    ∀ {id : RuleId} {rule : Rule}, grammar.rules[id]? = some rule →
      rule.id = id
  lhs_nonterminal :
    ∀ {rule : Rule}, rule ∈ grammar.rules →
      grammar.isNonterminal rule.lhs = true ∧ rootSymbol < rule.lhs
  rhs_known :
    ∀ {rule : Rule}, rule ∈ grammar.rules → ∀ part ∈ rule.rhs,
      part.symbol < grammar.numSymbols
  rootIndex_lt :
    ∀ {rule : Rule}, rule ∈ grammar.rules → rule.rootIndex < rule.length
  rhs_predicate :
    ∀ {rule : Rule}, rule ∈ grammar.rules → ∀ part ∈ rule.rhs, ∀ id,
      part.predicate = some id → id < grammar.predicates.size
  operand_known :
    ∀ {id : PredicateId} {predicate : Predicate},
      grammar.predicates.get? id = some predicate →
        ∀ operand ∈ predicate.operands, operand < grammar.predicates.size
  start_nonterminal :
    grammar.isNonterminal grammar.start = true ∧ rootSymbol < grammar.start
  reserved :
    rootSymbol < grammar.numSymbols ∧
      grammar.isNonterminal endOfInput = false ∧
      grammar.isNonterminal emptyString = false ∧
      grammar.isNonterminal rootSymbol = true
  synthesized_terminal :
    ∀ {synthesized : Synthesized}, synthesized ∈ grammar.synthesized →
      grammar.isNonterminal synthesized.symbol = false ∧
        rootSymbol < synthesized.symbol ∧
        synthesized.symbol < grammar.numSymbols ∧
        synthesized.predicate < grammar.predicates.size
  synthesized_other :
    ∀ {synthesized : Synthesized}, synthesized ∈ grammar.synthesized →
      synthesized.base ≠ synthesized.symbol

namespace Grammar

variable {grammar : Grammar}

/-- A number below the number of rules is that of a user's rule. -/
theorem rule_mem
    {id : RuleId}
    (inside : id < grammar.rules.size) :
    grammar.rule id ∈ grammar.rules := by
  simp [rule, inside]

/-- The number behind the last user's rule is that of the root rule. -/
@[simp] theorem rule_size :
    grammar.rule grammar.rules.size = grammar.rootRule := by
  simp [rule]

/-- The user's rules and the root rule are all rules. -/
theorem mem_allRules
    {rule : Rule} :
    rule ∈ grammar.allRules ↔
      rule ∈ grammar.rules ∨ rule = grammar.rootRule := by
  simp [allRules]

/-- Rules for a symbol are all rules with that left-hand side. -/
theorem mem_rulesFor
    {rule : Rule}
    {lhs : SymbolId} :
    rule ∈ grammar.rulesFor lhs ↔
      rule ∈ grammar.allRules ∧ rule.lhs = lhs := by
  simp [rulesFor]

/-- A nonterminal is one of the grammar's symbols. -/
theorem lt_numSymbols_of_isNonterminal
    {symbol : SymbolId}
    (nonterminal : grammar.isNonterminal symbol = true) :
    symbol < grammar.numSymbols := by
  refine Decidable.byContradiction fun outside => ?_
  have missing : grammar.symbols[symbol]? = none := by
    simpa [numSymbols] using outside
  rw [isNonterminal, Array.getD_eq_getD_getElem?, missing] at nonterminal
  exact Bool.false_ne_true nonterminal

namespace WellFormed

/-- A rule is found under its own number, the root rule behind the others. -/
theorem rule_rule_id
    (wellFormed : grammar.WellFormed)
    {rule : Rule}
    (member : rule ∈ grammar.allRules) :
    grammar.rule rule.id = rule ∧ rule.id ≤ grammar.rules.size := by
  rcases mem_allRules.mp member with user | root
  · obtain ⟨id, stored⟩ := Array.getElem?_of_mem user
    have bound := (Array.getElem?_eq_some_iff.mp stored).1
    rw [wellFormed.rule_id stored]
    exact ⟨by simp [Grammar.rule, Array.getD_eq_getD_getElem?, stored],
      Nat.le_of_lt bound⟩
  · subst root
    exact ⟨rule_size, Nat.le_refl _⟩

/-- The rule found under a number has that number. -/
theorem id_rule
    (wellFormed : grammar.WellFormed)
    {id : RuleId}
    (inside : id ≤ grammar.rules.size) :
    (grammar.rule id).id = id := by
  rcases Nat.lt_or_eq_of_le inside with user | root
  · have stored := Array.getElem?_eq_getElem user
    rw [Grammar.rule, Array.getD_eq_getD_getElem?, stored]
    exact wellFormed.rule_id stored
  · subst root
    simp [rootRule]

/-- All rules are numbered from zero without gaps. -/
theorem map_id_allRules (wellFormed : grammar.WellFormed) :
    grammar.allRules.map (·.id) = List.range (grammar.rules.size + 1) := by
  apply List.ext_getElem?
  intro position
  simp only [allRules, List.map_append, List.map_cons, List.map_nil]
  rcases Nat.lt_trichotomy position grammar.rules.size with
    user | root | beyond
  · have stored := Array.getElem?_eq_getElem user
    have numbered := wellFormed.rule_id stored
    rw [List.getElem?_append_left (by simpa using user)]
    simp [stored, numbered, List.getElem?_range (Nat.lt_succ_of_lt user)]
  · subst root
    rw [List.getElem?_append_right (by simp)]
    simp [rootRule]
  · rw [List.getElem?_eq_none (by simp; omega),
      List.getElem?_eq_none (by simp; omega)]

/-- No right-hand side is without positions. -/
theorem length_pos
    (wellFormed : grammar.WellFormed)
    {rule : Rule}
    (member : rule ∈ grammar.allRules) :
    0 < rule.length := by
  rcases mem_allRules.mp member with user | root
  · exact Nat.zero_lt_of_lt (wellFormed.rootIndex_lt user)
  · subst root
    exact Nat.succ_pos 1

/-- Every left-hand side is a nonterminal. -/
theorem isNonterminal_lhs
    (wellFormed : grammar.WellFormed)
    {rule : Rule}
    (member : rule ∈ grammar.allRules) :
    grammar.isNonterminal rule.lhs = true := by
  rcases mem_allRules.mp member with user | root
  · exact (wellFormed.lhs_nonterminal user).1
  · subst root
    exact wellFormed.reserved.2.2.2

/-- Every symbol of a right-hand side is one of the grammar's symbols. -/
theorem symbol_lt_numSymbols
    (wellFormed : grammar.WellFormed)
    {rule : Rule}
    (member : rule ∈ grammar.allRules)
    {symbol : SymbolId}
    (named : symbol ∈ rule.symbols) :
    symbol < grammar.numSymbols := by
  obtain ⟨part, partMember, same⟩ := List.mem_map.mp named
  subst same
  rcases mem_allRules.mp member with user | root
  · exact wellFormed.rhs_known user part partMember
  · subst root
    have start := wellFormed.start_nonterminal.1
    have reserved := wellFormed.reserved.1
    rcases List.mem_cons.mp partMember with isStart | isEnd
    · subst isStart
      exact lt_numSymbols_of_isNonterminal start
    · have same := List.mem_singleton.mp isEnd
      subst same
      exact Nat.lt_trans (by decide) reserved

end WellFormed

end Grammar

/-- A step of a computation that may fail succeeds through its first part. -/
theorem Except.bind_eq_ok
    {ε α β : Type}
    {first : Except ε α}
    {next : α → Except ε β}
    {result : β} :
    (first >>= next) = .ok result ↔
      ∃ value, first = .ok value ∧ next value = .ok result := by
  cases first <;> simp [bind, Except.bind]

/-- Symbols keep their numbers, names and kinds when others are added. -/
def SymbolsExtend (before after : Array SymbolInfo) : Prop :=
  ∀ (id : SymbolId) (info : SymbolInfo),
    before[id]? = some info → after[id]? = some info

namespace SymbolsExtend

theorem refl (symbols : Array SymbolInfo) : SymbolsExtend symbols symbols :=
  fun _ _ stored => stored

theorem trans
    {first second third : Array SymbolInfo}
    (left : SymbolsExtend first second)
    (right : SymbolsExtend second third) :
    SymbolsExtend first third :=
  fun id info stored => right id info (left id info stored)

/-- A symbol of a larger list has the kind that it had. -/
theorem nonterminal_eq
    {before after : Array SymbolInfo}
    (extended : SymbolsExtend before after)
    {id : SymbolId}
    (inside : id < before.size) :
    id < after.size ∧
      (after.getD id default).nonterminal =
        (before.getD id default).nonterminal := by
  have stored := extended id before[id] (Array.getElem?_eq_getElem inside)
  obtain ⟨bound, same⟩ := Array.getElem?_eq_some_iff.mp stored
  refine ⟨bound, ?_⟩
  rw [Array.getD_eq_getD_getElem?, Array.getD_eq_getD_getElem?, stored,
    Array.getElem?_eq_getElem inside]

/-- The first symbol of a name stays the first one of that name. -/
theorem findSymbol?_eq
    {before after : Array SymbolInfo}
    (extended : SymbolsExtend before after)
    {name : String}
    {id : SymbolId}
    (found : findSymbol? before name = some id) :
    findSymbol? after name = some id := by
  obtain ⟨bound, named, earlier⟩ :=
    Array.findIdx?_eq_some_iff_getElem.mp found
  have stored := extended id before[id] (Array.getElem?_eq_getElem bound)
  obtain ⟨afterBound, same⟩ := Array.getElem?_eq_some_iff.mp stored
  refine Array.findIdx?_eq_some_iff_getElem.mpr
    ⟨afterBound, by rw [same]; exact named, ?_⟩
  intro other before_id
  have otherBound : other < before.size := by omega
  have otherStored :=
    extended other before[other] (Array.getElem?_eq_getElem otherBound)
  obtain ⟨_, otherSame⟩ := Array.getElem?_eq_some_iff.mp otherStored
  rw [otherSame]
  exact earlier other before_id

end SymbolsExtend

/-- A known name stands for a symbol of the list. -/
theorem lt_size_of_findSymbol?
    {symbols : Array SymbolInfo}
    {name : String}
    {id : SymbolId}
    (found : findSymbol? symbols name = some id) :
    id < symbols.size :=
  (Array.findIdx?_eq_some_iff_getElem.mp found).1

/-- Two names do not stand for one symbol. -/
theorem findSymbol?_injective
    {symbols : Array SymbolInfo}
    {left right : String}
    {id : SymbolId}
    (leftFound : findSymbol? symbols left = some id)
    (rightFound : findSymbol? symbols right = some id) :
    left = right := by
  obtain ⟨_, isLeft, -⟩ := Array.findIdx?_eq_some_iff_getElem.mp leftFound
  obtain ⟨_, isRight, -⟩ := Array.findIdx?_eq_some_iff_getElem.mp rightFound
  exact (eq_of_beq isLeft).symm.trans (eq_of_beq isRight)

/-- The symbol of a name is found once the name was added, with its kind. -/
theorem addSymbol_spec
    {symbols extended : Array SymbolInfo}
    {name : String}
    {nonterminal : Bool}
    {id : SymbolId}
    (reserved : rootSymbol < symbols.size)
    (added : addSymbol symbols name nonterminal = .ok (id, extended)) :
    SymbolsExtend symbols extended ∧
      symbols.size ≤ extended.size ∧
      findSymbol? extended name = some id ∧
      rootSymbol < id ∧
      (extended.getD id default).nonterminal = nonterminal := by
  unfold addSymbol at added
  split at added
  · rename_i known found
    split at added
    · rename_i fits
      cases added
      exact ⟨.refl _, Nat.le_refl _, found, fits.2, fits.1⟩
    · cases added
  · rename_i unknown
    split at added
    · cases added
    · cases added
      refine ⟨?_, by simp, ?_, reserved, by simp⟩
      · intro id info stored
        obtain ⟨bound, same⟩ := Array.getElem?_eq_some_iff.mp stored
        rw [Array.getElem?_push_lt bound, same]
      · refine Array.findIdx?_eq_some_iff_getElem.mpr
          ⟨by simp, by simp, ?_⟩
        intro other earlier
        have absent := Array.findIdx?_eq_none_iff.mp unknown
        rw [Array.getElem_push_lt earlier]
        simpa using absent _ (Array.getElem_mem earlier)

/-- A required name is the name of a symbol. -/
theorem findSymbol?_of_requireSymbol
    {symbols : Array SymbolInfo}
    {name : String}
    {id : SymbolId}
    (required : requireSymbol symbols name = .ok id) :
    findSymbol? symbols name = some id := by
  unfold requireSymbol at required
  split at required
  · rename_i found
    cases required
    exact found
  · cases required

namespace GrammarBuilder

variable {builder : GrammarBuilder}

/-- A required predicate number was handed out. -/
theorem lt_size_of_requirePredicate
    {id : PredicateId}
    (required : builder.requirePredicate id = .ok ()) :
    id < builder.predicates.size := by
  unfold requirePredicate at required
  split at required
  · assumption
  · cases required

/-- The left-hand sides of rules become nonterminals of the user. -/
theorem addNonterminals_spec
    {drafts : List RuleDraft}
    {symbols extended : Array SymbolInfo}
    (reserved : rootSymbol < symbols.size)
    (added : builder.addNonterminals drafts symbols = .ok extended) :
    SymbolsExtend symbols extended ∧
      symbols.size ≤ extended.size ∧
      ∀ draft ∈ drafts, ∃ id,
        findSymbol? extended draft.lhs = some id ∧
          rootSymbol < id ∧
          (extended.getD id default).nonterminal = true := by
  induction drafts generalizing symbols with
  | nil =>
      cases added
      exact ⟨.refl _, Nat.le_refl _, by simp⟩
  | cons draft rest inductionHypothesis =>
      unfold addNonterminals at added
      split at added
      · cases added
      · obtain ⟨⟨id, next⟩, one, others⟩ := Except.bind_eq_ok.mp added
        obtain ⟨first, larger, found, proper, kind⟩ :=
          addSymbol_spec reserved one
        obtain ⟨later, largest, names⟩ :=
          inductionHypothesis (Nat.lt_of_lt_of_le reserved larger) others
        refine ⟨first.trans later, Nat.le_trans larger largest, ?_⟩
        intro other member
        rcases List.mem_cons.mp member with same | inRest
        · subst same
          have inside := lt_size_of_findSymbol? found
          exact ⟨id, later.findSymbol?_eq found, proper,
            (later.nonterminal_eq inside).2.trans kind⟩
        · exact names other inRest

/-- Declared terminals become symbols of the user. -/
theorem addTerminals_spec
    {names : List String}
    {symbols extended : Array SymbolInfo}
    (reserved : rootSymbol < symbols.size)
    (added : addTerminals names symbols = .ok extended) :
    SymbolsExtend symbols extended ∧
      symbols.size ≤ extended.size ∧
      ∀ name ∈ names, ∃ id,
        findSymbol? extended name = some id ∧ rootSymbol < id := by
  induction names generalizing symbols with
  | nil =>
      cases added
      exact ⟨.refl _, Nat.le_refl _, by simp⟩
  | cons name rest inductionHypothesis =>
      obtain ⟨⟨id, next⟩, one, others⟩ := Except.bind_eq_ok.mp added
      obtain ⟨first, larger, found, proper, -⟩ := addSymbol_spec reserved one
      obtain ⟨later, largest, known⟩ :=
        inductionHypothesis (Nat.lt_of_lt_of_le reserved larger) others
      refine ⟨first.trans later, Nat.le_trans larger largest, ?_⟩
      intro other member
      rcases List.mem_cons.mp member with rfl | inRest
      · exact ⟨id, later.findSymbol?_eq found, proper⟩
      · exact known other inRest

/-- Synthesized terminals are terminals of the user on known predicates. -/
theorem addSynthesized_spec
    {drafts : List SynthesizedDraft}
    {symbols extended : Array SymbolInfo}
    {made : List Synthesized}
    (reserved : rootSymbol < symbols.size)
    (added :
      builder.addSynthesized drafts symbols = .ok (made, extended)) :
    SymbolsExtend symbols extended ∧
      symbols.size ≤ extended.size ∧
      (∀ synthesized ∈ made,
        (extended.getD synthesized.symbol default).nonterminal = false ∧
          rootSymbol < synthesized.symbol ∧
          synthesized.symbol < extended.size ∧
          synthesized.predicate < builder.predicates.size ∧
          synthesized.base ≠ synthesized.symbol) ∧
      ∀ draft ∈ drafts, ∃ id,
        findSymbol? extended draft.name = some id ∧ rootSymbol < id := by
  induction drafts generalizing symbols made with
  | nil =>
      cases added
      exact ⟨.refl _, Nat.le_refl _, by simp, by simp⟩
  | cons draft rest inductionHypothesis =>
      unfold addSynthesized at added
      split at added
      · cases added
      · rename_i accepted
        obtain ⟨_, required, added⟩ := Except.bind_eq_ok.mp added
        obtain ⟨⟨base, withBase⟩, one, added⟩ := Except.bind_eq_ok.mp added
        obtain ⟨⟨symbol, withBoth⟩, two, added⟩ := Except.bind_eq_ok.mp added
        obtain ⟨⟨others, all⟩, three, added⟩ := Except.bind_eq_ok.mp added
        cases added
        obtain ⟨first, larger, baseFound, -⟩ := addSymbol_spec reserved one
        have reservedBase := Nat.lt_of_lt_of_le reserved larger
        obtain ⟨second, larger', found, proper, kind⟩ :=
          addSymbol_spec reservedBase two
        obtain ⟨third, largest, rest, known⟩ :=
          inductionHypothesis (Nat.lt_of_lt_of_le reservedBase larger') three
        refine ⟨(first.trans second).trans third,
          Nat.le_trans larger (Nat.le_trans larger' largest), ?_, ?_⟩
        · intro synthesized member
          rcases List.mem_cons.mp member with same | inRest
          · subst same
            have inside := lt_size_of_findSymbol? found
            obtain ⟨bound, sameKind⟩ := third.nonterminal_eq inside
            refine ⟨sameKind.trans kind, proper, bound,
              lt_size_of_requirePredicate required, ?_⟩
            rintro (rfl : base = symbol)
            exact accepted (.inl (findSymbol?_injective found
              (second.findSymbol?_eq baseFound)))
          · exact rest synthesized inRest
        · intro other member
          rcases List.mem_cons.mp member with rfl | inRest
          · exact ⟨symbol, third.findSymbol?_eq found, proper⟩
          · exact known other inRest

/-- A position with what its author wrote there. -/
structure PartOf
    (symbols : Array SymbolInfo)
    (element : Element)
    (part : RhsSymbol) : Prop where
  symbol : findSymbol? symbols element.name = some part.symbol
  predicate : part.predicate = element.predicate
  label : part.label = element.label

/-- A resolved position names a known symbol and a known predicate. -/
theorem resolveElement_spec
    {symbols : Array SymbolInfo}
    {element : Element}
    {part : RhsSymbol}
    (resolved : builder.resolveElement symbols element = .ok part) :
    PartOf symbols element part ∧
      ∀ id, part.predicate = some id → id < builder.predicates.size := by
  obtain ⟨symbol, named, resolved⟩ := Except.bind_eq_ok.mp resolved
  obtain ⟨_, checked, resolved⟩ := Except.bind_eq_ok.mp resolved
  cases resolved
  refine ⟨⟨findSymbol?_of_requireSymbol named, rfl, rfl⟩, ?_⟩
  intro id same
  have given : element.predicate = some id := same
  rw [given] at checked
  exact lt_size_of_requirePredicate checked

/-- What is related piece by piece comes from one of the inputs. -/
theorem exists_of_forall₂
    {α β : Type}
    {relates : α → β → Prop}
    {inputs : List α}
    {results : List β}
    (each : List.Forall₂ relates inputs results) :
    ∀ result ∈ results, ∃ input ∈ inputs, relates input result := by
  induction each with
  | nil => simp
  | cons first _ inductionHypothesis =>
      intro result member
      rcases List.mem_cons.mp member with rfl | later
      · exact ⟨_, List.mem_cons_self, first⟩
      · obtain ⟨input, inputMember, related⟩ := inductionHypothesis result later
        exact ⟨input, List.mem_cons_of_mem _ inputMember, related⟩

/-- The results of a successful traversal are those of its inputs, in their order. -/
theorem forall₂_of_mapM_eq_ok
    {ε α β : Type}
    {resolve : α → Except ε β}
    {inputs : List α}
    {results : List β}
    (resolved : inputs.mapM resolve = .ok results) :
    List.Forall₂ (fun input result => resolve input = .ok result) inputs results := by
  induction inputs generalizing results with
  | nil =>
      cases resolved
      exact .nil
  | cons input rest inductionHypothesis =>
      rw [List.mapM_cons] at resolved
      obtain ⟨result, one, resolved⟩ := Except.bind_eq_ok.mp resolved
      obtain ⟨others, more, resolved⟩ := Except.bind_eq_ok.mp resolved
      cases resolved
      exact .cons one (inductionHypothesis more)

/-- A rule with the symbols that its draft names, `ε` if it names none. -/
structure RuleOf
    (symbols : Array SymbolInfo)
    (draft : RuleDraft)
    (rule : Rule) : Prop where
  lhs : findSymbol? symbols draft.lhs = some rule.lhs
  rhs :
    (draft.rhs = [] ∧ rule.rhs = [.plain emptyString]) ∨
      draft.rhs ≠ [] ∧ List.Forall₂ (PartOf symbols) draft.rhs rule.rhs
  rootIndex : rule.rootIndex = draft.rootIndex

/-- What one resolved rule promises, given where its left-hand side leads. -/
structure ResolvedRule
    (builder : GrammarBuilder)
    (symbols : Array SymbolInfo)
    (rule : Rule) : Prop where
  lhs_nonterminal :
    (symbols.getD rule.lhs default).nonterminal = true ∧
      rootSymbol < rule.lhs
  rhs_known :
    ∀ part ∈ rule.rhs, part.symbol < symbols.size
  rootIndex_lt :
    rule.rootIndex < rule.length
  rhs_predicate :
    ∀ part ∈ rule.rhs, ∀ id,
      part.predicate = some id → id < builder.predicates.size

/-- A draft resolves to a rule that keeps the promises under the next number. -/
theorem resolveRule_spec
    {symbols : Array SymbolInfo}
    {id : RuleId}
    {draft : RuleDraft}
    {rule : Rule}
    (reserved : rootSymbol < symbols.size)
    (lhsKnown : ∃ lhs, findSymbol? symbols draft.lhs = some lhs ∧
      rootSymbol < lhs ∧ (symbols.getD lhs default).nonterminal = true)
    (resolved : builder.resolveRule symbols id draft = .ok rule) :
    rule.id = id ∧ ResolvedRule builder symbols rule ∧
      RuleOf symbols draft rule := by
  unfold resolveRule at resolved
  split at resolved
  · cases resolved
  · rename_i rootInside
    obtain ⟨rhs, parts, resolved⟩ := Except.bind_eq_ok.mp resolved
    obtain ⟨lhs, named, resolved⟩ := Except.bind_eq_ok.mp resolved
    cases resolved
    obtain ⟨known, found, proper, kind⟩ := lhsKnown
    have sameLhs : lhs = known := by
      have foundLhs := findSymbol?_of_requireSymbol named
      rw [found] at foundLhs
      exact (Option.some.inj foundLhs).symm
    subst sameLhs
    have each := (forall₂_of_mapM_eq_ok parts).imp
      fun _ _ one => resolveElement_spec one
    have foundLhs := findSymbol?_of_requireSymbol named
    cases draftRhs : draft.rhs with
    | nil =>
        rw [draftRhs] at each rootInside
        cases each
        have isRoot : draft.rootIndex < 1 := by
          simpa using rootInside
        refine ⟨rfl, ⟨⟨kind, proper⟩, ?_, isRoot, ?_⟩, foundLhs,
          .inl ⟨draftRhs, rfl⟩, rfl⟩
        · intro part member
          obtain rfl := List.mem_singleton.mp member
          exact Nat.lt_trans (by decide) reserved
        · intro part member id isPredicate
          obtain rfl := List.mem_singleton.mp member
          cases isPredicate
    | cons element rest =>
        rw [draftRhs] at each rootInside
        have sameLength := each.length_eq
        have nonempty : rhs.isEmpty = false := by
          cases each
          rfl
        rw [nonempty, if_neg Bool.false_ne_true]
        have known : ∀ part ∈ rhs, part.symbol < symbols.size ∧
            ∀ id, part.predicate = some id → id < builder.predicates.size := by
          intro part member
          obtain ⟨origin, -, isPart, predicate⟩ :=
            exists_of_forall₂ each part member
          exact ⟨lt_size_of_findSymbol? isPart.symbol, predicate⟩
        refine ⟨rfl, ⟨⟨kind, proper⟩, fun part member => (known part member).1,
          ?_, fun part member => (known part member).2⟩, foundLhs,
          .inr ⟨by simp [draftRhs], ?_⟩, rfl⟩
        · simp only [Rule.length, List.length_cons] at sameLength rootInside ⊢
          omega
        · rw [draftRhs]
          exact each.imp fun _ _ both => both.1

/-- Resolved rules are numbered in order and keep the promises. -/
theorem resolveRules_spec
    {symbols : Array SymbolInfo}
    {drafts : List RuleDraft}
    {rules : List Rule}
    {next : RuleId}
    (reserved : rootSymbol < symbols.size)
    (lhsKnown : ∀ draft ∈ drafts, ∃ lhs,
      findSymbol? symbols draft.lhs = some lhs ∧ rootSymbol < lhs ∧
        (symbols.getD lhs default).nonterminal = true)
    (resolved : builder.resolveRules symbols next drafts = .ok rules) :
    (∀ position rule, rules[position]? = some rule →
      rule.id = next + position) ∧
      (∀ rule ∈ rules, ResolvedRule builder symbols rule) ∧
      List.Forall₂ (RuleOf symbols) drafts rules := by
  induction drafts generalizing rules next with
  | nil =>
      cases resolved
      simp
  | cons draft rest inductionHypothesis =>
      obtain ⟨first, one, resolved⟩ := Except.bind_eq_ok.mp resolved
      obtain ⟨others, more, resolved⟩ := Except.bind_eq_ok.mp resolved
      cases resolved
      obtain ⟨firstId, firstOk, isRule⟩ :=
        resolveRule_spec reserved (lhsKnown draft List.mem_cons_self) one
      obtain ⟨ids, othersOk, areRules⟩ :=
        inductionHypothesis
          (fun other member => lhsKnown other (List.mem_cons_of_mem _ member))
          more
      refine ⟨?_, ?_, .cons isRule areRules⟩
      · intro position rule stored
        cases position with
        | zero =>
            simp only [List.getElem?_cons_zero, Option.some.injEq] at stored
            exact stored ▸ firstId
        | succ position =>
            rw [List.getElem?_cons_succ] at stored
            rw [ids position rule stored, Nat.add_assoc,
              Nat.add_comm 1 position]
      · intro rule member
        rcases List.mem_cons.mp member with same | later
        · exact same ▸ firstOk
        · exact othersOk rule later

/-- A resolved start symbol is a nonterminal of the user. -/
theorem resolveStart_spec
    {symbols : Array SymbolInfo}
    {name : String}
    {start : SymbolId}
    (resolved : resolveStart symbols name = .ok start) :
    (symbols.getD start default).nonterminal = true ∧
      rootSymbol < start := by
  obtain ⟨id, named, resolved⟩ := Except.bind_eq_ok.mp resolved
  split at resolved
  · rename_i proper
    cases resolved
    exact proper
  · cases resolved

/-- Checked operands were handed out. -/
theorem checkOperands_spec
    (checked : builder.checkOperands = .ok ())
    {id : PredicateId}
    {predicate : Predicate}
    (stored : builder.predicates.get? id = some predicate) :
    ∀ operand ∈ predicate.operands, operand < builder.predicates.size := by
  have each : ∀ ids : List PredicateId,
      ids.forM builder.requirePredicate = .ok () →
        ∀ id ∈ ids, id < builder.predicates.size := by
    intro ids
    induction ids with
    | nil =>
        simp
    | cons first rest inductionHypothesis =>
        intro checked
        obtain ⟨_, one, others⟩ := Except.bind_eq_ok.mp checked
        intro id member
        rcases List.mem_cons.mp member with same | later
        · exact same ▸ lt_size_of_requirePredicate one
        · exact inductionHypothesis others id later
  intro operand member
  refine each _ checked operand (List.mem_flatMap.mpr ⟨predicate, ?_, member⟩)
  have found := Array.mem_of_getElem? stored
  exact Array.mem_toList_iff.mpr found

/-- The tables through which a builder comes to a grammar. -/
structure Stages
    (builder : GrammarBuilder)
    (grammar : Grammar)
    (startName : String)
    (withLhs withTerminals : Array SymbolInfo) : Prop where
  start : builder.start = some startName
  lhsAdded :
    builder.addNonterminals builder.rules reservedSymbols = .ok withLhs
  terminalsAdded : addTerminals builder.terminals withLhs = .ok withTerminals
  synthesizedAdded :
    builder.addSynthesized builder.synthesized withTerminals =
      .ok (grammar.synthesized, grammar.symbols)
  operandsChecked : builder.checkOperands = .ok ()
  rulesResolved :
    builder.resolveRules grammar.symbols 0 builder.rules =
      .ok grammar.rules.toList
  startResolved : resolveStart grammar.symbols startName = .ok grammar.start
  predicates : grammar.predicates = builder.predicates

/-- A grammar that was built went through every stage. -/
theorem stages_of_build
    {grammar : Grammar}
    (built : builder.build = .ok grammar) :
    ∃ startName withLhs withTerminals,
      Stages builder grammar startName withLhs withTerminals := by
  unfold build at built
  cases named : builder.start with
  | none =>
    simp only [named] at built
    split at built <;> cases built
  | some startName =>
    simp only [named] at built
    split at built
    · cases built
    obtain ⟨chosen, isChosen, built⟩ := Except.bind_eq_ok.mp built
    obtain ⟨withLhs, lhsAdded, built⟩ := Except.bind_eq_ok.mp built
    obtain ⟨withTerminals, terminalsAdded, built⟩ :=
      Except.bind_eq_ok.mp built
    obtain ⟨⟨synthesized, symbols⟩, synthesizedAdded, built⟩ :=
      Except.bind_eq_ok.mp built
    obtain ⟨_, operandsChecked, built⟩ := Except.bind_eq_ok.mp built
    obtain ⟨rules, rulesResolved, built⟩ := Except.bind_eq_ok.mp built
    obtain ⟨start, startResolved, built⟩ := Except.bind_eq_ok.mp built
    obtain ⟨outputs, -, built⟩ := Except.bind_eq_ok.mp built
    cases built
    cases isChosen
    exact ⟨startName, withLhs, withTerminals, named, lhsAdded, terminalsAdded,
      synthesizedAdded, operandsChecked, rulesResolved, startResolved, rfl⟩

/-- What the finished table of a builder's symbols holds. -/
structure SymbolsOf
    (builder : GrammarBuilder)
    (grammar : Grammar) : Prop where
  reserved_lt : rootSymbol < grammar.symbols.size
  reserved : SymbolsExtend reservedSymbols grammar.symbols
  lhs :
    ∀ draft ∈ builder.rules, ∃ lhs,
      findSymbol? grammar.symbols draft.lhs = some lhs ∧ rootSymbol < lhs ∧
        (grammar.symbols.getD lhs default).nonterminal = true
  terminals :
    ∀ name ∈ builder.terminals, ∃ id,
      findSymbol? grammar.symbols name = some id ∧ rootSymbol < id
  synthesized :
    ∀ draft ∈ builder.synthesized, ∃ id,
      findSymbol? grammar.symbols draft.name = some id ∧ rootSymbol < id
  made :
    ∀ synthesized ∈ grammar.synthesized,
      (grammar.symbols.getD synthesized.symbol default).nonterminal = false ∧
        rootSymbol < synthesized.symbol ∧
        synthesized.symbol < grammar.symbols.size ∧
        synthesized.predicate < builder.predicates.size ∧
        synthesized.base ≠ synthesized.symbol

/-- Symbols that were added at one stage stay through the later ones. -/
theorem Stages.symbolsOf
    {grammar : Grammar}
    {startName : String}
    {withLhs withTerminals : Array SymbolInfo}
    (stages : Stages builder grammar startName withLhs withTerminals) :
    SymbolsOf builder grammar := by
  have reserved : rootSymbol < reservedSymbols.size := by decide
  obtain ⟨first, larger, lhsKnown⟩ :=
    addNonterminals_spec reserved stages.lhsAdded
  have reservedLhs := Nat.lt_of_lt_of_le reserved larger
  obtain ⟨second, larger', terminals⟩ :=
    addTerminals_spec reservedLhs stages.terminalsAdded
  have reservedTerminals := Nat.lt_of_lt_of_le reservedLhs larger'
  obtain ⟨third, largest, made, synthesized⟩ :=
    addSynthesized_spec reservedTerminals stages.synthesizedAdded
  have later := second.trans third
  constructor
  case reserved_lt => exact Nat.lt_of_lt_of_le reservedTerminals largest
  case reserved => exact first.trans later
  case lhs =>
    intro draft member
    obtain ⟨lhs, found, proper, kind⟩ := lhsKnown draft member
    have inside := lt_size_of_findSymbol? found
    exact ⟨lhs, later.findSymbol?_eq found, proper,
      (later.nonterminal_eq inside).2.trans kind⟩
  case terminals =>
    intro name member
    obtain ⟨id, found, proper⟩ := terminals name member
    exact ⟨id, third.findSymbol?_eq found, proper⟩
  case synthesized => exact synthesized
  case made => exact made

/-- A grammar that was built keeps its promises. -/
theorem wellFormed_of_build
    {grammar : Grammar}
    (built : builder.build = .ok grammar) :
    grammar.WellFormed := by
  obtain ⟨startName, withLhs, withTerminals, stages⟩ := stages_of_build built
  have symbols := stages.symbolsOf
  obtain ⟨ids, rulesOk, -⟩ :=
    resolveRules_spec symbols.reserved_lt symbols.lhs stages.rulesResolved
  have ruleOk : ∀ {rule : Rule}, rule ∈ grammar.rules →
      ResolvedRule builder grammar.symbols rule :=
    fun member => rulesOk _ (Array.mem_def.mp member)
  constructor
  case rule_id =>
    intro id rule stored
    rw [ids id rule (by simpa using stored), Nat.zero_add]
  case lhs_nonterminal =>
    exact fun member => (ruleOk member).lhs_nonterminal
  case rhs_known =>
    exact fun member => (ruleOk member).rhs_known
  case rootIndex_lt =>
    exact fun member => (ruleOk member).rootIndex_lt
  case rhs_predicate =>
    rw [stages.predicates]
    exact fun member => (ruleOk member).rhs_predicate
  case operand_known =>
    rw [stages.predicates]
    exact checkOperands_spec stages.operandsChecked
  case start_nonterminal =>
    exact resolveStart_spec stages.startResolved
  case reserved =>
    exact ⟨symbols.reserved_lt,
      (symbols.reserved.nonterminal_eq (by decide : 0 < _)).2,
      (symbols.reserved.nonterminal_eq (by decide : 1 < _)).2,
      (symbols.reserved.nonterminal_eq (by decide : 2 < _)).2⟩
  case synthesized_terminal =>
    intro declaration member
    obtain ⟨terminal, proper, known, predicate, -⟩ := symbols.made _ member
    rw [stages.predicates]
    exact ⟨terminal, proper, known, predicate⟩
  case synthesized_other =>
    exact fun member => (symbols.made _ member).2.2.2.2

end GrammarBuilder

section Sample

/-- The declarations of a grammar with the single rule `S → a`. -/
def sampleBuilder : GrammarBuilder where
  terminals := ["a"]
  rules := [⟨"S", [⟨"a", none, none⟩], 0, none, none⟩]
  predicates := Alphabet.empty
  start := some "S"
  defaultGreedy := none
  defaultWeight := none
  synthesized := []
  outputs := []

/-- The grammar with the single rule `S → a`, in numbers. -/
def sampleGrammar : Grammar where
  symbols := #[⟨"$", false⟩, ⟨"ε", false⟩, ⟨"S'", true⟩, ⟨"S", true⟩, ⟨"a", false⟩]
  rules := #[⟨0, 3, [⟨4, none, none⟩], 0, 1.0, false⟩]
  start := 3
  predicates := Alphabet.empty
  synthesized := []
  outputs := BitSet.ofList []

/-- Building the declarations yields the grammar. -/
theorem build_sampleBuilder :
    sampleBuilder.build = .ok sampleGrammar := by
  simp [sampleBuilder, sampleGrammar, GrammarBuilder.build,
    GrammarBuilder.addNonterminals, GrammarBuilder.addTerminals,
    GrammarBuilder.addSynthesized, GrammarBuilder.checkOperands,
    GrammarBuilder.resolveRules, GrammarBuilder.resolveRule,
    GrammarBuilder.resolveElement, GrammarBuilder.resolveStart,
    requireSymbol, addSymbol, findSymbol?, reservedSymbols, maxSymbols,
    List.findIdx?_cons, Alphabet.toList, Alphabet.empty, bind, Except.bind,
    pure, Except.pure]

end Sample

end SpanForest
