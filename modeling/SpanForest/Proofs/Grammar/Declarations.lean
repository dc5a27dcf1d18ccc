import SpanForest.Proofs.Grammar.WellFormed

namespace SpanForest

/-!
# Names and declarations

A builder is told of rules, terminals and predicates one call at a time. In a grammar
that comes of it every name stands for one symbol; the nonterminals are the
left-hand sides of rules, and any other symbol on a right-hand side was declared as
a terminal. The reserved names are the exception: they cannot be declared and cannot
be left-hand sides, but a right-hand side may use them.
-/

/-- One call of a builder. -/
inductive BuilderCall where
  | terminal (name : String)
  | predicate (predicate : Predicate)
  | rule (draft : RuleDraft)
  | setStart (name : String)
  | setDefaultGreedy (greedy : Bool)
  | setDefaultWeight (weight : Float)
  | synthesize (draft : SynthesizedDraft)
  | markOutput (name : String)

namespace BuilderCall

/-- The rule that a call adds. -/
def draft? : BuilderCall → Option RuleDraft
  | .rule draft => some draft
  | _ => none

/-- The terminal that a call declares. -/
def declared? : BuilderCall → Option String
  | .terminal name => some name
  | .synthesize draft => some draft.name
  | _ => none

/-- The rules that calls add, in their order. -/
def drafts (calls : List BuilderCall) : List RuleDraft :=
  calls.filterMap draft?

/-- Whether some call declares a terminal called `name`. -/
def Declares (calls : List BuilderCall) (name : String) : Prop :=
  ∃ call ∈ calls, call.declared? = some name

end BuilderCall

namespace GrammarBuilder

/-- The builder after a call; one that is refused leaves it as it was. -/
def call (builder : GrammarBuilder) : BuilderCall → GrammarBuilder
  | .terminal name => builder.terminal name
  | .predicate predicate => (builder.predicate predicate).2
  | .rule draft => (builder.rule draft).2
  | .setStart name => (builder.setStart name).toOption.getD builder
  | .setDefaultGreedy greedy =>
      (builder.setDefaultGreedy greedy).toOption.getD builder
  | .setDefaultWeight weight =>
      (builder.setDefaultWeight weight).toOption.getD builder
  | .synthesize draft => builder.synthesize draft
  | .markOutput name => builder.markOutput name

/-- The builder after several calls. -/
def after (calls : List BuilderCall) : GrammarBuilder :=
  calls.foldl call empty

/-- The terminals that a builder was told of. -/
def declared (builder : GrammarBuilder) : List String :=
  builder.terminals ++ builder.synthesized.map (·.name)

/-- What a call changes of the rules and the terminals. -/
structure CallSpec
    (builder : GrammarBuilder)
    (call : BuilderCall) : Prop where
  rules : (builder.call call).rules = builder.rules ++ call.draft?.toList
  declared :
    ∀ name, name ∈ (builder.call call).declared ↔
      name ∈ builder.declared ∨ call.declared? = some name

/-- A call that is about something else leaves rules and terminals alone. -/
theorem CallSpec.of_unchanged
    {builder : GrammarBuilder}
    {call : BuilderCall}
    (noDraft : call.draft? = none)
    (noTerminal : call.declared? = none)
    (same : (builder.call call).rules = builder.rules ∧
      (builder.call call).terminals = builder.terminals ∧
      (builder.call call).synthesized = builder.synthesized) :
    CallSpec builder call where
  rules := by simp [same.1, noDraft]
  declared name := by
    simp [GrammarBuilder.declared, same.2.1, same.2.2, noTerminal]

theorem call_spec
    (builder : GrammarBuilder)
    (call : BuilderCall) :
    CallSpec builder call := by
  cases call with
  | terminal name =>
      constructor
      case rules =>
        simp only [GrammarBuilder.call, terminal]
        split <;> simp [BuilderCall.draft?]
      case declared =>
        intro other
        simp only [GrammarBuilder.call, terminal, BuilderCall.declared?,
          Option.some.injEq]
        split
        · rename_i known
          refine ⟨.inl, fun either => either.elim id ?_⟩
          rintro rfl
          exact List.mem_append_left _ (List.contains_iff_mem.mp known)
        · simp only [GrammarBuilder.declared, List.mem_append,
            List.mem_singleton]
          tauto
  | rule draft =>
      exact ⟨rfl, by simp [GrammarBuilder.call, rule, GrammarBuilder.declared,
        BuilderCall.declared?]⟩
  | synthesize draft =>
      constructor
      case rules => simp [GrammarBuilder.call, synthesize, BuilderCall.draft?]
      case declared =>
        intro other
        simp only [GrammarBuilder.call, synthesize, GrammarBuilder.declared,
          BuilderCall.declared?, List.map_append, List.mem_append, List.map_cons,
          List.map_nil, List.mem_singleton, Option.some.injEq]
        tauto
  | predicate predicate => exact .of_unchanged rfl rfl ⟨rfl, rfl, rfl⟩
  | markOutput name => exact .of_unchanged rfl rfl ⟨rfl, rfl, rfl⟩
  | setStart name =>
      refine .of_unchanged rfl rfl ?_
      simp only [GrammarBuilder.call, setStart]
      cases builder.start <;> exact ⟨rfl, rfl, rfl⟩
  | setDefaultGreedy greedy =>
      refine .of_unchanged rfl rfl ?_
      simp only [GrammarBuilder.call, setDefaultGreedy]
      cases builder.defaultGreedy <;> exact ⟨rfl, rfl, rfl⟩
  | setDefaultWeight weight =>
      refine .of_unchanged rfl rfl ?_
      simp only [GrammarBuilder.call, setDefaultWeight]
      cases builder.defaultWeight <;> exact ⟨rfl, rfl, rfl⟩

/-- A builder knows the rules and the terminals of all calls, and no others. -/
theorem after_spec (calls : List BuilderCall) :
    (after calls).rules = BuilderCall.drafts calls ∧
      ∀ name, name ∈ (after calls).declared ↔
        BuilderCall.Declares calls name := by
  have each : ∀ (rest : List BuilderCall) (builder : GrammarBuilder),
      (rest.foldl call builder).rules =
          builder.rules ++ rest.filterMap BuilderCall.draft? ∧
        ∀ name, name ∈ (rest.foldl call builder).declared ↔
          name ∈ builder.declared ∨ ∃ call ∈ rest, call.declared? = some name := by
    intro rest
    induction rest with
    | nil => simp
    | cons first rest inductionHypothesis =>
        intro builder
        have step := call_spec builder first
        obtain ⟨rules, declared⟩ := inductionHypothesis (builder.call first)
        refine ⟨?_, fun name => ?_⟩
        · rw [List.foldl_cons, rules, step.rules, List.append_assoc]
          cases isDraft : first.draft? <;> simp [isDraft]
        · rw [List.foldl_cons, declared, step.declared]
          simp [or_assoc]
  simpa [after, empty, declared, BuilderCall.drafts, BuilderCall.Declares]
    using each calls empty

section Table

variable {builder : GrammarBuilder} {symbols extended : Array SymbolInfo}

/-- What an entry of a builder's symbol table stands for. -/
inductive Stands (builder : GrammarBuilder) : SymbolInfo → Prop where
  | reserved
      {info : SymbolInfo}
      (listed : info ∈ reservedSymbols) :
      Stands builder info
  | lhs
      {draft : RuleDraft}
      (listed : draft ∈ builder.rules) :
      Stands builder ⟨draft.lhs, true⟩
  | declared
      {name : String}
      (listed : name ∈ builder.declared) :
      Stands builder ⟨name, false⟩

/-- A table with the names of declarations, each once. -/
structure Tabulates
    (builder : GrammarBuilder)
    (symbols : Array SymbolInfo) : Prop where
  distinct : (symbols.toList.map (·.name)).Nodup
  stands : ∀ info ∈ symbols, Stands builder info

/-- The last reserved symbol is the only nonterminal among them. -/
theorem reservedSymbols_spec :
    ∀ position, (inside : position < reservedSymbols.size) →
      position ≤ rootSymbol ∧
        (reservedSymbols[position].nonterminal = true →
          position = rootSymbol) := by
  decide

theorem tabulates_reservedSymbols : Tabulates builder reservedSymbols where
  distinct := by decide
  stands _ listed := .reserved listed

/-- Adding a symbol for a declaration. -/
theorem Tabulates.addSymbol
    {name : String}
    {nonterminal : Bool}
    {id : SymbolId}
    (tabulates : Tabulates builder symbols)
    (stands : Stands builder ⟨name, nonterminal⟩)
    (added : SpanForest.addSymbol symbols name nonterminal = .ok (id, extended)) :
    Tabulates builder extended := by
  unfold SpanForest.addSymbol at added
  split at added
  · split at added
    · cases added
      exact tabulates
    · cases added
  · rename_i unknown
    split at added
    · cases added
    · cases added
      have absent := Array.findIdx?_eq_none_iff.mp unknown
      constructor
      case distinct =>
        rw [Array.toList_push, List.map_append, List.nodup_append]
        refine ⟨tabulates.distinct, by simp, ?_⟩
        intro known isKnown other isOther same
        obtain ⟨info, listed, rfl⟩ := List.mem_map.mp isKnown
        have isName : other = name := by simpa using isOther
        simpa [same, isName] using absent info (Array.mem_def.mpr listed)
      case stands =>
        intro info listed
        rcases Array.mem_push.mp listed with old | rfl
        · exact tabulates.stands info old
        · exact stands

theorem Tabulates.addNonterminals
    {drafts : List RuleDraft}
    (tabulates : Tabulates builder symbols)
    (listed : ∀ draft ∈ drafts, draft ∈ builder.rules)
    (added : builder.addNonterminals drafts symbols = .ok extended) :
    Tabulates builder extended := by
  induction drafts generalizing symbols with
  | nil =>
      cases added
      exact tabulates
  | cons draft rest inductionHypothesis =>
      unfold GrammarBuilder.addNonterminals at added
      split at added
      · cases added
      · obtain ⟨⟨id, next⟩, one, others⟩ := Except.bind_eq_ok.mp added
        exact inductionHypothesis
          (tabulates.addSymbol (.lhs (listed draft List.mem_cons_self)) one)
          (fun other member => listed other (List.mem_cons_of_mem _ member)) others

theorem Tabulates.addTerminals
    {names : List String}
    (tabulates : Tabulates builder symbols)
    (listed : ∀ name ∈ names, name ∈ builder.declared)
    (added : GrammarBuilder.addTerminals names symbols = .ok extended) :
    Tabulates builder extended := by
  induction names generalizing symbols with
  | nil =>
      cases added
      exact tabulates
  | cons name rest inductionHypothesis =>
      obtain ⟨⟨id, next⟩, one, others⟩ := Except.bind_eq_ok.mp added
      exact inductionHypothesis
        (tabulates.addSymbol (.declared (listed name List.mem_cons_self)) one)
        (fun other member => listed other (List.mem_cons_of_mem _ member)) others

theorem Tabulates.addSynthesized
    {drafts : List SynthesizedDraft}
    {made : List Synthesized}
    (tabulates : Tabulates builder symbols)
    (listed : ∀ draft ∈ drafts, draft ∈ builder.synthesized)
    (added : builder.addSynthesized drafts symbols = .ok (made, extended)) :
    Tabulates builder extended := by
  induction drafts generalizing symbols made with
  | nil =>
      cases added
      exact tabulates
  | cons draft rest inductionHypothesis =>
      unfold GrammarBuilder.addSynthesized at added
      split at added
      · cases added
      · rename_i accepted
        obtain ⟨_, _, added⟩ := Except.bind_eq_ok.mp added
        obtain ⟨⟨base, withBase⟩, one, added⟩ := Except.bind_eq_ok.mp added
        obtain ⟨⟨symbol, withBoth⟩, two, added⟩ := Except.bind_eq_ok.mp added
        obtain ⟨⟨others, all⟩, three, added⟩ := Except.bind_eq_ok.mp added
        cases added
        have isTerminal : draft.base ∈ builder.terminals := by
          simpa using (not_or.mp accepted).2
        have isDeclared : draft.name ∈ builder.declared :=
          List.mem_append_right _
            (List.mem_map_of_mem (listed draft List.mem_cons_self))
        have withBaseTabulates :=
          tabulates.addSymbol (.declared (List.mem_append_left _ isTerminal)) one
        exact inductionHypothesis
          (withBaseTabulates.addSymbol (.declared isDeclared) two)
          (fun other member => listed other (List.mem_cons_of_mem _ member)) three

/-- In a table without repeated names a name stands for the symbol that bears it. -/
theorem Tabulates.findSymbol?_iff
    (tabulates : Tabulates builder symbols)
    {name : String}
    {id : SymbolId} :
    findSymbol? symbols name = some id ↔
      ∃ info, symbols[id]? = some info ∧ info.name = name := by
  constructor
  · intro found
    obtain ⟨bound, named, -⟩ := Array.findIdx?_eq_some_iff_getElem.mp found
    exact ⟨symbols[id], Array.getElem?_eq_getElem bound, eq_of_beq named⟩
  · rintro ⟨info, stored, rfl⟩
    obtain ⟨bound, rfl⟩ := Array.getElem?_eq_some_iff.mp stored
    refine Array.findIdx?_eq_some_iff_getElem.mpr ⟨bound, by simp, ?_⟩
    intro other earlier sameName
    have apart := (List.pairwise_iff_getElem.mp
      (List.pairwise_map.mp tabulates.distinct)) other id
      (by simpa using Nat.lt_trans earlier bound) (by simpa using bound) earlier
    exact apart (by simpa using sameName)

end Table

/-- A grammar whose symbols and rules are those of a builder. -/
structure Resolves
    (builder : GrammarBuilder)
    (grammar : Grammar) : Prop where
  tabulates : Tabulates builder grammar.symbols
  reserved : SymbolsExtend reservedSymbols grammar.symbols
  declared :
    ∀ name ∈ builder.declared, ∃ id,
      grammar.lookup name = some id ∧ rootSymbol < id
  rules :
    List.Forall₂ (RuleOf grammar.symbols) builder.rules grammar.rules.toList

theorem resolves_of_build
    {builder : GrammarBuilder}
    {grammar : Grammar}
    (built : builder.build = .ok grammar) :
    Resolves builder grammar := by
  obtain ⟨startName, withLhs, withTerminals, stages⟩ := stages_of_build built
  have symbols := stages.symbolsOf
  have withLhsTabulates := tabulates_reservedSymbols.addNonterminals
    (fun draft member => member) stages.lhsAdded
  have withTerminalsTabulates := withLhsTabulates.addTerminals
    (fun name member => List.mem_append_left _ member) stages.terminalsAdded
  constructor
  case tabulates =>
    exact withTerminalsTabulates.addSynthesized (fun draft member => member)
      stages.synthesizedAdded
  case reserved => exact symbols.reserved
  case declared =>
    intro name member
    rcases List.mem_append.mp member with terminal | made
    · exact symbols.terminals name terminal
    · obtain ⟨draft, isDraft, rfl⟩ := List.mem_map.mp made
      exact symbols.synthesized draft isDraft
  case rules =>
    exact (resolveRules_spec symbols.reserved_lt symbols.lhs
      stages.rulesResolved).2.2

namespace Resolves

variable {builder : GrammarBuilder} {grammar : Grammar}
variable {name : String} {symbol : SymbolId}

/-- A name stands for the symbol that bears it. -/
theorem lookup_iff
    (resolves : Resolves builder grammar) :
    grammar.lookup name = some symbol ↔
      symbol < grammar.numSymbols ∧ grammar.name symbol = name := by
  rw [Grammar.lookup, resolves.tabulates.findSymbol?_iff, Grammar.numSymbols,
    Grammar.name, Array.getD_eq_getD_getElem?]
  constructor
  · rintro ⟨info, stored, rfl⟩
    exact ⟨(Array.getElem?_eq_some_iff.mp stored).1, by rw [stored]; rfl⟩
  · rintro ⟨inside, named⟩
    have stored := Array.getElem?_eq_getElem inside
    rw [stored] at named
    exact ⟨_, stored, named⟩

/-- The left-hand side of a draft is that of its rule. -/
theorem exists_rule
    (resolves : Resolves builder grammar)
    {draft : RuleDraft}
    (listed : draft ∈ builder.rules) :
    ∃ rule ∈ grammar.rules, grammar.lookup draft.lhs = some rule.lhs := by
  obtain ⟨rule, isRule, ruleOf⟩ :=
    exists_of_forall₂ resolves.rules.flip draft listed
  exact ⟨rule, Array.mem_def.mpr isRule, ruleOf.lhs⟩

/-- A reserved name stands for a reserved symbol. -/
theorem le_rootSymbol
    (resolves : Resolves builder grammar)
    {info : SymbolInfo}
    (listed : info ∈ reservedSymbols) :
    ∃ id, grammar.lookup info.name = some id ∧ id ≤ rootSymbol ∧
      (info.nonterminal = true → id = rootSymbol) := by
  obtain ⟨id, stored⟩ := Array.getElem?_of_mem listed
  refine ⟨id, resolves.tabulates.findSymbol?_iff.mpr
    ⟨info, resolves.reserved id info stored, rfl⟩, ?_⟩
  obtain ⟨bound, rfl⟩ := Array.getElem?_eq_some_iff.mp stored
  exact reservedSymbols_spec id bound

/-- A symbol is reserved, the left-hand side of a rule, or a declared terminal. -/
theorem stands_of_lookup
    (resolves : Resolves builder grammar)
    (found : grammar.lookup name = some symbol) :
    (symbol ≤ rootSymbol ∧ ∃ info ∈ reservedSymbols, info.name = name) ∨
      (∃ rule ∈ grammar.rules, rule.lhs = symbol) ∨
      name ∈ builder.declared := by
  obtain ⟨info, stored, rfl⟩ := resolves.tabulates.findSymbol?_iff.mp found
  cases resolves.tabulates.stands info (Array.mem_of_getElem? stored) with
  | reserved listed =>
      obtain ⟨id, isReserved, small, -⟩ := resolves.le_rootSymbol listed
      rw [found, Option.some.injEq] at isReserved
      exact .inl ⟨isReserved ▸ small, info, listed, rfl⟩
  | lhs listed =>
      obtain ⟨rule, isRule, isLhs⟩ := resolves.exists_rule listed
      rw [found, Option.some.injEq] at isLhs
      exact .inr (.inl ⟨rule, isRule, isLhs.symm⟩)
  | declared listed => exact .inr (.inr listed)

/-- Symbols that need no declaration are not above the root symbol. -/
theorem rootSymbol_lt
    (resolves : Resolves builder grammar)
    (inside : symbol < grammar.numSymbols)
    (declared : grammar.name symbol ∈ builder.declared) :
    rootSymbol < symbol := by
  obtain ⟨id, found, proper⟩ := resolves.declared _ declared
  rw [resolves.lookup_iff.mpr ⟨inside, rfl⟩, Option.some.injEq] at found
  exact found ▸ proper

/-- The nonterminals are the root symbol and the left-hand sides of rules. -/
theorem eq_of_isNonterminal
    (resolves : Resolves builder grammar)
    (nonterminal : grammar.isNonterminal symbol = true) :
    symbol = rootSymbol ∨ ∃ rule ∈ grammar.rules, rule.lhs = symbol := by
  have inside := Grammar.lt_numSymbols_of_isNonterminal nonterminal
  have stored := Array.getElem?_eq_getElem inside
  rw [Grammar.isNonterminal, Array.getD_eq_getD_getElem?, stored,
    Option.getD_some] at nonterminal
  have found := resolves.tabulates.findSymbol?_iff.mpr ⟨_, stored, rfl⟩
  generalize grammar.symbols[symbol] = info at stored nonterminal found
  cases resolves.tabulates.stands info (Array.mem_of_getElem? stored) with
  | reserved listed =>
      obtain ⟨id, isReserved, -, isRoot⟩ := resolves.le_rootSymbol listed
      rw [Grammar.lookup, found, Option.some.injEq] at isReserved
      exact .inl (isReserved.trans (isRoot nonterminal))
  | lhs listed =>
      obtain ⟨rule, isRule, isLhs⟩ := resolves.exists_rule listed
      rw [Grammar.lookup, found, Option.some.injEq] at isLhs
      exact .inr ⟨rule, isRule, isLhs.symm⟩
  | declared listed => cases nonterminal

end Resolves

end GrammarBuilder

namespace Grammar

/-- The numbers of all rules, by their left-hand sides. -/
def idsByLhs (grammar : Grammar) : Array (List RuleId) :=
  grammar.allRules.foldl
    (fun table rule => table.modify rule.lhs (· ++ [rule.id]))
    (Array.replicate grammar.numSymbols [])

/-- A rule is entered behind the earlier ones with its left-hand side. -/
theorem getElem?_idsByLhs
    {grammar : Grammar}
    {lhs : SymbolId}
    (inside : lhs < grammar.numSymbols) :
    grammar.idsByLhs[lhs]? = some ((grammar.rulesFor lhs).map (·.id)) := by
  have each : ∀ (rules : List Rule) (table : Array (List RuleId)),
      (rules.foldl (fun table rule => table.modify rule.lhs (· ++ [rule.id]))
        table)[lhs]? =
        table[lhs]?.map (· ++ (rules.filter (·.lhs == lhs)).map (·.id)) := by
    intro rules
    induction rules with
    | nil => simp
    | cons first rest inductionHypothesis =>
        intro table
        rw [List.foldl_cons, inductionHypothesis, Array.getElem?_modify]
        by_cases same : first.lhs = lhs <;>
          simp [same, Function.comp_def]
  rw [idsByLhs, each, Array.getElem?_replicate, if_pos inside]
  rfl

/--
Whether every symbol on a right-hand side is a left-hand side or a declared terminal.

A rule that was added without a right-hand side has the single `ε`, and so may
`admitted` symbols stand on a right-hand side without being declared.
-/
def RhsDeclared
    (calls : List BuilderCall)
    (admitted : SymbolId → Prop)
    (grammar : Grammar) : Prop :=
  List.Forall₂
    (fun draft rule =>
      (draft.rhs = [] ∧ rule.rhs = [.plain emptyString]) ∨
        ∀ part ∈ rule.rhs,
          (∃ other ∈ grammar.rules, other.lhs = part.symbol) ∨
            BuilderCall.Declares calls (grammar.name part.symbol) ∨
            admitted part.symbol)
    (BuilderCall.drafts calls) grammar.rules.toList

/-- What calls say of the grammar that is built after them. -/
structure DeclaredBy
    (calls : List BuilderCall)
    (grammar : Grammar) : Prop where
  names_distinct : (grammar.symbols.toList.map (·.name)).Nodup
  lookup_iff :
    ∀ name symbol, grammar.lookup name = some symbol ↔
      symbol < grammar.numSymbols ∧ grammar.name symbol = name
  nonterminal_iff :
    ∀ symbol, grammar.isNonterminal symbol = true ↔
      symbol = rootSymbol ∨ ∃ rule ∈ grammar.rules, rule.lhs = symbol
  /-- Every rule has the symbols and predicates that its author wrote. -/
  rules :
    List.Forall₂ (GrammarBuilder.RuleOf grammar.symbols)
      (BuilderCall.drafts calls) grammar.rules.toList
  rhs_declared : grammar.RhsDeclared calls (· ≤ rootSymbol)
  /-- Nothing but a reserved name gets by without a declaration. -/
  rhs_declared_iff :
    grammar.RhsDeclared calls (fun _ => False) ↔
      ∀ draft ∈ BuilderCall.drafts calls, ∀ element ∈ draft.rhs,
        ∀ info ∈ reservedSymbols, info.name ≠ element.name
  rootIndex_lt : ∀ rule ∈ grammar.rules, rule.rootIndex < rule.length
  rulesFor_exact :
    ∀ lhs < grammar.numSymbols,
      (grammar.idsByLhs.getD lhs []).map grammar.rule = grammar.rulesFor lhs ∧
        (grammar.rulesFor lhs).Pairwise (fun left right => left.id < right.id) ∧
        ∀ rule, rule ∈ grammar.rulesFor lhs ↔
          rule ∈ grammar.allRules ∧ rule.lhs = lhs
  rhs_predicate :
    ∀ rule ∈ grammar.rules, ∀ part ∈ rule.rhs, ∀ id,
      part.predicate = some id → id < grammar.predicates.size
  synthesized_predicate :
    ∀ synthesized ∈ grammar.synthesized,
      synthesized.predicate < grammar.predicates.size
  operand_known :
    ∀ id predicate, grammar.predicates.get? id = some predicate →
      ∀ operand ∈ predicate.operands, operand < grammar.predicates.size
  start :
    rootSymbol < grammar.start ∧ ∃ rule ∈ grammar.rules, rule.lhs = grammar.start

end Grammar

namespace GrammarBuilder

/-- A grammar that was built is the one that the calls before declare. -/
theorem declaredBy_of_build
    {calls : List BuilderCall}
    {grammar : Grammar}
    (built : (after calls).build = .ok grammar) :
    grammar.DeclaredBy calls := by
  have resolves := resolves_of_build built
  have wellFormed := wellFormed_of_build built
  obtain ⟨sameRules, declares⟩ := after_spec calls
  have rules := resolves.rules
  rw [sameRules] at rules
  have known : ∀ {rule : Rule}, rule ∈ grammar.rules → rootSymbol < rule.lhs :=
    fun member => (wellFormed.lhs_nonterminal member).2
  constructor
  case names_distinct => exact resolves.tabulates.distinct
  case lookup_iff => exact fun name symbol => resolves.lookup_iff
  case nonterminal_iff =>
    intro symbol
    refine ⟨resolves.eq_of_isNonterminal, ?_⟩
    rintro (rfl | ⟨rule, isRule, rfl⟩)
    · exact wellFormed.reserved.2.2.2
    · exact (wellFormed.lhs_nonterminal isRule).1
  case rules => exact rules
  case rhs_declared =>
    refine rules.imp fun draft rule ruleOf => ruleOf.rhs.imp id ?_
    rintro ⟨-, parts⟩ part isPart
    obtain ⟨element, -, partOf⟩ := exists_of_forall₂ parts part isPart
    rcases resolves.stands_of_lookup partOf.symbol with ⟨small, -⟩ | lhs | declared
    · exact .inr (.inr small)
    · exact .inl lhs
    · rw [← (resolves.lookup_iff.mp partOf.symbol).2] at declared
      exact .inr (.inl ((declares _).mp declared))
  case rhs_declared_iff =>
    constructor
    · intro rhsDeclared draft isDraft element isElement info isReserved sameName
      have both := rhsDeclared.mp (fun _ _ clause ruleOf => And.intro clause ruleOf)
        rules
      obtain ⟨rule, -, clause, ruleOf⟩ := exists_of_forall₂ both.flip draft isDraft
      have nonempty : draft.rhs ≠ [] := List.ne_nil_of_mem isElement
      have parts := (ruleOf.rhs.resolve_left fun none => nonempty none.1).2
      obtain ⟨part, isPart, partOf⟩ :=
        exists_of_forall₂ parts.flip element isElement
      obtain ⟨id, isId, small, -⟩ := resolves.le_rootSymbol isReserved
      have sameId : part.symbol = id := by
        have found : grammar.lookup element.name = some part.symbol := partOf.symbol
        rw [← sameName, isId, Option.some.injEq] at found
        exact found.symm
      have proper : rootSymbol < part.symbol := by
        rcases (clause.resolve_left fun none => nonempty none.1) part isPart with
          ⟨other, isRule, isLhs⟩ | declared | impossible
        · exact isLhs ▸ known isRule
        · exact resolves.rootSymbol_lt (lt_size_of_findSymbol? partOf.symbol)
            ((declares _).mpr declared)
        · exact impossible.elim
      exact Nat.not_le.mpr proper (sameId ▸ small)
    · intro noReserved
      refine ((List.forall₂_and_left _ _).mpr ⟨noReserved, rules⟩).imp ?_
      rintro draft rule ⟨unreserved, ruleOf⟩
      refine ruleOf.rhs.imp id ?_
      rintro ⟨-, parts⟩ part isPart
      obtain ⟨element, isElement, partOf⟩ := exists_of_forall₂ parts part isPart
      rcases resolves.stands_of_lookup partOf.symbol with
        ⟨-, info, isReserved, sameName⟩ | lhs | declared
      · exact absurd sameName (unreserved element isElement info isReserved)
      · exact .inl lhs
      · rw [← (resolves.lookup_iff.mp partOf.symbol).2] at declared
        exact .inr (.inl ((declares _).mp declared))
  case rootIndex_lt => exact fun rule member => wellFormed.rootIndex_lt member
  case rulesFor_exact =>
    intro lhs inside
    have ascending : grammar.allRules.Pairwise fun left right => left.id < right.id := by
      rw [← List.pairwise_map, wellFormed.map_id_allRules]
      exact List.pairwise_lt_range
    refine ⟨?_, ascending.sublist List.filter_sublist,
      fun rule => Grammar.mem_rulesFor⟩
    rw [Array.getD_eq_getD_getElem?, Grammar.getElem?_idsByLhs inside,
      Option.getD_some, List.map_map]
    refine (List.map_congr_left fun rule listed => ?_).trans (List.map_id _)
    exact (wellFormed.rule_rule_id (Grammar.mem_rulesFor.mp listed).1).1
  case rhs_predicate => exact fun rule member => wellFormed.rhs_predicate member
  case synthesized_predicate =>
    exact fun synthesized member => (wellFormed.synthesized_terminal member).2.2.2
  case operand_known => exact fun id predicate stored => wellFormed.operand_known stored
  case start =>
    obtain ⟨nonterminal, proper⟩ := wellFormed.start_nonterminal
    refine ⟨proper, (resolves.eq_of_isNonterminal nonterminal).resolve_left ?_⟩
    exact Nat.ne_of_gt proper

section Sample

/-- The calls for a grammar of greetings with names and pauses; one is refused. -/
def greetingCalls : List BuilderCall :=
  [.terminal "Word", .setStart "Greeting", .setStart "Word",
    .predicate (.custom "personal"), .synthesize ⟨"Name", "Word", 0⟩,
    .rule ⟨"Greeting", [⟨"Word", none, none⟩, ⟨"Pause", none, none⟩,
      ⟨"Name", some 0, none⟩], 2, none, none⟩,
    .rule ⟨"Pause", [], 0, none, none⟩]

/-- The grammar of greetings, in numbers. -/
def greetingGrammar : Grammar where
  symbols :=
    #[⟨"$", false⟩, ⟨"ε", false⟩, ⟨"S'", true⟩, ⟨"Greeting", true⟩,
      ⟨"Pause", true⟩, ⟨"Word", false⟩, ⟨"Name", false⟩]
  rules :=
    #[⟨0, 3, [.plain 5, .plain 4, ⟨6, some 0, none⟩], 2, 1.0, false⟩,
      ⟨1, 4, [.plain 1], 0, 1.0, false⟩]
  start := 3
  predicates := ⟨#[.custom "personal"], by decide⟩
  synthesized := [⟨6, 5, 0⟩]
  outputs := BitSet.ofList []

theorem build_greetingCalls :
    (after greetingCalls).build = .ok greetingGrammar := by
  have collected : after greetingCalls =
      { terminals := ["Word"]
        rules :=
          [⟨"Greeting", [⟨"Word", none, none⟩, ⟨"Pause", none, none⟩,
            ⟨"Name", some 0, none⟩], 2, none, none⟩, ⟨"Pause", [], 0, none, none⟩]
        predicates := ⟨#[.custom "personal"], by decide⟩
        start := some "Greeting"
        defaultGreedy := none
        defaultWeight := none
        synthesized := [⟨"Name", "Word", 0⟩]
        outputs := [] } :=
    rfl
  rw [collected]
  simp [greetingGrammar, build, addNonterminals, addTerminals, addSynthesized,
    checkOperands, requirePredicate, resolveRules, resolveRule, resolveElement,
    resolveStart, requireSymbol, addSymbol, findSymbol?, reservedSymbols,
    maxSymbols, rootSymbol, RhsSymbol.plain, Predicate.operands,
    List.findIdx?_cons, Alphabet.size, Alphabet.toList, bind, Except.bind, pure,
    Except.pure]

theorem declaredBy_of_build_greeting :
    (after greetingCalls).build = .ok greetingGrammar ∧
      greetingGrammar.DeclaredBy greetingCalls :=
  ⟨build_greetingCalls, declaredBy_of_build build_greetingCalls⟩

/-- The calls for the rule `S → a $`, where nothing declares `$`. -/
def endingCalls : List BuilderCall :=
  [.terminal "a", .setStart "S",
    .rule ⟨"S", [⟨"a", none, none⟩, ⟨"$", none, none⟩], 0, none, none⟩]

/-- The grammar with the rule `S → a $`, in numbers. -/
def endingGrammar : Grammar where
  symbols := #[⟨"$", false⟩, ⟨"ε", false⟩, ⟨"S'", true⟩, ⟨"S", true⟩, ⟨"a", false⟩]
  rules := #[⟨0, 3, [.plain 4, .plain 0], 0, 1.0, false⟩]
  start := 3
  predicates := Alphabet.empty
  synthesized := []
  outputs := BitSet.ofList []

/-- A rule may end in `$`, which is no left-hand side and which nothing declares. -/
theorem not_rhsDeclared_ending :
    (after endingCalls).build = .ok endingGrammar ∧
      ¬ endingGrammar.RhsDeclared endingCalls fun _ => False := by
  have collected : after endingCalls =
      { terminals := ["a"]
        rules := [⟨"S", [⟨"a", none, none⟩, ⟨"$", none, none⟩], 0, none, none⟩]
        predicates := Alphabet.empty
        start := some "S"
        defaultGreedy := none
        defaultWeight := none
        synthesized := []
        outputs := [] } :=
    rfl
  constructor
  · rw [collected]
    simp [endingGrammar, build, addNonterminals, addTerminals, addSynthesized,
      checkOperands, resolveRules, resolveRule, resolveElement, resolveStart,
      requireSymbol, addSymbol, findSymbol?, reservedSymbols, maxSymbols,
      rootSymbol, RhsSymbol.plain, List.findIdx?_cons, Alphabet.toList,
      Alphabet.empty, bind, Except.bind, pure, Except.pure]
  · intro rhsDeclared
    obtain ⟨draft, -, clause⟩ := exists_of_forall₂ rhsDeclared
      ⟨0, 3, [.plain 4, .plain 0], 0, 1.0, false⟩ (List.mem_singleton.mpr rfl)
    have each := clause.resolve_left (by simp [RhsSymbol.plain])
    have atEnd := each (.plain 0) (by simp)
    simp [BuilderCall.Declares, BuilderCall.declared?, endingCalls,
      endingGrammar, RhsSymbol.plain, Grammar.name] at atEnd

end Sample

end GrammarBuilder

end SpanForest
