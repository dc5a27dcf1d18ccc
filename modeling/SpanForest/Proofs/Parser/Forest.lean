import SpanForest.Proofs.Parser.Reachable

namespace SpanForest

/-!
# The forest

Every derivation in the forest is one of its rule: its nodes spell the
right-hand side, lie on one another in the stack and end at the word, the
predicates hold on their spans, and the host produced the span from them.

Greedy passes may take all derivations of a node, but then they remove it, and
only derivations by greedy rules still lead to it from nodes that are live.
-/

namespace Parser

variable {σ : Type} {host : Host σ}
variable {grammar : Grammar} {options : CompileOptions}
variable {config : ParserConfig} {parser : Parser}

/--
In every parse that is reached, derivations follow their rules, and nodes that
were read hold spans of terminals from the input or synthesized from the input.
-/
theorem Reachable.derivation_sound
    {builder : GrammarBuilder}
    (built : builder.build = .ok grammar)
    {decide : String → Span → Bool}
    (decides : host.Decides decide)
    (reachable : Reachable host (grammar.compile options) config parser)
    {node : SymbolNodeId}
    (inside : node < parser.stack.symbols.size) :
    (∀ derivation ∈ parser.derivations node,
      derivation.rule < grammar.rules.size ∧
      (parser.stack.symbolNode node).symbol =
        some (grammar.rule derivation.rule).lhs ∧
      derivation.children.map
          (fun child => (parser.stack.symbolNode child).symbol) =
        (grammar.rule derivation.rule).symbols.map some ∧
      (∀ last ∈ derivation.children.getLast?,
        (parser.stack.symbolNode last).word =
          (parser.stack.symbolNode node).word) ∧
      derivation.children.IsChain parser.stack.Linked ∧
      (∀ pair ∈ (grammar.rule derivation.rule).rhs.zip
          (parser.spansOf derivation.children),
        ∀ id, pair.1.predicate = some id →
          Truth (parser.situation decide) id (parser.spans.get pair.2)
            true) ∧
      ∃ id,
        parser.Accepts host (grammar.rule derivation.rule)
          (parser.spansOf derivation.children) id ∧
        ((parser.stack.symbolNode node).span = id ∨
          (parser.spans.get (parser.stack.symbolNode node).span).equivalent
            (parser.spans.get id) = true)) ∧
    (parser.Shifted node →
      ∃ symbol, (parser.stack.symbolNode node).symbol = some symbol ∧
        grammar.isNonterminal symbol = false ∧
        parser.Readable host (parser.stack.symbolNode node).span symbol) := by
  have wellFormed := GrammarBuilder.wellFormed_of_build built
  have sound := reachable.sound wellFormed
  have isGrammar : parser.compiled.grammar = grammar := by
    rw [sound.loaded.compiled]
    rfl
  have accounted := sound.forest node inside
  constructor
  · intro derivation member
    obtain ⟨lhs, id, yields, isSpan⟩ := accounted.justified derivation member
    have permitted := yields.permitted
    have accepted := yields.accepted
    rw [isGrammar] at lhs permitted accepted
    refine ⟨isGrammar ▸ yields.user, lhs, isGrammar ▸ yields.symbols,
      yields.word, yields.linked, ?_, id, accepted, isSpan⟩
    exact fun pair isPair predicate isPredicate =>
      permitted pair isPair predicate isPredicate decide decides
  · intro shifted
    obtain ⟨-, symbol, isSymbol, readable⟩ := accounted.shifted shifted
    exact ⟨symbol, isSymbol, readable.terminal sound.loaded wellFormed,
      readable⟩

/-- A derivation in a parse of two words is one of its rule. -/
theorem derivation_sound_nested :
    nestedBuilder.build = .ok nestedGrammar ∧
      (Host.inheriting : Host Unit).Decides (fun _ _ => false) ∧
      Reachable (Host.inheriting : Host Unit) (nestedGrammar.compile {}) {}
        nestedEnd ∧
      6 < nestedEnd.stack.symbols.size ∧
      ⟨1, [2, 4]⟩ ∈ nestedEnd.derivations 6 ∧
      [2, 4].map (fun child => (nestedEnd.stack.symbolNode child).symbol) =
        [some 4, some 5] ∧
      ∃ id, nestedEnd.Accepts (Host.inheriting : Host Unit)
        (nestedGrammar.rule 1)
        (nestedEnd.spansOf [2, 4]) id := by
  have facts :
      6 < nestedEnd.stack.symbols.size ∧
        nestedEnd.derivations 6 = [⟨1, [2, 4]⟩] := by
    decide +kernel
  have member : ⟨1, [2, 4]⟩ ∈ nestedEnd.derivations 6 :=
    facts.2 ▸ List.mem_singleton.mpr rfl
  obtain ⟨-, -, symbols, -, -, -, id, accepts, -⟩ :=
    (Reachable.derivation_sound build_nestedBuilder Host.decides_inheriting
      reachable_nestedEnd facts.1).1 _ member
  exact ⟨build_nestedBuilder, Host.decides_inheriting, reachable_nestedEnd,
    facts.1, member, symbols, id, accepts⟩

/-- The nodes to which derivations lead from a node, and the node itself. -/
inductive Descends (parser : Parser) (root : SymbolNodeId) : SymbolNodeId → Prop where
  | refl : Descends parser root root
  | child {node child : SymbolNodeId} {derivation : Derivation} :
      Descends parser root node →
      derivation ∈ parser.derivations node →
      child ∈ derivation.children →
      Descends parser root child

/-- Derivations lead to nodes of the stack. -/
theorem Descends.inside
    (sound : parser.Sound host grammar options)
    {root node : Nat}
    (rootInside : root < parser.stack.symbols.size)
    (descends : parser.Descends root node) :
    node < parser.stack.symbols.size := by
  induction descends with
  | refl => exact rootInside
  | child _ member isChild inside =>
      obtain ⟨-, _, yields, -⟩ :=
        (sound.forest _ inside).justified _ member
      exact yields.known _ isChild

/--
What derivations lead to from a root was read and is of a terminal, or has
derivations, or was removed by a greedy pass. From nodes that are live only
derivations by greedy rules lead to nodes whose derivations are gone.
-/
theorem Reachable.leaf_read_or_removed
    {builder : GrammarBuilder}
    (built : builder.build = .ok grammar)
    (reachable : Reachable host (grammar.compile options) config parser)
    {root node : SymbolNodeId}
    (isRoot : root ∈ parser.roots)
    (descends : parser.Descends root node) :
    ((parser.Shifted node ∧ ∃ symbol,
        (parser.stack.symbolNode node).symbol = some symbol ∧
          grammar.isNonterminal symbol = false) ∨
      parser.derivations node ≠ [] ∨
      config.greedy = true ∧ (parser.stack.symbolNode node).removed = true) ∧
    ((parser.stack.symbolNode node).removed = false →
      ∀ derivation ∈ parser.derivations node, ∀ child ∈ derivation.children,
        ¬ parser.Shifted child → parser.derivations child = [] →
          (grammar.rule derivation.rule).greedy = true) := by
  have wellFormed := GrammarBuilder.wellFormed_of_build built
  have sound := reachable.sound wellFormed
  have isGrammar : parser.compiled.grammar = grammar := by
    rw [sound.loaded.compiled]
    rfl
  have isConfig := reachable.config_eq
  obtain ⟨dropped, spares⟩ := sound.spared
  have inside := descends.inside sound ((sound.rooted root).mp isRoot).inside
  constructor
  · by_cases shifted : parser.Shifted node
    · obtain ⟨-, symbol, isSymbol, readable⟩ :=
        (sound.forest node inside).shifted shifted
      exact .inl ⟨shifted, symbol, isSymbol,
        readable.terminal sound.loaded wellFormed⟩
    · by_cases isEmpty : parser.derivations node = []
      · have removed := spares.removed node
          (spares.emptied node inside shifted isEmpty)
        refine .inr (.inr ⟨?_, removed⟩)
        refine Bool.eq_true_of_not_eq_false fun notGreedy => ?_
        have live := (sound.live (isConfig ▸ notGreedy)).symbol node
        rw [removed] at live
        cases live
      · exact .inr (.inl isEmpty)
  · intro live derivation member child isChild notShifted isEmpty
    have childInside := (Descends.child descends member isChild).inside sound
      ((sound.rooted root).mp isRoot).inside
    exact isGrammar ▸ spares.spared node live derivation member
      ⟨child, isChild, spares.emptied child childInside notShifted isEmpty⟩

section Sample

/-- What is left of two words in the nested grammar. -/
private theorem nestedEnd_facts :
    nestedEnd.roots = [6] ∧ nestedEnd.derivations 6 = [⟨1, [2, 4]⟩] ∧
      nestedEnd.derivations 2 = [] ∧ 2 ∈ (nestedEnd.stack.layer 1).reduced ∧
      (nestedEnd.stack.symbolNode 6).removed = false ∧
      (nestedEnd.stack.symbolNode 2).symbol = some 4 := by
  decide +kernel

private theorem nestedEnd_descends : nestedEnd.Descends 6 2 :=
  .child .refl (nestedEnd_facts.2.1 ▸ List.mem_singleton.mpr rfl)
    List.mem_cons_self

/--
A nonterminal under a live root is a leaf after three steps that succeed: its
only derivation went with a shorter phrase that lost to the root.
-/
theorem exists_leaf_nonterminal :
    nestedBuilder.build = .ok nestedGrammar ∧
      (∀ count < 3,
        ((Parsing.step Host.inheriting).run.run
          (afterSteps Host.inheriting count (nestedStart, ()))).1.isOk) ∧
      Reachable (Host.inheriting : Host Unit) (nestedGrammar.compile {}) {}
        nestedEnd ∧
      ∃ root ∈ nestedEnd.roots,
        (nestedEnd.stack.symbolNode root).removed = false ∧
        ∃ node symbol, nestedEnd.Descends root node ∧
          ¬ nestedEnd.Shifted node ∧ nestedEnd.derivations node = [] ∧
          (nestedEnd.stack.symbolNode node).symbol = some symbol ∧
          nestedGrammar.isNonterminal symbol = true := by
  obtain ⟨roots, -, isEmpty, reduced, live, isSymbol⟩ := nestedEnd_facts
  have succeeds : ∀ count < 3,
      ((Parsing.step Host.inheriting).run.run
        (afterSteps Host.inheriting count (nestedStart, ()))).1.isOk := by
    decide +kernel
  exact ⟨build_nestedBuilder, succeeds, reachable_nestedEnd, 6,
    roots ▸ List.mem_singleton.mpr rfl, live, 2, 4, nestedEnd_descends,
    fun shifted => shifted 1 reduced, isEmpty, isSymbol, rfl⟩

/-- The root of the nested parse leads to a removed leaf by a greedy rule. -/
theorem leaf_read_or_removed_nested :
    nestedBuilder.build = .ok nestedGrammar ∧
      Reachable (Host.inheriting : Host Unit) (nestedGrammar.compile {}) {}
        nestedEnd ∧
      6 ∈ nestedEnd.roots ∧ nestedEnd.Descends 6 2 ∧
      (nestedEnd.stack.symbolNode 2).removed = true ∧
      (nestedGrammar.rule 1).greedy = true := by
  obtain ⟨roots, derivations, isEmpty, reduced, live, -⟩ := nestedEnd_facts
  have isRoot : 6 ∈ nestedEnd.roots := roots ▸ List.mem_singleton.mpr rfl
  have notShifted : ¬ nestedEnd.Shifted 2 := fun shifted => shifted 1 reduced
  have leaf := (Reachable.leaf_read_or_removed build_nestedBuilder
    reachable_nestedEnd isRoot nestedEnd_descends).1
  have removed := ((leaf.resolve_left fun shifted => notShifted shifted.1)
    |>.resolve_left fun some => some isEmpty).2
  have greedy := (Reachable.leaf_read_or_removed build_nestedBuilder
    reachable_nestedEnd isRoot .refl).2 live ⟨1, [2, 4]⟩
    (derivations ▸ List.mem_singleton.mpr rfl) 2 List.mem_cons_self notShifted
    isEmpty
  exact ⟨build_nestedBuilder, reachable_nestedEnd, isRoot, nestedEnd_descends,
    removed, greedy⟩

end Sample

end Parser

end SpanForest
