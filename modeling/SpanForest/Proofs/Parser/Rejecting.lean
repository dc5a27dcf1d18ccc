import SpanForest.Proofs.Lr.Starting
import SpanForest.Proofs.Parser.Idling

namespace SpanForest

/-!
# Words that the prefix filter rejects

The start state reads a symbol ahead if it begins anything that the start symbol
derives. The filter may be stricter than that, as it looks at the symbols behind,
too. But prefixes of one symbol reject a word only if nothing ahead there begins
what the start symbol derives.
-/

namespace Parser

variable {grammar : Grammar} {options : CompileOptions} {word : Nat}
variable {parser : Parser}

/-- A word at which nothing ahead begins what the start symbol derives. -/
def Barren (parser : Parser) (word : Nat) : Prop :=
  ∀ edge ∈ parser.edges.getD word [], ∀ rest,
    ¬ parser.compiled.grammar.Derives [parser.compiled.grammar.start]
      (edge.1 :: rest)

/-- Where a parse may not start, nothing ahead begins what the start symbol derives. -/
def RejectsBarren (parser : Parser) : Prop :=
  ∀ word < parser.words.length, parser.viable.contains word = false →
    parser.Barren word

/-- Words are read as terminals that are not reserved. -/
theorem Loaded.terminal_of_mem_edges
    (wellFormed : grammar.WellFormed)
    (loaded : parser.Loaded grammar options)
    {edge : SymbolId × Nat}
    (isEdge : edge ∈ parser.edges.getD word []) :
    grammar.isNonterminal edge.1 = false ∧ edge.1 ≠ emptyString := by
  cases isAhead : parser.words[word]? with
  | none =>
      simp [edges, Array.getD_eq_getD_getElem?, List.getElem?_zipIdx, isAhead]
        at isEdge
  | some ahead =>
      rw [getD_edges isAhead] at isEdge
      obtain ⟨base, member, isEdge⟩ := List.mem_flatMap.mp isEdge
      have fromInput :=
        (loaded.word_input ahead (List.mem_of_getElem? isAhead) base member).1
      dsimp only at isEdge
      cases isSymbol : (parser.spans.get base).symbol with
      | none => simp [isSymbol] at isEdge
      | some own =>
          rw [isSymbol] at isEdge
          rcases List.mem_cons.mp isEdge with rfl | synthesized
          · obtain ⟨terminal, -, notEmpty⟩ :=
              loaded.input_terminal base fromInput own isSymbol
            exact ⟨terminal, notEmpty⟩
          · obtain ⟨declaration, listed, rfl⟩ := List.mem_map.mp synthesized
            have declared := (List.mem_filter.mp listed).1
            rw [loaded.compiled] at declared
            obtain ⟨terminal, behindRoot, -⟩ :=
              wellFormed.synthesized_terminal declared
            exact ⟨terminal, Nat.ne_of_gt (Nat.lt_trans (by decide) behindRoot)⟩

/-- The start node can read nothing at a barren word. -/
theorem Barren.idle
    (barren : parser.Barren word)
    (wellFormed : grammar.WellFormed)
    (loaded : parser.Loaded grammar options) :
    parser.Idle word := by
  intro edge isEdge
  refine Option.eq_none_iff_forall_ne_some.mpr fun target leads => ?_
  have notEmpty := (loaded.terminal_of_mem_edges wellFormed isEdge).2
  rw [loaded.compiled] at leads
  obtain ⟨rest, derives⟩ :=
    CompiledGrammar.exists_derives_of_goto?_startState wellFormed leads notEmpty
  refine barren edge isEdge rest ?_
  rw [loaded.isGrammar]
  exact derives

/-- Prefixes of one symbol reject barren words only. -/
theorem Loaded.barren_of_rejected
    (wellFormed : grammar.WellFormed)
    (loaded : parser.Loaded grammar options)
    (short : options.prefixLength ≤ 1)
    (inside : word < parser.words.length)
    (rejected : (viableWords parser.compiled true parser.spans
      parser.words).contains word = false) :
    parser.Barren word := by
  intro edge isEdge rest derives
  rw [loaded.isGrammar] at derives
  obtain ⟨terminal, notEmpty⟩ := loaded.terminal_of_mem_edges wellFormed isEdge
  have isStart := wellFormed.start_nonterminal.1
  have edgeKnown := wellFormed.known_of_derives derives
    (List.forall_mem_singleton.mpr ⟨Grammar.lt_numSymbols_of_isNonterminal isStart,
      wellFormed.ne_emptyString isStart⟩) edge.1 List.mem_cons_self
  have isPrefix := PrefixSets.singleton_mem_get wellFormed short derives
    ⟨edgeKnown.1, terminal⟩ notEmpty
  have viable := loaded.viable_of_chain isPrefix inside (.cons isEdge (.nil _))
  rw [viable] at rejected
  cases rejected

end Parser

end SpanForest
