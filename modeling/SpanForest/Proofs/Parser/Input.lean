import SpanForest.Parser.Input
import SpanForest.Proofs.Span

namespace SpanForest

/-!
# Bound input and its words

Input spans are committed under their own numbers with terminals of the grammar.
Sorting keeps them all and puts them in the order of their starts, so every word
holds spans that start where the word starts, and words follow one another.
-/

/-- A committed input span: numbered, proper, and of a terminal if of anything. -/
structure Grammar.Binds (grammar : Grammar) (id : Nat) (span : Span) : Prop where
  own_id : span.id = id
  own_head : span.head = id
  proper : span.start ≤ span.stop
  terminal :
    ∀ symbol, span.symbol = some symbol →
      grammar.isNonterminal symbol = false ∧ symbol ≠ endOfInput ∧
        symbol ≠ emptyString

theorem Grammar.binds_committed
    {grammar : Grammar}
    (store : SpanStore)
    (input : InputSpan) :
    grammar.Binds store.nextId
      (store.committed (input.bind grammar store.nextId)) where
  own_id := rfl
  own_head := if_pos rfl
  proper := Nat.le_max_right _ _
  terminal symbol isSymbol := by
    obtain ⟨-, accepted⟩ := Option.filter_eq_some_iff.mp isSymbol
    simpa [and_assoc] using accepted

/-- Every input span is bound under its own number. -/
theorem binds_bindInput
    {grammar : Grammar}
    {store : SpanStore}
    (bound : ∀ id : Nat, id < store.size → grammar.Binds id (store.get id))
    (input : List InputSpan) :
    ∀ id : Nat, id < (bindInput grammar store input).size →
      grammar.Binds id ((bindInput grammar store input).get id) := by
  induction input generalizing store with
  | nil =>
      exact bound
  | cons span rest inductionHypothesis =>
      refine inductionHypothesis fun id inside => ?_
      rw [SpanStore.size_push] at inside
      rcases Nat.lt_succ_iff_lt_or_eq.mp inside with old | isNew
      · rw [((SpanStore.extends_push _).get old).2]
        exact bound id old
      · subst isNew
        have pushed : (store.push (span.bind grammar store.nextId)).2.get
            store.nextId = _ :=
          SpanStore.get_push _
        rw [show store.size = store.nextId from rfl, pushed]
        exact Grammar.binds_committed store span

section Order

instance orientedSymbols : Std.OrientedCmp compareSymbols where
  eq_swap {left right} := by
    cases left <;> cases right <;> first
      | rfl
      | exact @Std.OrientedCmp.eq_swap Nat compare _ _ _

instance transSymbols : Std.TransCmp compareSymbols where
  isLE_trans {first second third} early late := by
    cases first <;> cases second <;> cases third <;>
      simp_all only [compareSymbols, Ordering.isLE, Bool.false_eq_true]
    exact @Std.TransCmp.isLE_trans Nat compare _ _ _ _ early late

/-- An order of values is one of whatever the values are read from. -/
theorem transCmp_through
    {α β : Type}
    (order : α → α → Ordering)
    [Std.TransCmp order]
    (read : β → α) :
    Std.TransCmp fun left right => order (read left) (read right) where
  eq_swap {left right} :=
    @Std.OrientedCmp.eq_swap _ order _ (read left) (read right)
  isLE_trans {first second third} :=
    @Std.TransCmp.isLE_trans _ order _ (read first) (read second) (read third)

/-- Spans in input order. -/
def inputCompare (spans : SpanStore) : SpanId → SpanId → Ordering :=
  compareLex
    (fun left right => (spans.get left).inputOrder (spans.get right))
    compare

theorem inputOrder_eq :
    Span.inputOrder =
      compareLex
        (compareLex (compareOn Span.start)
          fun left right => compareOn Span.stop right left)
        (fun left right => compareSymbols left.symbol right.symbol) :=
  rfl

instance transInputOrder : Std.TransCmp Span.inputOrder := by
  rw [inputOrder_eq]
  have symbols := transCmp_through compareSymbols Span.symbol
  infer_instance

instance transInputCompare (spans : SpanStore) :
    Std.TransCmp (inputCompare spans) := by
  have spansOrdered := transCmp_through Span.inputOrder spans.get
  exact inferInstanceAs (Std.TransCmp (compareLex _ _))

/-- Sorted input is in input order. -/
theorem isLE_sortInput
    (spans : SpanStore)
    (ids : List SpanId) :
    (sortInput spans ids).Pairwise fun left right =>
      (inputCompare spans left right).isLE = true := by
  have isLE : ∀ order : Ordering, (order != .gt) = order.isLE := by decide
  have same : sortInput spans ids =
      sortBy (fun left right => (inputCompare spans left right).isLE) ids := by
    simp only [← isLE]
    rfl
  rw [same]
  refine pairwise_sortBy
    (fun _ _ _ early late => Std.TransCmp.isLE_trans early late)
    fun left right => ?_
  have swapped := @Std.OrientedCmp.eq_swap _ (inputCompare spans) _ right left
  rw [swapped]
  cases inputCompare spans left right <;> rfl

/-- Sorted input goes from earlier starts to later ones. -/
theorem pairwise_sortInput
    (spans : SpanStore)
    (ids : List SpanId) :
    (sortInput spans ids).Pairwise fun left right =>
      (spans.get left).start ≤ (spans.get right).start := by
  refine (isLE_sortInput spans ids).imp fun {left right} ordered => ?_
  have byStart := Ordering.isLE_left_of_isLE_then
    (Ordering.isLE_left_of_isLE_then
      (Ordering.isLE_left_of_isLE_then ordered))
  exact Nat.isLE_compare.mp byStart

/-- No two spans are equal in input order, as their numbers differ. -/
theorem eq_of_isLE_inputCompare
    {spans : SpanStore}
    {left right : SpanId}
    (early : (inputCompare spans left right).isLE = true)
    (late : (inputCompare spans right left).isLE = true) :
    left = right := by
  have same := Std.OrientedCmp.isLE_antisymm early late
  exact Nat.compare_eq_eq.mp (Ordering.then_eq_eq.mp same).2

end Order

section Words

/-- What is in a word after a span was put in front of words. -/
theorem mem_addToWords
    {start id : Nat}
    {words : List InputWord}
    {word : InputWord}
    (member : word ∈ addToWords start id words) :
    ∀ own : Nat, own ∈ word.spans →
      (own = id ∧ word.start = start) ∨
        ∃ old ∈ words, old.start = word.start ∧ own ∈ old.spans := by
  intro own inWord
  cases words with
  | nil =>
      cases List.mem_singleton.mp member
      exact .inl ⟨List.mem_singleton.mp inWord, rfl⟩
  | cons first rest =>
      rw [addToWords] at member
      split at member
      · rename_i same
        rcases List.mem_cons.mp member with isFirst | later
        · subst isFirst
          rcases List.mem_cons.mp inWord with isId | old
          · exact .inl ⟨isId, rfl⟩
          · exact .inr ⟨first, List.mem_cons_self, same, old⟩
        · exact .inr ⟨word, List.mem_cons_of_mem _ later, rfl, inWord⟩
      · rcases List.mem_cons.mp member with isNew | old
        · subst isNew
          exact .inl ⟨List.mem_singleton.mp inWord, rfl⟩
        · exact .inr ⟨word, old, rfl, inWord⟩

/-- A span that was put in front of words is in one of them, as are all others. -/
theorem exists_mem_addToWords
    {start id own : Nat}
    {words : List InputWord}
    (isOwn : own = id ∨ ∃ old ∈ words, own ∈ old.spans) :
    ∃ word ∈ addToWords start id words, own ∈ word.spans := by
  cases words with
  | nil =>
      rcases isOwn with rfl | ⟨old, member, -⟩
      · exact ⟨_, List.mem_singleton_self _, List.mem_singleton_self _⟩
      · cases member
  | cons first rest =>
      rw [addToWords]
      split
      · rcases isOwn with rfl | ⟨old, member, inOld⟩
        · exact ⟨_, List.mem_cons_self, List.mem_cons_self⟩
        · rcases List.mem_cons.mp member with rfl | later
          · exact ⟨_, List.mem_cons_self, List.mem_cons_of_mem _ inOld⟩
          · exact ⟨old, List.mem_cons_of_mem _ later, inOld⟩
      · rcases isOwn with rfl | ⟨old, member, inOld⟩
        · exact ⟨_, List.mem_cons_self, List.mem_singleton_self _⟩
        · exact ⟨old, List.mem_cons_of_mem _ member, inOld⟩

/-- Words begin with the word of the span that was put in front of them. -/
theorem pairwise_addToWords
    {start id : Nat}
    {words : List InputWord}
    (sorted : words.Pairwise fun left right => left.start < right.start)
    (early : ∀ word ∈ words, start ≤ word.start) :
    (addToWords start id words).Pairwise (fun left right =>
        left.start < right.start) ∧
      ∀ word ∈ addToWords start id words, start ≤ word.start := by
  cases words with
  | nil =>
      simp [addToWords]
  | cons first rest =>
      obtain ⟨least, restSorted⟩ := List.pairwise_cons.mp sorted
      rw [addToWords]
      split
      · rename_i same
        refine ⟨List.pairwise_cons.mpr ⟨fun word later => ?_, restSorted⟩, ?_⟩
        · exact same ▸ least word later
        · intro word member
          rcases List.mem_cons.mp member with isFirst | later
          · exact isFirst ▸ Nat.le_refl _
          · exact early word (List.mem_cons_of_mem _ later)
      · rename_i differs
        have before := early first List.mem_cons_self
        refine ⟨List.pairwise_cons.mpr ⟨fun word member => ?_, sorted⟩, ?_⟩
        · rcases List.mem_cons.mp member with isFirst | later
          · exact isFirst ▸ Nat.lt_of_le_of_ne before (Ne.symm differs)
          · exact Nat.lt_of_le_of_lt before (least word later)
        · intro word member
          rcases List.mem_cons.mp member with isNew | old
          · exact isNew ▸ Nat.le_refl _
          · exact early word old

/-- The words of spans in input order. -/
structure Worded (spans : SpanStore) (ids : List SpanId) (words : List InputWord) : Prop where
  sorted : words.Pairwise fun left right => left.start < right.start
  known :
    ∀ word ∈ words, ∀ id ∈ word.spans,
      id ∈ ids ∧ (spans.get id).start = word.start
  filled : ∀ word ∈ words, word.spans ≠ []
  complete :
    ∀ id ∈ ids, (spans.get id).isIgnored = false →
      ∃ word ∈ words, id ∈ word.spans

theorem worded_foldr
    {spans : SpanStore}
    {ids : List SpanId}
    (sorted : ids.Pairwise fun left right =>
      (spans.get left).start ≤ (spans.get right).start) :
    Worded spans ids
      (ids.foldr (fun id words => addToWords (spans.get id).start id words)
        []) := by
  induction ids with
  | nil =>
      exact ⟨.nil, by simp, by simp, by simp⟩
  | cons id rest inductionHypothesis =>
      obtain ⟨least, restSorted⟩ := List.pairwise_cons.mp sorted
      obtain ⟨wordsSorted, known, filled, complete⟩ :=
        inductionHypothesis restSorted
      rw [List.foldr_cons]
      generalize rest.foldr (fun id words =>
        addToWords (spans.get id).start id words) [] = words at *
      have early : ∀ word ∈ words, (spans.get id).start ≤ word.start := by
        intro word member
        obtain ⟨first, isFirst⟩ := List.exists_mem_of_ne_nil _ (filled word member)
        obtain ⟨inRest, isStart⟩ := known word member first isFirst
        exact isStart ▸ least first inRest
      constructor
      case sorted => exact (pairwise_addToWords wordsSorted early).1
      case known =>
        intro word member own inWord
        rcases mem_addToWords member own inWord with ⟨isId, isStart⟩ | old
        · subst isId
          exact ⟨List.mem_cons_self, isStart.symm⟩
        · obtain ⟨oldWord, oldMember, sameStart, inOld⟩ := old
          obtain ⟨inRest, isStart⟩ := known oldWord oldMember own inOld
          exact ⟨List.mem_cons_of_mem _ inRest, isStart.trans sameStart⟩
      case filled =>
        intro word member
        cases words with
        | nil =>
            cases List.mem_singleton.mp member
            simp
        | cons first later =>
            rw [addToWords] at member
            split at member
            · rcases List.mem_cons.mp member with isFirst | old
              · simp [isFirst]
              · exact filled word (List.mem_cons_of_mem _ old)
            · rcases List.mem_cons.mp member with isNew | old
              · simp [isNew]
              · exact filled word old
      case complete =>
        intro own listed counts
        refine exists_mem_addToWords ?_
        exact (List.mem_cons.mp listed).imp_right fun inRest =>
          complete own inRest counts

theorem worded_wordsOf
    {spans : SpanStore}
    {ids : List SpanId}
    (sorted : ids.Pairwise fun left right =>
      (spans.get left).start ≤ (spans.get right).start) :
    Worded spans ids (wordsOf spans ids) := by
  have words := worded_foldr
    (sorted.sublist (List.filter_sublist (p := fun id =>
      !(spans.get id).isIgnored)))
  exact ⟨words.sorted, fun word member id inWord =>
    let ⟨listed, isStart⟩ := words.known word member id inWord
    ⟨(List.mem_filter.mp listed).1, isStart⟩, words.filled,
    fun id listed counts => words.complete id
      (List.mem_filter.mpr ⟨listed, by simp [counts]⟩) counts⟩

end Words

end SpanForest
