import SpanForest.Proofs.Parser.Ignoring
import SpanForest.Proofs.Parser.Reading

namespace SpanForest

/-!
# Words partition the input

Input spans are sorted once, and a single pass makes words of them: equal starts
stand together in the sorted input, wherever ignored spans are among them. Each
parseable span is in one word, and because starts ascend from word to word the
word behind a span can be sought by halves.
-/

/-- The order of spans within a word: the longer first, then by symbol and number. -/
def SpanStore.Before (spans : SpanStore) (left right : SpanId) : Prop :=
  (spans.get right).stop < (spans.get left).stop ∨
    (spans.get left).stop = (spans.get right).stop ∧
      ∃ symbol other, (spans.get left).symbol = some symbol ∧
        (spans.get right).symbol = some other ∧
          (symbol < other ∨ symbol = other ∧ left < right)

/--
Words that partition some input spans, which are stored under their positions.

A parseable span is in one word, and a word holds parseable spans that start where
it starts, in their order.
-/
structure PartitionsInput
    (grammar : Grammar)
    (input : List InputSpan)
    (spans : SpanStore)
    (words : List InputWord) : Prop where
  stored : ∀ id : SpanId, spans.get? id = input[id]?.map (·.bind grammar id)
  ascending : words.Pairwise fun left right => left.start < right.start
  once :
    ∀ (id : SpanId) (span : InputSpan), input[id]? = some span →
      (grammar.terminal? span.typeName).isSome →
      ∃! index : Nat, ∃ word, words[index]? = some word ∧ id ∈ word.spans
  only :
    ∀ word ∈ words, ∀ id ∈ word.spans,
      ∃ span, input[id]? = some span ∧
        (grammar.terminal? span.typeName).isSome ∧ span.start = word.start
  ordered : ∀ word ∈ words, word.spans.Pairwise spans.Before

/-- The first word behind a word that starts at an offset or later, or the end. -/
structure IsNextWord (words : List InputWord) (word stop next : Nat) : Prop where
  behind : word < next
  bounded : next ≤ words.length
  late : ∀ ahead, words[next]? = some ahead → stop ≤ ahead.start
  least :
    ∀ (other : Nat) (ahead : InputWord), word < other →
      words[other]? = some ahead → stop ≤ ahead.start → next ≤ other

/-- The first word from `low` on that starts at `stop` or later, sought by halves. -/
def bisectWords (words : List InputWord) (stop low high : Nat) : Nat :=
  if low < high then
    if (words.getD ((low + high) / 2) default).start < stop then
      bisectWords words stop ((low + high) / 2 + 1) high
    else
      bisectWords words stop low ((low + high) / 2)
  else
    low
termination_by high - low

section Searching

variable {words : List InputWord} {word stop : Nat}

theorem IsNextWord.unique
    {first second : Nat}
    (isFirst : IsNextWord words word stop first)
    (isSecond : IsNextWord words word stop second) :
    first = second := by
  have le : ∀ {next other : Nat}, IsNextWord words word stop next →
      IsNextWord words word stop other → next ≤ other := by
    intro next other isNext isOther
    by_cases inside : other < words.length
    · have isAhead := List.getElem?_eq_getElem inside
      exact isNext.least other _ isOther.behind isAhead (isOther.late _ isAhead)
    · exact Nat.le_trans isNext.bounded (Nat.le_of_not_lt inside)
  exact Nat.le_antisymm (le isFirst isSecond) (le isSecond isFirst)

/-- Words before the next one start too early. -/
theorem start_lt_of_lt_nextWord
    {other : Nat}
    {ahead : InputWord}
    (behind : word < other)
    (before : other < nextWord words word stop)
    (isAhead : words[other]? = some ahead) :
    ahead.start < stop := by
  have early : ∀ (list : List InputWord) (index : Nat),
      list[index]? = some ahead →
      index < (list.takeWhile (·.start < stop)).length → ahead.start < stop := by
    intro list
    induction list with
    | nil => exact fun _ isNone => nomatch isNone
    | cons first rest inductionHypothesis =>
        intro index isAhead inside
        rw [List.takeWhile_cons] at inside
        split at inside
        · rename_i isEarly
          cases index with
          | zero =>
              cases isAhead
              simpa using isEarly
          | succ index =>
              exact inductionHypothesis index isAhead (Nat.lt_of_succ_lt_succ inside)
        · cases inside
  obtain ⟨index, rfl⟩ := Nat.exists_eq_add_of_le behind
  refine early (words.drop (word + 1)) index ?_ ?_
  · rwa [List.getElem?_drop]
  · unfold nextWord at before
    omega

theorem isNextWord_nextWord (inside : word < words.length) :
    IsNextWord words word stop (nextWord words word stop) where
  behind := lt_nextWord
  bounded := nextWord_le_length inside
  late _ isAhead := le_start_nextWord isAhead
  least _ ahead behind isAhead late := Nat.le_of_not_lt fun before =>
    Nat.lt_irrefl ahead.start
      (Nat.lt_of_lt_of_le (start_lt_of_lt_nextWord behind before isAhead) late)

section Ascending

variable {left right : Nat} {first second : InputWord}

/-- Of words with ascending starts a later one starts later. -/
theorem start_lt_start
    (ascending : words.Pairwise fun left right => left.start < right.start)
    (before : left < right)
    (isFirst : words[left]? = some first)
    (isSecond : words[right]? = some second) :
    first.start < second.start := by
  obtain ⟨leftInside, rfl⟩ := List.getElem?_eq_some_iff.mp isFirst
  obtain ⟨rightInside, rfl⟩ := List.getElem?_eq_some_iff.mp isSecond
  exact List.pairwise_iff_getElem.mp ascending left right leftInside rightInside before

theorem start_le_start
    (ascending : words.Pairwise fun left right => left.start < right.start)
    (le : left ≤ right)
    (isFirst : words[left]? = some first)
    (isSecond : words[right]? = some second) :
    first.start ≤ second.start := by
  rcases Nat.eq_or_lt_of_le le with rfl | before
  · rw [Option.some.inj (isFirst.symm.trans isSecond)]
  · exact Nat.le_of_lt (start_lt_start ascending before isFirst isSecond)

/-- Words with ascending starts are told apart by them. -/
theorem index_unique
    (ascending : words.Pairwise fun left right => left.start < right.start)
    (isFirst : words[left]? = some first)
    (isSecond : words[right]? = some second)
    (sameStart : first.start = second.start) :
    left = right := by
  rcases Nat.lt_trichotomy left right with before | same | after
  · exact absurd sameStart
      (Nat.ne_of_lt (start_lt_start ascending before isFirst isSecond))
  · exact same
  · exact absurd sameStart.symm
      (Nat.ne_of_lt (start_lt_start ascending after isSecond isFirst))

end Ascending

/--
Halves of words with ascending starts narrow down on the next word.

All words from the one behind `word` up to `low` start before the offset, all from
`high` on at it or later.
-/
theorem isNextWord_bisectWords
    {low high : Nat}
    (ascending : words.Pairwise fun left right => left.start < right.start)
    (behind : word < low)
    (ordered : low ≤ high)
    (bounded : high ≤ words.length)
    (early :
      ∀ (other : Nat) (ahead : InputWord), word < other → other < low →
        words[other]? = some ahead → ahead.start < stop)
    (late :
      ∀ (other : Nat) (ahead : InputWord), high ≤ other →
        words[other]? = some ahead → stop ≤ ahead.start) :
    IsNextWord words word stop (bisectWords words stop low high) := by
  have atMiddle : ∀ {low high : Nat}, low < high → high ≤ words.length →
      words[(low + high) / 2]? = some (words.getD ((low + high) / 2) default) := by
    intro low high isOpen bounded
    have inside : (low + high) / 2 < words.length := by omega
    rw [List.getD_eq_getElem?_getD, List.getElem?_eq_getElem inside, Option.getD_some]
  fun_induction bisectWords words stop low high with
  | case1 low high isOpen isEarly inductionHypothesis =>
      refine inductionHypothesis (by omega) (by omega) bounded ?_ late
      intro other ahead _ before isAhead
      exact Nat.lt_of_le_of_lt
        (start_le_start ascending (Nat.le_of_lt_succ before) isAhead
          (atMiddle isOpen bounded)) isEarly
  | case2 low high isOpen isLate inductionHypothesis =>
      refine inductionHypothesis behind (by omega) (by omega) early ?_
      intro other ahead after isAhead
      exact Nat.le_trans (Nat.le_of_not_lt isLate)
        (start_le_start ascending after (atMiddle isOpen bounded) isAhead)
  | case3 low high isClosed =>
      obtain rfl : low = high := by omega
      exact ⟨behind, bounded, fun ahead isAhead => late low ahead (Nat.le_refl _) isAhead,
        fun other ahead isBehind isAhead isLate => Nat.le_of_not_lt fun before =>
          Nat.lt_irrefl ahead.start
            (Nat.lt_of_lt_of_le (early other ahead isBehind before isAhead) isLate)⟩

end Searching

section Grouping

variable {spans : SpanStore} {ids : List SpanId}

theorem flatMap_addToWords
    (start : Nat)
    (id : SpanId)
    (words : List InputWord) :
    (addToWords start id words).flatMap (·.spans) =
      id :: words.flatMap (·.spans) := by
  cases words with
  | nil => rfl
  | cons first rest =>
      rw [addToWords]
      split <;> rfl

/-- Put together again, words are the parseable spans in input order. -/
theorem flatMap_wordsOf (spans : SpanStore) (ids : List SpanId) :
    (wordsOf spans ids).flatMap (·.spans) =
      ids.filter fun id => !(spans.get id).isIgnored := by
  rw [wordsOf]
  induction ids.filter fun id => !(spans.get id).isIgnored with
  | nil => rfl
  | cons id rest inductionHypothesis =>
      rw [List.foldr_cons, flatMap_addToWords, inductionHypothesis]

/-- Words hold parseable spans only. -/
theorem isIgnored_of_mem_wordsOf
    {word : InputWord}
    {id : SpanId}
    (member : word ∈ wordsOf spans ids)
    (inWord : id ∈ word.spans) :
    (spans.get id).isIgnored = false := by
  have together : id ∈ (wordsOf spans ids).flatMap (·.spans) :=
    List.mem_flatMap.mpr ⟨word, member, inWord⟩
  rw [flatMap_wordsOf, List.mem_filter] at together
  simpa using together.2

/-- Spans of one start that follow one another in input order are ordered as in words. -/
theorem before_of_isLE_inputCompare
    {left right : SpanId}
    (sameStart : (spans.get left).start = (spans.get right).start)
    (leftCounts : (spans.get left).isIgnored = false)
    (rightCounts : (spans.get right).isIgnored = false)
    (ordered : (inputCompare spans left right).isLE = true)
    (differ : left ≠ right) :
    spans.Before left right := by
  obtain ⟨symbol, isSymbol⟩ :=
    Option.isSome_iff_exists.mp (Option.isNone_eq_false_iff.mp leftCounts)
  obtain ⟨other, isOther⟩ :=
    Option.isSome_iff_exists.mp (Option.isNone_eq_false_iff.mp rightCounts)
  have expanded : inputCompare spans left right =
      (((compare (spans.get left).start (spans.get right).start).then
        (compare (spans.get right).stop (spans.get left).stop)).then
          (compareSymbols (spans.get left).symbol (spans.get right).symbol)).then
            (compare left right) :=
    rfl
  rw [expanded, isSymbol, isOther] at ordered
  simp only [compareSymbols, Ordering.isLE_then_iff_or, Ordering.then_eq_lt,
    Ordering.then_eq_eq, Nat.compare_eq_lt, Nat.compare_eq_eq, Nat.isLE_compare]
    at ordered
  rcases ordered with ((early | ⟨-, longer⟩) | ⟨⟨-, sameStop⟩, lower⟩) |
    ⟨⟨⟨-, sameStop⟩, sameSymbol⟩, le⟩
  · exact absurd sameStart (Nat.ne_of_lt early)
  · exact .inl longer
  · exact .inr ⟨sameStop.symm, symbol, other, isSymbol, isOther, .inl lower⟩
  · exact .inr ⟨sameStop.symm, symbol, other, isSymbol, isOther,
      .inr ⟨sameSymbol, Nat.lt_of_le_of_ne le differ⟩⟩

/-- Within a word spans of sorted input stand in their order. -/
theorem pairwise_before_wordsOf
    (sorted : ids.Pairwise fun left right =>
      (inputCompare spans left right).isLE = true)
    (once : ids.Nodup)
    (sameStart : ∀ word ∈ wordsOf spans ids, ∀ id ∈ word.spans,
      (spans.get id).start = word.start)
    {word : InputWord}
    (member : word ∈ wordsOf spans ids) :
    word.spans.Pairwise spans.Before := by
  have within : word.spans.Sublist (ids.filter fun id => !(spans.get id).isIgnored) := by
    rw [← flatMap_wordsOf]
    exact List.sublist_flatten_of_mem (List.mem_map_of_mem member)
  have ordered := (sorted.and once).sublist (within.trans List.filter_sublist)
  refine ordered.imp_of_mem fun {left right} isLeft isRight ⟨isLE, differ⟩ => ?_
  exact before_of_isLE_inputCompare
    ((sameStart word member left isLeft).trans (sameStart word member right isRight).symm)
    (isIgnored_of_mem_wordsOf member isLeft) (isIgnored_of_mem_wordsOf member isRight)
    isLE differ

end Grouping

/-- The words of some input, once it is bound and sorted, partition it. -/
theorem partitionsInput_wordsOf
    (grammar : Grammar)
    (input : List InputSpan) :
    PartitionsInput grammar input (bindInput grammar .empty input)
      (wordsOf (bindInput grammar .empty input)
        (sortInput (bindInput grammar .empty input)
          (List.range (bindInput grammar .empty input).size))) := by
  have stored := fun id => @get?_bindInput grammar input id
  have sized := @size_bindInput grammar input
  generalize bindInput grammar .empty input = spans at stored sized
  have listed : ∀ id : SpanId, id ∈ sortInput spans (List.range spans.size) ↔
      id < input.length := by
    intro id
    rw [sortInput, mem_sortBy, List.mem_range, sized]
  have sorted := isLE_sortInput spans (List.range spans.size)
  have nodup : (sortInput spans (List.range spans.size)).Nodup :=
    sortBy_perm.nodup_iff.mpr List.nodup_range
  have worded := worded_wordsOf (pairwise_sortInput spans (List.range spans.size))
  have ordered := fun word member => @pairwise_before_wordsOf spans _ sorted nodup
    (fun word member id inWord => (worded.known word member id inWord).2) word member
  generalize sortInput spans (List.range spans.size) = ids at listed worded ordered
  have atStart : ∀ {id : SpanId} {span : InputSpan}, input[id]? = some span →
      (spans.get id).start = span.start ∧
        (spans.get id).symbol = grammar.terminal? span.typeName := by
    intro id span isSpan
    have isStored := stored id
    rw [isSpan] at isStored
    rw [SpanStore.get_of_get? isStored]
    exact ⟨rfl, rfl⟩
  constructor
  case stored => exact stored
  case ascending => exact worded.sorted
  case once =>
    intro id span isSpan counts
    obtain ⟨isStart, isSymbol⟩ := atStart isSpan
    have isParsed : (spans.get id).isIgnored = false := by
      rw [Span.isIgnored, isSymbol]
      exact Option.isNone_eq_false_iff.mpr counts
    obtain ⟨word, member, inWord⟩ := worded.complete id
      ((listed id).mpr (List.getElem?_eq_some_iff.mp isSpan).1) isParsed
    obtain ⟨index, isWord⟩ := List.mem_iff_getElem?.mp member
    refine ⟨index, ⟨word, isWord, inWord⟩, ?_⟩
    rintro other ⟨otherWord, isOther, inOther⟩
    refine index_unique worded.sorted isOther isWord ?_
    rw [← (worded.known word member id inWord).2,
      (worded.known otherWord (List.mem_of_getElem? isOther) id inOther).2]
  case only =>
    intro word member id inWord
    obtain ⟨inIds, startsThere⟩ := worded.known word member id inWord
    obtain ⟨span, isSpan⟩ : ∃ span, input[id]? = some span :=
      ⟨_, List.getElem?_eq_getElem ((listed id).mp inIds)⟩
    obtain ⟨isStart, isSymbol⟩ := atStart isSpan
    have counts := isIgnored_of_mem_wordsOf member inWord
    rw [Span.isIgnored, isSymbol] at counts
    exact ⟨span, isSpan, Option.isNone_eq_false_iff.mp counts,
      isStart.symm.trans startsThere⟩
  case ordered => exact ordered

namespace Parser

/--
After the start of a parse the words partition the parseable input, and the word
behind an offset is the next one that starts there or later; halving finds it.
-/
theorem start_partitions
    (parser : Parser)
    (document : Document)
    (input : List InputSpan) :
    let started := parser.start document input
    PartitionsInput parser.compiled.grammar input started.spans started.words ∧
      ∀ word stop : Nat, word < started.numWords →
        IsNextWord started.words word stop (nextWord started.words word stop) ∧
          bisectWords started.words stop (word + 1) started.numWords =
            nextWord started.words word stop := by
  intro started
  have partitions : PartitionsInput parser.compiled.grammar input
      started.spans started.words :=
    partitionsInput_wordsOf parser.compiled.grammar input
  refine ⟨partitions, fun word stop inside => ?_⟩
  have isNext : IsNextWord started.words word stop (nextWord started.words word stop) :=
    isNextWord_nextWord inside
  -- At first nothing lies between the word and `low`, and nothing from `high` on.
  refine ⟨isNext, IsNextWord.unique (isNextWord_bisectWords partitions.ascending
    (Nat.lt_succ_self word) inside (Nat.le_refl _) ?_ ?_) isNext⟩
  · intro other ahead behind before
    omega
  · intro other ahead outside isAhead
    have inside := (List.getElem?_eq_some_iff.mp isAhead).1
    exact absurd inside (Nat.not_lt.mpr outside)

end Parser

end SpanForest
