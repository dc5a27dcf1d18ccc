import SpanForest.Proofs.Parser.Asking

namespace SpanForest

/-!
# The spans ahead

The candidates of a word are its input spans and whatever can be synthesized
from them. All of these are collected, and nothing that cannot be read.
-/

namespace Parser

/-- A parse that collected spans ahead, and has got further spans and memories. -/
structure Collects (before after : Parser) : Prop where
  learns : { before with candidates := after.candidates }.Learns after
  candidates : before.candidates ⊆ after.candidates

/-- Spans ahead can be read as what they are. -/
def Ahead {σ : Type} (host : Host σ) (parser : Parser) : Prop :=
  ∀ id : Nat, id ∈ parser.candidates →
    id < parser.spans.size ∧
      ∀ symbol, (parser.spans.get id).symbol = some symbol →
        parser.Readable host id symbol

/-- Spans ahead begin where the word begins. -/
def BeginsAt (word : Nat) (parser : Parser) : Prop :=
  ∀ id : Nat, id ∈ parser.candidates →
    ∃ ahead, parser.words[word]? = some ahead ∧
      ahead.start = (parser.spans.get id).start

/-- What a declaration let be synthesized from a span is ahead. -/
def Drawn (base : Nat) (declaration : Synthesized) (parser : Parser) : Prop :=
  ∃ made : Option Nat,
    parser.synthesized[((base, declaration.symbol) : SpanId × SymbolId)]? =
        some made ∧
      ∀ id : Nat, made = some id → id ∈ parser.candidates

/-- A span is ahead, and so is whatever was synthesized from it. -/
structure CollectedFrom (base : Nat) (parser : Parser) : Prop where
  listed : base ∈ parser.candidates
  drawn :
    ∀ symbol, (parser.spans.get base).symbol = some symbol →
      ∀ declaration ∈ parser.compiled.synthesizedFrom symbol,
        Drawn base declaration parser

section Collecting

variable {σ : Type} {host : Host σ}
variable {grammar : Grammar} {options : CompileOptions}
variable {first second third before after : Parser}

theorem Collects.refl (parser : Parser) : parser.Collects parser :=
  ⟨Learns.refl parser, List.Subset.refl _⟩

theorem Collects.trans
    (early : first.Collects second)
    (late : second.Collects third) :
    first.Collects third := by
  have renamed : { first with candidates := third.candidates }.Learns
      { second with candidates := third.candidates } :=
    { early.learns with candidates := rfl }
  exact ⟨renamed.trans late.learns,
    List.Subset.trans early.candidates late.candidates⟩

theorem Learns.collects (learns : before.Learns after) : before.Collects after where
  learns := { learns with candidates := rfl }
  candidates := fun _ member => learns.candidates.symm ▸ member

theorem Collects.grows
    (collects : before.Collects after)
    (since : Nat) :
    before.Grows since after :=
  { collects.learns.grows since with }

theorem Drawn.collects
    (collects : before.Collects after)
    {base : Nat}
    {declaration : Synthesized}
    (drawn : before.Drawn base declaration) :
    after.Drawn base declaration := by
  obtain ⟨made, stored, listed⟩ := drawn
  exact ⟨made, collects.learns.synthesized _ _ stored, fun id isMade =>
    collects.candidates (listed id isMade)⟩

theorem CollectedFrom.collects
    (collects : before.Collects after)
    {base : Nat}
    (committed : base < before.spans.size)
    (collected : before.CollectedFrom base) :
    after.CollectedFrom base where
  listed := collects.candidates collected.listed
  drawn symbol isSymbol declaration declared := by
    have grows := collects.grows 0
    rw [(grows.spans.get committed).2] at isSymbol
    rw [grows.compiled] at declared
    exact (collected.drawn symbol isSymbol declaration declared).collects
      collects

/-- A sound parse in the middle of collecting at an offset. -/
structure Gathering
    (host : Host σ)
    (grammar : Grammar)
    (options : CompileOptions)
    (offset : Nat)
    (start current : Parser) : Prop where
  collects : start.Collects current
  sound : current.Sound host grammar options
  ahead : current.Ahead host
  begins :
    ∀ id : Nat, id ∈ current.candidates →
      (current.spans.get id).start = offset

theorem Ahead.grows
    {since : Nat}
    (ahead : before.Ahead host)
    (ordered : before.context.Ordered)
    (grows : before.Grows since after)
    (candidates : after.candidates = before.candidates) :
    after.Ahead host := by
  intro id member
  rw [candidates] at member
  obtain ⟨committed, readable⟩ := ahead id member
  obtain ⟨stillCommitted, same⟩ := grows.spans.get committed
  refine ⟨stillCommitted, fun symbol isSymbol => ?_⟩
  rw [same] at isSymbol
  exact (readable symbol isSymbol).grows grows ordered

theorem BeginsAt.grows
    {since word : Nat}
    (begins : before.BeginsAt word)
    (ahead : before.Ahead host)
    (grows : before.Grows since after)
    (candidates : after.candidates = before.candidates) :
    after.BeginsAt word := by
  intro id member
  rw [candidates] at member
  rw [grows.words, (grows.spans.get (ahead id member).1).2]
  exact begins id member

/-- Adding candidates that can be read and begin at the offset. -/
theorem Gathering.add
    {offset : Nat}
    {start current : Parser}
    (gathering : Gathering host grammar options offset start current)
    {ids : List SpanId}
    (readable : ∀ id : Nat, id ∈ ids → id < current.spans.size ∧
      ∀ symbol, (current.spans.get id).symbol = some symbol →
        current.Readable host id symbol)
    (begins : ∀ id : Nat, id ∈ ids → (current.spans.get id).start = offset) :
    Gathering host grammar options offset start
        { current with candidates := current.candidates ++ ids } ∧
      current.Collects
        { current with candidates := current.candidates ++ ids } := by
  have collects : current.Collects
      { current with candidates := current.candidates ++ ids } :=
    ⟨.refl _, fun _ member => List.mem_append_left _ member⟩
  refine ⟨⟨gathering.collects.trans collects, ?_, ?_, ?_⟩, collects⟩
  · exact gathering.sound.dropWork _ _ (List.Subset.refl _) _
  · intro id member
    obtain ⟨committed, isReadable⟩ : id < current.spans.size ∧
        ∀ symbol, (current.spans.get id).symbol = some symbol →
          current.Readable host id symbol := by
      rcases List.mem_append.mp member with old | new
      · exact gathering.ahead id old
      · exact readable id new
    exact ⟨committed, fun symbol isSymbol => (isReadable symbol isSymbol).grows
      (collects.grows 0) gathering.sound.loaded.ordered⟩
  · intro id member
    exact (List.mem_append.mp member).elim (gathering.begins id) (begins id)

/-- A parse that learns goes on gathering. -/
theorem Gathering.learns
    {offset : Nat}
    {start : Parser}
    (gathering : Gathering host grammar options offset start before)
    (learns : before.Learns after)
    (sound : after.Sound host grammar options) :
    Gathering host grammar options offset start after where
  collects := gathering.collects.trans learns.collects
  sound := sound
  ahead := gathering.ahead.grows gathering.sound.loaded.ordered (learns.grows 0)
    learns.candidates
  begins id member := by
    rw [learns.candidates] at member
    rw [(learns.spans.get (gathering.ahead id member).1).2]
    exact gathering.begins id member

end Collecting

end Parser

namespace Parsing

variable {σ : Type} {host : Host σ}
variable {grammar : Grammar} {options : CompileOptions} {mayStop : Prop}
variable {start : Parser}

/-- What is synthesized from an input span is collected with it. -/
theorem ensures_collectDrawn
    (terms : host.TestTerms grammar mayStop)
    {current : Parser}
    {offset : Nat}
    (gathering : Parser.Gathering host grammar options offset start current)
    {base : Nat}
    (inInput : base ∈ current.input)
    (isStart : (current.spans.get base).start = offset)
    {declaration : Synthesized}
    (declared : declaration ∈ grammar.synthesized)
    (isBase : (current.spans.get base).symbol = some declaration.base) :
    Ensures current
      (do
        let made ← synthesize host base declaration
        addCandidates made.toList)
      (fun _ after => Parser.Gathering host grammar options offset start after ∧
        current.Collects after ∧ after.Drawn base declaration)
      (Stopped host grammar options mayStop) := by
  have committed := gathering.sound.loaded.ordered.input_known base inInput
  refine .bind (ensures_synthesize terms gathering.sound inInput declared
    isBase) ?_
  rintro made drawn ⟨learns, drawnSound, stored⟩ _
  have synthesized : ∀ id : Nat, id ∈ made.toList →
      ∃ own, own.symbol = declaration.symbol ∧
        drawn.Synthesizes host base own id := by
    intro id member
    obtain rfl := Option.mem_toList.mp member
    exact drawnSound.remembers.synthesized base declaration.symbol id stored
  have readable : ∀ id : Nat, id ∈ made.toList → id < drawn.spans.size ∧
      ∀ symbol, (drawn.spans.get id).symbol = some symbol →
        drawn.Readable host id symbol := by
    intro id member
    obtain ⟨own, -, synthesizes⟩ := synthesized id member
    have isReadable := Parser.Readable.synthesized synthesizes
    obtain ⟨known, isOwn⟩ := isReadable.stored drawnSound.loaded.ordered
    refine ⟨known, fun symbol isSymbol => ?_⟩
    rw [isOwn] at isSymbol
    exact Option.some.inj isSymbol ▸ isReadable
  have begins : ∀ id : Nat, id ∈ made.toList →
      (drawn.spans.get id).start = offset := by
    intro id member
    obtain ⟨own, -, synthesizes⟩ := synthesized id member
    rw [SpanStore.get_of_get? synthesizes.stored]
    exact (congrArg Span.start (learns.spans.get committed).2).trans isStart
  obtain ⟨added, collects⟩ :=
    (gathering.learns learns drawnSound).add readable begins
  exact ⟨added, learns.collects.trans collects, made, stored, fun id isMade =>
    List.mem_append_right _ (Option.mem_toList.mpr isMade)⟩

/-- Everything that stems from an input span is collected. -/
theorem ensures_collectFrom
    (terms : host.TestTerms grammar mayStop)
    {current : Parser}
    {offset : Nat}
    (gathering : Parser.Gathering host grammar options offset start current)
    {base : Nat}
    (fromInput : base ∈ start.input)
    (isStart : (current.spans.get base).start = offset) :
    Ensures current (collectFrom host base)
      (fun _ after => Parser.Gathering host grammar options offset start after ∧
        after.CollectedFrom base ∧
        ∀ other, current.CollectedFrom other → after.CollectedFrom other)
      (Stopped host grammar options mayStop) := by
  have inInput : base ∈ current.input := by
    rw [(gathering.collects.grows 0).input]
    exact fromInput
  have committed := gathering.sound.loaded.ordered.input_known base inInput
  have baseReadable : ∀ id : Nat, id ∈ [base] → id < current.spans.size ∧
      ∀ symbol, (current.spans.get id).symbol = some symbol →
        current.Readable host id symbol := by
    intro id member
    obtain rfl := List.mem_singleton.mp member
    exact ⟨committed, fun symbol isSymbol => .input inInput isSymbol⟩
  obtain ⟨withBase, collectsBase⟩ := gathering.add baseReadable
    fun id member => List.mem_singleton.mp member ▸ isStart
  have listed : base ∈ ({ current with
      candidates := current.candidates ++ [base] } : Parser).candidates := by
    simp
  unfold collectFrom
  refine ensures_modify (ensures_get ?_)
  generalize ({ current with candidates := current.candidates ++ [base] } :
    Parser) = middle at withBase collectsBase listed ⊢
  have baseSame := (collectsBase.grows 0).spans.get committed
  have known : ∀ other : Nat, current.CollectedFrom other →
      other < current.spans.size :=
    fun other collected => (gathering.ahead other collected.listed).1
  split
  · rename_i symbol isSymbol
    refine (Ensures.forM (fun latest =>
      Parser.Gathering host grammar options offset start latest ∧
        middle.Collects latest) (Parser.Drawn base) _ ?_
      ⟨withBase, .refl middle⟩).imp ?_ fun _ stopped => stopped
    · rintro declaration declared latest ⟨latestGathering, latestCollects⟩
      obtain ⟨isDeclared, isBase⟩ := List.mem_filter.mp declared
      have isGrammar : middle.compiled.grammar = grammar :=
        withBase.sound.loaded.isGrammar
      have latestInput : base ∈ latest.input := by
        rw [(latestGathering.collects.grows 0).input]
        exact fromInput
      have latestSame := ((latestCollects.grows 0).spans.get baseSame.1).2
      refine (ensures_collectDrawn terms latestGathering latestInput ?_
        (isGrammar ▸ isDeclared) ?_).imp ?_ fun _ stopped => stopped
      · rw [latestSame, baseSame.2]
        exact isStart
      · rw [latestSame, isSymbol, eq_of_beq isBase]
      · rintro _ after ⟨afterGathering, collects, drawn⟩
        exact ⟨⟨afterGathering, latestCollects.trans collects⟩, drawn,
          fun other otherDrawn => otherDrawn.collects collects⟩
    · rintro _ after ⟨⟨afterGathering, afterCollects⟩, drawn, -⟩
      refine ⟨afterGathering, ⟨afterCollects.candidates listed, ?_⟩, ?_⟩
      · intro own isOwn declaration declared
        have grows := afterCollects.grows 0
        rw [(grows.spans.get baseSame.1).2, isSymbol] at isOwn
        obtain rfl := Option.some.inj isOwn
        rw [grows.compiled] at declared
        exact drawn declaration declared
      · intro other collected
        exact collected.collects (collectsBase.trans afterCollects)
          (known other collected)
  · rename_i noSymbol
    refine .pure ⟨withBase, ⟨listed, ?_⟩, fun other collected =>
      collected.collects collectsBase (known other collected)⟩
    intro own isOwn
    rw [noSymbol] at isOwn
    cases isOwn

/-- The candidates of a word are collected, and begin where the word begins. -/
theorem ensures_collectCandidates
    (terms : host.TestTerms grammar mayStop)
    (sound : start.Sound host grammar options)
    (word : Nat) :
    Ensures start (collectCandidates host word)
      (fun _ after =>
        { start with candidates := after.candidates }.Learns after ∧
          after.Sound host grammar options ∧ after.Ahead host ∧
          (∀ ahead, start.words[word]? = some ahead →
            ∀ base ∈ ahead.spans, after.CollectedFrom base) ∧
          after.BeginsAt word)
      (Stopped host grammar options mayStop) := by
  unfold collectCandidates
  refine ensures_modify (ensures_get ?_)
  have resetSound : Parser.Sound host
      { start with candidates := [] } grammar options :=
    sound.dropWork _ _ (List.Subset.refl _) _
  have sameWords : ({ start with candidates := [] } : Parser).words =
      start.words :=
    rfl
  have sameReset : ∀ after : Parser,
      ({ start with candidates := [] } : Parser).Collects after →
        { start with candidates := after.candidates }.Learns after :=
    fun after collects => { collects.learns with }
  have noCandidates : ({ start with candidates := [] } : Parser).candidates = [] :=
    rfl
  generalize ({ start with candidates := [] } : Parser) = reset
    at resetSound sameWords sameReset noCandidates ⊢
  have noneAhead : reset.Ahead host := by simp [Parser.Ahead, noCandidates]
  have gathering : ∀ offset,
      Parser.Gathering host grammar options offset reset reset :=
    fun offset => ⟨.refl reset, resetSound, noneAhead, by simp [noCandidates]⟩
  rw [sameWords]
  split
  · rename_i ahead isAhead
    refine (Ensures.forM
      (Parser.Gathering host grammar options ahead.start reset)
      Parser.CollectedFrom _ ?_ (gathering _)).imp ?_ fun _ stopped => stopped
    · intro base member current currentGathering
      have isWord : ahead ∈ reset.words := by
        rw [sameWords]
        exact List.mem_of_getElem? isAhead
      obtain ⟨inInput, isStart⟩ :=
        resetSound.loaded.word_input ahead isWord base member
      refine ensures_collectFrom terms currentGathering inInput ?_
      rw [((currentGathering.collects.grows 0).spans.get
        (resetSound.loaded.ordered.input_known base inInput)).2]
      exact isStart
    · rintro _ after ⟨afterGathering, collected, -⟩
      refine ⟨sameReset after afterGathering.collects, afterGathering.sound,
        afterGathering.ahead, ?_, fun id member => ⟨ahead, ?_,
          (afterGathering.begins id member).symm⟩⟩
      · intro other isOther
        rw [isAhead] at isOther
        exact Option.some.inj isOther ▸ collected
      · rw [(afterGathering.collects.grows 0).words, sameWords]
        exact isAhead
  · rename_i isEnd
    refine .pure ⟨sameReset reset (.refl reset), resetSound, noneAhead, ?_, ?_⟩
    · intro other isOther
      rw [isEnd] at isOther
      cases isOther
    · simp [Parser.BeginsAt, noCandidates]

end Parsing

end SpanForest
