import SpanForest.Proofs.Parser.Moving
import SpanForest.Proofs.Parser.Reading
import SpanForest.Proofs.Parser.Settling

namespace SpanForest

/-!
# Stepping through the words

A step collects the spans ahead, wakes the nodes of its word, settles the word
and finishes it. A sound parse stays sound by a step, whether the step succeeds
or ends the parse.
-/

namespace Parser

variable {σ : Type} {host : Host σ}
variable {grammar : Grammar} {options : CompileOptions} {word : Nat}
variable {first second third before after parser : Parser}

/-- A parse that is not finished is at one of its words, or at their end. -/
theorem position_le
    (parser : Parser)
    (unfinished : parser.isFinished = false) :
    parser.position ≤ parser.words.length :=
  Nat.le_of_not_lt (of_decide_eq_false unfinished)

/-- Waking a list of nodes. -/
theorem Sound.wakeAll
    (sound : parser.Sound host grammar options)
    (nodes : List StateNodeId) :
    (nodes.foldl activate parser).Sound host grammar options ∧
      parser.Wakes (nodes.foldl activate parser) ∧
      ∀ id : Nat, id ∈ (nodes.foldl activate parser).active ↔
        id ∈ nodes ∨ id ∈ parser.active := by
  induction nodes generalizing parser with
  | nil =>
      exact ⟨sound, .refl _, by simp⟩
  | cons node rest inductionHypothesis =>
      rw [List.foldl_cons]
      obtain ⟨-, wokenSound⟩ :=
        sound.setActive node true (node :: parser.active)
      obtain ⟨restSound, wakes, active⟩ := inductionHypothesis wokenSound
      refine ⟨restSound, (wakes_activate node).trans wakes, fun id => ?_⟩
      rw [List.mem_cons, or_assoc, or_left_comm, ← List.mem_cons]
      exact active id

/-- What waking the nodes of a word brings about. -/
structure WordWoken (word : Nat) (before after : Parser) : Prop where
  wakes : Parser.Wakes { before with active := [] } after
  active :
    ∀ id : Nat, id ∈ after.active ↔
      (id ∈ (before.stack.layer word).nodes ∧
        (before.stack.stateNode id).removed = false) ∨
      (id = GraphStack.startNode ∧ before.isAtEnd word = false ∧
        before.viable.contains word = true)

/-- Waking the nodes of a word. -/
theorem Sound.wakeWord
    (sound : parser.Sound host grammar options)
    (word : Nat) :
    (parser.wakeWord word).Sound host grammar options ∧
      parser.WordWoken word (parser.wakeWord word) := by
  have rested : Parser.Sound host { parser with active := [] } grammar
      options :=
    sound.dropWork _ _ (List.Subset.refl _) _
  obtain ⟨wokenSound, wakes, active⟩ := rested.wakeAll
    ((parser.stack.layer word).nodes.filter fun node =>
      !(parser.stack.stateNode node).removed)
  unfold Parser.wakeWord
  simp only
  generalize ((parser.stack.layer word).nodes.filter fun node =>
    !(parser.stack.stateNode node).removed).foldl activate
      { parser with active := [] } = woken at wokenSound wakes active ⊢
  have member : ∀ id : Nat, id ∈ woken.active ↔
      id ∈ (parser.stack.layer word).nodes ∧
        (parser.stack.stateNode id).removed = false := by
    intro id
    rw [active]
    simp
  split
  · rename_i starts
    obtain ⟨-, startedSound⟩ := wokenSound.setActive GraphStack.startNode true
      (GraphStack.startNode :: woken.active)
    refine ⟨startedSound, wakes.trans (wakes_activate _), fun id => ?_⟩
    have isStart : id ∈ (woken.activate GraphStack.startNode).active ↔
        id = GraphStack.startNode ∨ id ∈ woken.active :=
      List.mem_cons
    rw [isStart, member]
    simp only [Bool.and_eq_true, Bool.not_eq_true'] at starts
    simp [starts.1, starts.2, or_comm]
  · rename_i waits
    refine ⟨wokenSound, wakes, fun id => ?_⟩
    rw [member]
    refine ⟨.inl, fun isActive => isActive.resolve_right ?_⟩
    rintro ⟨-, notAtEnd, isViable⟩
    exact waits (by simp [notAtEnd, isViable])

/-- The stages through which a word was processed. -/
structure Processed
    (host : Host σ)
    (grammar : Grammar)
    (options : CompileOptions)
    (word : Nat)
    (before collected settled after : Parser) : Prop where
  collects :
    { before with capped := false, candidates := collected.candidates }.Learns
      collected
  ready : collected.Sound host grammar options
  ahead : collected.Ahead host
  complete :
    ∀ ahead, before.words[word]? = some ahead →
      ∀ base ∈ ahead.spans, collected.CollectedFrom base
  settles : (collected.wakeWord word).Proceeds word settled
  working : settled.Working host grammar options word
  active : settled.active = []
  reductions : settled.reductions = []
  ended : after = settled.finishWord word
  finishes : settled.Finishes word after
  sound : after.Sound host grammar options

theorem Processed.grows
    {collected settled : Parser}
    (processed :
      Processed host grammar options word before collected settled
        after) :
    before.Grows word after := by
  have collects : before.Grows word collected :=
    { processed.collects.grows word with }
  have woken := (processed.ready.wakeWord word).2.wakes.grows word
  have wakes : collected.Grows word (collected.wakeWord word) :=
    { woken with }
  have finishes := processed.finishes.grows
  have read : settled.Grows word after :=
    { finishes with stack := finishes.stack.since_le (Nat.le_succ word) }
  exact ((collects.trans wakes).trans processed.settles.grows).trans read

/-- The bound on the work at a word exceeds the weight of the work. -/
theorem weight_lt_workBound (parser : Parser) (word : Nat) :
    parser.weight word (parser.stack.symbols.size + parser.fresh word)
        (parser.stack.states.size + parser.fresh word) <
      parser.workBound word := by
  have bounded : missingFacts
      (allReductions parser.compiled.grammar.rules.size
        (parser.stack.symbols.size + parser.fresh word)
        (parser.stack.states.size + parser.fresh word))
      parser.performed.contains ≤ _ :=
    List.countP_le_length
  rw [length_allReductions] at bounded
  unfold Parser.weight Parser.workBound
  simp only [Parser.fresh] at bounded ⊢
  omega

/-- A word whose nodes were woken is worked on. -/
theorem Sound.working_wakeWord
    (sound : parser.Sound host grammar options)
    (position : parser.position = word)
    (known : word ≤ parser.words.length)
    (ahead : parser.Ahead host)
    (begins : parser.BeginsAt word) :
    (parser.wakeWord word).Working host grammar options word := by
  obtain ⟨wokenSound, woken⟩ := sound.wakeWord word
  have grows : parser.Grows 0 (parser.wakeWord word) :=
    { woken.wakes.grows 0 with }
  have candidates : (parser.wakeWord word).candidates = parser.candidates := by
    rw [woken.wakes.only_marks]
  have sameLayer : (parser.wakeWord word).stack.layer word =
      parser.stack.layer word :=
    woken.wakes.shape.layer word
  constructor
  case sound => exact wokenSound
  case position =>
    rw [woken.wakes.only_marks]
    exact position
  case known => rw [grows.words]; exact known
  case ahead => exact ahead.grows sound.loaded.ordered grows candidates
  case begins => exact begins.grows ahead grows candidates
  case active =>
    intro node member
    rw [sameLayer]
    rcases (woken.active node).mp member with ⟨listed, -⟩ | ⟨isStart, -⟩
    · exact .inr listed
    · exact .inl isStart

end Parser

namespace Parsing

variable {σ : Type} {host : Host σ}
variable {grammar : Grammar} {options : CompileOptions} {mayStop : Prop}
variable {word : Nat} {parser : Parser}
variable {holds : Parser → List Reduction → Parser → Prop}

/-- Processing a word goes through all its stages, unless it ends the parse. -/
theorem ensures_processWord
    (terms : host.Terms grammar mayStop)
    (kept : ∀ collected,
      Parser.Kept host grammar options word (holds collected))
    (sound : parser.Sound host grammar options)
    (position : parser.position = word)
    (known : word ≤ parser.words.length)
    (begins : ∀ collected : Parser,
      { parser with capped := false, candidates := collected.candidates }.Learns
          collected →
        collected.Sound host grammar options →
        (collected.wakeWord word).Working host grammar options word →
        holds collected [] (collected.wakeWord word)) :
    Ensures parser (processWord host word)
      (fun _ after => ∃ collected settled,
        Parser.Processed host grammar options word parser collected
          settled after ∧ holds collected [] settled)
      (Stopped host grammar options mayStop) := by
  unfold processWord
  refine ensures_modify ?_
  have uncapped : Parser.Sound host { parser with capped := false }
      grammar options :=
    sound.dropWork _ _ (List.Subset.refl _) _
  refine .bind (ensures_collectCandidates terms.tests uncapped word) ?_
  rintro _ collected ⟨collects, ready, ahead, complete, atWord⟩
  have words : collected.words = parser.words := collects.words
  have working := ready.working_wakeWord (collects.position.trans position)
    (words ▸ known) ahead atWord
  have isKept := begins collected collects ready working
  refine ensures_modify (ensures_get (.bind (ensures_settle terms (kept collected) working
    isKept _ _ _ (Nat.le_refl _) (Nat.le_refl _)
    (Parser.weight_lt_workBound _ word)) ?_))
  rintro _ settled ⟨settledWorking, settles, settledKept, active, reductions⟩
  obtain ⟨afterSound, finishes⟩ := settledWorking.sound.finishWord
    terms.wellFormed settledWorking.position reductions
  exact fun _ => ⟨collected, settled, ⟨collects, ready, ahead, complete, settles,
    settledWorking, active, reductions, rfl, finishes, afterSound⟩, settledKept⟩

/-- A step processes the next word, if there is one. -/
theorem ensures_step
    (terms : host.Terms grammar mayStop)
    (kept : ∀ collected,
      Parser.Kept host grammar options parser.position (holds collected))
    (sound : parser.Sound host grammar options)
    (started : parser.started = true ∨ mayStop)
    (begins : ∀ collected : Parser,
      { parser with capped := false, candidates := collected.candidates }.Learns
          collected →
        collected.Sound host grammar options →
        (collected.wakeWord parser.position).Working host grammar options
          parser.position →
        holds collected [] (collected.wakeWord parser.position)) :
    Ensures parser (step host)
      (fun remains after =>
        (remains = false ∧ parser.isFinished = true ∧ after = parser) ∨
          parser.isFinished = false ∧ ∃ collected settled finished,
            Parser.Processed host grammar options parser.position parser
              collected settled finished ∧ holds collected [] settled ∧
            after = { finished with position := parser.position + 1 } ∧
            remains = !after.isFinished)
      (Stopped host grammar options mayStop) := by
  unfold step
  refine ensures_get ?_
  split
  · rename_i notStarted
    refine .throw ⟨sound, started.resolve_left fun isStarted => ?_⟩
    simp [isStarted] at notStarted
  · split
    · rename_i isFinished
      exact .pure (.inl ⟨rfl, isFinished, rfl⟩)
    · rename_i notFinished
      have unfinished : parser.isFinished = false := by simpa using notFinished
      have known := parser.position_le unfinished
      refine .bind (ensures_processWord terms kept sound rfl known begins) ?_
      rintro _ finished ⟨collected, settled, processed, settledKept⟩
      have position : finished.position = parser.position :=
        processed.finishes.position.trans processed.working.position
      refine ensures_modify (ensures_get (.pure (.inr ⟨unfinished, collected,
        settled, finished, processed, settledKept, ?_, rfl⟩)))
      rw [position]

section Otherwise

variable (settles : (word fuel : Nat) → Parsing σ Unit)

/-- Process one word, settling it in some other way. -/
def processWordBy (host : Host σ) (word : Nat) : Parsing σ Unit := do
  modifyParser fun current => { current with capped := false }
  collectCandidates host word
  modifyParser (·.wakeWord word)
  settles word ((← Parsing.parser).workBound word)
  modifyParser (·.finishWord word)

/-- Process the next word, settling it in some other way. -/
def stepBy (host : Host σ) : Parsing σ Bool := do
  let current ← Parsing.parser
  if !current.started then
    throw .notStarted
  else if current.isFinished then
    return false
  else
    processWordBy settles host current.position
    modifyParser fun current => { current with position := current.position + 1 }
    return !(← Parsing.parser).isFinished

end Otherwise

/-- Steps settle words as they do. -/
theorem stepBy_settle (host : Host σ) : stepBy (settle host) host = step host :=
  rfl

/-- A step does the same if words are settled in a way that does the same. -/
theorem coincides_stepBy
    {settles : (word fuel : Nat) → Parsing σ Unit}
    (wellFormed : grammar.WellFormed)
    (sound : parser.Sound host grammar options)
    (coincides : ∀ woken : Parser,
      woken.Working host grammar options parser.position →
      Coincides woken
        (settles parser.position (woken.workBound parser.position))
        (settle host parser.position (woken.workBound parser.position))) :
    Coincides parser (stepBy settles host) (step host) := by
  have terms : host.Terms grammar True := ⟨wellFormed, .inr trivial⟩
  unfold stepBy step
  refine coincides_get ?_
  split
  · exact .refl _
  · split
    · exact .refl _
    · rename_i notFinished
      have unfinished : parser.isFinished = false := by simpa using notFinished
      have known := parser.position_le unfinished
      have uncapped : Parser.Sound host { parser with capped := false }
          grammar options :=
        sound.dropWork _ _ (List.Subset.refl _) _
      refine Coincides.followed ?_ _
      unfold processWordBy processWord
      refine coincides_modify rfl (.bind
        (ensures_collectCandidates terms.tests uncapped parser.position) ?_)
      rintro _ collected ⟨collects, ready, ahead, -, atWord⟩
      have words : collected.words = parser.words := collects.words
      have working := ready.working_wakeWord collects.position (words ▸ known)
        ahead atWord
      exact coincides_modify rfl
        (coincides_get ((coincides _ working).followed _))

end Parsing

end SpanForest
