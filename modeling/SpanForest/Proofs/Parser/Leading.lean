import SpanForest.Proofs.Parser.Settings
import SpanForest.Proofs.Parser.Stepping

namespace SpanForest

/-!
# Where steps lead

A step does its work in small moves: it asks the host, wakes state nodes and
lets them act, takes reductions and attaches what they produce. A relation
between runs that composes, and along which every move leads, is one along which
all the work at a word leads, whether it comes to its end or stops with an error.
-/

/-- Every run of an effect leads along a relation, whether it returns or stops. -/
def Follows
    {ε S σ α : Type}
    (along : S × σ → S × σ → Prop)
    (before : S)
    (effect : Effect ε S σ α) : Prop :=
  ∀ host : σ, along (before, host) (effect.run.run (before, host)).2

/-- An effect followed by another, which begins where the first one may return. -/
theorem Follows.bind
    {ε S σ α β : Type}
    {along : S × σ → S × σ → Prop}
    (compose : ∀ ⦃first second third : S × σ⦄,
      along first second → along second third → along first third)
    {before : S}
    {first : Effect ε S σ α}
    {second : α → Effect ε S σ β}
    {between : α → S → Prop}
    {stops : S → Prop}
    (ensures : Ensures before first between stops)
    (firstFollows : Follows along before first)
    (secondFollows : ∀ value middle, between value middle →
      Follows along middle (second value)) :
    Follows along before (first >>= second) := by
  intro host
  have holds := ensures host
  have leads := firstFollows host
  simp only [ExceptT.run_bind, StateT.run_bind]
  generalize first.run.run (before, host) = outcome at holds leads
  obtain ⟨result, middle, changed⟩ := outcome
  cases result with
  | ok value => exact compose leads (secondFollows value middle holds changed)
  | error error => exact leads

/-- An effect leads where everything leads that it is known to keep. -/
theorem Keeps.follows
    {ε S σ α : Type}
    {along : S × σ → S × σ → Prop}
    {relates : S → S → Prop}
    {effect : Effect ε S σ α}
    {before : S}
    (keeps : Keeps relates effect)
    (leads : ∀ after : S, relates before after →
      ∀ state changed : σ, along (before, state) (after, changed)) :
    Follows along before effect := by
  intro state
  have kept := keeps before state
  generalize effect.run.run (before, state) = outcome at kept
  obtain ⟨answer, after, changed⟩ := outcome
  cases answer <;> exact leads after kept state changed

/-- A relation between runs along which every move at a word leads. -/
structure Leads
    {σ : Type}
    (host : Host σ)
    (grammar : Grammar)
    (options : CompileOptions)
    (word : Nat)
    (along : Parser × σ → Parser × σ → Prop) : Prop where
  refl : ∀ run, along run run
  trans :
    ∀ ⦃first second third : Parser × σ⦄,
      along first second → along second third → along first third
  begins :
    ∀ (parser : Parser) (state : σ),
      along (parser, state) ({ parser with capped := false }, state)
  collects :
    ∀ {parser : Parser}, parser.Sound host grammar options →
      Follows along parser (Parsing.collectCandidates host word)
  wakes :
    ∀ {parser : Parser} (state : σ), parser.Sound host grammar options →
      along (parser, state) (parser.wakeWord word, state)
  acts :
    ∀ {parser : Parser} {node : StateNodeId} {rest : List StateNodeId}
      (state : σ), parser.Working host grammar options word →
      parser.active = node :: rest →
      along (parser, state) ({ parser with active := rest }.act node, state)
  takes :
    ∀ {parser : Parser} {reduction : Reduction} {rest : List Reduction}
      (state : σ), parser.Working host grammar options word →
      parser.reductions = reduction :: rest →
      along (parser, state) ({ parser with reductions := rest }, state)
  reduces :
    ∀ {parser : Parser} {rule : RuleId} {nodes : List SymbolNodeId}
      {via : Option StateNodeId},
      parser.Working host grammar options word → rule < grammar.rules.size →
      parser.Handle word rule via nodes →
      Follows along parser (Parsing.reducePath host (grammar.rule rule) nodes)
  attaches :
    ∀ {parser : Parser} {below : Nat} {derivation : Derivation} {id : Nat}
      (state : σ), parser.Working host grammar options word →
      parser.Attachable host word below derivation id →
      (parser.stack.stateNode below).removed = false →
      along (parser, state) (parser.attach word below id derivation, state)

/-- Finishing a word does not move on by itself. -/
theorem Parser.Working.position_finishWord
    {σ : Type}
    {host : Host σ}
    {grammar : Grammar}
    {options : CompileOptions}
    {word : Nat}
    {parser : Parser}
    (wellFormed : grammar.WellFormed)
    (working : parser.Working host grammar options word)
    (settled : parser.reductions = []) :
    (parser.finishWord word).position = word :=
  (working.sound.finishWord wellFormed working.position
    settled).2.position.trans working.position

namespace Parsing

/-- Do the work at a word, except for reading on and filtering at its end. -/
def workOn {σ : Type} (host : Host σ) (word : Nat) : Parsing σ Unit := do
  modifyParser fun current => { current with capped := false }
  collectCandidates host word
  modifyParser (·.wakeWord word)
  settle host word ((← parser).workBound word)

variable {σ : Type} {host : Host σ}
variable {grammar : Grammar} {options : CompileOptions} {word : Nat}
variable {along : Parser × σ → Parser × σ → Prop}
variable {parser : Parser}

/-- Processing a word is to work on it, then to read on and to filter. -/
theorem processWord_eq (word : Nat) :
    processWord host word =
      workOn host word >>= fun _ => modifyParser (·.finishWord word) := by
  simp only [processWord, workOn, bind_assoc]

theorem follows_get
    {α : Type}
    {rest : Parser → Parsing σ α}
    (follows : Follows along parser (rest parser)) :
    Follows along parser (Parsing.parser >>= rest) :=
  follows

theorem follows_modify
    {α : Type}
    (compose : ∀ ⦃first second third : Parser × σ⦄,
      along first second → along second third → along first third)
    {change : Parser → Parser}
    {rest : Unit → Parsing σ α}
    (changes : ∀ state : σ, along (parser, state) (change parser, state))
    (follows : Follows along (change parser) (rest ())) :
    Follows along parser (modifyParser change >>= rest) :=
  fun state => compose (changes state) (follows state)

/-- Attaching to several nodes leads along what attaching to one leads along. -/
theorem along_attachAll
    (wellFormed : grammar.WellFormed)
    (leads : Leads host grammar options word along)
    (working : parser.Working host grammar options word)
    {derivation : Derivation}
    {id : Nat}
    (below : List StateNodeId)
    (attachable : ∀ node ∈ below,
      parser.Attachable host word node derivation id)
    (state : σ) :
    along (parser, state) (parser.attachAll word id derivation below, state) := by
  unfold Parser.attachAll
  induction below generalizing parser with
  | nil => exact leads.refl _
  | cons node rest inductionHypothesis =>
      rw [List.foldl_cons]
      have nodeAttachable := attachable node List.mem_cons_self
      split
      · exact inductionHypothesis working fun other member =>
          attachable other (List.mem_cons_of_mem _ member)
      · rename_i isLive
        obtain ⟨attached, proceeds, -⟩ := working.attach wellFormed nodeAttachable
        refine leads.trans (leads.attaches state working nodeAttachable
          (by simpa using isLive)) (inductionHypothesis attached ?_)
        exact fun other member =>
          (attachable other (List.mem_cons_of_mem _ member)).grows working.sound
            proceeds.grows proceeds.unharmed attached.sound.stack

/-- Reducing a rule along paths leads where its moves lead. -/
theorem follows_reducePaths
    (wellFormed : grammar.WellFormed)
    (leads : Leads host grammar options word along)
    {rule : RuleId}
    {via : Option StateNodeId}
    (user : rule < grammar.rules.size)
    (paths : List (List SymbolNodeId))
    (working : parser.Working host grammar options word)
    (handles : ∀ nodes ∈ paths, parser.Handle word rule via nodes) :
    Follows along parser (reducePaths host word (grammar.rule rule) via paths) := by
  have terms : host.Terms grammar True := ⟨wellFormed, .inr trivial⟩
  induction paths generalizing parser with
  | nil => exact fun state => leads.refl _
  | cons nodes rest inductionHypothesis =>
      have handle := handles nodes List.mem_cons_self
      -- What follows once the first path was tried.
      have goOn : ∀ middle : Parser,
          middle.Working host grammar options word →
          parser.Proceeds word middle →
          Follows along middle (do
            let current ← Parsing.parser
            if current.capped then
              return ()
            else
              reducePaths host word (grammar.rule rule) via rest) := by
        intro middle middleWorking proceeds
        refine follows_get ?_
        split
        · exact fun state => leads.refl _
        · exact inductionHypothesis middleWorking fun other member =>
            (handles other (List.mem_cons_of_mem _ member)).grows proceeds.grows
              proceeds.unharmed middleWorking.sound.stack
      unfold reducePaths
      refine follows_get (.bind leads.trans
        (ensures_reducePath terms working.sound user
          (working.sound.spansOf_known handle.known))
        (leads.reduces working user handle) ?_)
      rintro outcome reduced ⟨learns, reducedSound, isOutcome⟩
      have proceeds := learns.proceeds word
      have reducedWorking := working.proceeds proceeds reducedSound
        fun _ member => .inl (learns.active ▸ member)
      cases outcome with
      | none => exact goOn reduced reducedWorking proceeds
      | some id =>
          obtain ⟨permits, accepts⟩ := isOutcome
          rw [wellFormed.id_rule (Nat.le_of_lt user)]
          have attachable : ∀ below ∈ parser.basesOf via nodes,
              reduced.Attachable host word below ⟨rule, nodes⟩ id :=
            fun below isBase => handle.attachable_later wellFormed proceeds.grows
              proceeds.unharmed reducedSound permits accepts isBase
          obtain ⟨attached, attaches, -⟩ :=
            reducedWorking.attachAll wellFormed _ attachable
          exact follows_modify leads.trans
            (along_attachAll wellFormed leads reducedWorking _ attachable)
            (goOn _ attached (proceeds.trans attaches))

/-- Trying a reduction leads where its moves lead. -/
theorem follows_reduce
    (wellFormed : grammar.WellFormed)
    (leads : Leads host grammar options word along)
    (working : parser.Working host grammar options word)
    {reduction : Reduction}
    (ready : parser.ReductionReady word reduction) :
    Follows along parser (reduce host word reduction) := by
  have isGrammar : parser.compiled.grammar = grammar :=
    working.sound.loaded.isGrammar
  unfold reduce
  refine follows_get ?_
  split
  · exact fun state => leads.refl _
  · have handle := fun path =>
      @Parser.Sound.handle _ _ _ _ _ _ working.sound wellFormed _ ready path
    simp only [isGrammar] at handle ⊢
    refine follows_reducePaths wellFormed leads (isGrammar ▸ ready.user) _
      working ?_
    intro nodes member
    obtain ⟨path, isPath, rfl⟩ := List.mem_map.mp member
    exact handle path isPath

/-- Settling a word leads where its moves lead. -/
theorem follows_settle
    (wellFormed : grammar.WellFormed)
    (leads : Leads host grammar options word along)
    (working : parser.Working host grammar options word)
    (fuel : Nat) :
    Follows along parser (settle host word fuel) := by
  have terms : host.Terms grammar True := ⟨wellFormed, .inr trivial⟩
  induction fuel generalizing parser with
  | zero => exact fun state => leads.refl _
  | succ fuel inductionHypothesis =>
      unfold settle
      refine follows_get ?_
      split
      · rename_i node rest isActive
        obtain ⟨taken, -⟩ := working.drop
          (isActive ▸ List.suffix_cons node rest) (List.suffix_refl _)
        have isNode : node = GraphStack.startNode ∨
            node ∈ (Parser.stack { parser with active := rest }
              |>.layer word).nodes :=
          working.active node (isActive ▸ List.mem_cons_self)
        exact follows_modify leads.trans
          (fun state => leads.acts state working isActive)
          (inductionHypothesis (taken.act wellFormed isNode).1)
      · rename_i reduction rest noneActive isNext
        obtain ⟨taken, takes⟩ := working.drop (List.suffix_refl _)
          (isNext ▸ List.suffix_cons reduction rest)
        have ready : Parser.ReductionReady { parser with reductions := rest }
            word reduction := by
          rw [← working.position]
          exact (working.sound.reductions reduction
            (isNext ▸ List.mem_cons_self)).grows takes.grows takes.unharmed
              working.sound.stack
        refine follows_modify leads.trans
          (fun state => leads.takes state working isNext) (.bind leads.trans
            (@ensures_reduce _ _ _ _ _ _ _ _ terms .anything [] taken _ ready
              trivial)
            (follows_reduce wellFormed leads taken ready) ?_)
        rintro _ tried ⟨triedWorking, -⟩
        exact inductionHypothesis triedWorking
      · exact fun state => leads.refl _

/-- The work at a word leads where its moves lead. -/
theorem follows_workOn
    (wellFormed : grammar.WellFormed)
    (leads : Leads host grammar options word along)
    (sound : parser.Sound host grammar options)
    (position : parser.position = word)
    (known : word ≤ parser.words.length) :
    Follows along parser (workOn host word) := by
  have terms : host.Terms grammar True := ⟨wellFormed, .inr trivial⟩
  have uncapped : Parser.Sound host { parser with capped := false }
      grammar options :=
    sound.dropWork _ _ (List.Subset.refl _) _
  unfold workOn
  refine follows_modify leads.trans (leads.begins parser) (.bind leads.trans
    (ensures_collectCandidates terms.tests uncapped word) (leads.collects uncapped) ?_)
  rintro _ collected ⟨collects, ready, ahead, -, atWord⟩
  have words : collected.words = parser.words := collects.words
  have working := ready.working_wakeWord (collects.position.trans position)
    (words ▸ known) ahead atWord
  exact follows_modify leads.trans (fun state => leads.wakes state ready)
    (follows_get (follows_settle wellFormed leads working _))

/-- The work at a word comes to its end, unless an error stops it. -/
theorem ensures_workOn
    (wellFormed : grammar.WellFormed)
    (sound : parser.Sound host grammar options)
    (position : parser.position = word)
    (known : word ≤ parser.words.length) :
    Ensures parser (workOn host word)
      (fun _ settled => settled.Working host grammar options word ∧
        settled.active = [] ∧ settled.reductions = [])
      (·.Sound host grammar options) := by
  have terms : host.Terms grammar True := ⟨wellFormed, .inr trivial⟩
  have uncapped : Parser.Sound host { parser with capped := false }
      grammar options :=
    sound.dropWork _ _ (List.Subset.refl _) _
  have stopped : ∀ after : Parser, Stopped host grammar options True after →
      after.Sound host grammar options :=
    fun _ stopped => stopped.1
  unfold workOn
  refine ensures_modify (.bind ((ensures_collectCandidates terms.tests uncapped
    word).imp (fun _ _ gathered => gathered) stopped) ?_)
  rintro _ collected ⟨collects, ready, ahead, -, atWord⟩
  have words : collected.words = parser.words := collects.words
  have working := ready.working_wakeWord (collects.position.trans position)
    (words ▸ known) ahead atWord
  refine ensures_modify (ensures_get ((ensures_settle terms .anything working
    trivial _ _ _ (Nat.le_refl _) (Nat.le_refl _)
    (Parser.weight_lt_workBound _ word)).imp ?_ stopped))
  rintro _ settled ⟨settledWorking, -, -, active, reductions⟩
  exact ⟨settledWorking, active, reductions⟩

/-- What a step of a run may come to, with an answer and the run it leaves. -/
inductive Stepped
    (host : Host σ)
    (grammar : Grammar)
    (options : CompileOptions)
    (along : Parser × σ → Parser × σ → Prop)
    (before : Parser × σ) :
    Except ParseError Bool →
    Parser × σ →
    Prop where
  | notStarted :
      before.1.started = false →
      Stepped host grammar options along before (.error .notStarted) before
  | finished :
      before.1.started = true →
      before.1.isFinished = true →
      Stepped host grammar options along before (.ok false) before
  | failed {error : ParseError} {after : Parser × σ} :
      before.1.started = true →
      before.1.isFinished = false →
      along before after →
      after.1.Sound host grammar options →
      Stepped host grammar options along before (.error error) after
  | processed {settled after : Parser} {state : σ} :
      before.1.started = true →
      before.1.isFinished = false →
      along before (settled, state) →
      settled.Working host grammar options before.1.position →
      settled.active = [] →
      settled.reductions = [] →
      after =
        { settled.finishWord before.1.position with
          position := before.1.position + 1 } →
      Stepped host grammar options along before (.ok !after.isFinished)
        (after, state)

/-- A step finishes a word only after all the work at it, which leads along. -/
theorem stepped_step
    (wellFormed : grammar.WellFormed)
    (leads : Leads host grammar options parser.position along)
    (sound : parser.Sound host grammar options)
    (state : σ) :
    Stepped host grammar options along (parser, state)
      ((step host).run.run (parser, state)).1
      ((step host).run.run (parser, state)).2 := by
  unfold step
  rw [run_get]
  split
  · rename_i notStarted
    exact .notStarted (by simpa using notStarted)
  rename_i started
  have isStarted : parser.started = true := by simpa using started
  split
  · rename_i finished
    exact .finished isStarted finished
  rename_i notFinished
  have unfinished : parser.isFinished = false := by simpa using notFinished
  have known := parser.position_le unfinished
  have follows := follows_workOn wellFormed leads sound rfl known state
  have ends := ensures_workOn wellFormed sound rfl known state
  rw [processWord_eq, bind_assoc, ExceptT.run_bind, StateT.run_bind]
  generalize (workOn host parser.position).run.run (parser, state) = outcome
    at follows ends
  obtain ⟨answer, settled, changed⟩ := outcome
  cases answer with
  | error error => exact .failed isStarted unfinished follows ends
  | ok _ =>
      obtain ⟨working, active, reductions⟩ := ends
      refine .processed isStarted unfinished follows working active reductions ?_
      change { settled.finishWord parser.position with
        position := (settled.finishWord parser.position).position + 1 } = _
      rw [working.position_finishWord wellFormed reductions]

/-- A step finishes the word when all the work at it came to its end. -/
theorem run_step
    {state changed : σ}
    {settled : Parser}
    (wellFormed : grammar.WellFormed)
    (sound : parser.Sound host grammar options)
    (started : parser.started = true)
    (unfinished : parser.isFinished = false)
    (ends : (workOn host parser.position).run.run (parser, state) =
      (.ok (), settled, changed)) :
    ((step host).run.run (parser, state)).2.1 =
      { settled.finishWord parser.position with
        position := parser.position + 1 } := by
  have known := parser.position_le unfinished
  have settles := ensures_workOn wellFormed sound rfl known state
  rw [ends] at settles
  obtain ⟨working, -, reductions⟩ := settles
  unfold step
  rw [run_get, if_neg (by simp [started]), if_neg (by simp [unfinished]),
    processWord_eq, bind_assoc, ExceptT.run_bind, StateT.run_bind, ends]
  change { settled.finishWord parser.position with
    position := (settled.finishWord parser.position).position + 1 } = _
  rw [working.position_finishWord wellFormed reductions]

end Parsing

end SpanForest
