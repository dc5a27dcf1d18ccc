import SpanForest.Host
import SpanForest.Predicate.Cache
import SpanForest.Predicate.Network

namespace SpanForest

/-!
# Evaluating predicates

A predicate is evaluated on a span at most once: its truth and everything the
network entails from it go into the cache. Operands are evaluated from left to
right and no further than needed. A named predicate that the host rejects is
false; a fatal error ends the evaluation and leaves no trace in the cache.
-/

/-- Counters of an evaluation. -/
structure EvalStats where
  /-- Predicates and groups that were computed. -/
  evaluated : Nat
  cacheHits : Nat
  /-- Entries filled by entailment. -/
  implied : Nat
  deriving Repr, DecidableEq, Inhabited

/-- Known truth values and counters. -/
structure Evaluator where
  cache : PredicateCache
  stats : EvalStats
  deriving Repr, DecidableEq, Inhabited

namespace Evaluator

/-- Nothing is known of any predicate of the network. -/
def ofNetwork (network : PredicateNetwork) : Evaluator :=
  ⟨.empty network.size, ⟨0, 0, 0⟩⟩

/-- Forget all truth values and counters. -/
def clear (evaluator : Evaluator) : Evaluator :=
  ⟨evaluator.cache.clear, ⟨0, 0, 0⟩⟩

/-- Count an answer from the cache. -/
def countHit (evaluator : Evaluator) : Evaluator :=
  { evaluator with
    stats.cacheHits := evaluator.stats.cacheHits + 1 }

/-- Count a computation. -/
def countEvaluated (evaluator : Evaluator) : Evaluator :=
  { evaluator with
    stats.evaluated := evaluator.stats.evaluated + 1 }

/-- Enter an entailed truth unless one is known, and count it if it was new. -/
def imply
    (evaluator : Evaluator)
    (predicate : PredicateId)
    (span : SpanId)
    (value : Bool) :
    Evaluator :=
  let (added, cache) := evaluator.cache.imply predicate span value
  { cache := cache
    stats :=
      { evaluator.stats with
        implied := evaluator.stats.implied + if added then 1 else 0 } }

/-- Enter the truth of every member of a group. -/
def implyGroup
    (evaluator : Evaluator)
    (members holding : List PredicateId)
    (span : SpanId) :
    Evaluator :=
  members.foldl
    (fun current member =>
      current.imply member span (holding.contains member))
    evaluator

/-- Enter everything that is entailed. -/
def implyAll
    (evaluator : Evaluator)
    (entailed : Entailed)
    (span : SpanId) :
    Evaluator :=
  let withTrue :=
    entailed.alsoTrue.foldl (fun current id => current.imply id span true)
      evaluator
  entailed.alsoFalse.foldl (fun current id => current.imply id span false)
    withTrue

/-- Settle all members of a predicate's group by the value of its accessor. -/
def dispatch
    (evaluator : Evaluator)
    (network : PredicateNetwork)
    (context : ParseContext)
    (predicate : PredicateId)
    (span : Span) :
    Evaluator :=
  match (network.implications predicate).group.bind (network.groups[·]?) with
  | some group =>
      let value := group.accessor.read? span context.document
      evaluator.countEvaluated.implyGroup group.members
        (network.walk group value) span.id
  | none => evaluator

/-- Enter a computed truth and all that it entails. -/
def record
    (evaluator : Evaluator)
    (network : PredicateNetwork)
    (predicate : PredicateId)
    (span : SpanId)
    (value : Bool) :
    Evaluator :=
  let implications := network.implications predicate
  let entailed :=
    if value then implications.whenTrue else implications.whenFalse
  implyAll
    { evaluator with cache := evaluator.cache.set predicate span value }
    entailed span

end Evaluator

/-- Evaluations with a host state; an error keeps what was done before it. -/
abbrev Evaluation (σ : Type) := ExceptT ActionError (StateM (Evaluator × σ))

namespace Evaluation

variable {σ : Type}

/-- The evaluator as it stands. -/
def evaluator : Evaluation σ Evaluator := do
  return (← get).1

/-- Change the evaluator. -/
def modifyEvaluator (change : Evaluator → Evaluator) : Evaluation σ Unit :=
  modify fun (evaluator, host) => (change evaluator, host)

/-- Let the host act on its state; its refusal is thrown. -/
def callHost
    {α : Type}
    (call : σ → Except ActionError α × σ) :
    Evaluation σ α := do
  let (evaluator, host) ← get
  let (answer, changed) := call host
  set (evaluator, changed)
  match answer with
  | .ok value => return value
  | .error error => throw error

end Evaluation

/--
The input spans among which a context predicate looks, in input order.

The input is ordered by start, so spans placed inside or at an end of the
tested span start within it, and enclosing spans start no later than it.
-/
def ParseContext.siblings
    (context : ParseContext)
    (placement : Placement)
    (span : Span) :
    List Span :=
  let input := context.input.map context.spans.get
  match placement with
  | .within => input.takeWhile fun sibling => sibling.start ≤ span.start
  | _ =>
      (input.dropWhile fun sibling => sibling.start < span.start).takeWhile
        fun sibling => sibling.start ≤ span.stop

/-- Decide a named predicate; a rejection counts as false. -/
def testByHost
    {σ : Type}
    (host : Host σ)
    (context : ParseContext)
    (name : String)
    (span : Span) :
    Evaluation σ Bool :=
  Evaluation.callHost fun state =>
    match host.test name context span state with
    | (.error (.rejected _), changed) => (.ok false, changed)
    | answer => answer

/-- The error of an evaluation that needs its own outcome. -/
def cyclicOperands : ActionError :=
  .fatal "predicate operands are cyclic"

/-- Compute a predicate, given how its operands are evaluated. -/
def computePredicate
    {σ : Type}
    (host : Host σ)
    (context : ParseContext)
    (operand : PredicateId → Span → Evaluation σ Bool)
    (predicate : Predicate)
    (span : Span) :
    Evaluation σ Bool :=
  match predicate.localTruth? span context.document with
  | some value => return value
  | none =>
      match predicate with
      | .not inner => return !(← operand inner span)
      | .and inners => inners.allM (operand · span)
      | .or inners => inners.anyM (operand · span)
      | .context placement inner =>
          ((context.siblings placement span).filter fun sibling =>
              sibling.id != span.id && placement.admits span sibling).anyM
            (operand inner)
      | .custom name => testByHost host context name span
      | _ => return false

/--
Evaluate predicate `id` on a span, through the cache.

Operands are evaluated with one unit of `fuel` less. Unless the truth of a
predicate on a span depends on itself, no pair of the two occurs within itself,
so evaluations nest no deeper than there are pairs. Deeper ones would never end
and are given up.
-/
def evaluateWithin
    {σ : Type}
    (network : PredicateNetwork)
    (host : Host σ)
    (context : ParseContext) :
    (fuel : Nat) →
    (id : PredicateId) →
    Span →
    Evaluation σ Bool
  | 0, _, _ => throw cyclicOperands
  | fuel + 1, id, span => do
      match (← Evaluation.evaluator).cache.get? id span.id with
      | some value =>
          Evaluation.modifyEvaluator Evaluator.countHit
          return value
      | none =>
          Evaluation.modifyEvaluator
            (·.dispatch network context id span)
          match (← Evaluation.evaluator).cache.get? id span.id with
          | some value => return value
          | none =>
              Evaluation.modifyEvaluator Evaluator.countEvaluated
              let value ←
                match network.predicates.get? id with
                | some predicate =>
                    computePredicate host context
                      (evaluateWithin network host context fuel)
                      predicate span
                | none => pure false
              Evaluation.modifyEvaluator (·.record network id span.id value)
              return value

/-- Evaluate a predicate on a span. -/
def evaluatePredicate
    {σ : Type}
    (network : PredicateNetwork)
    (host : Host σ)
    (context : ParseContext)
    (id : PredicateId)
    (span : Span) :
    Evaluation σ Bool :=
  evaluateWithin network host context
    (network.size * (context.spans.size + 1)) id span

end SpanForest
