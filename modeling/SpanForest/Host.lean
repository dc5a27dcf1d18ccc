import SpanForest.Grammar.Basic

namespace SpanForest

/-!
# Hosts

A host runs what the parser cannot decide itself: the action of a rule that is
about to produce a span, and predicates known by name only. It may keep a state
of its own between calls. It sees the parse but changes nothing except the span
that it is asked to produce.
-/

/-- What a host may refuse. -/
inductive ActionError where
  /-- Only the present request is refused. -/
  | rejected (reason : String)
  /-- The whole parse is to be given up. -/
  | fatal (reason : String)
  deriving Repr, DecidableEq

/-- The message that describes a refusal. -/
def ActionError.message : ActionError → String
  | .rejected reason => "action rejected: " ++ reason
  | .fatal reason => "fatal action error: " ++ reason

/-- The parse as hosts and predicates see it. -/
structure ParseContext where
  document : Document
  spans : SpanStore
  /-- All input spans in input order. -/
  input : List SpanId
  deriving Inhabited

/-- Callbacks of a host with states of type `σ`. -/
structure Host (σ : Type) where
  /--
  Run the action of a rule on the span to be produced and the spans of its
  right-hand side. It yields the span to commit, or none to decline.
  -/
  execute :
    ParseContext →
    Rule →
    (target : Span) →
    (rhs : List Span) →
    σ →
    Except ActionError (Option Span) × σ
  /-- Decide a named predicate on a span. -/
  test :
    (name : String) →
    ParseContext →
    Span →
    σ →
    Except ActionError Bool × σ

/-- The target with the features of the child at the rule's root position. -/
def inheritFeatures (rule : Rule) (target : Span) (rhs : List Span) : Span :=
  match rhs[rule.rootIndex]? with
  | some root => { target with features := root.features }
  | none => target

/-- The refusal of a predicate that no host knows. -/
def unknownTest (name : String) : ActionError :=
  .rejected ("no predicate function \x60" ++ name ++ "\x60")

/-- The host that lets features be inherited and knows no predicate. -/
def Host.inheriting {σ : Type} : Host σ where
  execute _ rule target rhs state :=
    (.ok (some (inheritFeatures rule target rhs)), state)
  test name _ _ state := (.error (unknownTest name), state)

/-- An action registered for one rule. -/
abbrev ActionHandler (σ : Type) :=
  ParseContext →
  Rule →
  Span →
  List Span →
  σ →
  Except ActionError (Option Span) × σ

/-- A decision registered for one predicate name. -/
abbrev TestHandler (σ : Type) :=
  ParseContext →
  Span →
  σ →
  Except ActionError Bool × σ

/-- Actions by rule and decisions by name. -/
structure HandlerTable (σ : Type) where
  actions : List (RuleId × ActionHandler σ)
  tests : List (String × TestHandler σ)

/-- The host of registered handlers; the rest is left to the inheriting host. -/
def HandlerTable.host {σ : Type} (table : HandlerTable σ) : Host σ where
  execute context rule target rhs state :=
    match table.actions.lookup rule.id with
    | some handler => handler context rule target rhs state
    | none => Host.inheriting.execute context rule target rhs state
  test name context span state :=
    match table.tests.lookup name with
    | some handler => handler context span state
    | none => Host.inheriting.test name context span state

end SpanForest
