import SpanForest.Host

namespace SpanForest

/-!
# Scripted hosts

A host can be given as data: a script for each rule it handles and for each
predicate it decides. Its state is the record of the calls it answered, so a
script may behave differently in its first calls.
-/

/-- A call that a scripted host answered. -/
inductive HostCall where
  /-- A rule was about to produce `target` from the spans `rhs`. -/
  | action (rule : RuleId) (rhs : List SpanId) (target : Span)
  /-- A named predicate was asked about a span. -/
  | test (name : String) (span : SpanId)
  deriving Inhabited

/-- The calls of a scripted host, the latest first. -/
abbrev HostRecord := List HostCall

namespace HostRecord

/-- Number of recorded actions of a rule. -/
def actionCalls (record : HostRecord) (rule : RuleId) : Nat :=
  record.countP fun
    | .action called _ _ => called == rule
    | .test _ _ => false

/-- Number of recorded tests of a predicate. -/
def testCalls (record : HostRecord) (name : String) : Nat :=
  record.countP fun
    | .action _ _ _ => false
    | .test called _ => called == name

end HostRecord

/-- One step of the script of an action. -/
inductive ActionStep where
  /-- Take the features of the root child. -/
  | inherit
  | setFeature (name : String) (value : Value)
  /-- Take the features of all children, later ones in place of earlier ones. -/
  | mergeFeatures
  | setWeight (weight : Float)
  /-- Make a child the head. -/
  | setHead (child : Nat)
  | setRange (start stop : Nat)
  /-- Decline unless the target covers a text. -/
  | needText (text : String)
  /-- Decline unless a child has a feature. -/
  | needFeature (child : Nat) (name : String) (value : Value)
  | decline
  | refuse (error : ActionError)

/-- What an action is asked for. -/
structure ActionRequest where
  context : ParseContext
  rule : Rule
  rhs : List Span

/-- A child of the requested span. -/
def ActionRequest.child (request : ActionRequest) (position : Nat) : Span :=
  request.rhs.getD position default

/-- The target after a step; none declines. -/
def ActionStep.apply
    (request : ActionRequest)
    (target : Span) :
    ActionStep →
    Except ActionError (Option Span)
  | .inherit => .ok (some (inheritFeatures request.rule target request.rhs))
  | .setFeature name value =>
      .ok (some { target with features := target.features.insert name value })
  | .mergeFeatures =>
      let merged :=
        request.rhs.foldl (fun features child => features.merge child.features)
          target.features
      .ok (some { target with features := merged })
  | .setWeight weight => .ok (some { target with weight := weight })
  | .setHead child =>
      .ok (some { target with head := (request.child child).id })
  | .setRange start stop =>
      .ok (some { target with start := start, stop := stop })
  | .needText text =>
      if request.context.document.covered? target = some text then
        .ok (some target)
      else
        .ok none
  | .needFeature child name value =>
      if (request.child child).features.get? name = some value then
        .ok (some target)
      else
        .ok none
  | .decline => .ok none
  | .refuse error => .error error

/-- Script of an action; a script that comes to its end yields the target. -/
inductive ActionScript where
  | finish
  | perform (step : ActionStep) (rest : ActionScript)
  /-- In the first `calls` calls `inner` comes before the rest. -/
  | early (calls : Nat) (inner rest : ActionScript)
  deriving Inhabited

/-- Run the script of an action that was called `calls` times before. -/
def ActionScript.run
    (request : ActionRequest)
    (calls : Nat) :
    ActionScript →
    Span →
    Except ActionError (Option Span)
  | .finish, target => .ok (some target)
  | .perform step rest, target =>
      match step.apply request target with
      | .ok (some changed) => rest.run request calls changed
      | other => other
  | .early count inner rest, target =>
      if calls < count then
        match inner.run request calls target with
        | .ok (some changed) => rest.run request calls changed
        | other => other
      else
        rest.run request calls target

/-- Script of a named predicate. -/
inductive TestScript where
  | always (answer : Bool)
  | hasFeature (name : String) (value : Value)
  | covers (text : String)
  | minLength (length : Nat)
  | textContains (part : String)
  | minInputs (count : Nat)
  | refuse (error : ActionError)
  /-- The first `calls` calls are answered by `initial`, the others by `rest`. -/
  | early (calls : Nat) (initial rest : TestScript)
  deriving Inhabited

/-- Run the script of a predicate that was asked `calls` times before. -/
def TestScript.run
    (context : ParseContext)
    (span : Span)
    (calls : Nat) :
    TestScript →
    Except ActionError Bool
  | .always answer => .ok answer
  | .hasFeature name value => .ok (span.features.get? name == some value)
  | .covers text => .ok (context.document.covered? span == some text)
  | .minLength length => .ok (length ≤ span.length)
  | .textContains part =>
      .ok (Text.occursIn part.toList context.document.text.toList)
  | .minInputs count => .ok (count ≤ context.input.length)
  | .refuse error => .error error
  | .early count initial rest =>
      if calls < count then
        initial.run context span calls
      else
        rest.run context span calls

/-- Record the call of an action and run its script. -/
def ActionScript.handler (script : ActionScript) : ActionHandler HostRecord :=
  fun context rule target rhs record =>
    (script.run ⟨context, rule, rhs⟩ (record.actionCalls rule.id) target,
      .action rule.id (rhs.map (·.id)) target :: record)

/-- Record the call of a predicate and run its script. -/
def TestScript.handler
    (script : TestScript)
    (name : String) :
    TestHandler HostRecord :=
  fun context span record =>
    (script.run context span (record.testCalls name),
      .test name span.id :: record)

/-- Scripts by rule and by name, in the order in which they were registered. -/
structure HostScripts where
  actions : List (RuleId × ActionScript)
  tests : List (String × TestScript)

/-- The host of scripts: a later one replaces an earlier one of the same key. -/
def HostScripts.host (scripts : HostScripts) : Host HostRecord :=
  HandlerTable.host
    { actions :=
        scripts.actions.reverse.map fun (rule, script) =>
          (rule, script.handler)
      tests :=
        scripts.tests.reverse.map fun (name, script) =>
          (name, script.handler name) }

end SpanForest
