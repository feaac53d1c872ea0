import McpGatekeeper.Glob
import McpGatekeeper.Text.PythonText

namespace McpGatekeeper.PolicyEngine

open McpGatekeeper.Glob
open McpGatekeeper.JsonValues

inductive Action
  | allow
  | deny
  | requireApproval
  deriving DecidableEq

structure AnnotationView where
  readOnly : Option Bool := none
  destructive : Option Bool := none
  idempotent : Option Bool := none
  openWorld : Option Bool := none
  deriving DecidableEq

structure PolicyRequest where
  tool : String
  upstream : String
  arguments : JsonObject := []
  annotations : AnnotationView := {}

structure ArgumentCondition where
  path : String
  pattern : String
  deriving DecidableEq

structure RuleCondition where
  arguments : List ArgumentCondition := []
  readOnly : Option Bool := none
  destructive : Option Bool := none
  idempotent : Option Bool := none
  openWorld : Option Bool := none
  deriving DecidableEq

def RuleCondition.isEmpty (condition : RuleCondition) : Bool :=
  condition.arguments.isEmpty && condition.readOnly.isNone &&
    condition.destructive.isNone && condition.idempotent.isNone &&
    condition.openWorld.isNone

structure Rule where
  tool : String
  action : Action
  condition : RuleCondition := {}
  reason : Option String := none
  upstream : Option String := none
  deriving DecidableEq

structure Policy where
  rules : List Rule := []
  default : Action := .requireApproval
  defaultReason : Option String := none
  deriving DecidableEq

inductive Source
  | rule
  | default
  deriving DecidableEq

structure Decision where
  action : Action
  source : Source
  reason : Option String := none
  ruleIndex : Option Nat := none
  deriving DecidableEq

/-- The loop of `resolve_argument`; `.null` stands for Python's `None`, which is
also what a missing segment gives. -/
def resolveLoop : Json → List (List Char) → Json
  | current, [] => current
  | .obj fields, segment :: segments =>
      match fields.lookup (String.ofList segment) with
      | none => .null
      | some value => resolveLoop value segments
  | _, _ :: _ => .null

def resolveArgument (arguments : JsonObject) (path : String) : Json :=
  resolveLoop (.obj arguments) (PythonText.split '.' path.toList)

def argumentMatches (arguments : JsonObject) (condition : ArgumentCondition) : Bool :=
  match resolveArgument arguments condition.path with
  | .null => false
  | value =>
      match canonicalValue value with
      | none => false
      | some rendered => matchPath condition.pattern rendered

def annotationsMatch (view : AnnotationView) (condition : RuleCondition) : Bool :=
  [(condition.readOnly, view.readOnly), (condition.destructive, view.destructive),
    (condition.idempotent, view.idempotent), (condition.openWorld, view.openWorld)].all
    fun (expected, actual) => expected.isNone || actual == expected

def ruleMatches (rule : Rule) (request : PolicyRequest) : Bool :=
  if rule.upstream.isSome && rule.upstream != some request.upstream then false
  else if !matchTool rule.tool request.tool then false
  else if rule.condition.isEmpty then true
  else if !annotationsMatch request.annotations rule.condition then false
  else rule.condition.arguments.all (argumentMatches request.arguments)

/-- The loop of `evaluate` from rule number `index` on. -/
def evaluateFrom (request : PolicyRequest) (policy : Policy) :
    Nat → List Rule → Decision
  | _, [] =>
      { action := policy.default, source := .default, reason := policy.defaultReason }
  | index, rule :: rules =>
      if ruleMatches rule request then
        { action := rule.action, source := .rule, reason := rule.reason,
          ruleIndex := some index }
      else evaluateFrom request policy (index + 1) rules

def evaluate (request : PolicyRequest) (policy : Policy) : Decision :=
  evaluateFrom request policy 0 policy.rules

end McpGatekeeper.PolicyEngine
