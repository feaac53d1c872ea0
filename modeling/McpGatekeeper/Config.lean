import Mathlib.Data.List.Infix
import Mathlib.Data.List.Sort
import McpGatekeeper.Operations

/-!
The schema of `gatekeeper.yaml` as far as upstreams and policy go: what it accepts,
and how rules are compiled into the policy the engine evaluates.

`isalnum` says which single characters `str.isalnum` accepts.
-/

namespace McpGatekeeper.Config

open McpGatekeeper.Operations
open McpGatekeeper.PolicyEngine
open McpGatekeeper.Registry

/-- Why a document is refused: a bound of a field, or the message of a validator. -/
inductive ValidationError
  | stringTooShort (field : String)
  | valueError (message : String)
  deriving DecidableEq

section Upstreams

variable (isalnum : Char → Bool)

/-- `NAMESPACE_SEPARATOR in value` -/
def containsSeparator (value : String) : Bool :=
  decide (namespaceSeparator.toList <:+: value.toList)

/-- `value.replace("-", "_").replace("_", "a").isalnum()` -/
def wellSpelled (value : String) : Bool :=
  let replaced := PythonText.replace '_' 'a' (PythonText.replace '-' '_' value.toList)
  !replaced.isEmpty && replaced.all isalnum

/-- The `name` of `UpstreamBase`: its bound, then `_validate_name`. -/
def validateName (value : String) : Except ValidationError String :=
  if value = "" then .error (.stringTooShort "name")
  else if containsSeparator value then
    .error (.valueError ("upstream name " ++ quote value ++ " must not contain " ++
      quote namespaceSeparator ++ "; it is the namespace separator"))
  else if !wellSpelled isalnum value then
    .error (.valueError ("upstream name " ++ quote value ++
      " must contain only letters, digits, '-' and '_'"))
  else .ok value

/-- An upstream under a name the validator has accepted. -/
structure UpstreamBase where
  name : String
  accepted : validateName isalnum name = .ok name

end Upstreams

theorem not_containsSeparator {isalnum : Char → Bool} (upstream : UpstreamBase isalnum) :
    ¬namespaceSeparator.toList <:+: upstream.name.toList := by
  intro hinfix
  have haccepted := upstream.accepted
  rw [validateName, containsSeparator, decide_eq_true hinfix] at haccepted
  split at haccepted <;> cases haccepted

/-- `WhenConfig`; `args` in the order in which the file has them. -/
structure WhenConfig where
  args : List (String × String) := []
  readOnlyHint : Option Bool := none
  destructiveHint : Option Bool := none
  idempotentHint : Option Bool := none
  openWorldHint : Option Bool := none

/-- The order in which `sorted` puts pairs of texts. -/
def itemLe (item item' : String × String) : Bool :=
  decide (item.1 < item'.1) || (item.1 == item'.1 && decide (item.2 ≤ item'.2))

def WhenConfig.toCondition (when : WhenConfig) : RuleCondition where
  arguments := (when.args.insertionSort fun item item' => itemLe item item').map
    fun (path, pattern) => { path := path, pattern := pattern }
  readOnly := when.readOnlyHint
  destructive := when.destructiveHint
  idempotent := when.idempotentHint
  openWorld := when.openWorldHint

structure RuleConfig where
  tool : String
  action : Action
  when : Option WhenConfig := none
  reason : Option String := none
  upstream : Option String := none
  tool_nonempty : tool ≠ ""

def RuleConfig.toRule (rule : RuleConfig) : Rule where
  tool := rule.tool
  action := rule.action
  condition :=
    match rule.when with
    | some when => when.toCondition
    | none => {}
  reason := rule.reason
  upstream := rule.upstream

structure PolicyConfig where
  default : Action := .requireApproval
  defaultReason : Option String := none
  rules : List RuleConfig := []

section File

variable (isalnum : Char → Bool)

/-- The first loop of `_validate_upstreams`: the names seen, or the first repeated. -/
def collectNames : List String → List String → Except ValidationError (List String)
  | seen, [] => .ok seen
  | seen, name :: names =>
      if name ∈ seen then
        .error (.valueError ("duplicate upstream name " ++ quote name))
      else collectNames (seen ++ [name]) names

def knownNames (seen : List String) : String :=
  let known := String.ofList (PythonText.join [',', ' ']
    ((seen.foldr ToolRegistry.insertName []).map (·.toList)))
  if known = "" then "none configured" else known

/-- The second loop of `_validate_upstreams`. -/
def checkTargets (seen : List String) : List RuleConfig → Except ValidationError Unit
  | [] => .ok ()
  | rule :: rules =>
      match rule.upstream with
      | none => checkTargets seen rules
      | some upstream =>
          if upstream ∈ seen then checkTargets seen rules
          else .error (.valueError ("rule for tool " ++ quote rule.tool ++
            " targets unknown upstream " ++ quote upstream ++ " (known: " ++
            knownNames seen ++ ")"))

/-- `_validate_upstreams` -/
def validateUpstreams (upstreams : List (UpstreamBase isalnum)) (policy : PolicyConfig) :
    Except ValidationError Unit := do
  let seen ← collectNames [] (upstreams.map (·.name))
  checkTargets seen policy.rules

/-- `GatekeeperConfig`, as the schema accepts it. -/
structure GatekeeperConfig where
  upstreams : List (UpstreamBase isalnum) := []
  policy : PolicyConfig := {}
  accepted : validateUpstreams isalnum upstreams policy = .ok ()

variable {isalnum}

def GatekeeperConfig.buildPolicy (config : GatekeeperConfig isalnum) : Policy where
  rules := config.policy.rules.map (·.toRule)
  default := config.policy.default
  defaultReason := config.policy.defaultReason

end File

theorem collectNames_ok {names seen seen' : List String}
    (h : collectNames seen names = .ok seen') :
    seen' = seen ++ names ∧ names.Nodup ∧ ∀ name ∈ names, name ∉ seen := by
  induction names generalizing seen with
  | nil =>
      obtain rfl : seen = seen' := by simpa [collectNames] using h
      simp
  | cons name names ih =>
      rw [collectNames] at h
      split at h
      · cases h
      · rename_i hfresh
        obtain ⟨rfl, hnodup, hnames⟩ := ih h
        refine ⟨by simp, ?_, ?_⟩
        · rw [List.nodup_cons]
          exact ⟨fun hmem => hnames name hmem (by simp), hnodup⟩
        · rintro other hother hseen
          rcases List.mem_cons.mp hother with rfl | hmem
          · exact hfresh hseen
          · exact hnames other hmem (by simp [hseen])

theorem checkTargets_ok {seen : List String} {rules : List RuleConfig}
    (h : checkTargets seen rules = .ok ()) {rule : RuleConfig} (hrule : rule ∈ rules)
    {upstream : String} (hupstream : rule.upstream = some upstream) : upstream ∈ seen := by
  induction rules with
  | nil => cases hrule
  | cons first rules ih =>
      rw [checkTargets] at h
      rcases List.mem_cons.mp hrule with rfl | hmem
      · rw [hupstream] at h
        dsimp only at h
        split at h
        · assumption
        · cases h
      · split at h
        · exact ih h hmem
        · split at h
          · exact ih h hmem
          · cases h

theorem GatekeeperConfig.names (isalnum : Char → Bool) (config : GatekeeperConfig isalnum) :
    (config.upstreams.map (·.name)).Nodup ∧
      ∀ rule ∈ config.policy.rules, ∀ upstream, rule.upstream = some upstream →
        upstream ∈ config.upstreams.map (·.name) := by
  have haccepted := config.accepted
  rw [validateUpstreams] at haccepted
  rcases hseen : collectNames [] (config.upstreams.map (·.name)) with error | seen
  · rw [hseen] at haccepted
    cases haccepted
  · obtain ⟨rfl, hnodup, -⟩ := collectNames_ok hseen
    rw [hseen] at haccepted
    refine ⟨hnodup, fun rule hrule upstream hupstream => ?_⟩
    simpa using checkTargets_ok haccepted hrule hupstream

end McpGatekeeper.Config
