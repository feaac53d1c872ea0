import McpGatekeeper.Audit
import McpGatekeeper.Storage.Memo

namespace McpGatekeeper.PatternCache

open Memo
open Regex
open McpGatekeeper.Audit
open McpGatekeeper.JsonValues
open McpGatekeeper.PolicyEngine

/-- `maxsize` -/
def maxsize : Nat := 1024

/-- The caches of `_tool_regex` and `_path_regex`. -/
structure Caches where
  tool : List (String × List Atom) := []
  path : List (String × List Atom) := []

def compiled (separatorAware : Bool) (pattern : String) : List Atom :=
  Glob.compile separatorAware pattern.toList

def toolRegex (pattern : String) : StateM Caches (List Atom) := fun caches =>
  let answered := call (compiled false) maxsize pattern caches.tool
  (answered.1, { caches with tool := answered.2 })

def pathRegex (pattern : String) : StateM Caches (List Atom) := fun caches =>
  let answered := call (compiled true) maxsize pattern caches.path
  (answered.1, { caches with path := answered.2 })

def matchTool (pattern name : String) : StateM Caches Bool := do
  let regex ← toolRegex pattern
  pure (matchAtoms regex name.toList)

def matchPath (pattern value : String) : StateM Caches Bool := do
  let regex ← pathRegex pattern
  pure (matchAtoms regex value.toList)

def argumentMatches (arguments : JsonObject) (condition : ArgumentCondition) :
    StateM Caches Bool :=
  match resolveArgument arguments condition.path with
  | .null => pure false
  | value =>
      match Glob.canonicalValue value with
      | none => pure false
      | some rendered => matchPath condition.pattern rendered

def ruleMatches (rule : Rule) (request : PolicyRequest) : StateM Caches Bool :=
  if rule.upstream.isSome && rule.upstream != some request.upstream then pure false
  else do
    let named ← matchTool rule.tool request.tool
    if !named then pure false
    else if rule.condition.isEmpty then pure true
    else if !annotationsMatch request.annotations rule.condition then pure false
    else rule.condition.arguments.allM (argumentMatches request.arguments)

def evaluateFrom (request : PolicyRequest) (policy : Policy) :
    Nat → List Rule → StateM Caches Decision
  | _, [] =>
      pure { action := policy.default, source := .default, reason := policy.defaultReason }
  | index, rule :: rules => do
      if ← ruleMatches rule request then
        pure
          { action := rule.action, source := .rule, reason := rule.reason,
            ruleIndex := some index }
      else evaluateFrom request policy (index + 1) rules

def evaluate (request : PolicyRequest) (policy : Policy) : StateM Caches Decision :=
  evaluateFrom request policy 0 policy.rules

def masks (translated : List String) (path : String) : StateM Caches Bool :=
  if path = "" then pure false
  else translated.anyM fun pattern => matchPath pattern path

mutual

def redact (translated : List String) : Json → String → StateM Caches Json
  | .obj fields, path => do
      if ← masks translated path then pure (.str redacted)
      else
        let fields ← redactFields translated fields path
        pure (.obj fields)
  | .arr items, path => do
      if ← masks translated path then pure (.str redacted)
      else
        let items ← redactItems translated items path 0
        pure (.arr items)
  | value, path => do
      if ← masks translated path then pure (.str redacted) else pure value

def redactFields (translated : List String) : JsonObject → String → StateM Caches JsonObject
  | [], _ => pure []
  | (key, item) :: fields, path => do
      let item ← redact translated item (childPath path key)
      let fields ← redactFields translated fields path
      pure ((key, item) :: fields)

def redactItems (translated : List String) :
    List Json → String → Nat → StateM Caches (List Json)
  | [], _, _ => pure []
  | item :: items, path, index => do
      let item ← redact translated item (path ++ "/" ++ toString index)
      let items ← redactItems translated items path (index + 1)
      pure (item :: items)

end

def redactArguments (arguments : JsonObject) (patterns : List String) :
    StateM Caches JsonObject :=
  if patterns.isEmpty then pure arguments
  else do
    let translated := patterns.map fun pattern =>
      String.ofList (PythonText.replace '.' '/' pattern.toList)
    let result ← redact translated (.obj arguments) ""
    pure (match result with
      | .obj fields => fields
      | _ => [])

/-- The caches hold what they have been asked for last. -/
def Warm (caches : Caches) : Prop :=
  ∃ tools paths, caches.tool = contents (compiled false) maxsize tools ∧
    caches.path = contents (compiled true) maxsize paths

theorem returns_toolRegex (pattern : String) :
    Returns Warm (toolRegex pattern) (compiled false pattern) := by
  rintro ⟨tool, path⟩ ⟨tools, paths, rfl, hpath⟩
  change (call (compiled false) maxsize pattern (contents _ _ tools)).1 = _ ∧ Warm
    { tool := (call (compiled false) maxsize pattern (contents _ _ tools)).2, path := path }
  rw [call_contents]
  exact ⟨rfl, pattern :: tools, paths, rfl, hpath⟩

theorem returns_pathRegex (pattern : String) :
    Returns Warm (pathRegex pattern) (compiled true pattern) := by
  rintro ⟨tool, path⟩ ⟨tools, paths, htool, rfl⟩
  change (call (compiled true) maxsize pattern (contents _ _ paths)).1 = _ ∧ Warm
    { tool := tool, path := (call (compiled true) maxsize pattern (contents _ _ paths)).2 }
  rw [call_contents]
  exact ⟨rfl, tools, pattern :: paths, htool, rfl⟩

theorem returns_matchTool (pattern name : String) :
    Returns Warm (matchTool pattern name) (Glob.matchTool pattern name) :=
  (returns_toolRegex pattern).bind (.pure _)

theorem returns_matchPath (pattern value : String) :
    Returns Warm (matchPath pattern value) (Glob.matchPath pattern value) :=
  (returns_pathRegex pattern).bind (.pure _)

theorem returns_argumentMatches (arguments : JsonObject) (condition : ArgumentCondition) :
    Returns Warm (argumentMatches arguments condition)
      (PolicyEngine.argumentMatches arguments condition) := by
  rw [argumentMatches, PolicyEngine.argumentMatches]
  generalize resolveArgument arguments condition.path = value
  cases value with
  | null | arr | obj => exact .pure false
  | bool | int | float | str => exact returns_matchPath _ _

theorem returns_ruleMatches (rule : Rule) (request : PolicyRequest) :
    Returns Warm (ruleMatches rule request) (PolicyEngine.ruleMatches rule request) := by
  rw [ruleMatches, PolicyEngine.ruleMatches]
  split
  · exact .pure false
  · apply (returns_matchTool rule.tool request.tool).bind
    split
    · exact .pure false
    · split
      · exact .pure true
      · split
        · exact .pure false
        · exact .allM (returns_argumentMatches request.arguments) _

theorem returns_evaluateFrom (request : PolicyRequest) (policy : Policy) (rules : List Rule)
    (index : Nat) :
    Returns Warm (evaluateFrom request policy index rules)
      (PolicyEngine.evaluateFrom request policy index rules) := by
  induction rules generalizing index with
  | nil => exact .pure _
  | cons rule rules ih =>
      rw [evaluateFrom, PolicyEngine.evaluateFrom]
      apply (returns_ruleMatches rule request).bind
      split
      · exact .pure _
      · exact ih (index + 1)

theorem returns_masks (translated : List String) (path : String) :
    Returns Warm (masks translated path) (Audit.masks translated path) := by
  rw [masks, Audit.masks]
  split
  · rename_i hempty
    rw [hempty]
    exact .pure false
  · rename_i hpath
    rw [bne_iff_ne.mpr hpath, Bool.true_and]
    exact .anyM (fun pattern => returns_matchPath pattern path) translated

theorem returns_redact_of {translated : List String} {path : String} {rest : StateM Caches Json}
    {value : Json} (hrest : Returns Warm rest value) :
    Returns Warm (do if ← masks translated path then pure (.str redacted) else rest)
      (if Audit.masks translated path then .str redacted else value) := by
  apply (returns_masks translated path).bind
  split
  · exact .pure _
  · exact hrest

mutual

theorem returns_redact (translated : List String) (value : Json) (path : String) :
    Returns Warm (redact translated value path) (Audit.redact translated value path) := by
  cases value with
  | obj fields =>
      rw [redact, Audit.redact]
      exact returns_redact_of ((returns_redactFields translated fields path).bind (.pure _))
  | arr items =>
      rw [redact, Audit.redact]
      exact returns_redact_of ((returns_redactItems translated items path 0).bind (.pure _))
  | null | bool | int | float | str =>
      rw [redact, Audit.redact]
      · exact returns_redact_of (.pure _)
      all_goals simp

theorem returns_redactFields (translated : List String) (fields : JsonObject) (path : String) :
    Returns Warm (redactFields translated fields path)
      (Audit.redactFields translated fields path) := by
  cases fields with
  | nil => exact .pure []
  | cons field fields =>
      obtain ⟨key, item⟩ := field
      rw [redactFields, Audit.redactFields]
      apply (returns_redact translated item (childPath path key)).bind
      exact (returns_redactFields translated fields path).bind (.pure _)

theorem returns_redactItems (translated : List String) (items : List Json) (path : String)
    (index : Nat) :
    Returns Warm (redactItems translated items path index)
      (Audit.redactItems translated items path index) := by
  cases items with
  | nil => exact .pure []
  | cons item items =>
      rw [redactItems, Audit.redactItems]
      apply (returns_redact translated item (path ++ "/" ++ toString index)).bind
      exact (returns_redactItems translated items path (index + 1)).bind (.pure _)

end

theorem returns_redactArguments (arguments : JsonObject) (patterns : List String) :
    Returns Warm (redactArguments arguments patterns)
      (Audit.redactArguments arguments patterns) := by
  rw [redactArguments, Audit.redactArguments]
  split
  · exact .pure _
  · exact (returns_redact _ (.obj arguments) "").bind (.pure _)

/-- What the process asks of the two functions, in any order. -/
inductive Use
  | deciding (request : PolicyRequest) (policy : Policy)
  | masking (arguments : JsonObject) (patterns : List String)

def Use.plain : Use → Decision ⊕ JsonObject
  | .deciding request policy => .inl (PolicyEngine.evaluate request policy)
  | .masking arguments patterns => .inr (Audit.redactArguments arguments patterns)

def Use.cached : Use → StateM Caches (Decision ⊕ JsonObject)
  | .deciding request policy => do
      let decision ← evaluate request policy
      pure (.inl decision)
  | .masking arguments patterns => do
      let fields ← redactArguments arguments patterns
      pure (.inr fields)

theorem returns_use (use : Use) : Returns Warm use.cached use.plain := by
  cases use with
  | deciding request policy =>
      exact (returns_evaluateFrom request policy policy.rules 0).bind (.pure _)
  | masking arguments patterns => exact (returns_redactArguments arguments patterns).bind (.pure _)

/-- However the process goes on deciding and redacting, the caches change no answer; each
holds compiled forms of its patterns, none twice, and never more than `maxsize`. -/
theorem caches_unseen (uses : List Use) :
    (uses.mapM Use.cached {}).1 = uses.map Use.plain ∧
      ∃ tools paths : List String,
        (uses.mapM Use.cached {}).2.tool =
          ((recent tools).take maxsize).map (fun key => (key, compiled false key)) ∧
        (uses.mapM Use.cached {}).2.path =
          ((recent paths).take maxsize).map (fun key => (key, compiled true key)) :=
  Returns.mapM returns_use uses {} ⟨[], [], rfl, rfl⟩

end McpGatekeeper.PatternCache
