import McpGatekeeper.Service

/-!
Request orchestration: policy, approval, forwarding, audit.

A client that supports URL elicitation is handed a link and retries the call
once a human has answered; for any other client the call is held open.
-/

namespace McpGatekeeper.Gateway

open Interleaving
open McpGatekeeper.Approvals
open McpGatekeeper.Audit
open McpGatekeeper.JsonValues
open McpGatekeeper.Operations
open McpGatekeeper.PolicyEngine
open McpGatekeeper.Registry
open McpGatekeeper.Service

inductive ApprovalMode
  | auto
  | elicit
  | block
  deriving DecidableEq

/-- What the gateway is configured with; what it shares with other tasks is in
the world. -/
structure GatewayDeps where
  policy : Policy
  approvals : ApprovalService
  approvalMode : ApprovalMode := .auto
  uiBaseUrl : String := "http://localhost:8765"
  redact : List String := []

/-- The key under which the elicitation request travels. -/
def approvalInputKey : String := "approval"

structure ElicitUrl where
  message : String
  url : String
  deriving DecidableEq

structure InputRequiredResult where
  inputRequests : List (String × ElicitUrl)
  requestState : String
  deriving DecidableEq

inductive CallReply
  | result (result : CallToolResult)
  | inputRequired (result : InputRequiredResult)

/-- The arguments of `call_tool`. -/
structure Invocation where
  name : String
  arguments : Option JsonObject := none
  clientName : Option String := none
  supportsUrlElicitation : Bool := false
  requestState : Option String := none
  inputResponses : Option JsonObject := none

/-- `arguments or {}` -/
def Invocation.args (invocation : Invocation) : JsonObject :=
  invocation.arguments.getD []

/-- The approval a retry resumes: `request_state and input_responses is not None`. -/
def Invocation.resumes (invocation : Invocation) : Option String :=
  match invocation.requestState, invocation.inputResponses with
  | some state, some _ => if state = "" then none else some state
  | _, _ => none

def Invocation.request (invocation : Invocation) (entry : NamespacedTool) :
    PolicyRequest where
  tool := invocation.name
  upstream := entry.upstream
  arguments := invocation.args
  annotations := entry.annotations

/-- A call whose tool is registered, on its way to one of the outcomes. -/
structure Call where
  entry : NamespacedTool
  request : PolicyRequest
  decision : Decision
  clientName : Option String
  started : Int

def textResult (message : String) (isError : Bool) : CallToolResult where
  content := [.text message]
  isError := isError

/-- `text or default`: the empty text counts as missing. -/
def orElse (text : Option String) (default : String) : String :=
  match text with
  | none => default
  | some text => if text = "" then default else text

variable (deps : GatewayDeps)

/-- `_record` -/
def record (tool upstream : String) (arguments : JsonObject) (decision : Decision)
    (outcome : Outcome) (clientName : Option String) (started : Int)
    (resultStatus : Option ResultStatus := none)
    (approval : Option ApprovalRequest := none) (error : Option String := none) :
    Prog Unit := do
  let eventId ← Program.call Op.uuid4
  let ended ← Program.call Op.perfCounter
  let now ← Program.call Op.now
  Program.call <| Op.recordAudit <|
    AuditEvent.build now eventId tool upstream arguments decision outcome deps.redact
      clientName (ended - started) resultStatus (approval.map (·.id))
      (approval.bind (·.approver)) error

/-- `_record` for a call whose tool is registered. -/
def recordCall (call : Call) (outcome : Outcome)
    (resultStatus : Option ResultStatus := none)
    (approval : Option ApprovalRequest := none) (error : Option String := none) :
    Prog Unit :=
  record deps call.request.tool call.entry.upstream call.request.arguments call.decision
    outcome call.clientName call.started resultStatus approval error

/-- `_unknown_tool` -/
def unknownTool (name : String) (arguments : JsonObject) (clientName : Option String)
    (started : Int) : Prog CallToolResult := do
  let upstream :=
    match splitNamespace name with
    | some split => split.1
    | none => "unknown"
  record deps name upstream arguments
    { action := .deny, source := .default, reason := some "tool is not registered" }
    .unknownTool clientName started (some .error)
  let names ← Program.call Op.registryNames
  let known := orElse
    (some (String.ofList (PythonText.join [',', ' '] (names.map (·.toList))))) "none"
  pure (textResult
    ("Unknown tool " ++ quote name ++ ". This gatekeeper exposes: " ++ known ++ ".") true)

/-- `_forward` -/
def forward (call : Call) (approval : Option ApprovalRequest) : Prog CallToolResult := do
  let connected ← Program.call (Op.connectionGet call.entry.upstream)
  if connected then do
    match ← Program.call
        (Op.callTool call.entry.upstream call.entry.remoteName call.request.arguments) with
    | .error error => do
        recordCall deps call .error (some .error) approval (some error)
        pure (textResult error true)
    | .ok result => do
        recordCall deps call .forwarded
          (some (if result.isError then .error else .ok)) approval
        pure result
  else do
    let decisionFailed : Decision :=
      { action := .deny, source := call.decision.source
        reason := some "upstream unavailable" }
    recordCall deps { call with decision := decisionFailed } .error (some .error) none
      (some ("upstream " ++ quote call.entry.upstream ++ " is not connected"))
    pure (textResult
      ("Upstream " ++ quote call.entry.upstream ++ " is not connected.") true)

/-- `_deny` -/
def deny (call : Call) : Prog CallToolResult := do
  recordCall deps call .deniedByPolicy (some .error)
  pure (textResult
    ("Blocked by mcp-gatekeeper: " ++ orElse call.decision.reason "blocked by policy" ++
      ". This call was not forwarded.") true)

def refusal (approval : ApprovalRequest) : String :=
  if approval.status = .expired then
    "No approver responded in time, so the call was denied."
  else
    "Denied by " ++ orElse approval.approver "an approver" ++ "." ++
      (match approval.note with
      | none => ""
      | some note => if note = "" then "" else " Note: " ++ note)

/-- `_apply_approval` -/
def applyApproval (call : Call) (approval : Option ApprovalRequest)
    (outcome : Option Outcome := none) (message : Option String := none) :
    Prog CallToolResult := do
  match approval with
  | none => pure (textResult "Approval request vanished before it was decided." true)
  | some approval =>
      if approval.status.isGranted then do
        Program.call (Op.takeGranted approval)
        forward deps call (some approval)
      else do
        Program.call (Op.takeRefused approval)
        recordCall deps call
          (outcome.getD
            (if approval.status = .expired then .timedOut else .deniedByApprover))
          (some .error) (some approval)
        pure (textResult
          ("Blocked by mcp-gatekeeper: " ++ message.getD (refusal approval)) true)

def useElicitation (supportsUrlElicitation : Bool) : Bool :=
  match deps.approvalMode with
  | .elicit => true
  | .block => false
  | .auto => supportsUrlElicitation

def approvalUrl (id : String) : String :=
  String.ofList (PythonText.rstrip '/' deps.uiBaseUrl.toList) ++ "/approvals/" ++ id

/-- `_require_approval` -/
def requireApproval (call : Call) (supportsUrlElicitation : Bool) (polls : Nat) :
    Prog CallReply := do
  let approval ← deps.approvals.openApproval call.request.tool call.entry.upstream
    call.request.arguments call.decision.reason call.clientName
  if useElicitation deps supportsUrlElicitation then do
    recordCall deps call .awaitingApproval none (some approval)
    let needs := call.request.tool ++ " needs approval" ++
      (match call.decision.reason with
      | none => ""
      | some reason => if reason = "" then "" else ": " ++ reason)
    pure (.inputRequired
      { inputRequests :=
          [(approvalInputKey, { message := needs, url := approvalUrl deps approval.id })]
        requestState := approval.id })
  else do
    let settled ← deps.approvals.wait polls approval.id
    let result ← applyApproval deps call settled
    pure (.result result)

/-- `_resume` -/
def resume (call : Call) (requestState : String) : Prog CallToolResult := do
  match ← ApprovalService.get requestState with
  | none =>
      pure (textResult
        "This approval request is no longer on file; the call was not forwarded." true)
  | some settled =>
      if settled.status.isResolved then applyApproval deps call (some settled)
      else do
        let dismissed ← ApprovalService.dismiss requestState
          (some "client retried with no decision on file")
        applyApproval deps call (dismissed.or (some settled)) (some .dismissedByClient)
          (some ("No approver decided this request; the call was not forwarded. " ++
            "Approve it in the gatekeeper UI and try again."))

/-- `call_tool`; a blocking wait is followed for at most `polls` rounds. -/
def callTool (invocation : Invocation) (polls : Nat) : Prog CallReply := do
  let started ← Program.call Op.perfCounter
  match ← Program.call (Op.registryGet invocation.name) with
  | none => do
      let result ← unknownTool deps invocation.name invocation.args invocation.clientName
        started
      pure (.result result)
  | some entry => do
      let request := invocation.request entry
      let call : Call :=
        { entry := entry
          request := request
          decision := evaluate request deps.policy
          clientName := invocation.clientName
          started := started }
      match invocation.resumes with
      | some requestState => do
          let result ← resume deps call requestState
          pure (.result result)
      | none =>
          match call.decision.action with
          | .allow => do
              let result ← forward deps call none
              pure (.result result)
          | .deny => do
              let result ← deny deps call
              pure (.result result)
          | .requireApproval =>
              requireApproval deps call invocation.supportsUrlElicitation polls

/-- The loop of `refresh_registry`: an upstream that fails to list has no tools. -/
def collectTools : List String → Prog (List (String × List Tool))
  | [] => pure []
  | name :: names => do
      let listed ← Program.call (Op.listTools name)
      let collected ← collectTools names
      pure ((name, match listed with
        | .ok tools => tools
        | .error _ => []) :: collected)

def refreshRegistry : Prog ToolRegistry := do
  let names ← Program.call Op.connectionNames
  let collected ← collectTools names
  Program.call (Op.installRegistry collected)
  pure (ToolRegistry.build collected)

def listTools : Prog (List Tool) := do
  let registry ← refreshRegistry
  pure registry.listing

end McpGatekeeper.Gateway
