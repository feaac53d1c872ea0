import McpGatekeeper.Conduct

/-!
What a `call_tool` owes before each of its deeds.

The trail of an invocation is its own part of the history: it looks its tool up,
takes the granted or the refusing branch on an approval, calls the upstream, and
files one audit event.  Every deed must be justified by the trail so far.
-/

namespace McpGatekeeper.GateContract

open Interleaving
open McpGatekeeper.Approvals
open McpGatekeeper.Audit
open McpGatekeeper.Conduct
open McpGatekeeper.Gateway
open McpGatekeeper.JsonValues
open McpGatekeeper.Operations
open McpGatekeeper.PolicyEngine
open McpGatekeeper.Registry
open McpGatekeeper.System

abbrev trail (i : Nat) (history : List GateEvent) : List GateEvent :=
  deeds isDeed i history

def isLookup : Op → Bool
  | .getApproval _ => true
  | _ => false

/-- The event looked an approval up that is not on file. -/
def misses (event : GateEvent) : Bool :=
  match event.op with
  | .getApproval id => (event.before.approvals.get id).isNone
  | _ => false

def missed (i : Nat) (history : List GateEvent) : Bool :=
  (deeds isLookup i history).any misses

section Trail

variable (i : Nat) (invocation : Invocation) (polls : Nat)

def lookup (tool : Option NamespacedTool) (before : World) : GateEvent :=
  ⟨i, .callTool invocation polls, .registryGet invocation.name, tool, before⟩

def granting (approval : ApprovalRequest) (before : World) : GateEvent :=
  ⟨i, .callTool invocation polls, .takeGranted approval, (), before⟩

def refusing (approval : ApprovalRequest) (before : World) : GateEvent :=
  ⟨i, .callTool invocation polls, .takeRefused approval, (), before⟩

def calling (tool : NamespacedTool) (answer : Except String CallToolResult)
    (before : World) : GateEvent :=
  ⟨i, .callTool invocation polls,
    .callTool tool.upstream tool.remoteName invocation.args, answer, before⟩

def filing (event : AuditEvent) (before : World) : GateEvent :=
  ⟨i, .callTool invocation polls, .recordAudit event, (), before⟩

end Trail

/-- The operations that read the row under a key for the one who asks for it. -/
def consults (id : String) : Op → Bool
  | .getApproval id' => id' == id
  | .resolveApproval id' _ _ _ _ => id' == id
  | _ => false

/-- The request as the task knows it, or as it has become since. -/
def OnFile (approval : ApprovalRequest) (w : World) : Prop :=
  ∃ row, w.approvals.get approval.id = some row ∧ Advances approval row

theorem OnFile.later {approval : ApprovalRequest} {w w' : World} (h : OnFile approval w)
    (hevolves : Evolves w w') : OnFile approval w' := by
  obtain ⟨row, hrow, hadvances⟩ := h
  obtain ⟨row', hrow', hadvances'⟩ := hevolves.approvals _ _ hrow
  exact ⟨row', hrow', hadvances.trans hadvances'⟩

theorem OnFile.get {approval : ApprovalRequest} {w : World} (h : OnFile approval w)
    (hsettled : approval.status ≠ .pending) :
    w.approvals.get approval.id = some approval := by
  obtain ⟨row, hrow, hadvances⟩ := h
  rwa [hadvances.eq_of_settled hsettled] at hrow

theorem onFile_of_get {id : String} {approval : ApprovalRequest} {w : World}
    (h : w.approvals.get id = some approval) : OnFile approval w := by
  obtain rfl := ApprovalsTable.id_of_get h
  exact ⟨approval, h, .same⟩

section Justification

variable (deps : GatewayDeps) (A : GateAssumption) (i : Nat) (invocation : Invocation)
  (polls : Nat)

def decision (tool : NamespacedTool) : Decision :=
  evaluate (invocation.request tool) deps.policy

/-- Why an invocation may act on an approval: it resumes it, having read it at an
earlier moment of the run, or it opened it for this very call. -/
inductive Basis (tool : NamespacedTool) (approval : ApprovalRequest) (s : GateState) : Prop
  | resumed (hresumes : invocation.resumes = some approval.id) (s₀ : GateState) (op : Op)
      (found : World) (hconsults : consults approval.id op = true)
      (hassume : A.act i (.callTool invocation polls) op s₀ = true)
      (htrail : trail i s₀.history = [lookup i invocation polls (some tool) found])
      (hevolves : Evolves s₀.world s.world)
      (hread : approval.status = .approved →
        s₀.world.approvals.get approval.id = some approval)
  | opened (hresumes : invocation.resumes = none)
      (hdecision : (decision deps invocation tool).action = .requireApproval)
      (request : ApprovalRequest) (before : World)
      (hopened : ⟨i, .callTool invocation polls, .createApproval request, true, before⟩ ∈
        s.history)
      (hid : request.id = approval.id) (htool : approval.tool = invocation.name)
      (hupstream : approval.upstream = tool.upstream)
      (harguments : approval.arguments = dumps invocation.args)

/-- An invocation is about to act on an approval. -/
structure Applies (tool : NamespacedTool) (approval : ApprovalRequest) (s : GateState) :
    Prop where
  found : ∃ before, trail i s.history = [lookup i invocation polls (some tool) before]
  named : namespaced tool.upstream tool.remoteName = invocation.name
  onFile : OnFile approval s.world
  basis : Basis deps A i invocation polls tool approval s

/-- What justifies a call of the upstream. -/
inductive Permitted (tool : NamespacedTool) (s : GateState) : Prop
  | byPolicy (hresumes : invocation.resumes = none)
      (hallow : (decision deps invocation tool).action = .allow) (found : World)
      (htrail : trail i s.history = [lookup i invocation polls (some tool) found])
  | byApproval (approval : ApprovalRequest) (hgranted : approval.status = .approved)
      (s₁ : GateState) (happlies : Applies deps A i invocation polls tool approval s₁)
      (found : World)
      (htrail : trail i s.history =
        [granting i invocation polls approval s₁.world,
          lookup i invocation polls (some tool) found])
      (hconnected : tool.upstream ∈ s₁.world.connections)

/-- The audit event is the one `_record` builds from these values. -/
def Files (upstream : String) (decision : Decision) (outcome : Outcome)
    (resultStatus : Option ResultStatus) (approval : Option ApprovalRequest)
    (error : Option String) (event : AuditEvent) : Prop :=
  ∃ now eventId latency,
    event = AuditEvent.build now eventId invocation.name upstream invocation.args decision
      outcome deps.redact invocation.clientName latency resultStatus
      (approval.map (·.id)) (approval.bind (·.approver)) error

/-- The part of the trail that says whether an approval was granted. -/
inductive Cleared (tool : NamespacedTool) : Option ApprovalRequest → List GateEvent → Prop
  | byPolicy (found : World) (hresumes : invocation.resumes = none)
      (hallow : (decision deps invocation tool).action = .allow) :
      Cleared tool none [lookup i invocation polls (some tool) found]
  | byApproval (approval : ApprovalRequest) (hgranted : approval.status = .approved)
      (taken found : World) :
      Cleared tool (some approval)
        [granting i invocation polls approval taken,
          lookup i invocation polls (some tool) found]

/-- The ways a call can end, each with the trail it leaves and the event it files. -/
inductive Exit : List GateEvent → AuditEvent → Prop
  | unknownTool (found : World) (upstream : String) (event : AuditEvent)
      (hfiles : Files deps invocation upstream
        { action := .deny, source := .default, reason := some "tool is not registered" }
        .unknownTool (some .error) none none event) :
      Exit [lookup i invocation polls none found] event
  | denied (tool : NamespacedTool) (found : World) (event : AuditEvent)
      (hresumes : invocation.resumes = none)
      (hdeny : (decision deps invocation tool).action = .deny)
      (hfiles : Files deps invocation tool.upstream (decision deps invocation tool)
        .deniedByPolicy (some .error) none none event) :
      Exit [lookup i invocation polls (some tool) found] event
  | awaiting (tool : NamespacedTool) (found : World) (approval : ApprovalRequest)
      (event : AuditEvent) (hresumes : invocation.resumes = none)
      (hdecision : (decision deps invocation tool).action = .requireApproval)
      (hpending : approval.status = .pending)
      (hfiles : Files deps invocation tool.upstream (decision deps invocation tool)
        .awaitingApproval none (some approval) none event) :
      Exit [lookup i invocation polls (some tool) found] event
  | unavailable (tool : NamespacedTool) (approval : Option ApprovalRequest)
      (cleared : List GateEvent) (error : String) (event : AuditEvent)
      (hcleared : Cleared deps i invocation polls tool approval cleared)
      (hfiles : Files deps invocation tool.upstream
        { action := .deny, source := (decision deps invocation tool).source
          reason := some "upstream unavailable" }
        .error (some .error) none (some error) event) :
      Exit cleared event
  | failed (tool : NamespacedTool) (approval : Option ApprovalRequest)
      (cleared : List GateEvent) (called : World) (error : String) (event : AuditEvent)
      (hcleared : Cleared deps i invocation polls tool approval cleared)
      (hfiles : Files deps invocation tool.upstream (decision deps invocation tool)
        .error (some .error) approval (some error) event) :
      Exit (calling i invocation polls tool (.error error) called :: cleared) event
  | forwarded (tool : NamespacedTool) (approval : Option ApprovalRequest)
      (cleared : List GateEvent) (called : World) (result : CallToolResult)
      (event : AuditEvent) (hcleared : Cleared deps i invocation polls tool approval cleared)
      (hfiles : Files deps invocation tool.upstream (decision deps invocation tool)
        .forwarded (some (if result.isError then .error else .ok)) approval none event) :
      Exit (calling i invocation polls tool (.ok result) called :: cleared) event
  | refused (tool : NamespacedTool) (approval : ApprovalRequest) (taken found : World)
      (outcome : Outcome) (event : AuditEvent) (hrefused : approval.status ≠ .approved)
      (houtcome : outcome = .dismissedByClient ∨
        outcome = if approval.status = .expired then .timedOut else .deniedByApprover)
      (hfiles : Files deps invocation tool.upstream (decision deps invocation tool)
        outcome (some .error) (some approval) none event) :
      Exit [refusing i invocation polls approval taken,
        lookup i invocation polls (some tool) found] event

end Justification

/-- What task `i` owes before an operation. -/
def Owed (deps : GatewayDeps) (A : GateAssumption) (i : Nat) (entry : Entry) (op : Op)
    (s : GateState) : Prop :=
  match op with
  | .registryGet _ => trail i s.history = []
  | .takeGranted approval =>
      approval.status = .approved ∧ ∃ invocation polls tool,
        entry = .callTool invocation polls ∧
        Applies deps A i invocation polls tool approval s
  | .takeRefused approval =>
      approval.status ≠ .approved ∧ (Forward A → approval.status ≠ .pending) ∧
        ∃ invocation polls tool, entry = .callTool invocation polls ∧
          Applies deps A i invocation polls tool approval s
  | .callTool upstream remoteName arguments =>
      ∃ invocation polls tool, entry = .callTool invocation polls ∧
        upstream = tool.upstream ∧ remoteName = tool.remoteName ∧
        arguments = invocation.args ∧ Permitted deps A i invocation polls tool s
  | .recordAudit event =>
      ∃ invocation polls, entry = .callTool invocation polls ∧
        Exit deps i invocation polls (trail i s.history) event ∧
        missed i s.history = false
  | _ => True

def gate (deps : GatewayDeps) (A : GateAssumption) : Contract (machine deps) :=
  (plain deps A).owing (Owed deps A)

end McpGatekeeper.GateContract
