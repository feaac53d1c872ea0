import McpGatekeeper.Authorisation
import McpGatekeeper.Export
import McpGatekeeper.PolicyCompilation
import McpGatekeeper.Sessions

namespace McpGatekeeper.Reasons

open Interleaving
open McpGatekeeper.Approvals
open McpGatekeeper.Audit
open McpGatekeeper.Authorisation
open McpGatekeeper.Config
open McpGatekeeper.Filing
open McpGatekeeper.GateContract
open McpGatekeeper.Gateway
open McpGatekeeper.GatewayRules
open McpGatekeeper.Operations
open McpGatekeeper.PolicyCompilation
open McpGatekeeper.PolicyEngine
open McpGatekeeper.Registry
open McpGatekeeper.Scenarios
open McpGatekeeper.Sessions
open McpGatekeeper.System

/-- What an event says of the decision. -/
def stated (event : AuditEvent) : Decision where
  action := event.action
  source := event.decisionSource
  reason := event.decisionReason
  ruleIndex := event.ruleIndex

/-- Without an approval a call goes as the policy says, and at once. -/
inductive Follows : Action → Outcome → Prop
  | forwarded : Follows .allow .forwarded
  | failed : Follows .allow .error
  | denied : Follows .deny .deniedByPolicy

structure Describes (patterns : List String) (invocation : Invocation) (event : AuditEvent) :
    Prop where
  tool : event.tool = invocation.name
  arguments : event.arguments = redactArguments invocation.args patterns
  clientName : event.clientName = invocation.clientName

/-- Why an event says what it says, from what the call was told of its tool. -/
inductive Explained (policy : PolicyConfig) (invocation : Invocation) (event : AuditEvent) :
    Option NamespacedTool → Prop
  | unregistered (houtcome : event.outcome = .unknownTool)
      (hstated : stated event =
        { action := .deny, source := .default, reason := some "tool is not registered" }) :
      Explained policy invocation event none
  | unavailable (tool : NamespacedTool) (decision : Decision)
      (hprescribes : Prescribes policy (invocation.request tool) decision)
      (hupstream : event.upstream = tool.upstream) (houtcome : event.outcome = .error)
      (hstated : stated event =
        { action := .deny, source := decision.source, reason := some "upstream unavailable" }) :
      Explained policy invocation event (some tool)
  | decided (tool : NamespacedTool)
      (hprescribes : Prescribes policy (invocation.request tool) (stated event))
      (hupstream : event.upstream = tool.upstream) (hregistered : event.outcome ≠ .unknownTool)
      (hfollows : event.approvalId = none → Follows event.action event.outcome)
      (hasked : event.outcome = .awaitingApproval → event.action = .requireApproval) :
      Explained policy invocation event (some tool)

section Accounts

variable {isalnum : Char → Bool}

/-- The row of a call: what the call looked up before, and what the file says of that. -/
def Accounted (deployment : Deployment isalnum) (history : List GateEvent) (row : AuditEvent) :
    Prop :=
  ∃ i invocation polls tool event found before newer older,
    history = newer ++ filing i invocation polls event before :: older ∧
    lookup i invocation polls tool found ∈ older ∧
    found.registry.get invocation.name = tool ∧ row = event.row ∧
    Describes deployment.audit.redact invocation event ∧
    Explained deployment.config.policy invocation event tool

variable {deployment : Deployment isalnum} {i : Nat} {invocation : Invocation} {polls : Nat}
  {tool : NamespacedTool} {rest : List GateEvent} {event : AuditEvent}

theorem prescribed (deployment : Deployment isalnum) (invocation : Invocation)
    (tool : NamespacedTool) :
    Prescribes deployment.config.policy (invocation.request tool)
      (decision deployment.deps invocation tool) :=
  prescribed_from rfl rfl [] rfl fun rule hrule => by cases hrule

theorem describes_of_exit {deps : GatewayDeps} (h : Exit deps i invocation polls rest event) :
    Describes deps.redact invocation event := by
  have hfiles : ∃ upstream decision outcome resultStatus approval error,
      Files deps invocation upstream decision outcome resultStatus approval error event := by
    cases h <;> exact ⟨_, _, _, _, _, _, ‹_›⟩
  obtain ⟨upstream, decision, outcome, resultStatus, approval, error, now, eventId, latency,
    rfl⟩ := hfiles
  exact ⟨rfl, rfl, rfl⟩

theorem lookup_of_cleared {approval : Option ApprovalRequest}
    (h : Cleared deployment.deps i invocation polls tool approval rest) :
    (∃ found, lookup i invocation polls (some tool) found ∈ rest) ∧
      (approval = none → (decision deployment.deps invocation tool).action = .allow) := by
  cases h with
  | byPolicy found _ hallow => exact ⟨⟨found, List.mem_singleton_self _⟩, fun _ => hallow⟩
  | byApproval approval _ taken found =>
      exact ⟨⟨found, List.mem_cons_of_mem _ List.mem_cons_self⟩, fun h => by cases h⟩

theorem decided_of_files {outcome : Outcome} {resultStatus : Option ResultStatus}
    {approval : Option ApprovalRequest} {error : Option String}
    (hfiles : Files deployment.deps invocation tool.upstream
      (decision deployment.deps invocation tool) outcome resultStatus approval error event)
    (hregistered : outcome ≠ .unknownTool)
    (hfollows : approval = none →
      Follows (decision deployment.deps invocation tool).action outcome)
    (hasked : outcome = .awaitingApproval →
      (decision deployment.deps invocation tool).action = .requireApproval) :
    Explained deployment.config.policy invocation event (some tool) := by
  obtain ⟨now, eventId, latency, rfl⟩ := hfiles
  refine .decided tool (prescribed deployment invocation tool) rfl hregistered ?_ hasked
  intro hnone
  exact hfollows (Option.map_eq_none_iff.mp hnone)

theorem explained_of_exit (h : Exit deployment.deps i invocation polls rest event) :
    ∃ tool found, lookup i invocation polls tool found ∈ rest ∧
      Explained deployment.config.policy invocation event tool := by
  cases h with
  | unknownTool found upstream _ hfiles =>
      obtain ⟨now, eventId, latency, rfl⟩ := hfiles
      exact ⟨none, found, List.mem_singleton_self _, .unregistered rfl rfl⟩
  | denied tool found _ _ hdeny hfiles =>
      refine ⟨some tool, found, List.mem_singleton_self _, ?_⟩
      apply decided_of_files hfiles (by simp) _ (by simp)
      intro _
      rw [hdeny]
      exact .denied
  | awaiting tool found approval _ _ hdecision _ hfiles =>
      refine ⟨some tool, found, List.mem_singleton_self _, ?_⟩
      exact decided_of_files hfiles (by simp) (by simp) fun _ => hdecision
  | unavailable tool approval _ error _ hcleared hfiles =>
      obtain ⟨⟨found, hlookup⟩, -⟩ := lookup_of_cleared hcleared
      obtain ⟨now, eventId, latency, rfl⟩ := hfiles
      exact ⟨some tool, found, hlookup,
        .unavailable tool _ (prescribed deployment invocation tool) rfl rfl rfl⟩
  | failed tool approval cleared called error _ hcleared hfiles =>
      obtain ⟨⟨found, hlookup⟩, hallow⟩ := lookup_of_cleared hcleared
      refine ⟨some tool, found, List.mem_cons_of_mem _ hlookup, ?_⟩
      apply decided_of_files hfiles (by simp) _ (by simp)
      intro hnone
      rw [hallow hnone]
      exact .failed
  | forwarded tool approval cleared called result _ hcleared hfiles =>
      obtain ⟨⟨found, hlookup⟩, hallow⟩ := lookup_of_cleared hcleared
      refine ⟨some tool, found, List.mem_cons_of_mem _ hlookup, ?_⟩
      apply decided_of_files hfiles (by simp) _ (by simp)
      intro hnone
      rw [hallow hnone]
      exact .forwarded
  | refused tool approval taken found outcome _ _ houtcome hfiles =>
      refine ⟨some tool, found, List.mem_cons_of_mem _ List.mem_cons_self, ?_⟩
      have hrefusal : outcome ≠ .unknownTool ∧ outcome ≠ .awaitingApproval := by
        rcases houtcome with rfl | rfl
        · simp
        · split <;> simp
      exact decided_of_files hfiles hrefusal.1 (by simp) fun h => absurd h hrefusal.2

end Accounts

section Runs

variable {deps : GatewayDeps} {A : GateAssumption} {world : World} {c : GateConfig}

variable {isalnum : Char → Bool} {deployment : Deployment isalnum}

/-- Every row that a run adds to the log accounts for a call: it names the call, and its
decision is the one the file prescribes for the tool as the registry had it when the call
looked it up. -/
theorem log_accounted
    (hreach : (machine deployment.deps).Reaches A (Config.initial world) c)
    {row : Nat × AuditEvent} (hrow : row ∈ c.state.world.audit.rows) :
    row ∈ world.audit.rows ∨ Accounted deployment c.state.history row.2 := by
  refine (row_recorded hreach hrow).imp_right ?_
  rintro ⟨performed, hmem, event, hop, hevent⟩
  obtain ⟨newer, older, hsplit⟩ := List.append_of_mem hmem
  have howed := ((gate_good hreach).past newer performed older hsplit).pre.2
  obtain ⟨i, entry, op, answer, before⟩ := performed
  obtain rfl : op = .recordAudit event := hop
  obtain ⟨invocation, polls, rfl, hexit, -⟩ := howed
  obtain ⟨tool, found, hlookup, hexplained⟩ := explained_of_exit hexit
  have hlooked := (mem_deeds.mp hlookup).1
  refine ⟨i, invocation, polls, tool, event, found, before, newer, older, hsplit, hlooked, ?_,
    hevent, describes_of_exit hexit, hexplained⟩
  obtain ⟨newer', older', hsplit', -⟩ := split_of_mem_older hsplit hlooked
  obtain ⟨c₁, next, after, hperformed⟩ := hreach.performed rfl hsplit'
  obtain ⟨choice, hexec⟩ := hperformed.exec
  exact (Prod.mk.inj (Option.some.inj hexec)).1

end Runs

theorem delete_nonempty : "fs__delete" ≠ "" := by decide

/-- A file with one rule. -/
def guarded : Deployment Char.isAlphanum where
  config :=
    { fileServer.config with
      policy :=
        { rules :=
            [{ tool := "fs__delete", action := .deny, tool_nonempty := delete_nonempty }] } }
  approvals := fileServer.approvals

theorem log_accounted_denied :
    ∃ c row, (machine guarded.deps).run .none (Config.initial office)
        (.start (.callTool denial 0) :: acts 0 6) = some c ∧
      c.state.world.audit.rows = [row] ∧ Accounted guarded c.state.history row.2 := by
  obtain ⟨c, row, hrun, hrows⟩ : ∃ c row, (machine guarded.deps).run .none (Config.initial office)
      (.start (.callTool denial 0) :: acts 0 6) = some c ∧
      c.state.world.audit.rows = [row] := ⟨_, _, rfl, rfl⟩
  have hrow : row ∈ c.state.world.audit.rows := by
    rw [hrows]
    exact List.mem_singleton_self row
  have hnew : row ∉ office.audit.rows := List.not_mem_nil
  exact ⟨c, row, hrun, hrows,
    (log_accounted (Machine.reaches_of_run hrun) hrow).resolve_left hnew⟩

end McpGatekeeper.Reasons
