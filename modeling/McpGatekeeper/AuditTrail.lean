import McpGatekeeper.Filing
import McpGatekeeper.GatewayRules
import McpGatekeeper.Scenarios

namespace McpGatekeeper.AuditTrail

open Interleaving
open McpGatekeeper.Audit
open McpGatekeeper.Filing
open McpGatekeeper.GateContract
open McpGatekeeper.Gateway
open McpGatekeeper.GatewayRules
open McpGatekeeper.Operations
open McpGatekeeper.Scenarios
open McpGatekeeper.System

def audits : GateEvent → Option AuditEvent
  | ⟨_, _, .recordAudit event, _, _⟩ => some event
  | _ => none

/-- The audit events the task has recorded, latest first. -/
def audited (i : Nat) (history : List GateEvent) : List AuditEvent :=
  (trail i history).filterMap audits

section Exits

variable {deps : GatewayDeps} {i : Nat} {invocation : Invocation} {polls : Nat}
  {rest : List GateEvent} {event : AuditEvent}

theorem cleared_unaudited {tool : Registry.NamespacedTool}
    {approval : Option Approvals.ApprovalRequest}
    (h : Cleared deps i invocation polls tool approval rest) :
    rest.filterMap audits = [] := by
  cases h <;> rfl

theorem exit_unaudited (h : Exit deps i invocation polls rest event) :
    rest.filterMap audits = [] := by
  cases h with
  | unknownTool | denied | awaiting | refused => rfl
  | unavailable _ _ _ _ _ hcleared => exact cleared_unaudited hcleared
  | failed _ _ _ _ _ _ hcleared =>
      rw [List.filterMap_cons, cleared_unaudited hcleared]
      rfl
  | forwarded _ _ _ _ _ _ hcleared =>
      rw [List.filterMap_cons, cleared_unaudited hcleared]
      rfl

theorem exit_describes (h : Exit deps i invocation polls rest event) :
    event.tool = invocation.name ∧
      event.arguments = redactArguments invocation.args deps.redact := by
  have hfiles : ∃ upstream decision outcome resultStatus approval error,
      Files deps invocation upstream decision outcome resultStatus approval error event := by
    cases h <;> exact ⟨_, _, _, _, _, _, ‹_›⟩
  obtain ⟨upstream, decision, outcome, resultStatus, approval, error, now, eventId, latency,
    rfl⟩ := hfiles
  exact ⟨rfl, rfl⟩

end Exits

theorem audits_eq (own : GateEvent) : audits own = filed own.op := by
  obtain ⟨i, entry, op, answer, before⟩ := own
  cases op <;> rfl

theorem filed_of_audited {i : Nat} {history : List GateEvent} {event : AuditEvent}
    (h : event ∈ audited i history) : event ∈ filings history := by
  obtain ⟨own, hown, haudits⟩ := List.mem_filterMap.mp h
  rw [audits_eq] at haudits
  exact mem_filings (mem_deeds.mp hown).1 haudits

/-- An invocation that returns has recorded one audit event, of its tool and its redacted
arguments, and the row of the event is in the table, unless the invocation looked up an
approval that was not on file. -/
theorem audited_once_iff {deps : GatewayDeps} {world : World} {c : GateConfig}
    (hreach : (machine deps).Reaches .none (Config.initial world) c) {i : Nat}
    {invocation : Invocation} {polls : Nat} {reply : Reply}
    (htask : c.tasks[i]? = some ⟨.callTool invocation polls, .ret reply⟩) :
    (∃ event, audited i c.state.history = [event] ∧ event.tool = invocation.name ∧
      event.arguments = redactArguments invocation.args deps.redact ∧ OnFile c.state event) ↔
    missed i c.state.history = false := by
  have hfile : ∀ event, audited i c.state.history = [event] → OnFile c.state event := by
    intro event haudited
    refine onFile_of_reaches hreach (filed_of_audited (i := i) ?_)
    rw [haudited]
    exact List.mem_singleton_self event
  obtain ⟨s, hrely, hreturn⟩ := (gate_good hreach).returned htask
  have htrail : trail i c.state.history = trail i s.history := hrely.deeds_eq
  have hmissed : missed i c.state.history = missed i s.history := by
    rw [missed, hrely.deeds_eq, missed]
  rw [hmissed]
  rcases hreturn with ⟨event, before, rest, hfiled, hexit, hnone⟩ |
    ⟨tool, before, huntraced, hsome, -⟩
  · have haudited : audited i c.state.history = [event] := by
      rw [audited, htrail, hfiled, List.filterMap_cons, exit_unaudited hexit]
      rfl
    obtain ⟨htool, harguments⟩ := exit_describes hexit
    exact iff_of_true ⟨event, haudited, htool, harguments, hfile event haudited⟩ hnone
  · rw [hsome, audited, htrail, huntraced]
    refine iff_of_false ?_ (by simp)
    rintro ⟨event, hevent, -⟩
    cases hevent

def denied : GateConfig :=
  ((machine deps).run .none (Config.initial office)
    (.start (.callTool denial 0) :: acts 0 6)).get (by decide)

theorem audited_once_iff_denied :
    ∃ event key, audited 0 denied.state.history = [event] ∧ event.tool = "fs__delete" ∧
      event.arguments = redactArguments [] deps.redact ∧
        (key, event.row) ∈ denied.state.world.audit.rows := by
  have hreach : (machine deps).Reaches .none (Config.initial office) denied :=
    Machine.reaches_get _
  have htask : denied.tasks[0]? = some ⟨.callTool denial 0, .ret _⟩ := rfl
  obtain ⟨event, haudited, htool, harguments, hfile⟩ := (audited_once_iff hreach htask).mpr rfl
  have honly : filings denied.state.history = audited 0 denied.state.history := rfl
  rw [haudited] at honly
  obtain ⟨key, hrow⟩ := hfile fun other hother _ => by simpa [honly] using hother
  exact ⟨event, key, haudited, htool, harguments, hrow⟩

/-- A retry with a made-up state is answered, and not recorded. -/
def probe : Invocation :=
  { name := "fs__delete", requestState := some "made up", inputResponses := some [] }

theorem probe_unaudited :
    ∃ c reply, (machine deps).run .none (Config.initial office)
        (.start (.callTool probe 0) :: acts 0 3) = some c ∧
      c.tasks[0]? = some ⟨.callTool probe 0, .ret reply⟩ ∧
      audited 0 c.state.history = [] ∧ c.state.world.audit.rows = [] :=
  ⟨_, _, rfl, rfl, rfl, rfl⟩

end McpGatekeeper.AuditTrail
