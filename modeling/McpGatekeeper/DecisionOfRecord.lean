import McpGatekeeper.GatewayRules
import McpGatekeeper.Scenarios

namespace McpGatekeeper.DecisionOfRecord

open Interleaving
open McpGatekeeper.Approvals
open McpGatekeeper.Conduct
open McpGatekeeper.GateContract
open McpGatekeeper.Gateway
open McpGatekeeper.GatewayRules
open McpGatekeeper.Operations
open McpGatekeeper.Scenarios
open McpGatekeeper.System

/-- The branch of `_apply_approval` an operation takes, and on which row. -/
def branch : Op → Option (Bool × ApprovalRequest)
  | .takeGranted approval => some (true, approval)
  | .takeRefused approval => some (false, approval)
  | _ => none

/-- With a clock that is read forwards: the row of a branch is settled, granted exactly
on the granted branch, and stands so in the database then and ever after. -/
theorem branch_as_recorded {deps : GatewayDeps} {world : World} {c c' : GateConfig}
    (hreach : (machine deps).Reaches forwardClock (Config.initial world) c)
    (hlater : (machine deps).Reaches forwardClock c c') {event : GateEvent}
    (hevent : event ∈ c.state.history) {granted : Bool} {approval : ApprovalRequest}
    (hbranch : branch event.op = some (granted, approval)) :
    approval.status ≠ .pending ∧ (granted = true ↔ approval.status = .approved) ∧
      event.before.approvals.get approval.id = some approval ∧
      c'.state.world.approvals.get approval.id = some approval := by
  have hgood := gate_good hreach
  obtain ⟨newer, older, hsplit⟩ := List.append_of_mem hevent
  have hhonoured := hgood.past newer event older hsplit
  suffices hfile : approval.status ≠ .pending ∧ (granted = true ↔ approval.status = .approved) ∧
      OnFile approval event.before by
    obtain ⟨hsettled, hgranted, hfile⟩ := hfile
    have hrow := hfile.get hsettled
    refine ⟨hsettled, hgranted, hrow, ?_⟩
    exact (hhonoured.evo.1.trans (evolves_of_reaches hlater)).approvals.settled hrow
      hsettled
  have howed := hhonoured.pre.2
  obtain ⟨i, entry, op, answer, before⟩ := event
  cases op with
  | takeGranted approval' =>
      obtain ⟨rfl, rfl⟩ := Prod.mk.inj (Option.some.inj hbranch)
      obtain ⟨hgranted, invocation, polls, tool, -, happlies⟩ := howed
      exact ⟨by simp [hgranted], by simp [hgranted], happlies.onFile⟩
  | takeRefused approval' =>
      obtain ⟨rfl, rfl⟩ := Prod.mk.inj (Option.some.inj hbranch)
      obtain ⟨hrefused, hsettled, invocation, polls, tool, -, happlies⟩ := howed
      exact ⟨hsettled forward_forwardClock, by simp [hrefused], happlies.onFile⟩
  | _ => cases hbranch

/-- A call held open until its deadline passes. -/
def holding : Invocation := { name := "fs__write" }

def held : GateConfig :=
  ((machine deps).run forwardClock (Config.initial office)
    (.start (.callTool holding 2) :: acts 0 3 ++ [names 0 "b"] ++ acts 0 4 ++
      clock oneOClock :: acts 0 6)).get (by decide)

def lastHeld : GateEvent := held.state.history.head (by decide)

theorem branch_as_recorded_timeout :
    ∃ approval granted, branch lastHeld.op = some (granted, approval) ∧
      approval.status ≠ .pending ∧
      held.state.world.approvals.get approval.id = some approval := by
  have hreach : (machine deps).Reaches forwardClock (Config.initial office) held :=
    Machine.reaches_get _
  have hsome : (branch lastHeld.op).isSome = true := by decide
  obtain ⟨⟨granted, approval⟩, hbranch⟩ := Option.isSome_iff_exists.mp hsome
  obtain ⟨hsettled, -, -, hrow⟩ :=
    branch_as_recorded hreach .refl (List.head_mem _ : lastHeld ∈ _) hbranch
  exact ⟨approval, granted, hbranch, hsettled, hrow⟩

end McpGatekeeper.DecisionOfRecord
