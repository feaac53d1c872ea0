import McpGatekeeper.Gateway
import McpGatekeeper.Interleaving.Contract

/-!
The whole program as one machine: every handler of the server and of the UI, and
every call of the approval service, is a task that may arrive at any moment.
-/

namespace McpGatekeeper.System

open Interleaving
open McpGatekeeper.Approvals
open McpGatekeeper.Clock
open McpGatekeeper.Gateway
open McpGatekeeper.JsonValues
open McpGatekeeper.Operations
open McpGatekeeper.PolicyEngine
open McpGatekeeper.Registry
open McpGatekeeper.Service

inductive Entry
  | callTool (invocation : Invocation) (polls : Nat)
  | listTools
  | openApproval (tool upstream : String) (arguments : JsonObject)
      (reason clientName : Option String)
  | decide (id : String) (approved : Bool) (approver : String) (note : Option String)
  | dismiss (id : String) (note : Option String)
  | get (id : String)
  | wait (id : String) (polls : Nat)
  | pending
  | expireOverdue (now : Option DateTime)

inductive Reply
  | call (reply : CallReply)
  | listed (tools : List Tool)
  | opened (approval : ApprovalRequest)
  | approval (approval : Option ApprovalRequest)
  | pending (rows : List ApprovalRequest)
  | expired (count : Nat)

variable (deps : GatewayDeps)

def code : Entry → Prog Reply
  | .callTool invocation polls => do
      let reply ← callTool deps invocation polls
      pure (.call reply)
  | .listTools => do
      let tools ← listTools
      pure (.listed tools)
  | .openApproval tool upstream arguments reason clientName => do
      let approval ← deps.approvals.openApproval tool upstream arguments reason clientName
      pure (.opened approval)
  | .decide id approved approver note => do
      let approval ← ApprovalService.decide id approved approver note
      pure (.approval approval)
  | .dismiss id note => do
      let approval ← ApprovalService.dismiss id note
      pure (.approval approval)
  | .get id => do
      let approval ← ApprovalService.get id
      pure (.approval approval)
  | .wait id polls => do
      let approval ← deps.approvals.wait polls id
      pure (.approval approval)
  | .pending => do
      let rows ← ApprovalService.pending
      pure (.pending rows)
  | .expireOverdue now => do
      let count ← SqliteApprovalStore.expireOverdue now
      pure (.expired count)

abbrev Gatekeeper := Machine World Choice Env Entry Res Halt Reply

def machine : Gatekeeper where
  code := code deps
  exec := Operations.exec
  env := Operations.env
  cancelled := .cancelled

abbrev GateState := State World Entry Res

abbrev GateEvent := Event World Entry Res

abbrev GateConfig := Config World Entry Res Halt Reply

abbrev GateAssumption := Assumption World Env Entry Res

abbrev GateLabel := Label Choice Env Entry

/-- The clocks are only ever read forwards. -/
def forwardClock : GateAssumption where
  act _ _ _ _ := true
  env change s :=
    match change with
    | .tick now _ => s.world.now ≤ now
    | .disconnect _ => true

end McpGatekeeper.System
