import McpGatekeeper.Operations

/-!
The approval workflow: `SqliteApprovalStore` and `ApprovalService` as programs.

Every database call and every reading of the clock is a point at which other
tasks may run.
-/

namespace McpGatekeeper.Service

open Interleaving
open McpGatekeeper.Approvals
open McpGatekeeper.Clock
open McpGatekeeper.JsonValues
open McpGatekeeper.Operations

namespace SqliteApprovalStore

def create (request : ApprovalRequest) : Prog Unit := do
  let inserted ← Program.call (Op.createApproval request)
  if inserted then pure ()
  else .fail (.raised "UNIQUE constraint failed: approvals.id")

def get (id : String) : Prog (Option ApprovalRequest) :=
  Program.call (Op.getApproval id)

/-- `decided_at` is read before the transaction begins. -/
def resolve (id : String) (approved : Bool) (approver : String) (note : Option String) :
    Prog (Option ApprovalRequest) := do
  let decidedAt ← Program.call Op.now
  Program.call (Op.resolveApproval id approved decidedAt approver note)

def pending : Prog (List ApprovalRequest) :=
  Program.call Op.pendingApprovals

def expireOverdue (now : Option DateTime) : Prog Nat :=
  match now with
  | some moment => Program.call (Op.expireOverdue moment)
  | none => do
      let moment ← Program.call Op.now
      Program.call (Op.expireOverdue moment)

end SqliteApprovalStore

structure ApprovalService where
  timeoutSeconds : Seconds := .finite 300
  approveOnTimeout : Bool := false

namespace ApprovalService

variable (service : ApprovalService)

/-- `expires_at` of a request opened at `now`; `none` where computing it raises. -/
def deadline (now : DateTime) : Option DateTime :=
  (timedelta service.timeoutSeconds).bind now.add

/-- `open`: park a call and return its pending request. -/
def openApproval (tool upstream : String) (arguments : JsonObject)
    (reason clientName : Option String) : Prog ApprovalRequest := do
  let now ← Program.call Op.now
  let id ← Program.call Op.newApprovalId
  match service.deadline now with
  | none => .fail (.raised "OverflowError")
  | some expiresAt => do
      let request : ApprovalRequest :=
        { id := id
          createdAt := now
          expiresAt := expiresAt
          status := .pending
          tool := tool
          upstream := upstream
          arguments := arguments
          reason := reason
          clientName := clientName }
      SqliteApprovalStore.create request
      Program.call (Op.newEvent id)
      pure request

def decide (id : String) (approved : Bool) (approver : String) (note : Option String) :
    Prog (Option ApprovalRequest) := do
  let resolved ← SqliteApprovalStore.resolve id approved approver note
  Program.call (Op.setEvent id)
  pure resolved

def dismiss (id : String) (note : Option String) : Prog (Option ApprovalRequest) := do
  let resolved ← SqliteApprovalStore.resolve id false clientApprover note
  Program.call (Op.popEvent id)
  pure resolved

/-- A request past its deadline is settled before it is reported. -/
def get (id : String) : Prog (Option ApprovalRequest) := do
  match ← SqliteApprovalStore.get id with
  | none => pure none
  | some request => do
      let now ← Program.call Op.now
      if request.isExpiredAt now then do
        let _ ← SqliteApprovalStore.expireOverdue none
        SqliteApprovalStore.get id
      else pure (some request)

/-- `_settle_timeout` -/
def settleTimeout (id : String) : Prog (Option ApprovalRequest) := do
  Program.call (Op.popEvent id)
  if service.approveOnTimeout then
    SqliteApprovalStore.resolve id true timeoutApprover (some "auto-approved on timeout")
  else do
    let _ ← SqliteApprovalStore.expireOverdue none
    SqliteApprovalStore.get id

/-- The loop of `wait`, followed for at most `polls` rounds. -/
def waitLoop (id : String) (deadline : DateTime) : Nat → Prog (Option ApprovalRequest)
  | 0 => .fail .polling
  | polls + 1 => do
      let now ← Program.call Op.now
      if deadline ≤ now then service.settleTimeout id
      else do
        Program.call (Op.awaitEvent id)
        match ← SqliteApprovalStore.get id with
        | none => pure none
        | some current =>
            if current.status.isResolved then do
              Program.call (Op.popEvent id)
              pure (some current)
            else waitLoop id deadline polls

def wait (polls : Nat) (id : String) : Prog (Option ApprovalRequest) := do
  match ← SqliteApprovalStore.get id with
  | none => pure none
  | some request =>
      if request.status.isResolved then pure (some request)
      else do
        Program.call (Op.ensureEvent id)
        service.waitLoop id request.expiresAt polls

def pending : Prog (List ApprovalRequest) := do
  let _ ← SqliteApprovalStore.expireOverdue none
  SqliteApprovalStore.pending

end ApprovalService

end McpGatekeeper.Service
