import McpGatekeeper.Clock
import McpGatekeeper.PolicyEngine

namespace McpGatekeeper.Audit

open McpGatekeeper.Clock
open McpGatekeeper.Glob
open McpGatekeeper.JsonValues
open McpGatekeeper.PolicyEngine

inductive Outcome
  | forwarded
  | deniedByPolicy
  | deniedByApprover
  | dismissedByClient
  | timedOut
  | awaitingApproval
  | error
  | unknownTool
  deriving DecidableEq

inductive ResultStatus
  | ok
  | error
  deriving DecidableEq

def redacted : String := "[redacted]"

/-- The test at the head of `redact`; the empty path is never masked. -/
def masks (translated : List String) (path : String) : Bool :=
  path != "" && translated.any fun pattern => matchPath pattern path

def childPath (path key : String) : String :=
  if path = "" then key else path ++ "/" ++ key

mutual

def redact (translated : List String) : Json → String → Json
  | .obj fields, path =>
      if masks translated path then .str redacted
      else .obj (redactFields translated fields path)
  | .arr items, path =>
      if masks translated path then .str redacted
      else .arr (redactItems translated items path 0)
  | value, path => if masks translated path then .str redacted else value

def redactFields (translated : List String) : JsonObject → String → JsonObject
  | [], _ => []
  | (key, item) :: fields, path =>
      (key, redact translated item (childPath path key)) ::
        redactFields translated fields path

/-- Items are numbered even under the empty path, where the separator stays. -/
def redactItems (translated : List String) : List Json → String → Nat → List Json
  | [], _, _ => []
  | item :: items, path, index =>
      redact translated item (path ++ "/" ++ toString index) ::
        redactItems translated items path (index + 1)

end

def redactArguments (arguments : JsonObject) (patterns : List String) : JsonObject :=
  if patterns.isEmpty then arguments
  else
    let translated := patterns.map fun pattern =>
      String.ofList (PythonText.replace '.' '/' pattern.toList)
    match redact translated (.obj arguments) "" with
    | .obj fields => fields
    | _ => []

structure AuditEvent where
  eventId : String
  createdAt : DateTime
  tool : String
  upstream : String
  arguments : JsonObject
  action : Action
  decisionSource : Source
  outcome : Outcome
  decisionReason : Option String := none
  ruleIndex : Option Nat := none
  approvalId : Option String := none
  approver : Option String := none
  latency : Option Int := none
  resultStatus : Option ResultStatus := none
  clientName : Option String := none
  error : Option String := none

/-- `AuditEvent.build`; the moment is the clock's when it runs. -/
def AuditEvent.build (now : DateTime) (eventId tool upstream : String)
    (arguments : JsonObject) (decision : Decision) (outcome : Outcome)
    (patterns : List String) (clientName : Option String) (latency : Int)
    (resultStatus : Option ResultStatus) (approvalId approver error : Option String) :
    AuditEvent where
  eventId := eventId
  createdAt := now
  tool := tool
  upstream := upstream
  arguments := redactArguments arguments patterns
  action := decision.action
  decisionSource := decision.source
  outcome := outcome
  decisionReason := decision.reason
  ruleIndex := decision.ruleIndex
  approvalId := approvalId
  approver := approver
  latency := some latency
  resultStatus := resultStatus
  clientName := clientName
  error := error

/-- The row an event is written as. -/
def AuditEvent.row (event : AuditEvent) : AuditEvent :=
  { event with arguments := dumps event.arguments }

/-- The `audit_events` table; `seq` is the last `AUTOINCREMENT` key given out. -/
structure AuditTable where
  rows : List (Nat × AuditEvent) := []
  seq : Nat := 0

/-- `INSERT OR REPLACE`: a row with the same `event_id` is deleted first. -/
def AuditTable.record (table : AuditTable) (event : AuditEvent) : AuditTable where
  rows := table.rows.filter (fun row => row.2.eventId != event.eventId) ++
    [(table.seq + 1, event.row)]
  seq := table.seq + 1

theorem AuditTable.record_congr (table : AuditTable) {event event' : AuditEvent}
    (h : event.row = event'.row) : table.record event = table.record event' := by
  have hid : event.row.eventId = event'.row.eventId := congrArg AuditEvent.eventId h
  change event.eventId = event'.eventId at hid
  simp only [record, hid, h]

end McpGatekeeper.Audit
