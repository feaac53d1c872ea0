import McpGatekeeper.Export
import McpGatekeeper.JsonText
import McpGatekeeper.Timestamps

namespace McpGatekeeper.Rows

open McpGatekeeper.Approvals
open McpGatekeeper.Audit
open McpGatekeeper.Clock
open McpGatekeeper.Export
open McpGatekeeper.JsonText
open McpGatekeeper.JsonValues
open McpGatekeeper.PolicyEngine
open McpGatekeeper.Timestamps

/-- The member of a `StrEnum` with a value; `none` where the lookup raises. -/
def member {α : Type} (members : List α) (value : α → String) (text : String) : Option α :=
  members.find? fun candidate => value candidate == text

def approvalStatusValue : ApprovalStatus → String
  | .pending => "pending"
  | .approved => "approved"
  | .denied => "denied"
  | .expired => "expired"

def approvalStatuses : List ApprovalStatus :=
  [.pending, .approved, .denied, .expired]

def actions : List Action :=
  [.allow, .deny, .requireApproval]

def sources : List Source :=
  [.rule, .default]

def outcomes : List Outcome :=
  [.forwarded, .deniedByPolicy, .deniedByApprover, .dismissedByClient, .timedOut,
    .awaitingApproval, .error, .unknownTool]

def resultStatuses : List ResultStatus :=
  [.ok, .error]

theorem member_value {α : Type} {members : List α} {value : α → String}
    (hdistinct : (members.map value).Nodup) {candidate : α} (h : candidate ∈ members) :
    member members value (value candidate) = some candidate := by
  induction members with
  | nil => cases h
  | cons first members ih =>
      obtain ⟨hfirst, hrest⟩ := List.nodup_cons.mp hdistinct
      rw [member, List.find?_cons]
      rcases List.mem_cons.mp h with rfl | hmem
      · rw [beq_self_eq_true]
      · have hne : value first ≠ value candidate := fun heq =>
          hfirst (heq ▸ List.mem_map_of_mem hmem)
        rw [beq_eq_false_iff_ne.mpr hne]
        exact ih hrest hmem

theorem member_approvalStatus (status : ApprovalStatus) :
    member approvalStatuses approvalStatusValue (approvalStatusValue status) = some status :=
  member_value (by decide) (by cases status <;> decide)

theorem member_action (action : Action) :
    member actions actionValue (actionValue action) = some action :=
  member_value (by decide) (by cases action <;> decide)

theorem member_source (source : Source) :
    member sources sourceValue (sourceValue source) = some source :=
  member_value (by decide) (by cases source <;> decide)

theorem member_outcome (outcome : Outcome) :
    member outcomes outcomeValue (outcomeValue outcome) = some outcome :=
  member_value (by decide) (by cases outcome <;> decide)

theorem member_resultStatus (status : ResultStatus) :
    member resultStatuses statusValue (statusValue status) = some status :=
  member_value (by decide) (by cases status <;> decide)

/-- `read(text) if text else None` -/
def readOptional {α : Type} (read : String → Option α) (column : Option String) :
    Option (Option α) :=
  match column with
  | none => some none
  | some text => if text = "" then some none else (read text).map some

theorem readOptional_map {α : Type} {read : String → Option α} {write : α → String}
    {value : Option α} (h : ∀ a, value = some a → write a ≠ "" ∧ read (write a) = some a) :
    readOptional read (value.map write) = some value := by
  rcases value with _ | a
  · rfl
  · obtain ⟨hne, hread⟩ := h a rfl
    change (if write a = "" then some none else (read (write a)).map some) = _
    rw [if_neg hne, hread]
    rfl

theorem isoformat_ne_empty (t : DateTime) : t.isoformat ≠ "" := by
  intro h
  have hread := fromisoformat_isoformat t
  rw [h] at hread
  cases hread

/-- `json.loads` of a column that holds an object. -/
def loadsObject (spell : List Char → String) (text : String) : Option JsonObject :=
  match loads spell text with
  | some (.obj fields) => some fields
  | _ => none

/-- A row of the `approvals` table. -/
structure ApprovalRow where
  id : String
  createdAt : String
  expiresAt : String
  status : String
  tool : String
  upstream : String
  arguments : String
  reason : Option String
  clientName : Option String
  decidedAt : Option String
  approver : Option String
  note : Option String
  deriving DecidableEq

section Approvals

variable (spell : List Char → String)

/-- `_row_to_request` -/
def rowToRequest (row : ApprovalRow) : Option ApprovalRequest := do
  let createdAt ← fromisoformat row.createdAt
  let expiresAt ← fromisoformat row.expiresAt
  let status ← member approvalStatuses approvalStatusValue row.status
  let arguments ← loadsObject spell row.arguments
  let decidedAt ← readOptional fromisoformat row.decidedAt
  some
    { id := row.id
      createdAt := createdAt
      expiresAt := expiresAt
      status := status
      tool := row.tool
      upstream := row.upstream
      arguments := arguments
      reason := row.reason
      clientName := row.clientName
      decidedAt := decidedAt
      approver := row.approver
      note := row.note }

end Approvals

/-- The parameters of the `INSERT` of `create`. -/
def createRow (request : ApprovalRequest) : ApprovalRow where
  id := request.id
  createdAt := request.createdAt.isoformat
  expiresAt := request.expiresAt.isoformat
  status := approvalStatusValue request.status
  tool := request.tool
  upstream := request.upstream
  arguments := dumpsText request.arguments
  reason := request.reason
  clientName := request.clientName
  decidedAt := none
  approver := none
  note := none

/-- The columns that a request of the table stands for. -/
def approvalText (request : ApprovalRequest) : ApprovalRow :=
  { createRow request with
    decidedAt := request.decidedAt.map (·.isoformat)
    approver := request.approver
    note := request.note }

/-- Arguments as they come out of the database. -/
structure Settled (spell : List Char → String) (arguments : JsonObject) : Prop where
  proper : proper spell (.obj arguments) = true
  sorted : dumps arguments = arguments

theorem settled_dumps {spell : List Char → String} {arguments : JsonObject}
    (h : proper spell (.obj arguments) = true) : Settled spell (dumps arguments) where
  proper := proper_sortKeys h
  sorted := dumps_dumps arguments

theorem loadsObject_dumpsText {spell : List Char → String} {arguments : JsonObject}
    (h : Settled spell arguments) : loadsObject spell (dumpsText arguments) = some arguments := by
  rw [loadsObject, loads_dumpsText h.proper, h.sorted]

theorem dumpsText_dumps (arguments : JsonObject) :
    dumpsText (dumps arguments) = dumpsText arguments := by
  rw [dumpsText, dumps_dumps, dumpsText]

theorem createRow_eq (request : ApprovalRequest) :
    createRow request = approvalText (ApprovalsTable.newRow request) := by
  simp only [approvalText, createRow, ApprovalsTable.newRow, dumpsText_dumps, Option.map_none]

theorem rowToRequest_approvalText {spell : List Char → String} {request : ApprovalRequest}
    (h : Settled spell request.arguments) :
    rowToRequest spell (approvalText request) = some request := by
  have hdecided : readOptional fromisoformat (request.decidedAt.map (·.isoformat)) =
      some request.decidedAt :=
    readOptional_map fun t _ => ⟨isoformat_ne_empty t, fromisoformat_isoformat t⟩
  simp only [rowToRequest, approvalText, createRow, fromisoformat_isoformat,
    member_approvalStatus, loadsObject_dumpsText h, hdecided, Option.bind_eq_bind,
    Option.bind_some]

/-- A row of the `audit_events` table without its key; the latency is in units of the
counter, and the source is a text that `_row_to_event` passes on. -/
structure AuditRow where
  eventId : String
  createdAt : String
  tool : String
  upstream : String
  arguments : String
  action : String
  decisionSource : String
  decisionReason : Option String
  ruleIndex : Option Nat
  outcome : String
  approvalId : Option String
  approver : Option String
  latency : Option Int
  resultStatus : Option String
  clientName : Option String
  error : Option String
  deriving DecidableEq

/-- `_row_to_event` -/
def rowToEvent (spell : List Char → String) (row : AuditRow) : Option AuditEvent := do
  let createdAt ← fromisoformat row.createdAt
  let arguments ← loadsObject spell row.arguments
  let action ← member actions actionValue row.action
  let decisionSource ← member sources sourceValue row.decisionSource
  let outcome ← member outcomes outcomeValue row.outcome
  let resultStatus ← readOptional (member resultStatuses statusValue) row.resultStatus
  some
    { eventId := row.eventId
      createdAt := createdAt
      tool := row.tool
      upstream := row.upstream
      arguments := arguments
      action := action
      decisionSource := decisionSource
      decisionReason := row.decisionReason
      ruleIndex := row.ruleIndex
      outcome := outcome
      approvalId := row.approvalId
      approver := row.approver
      latency := row.latency
      resultStatus := resultStatus
      clientName := row.clientName
      error := row.error }

/-- The parameters of the `INSERT` of `record`. -/
def recordRow (event : AuditEvent) : AuditRow where
  eventId := event.eventId
  createdAt := event.createdAt.isoformat
  tool := event.tool
  upstream := event.upstream
  arguments := dumpsText event.arguments
  action := actionValue event.action
  decisionSource := sourceValue event.decisionSource
  decisionReason := event.decisionReason
  ruleIndex := event.ruleIndex
  outcome := outcomeValue event.outcome
  approvalId := event.approvalId
  approver := event.approver
  latency := event.latency
  resultStatus := event.resultStatus.map statusValue
  clientName := event.clientName
  error := event.error

theorem recordRow_row (event : AuditEvent) : recordRow event.row = recordRow event := by
  simp only [recordRow, AuditEvent.row, dumpsText_dumps]

theorem rowToEvent_recordRow {spell : List Char → String} {event : AuditEvent}
    (h : Settled spell event.arguments) : rowToEvent spell (recordRow event) = some event := by
  have hstatus : readOptional (member resultStatuses statusValue)
      (event.resultStatus.map statusValue) = some event.resultStatus :=
    readOptional_map fun status _ =>
      ⟨by cases status <;> decide, member_resultStatus status⟩
  simp only [rowToEvent, recordRow, fromisoformat_isoformat, member_action, member_source,
    member_outcome, loadsObject_dumpsText h, hstatus, Option.bind_eq_bind, Option.bind_some]

end McpGatekeeper.Rows
