import McpGatekeeper.Rows

namespace McpGatekeeper.TextTables

open McpGatekeeper.Approvals
open McpGatekeeper.Audit
open McpGatekeeper.Clock
open McpGatekeeper.Rows

structure Tables where
  approvals : List ApprovalRow := []
  audit : List (Nat × AuditRow) := []
  /-- The last `AUTOINCREMENT` key given out. -/
  sequence : Nat := 0

namespace Tables

variable (tables : Tables)

/-- `SELECT ... FROM approvals WHERE id = ?` -/
def select (id : String) : Option ApprovalRow :=
  tables.approvals.find? fun row => row.id == id

/-- The `INSERT` of `create`; `false` where the primary key is taken. -/
def create (request : ApprovalRequest) : Bool × Tables :=
  if request.id ∈ tables.approvals.map (·.id) then (false, tables)
  else (true, { tables with approvals := tables.approvals ++ [createRow request] })

/-- `UPDATE approvals SET ... WHERE id = ? AND status = ?` -/
def settle (id : String) (approved : Bool) (decidedAt : DateTime) (approver : String)
    (note : Option String) (row : ApprovalRow) : ApprovalRow :=
  if row.id = id ∧ row.status = approvalStatusValue .pending then
    { row with
      status := approvalStatusValue (if approved then .approved else .denied)
      decidedAt := some decidedAt.isoformat
      approver := some approver
      note := note }
  else row

/-- The transaction of `resolve`. -/
def resolve (id : String) (approved : Bool) (decidedAt : DateTime) (approver : String)
    (note : Option String) : Option ApprovalRow × Tables :=
  match tables.select id with
  | none => (none, tables)
  | some current =>
      if current.status = approvalStatusValue .pending then
        let updated : Tables :=
          { tables with
            approvals := tables.approvals.map (settle id approved decidedAt approver note) }
        (updated.select id, updated)
      else (some current, tables)

/-- `WHERE status = ? AND expires_at <= ?` -/
def overdue (moment : DateTime) (row : ApprovalRow) : Bool :=
  row.status == approvalStatusValue .pending && decide (row.expiresAt ≤ moment.isoformat)

def expire (moment : DateTime) (row : ApprovalRow) : ApprovalRow :=
  if overdue moment row then
    { row with
      status := approvalStatusValue .expired
      decidedAt := some moment.isoformat
      approver := some timeoutApprover }
  else row

/-- The transaction of `expire_overdue`. -/
def expireOverdue (moment : DateTime) : Nat × Tables :=
  ((tables.approvals.filter (overdue moment)).length,
    { tables with approvals := tables.approvals.map (expire moment) })

/-- `ORDER BY created_at ASC` -/
def Precedes (row other : ApprovalRow) : Prop :=
  row.createdAt ≤ other.createdAt

instance : DecidableRel Precedes :=
  fun _ _ => inferInstanceAs (Decidable (_ ≤ _))

/-- `SELECT ... FROM approvals WHERE status = ?`, in that order. -/
def selectPending : List ApprovalRow :=
  (tables.approvals.filter fun row =>
    row.status == approvalStatusValue .pending).insertionSort Precedes

/-- `INSERT OR REPLACE INTO audit_events` -/
def record (event : AuditEvent) : Tables :=
  { tables with
    audit := tables.audit.filter (fun row => row.2.eventId != event.eventId) ++
      [(tables.sequence + 1, recordRow event)]
    sequence := tables.sequence + 1 }

section Reading

variable (spell : List Char → String)

def readRow (row : Option ApprovalRow) : Option (Option ApprovalRequest) :=
  match row with
  | none => some none
  | some row => (rowToRequest spell row).map some

/-- `SqliteApprovalStore.get` -/
def get (id : String) : Option (Option ApprovalRequest) :=
  readRow spell (tables.select id)

/-- `SqliteApprovalStore.pending` -/
def pending : Option (List ApprovalRequest) :=
  tables.selectPending.mapM (rowToRequest spell)

end Reading

end Tables

/-- The file that holds the tables. -/
def written (approvals : ApprovalsTable) (audit : AuditTable) : Tables where
  approvals := approvals.rows.map approvalText
  audit := audit.rows.map fun row => (row.1, recordRow row.2)
  sequence := audit.seq

/-- Every row can be read back. -/
structure Readable (spell : List Char → String) (approvals : ApprovalsTable)
    (audit : AuditTable) : Prop where
  approvals : ∀ row ∈ approvals.rows, Settled spell row.arguments
  audit : ∀ row ∈ audit.rows, Settled spell row.2.arguments

section Written

variable {spell : List Char → String} {approvals : ApprovalsTable} {audit : AuditTable}

theorem approvalStatusValue_inj {status status' : ApprovalStatus} :
    approvalStatusValue status = approvalStatusValue status' ↔ status = status' := by
  refine ⟨fun h => ?_, congrArg _⟩
  have hmember := member_approvalStatus status
  rw [h, member_approvalStatus] at hmember
  exact (Option.some.inj hmember).symm

theorem approvalText_pending (row : ApprovalRequest) :
    ((approvalText row).status == approvalStatusValue .pending) = (row.status == .pending) := by
  rw [Bool.eq_iff_iff, beq_iff_eq, beq_iff_eq]
  exact approvalStatusValue_inj

theorem select_written (id : String) :
    (written approvals audit).select id = (approvals.get id).map approvalText := by
  rw [Tables.select, written, List.find?_map]
  rfl

theorem ids_written :
    (written approvals audit).approvals.map (·.id) = approvals.rows.map (·.id) := by
  rw [written, List.map_map]
  rfl

theorem create_taken {request : ApprovalRequest} (h : approvals.create request = none) :
    (written approvals audit).create request = (false, written approvals audit) := by
  refine if_pos ?_
  rw [ids_written]
  by_contra hfresh
  rw [ApprovalsTable.create, dif_neg hfresh] at h
  cases h

theorem create_fresh {request : ApprovalRequest} {approvals' : ApprovalsTable}
    (h : approvals.create request = some approvals') :
    (written approvals audit).create request = (true, written approvals' audit) := by
  rw [ApprovalsTable.create] at h
  split at h
  · cases h
  · rename_i hfresh
    cases h
    rw [Tables.create, ids_written, if_neg hfresh]
    simp only [written, List.map_append, List.map_cons, List.map_nil, createRow_eq]

theorem settle_text (id : String) (approved : Bool) (decidedAt : DateTime) (approver : String)
    (note : Option String) (row : ApprovalRequest) :
    Tables.settle id approved decidedAt approver note (approvalText row) =
      approvalText (ApprovalsTable.settle id approved decidedAt approver note row) := by
  have hiff : ((approvalText row).id = id ∧
      (approvalText row).status = approvalStatusValue .pending) ↔
        (row.id = id ∧ row.status = .pending) :=
    and_congr_right fun _ => approvalStatusValue_inj
  rw [Tables.settle, ApprovalsTable.settle]
  simp only [hiff]
  split <;> rfl

theorem resolve_written (id : String) (approved : Bool) (decidedAt : DateTime)
    (approver : String) (note : Option String) :
    (written approvals audit).resolve id approved decidedAt approver note =
      ((approvals.resolve id approved decidedAt approver note).1.map approvalText,
        written (approvals.resolve id approved decidedAt approver note).2 audit) := by
  rw [Tables.resolve, ApprovalsTable.resolve, select_written]
  cases hcurrent : approvals.get id with
  | none => rfl
  | some current =>
      have hiff : (approvalText current).status = approvalStatusValue .pending ↔
          current.status = .pending := approvalStatusValue_inj
      simp only [Option.map_some, hiff]
      split
      · have hupdated : ({ written approvals audit with
            approvals := (written approvals audit).approvals.map
              (Tables.settle id approved decidedAt approver note) } : Tables) =
            written (approvals.update
              (ApprovalsTable.settle id approved decidedAt approver note)
              (ApprovalsTable.settle_id id approved decidedAt approver note)) audit := by
          simp only [written, ApprovalsTable.update, List.map_map, Function.comp_def, settle_text]
        rw [hupdated, select_written]
      · rfl

theorem overdue_text (moment : DateTime) (row : ApprovalRequest) :
    Tables.overdue moment (approvalText row) = ApprovalsTable.overdue moment row := by
  rw [Tables.overdue, approvalText_pending]
  rfl

theorem expire_text (moment : DateTime) (row : ApprovalRequest) :
    Tables.expire moment (approvalText row) = approvalText (ApprovalsTable.expire moment row) := by
  rw [Tables.expire, ApprovalsTable.expire, overdue_text]
  split <;> rfl

theorem expireOverdue_written (moment : DateTime) :
    (written approvals audit).expireOverdue moment =
      ((approvals.expireOverdue moment).1, written (approvals.expireOverdue moment).2 audit) := by
  simp only [Tables.expireOverdue, ApprovalsTable.expireOverdue, ApprovalsTable.update, written,
    List.map_map, List.filter_map, List.length_map, Function.comp_def, expire_text, overdue_text]

theorem insertByCreation_text (row : ApprovalRequest) (rows : List ApprovalRequest) :
    (ApprovalsTable.insertByCreation row rows).map approvalText =
      (rows.map approvalText).orderedInsert Tables.Precedes (approvalText row) := by
  induction rows with
  | nil => rfl
  | cons other rows ih =>
      have hiff : Tables.Precedes (approvalText row) (approvalText other) ↔
          row.createdAt.isoformat ≤ other.createdAt.isoformat := Iff.rfl
      rw [ApprovalsTable.insertByCreation, List.map_cons, List.orderedInsert]
      simp only [hiff]
      split
      · rfl
      · rw [List.map_cons, ih]

theorem selectPending_written :
    (written approvals audit).selectPending = approvals.pending.map approvalText := by
  have hfilter : (written approvals audit).approvals.filter
      (fun row => row.status == approvalStatusValue .pending) =
        (approvals.rows.filter fun row => row.status == .pending).map approvalText := by
    simp only [written, List.filter_map, Function.comp_def, approvalText_pending]
  rw [Tables.selectPending, hfilter, ApprovalsTable.pending]
  induction approvals.rows.filter fun row => row.status == .pending with
  | nil => rfl
  | cons row rows ih =>
      rw [List.map_cons, List.insertionSort_cons, ih, List.foldr_cons, insertByCreation_text]

theorem record_written (event : AuditEvent) :
    (written approvals audit).record event = written approvals (audit.record event) := by
  simp only [Tables.record, AuditTable.record, written, List.map_append, List.filter_map,
    Function.comp_def, List.map_cons, List.map_nil, recordRow_row]
  rfl

theorem mapM_rowToRequest {rows : List ApprovalRequest}
    (h : ∀ row ∈ rows, Settled spell row.arguments) :
    (rows.map approvalText).mapM (rowToRequest spell) = some rows := by
  induction rows with
  | nil => rfl
  | cons row rows ih =>
      obtain ⟨hrow, hrows⟩ := List.forall_mem_cons.mp h
      rw [List.map_cons, List.mapM_cons, rowToRequest_approvalText hrow, ih hrows]
      rfl

end Written

end McpGatekeeper.TextTables
