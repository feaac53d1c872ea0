import Mathlib.Data.List.Nodup
import McpGatekeeper.Clock
import McpGatekeeper.JsonValues

namespace McpGatekeeper.Approvals

open McpGatekeeper.Clock
open McpGatekeeper.JsonValues

/-- Recorded as the approver when a request expires. -/
def timeoutApprover : String := "system:timeout"

/-- Recorded when the requesting client came back without a human decision. -/
def clientApprover : String := "system:client-dismissed"

inductive ApprovalStatus
  | pending
  | approved
  | denied
  | expired
  deriving DecidableEq

def ApprovalStatus.isResolved (status : ApprovalStatus) : Bool :=
  status != .pending

def ApprovalStatus.isGranted (status : ApprovalStatus) : Bool :=
  status == .approved

/-- A request, and a row of the table: the `TEXT` columns hold the `isoformat` of
the moments and the `dumps` of the arguments, which determine them. -/
structure ApprovalRequest where
  id : String
  createdAt : DateTime
  expiresAt : DateTime
  status : ApprovalStatus
  tool : String
  upstream : String
  arguments : JsonObject
  reason : Option String := none
  clientName : Option String := none
  decidedAt : Option DateTime := none
  approver : Option String := none
  note : Option String := none

def ApprovalRequest.isExpiredAt (request : ApprovalRequest) (now : DateTime) : Bool :=
  request.status == .pending && decide (request.expiresAt ≤ now)

/-- The `approvals` table under its primary key. -/
structure ApprovalsTable where
  rows : List ApprovalRequest
  primaryKey : (rows.map (·.id)).Nodup

namespace ApprovalsTable

def empty : ApprovalsTable where
  rows := []
  primaryKey := List.nodup_nil

/-- `SELECT ... WHERE id = ?` -/
def get (table : ApprovalsTable) (id : String) : Option ApprovalRequest :=
  table.rows.find? fun row => row.id == id

/-- An `UPDATE`, which never touches the key. -/
def update (table : ApprovalsTable) (f : ApprovalRequest → ApprovalRequest)
    (hf : ∀ row, (f row).id = row.id) : ApprovalsTable where
  rows := table.rows.map f
  primaryKey := by
    have hids : (table.rows.map f).map (·.id) = table.rows.map (·.id) := by
      simp [Function.comp_def, hf]
    rw [hids]
    exact table.primaryKey

/-- The row the `INSERT` of `create` writes: no decision yet. -/
def newRow (request : ApprovalRequest) : ApprovalRequest :=
  { request with
    arguments := dumps request.arguments
    decidedAt := none
    approver := none
    note := none }

/-- `create`; `none` when the primary key is taken and sqlite raises. -/
def create (table : ApprovalsTable) (request : ApprovalRequest) : Option ApprovalsTable :=
  if h : request.id ∈ table.rows.map (·.id) then none
  else some
    { rows := table.rows ++ [newRow request]
      primaryKey := by
        rw [List.map_append]
        exact List.Nodup.append table.primaryKey (List.nodup_singleton _)
          (by simpa [newRow] using h) }

/-- The guarded `UPDATE` of `resolve`. -/
def settle (id : String) (approved : Bool) (decidedAt : DateTime) (approver : String)
    (note : Option String) (row : ApprovalRequest) : ApprovalRequest :=
  if row.id = id ∧ row.status = .pending then
    { row with
      status := if approved then .approved else .denied
      decidedAt := some decidedAt
      approver := some approver
      note := note }
  else row

theorem settle_id (id : String) (approved : Bool) (decidedAt : DateTime)
    (approver : String) (note : Option String) (row : ApprovalRequest) :
    (settle id approved decidedAt approver note row).id = row.id := by
  unfold settle
  split <;> rfl

/-- The transaction of `resolve`: the answer is the row as it stands afterwards. -/
def resolve (table : ApprovalsTable) (id : String) (approved : Bool)
    (decidedAt : DateTime) (approver : String) (note : Option String) :
    Option ApprovalRequest × ApprovalsTable :=
  match table.get id with
  | none => (none, table)
  | some current =>
      if current.status = .pending then
        let updated := table.update (settle id approved decidedAt approver note)
          (settle_id id approved decidedAt approver note)
        (updated.get id, updated)
      else (some current, table)

/-- `WHERE status = 'pending' AND expires_at <= ?`, a comparison of texts. -/
def overdue (moment : DateTime) (row : ApprovalRequest) : Bool :=
  row.status == .pending && decide (row.expiresAt.isoformat ≤ moment.isoformat)

/-- The bulk `UPDATE` of `expire_overdue`, on one row. -/
def expire (moment : DateTime) (row : ApprovalRequest) : ApprovalRequest :=
  if overdue moment row then
    { row with
      status := .expired
      decidedAt := some moment
      approver := some timeoutApprover }
  else row

theorem expire_id (moment : DateTime) (row : ApprovalRequest) :
    (expire moment row).id = row.id := by
  unfold expire
  split <;> rfl

/-- The transaction of `expire_overdue`, which answers `cursor.rowcount`. -/
def expireOverdue (table : ApprovalsTable) (moment : DateTime) :
    Nat × ApprovalsTable :=
  ((table.rows.filter (overdue moment)).length,
    table.update (expire moment) (expire_id moment))

/-- `ORDER BY created_at ASC`. -/
def insertByCreation (row : ApprovalRequest) : List ApprovalRequest → List ApprovalRequest
  | [] => [row]
  | other :: rows =>
      if row.createdAt.isoformat ≤ other.createdAt.isoformat then row :: other :: rows
      else other :: insertByCreation row rows

def pending (table : ApprovalsTable) : List ApprovalRequest :=
  (table.rows.filter fun row => row.status == .pending).foldr insertByCreation []

end ApprovalsTable

/-- What one operation can turn a row into: nothing happens to it, or a pending
row is settled and only its decision columns are written. -/
inductive Advances (row : ApprovalRequest) : ApprovalRequest → Prop
  | same : Advances row row
  | settled (hpending : row.status = .pending) (status : ApprovalStatus)
      (hstatus : status ≠ .pending) (decidedAt : DateTime) (approver : String)
      (note : Option String) :
      Advances row { row with
        status := status
        decidedAt := some decidedAt
        approver := some approver
        note := note }

theorem Advances.trans {a b c : ApprovalRequest} (hab : Advances a b)
    (hbc : Advances b c) : Advances a c := by
  cases hab with
  | same => exact hbc
  | settled hpending status hstatus decidedAt approver note =>
      cases hbc with
      | same => exact .settled hpending status hstatus decidedAt approver note
      | settled hpending' => exact absurd hpending' hstatus

theorem Advances.eq_of_settled {a b : ApprovalRequest} (h : Advances a b)
    (ha : a.status ≠ .pending) : b = a := by
  cases h with
  | same => rfl
  | settled hpending => exact absurd hpending ha

theorem Advances.call_eq {a b : ApprovalRequest} (h : Advances a b) :
    b.tool = a.tool ∧ b.upstream = a.upstream ∧ b.arguments = a.arguments := by
  cases h <;> exact ⟨rfl, rfl, rfl⟩

theorem Advances.expiresAt_eq {a b : ApprovalRequest} (h : Advances a b) :
    b.expiresAt = a.expiresAt := by
  cases h <;> rfl

namespace ApprovalsTable

theorem advances_settle (id : String) (approved : Bool) (decidedAt : DateTime)
    (approver : String) (note : Option String) (row : ApprovalRequest) :
    Advances row (settle id approved decidedAt approver note row) := by
  unfold settle
  split
  · rename_i h
    exact .settled h.2 _ (by cases approved <;> decide) decidedAt approver note
  · exact .same

theorem advances_expire (moment : DateTime) (row : ApprovalRequest) :
    Advances row (expire moment row) := by
  unfold expire
  split
  · rename_i h
    simp only [overdue, Bool.and_eq_true, beq_iff_eq] at h
    exact .settled h.1 .expired (by decide) moment timeoutApprover row.note
  · exact .same

theorem id_of_get {table : ApprovalsTable} {id : String} {row : ApprovalRequest}
    (h : table.get id = some row) : row.id = id := by
  simpa using List.find?_some h

@[simp] theorem get_update (table : ApprovalsTable)
    (f : ApprovalRequest → ApprovalRequest) (hf : ∀ row, (f row).id = row.id)
    (id : String) : (table.update f hf).get id = (table.get id).map f := by
  simp only [get, update, List.find?_map]
  congr 2
  funext row
  simp [hf]

theorem get_create {table table' : ApprovalsTable} {request : ApprovalRequest}
    (h : table.create request = some table') (id : String) :
    table'.get id = (table.get id).or (if request.id = id then some (newRow request) else none) := by
  unfold create at h
  split at h
  · cases h
  · obtain rfl := Option.some.inj h
    simp only [get, List.find?_append]
    congr 1
    by_cases hid : request.id = id <;> simp [newRow, hid]

theorem get_none_of_create {table table' : ApprovalsTable} {request : ApprovalRequest}
    (h : table.create request = some table') : table.get request.id = none := by
  unfold create at h
  split at h
  · cases h
  · rename_i hfresh
    refine List.find?_eq_none.mpr fun row hrow hid => hfresh ?_
    exact List.mem_map.mpr ⟨row, hrow, by simpa using hid⟩

theorem create_of_get_none {table : ApprovalsTable} (request : ApprovalRequest)
    (h : table.get request.id = none) : ∃ table', table.create request = some table' := by
  have hfresh : request.id ∉ table.rows.map (·.id) := by
    rintro hmem
    obtain ⟨row, hrow, hid⟩ := List.mem_map.mp hmem
    exact List.find?_eq_none.mp h row hrow (by simpa using hid)
  exact ⟨_, dif_neg hfresh⟩

theorem create_of_get_some {table : ApprovalsTable} (request : ApprovalRequest)
    {row : ApprovalRequest} (h : table.get request.id = some row) : table.create request = none := by
  rcases hcreate : table.create request with _ | table'
  · rfl
  · rw [get_none_of_create hcreate] at h
    cases h

theorem create_congr (table : ApprovalsTable) {request request' : ApprovalRequest}
    (h : newRow request = newRow request') :
    table.create request = table.create request' := by
  have hid : request.id = request'.id := congrArg (·.id) h
  simp only [create, hid, h]

theorem settle_of_ne {id : String} {approved : Bool} {decidedAt : DateTime}
    {approver : String} {note : Option String} {row : ApprovalRequest}
    (h : ¬(row.id = id ∧ row.status = .pending)) :
    settle id approved decidedAt approver note row = row :=
  if_neg h

theorem get_resolve (table : ApprovalsTable) (id : String) (approved : Bool)
    (decidedAt : DateTime) (approver : String) (note : Option String) (id' : String) :
    (table.resolve id approved decidedAt approver note).2.get id' =
      (table.get id').map (settle id approved decidedAt approver note) := by
  rw [resolve]
  split
  · rename_i hnone
    rcases hrow : table.get id' with _ | row
    · rfl
    · have hne : row.id ≠ id := by
        rintro rfl
        rw [id_of_get hrow, hrow] at hnone
        cases hnone
      simp [settle_of_ne (fun h => hne h.1)]
  · rename_i current hcurrent
    split
    · simp
    · rename_i hsettled
      rcases hrow : table.get id' with _ | row
      · rfl
      · have hne : ¬(row.id = id ∧ row.status = .pending) := by
          rintro ⟨rfl, hpending⟩
          rw [id_of_get hrow, hrow] at hcurrent
          obtain rfl := Option.some.inj hcurrent
          exact hsettled hpending
        simp [settle_of_ne hne]

theorem resolve_answer (table : ApprovalsTable) (id : String) (approved : Bool)
    (decidedAt : DateTime) (approver : String) (note : Option String) :
    (table.resolve id approved decidedAt approver note).1 =
      (table.resolve id approved decidedAt approver note).2.get id := by
  rw [resolve]
  split
  · rename_i hnone
    exact hnone.symm
  · rename_i current hcurrent
    split
    · rfl
    · exact hcurrent.symm

theorem get_expireOverdue (table : ApprovalsTable) (moment : DateTime) (id : String) :
    (table.expireOverdue moment).2.get id = (table.get id).map (expire moment) := by
  simp [expireOverdue]

theorem settle_resolved {id : String} {row : ApprovalRequest} (hid : row.id = id)
    (approved : Bool) (decidedAt : DateTime) (approver : String) (note : Option String) :
    (settle id approved decidedAt approver note row).status ≠ .pending := by
  unfold settle
  split
  · cases approved <;> simp
  · rename_i h
    exact fun hpending => h ⟨hid, hpending⟩

theorem overdue_eq_isExpiredAt (moment : DateTime) (row : ApprovalRequest) :
    overdue moment row = row.isExpiredAt moment := by
  simp [overdue, ApprovalRequest.isExpiredAt, isoformat_le]

/-- Rows of the first table are still on file in the second, advanced. -/
def Evolves (table table' : ApprovalsTable) : Prop :=
  ∀ id row, table.get id = some row →
    ∃ row', table'.get id = some row' ∧ Approvals.Advances row row'

theorem Evolves.refl (table : ApprovalsTable) : Evolves table table :=
  fun _ row h => ⟨row, h, .same⟩

theorem Evolves.trans {a b c : ApprovalsTable} (hab : Evolves a b) (hbc : Evolves b c) :
    Evolves a c := by
  intro id row hrow
  obtain ⟨row', hrow', hadvances⟩ := hab id row hrow
  obtain ⟨row'', hrow'', hadvances'⟩ := hbc id row' hrow'
  exact ⟨row'', hrow'', hadvances.trans hadvances'⟩

theorem Evolves.settled {table table' : ApprovalsTable} (h : Evolves table table')
    {id : String} {row : ApprovalRequest} (hrow : table.get id = some row)
    (hsettled : row.status ≠ .pending) : table'.get id = some row := by
  obtain ⟨row', hrow', hadvances⟩ := h id row hrow
  rwa [hadvances.eq_of_settled hsettled] at hrow'

theorem evolves_resolve (table : ApprovalsTable) (id : String) (approved : Bool)
    (decidedAt : DateTime) (approver : String) (note : Option String) :
    Evolves table (table.resolve id approved decidedAt approver note).2 := by
  intro id' row hrow
  exact ⟨_, by rw [get_resolve, hrow]; rfl, advances_settle _ _ _ _ _ row⟩

theorem evolves_expireOverdue (table : ApprovalsTable) (moment : DateTime) :
    Evolves table (table.expireOverdue moment).2 := by
  intro id row hrow
  exact ⟨_, by rw [get_expireOverdue, hrow]; rfl, advances_expire moment row⟩

theorem evolves_create {table table' : ApprovalsTable} {request : ApprovalRequest}
    (h : table.create request = some table') : Evolves table table' := by
  intro id row hrow
  exact ⟨row, by rw [get_create h, hrow]; rfl, .same⟩

end ApprovalsTable

end McpGatekeeper.Approvals
