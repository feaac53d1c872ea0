import McpGatekeeper.Scenarios
import McpGatekeeper.Storage.Connection

namespace McpGatekeeper.Database

open Interleaving
open Storage
open McpGatekeeper.Approvals
open McpGatekeeper.Audit
open McpGatekeeper.Clock
open McpGatekeeper.Operations
open McpGatekeeper.Scenarios

/-- Which statements of a call fail of themselves, and whether its commit does. -/
structure Faults where
  statements : List Bool := []
  commit : Bool := false

section Calls

variable {S Sql : Type} {Ans : Sql → Type} (engine : Engine S Sql Ans) {Err : Type}

def execute (sql : Sql) (faults : Faults) (c : Connection S) :
    Except (Failure Err) Unit × Connection S :=
  match c.execute engine sql (faults.statements.headD false) with
  | (.error failure, c') => (.error failure, c')
  | (.ok _, c') => c'.commit faults.commit

/-- `fetch_all` and `fetch_one` -/
def fetch (sql : Sql) (faults : Faults) (c : Connection S) :
    Except (Failure Err) (Ans sql) × Connection S :=
  c.execute engine sql (faults.statements.headD false)

/-- Only the work is guarded by the rollback; the commit comes after it. -/
def transact {Out : Type} (program : Program Sql Ans Err Out) (faults : Faults)
    (c : Connection S) : Except (Failure Err) Out × Connection S :=
  match Connection.work engine program faults.statements c with
  | (.error failure, c') => (.error failure, c'.rollback)
  | (.ok result, c') =>
      match c'.commit faults.commit with
      | (.error failure, c'') => (.error failure, c'')
      | (.ok (), c'') => (.ok result, c'')

/-- A call with its statements: `execute` is for statements that write, the two fetches
are for those that read. -/
inductive Operation (Err : Type) : Type 1
  | execute (sql : Sql) (hchange : engine.kind sql = .change)
  | fetch (sql : Sql) (hquery : engine.kind sql = .query)
  | transact {Out : Type} (program : Program Sql Ans Err Out)

variable {engine}

/-- Whether the call returns or what it raises, and the connection it leaves. -/
def Operation.perform (faults : Faults) (c : Connection S) :
    Operation engine Err → Except (Failure Err) Unit × Connection S
  | .execute sql _ => Database.execute engine sql faults c
  | .fetch sql _ =>
      let (result, c') : Except (Failure Err) (Ans sql) × Connection S :=
        Database.fetch engine sql faults c
      (result.map fun _ => (), c')
  | .transact program =>
      let (result, c') := Database.transact engine program faults c
      (result.map fun _ => (), c')

def returns : Except (Failure Err) Unit → Bool
  | .ok _ => true
  | .error _ => false

/-- What a call does to the contents when nothing goes wrong. -/
def Operation.effect (operation : Operation engine Err) (contents : S) : S :=
  (operation.perform {} (.opened contents)).2.committed

def after (c : Connection S) : List (Operation engine Err × Faults) → Connection S
  | [] => c
  | (operation, faults) :: calls => after (operation.perform faults c).2 calls

/-- The contents with the effects of the calls that return, and of no others. -/
def replay (c : Connection S) : List (Operation engine Err × Faults) → S → S
  | [], contents => contents
  | (operation, faults) :: calls, contents =>
      replay (operation.perform faults c).2 calls
        (if returns (operation.perform faults c).1 then operation.effect contents
        else contents)

/-- The calls have left the connection clean: no transaction is open, the effects of the
calls that returned are there and no others, and a transaction can begin. -/
structure Clean (c : Connection S) (calls : List (Operation engine Err × Faults)) :
    Prop where
  idle : (after c calls).working = none
  contents : (after c calls).committed = replay c calls c.committed
  begins : ∀ sql fails, engine.kind sql = .begin →
    ((after c calls).execute engine sql fails : Except (Failure Err) (Ans sql) × _).1 ≠
      .error .nested

/-- A writing statement of `execute` raises, or the commit of an open transaction does. -/
def Operation.spoils (faults : Faults) (c : Connection S) : Operation engine Err → Bool
  | .execute sql _ =>
      (engine.run sql c.view).isNone || faults.statements.headD false || faults.commit
  | .fetch _ _ => false
  | .transact program =>
      match Connection.work engine program faults.statements c with
      | (.error _, _) => false
      | (.ok _, c') => c'.inTransaction && faults.commit

def Unspoilt (c : Connection S) : List (Operation engine Err × Faults) → Prop
  | [] => True
  | (operation, faults) :: calls =>
      operation.spoils faults c = false ∧ Unspoilt (operation.perform faults c).2 calls

theorem work_faultless {Out : Type} {program : Program Sql Ans Err Out} {fails : List Bool}
    {c c' : Connection S} {result : Out}
    (h : Connection.work engine program fails c = (.ok result, c')) :
    Connection.work engine program [] c = (.ok result, c') := by
  induction program generalizing fails c with
  | ret value => exact h
  | fail error => cases h
  | perform sql next ih =>
      rw [Connection.work] at h ⊢
      have hfalse : fails.headD false = false ∨ fails.headD false = true := by
        cases fails.headD false <;> simp
      rcases hfalse with hfalse | htrue
      · rw [hfalse] at h
        split at h
        · rename_i answer c₁ hexecute
          rw [List.headD_nil, hexecute]
          exact ih answer h
        · cases h
      · obtain ⟨failure, c₁, hexecute⟩ := Connection.execute_failing engine sql c
        rw [htrue, hexecute] at h
        cases h

theorem transact_of_error {Out : Type} {program : Program Sql Ans Err Out} {faults : Faults}
    {c c' : Connection S} {failure : Failure Err}
    (h : Connection.work engine program faults.statements c = (.error failure, c')) :
    transact engine program faults c = (.error failure, .opened c.committed) := by
  have hcommitted := Connection.work_committed engine program faults.statements c
  rw [h] at hcommitted
  rw [transact, h]
  exact congrArg (fun contents => (_, Connection.opened contents)) hcommitted

theorem transact_of_ok {Out : Type} {program : Program Sql Ans Err Out} (faults : Faults)
    {c c' : Connection S} {result : Out}
    (h : Connection.work engine program faults.statements c = (.ok result, c'))
    (hcommit : (c'.inTransaction && faults.commit) = false) :
    transact engine program faults c = (.ok result, .opened c'.view) := by
  rw [transact, h]
  obtain ⟨committed, _ | contents⟩ := c'
  · rfl
  · obtain hcommit : faults.commit = false := by simpa [Connection.inTransaction] using hcommit
    simp only [Connection.commit, hcommit]
    rfl

theorem execute_of_run {sql : Sql} (hchange : engine.kind sql = .change) {faults : Faults}
    (hstatement : faults.statements.headD false = false) (hcommit : faults.commit = false)
    {contents contents' : S} {answer : Ans sql}
    (hrun : engine.run sql contents = some (answer, contents')) :
    (execute engine sql faults (.opened contents) : Except (Failure Err) Unit × _) =
      (.ok (), .opened contents') := by
  simp only [execute, hstatement,
    Connection.execute_change (c := .opened contents) hchange hrun, Connection.commit, hcommit]
  rfl

theorem fetch_of_query {sql : Sql} (hquery : engine.kind sql = .query) (faults : Faults)
    (c : Connection S) :
    (fetch engine sql faults c : Except (Failure Err) (Ans sql) × _).2 = c :=
  Connection.execute_query hquery _

theorem effect_execute {sql : Sql} (hchange : engine.kind sql = .change)
    {contents contents' : S} (answer : Ans sql)
    (hrun : engine.run sql contents = some (answer, contents')) :
    (Operation.execute sql hchange : Operation engine Err).effect contents = contents' := by
  change (execute engine sql {} (.opened contents) :
    Except (Failure Err) Unit × _).2.committed = contents'
  rw [execute_of_run hchange rfl rfl hrun]
  rfl

theorem effect_fetch {sql : Sql} (hquery : engine.kind sql = .query) (contents : S) :
    (Operation.fetch sql hquery : Operation engine Err).effect contents = contents :=
  congrArg Connection.committed (fetch_of_query hquery {} _)

theorem effect_transact {Out : Type} {program : Program Sql Ans Err Out} {contents : S}
    {c' : Connection S} {result : Out}
    (h : Connection.work engine program [] (.opened contents) = (.ok result, c')) :
    (Operation.transact program : Operation engine Err).effect contents = c'.view := by
  simp only [Operation.effect, Operation.perform,
    transact_of_ok {} h (Bool.and_false _)]
  rfl

theorem perform_of_not_spoils {operation : Operation engine Err} {faults : Faults}
    {contents : S} (h : operation.spoils faults (.opened contents) = false) :
    (operation.perform faults (.opened contents)).2 =
      .opened (if returns (operation.perform faults (.opened contents)).1 then
        operation.effect contents else contents) := by
  cases operation with
  | execute sql hchange =>
      simp only [Operation.spoils, Bool.or_eq_false_iff, Option.isNone_eq_false_iff] at h
      obtain ⟨⟨hruns, hstatement⟩, hcommit⟩ := h
      obtain ⟨⟨answer, contents'⟩, hrun⟩ : ∃ done, engine.run sql contents = some done :=
        Option.isSome_iff_exists.mp hruns
      simp only [effect_execute hchange answer hrun, Operation.perform,
        execute_of_run hchange hstatement hcommit hrun]
      rfl
  | fetch sql hquery =>
      rw [effect_fetch, ite_self]
      exact fetch_of_query hquery faults _
  | transact program =>
      rcases hwork : Connection.work engine program faults.statements (.opened contents) with
        ⟨failure | result, c'⟩
      · simp only [Operation.perform, transact_of_error hwork]
        rfl
      · simp only [Operation.spoils, hwork] at h
        simp only [effect_transact (work_faultless hwork), Operation.perform,
          transact_of_ok faults hwork h]
        rfl

theorem perform_of_spoils {operation : Operation engine Err} {faults : Faults}
    {contents : S} (h : operation.spoils faults (.opened contents) = true) :
    (operation.perform faults (.opened contents)).2.working ≠ none := by
  cases operation with
  | execute sql hchange =>
      simp only [Operation.spoils] at h
      rcases hfails : (engine.run sql (Connection.view (.opened contents))).isNone ||
        faults.statements.headD false with _ | _
      · rw [hfails, Bool.false_or] at h
        simp only [Bool.or_eq_false_iff, Option.isNone_eq_false_iff] at hfails
        obtain ⟨⟨answer, contents'⟩, hrun⟩ := Option.isSome_iff_exists.mp hfails.1
        simp only [Operation.perform, execute, hfails.2,
          Connection.execute_change hchange hrun, Connection.commit, h]
        simp
      · simp only [Operation.perform, execute,
          Connection.execute_change_failing hchange hfails]
        simp
  | fetch sql hquery => cases h
  | transact program =>
      rcases hwork : Connection.work engine program faults.statements (.opened contents) with
        ⟨failure | result, c'⟩
      · simp [Operation.spoils, hwork] at h
      · simp only [Operation.spoils, hwork, Bool.and_eq_true] at h
        obtain ⟨contents', hopen⟩ := Option.isSome_iff_exists.mp h.1
        simp [Operation.perform, transact, hwork, Connection.commit, hopen, h.2]

theorem clean_nil (contents : S) :
    Clean (.opened contents) ([] : List (Operation engine Err × Faults)) where
  idle := rfl
  contents := rfl
  begins _ fails hbegin := Connection.execute_begin hbegin rfl fails

theorem clean_cons {operation : Operation engine Err} {faults : Faults} {contents : S}
    (h : operation.spoils faults (.opened contents) = false)
    (calls : List (Operation engine Err × Faults)) :
    Clean (.opened contents) ((operation, faults) :: calls) ↔
      Clean (operation.perform faults (.opened contents)).2 calls := by
  have hcontents : (operation.perform faults (.opened contents)).2.committed =
      if returns (operation.perform faults (.opened contents)).1 then
        operation.effect contents else contents := by
    rw [perform_of_not_spoils h]
    rfl
  constructor
  · rintro ⟨hidle, hreplay, hbegins⟩
    exact ⟨hidle, by rw [hcontents]; exact hreplay, hbegins⟩
  · rintro ⟨hidle, hreplay, hbegins⟩
    exact ⟨hidle, by rw [hcontents] at hreplay; exact hreplay, hbegins⟩

/-- After every call of a sequence the connection is clean, exactly when no statement of
`execute` and no commit raises. -/
theorem clean_iff_unspoilt (contents : S) (calls : List (Operation engine Err × Faults)) :
    (∀ made, made <+: calls → Clean (.opened contents) made) ↔
      Unspoilt (.opened contents) calls := by
  induction calls generalizing contents with
  | nil =>
      refine iff_of_true (fun made hmade => ?_) trivial
      obtain rfl := List.prefix_nil.mp hmade
      exact clean_nil contents
  | cons call calls ih =>
      obtain ⟨operation, faults⟩ := call
      constructor
      · intro h
        have hquiet : operation.spoils faults (.opened contents) = false := by
          have hidle := (h [(operation, faults)] (by simp)).idle
          rcases hspoils : operation.spoils faults (.opened contents) with _ | _
          · rfl
          · exact absurd hidle (perform_of_spoils hspoils)
        refine ⟨hquiet, ?_⟩
        rw [perform_of_not_spoils hquiet, ← ih]
        intro made hmade
        have hclean := h ((operation, faults) :: made) (by simpa using hmade)
        rw [clean_cons hquiet, perform_of_not_spoils hquiet] at hclean
        exact hclean
      · rintro ⟨hquiet, hrest⟩ made hmade
        rw [perform_of_not_spoils hquiet, ← ih] at hrest
        rcases made with _ | ⟨call, made⟩
        · exact clean_nil contents
        · obtain ⟨rfl, hrest'⟩ := List.cons_prefix_cons.mp hmade
          rw [clean_cons hquiet, perform_of_not_spoils hquiet]
          exact hrest made hrest'

end Calls

structure Tables where
  approvals : ApprovalsTable := .empty
  audit : AuditTable := {}

inductive Sql
  | beginImmediate
  | insertApproval (request : ApprovalRequest)
  | selectApproval (id : String)
  | selectPending
  | settleApproval (id : String) (approved : Bool) (decidedAt : DateTime)
      (approver : String) (note : Option String)
  | expireApprovals (moment : DateTime)
  | insertAuditEvent (event : AuditEvent)

abbrev Answer : Sql → Type
  | .beginImmediate => Unit
  | .insertApproval _ => Unit
  | .selectApproval _ => Option ApprovalRequest
  | .selectPending => List ApprovalRequest
  | .settleApproval _ _ _ _ _ => Unit
  | .expireApprovals _ => Nat
  | .insertAuditEvent _ => Unit

def statementKind : Sql → Kind
  | .beginImmediate => .begin
  | .selectApproval _ => .query
  | .selectPending => .query
  | _ => .change

def runStatement : (sql : Sql) → Tables → Option (Answer sql × Tables)
  | .beginImmediate, tables => some ((), tables)
  | .insertApproval request, tables =>
      (tables.approvals.create request).map fun approvals =>
        ((), { tables with approvals := approvals })
  | .selectApproval id, tables => some (tables.approvals.get id, tables)
  | .selectPending, tables => some (tables.approvals.pending, tables)
  | .settleApproval id approved decidedAt approver note, tables =>
      some ((), { tables with
        approvals := tables.approvals.update
          (ApprovalsTable.settle id approved decidedAt approver note)
          (ApprovalsTable.settle_id id approved decidedAt approver note) })
  | .expireApprovals moment, tables =>
      let swept := tables.approvals.expireOverdue moment
      some (swept.1, { tables with approvals := swept.2 })
  | .insertAuditEvent event, tables =>
      some ((), { tables with audit := tables.audit.record event })

def sqlite : Engine Tables Sql Answer where
  kind := statementKind
  run := runStatement

/-- The stores' work raises nothing of its own. -/
abbrev Work := Program Sql Answer Empty

/-- The `work` of `SqliteApprovalStore.resolve`. -/
def resolveWork (id : String) (approved : Bool) (decidedAt : DateTime) (approver : String)
    (note : Option String) : Work (Option ApprovalRequest) := do
  Program.call Sql.beginImmediate
  match ← Program.call (Sql.selectApproval id) with
  | none => pure none
  | some current =>
      if current.status = .pending then do
        Program.call (Sql.settleApproval id approved decidedAt approver note)
        Program.call (Sql.selectApproval id)
      else pure (some current)

/-- The call of `Database` behind an operation of the stores. -/
def databaseCall : Op → Option (Operation sqlite Empty)
  | .createApproval request => some (.execute (.insertApproval request) rfl)
  | .getApproval id => some (.fetch (.selectApproval id) rfl)
  | .pendingApprovals => some (.fetch .selectPending rfl)
  | .resolveApproval id approved decidedAt approver note =>
      some (.transact (resolveWork id approved decidedAt approver note))
  | .expireOverdue moment =>
      some (.transact (Program.call (Sql.expireApprovals moment) : Work Nat))
  | .recordAudit event => some (.execute (.insertAuditEvent event) rfl)
  | _ => none

theorem resolveWork_eq (id : String) (approved : Bool) (decidedAt : DateTime)
    (approver : String) (note : Option String) (tables : Tables) :
    Connection.work sqlite (resolveWork id approved decidedAt approver note) []
        (.opened tables) =
      (.ok (tables.approvals.resolve id approved decidedAt approver note).1,
        { committed := tables
          working := some { tables with approvals :=
            (tables.approvals.resolve id approved decidedAt approver note).2 } }) := by
  rw [ApprovalsTable.resolve]
  rcases hrow : tables.approvals.get id with _ | current
  · change Connection.work sqlite (Program.bind (.ret (tables.approvals.get id)) _) _ _ = _
    rw [hrow]
    rfl
  · change Connection.work sqlite (Program.bind (.ret (tables.approvals.get id)) _) _ _ = _
    rw [hrow]
    change Connection.work sqlite (if _ then _ else _) _ _ = _
    dsimp only
    split
    · rfl
    · rfl

def parkedRequest : ApprovalRequest where
  id := "a"
  createdAt := noon
  expiresAt := oneOClock
  status := .pending
  tool := "fs__write"
  upstream := "fs"
  arguments := []

def parked : Tables where
  approvals := (ApprovalsTable.empty.create parkedRequest).get (by decide)

def someEvent : AuditEvent where
  eventId := "e"
  createdAt := noon
  tool := "fs__delete"
  upstream := "fs"
  arguments := []
  action := .deny
  decisionSource := .rule
  outcome := .deniedByPolicy

def recording : Operation sqlite Empty := .execute (.insertAuditEvent someEvent) rfl

def approval : Operation sqlite Empty :=
  .transact (resolveWork "a" true noon "kim" none)

def committedStatus (c : Connection Tables) : Option ApprovalStatus :=
  (c.committed.approvals.get "a").map (·.status)

def recordFails : List (Operation sqlite Empty × Faults) :=
  [(recording, { statements := [true] })]

def commitFails : List (Operation sqlite Empty × Faults) :=
  [(approval, { commit := true })]

/-- An audit insert that raises leaves its transaction open, and the approver's decision
is refused; a decision whose commit raises is committed with the next audit event. -/
theorem failure_outlives_call :
    (¬Clean (.opened parked) recordFails ∧
      (approval.perform {} (after (.opened parked) recordFails)).1 = .error .nested) ∧
    (approval.perform { commit := true } (.opened parked)).1 = .error .commit ∧
      committedStatus (after (.opened parked) commitFails) = some .pending ∧
      committedStatus (after (.opened parked) (commitFails ++ [(recording, ⟨[], false⟩)])) =
        some .approved := by
  refine ⟨⟨?_, rfl⟩, rfl, rfl, rfl⟩
  rintro ⟨hidle, -, -⟩
  cases hidle

end McpGatekeeper.Database
