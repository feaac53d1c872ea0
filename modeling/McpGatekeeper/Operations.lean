import McpGatekeeper.Approvals
import McpGatekeeper.Audit
import McpGatekeeper.Interleaving.Machine
import McpGatekeeper.Registry

/-!
What the program's tasks share, and the atomic operations they perform on it.

Between two operations of one task any other task may run: a database call is
one operation, as the lock around the connection makes it, and so is every
reading of the clock and every access to a map of the process.
-/

namespace McpGatekeeper.Operations

open Interleaving
open McpGatekeeper.Approvals
open McpGatekeeper.Audit
open McpGatekeeper.Clock
open McpGatekeeper.JsonValues
open McpGatekeeper.Registry

inductive Content
  | text (text : String)
  | other (value : Json)

structure CallToolResult where
  content : List Content
  isError : Bool

structure World where
  now : DateTime
  perfCounter : Int := 0
  approvals : ApprovalsTable := .empty
  audit : AuditTable := {}
  /-- The keys of `ApprovalService._events`. -/
  events : List String := []
  /-- The keys of `UpstreamManager.connections`. -/
  connections : List String := []
  registry : ToolRegistry := .empty

/-- `takeGranted` and `takeRefused` do nothing: they mark in the history which
branch of `_apply_approval` was taken, and on which row. -/
inductive Op
  | now
  | perfCounter
  | newApprovalId
  | uuid4
  | registryGet (name : String)
  | registryNames
  | connectionNames
  | listTools (upstream : String)
  | installRegistry (collected : List (String × List Tool))
  | connectionGet (upstream : String)
  | callTool (upstream remoteName : String) (arguments : JsonObject)
  | createApproval (request : ApprovalRequest)
  | getApproval (id : String)
  | resolveApproval (id : String) (approved : Bool) (decidedAt : DateTime)
      (approver : String) (note : Option String)
  | expireOverdue (moment : DateTime)
  | pendingApprovals
  | recordAudit (event : AuditEvent)
  | newEvent (id : String)
  | ensureEvent (id : String)
  | popEvent (id : String)
  | setEvent (id : String)
  | awaitEvent (id : String)
  | takeGranted (approval : ApprovalRequest)
  | takeRefused (approval : ApprovalRequest)

abbrev Res : Op → Type
  | .now => DateTime
  | .perfCounter => Int
  | .newApprovalId => String
  | .uuid4 => String
  | .registryGet _ => Option NamespacedTool
  | .registryNames => List String
  | .connectionNames => List String
  | .listTools _ => Except String (List Tool)
  | .installRegistry _ => Unit
  | .connectionGet _ => Bool
  | .callTool _ _ _ => Except String CallToolResult
  | .createApproval _ => Bool
  | .getApproval _ => Option ApprovalRequest
  | .resolveApproval _ _ _ _ _ => Option ApprovalRequest
  | .expireOverdue _ => Nat
  | .pendingApprovals => List ApprovalRequest
  | .recordAudit _ => Unit
  | .newEvent _ => Unit
  | .ensureEvent _ => Unit
  | .popEvent _ => Unit
  | .setEvent _ => Unit
  | .awaitEvent _ => Unit
  | .takeGranted _ => Unit
  | .takeRefused _ => Unit

/-- What the surroundings supply: random identifiers, and what an upstream's
client answers or raises. -/
structure Choice where
  text : String := ""
  answer : Except String CallToolResult := .error ""
  tools : Except String (List Tool) := .error ""

def quote (text : String) : String :=
  String.ofList (PythonText.repr text.toList)

/-- The `UpstreamError` of `UpstreamSession.call_tool`. -/
def callError (upstream remoteName error : String) : String :=
  "upstream " ++ quote upstream ++ " failed to call " ++ quote remoteName ++ ": " ++ error

/-- The `UpstreamError` of `UpstreamSession.list_tools`. -/
def listError (upstream error : String) : String :=
  "upstream " ++ quote upstream ++ " failed to list tools: " ++ error

def exec : (op : Op) → Choice → World → Option (Res op × World)
  | .now, _, w => some (w.now, w)
  | .perfCounter, _, w => some (w.perfCounter, w)
  | .newApprovalId, choice, w => some (choice.text, w)
  | .uuid4, choice, w => some (choice.text, w)
  | .registryGet name, _, w => some (w.registry.get name, w)
  | .registryNames, _, w => some (w.registry.names, w)
  | .connectionNames, _, w => some (w.connections, w)
  | .listTools upstream, choice, w =>
      some (choice.tools.mapError (listError upstream), w)
  | .installRegistry collected, _, w =>
      some ((), { w with registry := ToolRegistry.build collected })
  | .connectionGet upstream, _, w => some (decide (upstream ∈ w.connections), w)
  | .callTool upstream remoteName _, choice, w =>
      some (choice.answer.mapError (callError upstream remoteName), w)
  | .createApproval request, _, w =>
      match w.approvals.create request with
      | none => some (false, w)
      | some approvals => some (true, { w with approvals := approvals })
  | .getApproval id, _, w => some (w.approvals.get id, w)
  | .resolveApproval id approved decidedAt approver note, _, w =>
      let resolved := w.approvals.resolve id approved decidedAt approver note
      some (resolved.1, { w with approvals := resolved.2 })
  | .expireOverdue moment, _, w =>
      let swept := w.approvals.expireOverdue moment
      some (swept.1, { w with approvals := swept.2 })
  | .pendingApprovals, _, w => some (w.approvals.pending, w)
  | .recordAudit event, _, w => some ((), { w with audit := w.audit.record event })
  | .newEvent id, _, w => some ((), { w with events := w.events.insert id })
  | .ensureEvent id, _, w => some ((), { w with events := w.events.insert id })
  | .popEvent id, _, w => some ((), { w with events := w.events.filter (· != id) })
  -- Setting an event only wakes its waiters, and a waiter may wake at any time.
  | .setEvent _, _, w => some ((), w)
  | .awaitEvent _, _, w => some ((), w)
  | .takeGranted _, _, w => some ((), w)
  | .takeRefused _, _, w => some ((), w)

/-- Changes nobody asks for: the clocks are read later, an upstream is gone. -/
inductive Env
  | tick (now : DateTime) (perfCounter : Int)
  | disconnect (upstream : String)

def env : Env → World → Option World
  | .tick now perfCounter, w => some { w with now := now, perfCounter := perfCounter }
  | .disconnect upstream, w =>
      some { w with connections := w.connections.filter (· != upstream) }

/-- How a task can end without returning.  `polling` is not an exception of the
program: the run stops looking at a loop that would go round once more. -/
inductive Halt
  | raised (exception : String)
  | cancelled
  | polling
  deriving DecidableEq

abbrev Prog := Program Op Res Halt

/-- Rows are settled at most once and upstreams are only lost. -/
structure Evolves (w w' : World) : Prop where
  approvals : w.approvals.Evolves w'.approvals
  connections : w'.connections ⊆ w.connections

theorem Evolves.refl (w : World) : Evolves w w :=
  ⟨ApprovalsTable.Evolves.refl _, List.Subset.refl _⟩

theorem Evolves.trans {a b c : World} (hab : Evolves a b) (hbc : Evolves b c) :
    Evolves a c :=
  ⟨hab.approvals.trans hbc.approvals, List.Subset.trans hbc.connections hab.connections⟩

theorem exec_connections {op : Op} {choice : Choice} {w w' : World} {answer : Res op}
    (h : exec op choice w = some (answer, w')) : w'.connections = w.connections := by
  cases op
  case createApproval request =>
    simp only [exec] at h
    split at h <;> cases h <;> rfl
  all_goals
    cases h
    rfl

theorem exec_now {op : Op} {choice : Choice} {w w' : World} {answer : Res op}
    (h : exec op choice w = some (answer, w')) : w'.now = w.now := by
  cases op
  case createApproval request =>
    simp only [exec] at h
    split at h <;> cases h <;> rfl
  all_goals
    cases h
    rfl

theorem exec_approvals {op : Op} {choice : Choice} {w w' : World} {answer : Res op}
    (h : exec op choice w = some (answer, w')) :
    w'.approvals = w.approvals ∨
    (∃ request, op = .createApproval request ∧
      w.approvals.create request = some w'.approvals) ∨
    (∃ id approved decidedAt approver note,
      op = .resolveApproval id approved decidedAt approver note ∧
      w'.approvals = (w.approvals.resolve id approved decidedAt approver note).2) ∨
    (∃ moment, op = .expireOverdue moment ∧
      w'.approvals = (w.approvals.expireOverdue moment).2) := by
  cases op
  case createApproval request =>
    simp only [exec] at h
    split at h
    · cases h
      exact .inl rfl
    · rename_i approvals hcreate
      cases h
      exact .inr (.inl ⟨request, rfl, hcreate⟩)
  case resolveApproval id approved decidedAt approver note =>
    cases h
    exact .inr (.inr (.inl ⟨id, approved, decidedAt, approver, note, rfl, rfl⟩))
  case expireOverdue moment =>
    cases h
    exact .inr (.inr (.inr ⟨moment, rfl, rfl⟩))
  all_goals
    cases h
    exact .inl rfl

/-- What an operation makes of the `approvals` table. -/
def Op.leaves : Op → ApprovalsTable → ApprovalsTable
  | .createApproval request, table => (table.create request).getD table
  | .resolveApproval id approved decidedAt approver note, table =>
      (table.resolve id approved decidedAt approver note).2
  | .expireOverdue moment, table => (table.expireOverdue moment).2
  | _, table => table

theorem exec_leaves {op : Op} {choice : Choice} {w w' : World} {answer : Res op}
    (h : exec op choice w = some (answer, w')) : w'.approvals = op.leaves w.approvals := by
  cases op
  case createApproval request =>
    simp only [exec] at h
    split at h
    · rename_i hcreate
      cases h
      simp [Op.leaves, hcreate]
    · rename_i approvals hcreate
      cases h
      simp [Op.leaves, hcreate]
  all_goals
    cases h
    rfl

/-- The four things an operation can do to the row under a key. -/
theorem exec_row {op : Op} {choice : Choice} {w w' : World} {answer : Res op}
    (h : exec op choice w = some (answer, w')) (id : String) :
    w'.approvals.get id = w.approvals.get id ∨
    (∃ request, op = .createApproval request ∧ request.id = id ∧
      w.approvals.get id = none ∧
      w'.approvals.get id = some (ApprovalsTable.newRow request)) ∨
    (∃ row approved decidedAt approver note,
      op = .resolveApproval id approved decidedAt approver note ∧
      w.approvals.get id = some row ∧ row.status = .pending ∧
      w'.approvals.get id = some { row with
        status := if approved then .approved else .denied
        decidedAt := some decidedAt
        approver := some approver
        note := note }) ∨
    (∃ row moment, op = .expireOverdue moment ∧
      w.approvals.get id = some row ∧ row.status = .pending ∧
      ApprovalsTable.overdue moment row = true ∧
      w'.approvals.get id = some { row with
        status := .expired
        decidedAt := some moment
        approver := some timeoutApprover }) := by
  rcases exec_approvals h with heq | ⟨request, rfl, hcreate⟩ |
    ⟨id', approved, decidedAt, approver, note, rfl, heq⟩ | ⟨moment, rfl, heq⟩
  · exact .inl (by rw [heq])
  · rw [ApprovalsTable.get_create hcreate]
    rcases eq_or_ne request.id id with rfl | hne
    · have hnone := ApprovalsTable.get_none_of_create hcreate
      exact .inr (.inl ⟨request, rfl, rfl, hnone, by simp [hnone]⟩)
    · exact .inl (by simp [hne])
  · rw [heq, ApprovalsTable.get_resolve]
    rcases hrow : w.approvals.get id with _ | row
    · exact .inl rfl
    · by_cases hsettles : row.id = id' ∧ row.status = .pending
      · obtain ⟨rfl, hpending⟩ := hsettles
        obtain rfl := ApprovalsTable.id_of_get hrow
        refine .inr (.inr (.inl ⟨row, approved, decidedAt, approver, note, rfl, rfl,
          hpending, ?_⟩))
        simp [ApprovalsTable.settle, hpending]
      · exact .inl (by simp [ApprovalsTable.settle_of_ne hsettles])
  · rw [heq, ApprovalsTable.get_expireOverdue]
    rcases hrow : w.approvals.get id with _ | row
    · exact .inl rfl
    · by_cases hoverdue : ApprovalsTable.overdue moment row = true
      · refine .inr (.inr (.inr ⟨row, moment, rfl, rfl, ?_, hoverdue, ?_⟩))
        · simp only [ApprovalsTable.overdue, Bool.and_eq_true, beq_iff_eq] at hoverdue
          exact hoverdue.1
        · simp [ApprovalsTable.expire, hoverdue]
      · exact .inl (by simp [ApprovalsTable.expire, hoverdue])

theorem get_of_created {request : ApprovalRequest} {choice : Choice} {w w' : World}
    (h : exec (.createApproval request) choice w = some (true, w')) :
    w'.approvals.get request.id = some (ApprovalsTable.newRow request) := by
  simp only [exec] at h
  split at h
  · cases h
  · rename_i approvals hcreate
    cases h
    rw [ApprovalsTable.get_create hcreate, ApprovalsTable.get_none_of_create hcreate]
    simp

theorem exec_evolves {op : Op} {choice : Choice} {w w' : World} {answer : Res op}
    (h : exec op choice w = some (answer, w')) : Evolves w w' := by
  refine ⟨?_, by rw [exec_connections h]; exact List.Subset.refl _⟩
  rcases exec_approvals h with heq | ⟨request, -, hcreate⟩ |
    ⟨id, approved, decidedAt, approver, note, -, heq⟩ | ⟨moment, -, heq⟩
  · rw [heq]
    exact ApprovalsTable.Evolves.refl _
  · exact ApprovalsTable.evolves_create hcreate
  · rw [heq]
    exact ApprovalsTable.evolves_resolve _ _ _ _ _ _
  · rw [heq]
    exact ApprovalsTable.evolves_expireOverdue _ _

theorem env_evolves {change : Env} {w w' : World} (h : env change w = some w') :
    Evolves w w' := by
  cases change with
  | tick now perfCounter =>
      cases h
      exact ⟨ApprovalsTable.Evolves.refl _, List.Subset.refl _⟩
  | disconnect upstream =>
      cases h
      exact ⟨ApprovalsTable.Evolves.refl _, List.filter_subset_self _⟩

end McpGatekeeper.Operations
