import McpGatekeeper.Interleaving.View
import McpGatekeeper.Sessions

namespace McpGatekeeper.OnConnection

open Interleaving
open Storage
open McpGatekeeper.Approvals
open McpGatekeeper.Database
open McpGatekeeper.Gateway
open McpGatekeeper.Narrative
open McpGatekeeper.Operations
open McpGatekeeper.Scenarios
open McpGatekeeper.Sessions
open McpGatekeeper.System

/-- The tables in `process` are not used. -/
structure ConnectedWorld where
  process : World
  connection : Connection Tables

section Machine

/-- A method whose statement raises has no answer, but for the insertion of a request, which
is refused for a key that is taken. -/
def exec : (op : Op) → Choice → ConnectedWorld → Option (Res op × ConnectedWorld)
  | .createApproval request, _, w =>
      let done : Except (Failure Empty) Unit × Connection Tables :=
        Database.execute sqlite (.insertApproval request) {} w.connection
      some (returns done.1, { w with connection := done.2 })
  | .getApproval id, _, w =>
      let done : Except (Failure Empty) (Option ApprovalRequest) × Connection Tables :=
        fetch sqlite (.selectApproval id) {} w.connection
      done.1.toOption.map fun answer => (answer, { w with connection := done.2 })
  | .pendingApprovals, _, w =>
      let done : Except (Failure Empty) (List ApprovalRequest) × Connection Tables :=
        fetch sqlite .selectPending {} w.connection
      done.1.toOption.map fun answer => (answer, { w with connection := done.2 })
  | .resolveApproval id approved decidedAt approver note, _, w =>
      let done := transact sqlite (resolveWork id approved decidedAt approver note) {}
        w.connection
      done.1.toOption.map fun answer => (answer, { w with connection := done.2 })
  | .expireOverdue moment, _, w =>
      let done := transact sqlite (Program.call (Sql.expireApprovals moment) : Work Nat) {}
        w.connection
      done.1.toOption.map fun answer => (answer, { w with connection := done.2 })
  | .recordAudit event, _, w =>
      let done : Except (Failure Empty) Unit × Connection Tables :=
        Database.execute sqlite (.insertAuditEvent event) {} w.connection
      done.1.toOption.map fun answer => (answer, { w with connection := done.2 })
  | op, choice, w =>
      (Operations.exec op choice w.process).map fun answer =>
        (answer.1, { w with process := answer.2 })

def nullExec : (op : Op) → Choice → ConnectedWorld → Option (Res op × ConnectedWorld)
  | .recordAudit _, _, w => some ((), w)
  | op, choice, w => exec op choice w

def env (change : Env) (w : ConnectedWorld) : Option ConnectedWorld :=
  (Operations.env change w.process).map fun process => { w with process := process }

abbrev ConnectedMachine := Machine ConnectedWorld Choice Env Entry Res Halt Reply

abbrev ConnectedConfig := Interleaving.Config ConnectedWorld Entry Res Halt Reply

/-- A world with its tables behind a connection, and nothing open. -/
def connected (w : World) : ConnectedWorld where
  process := { w with approvals := .empty, audit := {} }
  connection := .opened (tablesOf w)

/-- No request is given an identifier that another has. -/
def freshRequests : Assumption ConnectedWorld Env Entry Res where
  act _ _ op s :=
    match op with
    | .createApproval request =>
        (s.world.connection.view.approvals.create request).isSome
    | _ => true
  env _ _ := true

end Machine

section Processes

variable {isalnum : Char → Bool} (deployment : Deployment isalnum)

def connectedMachine : ConnectedMachine where
  code := code deployment.deps
  exec := if deployment.audit.enabled then exec else nullExec
  env := env
  cancelled := .cancelled

/-- The call of `Database` behind an operation; the `NullAuditStore` makes none. -/
def callBehind (op : Op) : Option (Operation sqlite Empty) :=
  match op with
  | .recordAudit _ => if deployment.audit.enabled then databaseCall op else none
  | _ => databaseCall op

/-- The process, over a connection that it opens on the tables. -/
def connectedRun (session : Session isalnum) (tables : Tables) : Option ConnectedConfig :=
  (connectedMachine session.deployment).run freshRequests
    (Config.initial (connected (session.boot tables))) session.labels

/-- Where a process is killed: between two operations, or in the next operation of a task,
so many statements into it. -/
inductive Ending
  | between
  | during (task : Nat) (statements : Nat)

/-- The connection a call is found at when so many of its statements have been made. -/
def cutCall (statements : Nat) (c : Connection Tables) :
    Operation sqlite Empty → Connection Tables
  | .execute sql _ => Connection.cut sqlite statements (Program.call sql : Work _) c
  | .fetch sql _ => Connection.cut sqlite statements (Program.call sql : Work _) c
  | .transact program => Connection.cut sqlite statements program c

/-- What is committed when the process is killed. -/
def Ending.leaves (c : ConnectedConfig) : Ending → Option Tables
  | .between => some c.state.world.connection.committed
  | .during i statements =>
      match c.tasks[i]? with
      | some ⟨_, .perform op _⟩ =>
          match callBehind deployment op with
          | some call => some (cutCall statements c.state.world.connection call).committed
          | none => some c.state.world.connection.committed
      | _ => none

def runKilled : List (Session isalnum × Ending) → Tables → Option Tables
  | [], tables => some tables
  | (session, ending) :: processes, tables =>
      (connectedRun session tables).bind fun c =>
        (ending.leaves session.deployment c).bind (runKilled processes)

end Processes

section Simulation

variable {i : Nat} {entry : Entry} {op : Op} {s : GateState}

theorem exec_connected (choice : Choice)
    (hfresh : freshRequests.act i entry op (s.map connected) = true) :
    exec op choice (connected s.world) =
      (Operations.exec op choice s.world).map fun answer => (answer.1, connected answer.2) := by
  cases op with
  | createApproval request =>
      obtain ⟨approvals, hcreate⟩ := Option.isSome_iff_exists.mp hfresh
      change s.world.approvals.create request = some approvals at hcreate
      have hrun : runStatement (.insertApproval request) (tablesOf s.world) =
          some ((), { tablesOf s.world with approvals := approvals }) := by
        simp [runStatement, tablesOf, hcreate]
      simp only [exec, Operations.exec, hcreate, connected]
      rw [execute_of_run rfl rfl rfl hrun]
      rfl
  | resolveApproval id approved decidedAt approver note =>
      simp only [exec, connected]
      rw [transact_of_ok {} (resolveWork_eq id approved decidedAt approver note _) rfl]
      rfl
  | _ => rfl

theorem nullExec_connected (choice : Choice)
    (hfresh : freshRequests.act i entry op (s.map connected) = true) :
    nullExec op choice (connected s.world) =
      (Sessions.nullExec op choice s.world).map fun answer => (answer.1, connected answer.2) := by
  cases op with
  | recordAudit event => rfl
  | _ => exact exec_connected choice hfresh

/-- A process over its connection does what the process over the tables does. -/
def overConnection {isalnum : Char → Bool} (deployment : Deployment isalnum) :
    Simulation freshRequests deployment.machine (connectedMachine deployment) where
  view := connected
  code _ := rfl
  cancelled := rfl
  exec choice hfresh := by
    simp only [connectedMachine, Deployment.machine]
    split
    · exact exec_connected choice hfresh
    · exact nullExec_connected choice hfresh
  env change w := by cases change <;> rfl

end Simulation

section Killed

variable {isalnum : Char → Bool} {session : Session isalnum} {tables tables' : Tables}

theorem of_connectedRun {d : ConnectedConfig} (h : connectedRun session tables = some d) :
    ∃ c, session.run tables = some c ∧ d = c.map connected :=
  (overConnection session.deployment).of_run (c := Config.initial (session.boot tables)) h

theorem cutCall_committed (statements : Nat) (c : Connection Tables)
    (call : Operation sqlite Empty) : (cutCall statements c call).committed = c.committed := by
  cases call <;> exact Connection.cut_committed sqlite statements _ c

theorem leaves_committed {deployment : Deployment isalnum} {d : ConnectedConfig}
    {ending : Ending} (h : ending.leaves deployment d = some tables') :
    tables' = d.state.world.connection.committed := by
  cases ending with
  | between =>
      cases h
      rfl
  | during i statements =>
      simp only [Ending.leaves] at h
      split at h
      · split at h
        · cases h
          exact cutCall_committed _ _ _
        · cases h
          rfl
      · cases h

/-- Processes that are killed anywhere, in the middle of a transaction as well, leave the
tables that they leave when each of them is killed before the operation it was in. -/
theorem killed_anywhere {processes : List (Session isalnum × Ending)}
    (h : runKilled processes tables = some tables') :
    runSessions (processes.map (·.1)) tables = some tables' := by
  induction processes generalizing tables with
  | nil => exact h
  | cons process processes ih =>
      obtain ⟨session, ending⟩ := process
      obtain ⟨d, hconnected, hrest⟩ := Option.bind_eq_some_iff.mp h
      obtain ⟨left, hleaves, hrest⟩ := Option.bind_eq_some_iff.mp hrest
      obtain ⟨c, hrun, rfl⟩ := of_connectedRun hconnected
      obtain rfl : left = tablesOf c.state.world := leaves_committed hleaves
      rw [List.map_cons, runSessions, hrun]
      exact ih hrest

/-- The second process is killed when it has written its decision, before the commit. -/
theorem killed_anywhere_deciding :
    ∃ tables, runKilled [(serving opening, .between),
        (serving ((approving 0).take 2), .during 0 3)] {} = some tables ∧
      runSessions [serving opening, serving ((approving 0).take 2)] {} = some tables := by
  obtain ⟨tables, hkilled⟩ : ∃ tables, runKilled [(serving opening, .between),
      (serving ((approving 0).take 2), .during 0 3)] {} = some tables := ⟨_, rfl⟩
  exact ⟨tables, hkilled, killed_anywhere hkilled⟩

end Killed

end McpGatekeeper.OnConnection
