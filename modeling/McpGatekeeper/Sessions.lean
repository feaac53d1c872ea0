import McpGatekeeper.Config
import McpGatekeeper.Database
import McpGatekeeper.Interleaving.View
import McpGatekeeper.Narrative
import McpGatekeeper.Timeouts

/-!
The process that `run` starts from a configuration file, and what is left of it when it
ends: the two tables, with or without an audit store that writes.

A process may be killed between any two operations, and the next one may be started from
another file.
-/

namespace McpGatekeeper.Sessions

open Interleaving
open McpGatekeeper.Approvals
open McpGatekeeper.Audit
open McpGatekeeper.Clock
open McpGatekeeper.Config
open McpGatekeeper.Database
open McpGatekeeper.Gateway
open McpGatekeeper.Narrative
open McpGatekeeper.Operations
open McpGatekeeper.Scenarios
open McpGatekeeper.Service
open McpGatekeeper.System
open McpGatekeeper.Timeouts

/-- `UpstreamManager`, its clients by the names they were opened under. -/
structure UpstreamManager where
  connections : List String := []
  failures : List (String × String) := []
  stack : List String := []

namespace UpstreamManager

/-- One round of the loop of `__aenter__`. -/
def enter (opens : String → Except String Unit) (manager : UpstreamManager) (name : String) :
    UpstreamManager :=
  match opens name with
  | .error error => { manager with failures := manager.failures ++ [(name, error)] }
  | .ok () =>
      { manager with
        connections := manager.connections ++ [name]
        stack := name :: manager.stack }

/-- `__aenter__`, on names that are distinct. -/
def aenter (opens : String → Except String Unit) (names : List String) : UpstreamManager :=
  names.foldl (enter opens) {}

end UpstreamManager

/-- The `audit` section. -/
structure AuditConfig where
  redact : List String := []
  enabled : Bool := true

/-- What `_serve` is started with. -/
structure Deployment (isalnum : Char → Bool) where
  config : GatekeeperConfig isalnum
  approvals : ApprovalConfig := {}
  audit : AuditConfig := {}

/-- An operation as it is under the `NullAuditStore`. -/
def nullExec : (op : Op) → Choice → World → Option (Res op × World)
  | .recordAudit _, _, w => some ((), w)
  | op, choice, w => exec op choice w

namespace Deployment

variable {isalnum : Char → Bool} (deployment : Deployment isalnum)

def deps : GatewayDeps :=
  deployment.approvals.deps deployment.config.buildPolicy deployment.audit.redact

/-- `SqliteAuditStore(database) if config.audit.enabled else NullAuditStore()` -/
def machine : Gatekeeper where
  code := code deployment.deps
  exec := if deployment.audit.enabled then exec else nullExec
  env := env
  cancelled := .cancelled

def names : List String :=
  deployment.config.upstreams.map (·.name)

end Deployment

/-- A process from its start to wherever it ends. -/
structure Session (isalnum : Char → Bool) where
  deployment : Deployment isalnum
  now : DateTime
  perfCounter : Int
  opens : String → Except String Unit
  labels : List GateLabel

namespace Session

variable {isalnum : Char → Bool} (session : Session isalnum) (tables : Tables)

def manager : UpstreamManager :=
  .aenter session.opens session.deployment.names

/-- The process finds the tables as they are; everything else it makes anew. -/
def boot : World where
  now := session.now
  perfCounter := session.perfCounter
  approvals := tables.approvals
  audit := tables.audit
  connections := session.manager.connections

def run : Option GateConfig :=
  session.deployment.machine.run .none (Config.initial (session.boot tables)) session.labels

end Session

/-- What a process leaves to the next. -/
def tablesOf (w : World) : Tables where
  approvals := w.approvals
  audit := w.audit

def runSessions {isalnum : Char → Bool} : List (Session isalnum) → Tables → Option Tables
  | [], tables => some tables
  | session :: sessions, tables =>
      (session.run tables).bind fun c => runSessions sessions (tablesOf c.state.world)

section Passive

/-- The same world with another audit log. -/
def withAudit (audit : AuditTable) (w : World) : World :=
  { w with audit := audit }

theorem nullExec_withAudit (audit : AuditTable) (op : Op) (choice : Choice) (w : World) :
    nullExec op choice (withAudit audit w) =
      (exec op choice w).map fun answer => (answer.1, withAudit audit answer.2) := by
  cases op with
  | createApproval request =>
      simp only [nullExec, exec, withAudit]
      cases w.approvals.create request <;> rfl
  | _ => rfl

theorem env_withAudit (audit : AuditTable) (change : Env) (w : World) :
    env change (withAudit audit w) = (env change w).map (withAudit audit) := by
  cases change <;> rfl

variable {isalnum : Char → Bool} (deployment : Deployment isalnum)

/-- `enabled` set in the file. -/
def auditing (enabled : Bool) : Deployment isalnum :=
  { deployment with audit := { deployment.audit with enabled := enabled } }

/-- A process that does not write its log does everything else that it does with one. -/
def muted (audit : AuditTable) :
    View (auditing deployment true).machine (auditing deployment false).machine where
  view := withAudit audit
  Good _ := True
  Fits _ := True
  code _ := rfl
  cancelled := rfl
  exec choice _ _ := nullExec_withAudit audit _ choice _
  env change _ := env_withAudit audit change _
  exec_good _ _ _ := trivial
  env_good _ _ := trivial

/-- Switching the audit log off changes no answer, no decision and no row of the queue, in
any run: the log is what it was at the start, and the rest as it is with the log on. -/
theorem audit_passive (w : World) (labels : List GateLabel) :
    (auditing deployment false).machine.run .none (Config.initial w) labels =
      ((auditing deployment true).machine.run .none (Config.initial w) labels).map
        (·.map (withAudit w.audit)) := by
  refine (muted deployment w.audit).run_map (View.ready_initial trivial) ?_
  exact fun label _ entry _ => Program.only_of_forall (fun _ => trivial) _

end Passive

section Survival

/-- An event of the first log is in the second, unless a later one was filed under its id. -/
structure LogEvolves (table table' : AuditTable) : Prop where
  rows : ∀ row ∈ table.rows, row ∈ table'.rows ∨
    ∃ row' ∈ table'.rows, row'.2.eventId = row.2.eventId ∧ table.seq < row'.1
  seq : table.seq ≤ table'.seq

theorem LogEvolves.refl (table : AuditTable) : LogEvolves table table :=
  ⟨fun _ h => .inl h, Nat.le_refl _⟩

theorem LogEvolves.trans {a b c : AuditTable} (hab : LogEvolves a b) (hbc : LogEvolves b c) :
    LogEvolves a c := by
  refine ⟨fun row hrow => ?_, hab.seq.trans hbc.seq⟩
  rcases hab.rows row hrow with hkept | ⟨row', hrow', hid, hlater⟩
  · rcases hbc.rows row hkept with hkept' | ⟨row', hrow', hid, hlater⟩
    · exact .inl hkept'
    · exact .inr ⟨row', hrow', hid, hab.seq.trans_lt hlater⟩
  · rcases hbc.rows row' hrow' with hkept | ⟨row'', hrow'', hid', hlater'⟩
    · exact .inr ⟨row', hkept, hid, hlater⟩
    · exact .inr ⟨row'', hrow'', hid'.trans hid, hab.seq.trans_lt hlater'⟩

theorem logEvolves_record (table : AuditTable) (event : AuditEvent) :
    LogEvolves table (table.record event) := by
  refine ⟨fun row hrow => ?_, Nat.le_succ _⟩
  rcases eq_or_ne row.2.eventId event.eventId with heq | hne
  · refine .inr ⟨(table.seq + 1, event.row), List.mem_append_right _ List.mem_cons_self, ?_, ?_⟩
    · exact heq.symm
    · exact Nat.lt_succ_self _
  · refine .inl (List.mem_append_left _ (List.mem_filter.mpr ⟨hrow, ?_⟩))
    simpa using hne

/-- How the tables can change from a moment of one process to a moment of a later one. -/
structure TablesEvolve (tables tables' : Tables) : Prop where
  approvals : tables.approvals.Evolves tables'.approvals
  audit : LogEvolves tables.audit tables'.audit

theorem TablesEvolve.refl (tables : Tables) : TablesEvolve tables tables :=
  ⟨ApprovalsTable.Evolves.refl _, LogEvolves.refl _⟩

theorem TablesEvolve.trans {a b c : Tables} (hab : TablesEvolve a b) (hbc : TablesEvolve b c) :
    TablesEvolve a c :=
  ⟨hab.approvals.trans hbc.approvals, hab.audit.trans hbc.audit⟩

theorem tables_exec {op : Op} {choice : Choice} {w w' : World} {answer : Res op}
    (h : exec op choice w = some (answer, w')) : TablesEvolve (tablesOf w) (tablesOf w') := by
  refine ⟨(exec_evolves h).approvals, ?_⟩
  cases op
  case createApproval request =>
    simp only [exec] at h
    split at h <;> cases h <;> exact LogEvolves.refl _
  case recordAudit event =>
    cases h
    exact logEvolves_record _ _
  all_goals
    cases h
    exact LogEvolves.refl _

theorem tables_env {change : Env} {w w' : World} (h : env change w = some w') :
    TablesEvolve (tablesOf w) (tablesOf w') := by
  cases change <;> cases h <;> exact TablesEvolve.refl _

theorem nullExec_cases {op : Op} {choice : Choice} {w w' : World} {answer : Res op}
    (h : nullExec op choice w = some (answer, w')) :
    exec op choice w = some (answer, w') ∨ w' = w := by
  cases op with
  | recordAudit event =>
      cases h
      exact .inr rfl
  | _ => exact .inl h

variable {isalnum : Char → Bool} {session : Session isalnum} {tables tables' : Tables}

theorem machine_exec {deployment : Deployment isalnum} {op : Op} {choice : Choice}
    {w w' : World} {answer : Res op}
    (h : deployment.machine.exec op choice w = some (answer, w')) :
    exec op choice w = some (answer, w') ∨ w' = w := by
  simp only [Deployment.machine] at h
  split at h
  · exact .inl h
  · exact nullExec_cases h

def WorldEvolves (w w' : World) : Prop := TablesEvolve (tablesOf w) (tablesOf w')

theorem WorldEvolves.refl (w : World) : WorldEvolves w w := TablesEvolve.refl _

theorem WorldEvolves.trans {u v w : World} (huv : WorldEvolves u v) (hvw : WorldEvolves v w) :
    WorldEvolves u w := TablesEvolve.trans huv hvw

theorem tables_reaches {deployment : Deployment isalnum} {A : GateAssumption}
    {c c' : GateConfig} (h : deployment.machine.Reaches A c c') :
    TablesEvolve (tablesOf c.state.world) (tablesOf c'.state.world) := by
  refine h.evolves WorldEvolves.refl WorldEvolves.trans ?_ tables_env
  intro op choice answer w w' hexec
  rcases machine_exec hexec with hexec | rfl
  · exact tables_exec hexec
  · exact WorldEvolves.refl _

theorem tables_run {c : GateConfig} (h : session.run tables = some c) :
    TablesEvolve tables (tablesOf c.state.world) :=
  tables_reaches (Machine.reaches_of_run h)

theorem tables_runSessions {sessions : List (Session isalnum)}
    (h : runSessions sessions tables = some tables') : TablesEvolve tables tables' := by
  induction sessions generalizing tables with
  | nil =>
      cases h
      exact TablesEvolve.refl _
  | cons session sessions ih =>
      obtain ⟨c, hrun, hrest⟩ := Option.bind_eq_some_iff.mp h
      exact (tables_run hrun).trans (ih hrest)

/-- Whatever processes have run, from whatever files, and wherever each of them was killed:
no request is lost and none that was settled is changed; no event is lost but to a later one
with its id. -/
theorem tables_survive {sessions : List (Session isalnum)} {tables tables' : Tables}
    (h : runSessions sessions tables = some tables') :
    tables.approvals.Evolves tables'.approvals ∧ LogEvolves tables.audit tables'.audit :=
  ⟨(tables_runSessions h).approvals, (tables_runSessions h).audit⟩

/-- A deployment with one upstream, which asks about every call. -/
def fileServer : Deployment Char.isAlphanum where
  config :=
    { upstreams := [{ name := "fs", accepted := by decide }]
      accepted := by decide }

/-- A process started from it that can connect. -/
def serving (labels : List GateLabel) : Session Char.isAlphanum where
  deployment := fileServer
  now := noon
  perfCounter := 0
  opens _ := .ok ()
  labels := labels

/-- A call of a tool that is not listed, which leaves an event in the log. -/
def unlisted : List GateLabel :=
  .start (.callTool retry 0) :: act 1 :: act 1 :: act 1 :: names 1 "e" :: acts 1 2

theorem tables_survive_killed :
    ∃ tables tables', runSessions [serving (opening ++ unlisted)] {} = some tables ∧
      runSessions [serving (approving 0), serving []] tables = some tables' ∧
      tables.approvals.rows.length = 1 ∧ tables.audit.rows.length = 1 ∧
      tables.approvals.Evolves tables'.approvals ∧ LogEvolves tables.audit tables'.audit := by
  obtain ⟨tables, tables', hbefore, hruns, hrow, hevent⟩ : ∃ tables tables',
      runSessions [serving (opening ++ unlisted)] {} = some tables ∧
      runSessions [serving (approving 0), serving []] tables = some tables' ∧
      tables.approvals.rows.length = 1 ∧ tables.audit.rows.length = 1 :=
    ⟨_, _, rfl, rfl, rfl, rfl⟩
  exact ⟨tables, tables', hbefore, hruns, hrow, hevent, tables_survive hruns⟩

end Survival

end McpGatekeeper.Sessions
