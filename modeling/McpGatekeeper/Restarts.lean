import McpGatekeeper.Sessions

namespace McpGatekeeper.Restarts

open Interleaving
open McpGatekeeper.Approvals
open McpGatekeeper.Database
open McpGatekeeper.Gateway
open McpGatekeeper.Narrative
open McpGatekeeper.Operations
open McpGatekeeper.Registry
open McpGatekeeper.Scenarios
open McpGatekeeper.Service
open McpGatekeeper.Sessions
open McpGatekeeper.System

section Code

variable (invocation : Invocation) (row : ApprovalRequest)

/-- What becomes of a retry that is let through. -/
inductive Served (items : Items) : Prop
  | unregistered (hentry : ⟨.registryGet invocation.name, none⟩ ∈ items) : Served items
  | disconnected (entry : NamespacedTool)
      (hentry : ⟨.registryGet invocation.name, some entry⟩ ∈ items)
      (hconnection : ⟨.connectionGet entry.upstream, false⟩ ∈ items) : Served items
  | called (entry : NamespacedTool) (answer : Except String CallToolResult)
      (hentry : ⟨.registryGet invocation.name, some entry⟩ ∈ items)
      (hcall : ⟨.callTool entry.upstream entry.remoteName invocation.args, answer⟩ ∈ items) :
      Served items

/-- As long as the queue answers with the row, the retry goes by it. -/
def Honoured (items : Items) : Prop :=
  (∀ answer, ⟨.getApproval row.id, answer⟩ ∈ items → answer = some row) →
    Served invocation items

variable {invocation row} {deps : GatewayDeps} {items : Items}

theorem Served.cons (h : Served invocation items) (item : Item) :
    Served invocation (item :: items) := by
  cases h with
  | unregistered hentry => exact .unregistered (List.mem_cons_of_mem _ hentry)
  | disconnected entry hentry hconnection =>
      exact .disconnected entry (List.mem_cons_of_mem _ hentry)
        (List.mem_cons_of_mem _ hconnection)
  | called entry answer hentry hcall =>
      exact .called entry answer (List.mem_cons_of_mem _ hentry) (List.mem_cons_of_mem _ hcall)

theorem Honoured.cons (h : Honoured invocation row items) (item : Item) :
    Honoured invocation row (item :: items) := by
  intro hanswers
  have hserved := h fun answer hmem => hanswers answer (List.mem_cons_of_mem _ hmem)
  exact hserved.cons item

theorem Served.honoured (h : Served invocation items) : Honoured invocation row items :=
  fun _ => h

abbrev Honours {α : Type} (invocation : Invocation) (row : ApprovalRequest) (p : Prog α)
    (items : Items) : Prop :=
  p.Narrates (fun _ _ => True) (fun _ _ => True)
    (fun _ items' => Honoured invocation row items') items

theorem Honoured.kept (h : Honoured invocation row items) {α : Type} (p : Prog α) :
    Honours invocation row p items :=
  Program.Only.narrates (fun _ _ _ => trivial) (fun _ _ _ => trivial)
    (fun _ op answer _ hkept => hkept.cons ⟨op, answer⟩)
    (Program.only_of_forall (fun _ => trivial) p) h

theorem honoured_of_other {answer : Option ApprovalRequest}
    (hother : answer ≠ some row) (hmem : ⟨.getApproval row.id, answer⟩ ∈ items) :
    Honoured invocation row items :=
  fun hanswers => absurd (hanswers answer hmem) hother

theorem forward_honours {call : Call} {approval : Option ApprovalRequest}
    (harguments : call.request.arguments = invocation.args)
    (hentry : ⟨.registryGet invocation.name, some call.entry⟩ ∈ items) :
    Honours invocation row (forward deps call approval) items := by
  refine ⟨trivial, fun connected => ?_⟩
  have hentry := List.mem_cons_of_mem ⟨.connectionGet call.entry.upstream, connected⟩ hentry
  cases connected with
  | false =>
      exact (Served.disconnected call.entry hentry List.mem_cons_self).honoured.kept _
  | true =>
      refine ⟨trivial, fun answer => ?_⟩
      have hentry := List.mem_cons_of_mem ⟨.callTool call.entry.upstream
        call.entry.remoteName call.request.arguments, answer⟩ hentry
      refine (Served.called call.entry answer hentry ?_).honoured.kept _
      rw [← harguments]
      exact List.mem_cons_self

theorem resume_honours (happroved : row.status = .approved) {call : Call}
    (harguments : call.request.arguments = invocation.args)
    (hentry : ⟨.registryGet invocation.name, some call.entry⟩ ∈ items) :
    Honours invocation row (resume deps call row.id) items := by
  refine ⟨trivial, fun answer => ?_⟩
  rcases eq_or_ne answer (some row) with rfl | hother
  · refine ⟨trivial, fun now => ?_⟩
    have hexpired : row.isExpiredAt now = false := by
      simp [ApprovalRequest.isExpiredAt, happroved]
    have hgranted : row.status.isGranted = true := by
      rw [happroved]
      rfl
    have hresolved : row.status.isResolved = true := by
      rw [happroved]
      rfl
    change Honours invocation row (Program.bind (if row.isExpiredAt now then _ else _) _) _
    rw [hexpired]
    change Honours invocation row (if row.status.isResolved then _ else _) _
    rw [if_pos hresolved]
    change Honours invocation row (if row.status.isGranted then _ else _) _
    rw [if_pos hgranted]
    refine ⟨trivial, fun _ => forward_honours harguments ?_⟩
    simp [hentry]
  · exact (honoured_of_other hother List.mem_cons_self).kept _

theorem callTool_honours (happroved : row.status = .approved)
    (hresumes : invocation.resumes = some row.id) (polls : Nat) :
    Honours invocation row (callTool deps invocation polls) items := by
  refine ⟨trivial, fun started => ⟨trivial, ?_⟩⟩
  rintro (_ | entry)
  · exact (Served.unregistered List.mem_cons_self).honoured.kept _
  · dsimp only [Program.bind]
    rw [hresumes]
    apply Program.Narrates.bind (resume_honours happroved rfl List.mem_cons_self)
    exact fun _ items' hhonoured => hhonoured

/-- What every task is asked, in a process that finds the row approved. -/
def HonouredBy (row : ApprovalRequest) : Entry → Items → Prop
  | .callTool invocation _, items =>
      invocation.resumes = some row.id → Honoured invocation row items
  | _, _ => True

theorem code_honours (happroved : row.status = .approved) (entry : Entry) :
    (code deps entry).Narrates (fun _ _ => True) (fun _ _ => True)
      (fun _ items => HonouredBy row entry items) [] := by
  have hnothing : (code deps entry).Narrates (fun _ _ => True) (fun _ _ => True)
      (fun _ _ => True) [] :=
    Program.narrates_of_forall (fun _ _ => trivial) (fun _ _ => trivial) _ _
  cases entry with
  | callTool invocation polls =>
      by_cases hresumes : invocation.resumes = some row.id
      · apply Program.Narrates.bind (callTool_honours happroved hresumes polls)
        exact fun _ items hhonoured _ => hhonoured
      · exact hnothing.mono fun _ _ _ h => absurd h hresumes
  | listTools | openApproval | decide | dismiss | get | wait | pending | expireOverdue =>
      exact hnothing

end Code

section Queue

variable {isalnum : Char → Bool} {session : Session isalnum} {tables : Tables}
  {row : ApprovalRequest} {c : GateConfig}

theorem getApproval_answer {deployment : Deployment isalnum} {id : String} {choice : Choice}
    {answer : Option ApprovalRequest} {w w' : World}
    (h : deployment.machine.exec (.getApproval id) choice w = some (answer, w')) :
    answer = w.approvals.get id := by
  simp only [Deployment.machine] at h
  split at h <;> cases h <;> rfl

theorem reads_settled (hrow : tables.approvals.get row.id = some row)
    (hsettled : row.status ≠ .pending) (hrun : session.run tables = some c) {i : Nat}
    {answer : Option ApprovalRequest}
    (hread : ⟨.getApproval row.id, answer⟩ ∈ journal i c.state.history) :
    answer = some row := by
  obtain ⟨event, hevent, htask, hitem⟩ := mem_journal.mp hread
  obtain ⟨newer, older, hsplit⟩ := List.append_of_mem hevent
  obtain ⟨c₁, next, after, hperformed⟩ :=
    (Machine.reaches_of_run hrun).performed rfl hsplit
  obtain ⟨i, entry, op, answer', before⟩ := event
  cases hitem
  obtain ⟨choice, hexec⟩ := hperformed.exec
  have hevolves := (tables_reaches hperformed.reached).approvals
  rw [hperformed.state] at hevolves
  rw [getApproval_answer hexec]
  exact hevolves.settled hrow hsettled

/-- An approval outlives the process it was given to: after any processes, started from
whatever files and killed wherever, a retry that returns has called the tool it names with its
own arguments, unless that tool is not registered or its upstream is not connected. -/
theorem approval_outlives_restarts {sessions : List (Session isalnum)} {tables' : Tables}
    (hbefore : runSessions sessions tables = some tables')
    (hrow : tables.approvals.get row.id = some row) (happroved : row.status = .approved)
    (hrun : session.run tables' = some c) {i : Nat} {invocation : Invocation} {polls : Nat}
    {reply : Reply} (hresumes : invocation.resumes = some row.id)
    (htask : c.tasks[i]? = some ⟨.callTool invocation polls, .ret reply⟩) :
    Served invocation (journal i c.state.history) := by
  have hsettled : row.status ≠ .pending := by simp [happroved]
  have hrow' := (tables_runSessions hbefore).approvals.settled hrow hsettled
  have hhonoured := (Machine.reaches_of_run hrun).of_return (code_honours happroved) htask
  exact hhonoured hresumes fun answer hread => reads_settled hrow' hsettled hrun hread

/-- A process that lists its upstream's one tool and is then asked again. -/
def retrying : List GateLabel :=
  [.start .listTools, act 0, .act 0 { tools := .ok [{ name := "write" }] }, act 0,
    .start (.callTool retry 0)] ++ acts 1 6 ++ [serves 1, names 1 "e"] ++ acts 1 3

theorem approval_outlives_restarts_killed :
    ∃ tables row tables' c reply,
      runSessions [serving opening, serving (approving 0)] {} = some tables ∧
      tables.approvals.get "a" = some row ∧ row.status = .approved ∧
      runSessions [serving []] tables = some tables' ∧
      (serving retrying).run tables' = some c ∧
      c.tasks[1]? = some ⟨.callTool retry 0, .ret reply⟩ ∧
      Served retry (journal 1 c.state.history) := by
  obtain ⟨tables, row, tables', c, reply, hbefore, hrow, hid, happroved, hruns, hrun, htask⟩ :
      ∃ tables row tables' c reply,
        runSessions [serving opening, serving (approving 0)] {} = some tables ∧
        tables.approvals.get "a" = some row ∧ row.id = "a" ∧ row.status = .approved ∧
        runSessions [serving []] tables = some tables' ∧
        (serving retrying).run tables' = some c ∧
        c.tasks[1]? = some ⟨.callTool retry 0, .ret reply⟩ :=
    ⟨_, _, _, _, _, rfl, rfl, rfl, rfl, rfl, rfl, rfl⟩
  refine ⟨tables, row, tables', c, reply, hbefore, hrow, happroved, hruns, hrun, htask, ?_⟩
  rw [← hid] at hrow
  refine approval_outlives_restarts hruns hrow happroved hrun ?_ htask
  rw [hid]
  rfl

end Queue

end McpGatekeeper.Restarts
