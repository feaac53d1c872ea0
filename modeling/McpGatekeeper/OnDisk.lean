import McpGatekeeper.Interleaving.View
import McpGatekeeper.Narrative
import McpGatekeeper.Scenarios
import McpGatekeeper.TextTables

/-!
The program over tables of texts.  Arguments are parsed from JSON before they reach the
gateway; as long as they are, no row that any run writes is unreadable, and the run is the
one over tables of values.
-/

namespace McpGatekeeper.OnDisk

open Interleaving
open McpGatekeeper.Approvals
open McpGatekeeper.Audit
open McpGatekeeper.Conduct
open McpGatekeeper.Gateway
open McpGatekeeper.JsonText
open McpGatekeeper.JsonValues
open McpGatekeeper.Narrative
open McpGatekeeper.Operations
open McpGatekeeper.Rows
open McpGatekeeper.Scenarios
open McpGatekeeper.System
open McpGatekeeper.TextTables

/-- The tables in `process` are not used. -/
structure DiskWorld where
  process : World
  tables : Tables

section Machine

variable (spell : List Char → String)

/-- A method that meets a row it cannot read raises; here it has no answer. -/
def exec : (op : Op) → Choice → DiskWorld → Option (Res op × DiskWorld)
  | .createApproval request, _, w =>
      let created := w.tables.create request
      some (created.1, { w with tables := created.2 })
  | .getApproval id, _, w => (w.tables.get spell id).map fun answer => (answer, w)
  | .resolveApproval id approved decidedAt approver note, _, w =>
      let resolved := w.tables.resolve id approved decidedAt approver note
      (Tables.readRow spell resolved.1).map fun answer =>
        (answer, { w with tables := resolved.2 })
  | .expireOverdue moment, _, w =>
      let swept := w.tables.expireOverdue moment
      some (swept.1, { w with tables := swept.2 })
  | .pendingApprovals, _, w => (w.tables.pending spell).map fun answer => (answer, w)
  | .recordAudit event, _, w => some ((), { w with tables := w.tables.record event })
  | op, choice, w =>
      (Operations.exec op choice w.process).map fun answer =>
        (answer.1, { w with process := answer.2 })

def env (change : Env) (w : DiskWorld) : Option DiskWorld :=
  (Operations.env change w.process).map fun process => { w with process := process }

abbrev DiskMachine := Machine DiskWorld Choice Env Entry Res Halt Reply

def diskMachine (deps : GatewayDeps) : DiskMachine where
  code := code deps
  exec := exec spell
  env := env
  cancelled := .cancelled

end Machine

/-- A world with its tables written out. -/
def onDisk (w : World) : DiskWorld where
  process := { w with approvals := .empty, audit := {} }
  tables := written w.approvals w.audit

section Arguments

variable (spell : List Char → String)

/-- Only arguments that JSON can carry are written. -/
def Fits : Op → Prop
  | .createApproval request => proper spell (.obj request.arguments) = true
  | .recordAudit event => proper spell (.obj event.arguments) = true
  | _ => True

/-- The arguments of a call are such as `json.loads` returns. -/
def parsed : Entry → Bool
  | .callTool invocation _ => proper spell (.obj invocation.args)
  | .openApproval _ _ arguments _ _ => proper spell (.obj arguments)
  | _ => true

end Arguments

section Redaction

variable {spell : List Char → String} {translated : List String}

theorem redactFields_keys (fields : JsonObject) (path : String) :
    (redactFields translated fields path).map (·.1) = fields.map (·.1) := by
  induction fields with
  | nil => rfl
  | cons field fields ih =>
      obtain ⟨key, item⟩ := field
      rw [redactFields, List.map_cons, List.map_cons, ih]

mutual

theorem proper_redact {value : Json} (h : proper spell value = true) (path : String) :
    proper spell (redact translated value path) = true := by
  cases value with
  | null | bool _ | int _ | float _ | str _ =>
      simp only [redact]
      split
      · rfl
      · exact h
  | arr items =>
      rw [redact]
      split
      · rfl
      · exact properItems_redact h path 0
  | obj fields =>
      rw [redact]
      split
      · rfl
      · obtain ⟨hkeys, hfields⟩ := Bool.and_eq_true_iff.mp h
        refine Bool.and_eq_true_iff.mpr ⟨?_, properFields_redact hfields path⟩
        rw [redactFields_keys]
        exact hkeys

theorem properItems_redact {items : List Json} (h : properItems spell items = true)
    (path : String) (index : Nat) :
    properItems spell (redactItems translated items path index) = true := by
  cases items with
  | nil => rfl
  | cons item items =>
      obtain ⟨hitem, hitems⟩ := Bool.and_eq_true_iff.mp h
      exact Bool.and_eq_true_iff.mpr
        ⟨proper_redact hitem _, properItems_redact hitems path (index + 1)⟩

theorem properFields_redact {fields : JsonObject} (h : properFields spell fields = true)
    (path : String) : properFields spell (redactFields translated fields path) = true := by
  cases fields with
  | nil => rfl
  | cons field fields =>
      obtain ⟨key, item⟩ := field
      obtain ⟨hitem, hfields⟩ := Bool.and_eq_true_iff.mp h
      exact Bool.and_eq_true_iff.mpr
        ⟨proper_redact hitem _, properFields_redact hfields path⟩

end

theorem proper_redactArguments {arguments : JsonObject}
    (h : proper spell (.obj arguments) = true) (patterns : List String) :
    proper spell (.obj (redactArguments arguments patterns)) = true := by
  rw [redactArguments]
  split
  · exact h
  · dsimp only
    split
    · rename_i fields heq
      rw [← heq]
      exact proper_redact h ""
    · rfl

end Redaction

section Readable

variable {spell : List Char → String}

/-- The world's tables, written out, could be read again. -/
def Legible (spell : List Char → String) (w : World) : Prop :=
  Readable spell w.approvals w.audit

theorem settled_of_advances {rows : List ApprovalRequest}
    {f : ApprovalRequest → ApprovalRequest} (hf : ∀ row, Advances row (f row))
    (h : ∀ row ∈ rows, Settled spell row.arguments) :
    ∀ row ∈ rows.map f, Settled spell row.arguments := by
  intro row hrow
  obtain ⟨before, hbefore, rfl⟩ := List.mem_map.mp hrow
  rw [(hf before).call_eq.2.2]
  exact h before hbefore

theorem insertByCreation_perm (row : ApprovalRequest) (rows : List ApprovalRequest) :
    (ApprovalsTable.insertByCreation row rows).Perm (row :: rows) := by
  induction rows with
  | nil => exact List.Perm.refl _
  | cons other rows ih =>
      rw [ApprovalsTable.insertByCreation]
      split
      · exact List.Perm.refl _
      · exact (ih.cons other).trans (List.Perm.swap row other rows)

theorem foldr_insertByCreation_perm (rows : List ApprovalRequest) :
    (rows.foldr ApprovalsTable.insertByCreation []).Perm rows := by
  induction rows with
  | nil => exact List.Perm.refl _
  | cons row rows ih => exact (insertByCreation_perm row _).trans (ih.cons row)

theorem mem_pending {approvals : ApprovalsTable} {row : ApprovalRequest}
    (h : row ∈ approvals.pending) : row ∈ approvals.rows := by
  rw [ApprovalsTable.pending, (foldr_insertByCreation_perm _).mem_iff] at h
  exact List.mem_of_mem_filter h

theorem legible_exec {op : Op} {choice : Choice} {answer : Res op} {w w' : World}
    (h : Legible spell w) (hop : Fits spell op)
    (hexec : Operations.exec op choice w = some (answer, w')) : Legible spell w' := by
  obtain ⟨happrovals, haudit⟩ := h
  cases op with
  | createApproval request =>
      simp only [Operations.exec] at hexec
      split at hexec
      · cases hexec
        exact ⟨happrovals, haudit⟩
      · rename_i approvals hcreate
        cases hexec
        refine ⟨fun row hrow => ?_, haudit⟩
        rw [ApprovalsTable.create] at hcreate
        split at hcreate
        · cases hcreate
        · cases hcreate
          rcases List.mem_append.mp hrow with hold | hnew
          · exact happrovals row hold
          · obtain rfl := List.mem_singleton.mp hnew
            exact settled_dumps hop
  | resolveApproval id approved decidedAt approver note =>
      cases hexec
      refine ⟨?_, haudit⟩
      dsimp only
      rw [ApprovalsTable.resolve]
      split
      · exact happrovals
      · split
        · exact settled_of_advances
            (ApprovalsTable.advances_settle id approved decidedAt approver note) happrovals
        · exact happrovals
  | expireOverdue moment =>
      cases hexec
      exact ⟨settled_of_advances (ApprovalsTable.advances_expire moment) happrovals, haudit⟩
  | recordAudit event =>
      cases hexec
      refine ⟨happrovals, fun row hrow => ?_⟩
      rcases List.mem_append.mp hrow with hold | hnew
      · exact haudit row (List.mem_of_mem_filter hold)
      · obtain rfl := List.mem_singleton.mp hnew
        exact settled_dumps hop
  | _ =>
      cases hexec
      exact ⟨happrovals, haudit⟩

theorem exec_onDisk {op : Op} {w : World} (choice : Choice) (h : Legible spell w) :
    exec spell op choice (onDisk w) =
      (Operations.exec op choice w).map fun answer => (answer.1, onDisk answer.2) := by
  have hreads : ∀ row, (∀ request, row = some request → Settled spell request.arguments) →
      Tables.readRow spell (row.map approvalText) = some row := by
    rintro (_ | row) hrow
    · rfl
    · change (rowToRequest spell (approvalText row)).map some = _
      rw [rowToRequest_approvalText (hrow row rfl)]
      rfl
  cases op with
  | createApproval request =>
      simp only [exec, Operations.exec, onDisk]
      cases hcreate : w.approvals.create request with
      | none => rw [create_taken hcreate]; rfl
      | some approvals => rw [create_fresh hcreate]; rfl
  | getApproval id =>
      simp only [exec, Operations.exec, onDisk, Tables.get, select_written]
      rw [hreads]
      · rfl
      · intro request hget
        exact h.approvals request (List.mem_of_find?_eq_some hget)
  | resolveApproval id approved decidedAt approver note =>
      have hexec : Operations.exec (.resolveApproval id approved decidedAt approver note) choice w =
          some ((w.approvals.resolve id approved decidedAt approver note).1,
            { w with approvals := (w.approvals.resolve id approved decidedAt approver note).2 }) :=
        rfl
      have hfits : Fits spell (.resolveApproval id approved decidedAt approver note) := trivial
      have hresolved := legible_exec h hfits hexec
      simp only [exec, Operations.exec, onDisk, resolve_written]
      rw [hreads]
      · rfl
      · intro request hget
        rw [ApprovalsTable.resolve_answer] at hget
        exact hresolved.approvals request (List.mem_of_find?_eq_some hget)
  | expireOverdue moment =>
      simp only [exec, Operations.exec, onDisk, expireOverdue_written]
      rfl
  | pendingApprovals =>
      simp only [exec, Operations.exec, onDisk, Tables.pending, selectPending_written]
      rw [mapM_rowToRequest]
      · rfl
      · exact fun row hrow => h.approvals row (mem_pending hrow)
  | recordAudit event =>
      simp only [exec, Operations.exec, onDisk, record_written]
      rfl
  | _ => rfl

theorem env_onDisk (change : Env) (w : World) :
    env change (onDisk w) = (Operations.env change w).map onDisk := by
  cases change <;> rfl

end Readable

section Runs

variable {spell : List Char → String} {deps : GatewayDeps}

theorem event_arguments {invocation : Invocation} {items : Items} {event : AuditEvent}
    (h : Closing deps invocation items event) :
    event.arguments = redactArguments invocation.args deps.redact := by
  cases h with
  | unknownTool | denied | awaiting | unavailable | failed | forwarded | refused =>
      rename_i hfiles
      obtain ⟨now, eventId, latency, rfl⟩ := hfiles
      rfl

theorem fits_of_isCommon (op : Op) (h : isCommon op = true) : Fits spell op := by
  cases op with
  | createApproval | recordAudit => cases h
  | _ => trivial

theorem callTool_fits {invocation : Invocation} {polls : Nat}
    (h : proper spell (.obj invocation.args) = true) :
    (callTool deps invocation polls).Only (Fits spell) := by
  have hfiles : (callTool deps invocation polls).Only fun op =>
      isDeed op = true ∨ Fits spell op := by
    apply callTool_only deps (fun op hop => .inr (fits_of_isCommon op hop)) fun op hop => .inl hop
    · intro request _ _ harguments
      right
      rw [Fits, harguments]
      exact h
    · exact fun _ _ _ _ => .inr trivial
    · exact fun _ _ _ _ _ => .inr trivial
    · exact fun _ => .inr trivial
  have hrecords : (callTool deps invocation polls).Only fun op =>
      isDeed op = true → Fits spell op := by
    refine Program.Narrates.only ?_ (callTool_tells polls)
    intro items op hbefore hdeed
    cases op with
    | recordAudit event =>
        obtain ⟨eventId, ended, rest, -, hclosing⟩ := hbefore
        rw [Fits, event_arguments hclosing]
        exact proper_redactArguments h deps.redact
    | createApproval => cases hdeed
    | _ => trivial
  refine (hfiles.and hrecords).mono ?_
  rintro op ⟨hdeed | hfits, hrecord⟩
  · exact hrecord hdeed
  · exact hfits

theorem code_fits {entry : Entry} (h : parsed spell entry = true) :
    (code deps entry).Only (Fits spell) := by
  cases entry with
  | callTool invocation polls => exact (callTool_fits h).bind fun _ => trivial
  | listTools =>
      exact (listTools_only fits_of_isCommon fun _ => trivial).bind fun _ => trivial
  | openApproval tool upstream arguments reason clientName =>
      refine Program.Only.bind ?_ fun _ => trivial
      apply openApproval_only fits_of_isCommon
      intro request _ _ _ harguments
      rw [Fits, harguments]
      exact h
  | decide id approved approver note =>
      exact (decide_only fits_of_isCommon fun _ => trivial).bind fun _ => trivial
  | dismiss id note =>
      exact (dismiss_only fits_of_isCommon fun _ => trivial).bind fun _ => trivial
  | get id => exact (get_only fits_of_isCommon id).bind fun _ => trivial
  | wait id polls =>
      exact (wait_only fits_of_isCommon (fun _ _ => trivial) trivial polls).bind
        fun _ => trivial
  | pending => exact (pending_only fits_of_isCommon).bind fun _ => trivial
  | expireOverdue now => exact (sweep_only fits_of_isCommon now).bind fun _ => trivial

variable (spell deps)

/-- The program on disk does to the texts what the program does to the values. -/
def disk : View (machine deps) (diskMachine spell deps) where
  view := onDisk
  Good := Legible spell
  Fits := Fits spell
  code _ := rfl
  cancelled := rfl
  exec choice hgood hop := exec_onDisk choice hgood
  env change _ := env_onDisk change _
  exec_good hgood hop hexec := legible_exec hgood hop hexec
  env_good hgood henv := by
    rename_i change w w'
    cases change <;> cases henv <;> exact hgood

variable {spell deps}

/-- Every arrival brings arguments that `json.loads` could have returned. -/
def Arrives (spell : List Char → String) (label : GateLabel) : Prop :=
  ∀ entry, label = .start entry → parsed spell entry = true

theorem welcome_of_arrives {labels : List GateLabel}
    (h : ∀ label ∈ labels, Arrives spell label) :
    ∀ label ∈ labels, (disk spell deps).Welcome label :=
  fun label hlabel entry hentry => code_fits (h label hlabel entry hentry)

/-- Label for label, the program over texts does what the program over values does. -/
theorem run_onDisk (spell : List Char → String) (deps : GatewayDeps) {w : World}
    (hw : Legible spell w) {labels : List GateLabel}
    (hlabels : ∀ label ∈ labels, Arrives spell label) :
    (diskMachine spell deps).run .none (Config.initial (onDisk w)) labels =
      ((machine deps).run .none (Config.initial w) labels).map (·.map onDisk) :=
  (disk spell deps).run_map (View.ready_initial hw) (welcome_of_arrives hlabels)

/-- A request for `fs__write` with two arguments out of order is opened and approved. -/
def parking : List GateLabel :=
  [.start (.openApproval "fs__write" "fs" [("size", .int 3), ("path", .str "/tmp")] none none),
    act 0, names 0 "a"] ++ acts 0 2 ++ approving 1

theorem arrives_parking (spell : List Char → String) :
    ∀ label ∈ parking, Arrives spell label := by
  intro label hlabel entry hentry
  subst hentry
  simp [parking, acts, act, names, approving] at hlabel
  rcases hlabel with rfl | rfl <;> simp [parsed, proper, properFields]

theorem legible_office (spell : List Char → String) : Legible spell office where
  approvals _ h := by cases h
  audit _ h := by cases h

theorem run_onDisk_parking :
    (diskMachine (fun _ => "inf") Scenarios.deps).run .none (Config.initial (onDisk office)) parking =
      ((machine Scenarios.deps).run .none (Config.initial office) parking).map (·.map onDisk) :=
  run_onDisk _ Scenarios.deps (legible_office _) (arrives_parking _)

abbrev DiskConfig := Config DiskWorld Entry Res Halt Reply

/-- The tables of every configuration reached are the texts of readable tables. -/
theorem written_of_run {w : World} (hw : Legible spell w) {labels : List GateLabel}
    (hlabels : ∀ label ∈ labels, Arrives spell label) {c : DiskConfig}
    (hrun : (diskMachine spell deps).run .none (Config.initial (onDisk w)) labels = some c) :
    ∃ approvals audit, c.state.world.tables = written approvals audit ∧
      Readable spell approvals audit := by
  have hinitial : (disk spell deps).Ready (Config.initial w) := View.ready_initial hw
  have hwelcome : ∀ label ∈ labels, (disk spell deps).Welcome label :=
    welcome_of_arrives hlabels
  have hmap := (disk spell deps).run_map hinitial hwelcome
  obtain ⟨c', hrun', rfl⟩ := Option.map_eq_some_iff.mp (hmap.symm.trans hrun)
  exact ⟨c'.state.world.approvals, c'.state.world.audit, rfl,
    (hinitial.run hwelcome hrun').world⟩

/-- Whatever has run, each row of both tables is read back without an exception. -/
theorem rows_readable (spell : List Char → String) (deps : GatewayDeps) {w : World}
    (hw : Legible spell w) {labels : List GateLabel}
    (hlabels : ∀ label ∈ labels, Arrives spell label) {c : DiskConfig}
    (hrun : (diskMachine spell deps).run .none (Config.initial (onDisk w)) labels = some c) :
    (∀ row ∈ c.state.world.tables.approvals, ∃ request,
      rowToRequest spell row = some request ∧ approvalText request = row) ∧
    (∀ row ∈ c.state.world.tables.audit, ∃ event,
      rowToEvent spell row.2 = some event ∧ recordRow event = row.2) := by
  obtain ⟨approvals, audit, htables, happrovals, haudit⟩ := written_of_run hw hlabels hrun
  rw [htables]
  constructor
  · intro row hrow
    obtain ⟨request, hrequest, rfl⟩ := List.mem_map.mp hrow
    exact ⟨request, rowToRequest_approvalText (happrovals request hrequest), rfl⟩
  · intro row hrow
    obtain ⟨numbered, hnumbered, rfl⟩ := List.mem_map.mp hrow
    exact ⟨numbered.2, rowToEvent_recordRow (haudit numbered hnumbered), rfl⟩

theorem rows_readable_parking :
    ∃ c, (diskMachine (fun _ => "inf") Scenarios.deps).run .none
        (Config.initial (onDisk office)) parking = some c ∧
      ∀ row ∈ c.state.world.tables.approvals, ∃ request,
        rowToRequest (fun _ => "inf") row = some request ∧ approvalText request = row := by
  obtain ⟨c, hrun⟩ : ∃ c, (machine Scenarios.deps).run .none (Config.initial office) parking =
      some c := ⟨_, rfl⟩
  have hdisk := (disk (fun _ => "inf") Scenarios.deps).run_map
    (View.ready_initial (legible_office _)) (welcome_of_arrives (arrives_parking _))
  rw [hrun] at hdisk
  exact ⟨_, hdisk, (rows_readable _ Scenarios.deps (legible_office _) (arrives_parking _) hdisk).1⟩

end Runs

end McpGatekeeper.OnDisk
