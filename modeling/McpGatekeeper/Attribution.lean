import McpGatekeeper.Narrative
import McpGatekeeper.Scenarios

namespace McpGatekeeper.Attribution

open Interleaving
open McpGatekeeper.Approvals
open McpGatekeeper.Audit
open McpGatekeeper.Conduct
open McpGatekeeper.Filing
open McpGatekeeper.GateContract
open McpGatekeeper.Gateway
open McpGatekeeper.Narrative
open McpGatekeeper.Operations
open McpGatekeeper.Registry
open McpGatekeeper.Scenarios
open McpGatekeeper.System

/-- The row an operation opens, reads or settles, as it then stands in the table. -/
def consulted : Op → World → Option ApprovalRequest
  | .createApproval request, w =>
      (w.approvals.create request).bind fun approvals => approvals.get request.id
  | .getApproval id, w => w.approvals.get id
  | .resolveApproval id approved decidedAt approver note, w =>
      (w.approvals.resolve id approved decidedAt approver note).2.get id
  | _, _ => none

def lastConsulted (i : Nat) (history : List GateEvent) : Option ApprovalRequest :=
  (history.filter fun event => event.task == i).findSome? fun event =>
    consulted event.op event.before

/-- An invocation that has opened or consulted an approval finds its upstream connected
when it comes to forward the call. -/
def connectedWhenApproved : GateAssumption where
  act i _ op s :=
    match op with
    | .connectionGet upstream =>
        (lastConsulted i s.history).isNone || decide (upstream ∈ s.world.connections)
    | _ => true
  env _ _ := true

theorem consulted_eq_sight {op : Op} {choice : Choice} {w w' : World} {answer : Res op}
    (h : exec op choice w = some (answer, w')) : consulted op w = sight ⟨op, answer⟩ := by
  cases op
  case createApproval request =>
    simp only [exec] at h
    split at h
    · rename_i htaken
      cases h
      simp [consulted, sight, htaken]
    · rename_i approvals hcreate
      cases h
      have hnone := ApprovalsTable.get_none_of_create hcreate
      simp [consulted, sight, hcreate, ApprovalsTable.get_create hcreate, hnone]
  case resolveApproval id approved decidedAt approver note =>
    cases h
    exact (ApprovalsTable.resolve_answer _ _ _ _ _ _).symm
  all_goals
    cases h
    rfl

theorem subject_of_consulted {op : Op} {w : World} {row : ApprovalRequest}
    (h : consulted op w = some row) : subject op = some row.id := by
  cases op
  case createApproval request =>
    obtain ⟨approvals, -, hrow⟩ := Option.bind_eq_some_iff.mp h
    rw [ApprovalsTable.id_of_get hrow]
    rfl
  case getApproval id =>
    rw [ApprovalsTable.id_of_get h]
    rfl
  case resolveApproval id approved decidedAt approver note =>
    rw [ApprovalsTable.id_of_get h]
    rfl
  all_goals cases h

theorem get_of_consulted {op : Op} {choice : Choice} {w w' : World} {answer : Res op}
    (h : exec op choice w = some (answer, w')) {row : ApprovalRequest}
    (hrow : consulted op w = some row) : w'.approvals.get row.id = some row := by
  have hid := subject_of_consulted hrow
  rw [exec_leaves h]
  cases op
  case createApproval request =>
    obtain ⟨approvals, hcreate, hget⟩ := Option.bind_eq_some_iff.mp hrow
    rw [← Option.some.inj hid]
    simpa [Op.leaves, hcreate] using hget
  case getApproval id =>
    rw [← Option.some.inj hid]
    exact hrow
  case resolveApproval id approved decidedAt approver note =>
    rw [← Option.some.inj hid]
    exact hrow
  all_goals cases hrow

def About (id : String) (items : Items) : Prop :=
  ∀ item ∈ items, (subject item.1).all (· == id) = true

theorem about_of_concern {id : String} {items : Items} (h : Concern id items) :
    About id items := by
  rintro ⟨op, answer⟩ hitem
  have hop := h _ hitem
  cases op <;> first | exact hop | rfl

theorem About.cons {id : String} {items : Items} (h : About id items) {op : Op}
    (hop : subject op = none) (answer : Res op) : About id (⟨op, answer⟩ :: items) := by
  rw [About, List.forall_mem_cons, hop]
  exact ⟨rfl, h⟩

section Closing

variable {deps : GatewayDeps} {invocation : Invocation} {items : Items} {event : AuditEvent}

theorem sighted_of_admitted {tool : NamespacedTool} {approval : Option ApprovalRequest}
    (h : Admitted invocation tool approval items) :
    items.findSome? sight = approval ∧ ∃ id, About id items := by
  cases h with
  | byPolicy started =>
      exact ⟨rfl, "", about_of_concern (found_concern "" (some tool) started)⟩
  | byApproval id approval outcome items hlearned hgranted =>
      exact ⟨hlearned.sight, id, (about_of_concern hlearned.concern).cons rfl _⟩

theorem closing_attributed (h : Closing deps invocation items event) {row : ApprovalRequest}
    (hrow : items.findSome? sight = some row)
    (hconnected : ∀ upstream rest, items ≠ ⟨.connectionGet upstream, false⟩ :: rest) :
    event.approvalId = some row.id ∧ event.approver = row.approver ∧
      ∃ id, About id items := by
  cases h with
  | unknownTool started upstream event hfiles => cases hrow
  | denied tool started event hfiles => cases hrow
  | awaiting tool request items event hconcern hsight hundecided hfiles =>
      obtain ⟨now, eventId, latency, rfl⟩ := hfiles
      rw [hsight] at hrow
      obtain rfl := Option.some.inj hrow
      exact ⟨rfl, hundecided, request.id, about_of_concern hconcern⟩
  | unavailable tool approval items error event hadmitted hfiles =>
      exact absurd rfl (hconnected tool.upstream items)
  | failed tool approval items error event hadmitted hfiles =>
      obtain ⟨now, eventId, latency, rfl⟩ := hfiles
      obtain ⟨hsight, id, habout⟩ := sighted_of_admitted hadmitted
      obtain rfl : approval = some row := hsight.symm.trans hrow
      exact ⟨rfl, rfl, id, (habout.cons rfl _).cons rfl _⟩
  | forwarded tool approval items result event hadmitted hfiles =>
      obtain ⟨now, eventId, latency, rfl⟩ := hfiles
      obtain ⟨hsight, id, habout⟩ := sighted_of_admitted hadmitted
      obtain rfl : approval = some row := hsight.symm.trans hrow
      exact ⟨rfl, rfl, id, (habout.cons rfl _).cons rfl _⟩
  | refused tool id approval outcome items event hlearned hrefused hfiles =>
      obtain ⟨now, eventId, latency, rfl⟩ := hfiles
      obtain rfl := Option.some.inj (hlearned.sight.symm.trans hrow)
      exact ⟨rfl, rfl, id, (about_of_concern hlearned.concern).cons rfl _⟩

end Closing

section Runs

variable {deps : GatewayDeps} {A : GateAssumption} {world : World} {c : GateConfig}
  (hreach : (machine deps).Reaches A (Config.initial world) c)
include hreach

theorem consulted_of_mem {event : GateEvent} (hevent : event ∈ c.state.history) :
    consulted event.op event.before = sight ⟨event.op, event.res⟩ := by
  obtain ⟨newer, older, hsplit⟩ := List.append_of_mem hevent
  obtain ⟨c₁, next, after, hperformed⟩ := hreach.performed rfl hsplit
  obtain ⟨choice, hexec⟩ := hperformed.exec
  exact consulted_eq_sight hexec

theorem lastConsulted_eq (i : Nat) :
    lastConsulted i c.state.history = (journal i c.state.history).findSome? sight := by
  rw [journal, List.findSome?_map, lastConsulted, ← List.head?_filterMap,
    ← List.head?_filterMap]
  congr 1
  apply List.filterMap_congr
  intro event hevent
  exact consulted_of_mem hreach (List.mem_of_mem_filter hevent)

theorem settled_stands {i : Nat} {row : ApprovalRequest}
    (hrow : lastConsulted i c.state.history = some row) (hsettled : row.status ≠ .pending) :
    c.state.world.approvals.get row.id = some row := by
  obtain ⟨event, hevent, hconsulted⟩ := List.exists_of_findSome?_eq_some hrow
  obtain ⟨newer, older, hsplit⟩ := List.append_of_mem (List.mem_of_mem_filter hevent)
  obtain ⟨c₁, next, after, hperformed⟩ := hreach.performed rfl hsplit
  obtain ⟨choice, hexec⟩ := hperformed.exec
  have hstored := get_of_consulted hexec hconsulted
  exact (evolves_of_reaches hperformed.later).approvals.settled hstored hsettled

end Runs

theorem connected_after_consulting {deps : GatewayDeps} {world : World} {c : GateConfig}
    (hreach : (machine deps).Reaches connectedWhenApproved (Config.initial world) c) {i : Nat}
    {upstream : String} {items : Items} {row : ApprovalRequest}
    (hsuffix : ⟨.connectionGet upstream, false⟩ :: items <:+ journal i c.state.history)
    (hrow : items.findSome? sight = some row) : False := by
  obtain ⟨newer, entry, before, older, c₁, next, after, -, hjournal, hfound⟩ :=
    hreach.performed_item rfl hsuffix
  obtain ⟨choice, hexec⟩ := hfound.exec
  have hassumed := hfound.assumed
  rw [hfound.state] at hassumed
  have hmissing : decide (upstream ∈ before.connections) = false :=
    (Prod.mk.inj (Option.some.inj hexec)).1
  have hlast : lastConsulted i older = some row := by
    have heq := lastConsulted_eq hfound.reached i
    rw [hfound.state] at heq
    rw [heq, hjournal]
    exact hrow
  simp [connectedWhenApproved, hlast, hmissing] at hassumed

/-- As long as no call finds its upstream missing after an approval, every audit event names
the row its invocation opened or consulted, and the approver it found there; once settled,
that row still stands when the event is recorded. The row of the event is in the table. -/
theorem approver_attributed {deps : GatewayDeps} {world : World} {c : GateConfig}
    (hreach : (machine deps).Reaches connectedWhenApproved (Config.initial world) c)
    {newer older : List GateEvent} {i : Nat} {invocation : Invocation} {polls : Nat}
    {event : AuditEvent} {before : World}
    (hsplit : c.state.history =
      newer ++ ⟨i, .callTool invocation polls, .recordAudit event, (), before⟩ :: older)
    {row : ApprovalRequest} (hrow : lastConsulted i older = some row) :
    event.approvalId = some row.id ∧ event.approver = row.approver ∧
      (row.status ≠ .pending → before.approvals.get row.id = some row) ∧
      (∀ earlier ∈ older, earlier.task = i →
        ∀ row', consulted earlier.op earlier.before = some row' → row'.id = row.id) ∧
      OnFile c.state event := by
  have hrecord : ⟨i, .callTool invocation polls, .recordAudit event, (), before⟩ ∈
      c.state.history := by
    rw [hsplit]
    exact List.mem_append_cons_self
  have hfile := onFile_of_reaches hreach (mem_filings hrecord rfl)
  obtain ⟨c₁, next, after, hperformed⟩ := hreach.performed rfl hsplit
  have hstate := hperformed.state
  have hreached := hperformed.reached
  have hhistory : c₁.state.history = older := congrArg State.history hstate
  obtain ⟨eventId, ended, rest, hitems, hcloses⟩ := before_of_event hreach hsplit
  have hsight : rest.findSome? sight = some row := by
    rw [← hhistory, lastConsulted_eq hreached, hhistory, hitems] at hrow
    exact hrow
  have hconnected : ∀ upstream rest', rest ≠ ⟨.connectionGet upstream, false⟩ :: rest' := by
    rintro upstream rest' rfl
    have hsuffix : ⟨.connectionGet upstream, false⟩ :: rest' <:+
        journal i c₁.state.history := by
      rw [hhistory, hitems]
      exact List.suffix_append [_, _, _] _
    exact connected_after_consulting hreached hsuffix hsight
  obtain ⟨hid, happrover, id, habout⟩ := closing_attributed hcloses hsight hconnected
  have hown : ∀ earlier ∈ older, earlier.task = i →
      ∀ row', consulted earlier.op earlier.before = some row' → row'.id = id := by
    intro earlier hearlier htask row' hrow'
    have hmem : ⟨earlier.op, earlier.res⟩ ∈ journal i older :=
      mem_journal.mpr ⟨earlier, hearlier, htask, rfl⟩
    rw [hitems] at hmem
    have hall := ((habout.cons rfl _).cons rfl _).cons rfl _ _ hmem
    rw [subject_of_consulted hrow'] at hall
    simpa using hall
  refine ⟨hid, happrover, fun hsettled => ?_, fun earlier hearlier htask row' hrow' => ?_, hfile⟩
  · have hstands := settled_stands hreached (by rw [hhistory]; exact hrow) hsettled
    rwa [hstate] at hstands
  · obtain ⟨last, hlast, hconsulted⟩ := List.exists_of_findSome?_eq_some hrow
    have hlast := List.mem_filter.mp hlast
    rw [hown earlier hearlier htask row' hrow',
      hown last hlast.1 (by simpa using hlast.2) row hconsulted]

def forwardedConfig : GateConfig :=
  ((machine deps).run connectedWhenApproved (Config.initial office)
    (opening ++ approving 1 ++ .start (.callTool retry 0) :: acts 2 6 ++ [serves 2] ++
      acts 2 4)).get (by decide)

theorem approver_attributed_forwarded :
    ∃ (event : AuditEvent) (row : ApprovalRequest), event.outcome = .forwarded ∧
      row.approver = some "kim" ∧
      event.approvalId = some row.id ∧ event.approver = row.approver ∧
        OnFile forwardedConfig.state event := by
  have hreach : (machine deps).Reaches connectedWhenApproved (Config.initial office)
      forwardedConfig := Machine.reaches_get _
  have hsplit : forwardedConfig.state.history =
      [] ++ ⟨2, .callTool retry 0, .recordAudit _, (), _⟩ :: _ := rfl
  have hrow : lastConsulted 2 forwardedConfig.state.history.tail = some _ := rfl
  obtain ⟨hid, happrover, -, -, hfile⟩ := approver_attributed hreach hsplit hrow
  exact ⟨_, _, rfl, rfl, hid, happrover, hfile⟩

/-- The upstream goes away between the approval and the call. -/
def strandedConfig : GateConfig :=
  ((machine deps).run .none (Config.initial office)
    (opening ++ approving 1 ++ .start (.callTool retry 0) :: acts 2 5 ++
      [.env (.disconnect "fs")] ++ acts 2 5)).get (by decide)

theorem approver_dropped :
    ∃ (event : AuditEvent) (before : World) (older : List GateEvent) (row : ApprovalRequest),
      strandedConfig.state.history =
        ⟨2, .callTool retry 0, .recordAudit event, (), before⟩ :: older ∧
      lastConsulted 2 older = some row ∧ row.id = "a" ∧ row.approver = some "kim" ∧
      event.outcome = .error ∧ event.approvalId = none ∧ event.approver = none :=
  ⟨_, _, _, _, rfl, rfl, rfl, rfl, rfl, rfl, rfl⟩

end McpGatekeeper.Attribution
