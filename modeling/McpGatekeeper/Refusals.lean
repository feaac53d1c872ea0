import McpGatekeeper.Narrative
import McpGatekeeper.Provenance
import McpGatekeeper.Scenarios

namespace McpGatekeeper.Refusals

open Interleaving
open McpGatekeeper.Approvals
open McpGatekeeper.Audit
open McpGatekeeper.Conduct
open McpGatekeeper.Filing
open McpGatekeeper.GateContract
open McpGatekeeper.Gateway
open McpGatekeeper.Narrative
open McpGatekeeper.Operations
open McpGatekeeper.Provenance
open McpGatekeeper.Scenarios
open McpGatekeeper.System

structure Attributes (outcome : Outcome) (cause : Option Cause) : Prop where
  denied : outcome = .deniedByApprover ↔ ∃ approver, cause = some (.decision false approver)
  timedOut : outcome = .timedOut ↔ cause = some .deadline
  dismissed : outcome = .dismissedByClient ↔ cause = some .dismissal

/-- The last thing the task did was to sweep. -/
def swept (i : Nat) (history : List GateEvent) : Bool :=
  match (journal i history).head? with
  | some ⟨.expireOverdue _, _⟩ => true
  | _ => false

/-- No call reads a request that a client dismissed, or settles it at its own timeout; none
that holds on to its request still reads it pending after its own sweep; and no retry
dismisses a request that was refused in another way. -/
def attributable : GateAssumption where
  act i entry op s :=
    match entry, op with
    | .callTool invocation _, .getApproval id =>
        settlement id s.history != some .dismissal &&
          !(invocation.resumes.isNone && swept i s.history &&
            (s.world.approvals.get id).any (·.status == .pending))
    | .callTool _ _, .resolveApproval id true _ _ _ =>
        settlement id s.history != some .dismissal
    | .callTool _ _, .resolveApproval id false _ _ _ =>
        settlement id s.history == some .dismissal ||
          (s.world.approvals.get id).all fun row =>
            row.status == .pending || row.status == .approved
    | _, _ => true
  env _ _ := true

section Closing

variable {deps : GatewayDeps} {invocation : Invocation} {items : Items} {event : AuditEvent}
  {approval : ApprovalRequest}

theorem unrefused_of_concern {id : String} (h : Concern id items) :
    ⟨.takeRefused approval, ()⟩ ∉ items := by
  intro hitem
  cases h _ hitem

theorem unrefused_of_admitted {tool : Registry.NamespacedTool}
    {granted : Option ApprovalRequest} (h : Admitted invocation tool granted items) :
    ⟨.takeRefused approval, ()⟩ ∉ items := by
  cases h with
  | byPolicy started => exact unrefused_of_concern (found_concern "" (some tool) started)
  | byApproval id granted outcome items hlearned hgranted =>
      have hnone : ⟨.takeRefused approval, ()⟩ ∉ items := unrefused_of_concern hlearned.concern
      simpa using hnone

theorem closing_refused (h : Closing deps invocation items event)
    (hrefused : ⟨.takeRefused approval, ()⟩ ∈ items) :
    ∃ id outcome items', items = ⟨.takeRefused approval, ()⟩ :: items' ∧
      Learned invocation id approval outcome items' ∧ approval.status ≠ .approved ∧
      event.outcome =
        outcome.getD (if approval.status = .expired then .timedOut else .deniedByApprover) := by
  cases h with
  | unknownTool started upstream event hfiles =>
      exact absurd hrefused (unrefused_of_concern (found_concern "" none started))
  | denied tool started event hfiles =>
      exact absurd hrefused (unrefused_of_concern (found_concern "" (some tool) started))
  | awaiting tool request items event hconcern hsight hundecided hfiles =>
      exact absurd hrefused (unrefused_of_concern hconcern)
  | unavailable tool granted items error event hadmitted hfiles =>
      have hnone : ⟨.takeRefused approval, ()⟩ ∉ items := unrefused_of_admitted hadmitted
      simp [hnone] at hrefused
  | failed tool granted items error event hadmitted hfiles =>
      have hnone : ⟨.takeRefused approval, ()⟩ ∉ items := unrefused_of_admitted hadmitted
      simp [hnone] at hrefused
  | forwarded tool granted items result event hadmitted hfiles =>
      have hnone : ⟨.takeRefused approval, ()⟩ ∉ items := unrefused_of_admitted hadmitted
      simp [hnone] at hrefused
  | refused tool id settled outcome items event hlearned hunapproved hfiles =>
      obtain ⟨now, eventId, latency, rfl⟩ := hfiles
      rcases List.mem_cons.mp hrefused with heq | hmem
      · cases heq
        exact ⟨id, outcome, items, rfl, hlearned, hunapproved, rfl⟩
      · exact absurd hmem (unrefused_of_concern hlearned.concern)

end Closing

theorem attributes_of_fits {approval : ApprovalRequest} {cause : Cause}
    (hfits : Fits (some approval) (some cause)) (hrefused : approval.status ≠ .approved)
    (hcause : cause ≠ .dismissal) :
    Attributes (if approval.status = .expired then .timedOut else .deniedByApprover)
      (some cause) := by
  cases hfits with
  | decided _ approved approver hstatus happrover =>
      cases approved with
      | true => exact absurd hstatus hrefused
      | false =>
          rw [hstatus]
          constructor <;> simp
  | lapsed _ hstatus happrover =>
      have hexpired : approval.status = .expired := hstatus.resolve_right hrefused
      rw [hexpired]
      constructor <;> simp
  | dismissed => exact absurd rfl hcause

theorem resolve_refused {table : ApprovalsTable} {id : String} {approved : Bool}
    {decidedAt : Clock.DateTime} {approver : String} {note : Option String}
    {approval : ApprovalRequest}
    (h : (table.resolve id approved decidedAt approver note).2.get id = some approval)
    (hrefused : approval.status ≠ .approved) :
    table.get id = some approval ∧ approval.status ≠ .pending ∨
      approved = false ∧ ∃ row, table.get id = some row ∧ row.status = .pending ∧
        approval.status = .denied := by
  rw [ApprovalsTable.get_resolve] at h
  obtain ⟨row, hrow, rfl⟩ := Option.map_eq_some_iff.mp h
  have hid := ApprovalsTable.id_of_get hrow
  rcases eq_or_ne row.status .pending with hpending | hsettled
  · right
    simp only [ApprovalsTable.settle, hid, hpending, and_self, if_true] at hrefused ⊢
    cases approved with
    | true => exact absurd rfl hrefused
    | false => exact ⟨rfl, row, hrow, hpending, rfl⟩
  · left
    rw [ApprovalsTable.settle_of_ne fun hboth => hsettled hboth.2]
    exact ⟨hrow, hsettled⟩

section Runs

variable {deps : GatewayDeps} {world : World}
  (hundecided : ∀ id row, world.approvals.get id = some row →
    row.status = .pending ∧ row.approver = none)
  {c : GateConfig} (hreach : (machine deps).Reaches attributable (Config.initial world) c)
include hundecided hreach

theorem found_settled {event : GateEvent} {older : List GateEvent} {c₁ : GateConfig}
    {next : Res event.op → Prog Reply} {after : World}
    (hperformed : Performed (machine deps) attributable (Config.initial world) c event older
      c₁ next after)
    (holder : older ⊆ c.state.history) {id : String} {row : ApprovalRequest}
    (hrow : event.before.approvals.get id = some row) (hsettled : row.status ≠ .pending) :
    ∃ cause, settlement id older = some cause ∧ settlement id c.state.history = some cause ∧
      Fits (some row) (some cause) := by
  have hstate := hperformed.state
  have hstands := settlement_stands hundecided hreach hperformed.reached
    (by rw [hstate]; exact holder) (by rw [hstate]; exact hrow) hsettled
  rwa [hstate] at hstands

section Own

variable {i : Nat} {invocation : Invocation} {polls : Nat}
  (howner : ∀ event ∈ c.state.history, event.task = i →
    event.entry = .callTool invocation polls)
include howner

omit hundecided in
theorem own_performed {op : Op} {answer : Res op} {earlier : Items}
    (hsuffix : ⟨op, answer⟩ :: earlier <:+ journal i c.state.history) :
    ∃ before older c₁ next after,
      journal i older = earlier ∧ older ⊆ c.state.history ∧
      ⟨i, .callTool invocation polls, op, answer, before⟩ ∈ c.state.history ∧
      Performed (machine deps) attributable (Config.initial world) c
        ⟨i, .callTool invocation polls, op, answer, before⟩ older c₁ next after := by
  obtain ⟨newer, entry, before, older, c₁, next, after, hsplit, hjournal, hperformed⟩ :=
    hreach.performed_item rfl hsuffix
  have hevent : ⟨i, entry, op, answer, before⟩ ∈ c.state.history := by
    rw [hsplit]
    exact List.mem_append_cons_self
  obtain rfl : entry = _ := howner _ hevent rfl
  refine ⟨before, older, c₁, next, after, hjournal, ?_, hevent, hperformed⟩
  rw [hsplit]
  exact fun event hmem => List.mem_append_right _ (List.mem_cons_of_mem _ hmem)

variable {id : String} {approval : ApprovalRequest} {earlier : Items}

theorem read_attributes
    (hread : ⟨.getApproval id, some approval⟩ :: earlier <:+ journal i c.state.history)
    (hsettled : approval.status ≠ .pending ∨ invocation.resumes = none ∧
      ∃ moment count rest, earlier = ⟨.expireOverdue moment, count⟩ :: rest)
    (hrefused : approval.status ≠ .approved) :
    ∃ cause, settlement approval.id c.state.history = some cause ∧
      Attributes (if approval.status = .expired then .timedOut else .deniedByApprover)
        (some cause) := by
  obtain ⟨before, older, c₁, next, after, hjournal, holder, -, hperformed⟩ :=
    own_performed hreach howner hread
  obtain ⟨choice, hexec⟩ := hperformed.exec
  have hrow : before.approvals.get id = some approval :=
    (Prod.mk.inj (Option.some.inj hexec)).1
  obtain rfl := ApprovalsTable.id_of_get hrow
  have hassumed := hperformed.assumed
  rw [hperformed.state] at hassumed
  simp only [attributable, Bool.and_eq_true, bne_iff_ne, ne_eq, Bool.not_eq_true',
    hrow, Option.any_some] at hassumed
  have hpending : approval.status ≠ .pending := by
    rcases hsettled with hsettled | ⟨hresumes, moment, count, rest, rfl⟩
    · exact hsettled
    · intro hpending
      simp [hresumes, swept, hjournal, hpending] at hassumed
  obtain ⟨cause, hthen, hnow, hfits⟩ :=
    found_settled hundecided hreach hperformed holder hrow hpending
  refine ⟨cause, hnow, attributes_of_fits hfits hrefused ?_⟩
  rintro rfl
  exact hassumed.1 hthen

theorem timeout_attributes {decidedAt : Clock.DateTime} {note : Option String}
    (hresolve : ⟨.resolveApproval id true decidedAt timeoutApprover note, some approval⟩ ::
      earlier <:+ journal i c.state.history)
    (hrefused : approval.status ≠ .approved) :
    ∃ cause, settlement approval.id c.state.history = some cause ∧
      Attributes (if approval.status = .expired then .timedOut else .deniedByApprover)
        (some cause) := by
  obtain ⟨before, older, c₁, next, after, -, holder, -, hperformed⟩ :=
    own_performed hreach howner hresolve
  obtain ⟨choice, hexec⟩ := hperformed.exec
  have hanswer := (Prod.mk.inj (Option.some.inj hexec)).1
  rw [ApprovalsTable.resolve_answer] at hanswer
  rcases resolve_refused hanswer hrefused with ⟨hrow, hsettled⟩ | ⟨hfalse, -⟩
  · obtain rfl := ApprovalsTable.id_of_get hrow
    have hassumed := hperformed.assumed
    rw [hperformed.state] at hassumed
    obtain ⟨cause, hthen, hnow, hfits⟩ :=
      found_settled hundecided hreach hperformed holder hrow hsettled
    refine ⟨cause, hnow, attributes_of_fits hfits hrefused ?_⟩
    rintro rfl
    simp [attributable, hthen] at hassumed
  · cases hfalse

theorem dismissal_settles {decidedAt : Clock.DateTime} {note : Option String}
    (hresolve : ⟨.resolveApproval id false decidedAt clientApprover note, some approval⟩ ::
      earlier <:+ journal i c.state.history)
    (hrefused : approval.status ≠ .approved) :
    settlement approval.id c.state.history = some .dismissal := by
  obtain ⟨before, older, c₁, next, after, -, holder, hevent, hperformed⟩ :=
    own_performed hreach howner hresolve
  obtain ⟨choice, hexec⟩ := hperformed.exec
  have hanswer := (Prod.mk.inj (Option.some.inj hexec)).1
  rw [ApprovalsTable.resolve_answer] at hanswer
  obtain rfl := ApprovalsTable.id_of_get hanswer
  rcases resolve_refused hanswer hrefused with ⟨hrow, hsettled⟩ | ⟨-, row, hrow, hpending,
    hdenied⟩
  · have hassumed := hperformed.assumed
    rw [hperformed.state] at hassumed
    obtain ⟨cause, hthen, hnow, -⟩ :=
      found_settled hundecided hreach hperformed holder hrow hsettled
    have hrow : before.approvals.get approval.id = some approval := hrow
    simp only [attributable, hthen, hrow, Option.all_some, Bool.or_eq_true, beq_iff_eq,
      hsettled, hrefused, or_self, or_false] at hassumed
    rw [hnow, hassumed]
  · have hallowed := ((conduct_good hperformed.reached).pre hperformed.task
      hperformed.assumed).2
    have hsettled : approval.status ≠ .pending := by simp [hdenied]
    have hexplained := explained_of_reaches hundecided hreach
    refine hexplained.unique _ _ hevent _ ?_
    rw [settledBy_of_settled hrow hpending hanswer hsettled]
    cases hallowed with
    | retry _ _ _ _ hresumes => simp [cause, hresumes]

omit hundecided in
theorem not_vanished {decidedAt : Clock.DateTime} {note : Option String}
    (hresolve : ⟨.resolveApproval id false decidedAt clientApprover note, none⟩ :: earlier <:+
      journal i c.state.history)
    (hread : ⟨.getApproval id, some approval⟩ ∈ earlier) : False := by
  obtain ⟨before, older, c₁, next, after, hjournal, -, -, hperformed⟩ :=
    own_performed hreach howner hresolve
  obtain ⟨choice, hexec⟩ := hperformed.exec
  have hanswer := (Prod.mk.inj (Option.some.inj hexec)).1
  rw [ApprovalsTable.resolve_answer, ApprovalsTable.get_resolve] at hanswer
  have hnone : before.approvals.get id = none := Option.map_eq_none_iff.mp hanswer
  have hstate := hperformed.state
  have hmem : ⟨.getApproval id, some approval⟩ ∈ journal i c₁.state.history := by
    rw [hstate, hjournal]
    exact hread
  obtain ⟨first, last, hsplit⟩ := List.append_of_mem hmem
  obtain ⟨newer', entry', before', older', c₂, next', after', -, -, hearlier⟩ :=
    hperformed.reached.performed_item rfl ⟨first, hsplit.symm⟩
  obtain ⟨choice', hexec'⟩ := hearlier.exec
  obtain ⟨hrow, hsame⟩ := Prod.mk.inj (Option.some.inj hexec')
  obtain ⟨row, hrow', -⟩ := (evolves_of_reaches hearlier.later).approvals id approval
    (by rw [State.push_world, ← hsame]; exact hrow)
  rw [hstate] at hrow'
  cases hnone.symm.trans hrow'

theorem learned_attributes {items : Items} (hitems : items <:+ journal i c.state.history)
    {outcome : Option Outcome} (hlearned : Learned invocation id approval outcome items)
    (hrefused : approval.status ≠ .approved) :
    ∃ cause, settlement approval.id c.state.history = some cause ∧
      Attributes
        (outcome.getD (if approval.status = .expired then .timedOut else .deniedByApprover))
        (some cause) := by
  cases hlearned.origin with
  | read earlier hread hsettled =>
      exact read_attributes hundecided hreach howner (hread.trans hitems) hsettled hrefused
  | timeout decidedAt note earlier hresolve =>
      exact timeout_attributes hundecided hreach howner (hresolve.trans hitems) hrefused
  | dismissal decidedAt note earlier hresolve =>
      have hdismissed : Attributes .dismissedByClient (some .dismissal) := by
        constructor <;> simp
      exact ⟨.dismissal,
        dismissal_settles hundecided hreach howner (hresolve.trans hitems) hrefused, hdismissed⟩
  | vanished decidedAt note earlier hresolve hread =>
      exact (not_vanished hreach howner (hresolve.trans hitems) hread).elim

end Own

/-- The outcome of a refused call says how its request was settled, in every run that is
attributable throughout, and the row that says so is in the table. -/
theorem refusal_attributed {newer older : List GateEvent} {i : Nat} {invocation : Invocation}
    {polls : Nat} {event : AuditEvent} {before taken : World} {approval : ApprovalRequest}
    (hsplit : c.state.history =
      newer ++ ⟨i, .callTool invocation polls, .recordAudit event, (), before⟩ :: older)
    (hrefused : ⟨i, .callTool invocation polls, .takeRefused approval, (), taken⟩ ∈ older) :
    Attributes event.outcome (settlement approval.id c.state.history) ∧
      OnFile c.state event := by
  have hrecord : ⟨i, .callTool invocation polls, .recordAudit event, (), before⟩ ∈
      c.state.history := by
    rw [hsplit]
    exact List.mem_append_cons_self
  refine ⟨?_, onFile_of_reaches hreach (mem_filings hrecord rfl)⟩
  obtain ⟨eventId, ended, rest, hitems, hcloses⟩ := before_of_event hreach hsplit
  have hmem : ⟨.takeRefused approval, ()⟩ ∈ journal i older :=
    mem_journal.mpr ⟨_, hrefused, rfl, rfl⟩
  rw [hitems] at hmem
  obtain ⟨id, outcome, items, rfl, hlearned, hunapproved, houtcome⟩ :=
    closing_refused hcloses (by simpa using hmem)
  have hsuffix : items <:+ journal i c.state.history := by
    rw [hsplit, journal_append, journal_cons_self, hitems]
    refine List.IsSuffix.trans ?_ (List.suffix_append _ _)
    exact List.suffix_append [_, _, _, _, _] _
  have howner : ∀ event ∈ c.state.history, event.task = i →
      event.entry = .callTool invocation polls := by
    intro own hown htask
    exact hreach.entry_unique hown hrecord htask
  obtain ⟨cause, hcause, hattributes⟩ :=
    learned_attributes hundecided hreach howner hsuffix hlearned hunapproved
  rw [houtcome, hcause]
  exact hattributes

end Runs

/-- A human denies the request `a`, and its client retries. -/
def deniedConfig : GateConfig :=
  ((machine deps).run attributable (Config.initial office)
    (opening ++ denying 1 ++ .start (.callTool retry 0) :: acts 2 9)).get (by decide)

theorem refusal_attributed_denied :
    ∃ event : AuditEvent, event.outcome = .deniedByApprover ∧
      Attributes event.outcome (settlement "a" deniedConfig.state.history) ∧
        OnFile deniedConfig.state event := by
  have hreach : (machine deps).Reaches attributable (Config.initial office) deniedConfig :=
    Machine.reaches_get _
  have hsplit : deniedConfig.state.history =
      [] ++ ⟨2, .callTool retry 0, .recordAudit _, (), _⟩ :: _ := rfl
  have hrefused : ⟨2, .callTool retry 0, .takeRefused _, (), _⟩ ∈
      deniedConfig.state.history.tail := List.mem_of_getElem? (i := 3) rfl
  exact ⟨_, rfl, refusal_attributed (by intro id row h; cases h) hreach hsplit hrefused⟩

/-- A client retries with no decision on file, and retries once more. -/
def retriedTwice : List GateLabel :=
  opening ++ .start (.callTool retry 0) :: acts 1 12 ++ .start (.callTool retry 0) :: acts 2 9

/-- A human denies the request between a retry's reading it and dismissing it. -/
def overtaken : List GateLabel :=
  opening ++ .start (.callTool retry 0) :: acts 1 4 ++ denying 2 ++ acts 1 8

theorem refusal_misattributed :
    (∃ (c : GateConfig) (event : AuditEvent) (before : World) (older : List GateEvent),
      (machine deps).run .none (Config.initial office) retriedTwice = some c ∧
      c.state.history = ⟨2, .callTool retry 0, .recordAudit event, (), before⟩ :: older ∧
      event.outcome = .deniedByApprover ∧
      settlement "a" c.state.history = some .dismissal) ∧
    ∃ (c : GateConfig) (event : AuditEvent) (before : World) (older : List GateEvent),
      (machine deps).run .none (Config.initial office) overtaken = some c ∧
      c.state.history = ⟨1, .callTool retry 0, .recordAudit event, (), before⟩ :: older ∧
      event.outcome = .dismissedByClient ∧
      settlement "a" c.state.history = some (.decision false "kim") :=
  ⟨⟨_, _, _, _, rfl, rfl, rfl, rfl⟩, ⟨_, _, _, _, rfl, rfl, rfl, rfl⟩⟩

end McpGatekeeper.Refusals
