import McpGatekeeper.Filing
import McpGatekeeper.GatewayRules
import McpGatekeeper.Interleaving.Journal

namespace McpGatekeeper.Narrative

open Interleaving
open McpGatekeeper.Approvals
open McpGatekeeper.Audit
open McpGatekeeper.Clock
open McpGatekeeper.Conduct
open McpGatekeeper.Filing
open McpGatekeeper.GateContract
open McpGatekeeper.Gateway
open McpGatekeeper.GatewayRules
open McpGatekeeper.JsonValues
open McpGatekeeper.Operations
open McpGatekeeper.PolicyEngine
open McpGatekeeper.Registry
open McpGatekeeper.Service
open McpGatekeeper.System

abbrev Items := Journal Res

abbrev Item := (op : Op) × Res op

def upstreamAnswer : Item → Option (Except String CallToolResult)
  | ⟨.callTool _ _ _, answer⟩ => some answer
  | _ => none

def upstreamAnswers (items : Items) : List (Except String CallToolResult) :=
  items.filterMap upstreamAnswer

def recordedEvent : Item → Option AuditEvent
  | ⟨.recordAudit event, _⟩ => some event
  | _ => none

def recordedEvents (items : Items) : List AuditEvent :=
  items.filterMap recordedEvent

theorem recordedEvent_eq (item : Item) : recordedEvent item = filed item.1 := by
  obtain ⟨op, answer⟩ := item
  cases op <;> rfl

theorem filed_of_recorded {i : Nat} {history : List GateEvent} {event : AuditEvent}
    (h : event ∈ recordedEvents (journal i history)) : event ∈ filings history := by
  obtain ⟨item, hitem, hrecorded⟩ := List.mem_filterMap.mp h
  obtain ⟨own, hown, -, rfl⟩ := mem_journal.mp hitem
  rw [recordedEvent_eq] at hrecorded
  exact mem_filings hown hrecorded

/-- The row of an approval, as the operation leaves it to the task that performs it. -/
def sight : Item → Option ApprovalRequest
  | ⟨.createApproval request, true⟩ => some (ApprovalsTable.newRow request)
  | ⟨.getApproval _, answer⟩ => answer
  | ⟨.resolveApproval _ _ _ _ _, answer⟩ => answer
  | _ => none

def subject : Op → Option String
  | .createApproval request => some request.id
  | .getApproval id => some id
  | .resolveApproval id _ _ _ _ => some id
  | _ => none

/-- The operations on the way to a decision on one approval. -/
def concerns (id : String) : Op → Bool
  | .connectionGet _ => false
  | .callTool _ _ _ => false
  | .recordAudit _ => false
  | .takeGranted _ => false
  | .takeRefused _ => false
  | op => (subject op).all (· == id)

/-- Nothing but such operations has been performed. -/
def Concern (id : String) (items : Items) : Prop :=
  ∀ item ∈ items, concerns id item.1 = true

theorem Concern.cons {id : String} {items : Items} (h : Concern id items) (op : Op)
    (answer : Res op) (hop : concerns id op = true) : Concern id (⟨op, answer⟩ :: items) := by
  rw [Concern, List.forall_mem_cons]
  exact ⟨hop, h⟩

theorem Concern.upstreamAnswers {id : String} {items : Items} (h : Concern id items) :
    upstreamAnswers items = [] := by
  apply List.filterMap_eq_nil_iff.mpr
  rintro ⟨op, answer⟩ hitem
  have hop := h _ hitem
  cases op <;> first | rfl | cases hop

theorem Concern.recordedEvents {id : String} {items : Items} (h : Concern id items) :
    recordedEvents items = [] := by
  apply List.filterMap_eq_nil_iff.mpr
  rintro ⟨op, answer⟩ hitem
  have hop := h _ hitem
  cases op <;> first | rfl | cases hop

section Story

variable (deps : GatewayDeps) (invocation : Invocation)

/-- The operation that gave the invocation the approval it acts on, and the outcome it is
to be filed under if that is not left to the row. -/
inductive Origin (id : String) (approval : ApprovalRequest) (items : Items) :
    Option Outcome → Prop
  | read (earlier : Items) (hread : ⟨.getApproval id, some approval⟩ :: earlier <:+ items)
      -- Only a holder whose sweep came too early reads a pending row to the end.
      (hsettled : approval.status ≠ .pending ∨ invocation.resumes = none ∧
        ∃ moment count rest, earlier = ⟨.expireOverdue moment, count⟩ :: rest) :
      Origin id approval items none
  | timeout (decidedAt : DateTime) (note : Option String) (earlier : Items)
      (hresolve : ⟨.resolveApproval id true decidedAt timeoutApprover note, some approval⟩ ::
        earlier <:+ items) :
      Origin id approval items none
  | dismissal (decidedAt : DateTime) (note : Option String) (earlier : Items)
      (hresolve : ⟨.resolveApproval id false decidedAt clientApprover note, some approval⟩ ::
        earlier <:+ items) :
      Origin id approval items (some .dismissedByClient)
  | vanished (decidedAt : DateTime) (note : Option String) (earlier : Items)
      (hresolve : ⟨.resolveApproval id false decidedAt clientApprover note, none⟩ ::
        earlier <:+ items)
      (hread : ⟨.getApproval id, some approval⟩ ∈ earlier) :
      Origin id approval items (some .dismissedByClient)

structure Learned (id : String) (approval : ApprovalRequest) (outcome : Option Outcome)
    (items : Items) : Prop where
  concern : Concern id items
  sight : items.findSome? sight = some approval
  origin : Origin invocation id approval items outcome

def found (tool : Option NamespacedTool) (started : Int) : Items :=
  [⟨.registryGet invocation.name, tool⟩, ⟨.perfCounter, started⟩]

/-- The call may be forwarded, by policy or on the strength of an approval. -/
inductive Admitted (tool : NamespacedTool) : Option ApprovalRequest → Items → Prop
  | byPolicy (started : Int) : Admitted tool none (found invocation (some tool) started)
  | byApproval (id : String) (approval : ApprovalRequest) (outcome : Option Outcome)
      (items : Items) (hlearned : Learned invocation id approval outcome items)
      (hgranted : approval.status = .approved) :
      Admitted tool (some approval) (⟨.takeGranted approval, ()⟩ :: items)

/-- The ways to an audit event. -/
inductive Closing : Items → AuditEvent → Prop
  | unknownTool (started : Int) (upstream : String) (event : AuditEvent)
      (hfiles : Files deps invocation upstream
        { action := .deny, source := .default, reason := some "tool is not registered" }
        .unknownTool (some .error) none none event) :
      Closing (found invocation none started) event
  | denied (tool : NamespacedTool) (started : Int) (event : AuditEvent)
      (hfiles : Files deps invocation tool.upstream (decision deps invocation tool)
        .deniedByPolicy (some .error) none none event) :
      Closing (found invocation (some tool) started) event
  | awaiting (tool : NamespacedTool) (request : ApprovalRequest) (items : Items)
      (event : AuditEvent) (hconcern : Concern request.id items)
      (hsight : items.findSome? sight = some (ApprovalsTable.newRow request))
      (hundecided : request.approver = none)
      (hfiles : Files deps invocation tool.upstream (decision deps invocation tool)
        .awaitingApproval none (some request) none event) :
      Closing items event
  | unavailable (tool : NamespacedTool) (approval : Option ApprovalRequest) (items : Items)
      (error : String) (event : AuditEvent) (hadmitted : Admitted invocation tool approval items)
      (hfiles : Files deps invocation tool.upstream
        { action := .deny, source := (decision deps invocation tool).source
          reason := some "upstream unavailable" }
        .error (some .error) none (some error) event) :
      Closing (⟨.connectionGet tool.upstream, false⟩ :: items) event
  | failed (tool : NamespacedTool) (approval : Option ApprovalRequest) (items : Items)
      (error : String) (event : AuditEvent) (hadmitted : Admitted invocation tool approval items)
      (hfiles : Files deps invocation tool.upstream (decision deps invocation tool)
        .error (some .error) approval (some error) event) :
      Closing (⟨.callTool tool.upstream tool.remoteName invocation.args, .error error⟩ ::
        ⟨.connectionGet tool.upstream, true⟩ :: items) event
  | forwarded (tool : NamespacedTool) (approval : Option ApprovalRequest) (items : Items)
      (result : CallToolResult) (event : AuditEvent)
      (hadmitted : Admitted invocation tool approval items)
      (hfiles : Files deps invocation tool.upstream (decision deps invocation tool)
        .forwarded (some (if result.isError then .error else .ok)) approval none event) :
      Closing (⟨.callTool tool.upstream tool.remoteName invocation.args, .ok result⟩ ::
        ⟨.connectionGet tool.upstream, true⟩ :: items) event
  | refused (tool : NamespacedTool) (id : String) (approval : ApprovalRequest)
      (outcome : Option Outcome) (items : Items) (event : AuditEvent)
      (hlearned : Learned invocation id approval outcome items)
      (hrefused : approval.status ≠ .approved)
      (hfiles : Files deps invocation tool.upstream (decision deps invocation tool)
        (outcome.getD
          (if approval.status = .expired then .timedOut else .deniedByApprover))
        (some .error) (some approval) none event) :
      Closing (⟨.takeRefused approval, ()⟩ :: items) event

/-- What an invocation has done before it performs an operation.  Between the reading of
the clock and the audit insert it performs none. -/
def Before (items : Items) : Op → Prop
  | .connectionGet _ => recordedEvents items = []
  | .callTool _ _ _ => upstreamAnswers items = [] ∧ recordedEvents items = []
  | .recordAudit event => ∃ eventId ended rest,
      items = ⟨.now, event.createdAt⟩ :: ⟨.perfCounter, ended⟩ :: ⟨.uuid4, eventId⟩ :: rest ∧
        Closing deps invocation rest event
  | _ => True

/-- Nothing of the program's own ends an invocation that has called its upstream. -/
def Failed (_halt : Halt) (items : Items) : Prop :=
  upstreamAnswers items = []

/-- An invocation that returns has recorded its call, or has called nobody. -/
def Returned {α : Type} (_value : α) (items : Items) : Prop :=
  upstreamAnswers items = [] ∨ ∃ event ∈ recordedEvents items,
    event.tool = invocation.name ∧
      event.arguments = redactArguments invocation.args deps.redact

end Story

section Service

variable {deps : GatewayDeps} {invocation : Invocation} {id : String} {items : Items}

/-- A row has been read and nothing newer has been seen of it. -/
structure HasRead (id : String) (approval : ApprovalRequest) (items : Items) : Prop where
  concern : Concern id items
  sight : items.findSome? sight = some approval
  read : ∃ earlier, ⟨.getApproval id, some approval⟩ :: earlier <:+ items

theorem HasRead.learned {approval : ApprovalRequest} (h : HasRead id approval items)
    (hsettled : approval.status ≠ .pending) : Learned invocation id approval none items := by
  obtain ⟨earlier, hread⟩ := h.read
  exact ⟨h.concern, h.sight, .read earlier hread (.inl hsettled)⟩

theorem sweep_tells :
    (SqliteApprovalStore.expireOverdue none).Narrates (Before deps invocation) Failed
      (fun count items' => ∃ moment,
        items' = ⟨.expireOverdue moment, count⟩ :: ⟨.now, moment⟩ :: items) items :=
  ⟨trivial, fun moment => ⟨trivial, fun _ => ⟨moment, rfl⟩⟩⟩

theorem read_tells (h : Concern id items) :
    (SqliteApprovalStore.get id).Narrates (Before deps invocation) Failed
      (fun answer items' => Concern id items' ∧ items' = ⟨.getApproval id, answer⟩ :: items ∧
        ∀ approval, answer = some approval → HasRead id approval items') items := by
  refine ⟨trivial, fun answer => ?_⟩
  have hconcern := h.cons (.getApproval id) answer (by simp [concerns, subject])
  refine ⟨hconcern, rfl, ?_⟩
  rintro approval rfl
  exact ⟨hconcern, rfl, items, List.suffix_refl _⟩

theorem get_tells (h : Concern id items) :
    (ApprovalService.get id).Narrates (Before deps invocation) Failed
      (fun answer items' => Concern id items' ∧
        ∀ approval, answer = some approval → HasRead id approval items') items := by
  apply Program.Narrates.bind (read_tells h)
  rintro (_ | request) items₁ ⟨hconcern, rfl, hread⟩
  · exact ⟨hconcern, fun _ h => by cases h⟩
  · refine ⟨trivial, fun now => ?_⟩
    have hconcern' := hconcern.cons .now now rfl
    change Program.Narrates _ _ _ (if _ then _ else _) _
    split
    · apply Program.Narrates.bind sweep_tells
      rintro count items₂ ⟨moment, rfl⟩
      refine Program.Narrates.mono ?_ (read_tells ((hconcern'.cons .now moment rfl).cons (.expireOverdue moment) count rfl))
      exact fun answer items' h => ⟨h.1, h.2.2⟩
    · refine ⟨hconcern', ?_⟩
      rintro approval ⟨⟩
      exact ⟨hconcern', rfl, items, List.suffix_cons _ _⟩

theorem dismiss_tells {settled : ApprovalRequest} {note : Option String}
    (h : HasRead id settled items) :
    (ApprovalService.dismiss id note).Narrates (Before deps invocation) Failed
      (fun dismissed items' => ∃ approval, dismissed.or (some settled) = some approval ∧
        Learned invocation id approval (some .dismissedByClient) items') items := by
  refine ⟨trivial, fun decidedAt => ⟨trivial, fun answer => ⟨trivial, fun _ => ?_⟩⟩⟩
  have hconcern := ((h.concern.cons .now decidedAt rfl).cons
    (.resolveApproval id false decidedAt clientApprover note) answer
    (by simp [concerns, subject])).cons (.popEvent id) () rfl
  rcases answer with _ | approval
  · obtain ⟨earlier, hread⟩ := h.read
    refine ⟨settled, rfl, hconcern, h.sight, .vanished decidedAt note _ (List.suffix_cons _ _) ?_⟩
    exact List.mem_cons_of_mem _ (hread.subset List.mem_cons_self)
  · exact ⟨approval, rfl, hconcern, rfl, .dismissal decidedAt note _ (List.suffix_cons _ _)⟩

theorem openApproval_tells (h : ∀ id, Concern id items) {tool upstream : String}
    {arguments : JsonObject} {reason clientName : Option String} :
    (deps.approvals.openApproval tool upstream arguments reason clientName).Narrates
      (Before deps invocation) Failed
      (fun request items' => Concern request.id items' ∧ request.approver = none ∧
        items'.findSome? sight = some (ApprovalsTable.newRow request)) items := by
  refine ⟨trivial, fun now => ⟨trivial, fun id => ?_⟩⟩
  have hnamed := ((h id).cons .now now rfl).cons .newApprovalId id rfl
  dsimp only [Program.bind]
  split
  · exact hnamed.upstreamAnswers
  · refine ⟨trivial, fun created => ?_⟩
    have hcreated := hnamed.cons (.createApproval _) created (by simp [concerns, subject])
    rcases created with _ | _
    · exact hcreated.upstreamAnswers
    · exact ⟨trivial, fun _ => ⟨hcreated.cons (.newEvent id) () rfl, rfl, rfl⟩⟩

variable (hresumes : invocation.resumes = none)
include hresumes

theorem settleTimeout_tells (h : Concern id items) :
    (deps.approvals.settleTimeout id).Narrates (Before deps invocation) Failed
      (fun answer items' => Concern id items' ∧ ∀ approval, answer = some approval →
        Learned invocation id approval none items') items := by
  refine ⟨trivial, fun _ => ?_⟩
  have hpopped := h.cons (.popEvent id) () rfl
  change Program.Narrates _ _ _ (if _ then _ else _) _
  split
  · refine ⟨trivial, fun decidedAt => ⟨trivial, fun answer => ?_⟩⟩
    have hconcern := (hpopped.cons .now decidedAt rfl).cons
      (.resolveApproval id true decidedAt timeoutApprover (some "auto-approved on timeout"))
      answer (by simp [concerns, subject])
    refine ⟨hconcern, ?_⟩
    rintro approval rfl
    exact ⟨hconcern, rfl, .timeout decidedAt _ _ (List.suffix_refl _)⟩
  · apply Program.Narrates.bind sweep_tells
    rintro count items₁ ⟨moment, rfl⟩
    refine Program.Narrates.mono ?_ (read_tells ((hpopped.cons .now moment rfl).cons (.expireOverdue moment) count rfl))
    rintro answer items' ⟨hconcern, rfl, hread⟩
    refine ⟨hconcern, ?_⟩
    rintro approval rfl
    exact ⟨hconcern, rfl, .read _ (List.suffix_refl _)
      (.inr ⟨hresumes, moment, count, _, rfl⟩)⟩

theorem waitLoop_tells (deadline : DateTime) (polls : Nat) (h : Concern id items) :
    (deps.approvals.waitLoop id deadline polls).Narrates (Before deps invocation) Failed
      (fun answer items' => Concern id items' ∧ ∀ approval, answer = some approval →
        Learned invocation id approval none items') items := by
  induction polls generalizing items with
  | zero => exact h.upstreamAnswers
  | succ polls ih =>
      refine ⟨trivial, fun now => ?_⟩
      have hnow := h.cons .now now rfl
      change Program.Narrates _ _ _ (if _ then _ else _) _
      split
      · exact settleTimeout_tells hresumes hnow
      · refine ⟨trivial, fun _ => ?_⟩
        apply Program.Narrates.bind (read_tells (hnow.cons (.awaitEvent id) () rfl))
        rintro (_ | current) items₁ ⟨hconcern, -, hread⟩
        · exact ⟨hconcern, fun _ h => by cases h⟩
        · change Program.Narrates _ _ _ (if _ then _ else _) _
          split
          · rename_i hresolved
            refine ⟨trivial, fun _ => ⟨hconcern.cons (.popEvent id) () rfl, ?_⟩⟩
            rintro approval ⟨⟩
            have hsettled : current.status ≠ .pending := by
              simpa [ApprovalStatus.isResolved] using hresolved
            obtain ⟨hconcern, hsight, earlier, hsuffix⟩ := hread current rfl
            exact ⟨hconcern.cons (.popEvent id) () rfl, hsight,
              .read earlier (hsuffix.trans (List.suffix_cons _ _)) (.inl hsettled)⟩
          · exact ih hconcern

theorem wait_tells (polls : Nat) (h : Concern id items) :
    (deps.approvals.wait polls id).Narrates (Before deps invocation) Failed
      (fun answer items' => Concern id items' ∧ ∀ approval, answer = some approval →
        Learned invocation id approval none items') items := by
  apply Program.Narrates.bind (read_tells h)
  rintro (_ | request) items₁ ⟨hconcern, -, hread⟩
  · exact ⟨hconcern, fun _ h => by cases h⟩
  · change Program.Narrates _ _ _ (if _ then _ else _) _
    split
    · rename_i hresolved
      refine ⟨hconcern, ?_⟩
      rintro approval ⟨⟩
      exact (hread request rfl).learned (by simpa [ApprovalStatus.isResolved] using hresolved)
    · exact ⟨trivial, fun _ => waitLoop_tells hresumes _ polls (hconcern.cons (.ensureEvent id) () rfl)⟩

end Service

section Gateway

variable {deps : GatewayDeps} {invocation : Invocation} {id : String} {items : Items}
  {tool : NamespacedTool} {started : Int}

theorem found_concern (id : String) (tool : Option NamespacedTool) (started : Int) :
    Concern id (found invocation tool started) := by
  have hstarted : Concern id [⟨.perfCounter, started⟩] := by
    intro item hitem
    rw [List.mem_singleton.mp hitem]
    rfl
  exact hstarted.cons (.registryGet invocation.name) tool rfl

theorem Admitted.unanswered {approval : Option ApprovalRequest}
    (h : Admitted invocation tool approval items) :
    upstreamAnswers items = [] ∧ recordedEvents items = [] := by
  cases h with
  | byPolicy started => exact ⟨rfl, rfl⟩
  | byApproval id approval outcome items hlearned hgranted =>
      exact ⟨hlearned.concern.upstreamAnswers, hlearned.concern.recordedEvents⟩

theorem Returned.later {α β : Type} {value : α} (h : Returned deps invocation value items)
    {item : Item} (hanswer : upstreamAnswer item = none) (value' : β) :
    Returned deps invocation value' (item :: items) := by
  rcases h with hnone | ⟨event, hevent, hcall⟩
  · left
    simpa [upstreamAnswers, hanswer] using hnone
  · refine .inr ⟨event, ?_, hcall⟩
    obtain ⟨record, hmem, hrecord⟩ := List.mem_filterMap.mp hevent
    exact List.mem_filterMap.mpr ⟨record, List.mem_cons_of_mem _ hmem, hrecord⟩

theorem record_tells {upstream : String} {decision : Decision} {outcome : Outcome}
    {resultStatus : Option ResultStatus} {approval : Option ApprovalRequest}
    {error : Option String}
    (hcloses : ∀ event,
      Files deps invocation upstream decision outcome resultStatus approval error event →
        Closing deps invocation items event) :
    (record deps invocation.name upstream invocation.args decision outcome
      invocation.clientName started resultStatus approval error).Narrates
        (Before deps invocation) Failed (Returned deps invocation) items := by
  refine ⟨trivial, fun eventId => ⟨trivial, fun ended => ⟨trivial, fun now => ⟨?_, ?_⟩⟩⟩⟩
  · exact ⟨eventId, ended, items, rfl, hcloses _ ⟨now, eventId, ended - started, rfl⟩⟩
  · exact fun _ => .inr ⟨_, List.mem_cons_self, rfl, rfl⟩

theorem unknownTool_tells :
    (unknownTool deps invocation.name invocation.args invocation.clientName started).Narrates
      (Before deps invocation) Failed (Returned deps invocation)
      (found invocation none started) := by
  apply Program.Narrates.bind (record_tells fun event hfiles => .unknownTool started _ event hfiles)
  exact fun _ items' h => ⟨trivial, fun names => h.later rfl _⟩

theorem forward_tells {approval : Option ApprovalRequest}
    (h : Admitted invocation tool approval items) :
    (forward deps (gated deps invocation tool started) approval).Narrates
      (Before deps invocation) Failed (Returned deps invocation) items := by
  refine ⟨h.unanswered.2, ?_⟩
  rintro (_ | _)
  · apply Program.Narrates.bind (record_tells fun event hfiles =>
      .unavailable tool approval items _ event h hfiles)
    exact fun _ items' h => h
  · refine ⟨h.unanswered, ?_⟩
    rintro (error | result)
    · apply Program.Narrates.bind (record_tells fun event hfiles =>
        .failed tool approval items error event h hfiles)
      exact fun _ items' h => h
    · apply Program.Narrates.bind (record_tells fun event hfiles =>
        .forwarded tool approval items result event h hfiles)
      exact fun _ items' h => h

theorem deny_tells :
    (deny deps (gated deps invocation tool started)).Narrates (Before deps invocation) Failed
      (Returned deps invocation) (found invocation (some tool) started) := by
  apply Program.Narrates.bind
    (record_tells fun event hfiles => .denied tool started event hfiles)
  exact fun _ items' h => h

theorem applyApproval_tells {approval : Option ApprovalRequest} {outcome : Option Outcome}
    {message : Option String} (hconcern : Concern id items)
    (hlearned : ∀ settled, approval = some settled →
      Learned invocation id settled outcome items) :
    (applyApproval deps (gated deps invocation tool started) approval outcome message).Narrates
      (Before deps invocation) Failed (Returned deps invocation) items := by
  rcases approval with _ | approval
  · exact .inl hconcern.upstreamAnswers
  · have hlearned := hlearned approval rfl
    change Program.Narrates _ _ _ (if approval.status.isGranted then _ else _) _
    split
    · rename_i hgranted
      have happroved : approval.status = .approved := by
        simpa [ApprovalStatus.isGranted] using hgranted
      exact ⟨trivial, fun _ =>
        forward_tells (.byApproval id approval outcome items hlearned happroved)⟩
    · rename_i hrefused
      have hunapproved : approval.status ≠ .approved := by
        simpa [ApprovalStatus.isGranted] using hrefused
      refine ⟨trivial, fun _ => ?_⟩
      apply Program.Narrates.bind (record_tells fun event hfiles =>
        .refused tool id approval outcome items event hlearned hunapproved hfiles)
      exact fun _ items' h => h

theorem requireApproval_tells (hconcern : ∀ id, Concern id items)
    (hresumes : invocation.resumes = none) (supportsUrlElicitation : Bool) (polls : Nat) :
    (requireApproval deps (gated deps invocation tool started) supportsUrlElicitation
      polls).Narrates (Before deps invocation) Failed (Returned deps invocation) items := by
  apply Program.Narrates.bind (openApproval_tells hconcern)
  rintro request items₁ ⟨hconcern₁, hundecided, hsight⟩
  change Program.Narrates _ _ _ (if _ then _ else _) _
  split
  · apply Program.Narrates.bind (record_tells fun event hfiles =>
      .awaiting tool request items₁ event hconcern₁ hsight hundecided hfiles)
    exact fun _ items' h => h
  · apply Program.Narrates.bind (wait_tells hresumes polls hconcern₁)
    rintro settled items₂ ⟨hconcern₂, hlearned⟩
    apply Program.Narrates.bind (applyApproval_tells hconcern₂ hlearned)
    exact fun _ items' h => h

theorem resume_tells (hconcern : Concern id items) :
    (resume deps (gated deps invocation tool started) id).Narrates (Before deps invocation)
      Failed (Returned deps invocation) items := by
  apply Program.Narrates.bind (get_tells hconcern)
  rintro (_ | settled) items₁ ⟨hconcern₁, hread⟩
  · exact .inl hconcern₁.upstreamAnswers
  · have hread := hread settled rfl
    change Program.Narrates _ _ _ (if _ then _ else _) _
    split
    · rename_i hresolved
      apply applyApproval_tells hconcern₁
      rintro approval ⟨⟩
      exact hread.learned (by simpa [ApprovalStatus.isResolved] using hresolved)
    · apply Program.Narrates.bind (dismiss_tells hread)
      rintro dismissed items₂ ⟨approval, hdismissed, hlearned⟩
      rw [hdismissed]
      apply applyApproval_tells hlearned.concern
      rintro _ ⟨⟩
      exact hlearned

theorem callTool_tells (polls : Nat) :
    (callTool deps invocation polls).Narrates (Before deps invocation) Failed
      (Returned deps invocation) [] := by
  refine ⟨trivial, fun started => ⟨trivial, ?_⟩⟩
  rintro (_ | tool)
  · apply Program.Narrates.bind unknownTool_tells
    exact fun _ items' h => h
  · dsimp only [Program.bind]
    split
    · rename_i id hresumes
      apply Program.Narrates.bind (resume_tells (found_concern id (some tool) started))
      exact fun _ items' h => h
    · rename_i hresumes
      split
      · apply Program.Narrates.bind (forward_tells (.byPolicy started))
        exact fun _ items' h => h
      · apply Program.Narrates.bind deny_tells
        exact fun _ items' h => h
      · exact requireApproval_tells (fun id => found_concern id (some tool) started)
          hresumes _ _

end Gateway

def BeforeOf (deps : GatewayDeps) : Entry → Items → Op → Prop
  | .callTool invocation _ => Before deps invocation
  | _ => fun _ _ => True

def FailedOf : Entry → Halt → Items → Prop
  | .callTool _ _ => Failed
  | _ => fun _ _ => True

def ReturnedOf (deps : GatewayDeps) : Entry → Reply → Items → Prop
  | .callTool invocation _ => Returned deps invocation
  | _ => fun _ _ => True

theorem code_tells (deps : GatewayDeps) (entry : Entry) :
    (code deps entry).Narrates (BeforeOf deps entry) (FailedOf entry)
      (ReturnedOf deps entry) [] := by
  cases entry with
  | callTool invocation polls =>
      apply Program.Narrates.bind (callTool_tells polls)
      exact fun _ items h => h
  | listTools | openApproval | decide | dismiss | get | wait | pending | expireOverdue =>
      exact Program.narrates_of_forall (fun _ _ => trivial) (fun _ _ => trivial) _ _

abbrev GateVisit := Visit World Choice Env Entry Res Halt Reply

theorem before_of_event {deps : GatewayDeps} {A : GateAssumption} {world : World}
    {c : GateConfig} (hreach : (machine deps).Reaches A (Config.initial world) c)
    {newer older : List GateEvent} {i : Nat} {invocation : Invocation} {polls : Nat} {op : Op}
    {answer : Res op} {before : World}
    (hsplit : c.state.history =
      newer ++ ⟨i, .callTool invocation polls, op, answer, before⟩ :: older) :
    Before deps invocation (journal i older) op :=
  hreach.before_event (code_tells deps) hsplit

end McpGatekeeper.Narrative
