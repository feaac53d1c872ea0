import McpGatekeeper.Narrative
import McpGatekeeper.Scenarios

namespace McpGatekeeper.Outcomes

open Interleaving
open McpGatekeeper.Approvals
open McpGatekeeper.Audit
open McpGatekeeper.Filing
open McpGatekeeper.GateContract
open McpGatekeeper.Gateway
open McpGatekeeper.Narrative
open McpGatekeeper.Operations
open McpGatekeeper.Registry
open McpGatekeeper.Scenarios
open McpGatekeeper.System

/-- What the upstreams answered the calls of an invocation, latest first. -/
def calls (i : Nat) (history : List GateEvent) : List (Except String CallToolResult) :=
  upstreamAnswers (journal i history)

/-- The invocation looked for the connection of an upstream that had none. -/
def FoundMissing (i : Nat) (upstream : String) (history : List GateEvent) : Prop :=
  ∃ event ∈ history, event.task = i ∧ event.op = .connectionGet upstream ∧
    upstream ∉ event.before.connections

/-- The event agrees with the answers of the upstream, and with its absence. -/
structure Truthful (event : AuditEvent) (answers : List (Except String CallToolResult))
    (missing : Prop) : Prop where
  forwarded : event.outcome = .forwarded ↔ ∃ result, answers = [.ok result]
  status : ∀ result, answers = [.ok result] →
    (event.resultStatus = some .error ↔ result.isError = true)
  error : event.outcome = .error ↔ missing ∨ ∃ error, answers = [.error error]
  uncalled : event.outcome ≠ .forwarded → event.outcome ≠ .error → answers = []

theorem Truthful.of_uncalled {event : AuditEvent} {missing : Prop}
    (hforwarded : event.outcome ≠ .forwarded) (herror : event.outcome ≠ .error)
    (hmissing : ¬missing) : Truthful event [] missing where
  forwarded := iff_of_false hforwarded (by simp)
  status _ h := by cases h
  error := iff_of_false herror (by simp [hmissing])
  uncalled _ _ := rfl

def contacts : Op → Bool
  | .connectionGet _ => true
  | .callTool _ _ _ => true
  | _ => false

def Uncontacted (items : Items) : Prop :=
  ∀ item ∈ items, contacts item.1 = false

theorem Uncontacted.unanswered {items : Items} (h : Uncontacted items) :
    upstreamAnswers items = [] := by
  apply List.filterMap_eq_nil_iff.mpr
  rintro ⟨op, answer⟩ hitem
  have hop := h _ hitem
  cases op <;> first | rfl | cases hop

theorem Uncontacted.not_mem {items : Items} (h : Uncontacted items) (upstream : String)
    (connected : Bool) : ⟨.connectionGet upstream, connected⟩ ∉ items := by
  intro hitem
  cases h _ hitem

theorem uncontacted_of_concern {id : String} {items : Items} (h : Concern id items) :
    Uncontacted items := by
  rintro ⟨op, answer⟩ hitem
  have hop := h _ hitem
  cases op <;> first | rfl | cases hop

theorem Uncontacted.cons {items : Items} (h : Uncontacted items) (op : Op) (answer : Res op)
    (hop : contacts op = false) : Uncontacted (⟨op, answer⟩ :: items) := by
  rw [Uncontacted, List.forall_mem_cons]
  exact ⟨hop, h⟩

section Closing

variable {deps : GatewayDeps} {invocation : Invocation} {items : Items} {event : AuditEvent}

theorem uncontacted_of_admitted {tool : NamespacedTool} {approval : Option ApprovalRequest}
    (h : Admitted invocation tool approval items) : Uncontacted items := by
  cases h with
  | byPolicy started =>
      exact uncontacted_of_concern (found_concern "" (some tool) started)
  | byApproval id approval outcome items hlearned hgranted =>
      exact (uncontacted_of_concern hlearned.concern).cons _ _ rfl

theorem Uncontacted.truthful (h : Uncontacted items) (hforwarded : event.outcome ≠ .forwarded)
    (herror : event.outcome ≠ .error) :
    Truthful event (upstreamAnswers items) (⟨.connectionGet event.upstream, false⟩ ∈ items) := by
  rw [h.unanswered]
  exact .of_uncalled hforwarded herror (h.not_mem _ _)

theorem refused_outcome {id : String} {approval : ApprovalRequest} {outcome : Option Outcome}
    (h : Origin invocation id approval items outcome) :
    outcome.getD (if approval.status = .expired then .timedOut else .deniedByApprover) =
        .dismissedByClient ∨
      outcome.getD (if approval.status = .expired then .timedOut else .deniedByApprover) =
        .timedOut ∨
      outcome.getD (if approval.status = .expired then .timedOut else .deniedByApprover) =
        .deniedByApprover := by
  cases h with
  | read | timeout =>
      right
      rw [Option.getD_none]
      split
      · exact .inl rfl
      · exact .inr rfl
  | dismissal | vanished => exact .inl rfl

theorem closing_truthful (h : Closing deps invocation items event) :
    Truthful event (upstreamAnswers items) (⟨.connectionGet event.upstream, false⟩ ∈ items) := by
  cases h with
  | unknownTool started upstream event hfiles =>
      obtain ⟨now, eventId, latency, rfl⟩ := hfiles
      have huncontacted : Uncontacted (found invocation none started) :=
        uncontacted_of_concern (found_concern "" none started)
      apply huncontacted.truthful <;> simp [AuditEvent.build]
  | denied tool started event hfiles =>
      obtain ⟨now, eventId, latency, rfl⟩ := hfiles
      have huncontacted : Uncontacted (found invocation (some tool) started) :=
        uncontacted_of_concern (found_concern "" (some tool) started)
      apply huncontacted.truthful <;> simp [AuditEvent.build]
  | awaiting tool request items event hconcern hsight hundecided hfiles =>
      obtain ⟨now, eventId, latency, rfl⟩ := hfiles
      apply (uncontacted_of_concern hconcern).truthful <;> simp [AuditEvent.build]
  | refused tool id approval outcome items event hlearned hrefused hfiles =>
      obtain ⟨now, eventId, latency, rfl⟩ := hfiles
      have huncontacted := (uncontacted_of_concern hlearned.concern).cons
        (.takeRefused approval) () rfl
      rcases refused_outcome hlearned.origin with houtcome | houtcome | houtcome <;>
        apply huncontacted.truthful <;> simp [AuditEvent.build, houtcome]
  | unavailable tool approval items error event hadmitted hfiles =>
      obtain ⟨now, eventId, latency, rfl⟩ := hfiles
      have hnone := (uncontacted_of_admitted hadmitted).unanswered
      change Truthful _ (upstreamAnswers items) _
      rw [hnone]
      refine ⟨by simp [AuditEvent.build], by simp, ?_, fun _ _ => rfl⟩
      exact iff_of_true rfl (.inl List.mem_cons_self)
  | failed tool approval items error event hadmitted hfiles =>
      obtain ⟨now, eventId, latency, rfl⟩ := hfiles
      have hnone := (uncontacted_of_admitted hadmitted).unanswered
      change Truthful _ (.error error :: upstreamAnswers items) _
      rw [hnone]
      refine ⟨by simp [AuditEvent.build], by simp, ?_, ?_⟩
      · exact iff_of_true rfl (.inr ⟨error, rfl⟩)
      · exact fun _ herror => absurd rfl herror
  | forwarded tool approval items result event hadmitted hfiles =>
      obtain ⟨now, eventId, latency, rfl⟩ := hfiles
      have huncontacted := uncontacted_of_admitted hadmitted
      change Truthful _ (.ok result :: upstreamAnswers items) _
      rw [huncontacted.unanswered]
      refine ⟨iff_of_true rfl ⟨result, rfl⟩, ?_, ?_, fun hforwarded => absurd rfl hforwarded⟩
      · rintro _ ⟨⟩
        cases result.isError <;> simp [AuditEvent.build]
      · refine iff_of_false (by simp [AuditEvent.build]) ?_
        simp [huncontacted.not_mem]

end Closing

section Runs

variable {deps : GatewayDeps} {A : GateAssumption} {world : World} {c : GateConfig}
  (hreach : (machine deps).Reaches A (Config.initial world) c)
include hreach

theorem foundMissing_iff (i : Nat) (upstream : String) :
    FoundMissing i upstream c.state.history ↔
      ⟨.connectionGet upstream, false⟩ ∈ journal i c.state.history := by
  have hanswer : ∀ event ∈ c.state.history, event.op = .connectionGet upstream →
      (upstream ∉ event.before.connections ↔
        (⟨event.op, event.res⟩ : Item) = ⟨.connectionGet upstream, false⟩) := by
    intro event hevent hop
    obtain ⟨newer, older, hsplit⟩ := List.append_of_mem hevent
    obtain ⟨c₁, next, after, hperformed⟩ := hreach.performed rfl hsplit
    obtain ⟨choice, hexec⟩ := hperformed.exec
    obtain ⟨task, entry, op, answer, before⟩ := event
    subst hop
    have hdecided : some (decide (upstream ∈ before.connections), before) =
        some (answer, after) := hexec
    obtain ⟨rfl, -⟩ := Prod.mk.inj (Option.some.inj hdecided)
    simp
  rw [mem_journal]
  constructor
  · rintro ⟨event, hevent, htask, hop, hmissing⟩
    exact ⟨event, hevent, htask, (hanswer event hevent hop).mp hmissing⟩
  · rintro ⟨event, hevent, htask, hitem⟩
    have hop : event.op = .connectionGet upstream := congrArg Sigma.fst hitem
    exact ⟨event, hevent, htask, hop, (hanswer event hevent hop).mpr hitem⟩

theorem uncontacted_after {newer older : List GateEvent} {i : Nat} {invocation : Invocation}
    {polls : Nat} {event : AuditEvent} {before : World}
    (hsplit : c.state.history =
      newer ++ ⟨i, .callTool invocation polls, .recordAudit event, (), before⟩ :: older) :
    Uncontacted (journal i newer) := by
  intro item hitem
  obtain ⟨later, hlater, htask, rfl⟩ := mem_journal.mp hitem
  have hrecord : ⟨i, .callTool invocation polls, .recordAudit event, (), before⟩ ∈
      c.state.history := by
    rw [hsplit]
    exact List.mem_append_cons_self
  have hentry : later.entry = .callTool invocation polls :=
    hreach.entry_unique (by rw [hsplit]; exact List.mem_append_left _ hlater) hrecord htask
  obtain ⟨first, last, rfl⟩ := List.append_of_mem hlater
  obtain ⟨task, entry, op, answer, before'⟩ := later
  obtain rfl : task = i := htask
  obtain rfl : entry = .callTool invocation polls := hentry
  rw [List.append_assoc, List.cons_append] at hsplit
  have hbefore := before_of_event hreach hsplit
  have hrecorded : recordedEvents (journal task (last ++
      ⟨task, .callTool invocation polls, .recordAudit event, (), before⟩ :: older)) ≠ [] := by
    simp [journal_append, journal_cons_self, recordedEvents, recordedEvent]
  cases op with
  | connectionGet upstream => exact absurd hbefore hrecorded
  | callTool upstream remoteName arguments => exact absurd hbefore.2 hrecorded
  | _ => rfl

/-- Whatever an invocation records, in every reachable state its outcome and its status
tell what came of the upstream, and its row is in the table. -/
theorem outcome_truthful {i : Nat} {invocation : Invocation} {polls : Nat}
    {event : AuditEvent} {before : World}
    (hevent : ⟨i, .callTool invocation polls, .recordAudit event, (), before⟩ ∈
      c.state.history) :
    Truthful event (calls i c.state.history)
      (FoundMissing i event.upstream c.state.history) ∧ OnFile c.state event := by
  refine ⟨?_, onFile_of_reaches hreach (mem_filings hevent rfl)⟩
  obtain ⟨newer, older, hsplit⟩ := List.append_of_mem hevent
  obtain ⟨eventId, ended, rest, hitems, hcloses⟩ := before_of_event hreach hsplit
  have hafter := uncontacted_after hreach hsplit
  have hjournal : journal i c.state.history = journal i newer ++
      ⟨.recordAudit event, ()⟩ :: ⟨.now, event.createdAt⟩ :: ⟨.perfCounter, ended⟩ ::
        ⟨.uuid4, eventId⟩ :: rest := by
    rw [hsplit, journal_append, journal_cons_self, hitems]
  have hcalls : calls i c.state.history = upstreamAnswers rest := by
    rw [calls, hjournal, upstreamAnswers, List.filterMap_append]
    have hnone := hafter.unanswered
    rw [upstreamAnswers] at hnone
    rw [hnone]
    rfl
  have hmissing : FoundMissing i event.upstream c.state.history ↔
      ⟨.connectionGet event.upstream, false⟩ ∈ rest := by
    rw [foundMissing_iff hreach, hjournal]
    simp [hafter.not_mem]
  rw [hcalls]
  have htruthful := closing_truthful hcloses
  exact ⟨htruthful.forwarded, htruthful.status, by rw [hmissing]; exact htruthful.error,
    htruthful.uncalled⟩

end Runs

def answered : GateConfig :=
  ((machine deps).run .none (Config.initial office)
    (opening ++ approving 1 ++ .start (.callTool retry 0) :: acts 2 6 ++ [serves 2] ++
      acts 2 4)).get (by decide)

theorem outcome_truthful_answered :
    ∃ event : AuditEvent, event.outcome = .forwarded ∧
      Truthful event (calls 2 answered.state.history)
        (FoundMissing 2 event.upstream answered.state.history) ∧
          OnFile answered.state event := by
  have hreach : (machine deps).Reaches .none (Config.initial office) answered :=
    Machine.reaches_get _
  have hevent : ⟨2, .callTool retry 0, .recordAudit _, (), _⟩ ∈ answered.state.history :=
    List.mem_of_getElem? (i := 0) rfl
  exact ⟨_, rfl, outcome_truthful hreach hevent⟩

end McpGatekeeper.Outcomes
