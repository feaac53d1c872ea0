import McpGatekeeper.Narrative
import McpGatekeeper.Scenarios

namespace McpGatekeeper.Replies

open Interleaving
open McpGatekeeper.Approvals
open McpGatekeeper.Audit
open McpGatekeeper.Clock
open McpGatekeeper.Conduct
open McpGatekeeper.Filing
open McpGatekeeper.Gateway
open McpGatekeeper.JsonValues
open McpGatekeeper.Narrative
open McpGatekeeper.Operations
open McpGatekeeper.PolicyEngine
open McpGatekeeper.Registry
open McpGatekeeper.Scenarios
open McpGatekeeper.Service
open McpGatekeeper.System

section Replies

variable (deps : GatewayDeps) (invocation : Invocation)

/-- The reply to a call, by what the call has done. -/
inductive Agrees (items : Items) : CallReply → Prop
  | forwarded (result : CallToolResult) (event : AuditEvent)
      (hanswers : upstreamAnswers items = [.ok result]) (hevents : recordedEvents items = [event])
      (houtcome : event.outcome = .forwarded)
      (hstatus : event.resultStatus = some (if result.isError then .error else .ok)) :
      Agrees items (.result result)
  | failed (error : String) (event : AuditEvent)
      (hanswers : upstreamAnswers items = [.error error])
      (hevents : recordedEvents items = [event]) (houtcome : event.outcome = .error)
      (hstatus : event.resultStatus = some .error) (herror : event.error = some error) :
      Agrees items (.result (textResult error true))
  | blocked (message : String) (event : AuditEvent) (hanswers : upstreamAnswers items = [])
      (hevents : recordedEvents items = [event]) (houtcome : event.outcome ≠ .forwarded)
      (hstatus : event.resultStatus = some .error) :
      Agrees items (.result (textResult message true))
  | asked (message : String) (request : ApprovalRequest) (event : AuditEvent)
      (hanswers : upstreamAnswers items = []) (hevents : recordedEvents items = [event])
      (houtcome : event.outcome = .awaitingApproval) (hstatus : event.resultStatus = none)
      (hid : event.approvalId = some request.id)
      (hopened : ⟨.createApproval request, true⟩ ∈ items)
      (htool : request.tool = invocation.name)
      (harguments : request.arguments = invocation.args)
      (helicits : useElicitation deps invocation.supportsUrlElicitation = true) :
      Agrees items (.inputRequired
        { inputRequests := [(approvalInputKey,
            { message := message, url := approvalUrl deps request.id })]
          requestState := request.id })
  /-- The approval was gone when it was looked up. -/
  | lost (message : String) (hanswers : upstreamAnswers items = [])
      (hevents : recordedEvents items = []) :
      Agrees items (.result (textResult message true))

end Replies

/-- The operations that neither call an upstream nor record an event. -/
def quiet : Op → Bool
  | .callTool _ _ _ => false
  | .recordAudit _ => false
  | _ => true

structure Silent (items : Items) : Prop where
  answers : upstreamAnswers items = []
  events : recordedEvents items = []

theorem Silent.cons {items : Items} (h : Silent items) (op : Op) (answer : Res op)
    (hop : quiet op = true) : Silent (⟨op, answer⟩ :: items) := by
  obtain ⟨hanswers, hevents⟩ := h
  cases op with
  | callTool | recordAudit => cases hop
  | _ => exact ⟨hanswers, hevents⟩

theorem quiet_of_isCommon (op : Op) (h : isCommon op = true) : quiet op = true := by
  cases op with
  | callTool | recordAudit => cases h
  | _ => rfl

abbrev Tells {α : Type} (p : Prog α) (returned : α → Items → Prop) (items : Items) : Prop :=
  p.Narrates (fun _ _ => True) (fun _ _ => True) returned items

section Code

variable {deps : GatewayDeps} {invocation : Invocation} {items : Items}

theorem silent_tells {α : Type} {p : Prog α} (hp : p.Only fun op => quiet op = true)
    (h : Silent items) : Tells p (fun _ items' => Silent items') items :=
  Program.Only.narrates (fun _ _ _ => trivial) (fun _ _ _ => trivial)
    (fun _ op answer hop hitems => hitems.cons op answer hop) hp h

/-- What `_record` leaves. -/
structure Filed (outcome : Outcome) (resultStatus : Option ResultStatus)
    (approval : Option ApprovalRequest) (error : Option String) (items items' : Items)
    (event : AuditEvent) : Prop where
  outcome : event.outcome = outcome
  status : event.resultStatus = resultStatus
  approval : event.approvalId = approval.map (·.id)
  error : event.error = error
  events : recordedEvents items' = event :: recordedEvents items
  answers : upstreamAnswers items' = upstreamAnswers items
  kept : items <:+ items'

theorem record_tells (tool upstream : String) (arguments : JsonObject) (decision : Decision)
    (outcome : Outcome) (clientName : Option String) (started : Int)
    (resultStatus : Option ResultStatus) (approval : Option ApprovalRequest)
    (error : Option String) :
    Tells (record deps tool upstream arguments decision outcome clientName started resultStatus
        approval error)
      (fun _ items' => ∃ event, Filed outcome resultStatus approval error items items' event)
      items := by
  refine ⟨trivial, fun eventId => ⟨trivial, fun ended => ⟨trivial, fun now => ⟨trivial, ?_⟩⟩⟩⟩
  exact fun _ => ⟨_, rfl, rfl, rfl, rfl, rfl, rfl, ⟨[_, _, _, _], rfl⟩⟩

theorem forward_tells (h : Silent items) (call : Call) (approval : Option ApprovalRequest) :
    Tells (forward deps call approval)
      (fun result items' => Agrees deps invocation items' (.result result)) items := by
  refine ⟨trivial, ?_⟩
  rintro (_ | _)
  · have hsilent := h.cons (.connectionGet call.entry.upstream) false rfl
    apply Program.Narrates.bind (record_tells _ _ _ _ _ _ _ _ _ _)
    rintro _ items' ⟨event, hfiled⟩
    refine .blocked _ event ?_ ?_ ?_ hfiled.status
    · rw [hfiled.answers, hsilent.answers]
    · rw [hfiled.events, hsilent.events]
    · rw [hfiled.outcome]
      decide
  · have hsilent := h.cons (.connectionGet call.entry.upstream) true rfl
    refine ⟨trivial, ?_⟩
    rintro (error | result)
    · apply Program.Narrates.bind (record_tells _ _ _ _ _ _ _ _ _ _)
      rintro _ items' ⟨event, hfiled⟩
      refine .failed error event ?_ ?_ hfiled.outcome hfiled.status hfiled.error
      · rw [hfiled.answers]
        exact congrArg (_ :: ·) hsilent.answers
      · rw [hfiled.events]
        exact congrArg (_ :: ·) hsilent.events
    · apply Program.Narrates.bind (record_tells _ _ _ _ _ _ _ _ _ _)
      rintro _ items' ⟨event, hfiled⟩
      refine .forwarded result event ?_ ?_ hfiled.outcome hfiled.status
      · rw [hfiled.answers]
        exact congrArg (_ :: ·) hsilent.answers
      · rw [hfiled.events]
        exact congrArg (_ :: ·) hsilent.events

theorem applyApproval_tells (h : Silent items) (call : Call)
    (approval : Option ApprovalRequest) (outcome : Option Outcome)
    (houtcome : outcome = none ∨ outcome = some .dismissedByClient) (message : Option String) :
    Tells (applyApproval deps call approval outcome message)
      (fun result items' => Agrees deps invocation items' (.result result)) items := by
  rcases approval with _ | approval
  · exact .lost _ h.answers h.events
  · change Tells (if approval.status.isGranted then _ else _) _ _
    split
    · refine ⟨trivial, fun _ => ?_⟩
      exact forward_tells (h.cons (.takeGranted approval) () rfl) call (some approval)
    · refine ⟨trivial, fun _ => ?_⟩
      have hsilent := h.cons (.takeRefused approval) () rfl
      apply Program.Narrates.bind (record_tells _ _ _ _ _ _ _ _ _ _)
      rintro _ items' ⟨event, hfiled⟩
      refine .blocked _ event ?_ ?_ ?_ hfiled.status
      · rw [hfiled.answers, hsilent.answers]
      · rw [hfiled.events, hsilent.events]
      · rw [hfiled.outcome]
        rcases houtcome with rfl | rfl
        · rw [Option.getD_none]
          split <;> decide
        · simp

theorem unknownTool_tells (h : Silent items) (started : Int) :
    Tells (unknownTool deps invocation.name invocation.args invocation.clientName started)
      (fun result items' => Agrees deps invocation items' (.result result)) items := by
  apply Program.Narrates.bind (record_tells _ _ _ _ _ _ _ _ _ _)
  rintro _ items' ⟨event, hfiled⟩
  refine ⟨trivial, fun names => .blocked _ event ?_ ?_ ?_ hfiled.status⟩
  · exact hfiled.answers.trans h.answers
  · exact hfiled.events.trans (congrArg (_ :: ·) h.events)
  · rw [hfiled.outcome]
    decide

theorem deny_tells (h : Silent items) (call : Call) :
    Tells (deny deps call)
      (fun result items' => Agrees deps invocation items' (.result result)) items := by
  apply Program.Narrates.bind (record_tells _ _ _ _ _ _ _ _ _ _)
  rintro _ items' ⟨event, hfiled⟩
  refine .blocked _ event ?_ ?_ ?_ hfiled.status
  · rw [hfiled.answers, h.answers]
  · rw [hfiled.events, h.events]
  · rw [hfiled.outcome]
    decide

theorem resume_tells (h : Silent items) (call : Call) (id : String) :
    Tells (resume deps call id)
      (fun result items' => Agrees deps invocation items' (.result result)) items := by
  apply Program.Narrates.bind (silent_tells (get_only quiet_of_isCommon id) h)
  rintro (_ | settled) items₁ hsilent
  · exact .lost _ hsilent.answers hsilent.events
  · change Tells (if settled.status.isResolved then _ else _) _ _
    split
    · exact applyApproval_tells hsilent call (some settled) none (.inl rfl) none
    · apply Program.Narrates.bind
        (silent_tells (dismiss_only quiet_of_isCommon fun _ => rfl) hsilent)
      intro dismissed items₂ hsilent
      exact applyApproval_tells hsilent call _ _ (.inr rfl) _

theorem openApproval_tells (h : Silent items) (service : ApprovalService)
    (tool upstream : String) (arguments : JsonObject) (reason clientName : Option String) :
    Tells (service.openApproval tool upstream arguments reason clientName)
      (fun request items' => Silent items' ∧ ⟨.createApproval request, true⟩ ∈ items' ∧
        request.tool = tool ∧ request.arguments = arguments) items := by
  refine ⟨trivial, fun now => ⟨trivial, fun id => ?_⟩⟩
  have hnamed := (h.cons .now now rfl).cons .newApprovalId id rfl
  dsimp only [Program.bind]
  split
  · exact trivial
  · refine ⟨trivial, ?_⟩
    rintro (_ | _)
    · exact trivial
    · refine ⟨trivial, fun _ => ⟨?_, ?_, rfl, rfl⟩⟩
      · exact (hnamed.cons (.createApproval _) true rfl).cons (.newEvent id) () rfl
      · exact List.mem_cons_of_mem _ List.mem_cons_self

theorem requireApproval_tells (h : Silent items) (call : Call)
    (htool : call.request.tool = invocation.name)
    (harguments : call.request.arguments = invocation.args) (polls : Nat) :
    Tells (requireApproval deps call invocation.supportsUrlElicitation polls)
      (fun reply items' => Agrees deps invocation items' reply) items := by
  apply Program.Narrates.bind (openApproval_tells h _ _ _ _ _ _)
  rintro request items₁ ⟨hsilent, hopened, hrequestTool, hrequestArguments⟩
  change Tells (if useElicitation deps invocation.supportsUrlElicitation then _ else _) _ _
  split
  · rename_i helicits
    apply Program.Narrates.bind (record_tells _ _ _ _ _ _ _ _ _ _)
    rintro _ items' ⟨event, hfiled⟩
    refine .asked _ request event ?_ ?_ hfiled.outcome hfiled.status hfiled.approval ?_ ?_ ?_
      helicits
    · rw [hfiled.answers, hsilent.answers]
    · rw [hfiled.events, hsilent.events]
    · exact hfiled.kept.subset hopened
    · rw [hrequestTool, htool]
    · rw [hrequestArguments, harguments]
  · apply Program.Narrates.bind
      (silent_tells (wait_only quiet_of_isCommon (fun _ _ => rfl) rfl polls) hsilent)
    intro settled items₂ hsilent
    apply Program.Narrates.bind (applyApproval_tells hsilent call settled none (.inl rfl) none)
    exact fun _ _ hagrees => hagrees

theorem callTool_tells (polls : Nat) :
    Tells (callTool deps invocation polls)
      (fun reply items' => Agrees deps invocation items' reply) [] := by
  refine ⟨trivial, fun started => ⟨trivial, fun answer => ?_⟩⟩
  have hsilent : Silent [⟨.registryGet invocation.name, answer⟩, ⟨.perfCounter, started⟩] :=
    ⟨rfl, rfl⟩
  rcases answer with _ | entry
  · apply Program.Narrates.bind (unknownTool_tells hsilent started)
    exact fun _ _ hagrees => hagrees
  · dsimp only [Program.bind]
    split
    · apply Program.Narrates.bind (resume_tells hsilent _ _)
      exact fun _ _ hagrees => hagrees
    · split
      · apply Program.Narrates.bind (forward_tells hsilent _ _)
        exact fun _ _ hagrees => hagrees
      · apply Program.Narrates.bind (deny_tells hsilent _)
        exact fun _ _ hagrees => hagrees
      · exact requireApproval_tells hsilent _ rfl rfl polls

end Code

def AgreesOf (deps : GatewayDeps) : Entry → Reply → Items → Prop
  | .callTool invocation _, .call reply, items => Agrees deps invocation items reply
  | _, _, _ => True

theorem code_agrees (deps : GatewayDeps) (entry : Entry) :
    (code deps entry).Narrates (fun _ _ => True) (fun _ _ => True) (AgreesOf deps entry) [] := by
  have hnothing : (code deps entry).Narrates (fun _ _ => True) (fun _ _ => True)
      (fun _ _ => True) [] :=
    Program.narrates_of_forall (fun _ _ => trivial) (fun _ _ => trivial) _ _
  cases entry with
  | callTool invocation polls =>
      apply Program.Narrates.bind (callTool_tells polls)
      exact fun _ _ hagrees => hagrees
  | listTools | openApproval | decide | dismiss | get | wait | pending | expireOverdue =>
      exact hnothing.mono fun _ _ _ => trivial

section Runs

variable {deps : GatewayDeps} {A : GateAssumption} {world : World} {c c' : GateConfig}
  {i : Nat} {invocation : Invocation} {polls : Nat}

/-- A client is told what has happened: the upstream's own answer exactly when the call was
forwarded and recorded as such, an error otherwise, and a link only with a request on file.
The row of what was recorded is in the table. -/
theorem reply_agrees (hreach : (machine deps).Reaches A (Config.initial world) c)
    {reply : CallReply}
    (htask : c.tasks[i]? = some ⟨.callTool invocation polls, .ret (.call reply)⟩) :
    Agrees deps invocation (journal i c.state.history) reply ∧
      ∀ event ∈ recordedEvents (journal i c.state.history), OnFile c.state event :=
  ⟨hreach.of_return (code_agrees deps) htask,
    fun _ hevent => onFile_of_reaches hreach (filed_of_recorded hevent)⟩

/-- A link that was handed out leads to the request it was handed out for, at every later
moment: the row may have been decided on by then, but it is of the same call. -/
theorem link_stands (hreach : (machine deps).Reaches A (Config.initial world) c)
    {result : InputRequiredResult}
    (htask : c.tasks[i]? =
      some ⟨.callTool invocation polls, .ret (.call (.inputRequired result))⟩)
    (hlater : (machine deps).Reaches A c c') :
    result.inputRequests.map (·.2.url) = [approvalUrl deps result.requestState] ∧
      ∃ row, c'.state.world.approvals.get result.requestState = some row ∧
        row.tool = invocation.name ∧ row.arguments = dumps invocation.args := by
  have hagrees : Agrees deps invocation (journal i c.state.history) (.inputRequired result) :=
    hreach.of_return (code_agrees deps) htask
  cases hagrees with
  | asked message request event _ _ _ _ _ hopened htool harguments _ =>
      refine ⟨rfl, ?_⟩
      obtain ⟨opening, hopening, -, hitem⟩ := mem_journal.mp hopened
      obtain ⟨newer, older, hsplit⟩ := List.append_of_mem hopening
      obtain ⟨c₁, next, after, hperformed⟩ := hreach.performed rfl hsplit
      obtain ⟨j, entry, op, answer, before⟩ := opening
      cases hitem
      obtain ⟨choice, hexec⟩ := hperformed.exec
      have hexec : exec (.createApproval request) choice before = some (true, after) := hexec
      have hevolves := (evolves_of_reaches (hperformed.later.trans hlater)).approvals
      obtain ⟨row, hrow, hadvances⟩ := hevolves _ _ (get_of_created hexec)
      obtain ⟨hrowTool, -, hrowArguments⟩ := hadvances.call_eq
      refine ⟨row, hrow, ?_, ?_⟩
      · rw [hrowTool]
        exact htool
      · rw [hrowArguments, ← harguments]
        rfl

end Runs

/-- A call that must be approved, of a client that can follow links. -/
def linked : Invocation :=
  { name := "fs__write", supportsUrlElicitation := true }

def asking : List GateLabel :=
  .start (.callTool linked 0) :: acts 0 3 ++ [names 0 "a"] ++ acts 0 2 ++ [names 0 "e"] ++
    acts 0 3

theorem reply_agrees_asking :
    ∃ c reply, (machine Scenarios.deps).run .none (Config.initial office) asking = some c ∧
      c.tasks[0]? = some ⟨.callTool linked 0, .ret (.call reply)⟩ ∧
      Agrees Scenarios.deps linked (journal 0 c.state.history) reply ∧
        ∀ event ∈ recordedEvents (journal 0 c.state.history), OnFile c.state event := by
  obtain ⟨c, reply, hrun, htask⟩ : ∃ c reply,
      (machine Scenarios.deps).run .none (Config.initial office) asking = some c ∧
      c.tasks[0]? = some ⟨.callTool linked 0, .ret (.call reply)⟩ := ⟨_, _, rfl, rfl⟩
  exact ⟨c, reply, hrun, htask, reply_agrees (Machine.reaches_of_run hrun) htask⟩

theorem link_stands_decided :
    ∃ c c' result, (machine Scenarios.deps).run .none (Config.initial office) asking = some c ∧
      c.tasks[0]? = some ⟨.callTool linked 0, .ret (.call (.inputRequired result))⟩ ∧
      (machine Scenarios.deps).run .none c (approving 1) = some c' ∧
      ∃ row, c'.state.world.approvals.get result.requestState = some row ∧
        row.tool = "fs__write" ∧ row.arguments = [] := by
  obtain ⟨c, c', result, hrun, htask, hlater⟩ : ∃ c c' result,
      (machine Scenarios.deps).run .none (Config.initial office) asking = some c ∧
      c.tasks[0]? = some ⟨.callTool linked 0, .ret (.call (.inputRequired result))⟩ ∧
      (machine Scenarios.deps).run .none c (approving 1) = some c' := ⟨_, _, _, rfl, rfl, rfl⟩
  exact ⟨c, c', result, hrun, htask, hlater,
    (link_stands (Machine.reaches_of_run hrun) htask (Machine.reaches_of_run hlater)).2⟩

end McpGatekeeper.Replies
