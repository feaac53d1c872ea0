import McpGatekeeper.Promptness
import McpGatekeeper.Replies

namespace McpGatekeeper.HeldCalls

open Interleaving
open McpGatekeeper.Approvals
open McpGatekeeper.Clock
open McpGatekeeper.Conduct
open McpGatekeeper.GateContract
open McpGatekeeper.Gateway
open McpGatekeeper.GatewayRules
open McpGatekeeper.Narrative
open McpGatekeeper.Operations
open McpGatekeeper.Promptness
open McpGatekeeper.Replies
open McpGatekeeper.Scenarios
open McpGatekeeper.Service
open McpGatekeeper.System

/-- The request was not found when it was looked up again. -/
def Lost (id : String) (items : Items) : Prop :=
  ⟨.getApproval id, none⟩ ∈ items ∨
    ∃ decidedAt note, ⟨.resolveApproval id true decidedAt timeoutApprover note, none⟩ ∈ items

/-- The upstream was called, or was found disconnected. -/
def Sent (items : Items) : Prop :=
  upstreamAnswers items ≠ [] ∨ ∃ upstream, ⟨.connectionGet upstream, false⟩ ∈ items

inductive Concluded (items : Items) : Prop
  | granted (approval : ApprovalRequest) (htaken : ⟨.takeGranted approval, ()⟩ ∈ items)
      (hsent : Sent items) : Concluded items
  | refused (approval : ApprovalRequest) (htaken : ⟨.takeRefused approval, ()⟩ ∈ items)
      (hnobody : upstreamAnswers items = []) : Concluded items
  | lost (id : String) (hlost : Lost id items) : Concluded items

section Code

variable {deps : GatewayDeps} {invocation : Invocation} {call : Call} {items : Items}

theorem forward_concludes {approval : ApprovalRequest}
    (htaken : ⟨.takeGranted approval, ()⟩ ∈ items) :
    Tells (forward deps call (some approval)) (fun _ items' => Concluded items') items := by
  refine ⟨trivial, ?_⟩
  rintro (_ | _)
  · apply Program.Narrates.bind (record_tells _ _ _ _ _ _ _ _ _ _)
    rintro _ items' ⟨event, hfiled⟩
    refine .granted approval (hfiled.kept.subset (List.mem_cons_of_mem _ htaken)) (.inr ?_)
    exact ⟨call.entry.upstream, hfiled.kept.subset List.mem_cons_self⟩
  · have hkept : ∀ answer items', ⟨.callTool call.entry.upstream call.entry.remoteName
        call.request.arguments, answer⟩ :: ⟨.connectionGet call.entry.upstream, true⟩ ::
          items <:+ items' → ∀ hanswers : upstreamAnswers items' = upstreamAnswers
            (⟨.callTool call.entry.upstream call.entry.remoteName call.request.arguments,
              answer⟩ :: ⟨.connectionGet call.entry.upstream, true⟩ :: items),
          Concluded items' := by
      intro answer items' hkept hanswers
      refine .granted approval (hkept.subset ?_) (.inl ?_)
      · exact List.mem_cons_of_mem _ (List.mem_cons_of_mem _ htaken)
      · rw [hanswers]
        exact List.cons_ne_nil answer _
    refine ⟨trivial, ?_⟩
    rintro (error | result)
    · apply Program.Narrates.bind (record_tells _ _ _ _ _ _ _ _ _ _)
      rintro _ items' ⟨event, hfiled⟩
      exact hkept _ _ hfiled.kept hfiled.answers
    · apply Program.Narrates.bind (record_tells _ _ _ _ _ _ _ _ _ _)
      rintro _ items' ⟨event, hfiled⟩
      exact hkept _ _ hfiled.kept hfiled.answers

theorem applyApproval_concludes (h : Silent items) {id : String}
    {approval : Option ApprovalRequest} (hlost : approval = none → Lost id items) :
    Tells (applyApproval deps call approval) (fun _ items' => Concluded items') items := by
  rcases approval with _ | approval
  · exact .lost id (hlost rfl)
  · change Tells (if approval.status.isGranted then _ else _) _ _
    split
    · exact ⟨trivial, fun _ => forward_concludes List.mem_cons_self⟩
    · refine ⟨trivial, fun _ => ?_⟩
      apply Program.Narrates.bind (record_tells _ _ _ _ _ _ _ _ _ _)
      rintro _ items' ⟨event, hfiled⟩
      refine .refused approval (hfiled.kept.subset List.mem_cons_self) ?_
      rw [hfiled.answers]
      exact (h.cons (.takeRefused approval) () rfl).answers

variable {service : ApprovalService} {id : String}

/-- What was waited for has been looked up, and nothing else has been done. -/
def Waited (id : String) (settled : Option ApprovalRequest) (items : Items) : Prop :=
  Silent items ∧ (settled = none → Lost id items)

theorem settleTimeout_waits (h : Silent items) :
    Tells (service.settleTimeout id) (Waited id) items := by
  refine ⟨trivial, fun _ => ?_⟩
  have hpopped := h.cons (.popEvent id) () rfl
  change Tells (if _ then _ else _) _ _
  split
  · refine ⟨trivial, fun now => ⟨trivial, fun settled => ⟨?_, ?_⟩⟩⟩
    · exact (hpopped.cons .now now rfl).cons _ _ rfl
    · rintro rfl
      exact .inr ⟨now, _, List.mem_cons_self⟩
  · refine ⟨trivial, fun now => ⟨trivial, fun count => ⟨trivial, fun settled => ⟨?_, ?_⟩⟩⟩⟩
    · exact ((hpopped.cons .now now rfl).cons (.expireOverdue now) count rfl).cons _ _ rfl
    · rintro rfl
      exact .inl List.mem_cons_self

theorem waitLoop_waits (h : Silent items) (deadline : DateTime) (polls : Nat) :
    Tells (service.waitLoop id deadline polls) (Waited id) items := by
  induction polls generalizing items with
  | zero => exact trivial
  | succ polls ih =>
      refine ⟨trivial, fun now => ?_⟩
      have hclock := h.cons .now now rfl
      change Tells (if _ then _ else _) _ _
      split
      · exact settleTimeout_waits hclock
      · refine ⟨trivial, fun _ => ⟨trivial, fun current => ?_⟩⟩
        have hread := (hclock.cons (.awaitEvent id) () rfl).cons (.getApproval id) current rfl
        rcases current with _ | current
        · exact ⟨hread, fun _ => .inl List.mem_cons_self⟩
        · change Tells (if _ then _ else _) _ _
          split
          · exact ⟨trivial, fun _ => ⟨hread.cons _ _ rfl, fun h => by cases h⟩⟩
          · exact ih hread

theorem wait_waits (h : Silent items) (polls : Nat) :
    Tells (service.wait polls id) (Waited id) items := by
  refine ⟨trivial, fun request => ?_⟩
  have hread := h.cons (.getApproval id) request rfl
  rcases request with _ | request
  · exact ⟨hread, fun _ => .inl List.mem_cons_self⟩
  · change Tells (if _ then _ else _) _ _
    split
    · exact ⟨hread, fun h => by cases h⟩
    · exact ⟨trivial, fun _ => waitLoop_waits (hread.cons (.ensureEvent id) () rfl) _ polls⟩

/-- A call that created a request and was not handed a link has gone by what it waited for. -/
def Ends (items : Items) : CallReply → Prop
  | .inputRequired _ => True
  | .result _ => items.filterMap created = [] ∨ Concluded items

theorem ends_of_blind {p : Prog CallToolResult} (hp : p.Only (Looks none))
    (hnone : items.filterMap created = []) :
    Tells (p >>= fun result => pure (.result result)) (fun reply items' => Ends items' reply)
      items := by
  have hblind : Tells p (fun _ items' => items'.filterMap created = []) items := by
    refine Program.Only.narrates (fun _ _ _ => trivial) (fun _ _ _ => trivial) ?_ hp hnone
    intro items' op answer hop hitems
    rw [List.filterMap_cons_none (created_of_looks hop answer)]
    exact hitems
  apply Program.Narrates.bind hblind
  exact fun _ _ hnone => .inl hnone

theorem requireApproval_ends (h : Silent items) (supportsUrlElicitation : Bool) (polls : Nat) :
    Tells (requireApproval deps call supportsUrlElicitation polls)
      (fun reply items' => Ends items' reply) items := by
  apply Program.Narrates.bind (openApproval_tells h _ _ _ _ _ _)
  rintro request items₁ ⟨hsilent, -⟩
  change Tells (if _ then _ else _) _ _
  split
  · apply Program.Narrates.bind (record_tells _ _ _ _ _ _ _ _ _ _)
    exact fun _ _ _ => trivial
  · apply Program.Narrates.bind (wait_waits hsilent polls)
    rintro settled items₂ ⟨hsilent, hlost⟩
    apply Program.Narrates.bind (applyApproval_concludes hsilent hlost)
    exact fun _ _ hconcluded => .inr hconcluded

theorem callTool_ends (hresumes : invocation.resumes = none) (polls : Nat) :
    Tells (callTool deps invocation polls) (fun reply items' => Ends items' reply) [] := by
  refine ⟨trivial, fun started => ⟨trivial, ?_⟩⟩
  rintro (_ | entry)
  · exact ends_of_blind (unknownTool_looks _ _ _ _) rfl
  · dsimp only [Program.bind]
    rw [hresumes]
    dsimp only
    split
    · exact ends_of_blind (forward_looks none) rfl
    · exact ends_of_blind deny_looks rfl
    · exact requireApproval_ends ⟨rfl, rfl⟩ _ polls

def EndsOf : Entry → Reply → Items → Prop
  | .callTool invocation _, .call reply, items =>
      invocation.resumes = none → Ends items reply
  | _, _, _ => True

theorem code_ends (deps : GatewayDeps) (entry : Entry) :
    (code deps entry).Narrates (fun _ _ => True) (fun _ _ => True) (EndsOf entry) [] := by
  have hnothing : (code deps entry).Narrates (fun _ _ => True) (fun _ _ => True)
      (fun _ _ => True) [] :=
    Program.narrates_of_forall (fun _ _ => trivial) (fun _ _ => trivial) _ _
  cases entry with
  | callTool invocation polls =>
      rcases hresumes : invocation.resumes with _ | id
      · apply Program.Narrates.bind (callTool_ends hresumes polls)
        exact fun _ _ hends _ => hends
      · refine hnothing.mono fun reply items _ => ?_
        cases reply with
        | call reply => exact fun h => by simp [hresumes] at h
        | _ => exact trivial
  | listTools | openApproval | decide | dismiss | get | wait | pending | expireOverdue =>
      exact hnothing.mono fun _ _ _ => trivial

end Code

section Runs

variable {deps : GatewayDeps} {A : GateAssumption} {world : World} {c₁ c : GateConfig} {i : Nat}
  {invocation : Invocation} {polls : Nat} {rest : Prog Reply} {request row : ApprovalRequest}

theorem created_le_one {history : List GateEvent}
    (h : ∀ newer event older, history = newer ++ event :: older → event.task = i →
      OwnReads (journal i older) event.op) :
    (journal i history).filterMap created = [] ∨
      ∃ request, (journal i history).filterMap created = [request] := by
  induction history with
  | nil => exact .inl rfl
  | cons event history ih =>
      have hearlier := ih fun newer event' older hsplit => by
        refine h (event :: newer) event' older ?_
        rw [hsplit, List.cons_append]
      rcases eq_or_ne event.task i with howner | hne
      · have hown := h [] event history rfl howner
        obtain ⟨j, entry, op, answer, before⟩ := event
        obtain rfl : j = i := howner
        rw [journal_cons_self]
        rcases hcreated : created ⟨op, answer⟩ with _ | request
        · rw [List.filterMap_cons_none hcreated]
          exact hearlier
        · rw [List.filterMap_cons_some hcreated]
          cases op with
          | createApproval request' =>
              have hnone : (journal j history).filterMap created = [] := hown
              rw [hnone]
              exact .inr ⟨request, rfl⟩
          | _ => cases hcreated
      · rw [journal_cons_other hne]
        exact hearlier

theorem request_unique (hreach : (machine deps).Reaches A (Config.initial world) c)
    (htask : c.tasks[i]? = some ⟨.callTool invocation polls, rest⟩)
    (hresumes : invocation.resumes = none) {request' : ApprovalRequest}
    (h : ⟨.createApproval request, true⟩ ∈ journal i c.state.history)
    (h' : ⟨.createApproval request', true⟩ ∈ journal i c.state.history) : request = request' := by
  have hmem : request ∈ (journal i c.state.history).filterMap created :=
    List.mem_filterMap.mpr ⟨_, h, rfl⟩
  have hmem' : request' ∈ (journal i c.state.history).filterMap created :=
    List.mem_filterMap.mpr ⟨_, h', rfl⟩
  rcases created_le_one fun newer event older hsplit howner =>
      sole_of_read hreach htask hresumes hsplit howner with hnone | ⟨sole, hsole⟩
  · rw [hnone] at hmem
    cases hmem
  · rw [hsole, List.mem_singleton] at hmem hmem'
    rw [hmem, hmem']

theorem found_of_sole (hreach : (machine deps).Reaches A (Config.initial world) c)
    {id : String} {event : GateEvent} {newer older : List GateEvent}
    (hsplit : c.state.history = newer ++ event :: older) (hsole : Sole id (journal i older)) :
    ∃ row, event.before.approvals.get id = some row := by
  obtain ⟨request, hcreated, rfl⟩ := hsole
  obtain ⟨c₂, next, after, hperformed⟩ := hreach.performed rfl hsplit
  have hopened : ⟨.createApproval request, true⟩ ∈ journal i c₂.state.history := by
    rw [hperformed.state]
    exact mem_of_created hcreated
  obtain ⟨row, hrow, -⟩ := row_of_created hperformed.reached hopened
  rw [hperformed.state] at hrow
  exact ⟨row, hrow⟩

theorem not_lost (hreach : (machine deps).Reaches A (Config.initial world) c)
    (htask : c.tasks[i]? = some ⟨.callTool invocation polls, rest⟩)
    (hresumes : invocation.resumes = none) {id : String} :
    ¬Lost id (journal i c.state.history) := by
  have hsole : ∀ item ∈ journal i c.state.history, ∃ event newer older,
      c.state.history = newer ++ event :: older ∧ item = ⟨event.op, event.res⟩ ∧
        OwnReads (journal i older) event.op ∧
        ∃ choice after, exec event.op choice event.before = some (event.res, after) := by
    intro item hitem
    obtain ⟨event, hevent, howner, rfl⟩ := mem_journal.mp hitem
    obtain ⟨newer, older, hsplit⟩ := List.append_of_mem hevent
    obtain ⟨c₂, next, after, hperformed⟩ := hreach.performed rfl hsplit
    obtain ⟨choice, hexec⟩ := hperformed.exec
    exact ⟨event, newer, older, hsplit, rfl,
      sole_of_read hreach htask hresumes hsplit howner, choice, after, hexec⟩
  rintro (hread | ⟨decidedAt, note, hread⟩)
  · obtain ⟨event, newer, older, hsplit, hitem, hown, choice, after, hexec⟩ := hsole _ hread
    obtain ⟨j, entry, op, answer, before⟩ := event
    cases hitem
    obtain ⟨row, hrow⟩ := found_of_sole hreach hsplit hown
    have hnone : before.approvals.get id = none := (Prod.mk.inj (Option.some.inj hexec)).1
    rw [hnone] at hrow
    cases hrow
  · obtain ⟨event, newer, older, hsplit, hitem, hown, choice, after, hexec⟩ := hsole _ hread
    obtain ⟨j, entry, op, answer, before⟩ := event
    cases hitem
    obtain ⟨row, hrow⟩ := found_of_sole hreach hsplit hown
    have hnone : (before.approvals.resolve id true decidedAt timeoutApprover note).1 = none :=
      (Prod.mk.inj (Option.some.inj hexec)).1
    obtain ⟨row', hrow', -⟩ := ApprovalsTable.evolves_resolve _ id true decidedAt timeoutApprover
      note _ _ hrow
    rw [← ApprovalsTable.resolve_answer] at hrow'
    cases hnone.symm.trans hrow'

theorem row_of_applied (hreach : (machine deps).Reaches A (Config.initial world) c)
    (htask : c.tasks[i]? = some ⟨.callTool invocation polls, rest⟩)
    (hresumes : invocation.resumes = none)
    (hopened : ⟨.createApproval request, true⟩ ∈ journal i c.state.history)
    {newer older : List GateEvent} {event : GateEvent}
    (hsplit : c.state.history = newer ++ event :: older) (howner : event.task = i)
    {approval : ApprovalRequest} (hsettled : approval.status ≠ .pending)
    (happlies : ∃ invocation polls tool, event.entry = .callTool invocation polls ∧
      Applies deps A i invocation polls tool approval ⟨event.before, older⟩) :
    c.state.world.approvals.get request.id = some approval := by
  obtain ⟨invocation', polls', tool, hentry, happlies⟩ := happlies
  have hhonoured := (gate_good hreach).past newer event older hsplit
  obtain ⟨task, htask', hentry'⟩ := hhonoured.owner
  rw [howner, htask] at htask'
  obtain rfl := Option.some.inj htask'
  obtain ⟨rfl, rfl⟩ := Entry.callTool.inj (hentry'.trans hentry)
  have hrow := hhonoured.evo.1.approvals.settled (happlies.onFile.get hsettled) hsettled
  cases happlies.basis with
  | resumed hresumed =>
      rw [hresumes] at hresumed
      cases hresumed
  | opened _ _ request' before hcreated hid _ _ _ =>
      have hopened' : ⟨.createApproval request', true⟩ ∈ journal i c.state.history := by
        rw [hsplit, journal_append]
        refine List.mem_append_right _ ?_
        exact mem_journal.mpr ⟨⟨i, .callTool invocation polls, .createApproval request', true,
          before⟩, List.mem_cons_of_mem _ hcreated, rfl, rfl⟩
      rw [request_unique hreach htask hresumes hopened hopened', hid]
      exact hrow

theorem granted_own (hreach : (machine deps).Reaches A (Config.initial world) c)
    (htask : c.tasks[i]? = some ⟨.callTool invocation polls, rest⟩)
    (hresumes : invocation.resumes = none)
    (hopened : ⟨.createApproval request, true⟩ ∈ journal i c.state.history)
    {approval : ApprovalRequest}
    (htaken : ⟨.takeGranted approval, ()⟩ ∈ journal i c.state.history) :
    approval.status = .approved ∧ c.state.world.approvals.get request.id = some approval := by
  obtain ⟨event, hevent, howner, hitem⟩ := mem_journal.mp htaken
  obtain ⟨newer, older, hsplit⟩ := List.append_of_mem hevent
  have howed := ((gate_good hreach).past newer event older hsplit).pre.2
  obtain ⟨j, entry, op, answer, before⟩ := event
  obtain rfl : j = i := howner
  cases hitem
  obtain ⟨hgranted, happlies⟩ := howed
  refine ⟨hgranted, row_of_applied hreach htask hresumes hopened hsplit rfl ?_ happlies⟩
  simp [hgranted]

theorem refused_own (hreach : (machine deps).Reaches forwardClock (Config.initial world) c)
    (htask : c.tasks[i]? = some ⟨.callTool invocation polls, rest⟩)
    (hresumes : invocation.resumes = none)
    (hopened : ⟨.createApproval request, true⟩ ∈ journal i c.state.history)
    {approval : ApprovalRequest}
    (htaken : ⟨.takeRefused approval, ()⟩ ∈ journal i c.state.history) :
    approval.status ≠ .approved ∧ c.state.world.approvals.get request.id = some approval := by
  obtain ⟨event, hevent, howner, hitem⟩ := mem_journal.mp htaken
  obtain ⟨newer, older, hsplit⟩ := List.append_of_mem hevent
  have howed := ((gate_good hreach).past newer event older hsplit).pre.2
  obtain ⟨j, entry, op, answer, before⟩ := event
  obtain rfl : j = i := howner
  cases hitem
  obtain ⟨hrefused, hsettled, happlies⟩ := howed
  exact ⟨hrefused, row_of_applied hreach htask hresumes hopened hsplit rfl
    (hsettled forward_forwardClock) happlies⟩

theorem answered_since (hreach : (machine deps).Reaches A (Config.initial world) c₁)
    (hlater : (machine deps).Reaches A c₁ c)
    (htask : c.tasks[i]? = some ⟨.callTool invocation polls, rest⟩)
    (hresumes : invocation.resumes = none)
    (hopened : ⟨.createApproval request, true⟩ ∈ journal i c.state.history)
    (hrow : c₁.state.world.approvals.get request.id = some row)
    (hsettled : row.status ≠ .pending) {newer : List GateEvent}
    (hnewer : c.state.history = newer ++ c₁.state.history) {event : GateEvent}
    (hevent : event ∈ newer) (howner : event.task = i) : Answered event.op event.res := by
  have hall : (machine deps).Reaches A (Config.initial world) c := hreach.trans hlater
  obtain ⟨c₂, hthen, hworld, choice, after, hexec⟩ := hlater.since hnewer hevent
  obtain ⟨newer', older, hsplit⟩ : ∃ newer' older,
      c.state.history = newer' ++ event :: older := by
    rw [hnewer]
    exact List.append_of_mem (List.mem_append_left _ hevent)
  have hown := sole_of_read hall htask hresumes hsplit howner
  obtain ⟨j, entry, op, answer, before⟩ := event
  obtain rfl : j = i := howner
  cases op
  case getApproval id =>
    obtain ⟨request', hcreated, rfl⟩ : Sole id (journal j older) := hown
    have hcreated' : ⟨.createApproval request', true⟩ ∈ journal j c.state.history := by
      rw [hsplit, journal_append, journal_cons_self]
      exact List.mem_append_right _ (List.mem_cons_of_mem _ (mem_of_created hcreated))
    obtain rfl := request_unique hall htask hresumes hopened hcreated'
    have hrow' := (evolves_of_reaches hthen).approvals.settled hrow hsettled
    rw [hworld] at hrow'
    have hfound : before.approvals.get request.id = answer :=
      (Prod.mk.inj (Option.some.inj hexec)).1
    rintro current rfl
    obtain rfl := Option.some.inj (hrow'.symm.trans hfound)
    rw [ApprovalStatus.isResolved]
    simpa using hsettled
  all_goals exact trivial

end Runs

/-- The request of a held call is approved while the call waits, and the call goes on. -/
def decided : List GateLabel :=
  .start held :: acts 0 3 ++ names 0 "a" :: acts 0 6 ++ approving 1

def released : List GateLabel :=
  acts 0 4 ++ serves 0 :: acts 0 4

end McpGatekeeper.HeldCalls
