import McpGatekeeper.Interleaving.Budget
import McpGatekeeper.Narrative
import McpGatekeeper.Scenarios
import McpGatekeeper.WriteOnce

namespace McpGatekeeper.Promptness

open Interleaving
open McpGatekeeper.Approvals
open McpGatekeeper.Audit
open McpGatekeeper.Clock
open McpGatekeeper.Conduct
open McpGatekeeper.Gateway
open McpGatekeeper.JsonValues
open McpGatekeeper.Narrative
open McpGatekeeper.Operations
open McpGatekeeper.PolicyEngine
open McpGatekeeper.Scenarios
open McpGatekeeper.Service
open McpGatekeeper.System

/-- Whatever a program is answered. -/
abbrev Anything (op : Op) (_answer : Res op) : Prop := True

section Brief

variable {deps : GatewayDeps} {call : Call}

theorem record_within {tool upstream : String} {arguments : JsonObject} {decision : Decision}
    {outcome : Outcome} {clientName : Option String} {started : Int}
    {resultStatus : Option ResultStatus} {approval : Option ApprovalRequest}
    {error : Option String} :
    (record deps tool upstream arguments decision outcome clientName started resultStatus
      approval error).Within Anything 4 :=
  fun _ _ _ _ _ _ _ _ => trivial

theorem unknownTool_within (name : String) (arguments : JsonObject) (clientName : Option String)
    (started : Int) : (unknownTool deps name arguments clientName started).Within Anything 5 :=
  Program.Within.bind_le record_within (Nat.le_refl (4 + 1)) fun _ _ _ => trivial

theorem forward_within (approval : Option ApprovalRequest) :
    (forward deps call approval).Within Anything 6 := by
  rintro (_ | _) -
  · apply Program.Within.bind_le record_within (by decide : 4 + 0 ≤ 5)
    exact fun _ => trivial
  · rintro (error | result) -
    · apply Program.Within.bind_le record_within (Nat.le_refl (4 + 0))
      exact fun _ => trivial
    · apply Program.Within.bind_le record_within (Nat.le_refl (4 + 0))
      exact fun _ => trivial

theorem deny_within : (deny deps call).Within Anything 4 :=
  Program.Within.bind_le record_within (Nat.le_refl (4 + 0)) fun _ => trivial

theorem applyApproval_within (approval : Option ApprovalRequest) (outcome : Option Outcome)
    (message : Option String) :
    (applyApproval deps call approval outcome message).Within Anything 7 := by
  rcases approval with _ | approval
  · exact trivial
  · change Program.Within _ (if _ then _ else _) _
    split
    · exact fun _ _ => forward_within _
    · intro _ _
      apply Program.Within.bind_le record_within (by decide : 4 + 0 ≤ 6)
      exact fun _ => trivial

theorem sweep_within (now : Option DateTime) :
    (SqliteApprovalStore.expireOverdue now).Within Anything 2 := by
  cases now with
  | some moment => exact fun _ _ => trivial
  | none => exact fun _ _ _ _ => trivial

theorem get_within (id : String) : (ApprovalService.get id).Within Anything 5 := by
  rintro (_ | request) -
  · exact trivial
  · intro now _
    change Program.Within _ (if _ then _ else _) _
    split
    · apply Program.Within.bind_le (sweep_within none) (Nat.le_refl (2 + 1))
      exact fun _ _ _ => trivial
    · exact trivial

theorem dismiss_within (id : String) (note : Option String) :
    (ApprovalService.dismiss id note).Within Anything 3 :=
  fun _ _ _ _ _ _ => trivial

theorem openApproval_within (service : ApprovalService) (tool upstream : String)
    (arguments : JsonObject) (reason clientName : Option String) :
    (service.openApproval tool upstream arguments reason clientName).Within Anything 4 := by
  intro now _ id _
  dsimp only [Program.bind]
  split
  · exact trivial
  · rintro (_ | _) -
    · exact trivial
    · exact fun _ _ => trivial

theorem resume_within (id : String) : (resume deps call id).Within Anything 15 := by
  apply Program.Within.bind_le (get_within id) (Nat.le_refl (5 + 10))
  rintro (_ | settled)
  · exact trivial
  · change Program.Within _ (if _ then _ else _) _
    split
    · exact (applyApproval_within _ _ _).mono (fun _ _ h => h) (by decide)
    · apply Program.Within.bind_le (dismiss_within id _) (Nat.le_refl (3 + 7))
      exact fun _ => applyApproval_within _ _ _

end Brief

/-- The rows that are read expire by then. -/
def Due (deadline : DateTime) : (op : Op) → Res op → Prop
  | .getApproval _, answer => ∀ row, answer = some row → row.expiresAt ≤ deadline
  | _, _ => True

/-- And the clock has got there. -/
def Late (deadline : DateTime) : (op : Op) → Res op → Prop
  | .now, now => deadline ≤ now
  | op, answer => Due deadline op answer

/-- The rows that are read have been settled. -/
def Answered : (op : Op) → Res op → Prop
  | .getApproval _, answer => ∀ row, answer = some row → row.status.isResolved = true
  | _, _ => True

/-- On such answers a round of the loop is the last one, once the row has been read on answers
that are allowed. -/
structure LastRound (service : ApprovalService) (allowed holds : (op : Op) → Res op → Prop) :
    Prop where
  round : ∀ id request polls, allowed (.getApproval id) (some request) →
    (service.waitLoop id request.expiresAt polls).Within holds 5
  allows : ∀ op answer, holds op answer → allowed op answer

section Held

variable {deps : GatewayDeps} {allowed holds : (op : Op) → Res op → Prop}
  (service : ApprovalService) (id : String)

theorem settleTimeout_within : (service.settleTimeout id).Within Anything 4 := by
  intro _ _
  change Program.Within _ (if _ then _ else _) _
  split
  · exact fun _ _ _ _ => trivial
  · apply Program.Within.bind_le (sweep_within none) (Nat.le_refl (2 + 1))
    exact fun _ _ _ => trivial

theorem lastRound_late (deadline : DateTime) :
    LastRound service (Due deadline) (Late deadline) where
  round id request polls hdue := by
    cases polls with
    | zero => exact trivial
    | succ polls =>
        intro now hlate
        change Program.Within _ (if _ then _ else _) _
        rw [if_pos (le_trans (hdue request rfl) hlate)]
        exact (settleTimeout_within service id).mono (fun _ _ _ => trivial) (Nat.le_refl _)
  allows op answer h := by
    cases op with
    | now => exact trivial
    | _ => exact h

theorem lastRound_answered : LastRound service Anything Answered where
  round id request polls _ := by
    cases polls with
    | zero => exact trivial
    | succ polls =>
        intro now _
        change Program.Within _ (if _ then _ else _) _
        split
        · exact (settleTimeout_within service id).mono (fun _ _ _ => trivial) (Nat.le_refl _)
        · rintro _ - (_ | current) hanswered
          · exact trivial
          · change Program.Within _ (if _ then _ else _) _
            rw [if_pos (hanswered current rfl)]
            exact fun _ _ => trivial
  allows _ _ _ := trivial

variable {service id}

theorem waitLoop_steady {expiresAt : DateTime}
    (hlast : ∀ polls, (service.waitLoop id expiresAt polls).Within holds 5) (polls : Nat) :
    (service.waitLoop id expiresAt polls).Steady allowed holds 7 := by
  induction polls with
  | zero => exact trivial
  | succ polls ih =>
      refine ⟨(hlast (polls + 1)).mono (fun _ _ h => h) (by decide), ?_⟩
      intro now _
      change Program.Steady _ _ (if _ then _ else _) _
      split
      · exact (settleTimeout_within service id).steady.mono (by decide)
      · refine ⟨?_, fun _ _ => ⟨?_, ?_⟩⟩
        -- Woken up, the loop looks at the row, and then at the clock once more.
        · rintro _ - (_ | current) -
          · exact trivial
          · change Program.Within _ (if _ then _ else _) _
            split
            · exact fun _ _ => trivial
            · exact hlast polls
        · rintro (_ | current) -
          · exact trivial
          · change Program.Within _ (if _ then _ else _) _
            split
            · exact fun _ _ => trivial
            · exact (hlast polls).mono (fun _ _ h => h) (by decide)
        · rintro (_ | current) -
          · exact trivial
          · change Program.Steady _ _ (if _ then _ else _) _
            split
            · exact ⟨fun _ _ => trivial, fun _ _ => trivial⟩
            · exact ih

theorem wait_steady (hlast : LastRound service allowed holds) (polls : Nat) :
    (service.wait polls id).Steady allowed holds 7 := by
  refine ⟨?_, ?_⟩
  · rintro (_ | request) hread
    · exact trivial
    · change Program.Within _ (if _ then _ else _) _
      split
      · exact trivial
      · exact fun _ _ => hlast.round _ _ polls (hlast.allows _ _ hread)
  · rintro (_ | request) hread
    · exact trivial
    · have hround := fun polls => hlast.round id request polls hread
      change Program.Steady _ _ (if _ then _ else _) _
      split
      · exact trivial
      · refine ⟨fun _ _ => ?_, fun _ _ => waitLoop_steady hround polls⟩
        exact (hround polls).mono (fun _ _ h => h) (by decide)

variable {call : Call}

theorem requireApproval_steady (hlast : LastRound deps.approvals allowed holds)
    (supportsUrlElicitation : Bool) (polls : Nat) :
    (requireApproval deps call supportsUrlElicitation polls).Steady allowed holds 18 := by
  apply Program.Steady.bind_le (openApproval_within _ _ _ _ _ _).steady (Nat.le_refl (4 + 14))
  intro approval
  change Program.Steady _ _ (if _ then _ else _) _
  split
  · apply Program.Steady.bind_le record_within.steady (by decide : 4 + 0 ≤ 14)
    exact fun _ => trivial
  · apply Program.Steady.bind_le (wait_steady hlast polls) (Nat.le_refl (7 + 7))
    intro settled
    apply Program.Steady.bind_le (applyApproval_within _ _ _).steady (Nat.le_refl (7 + 0))
    exact fun _ => trivial

end Held

section Calls

variable {deps : GatewayDeps} {allowed holds : (op : Op) → Res op → Prop}
  {invocation : Invocation}

theorem callTool_steady (hlast : LastRound deps.approvals allowed holds)
    (hresumes : invocation.resumes = none) (polls : Nat) :
    (callTool deps invocation polls).Steady allowed holds 20 := by
  refine Program.Steady.perform fun started => Program.Steady.perform ?_
  rintro (_ | entry)
  · apply Program.Steady.bind_le (unknownTool_within _ _ _ _).steady (by decide : 5 + 0 ≤ 18)
    exact fun _ => trivial
  · dsimp only [Program.bind]
    rw [hresumes]
    dsimp only
    split
    · apply Program.Steady.bind_le (forward_within none).steady (by decide : 6 + 0 ≤ 18)
      exact fun _ => trivial
    · apply Program.Steady.bind_le deny_within.steady (by decide : 4 + 0 ≤ 18)
      exact fun _ => trivial
    · exact requireApproval_steady hlast _ polls

theorem callTool_within {id : String} (hresumes : invocation.resumes = some id) (polls : Nat) :
    (callTool deps invocation polls).Within Anything 17 := by
  rintro started - (_ | entry) -
  · apply Program.Within.bind_le (unknownTool_within _ _ _ _) (by decide : 5 + 0 ≤ 15)
    exact fun _ => trivial
  · dsimp only [Program.bind]
    rw [hresumes]
    apply Program.Within.bind_le (resume_within id) (Nat.le_refl (15 + 0))
    exact fun _ => trivial

end Calls

/-- No request is created, and no row is looked at but the one under the key. -/
def Looks (id : Option String) : Op → Prop
  | .createApproval _ => False
  | .getApproval key => id = some key
  | .resolveApproval key _ _ _ _ => id = some key
  | _ => True

section Looks

variable {deps : GatewayDeps} {call : Call} {service : ApprovalService} {id : Option String}

theorem record_looks {tool upstream : String} {arguments : JsonObject} {decision : Decision}
    {outcome : Outcome} {clientName : Option String} {started : Int}
    {resultStatus : Option ResultStatus} {approval : Option ApprovalRequest}
    {error : Option String} :
    (record deps tool upstream arguments decision outcome clientName started resultStatus
      approval error).Only (Looks id) :=
  ⟨trivial, fun _ => ⟨trivial, fun _ => ⟨trivial, fun _ => ⟨trivial, fun _ => trivial⟩⟩⟩⟩

theorem unknownTool_looks (name : String) (arguments : JsonObject) (clientName : Option String)
    (started : Int) : (unknownTool deps name arguments clientName started).Only (Looks id) := by
  apply Program.Only.bind record_looks
  exact fun _ => ⟨trivial, fun _ => trivial⟩

theorem deny_looks : (deny deps call).Only (Looks id) := by
  apply Program.Only.bind record_looks
  exact fun _ => trivial

theorem forward_looks (approval : Option ApprovalRequest) :
    (forward deps call approval).Only (Looks id) := by
  refine ⟨trivial, ?_⟩
  rintro (_ | _)
  · apply Program.Only.bind record_looks
    exact fun _ => trivial
  · refine ⟨trivial, ?_⟩
    rintro (error | result)
    · apply Program.Only.bind record_looks
      exact fun _ => trivial
    · apply Program.Only.bind record_looks
      exact fun _ => trivial

theorem applyApproval_looks (approval : Option ApprovalRequest) (outcome : Option Outcome)
    (message : Option String) :
    (applyApproval deps call approval outcome message).Only (Looks id) := by
  rcases approval with _ | approval
  · exact trivial
  · change Program.Only _ (if _ then _ else _)
    split
    · exact ⟨trivial, fun _ => forward_looks _⟩
    · refine ⟨trivial, fun _ => ?_⟩
      apply Program.Only.bind record_looks
      exact fun _ => trivial

variable {key : String}

theorem settleTimeout_looks : (service.settleTimeout key).Only (Looks (some key)) := by
  refine ⟨trivial, fun _ => ?_⟩
  change Program.Only _ (if _ then _ else _)
  split
  · exact ⟨trivial, fun _ => ⟨rfl, fun _ => trivial⟩⟩
  · exact ⟨trivial, fun _ => ⟨trivial, fun _ => ⟨rfl, fun _ => trivial⟩⟩⟩

theorem waitLoop_looks (deadline : DateTime) (polls : Nat) :
    (service.waitLoop key deadline polls).Only (Looks (some key)) := by
  induction polls with
  | zero => exact trivial
  | succ polls ih =>
      refine ⟨trivial, fun now => ?_⟩
      change Program.Only _ (if _ then _ else _)
      split
      · exact settleTimeout_looks
      · refine ⟨trivial, fun _ => ⟨rfl, ?_⟩⟩
        rintro (_ | current)
        · exact trivial
        · change Program.Only _ (if _ then _ else _)
          split
          · exact ⟨trivial, fun _ => trivial⟩
          · exact ih

theorem wait_looks (polls : Nat) : (service.wait polls key).Only (Looks (some key)) := by
  refine ⟨rfl, ?_⟩
  rintro (_ | request)
  · exact trivial
  · change Program.Only _ (if _ then _ else _)
    split
    · exact trivial
    · exact ⟨trivial, fun _ => waitLoop_looks _ polls⟩

end Looks

section Own

variable {deps : GatewayDeps} {call : Call} {invocation : Invocation} {items : Items}

/-- The request that was created, from an operation and its answer. -/
def created : Item → Option ApprovalRequest
  | ⟨.createApproval request, true⟩ => some request
  | _ => none

/-- One request has been created, and under the key. -/
def Sole (id : String) (items : Items) : Prop :=
  ∃ request, items.filterMap created = [request] ∧ request.id = id

/-- A task creates one request, and looks at no row but that. -/
def OwnReads (items : Items) : Op → Prop
  | .createApproval _ => items.filterMap created = []
  | .getApproval id => Sole id items
  | .resolveApproval id _ _ _ _ => Sole id items
  | _ => True

abbrev Own {α : Type} (p : Prog α) (items : Items) : Prop :=
  p.Narrates OwnReads (fun _ _ => True) (fun _ _ => True) items

theorem created_of_looks {id : Option String} {op : Op} (h : Looks id op) (answer : Res op) :
    created ⟨op, answer⟩ = none := by
  cases op with
  | createApproval request => exact h.elim
  | _ => rfl

theorem own_of_looks {id : Option String} {α : Type} {p : Prog α} (hp : p.Only (Looks id))
    (h : ∀ key, id = some key → Sole key items) : Own p items := by
  induction p generalizing items with
  | ret value => exact trivial
  | fail error => exact trivial
  | perform op next ih =>
      obtain ⟨hop, hnext⟩ := hp
      constructor
      · cases op with
        | createApproval request => exact hop.elim
        | getApproval key => exact h key hop
        | resolveApproval key => exact h key hop
        | _ => exact trivial
      · intro answer
        refine ih answer (hnext answer) fun key hkey => ?_
        rw [Sole, List.filterMap_cons_none (created_of_looks hop answer)]
        exact h key hkey

theorem own_of_blind {α : Type} {p : Prog α} (hp : p.Only (Looks none)) : Own p items :=
  own_of_looks hp fun key hkey => by cases hkey

theorem openApproval_own (hnone : items.filterMap created = []) (service : ApprovalService)
    (tool upstream : String) (arguments : JsonObject) (reason clientName : Option String) :
    (service.openApproval tool upstream arguments reason clientName).Narrates OwnReads
      (fun _ _ => True) (fun request items' => items'.filterMap created = [request]) items := by
  refine ⟨trivial, fun now => ⟨trivial, fun id => ?_⟩⟩
  dsimp only [Program.bind]
  split
  · exact trivial
  · refine ⟨hnone, ?_⟩
    rintro (_ | _)
    · exact trivial
    · exact ⟨trivial, fun _ => congrArg (_ :: ·) hnone⟩

theorem requireApproval_own (hnone : items.filterMap created = [])
    (supportsUrlElicitation : Bool) (polls : Nat) :
    Own (requireApproval deps call supportsUrlElicitation polls) items := by
  apply Program.Narrates.bind (openApproval_own hnone _ _ _ _ _ _)
  intro request items' hopened
  change Own (if _ then _ else _) _
  split
  · apply own_of_blind
    apply Program.Only.bind record_looks
    exact fun _ => trivial
  · refine @own_of_looks _ (some request.id) _ _ ?_ ?_
    · apply Program.Only.bind (wait_looks polls)
      intro settled
      apply Program.Only.bind (applyApproval_looks _ _ _)
      exact fun _ => trivial
    · rintro key ⟨⟩
      exact ⟨request, hopened, rfl⟩

theorem callTool_own (hresumes : invocation.resumes = none) (polls : Nat) :
    Own (callTool deps invocation polls) [] := by
  refine ⟨trivial, fun started => ⟨trivial, ?_⟩⟩
  rintro (_ | entry)
  · apply own_of_blind
    apply Program.Only.bind (unknownTool_looks _ _ _ _)
    exact fun _ => trivial
  · dsimp only [Program.bind]
    rw [hresumes]
    dsimp only
    split
    · apply own_of_blind
      apply Program.Only.bind (forward_looks none)
      exact fun _ => trivial
    · apply own_of_blind
      apply Program.Only.bind deny_looks
      exact fun _ => trivial
    · exact requireApproval_own rfl _ polls

/-- A retry may read whatever it was told to. -/
def OwnReadsOf : Entry → Items → Op → Prop
  | .callTool invocation _ =>
      if invocation.resumes = none then OwnReads else fun _ _ => True
  | _ => fun _ _ => True

theorem code_own (deps : GatewayDeps) (entry : Entry) :
    (code deps entry).Narrates (OwnReadsOf entry) (fun _ _ => True) (fun _ _ => True) [] := by
  cases entry with
  | callTool invocation polls =>
      rw [OwnReadsOf]
      split
      · rename_i hresumes
        apply Program.Narrates.bind (callTool_own hresumes polls)
        exact fun _ _ _ => trivial
      · exact Program.narrates_of_forall (fun _ _ => trivial) (fun _ _ => trivial) _ _
  | listTools | openApproval | decide | dismiss | get | wait | pending | expireOverdue =>
      exact Program.narrates_of_forall (fun _ _ => trivial) (fun _ _ => trivial) _ _

end Own

section Runs

variable {deps : GatewayDeps} {A : GateAssumption} {world : World} {c₁ c : GateConfig}

theorem now_le_of_reaches (hforward : Forward A) (h : (machine deps).Reaches A c₁ c) :
    c₁.state.world.now ≤ c.state.world.now := by
  induction h with
  | refl => exact le_refl _
  | tail _ hstep ih =>
      obtain ⟨label, hpermits, hlabel⟩ := hstep
      refine le_trans ih ?_
      obtain ⟨entry, -, rfl⟩ | ⟨i, choice, entry, op, next, answer, world, -, -, hexec, rfl⟩ |
        ⟨change, world, rfl, henv, rfl⟩ | ⟨i, entry, op, next, -, -, rfl⟩ :=
          Machine.step_cases hlabel
      · exact le_refl _
      · exact (exec_now hexec).ge
      · cases change with
        | tick now perfCounter =>
            cases henv
            exact hforward now perfCounter _ hpermits
        | disconnect upstream =>
            cases henv
            exact le_refl _
      · exact le_refl _

theorem row_of_created (hreach : (machine deps).Reaches A (Config.initial world) c) {i : Nat}
    {request : ApprovalRequest}
    (hopened : ⟨.createApproval request, true⟩ ∈ journal i c.state.history) :
    ∃ row, c.state.world.approvals.get request.id = some row ∧
      Advances (ApprovalsTable.newRow request) row := by
  obtain ⟨opening, hopening, -, hitem⟩ := mem_journal.mp hopened
  obtain ⟨newer, older, hsplit⟩ := List.append_of_mem hopening
  obtain ⟨c₁, next, after, hperformed⟩ := hreach.performed rfl hsplit
  obtain ⟨j, entry, op, answer, before⟩ := opening
  cases hitem
  obtain ⟨choice, hexec⟩ := hperformed.exec
  have hexec : exec (.createApproval request) choice before = some (true, after) := hexec
  exact (evolves_of_reaches hperformed.later).approvals _ _ (get_of_created hexec)

theorem sole_of_read (hreach : (machine deps).Reaches A (Config.initial world) c) {i : Nat}
    {invocation : Invocation} {polls : Nat} {rest : Prog Reply}
    (htask : c.tasks[i]? = some ⟨.callTool invocation polls, rest⟩)
    (hresumes : invocation.resumes = none) {newer older : List GateEvent} {event : GateEvent}
    (hsplit : c.state.history = newer ++ event :: older) (howner : event.task = i) :
    OwnReads (journal i older) event.op := by
  have hmem : event ∈ c.state.history := by
    rw [hsplit]
    exact List.mem_append_right _ List.mem_cons_self
  obtain ⟨visits, hruns⟩ := hreach.runs
  obtain ⟨rest', hentry⟩ := (hruns.narrated (code_own deps)).owners event hmem
  rw [howner, htask] at hentry
  have hown := hreach.before_event (code_own deps) hsplit
  rw [howner, ← (Task.mk.inj (Option.some.inj hentry)).1, OwnReadsOf, if_pos hresumes] at hown
  exact hown

theorem mem_of_created {items : Items} {request : ApprovalRequest}
    (h : items.filterMap created = [request]) : ⟨.createApproval request, true⟩ ∈ items := by
  have hmem : request ∈ items.filterMap created := h ▸ List.mem_singleton_self request
  obtain ⟨⟨op, answer⟩, hitem, hcreated⟩ := List.mem_filterMap.mp hmem
  cases op with
  | createApproval request' =>
      cases answer with
      | false => cases hcreated
      | true =>
          cases hcreated
          exact hitem
  | _ => cases hcreated

theorem read_own (hreach : (machine deps).Reaches A (Config.initial world) c) {i : Nat}
    {invocation : Invocation} {polls : Nat} {rest : Prog Reply}
    (htask : c.tasks[i]? = some ⟨.callTool invocation polls, rest⟩)
    (hresumes : invocation.resumes = none) {id : String} {row : ApprovalRequest}
    (hread : ⟨.getApproval id, some row⟩ ∈ journal i c.state.history) :
    ∃ request, ⟨.createApproval request, true⟩ ∈ journal i c.state.history ∧
      row.expiresAt = request.expiresAt := by
  obtain ⟨reading, hmem, howner, hitem⟩ := mem_journal.mp hread
  obtain ⟨newer, older, hsplit⟩ := List.append_of_mem hmem
  have hown := sole_of_read hreach htask hresumes hsplit howner
  obtain ⟨c₂, next, after, hperformed⟩ := hreach.performed rfl hsplit
  obtain ⟨j, entry, op, answer, before⟩ := reading
  obtain rfl : j = i := howner
  cases hitem
  obtain ⟨request, hsole, rfl⟩ : Sole id (journal j older) := hown
  have hopened := mem_of_created hsole
  refine ⟨request, ?_, ?_⟩
  · rw [hsplit, journal_append]
    refine List.mem_append_right _ ?_
    rw [journal_cons_self]
    exact List.mem_cons_of_mem _ hopened
  · have hearlier : ⟨.createApproval request, true⟩ ∈ journal j c₂.state.history := by
      rw [hperformed.state]
      exact hopened
    obtain ⟨row', hrow', hadvances⟩ := row_of_created hperformed.reached hearlier
    obtain ⟨choice, hexec⟩ := hperformed.exec
    have hfound : before.approvals.get request.id = some row :=
      (Prod.mk.inj (Option.some.inj hexec)).1
    rw [hperformed.state] at hrow'
    obtain rfl := Option.some.inj (hfound.symm.trans hrow')
    exact hadvances.expiresAt_eq

theorem code_within {invocation : Invocation} {id : String}
    (hresumes : invocation.resumes = some id) (polls : Nat) :
    (code deps (.callTool invocation polls)).Within Anything 17 := by
  apply Program.Within.bind_le (callTool_within hresumes polls) (Nat.le_refl (17 + 0))
  exact fun _ => trivial

theorem code_steady {allowed holds : (op : Op) → Res op → Prop}
    (hlast : LastRound deps.approvals allowed holds) {invocation : Invocation}
    (hresumes : invocation.resumes = none) (polls : Nat) :
    (code deps (.callTool invocation polls)).Steady allowed holds 20 := by
  apply Program.Steady.bind_le (callTool_steady hlast hresumes polls) (Nat.le_refl (20 + 0))
  exact fun _ => trivial

/-- Once the request that a call has opened is due, the call does at most twenty more
operations. -/
theorem held_no_longer
    (hreach : (machine deps).Reaches forwardClock (Config.initial world) c₁)
    (hlater : (machine deps).Reaches forwardClock c₁ c) {i : Nat} {invocation : Invocation}
    {polls : Nat} {rest : Prog Reply}
    (htask : c₁.tasks[i]? = some ⟨.callTool invocation polls, rest⟩)
    (hdue : ∀ request, ⟨.createApproval request, true⟩ ∈ journal i c.state.history →
      request.expiresAt ≤ c₁.state.world.now) :
    (journal i c.state.history).length ≤ (journal i c₁.state.history).length + 20 := by
  obtain ⟨rest', htask'⟩ := hlater.task htask
  rcases hresumes : invocation.resumes with _ | id
  · -- The call reads no row but that of its own request, which is due by now.
    have hrows : ∀ item ∈ journal i c.state.history, Due c₁.state.world.now item.1 item.2 := by
      rintro ⟨op, answer⟩ hitem
      cases op
      case getApproval id =>
        rintro row rfl
        obtain ⟨request, hopened, hexpires⟩ :=
          read_own (hreach.trans hlater) htask' hresumes hitem
        rw [hexpires]
        exact hdue request hopened
      all_goals exact trivial
    apply hreach.spends (code_steady (lastRound_late _ _) hresumes polls) rfl hlater htask
    · intro item hitem
      obtain ⟨newer, hnewer⟩ := hlater.history
      apply hrows
      rw [← hnewer, journal_append]
      exact List.mem_append_right _ hitem
    · intro newer hnewer event hevent howner
      have hrow := hrows ⟨event.op, event.res⟩ (mem_journal.mpr ⟨event, by
        rw [hnewer]; exact List.mem_append_left _ hevent, howner, rfl⟩)
      obtain ⟨c₂, hsince, hworld, choice, after, hexec⟩ := hlater.since hnewer hevent
      have hnow := now_le_of_reaches forward_forwardClock hsince
      obtain ⟨j, entry, op, answer, before⟩ := event
      cases op
      case now =>
        rw [hworld] at hnow
        have hexec : exec .now choice before = some (answer, after) := hexec
        rw [← (Prod.mk.inj (Option.some.inj hexec)).1]
        exact hnow
      all_goals exact hrow
  · -- A retry waits for nobody, whatever it is answered.
    have hcode : (code deps (.callTool invocation polls)).Steady Anything Anything 20 :=
      (code_within hresumes polls).steady.mono (by decide)
    exact hreach.spends hcode rfl hlater htask (fun _ _ => trivial) fun _ _ _ _ _ => trivial

end Runs

/-- A call that is held, at the moment its request falls due. -/
def held : Entry := .callTool { name := "fs__write" } 5

def holding : List GateLabel :=
  .start held :: acts 0 3 ++ [names 0 "a"] ++ acts 0 6 ++ [clock oneOClock]

def opens : Op → Option ApprovalRequest
  | .createApproval request => some request
  | _ => none

theorem held_no_longer_due :
    ∃ c₁ c, (machine Scenarios.deps).run forwardClock (Config.initial office) holding = some c₁ ∧
      (machine Scenarios.deps).run forwardClock c₁ (acts 0 11) = some c ∧
      (journal 0 c.state.history).length ≤ (journal 0 c₁.state.history).length + 20 := by
  obtain ⟨c₁, c, rest, hrun, hlater, htask, hall⟩ : ∃ c₁ c rest,
      (machine Scenarios.deps).run forwardClock (Config.initial office) holding = some c₁ ∧
      (machine Scenarios.deps).run forwardClock c₁ (acts 0 11) = some c ∧
      c₁.tasks[0]? = some ⟨held, rest⟩ ∧
      ((journal 0 c.state.history).all fun item => (opens item.1).all fun request =>
        decide (request.expiresAt ≤ c₁.state.world.now)) = true :=
    ⟨_, _, _, rfl, rfl, rfl, by decide +kernel⟩
  refine ⟨c₁, c, hrun, hlater, ?_⟩
  apply held_no_longer (Machine.reaches_of_run hrun) (Machine.reaches_of_run hlater) htask
  intro request hopened
  have hrequest := List.all_eq_true.mp hall _ hopened
  exact of_decide_eq_true hrequest

end McpGatekeeper.Promptness
