import McpGatekeeper.Interleaving.FairLock
import McpGatekeeper.Narrative
import McpGatekeeper.Scenarios

namespace McpGatekeeper.Wakeups

open Interleaving
open McpGatekeeper.Approvals
open McpGatekeeper.Clock
open McpGatekeeper.Conduct
open McpGatekeeper.Gateway
open McpGatekeeper.Narrative
open McpGatekeeper.Operations
open McpGatekeeper.Scenarios
open McpGatekeeper.Service
open McpGatekeeper.ServiceRules
open McpGatekeeper.System

def isPending (world : World) (id : String) : Bool :=
  (world.approvals.get id).any (·.status == .pending)

def ensures (id : String) : Op → Bool
  | .ensureEvent id' => id' == id
  | _ => false

def pops (id : String) : Op → Bool
  | .popEvent id' => id' == id
  | _ => false

/-- The task has ensured the event of the request and not removed it since. -/
abbrev holds (id : String) (items : Items) : Bool :=
  held (ensures id) (pops id) items

/-- A loop that the run stopped looking at is not over. -/
def underway : Prog Reply → Bool
  | .perform _ _ => true
  | .fail .polling => true
  | _ => false

/-- The task is in a `wait` that found the request pending and has not removed its event
since. -/
def waiting (c : GateConfig) (i : Nat) (id : String) : Bool :=
  (c.upcoming i).any (ensures id) ||
    (c.tasks[i]?.any (fun task => underway task.rest) && holds id (journal i c.state.history))

/-- The tasks that wait for a request. -/
def waiters (c : GateConfig) (id : String) : List Nat :=
  (List.range c.tasks.length).filter fun i => waiting c i id

/-- The calls that open a request or wait for one. -/
def opensOrWaits : Entry → Bool
  | .callTool _ _ => true
  | .openApproval _ _ _ _ _ => true
  | .wait _ _ => true
  | _ => false

/-- No such call is in progress. -/
def Quiet (c : GateConfig) : Prop :=
  ∀ task ∈ c.tasks, opensOrWaits task.entry = true → underway task.rest = false

/-- While nobody waits for a request, its event is there only as long as it is pending. -/
def Attended (c : GateConfig) : Prop :=
  ∀ id ∈ c.state.world.events, (∀ i, waiting c i id = false) →
    isPending c.state.world id = true

/-- The operation settles the row. -/
def settles : Op → ApprovalRequest → Bool
  | .resolveApproval id _ _ _ _, row => row.id == id && row.status == .pending
  | .expireOverdue moment, row => ApprovalsTable.overdue moment row
  | _, _ => false

/-- The events the operation leaves without a pending request: a settled one's is put in
place, or the request of one that is there is settled. -/
def orphans : Op → World → List String
  | .newEvent id, world => [id].filter fun id => !isPending world id
  | op, world => world.events.filter fun id => (world.approvals.get id).any (settles op)

/-- A request is settled, and the event of a settled one put in place, only while somebody
waits for it, and no task that is cancelled is the last to wait for a settled request. -/
def mindful : GateVisit → Bool
  | (c, .act i _) =>
      (c.upcoming i).all fun op =>
        (orphans op c.state.world).all fun id => !(waiters c id).isEmpty
  | (c, .cancel i) =>
      c.state.world.events.all fun id =>
        !waiting c i id || isPending c.state.world id || (waiters c id).any (· != i)
  | _ => true

/-- The row of the request was there and then was not. -/
def Vanished (id : String) (items : Items) : Prop :=
  ∃ row rest, ⟨.getApproval id, none⟩ :: rest <:+ items ∧ ⟨.getApproval id, some row⟩ ∈ rest

/-- No event is the task's to remove. -/
def Released (items : Items) : Prop :=
  ∀ id, holds id items = true → Vanished id items

/-- No event is, but that of one request, whose row the task has read. -/
structure Holding (id : String) (items : Items) : Prop where
  others : ∀ id' ≠ id, holds id' items = true → Vanished id' items
  read : ∃ row, ⟨.getApproval id, some row⟩ ∈ items

/-- A `wait` ensures the event of the row it has just read. -/
def Precedes (items : Items) : Op → Prop
  | .ensureEvent id => ∃ row rest, items = ⟨.getApproval id, some row⟩ :: rest
  | _ => True

def Halts (halt : Halt) (items : Items) : Prop :=
  halt = .polling ∨ Released items

/-- The operation is not the beginning of a wait. -/
def Idle (op : Op) : Prop :=
  ∀ id, ensures id op = false

theorem idle_of_isCommon (op : Op) (h : isCommon op = true) : Idle op := by
  cases op
  case ensureEvent => cases h
  all_goals
    exact fun _ => rfl

theorem idle_of_isDeed (op : Op) (h : isDeed op = true) : Idle op := by
  cases op
  case ensureEvent => cases h
  all_goals
    exact fun _ => rfl

section Items

variable {id : String} {items : Items} {op : Op} {answer : Res op}

theorem Vanished.cons (h : Vanished id items) : Vanished id (⟨op, answer⟩ :: items) := by
  obtain ⟨row, rest, hgone, hread⟩ := h
  exact ⟨row, rest, hgone.trans (List.suffix_cons _ _), hread⟩

theorem holds_of_cons (hop : ensures id op = false)
    (h : holds id (⟨op, answer⟩ :: items) = true) :
    holds id items = true ∧ pops id op = false := by
  simpa [holds, held, hop, and_comm] using h

theorem holds_cons (hop : pops id op = false) (h : holds id items = true) :
    holds id (⟨op, answer⟩ :: items) = true := by
  simp [holds, held, hop, h]

theorem Released.cons (hop : Idle op) (h : Released items) :
    Released (⟨op, answer⟩ :: items) :=
  fun id hholds => (h id (holds_of_cons (hop id) hholds).1).cons

theorem Holding.cons (hop : Idle op) (h : Holding id items) :
    Holding id (⟨op, answer⟩ :: items) := by
  obtain ⟨hothers, row, hread⟩ := h
  refine ⟨fun id' hne hholds => ?_, row, List.mem_cons_of_mem _ hread⟩
  exact (hothers id' hne (holds_of_cons (hop id') hholds).1).cons

theorem Holding.pop (h : Holding id items) : Released (⟨.popEvent id, ()⟩ :: items) := by
  intro id' hholds
  obtain ⟨hheld, hkept⟩ := holds_of_cons rfl hholds
  have hne : id' ≠ id := fun heq => by simp [pops, heq] at hkept
  exact (h.others id' hne hheld).cons

theorem Holding.gone (h : Holding id items) :
    Released (⟨.getApproval id, none⟩ :: items) := by
  obtain ⟨hothers, row, hread⟩ := h
  intro id' hholds
  rcases eq_or_ne id' id with rfl | hne
  · exact ⟨row, items, List.suffix_refl _, hread⟩
  · exact (hothers id' hne (holds_of_cons rfl hholds).1).cons

theorem idle_releases {α : Type} {p : Prog α} (hp : p.Only Idle) (h : Released items) :
    p.Narrates Precedes Halts (fun _ items' => Released items') items := by
  refine Program.Only.narrates ?_ ?_ ?_ hp h
  · intro items op hop
    cases op
    case ensureEvent id => simpa [ensures] using hop id
    all_goals
      exact trivial
  · exact fun halt items h => .inr h
  · exact fun items op answer hop h => h.cons hop

end Items

section Wait

variable {service : ApprovalService} {id : String} {items : Items}

theorem settleTimeout_releases (h : Holding id items) :
    (service.settleTimeout id).Narrates Precedes Halts (fun _ items' => Released items')
      items := by
  refine ⟨trivial, fun _ => ?_⟩
  change Program.Narrates _ _ _ (if _ then _ else _) _
  split
  · exact idle_releases (resolve_only idle_of_isCommon fun _ _ => rfl) h.pop
  · apply Program.Narrates.bind (idle_releases (sweep_only idle_of_isCommon none) h.pop)
    exact fun count items' hreleased => ⟨trivial, fun answer => hreleased.cons fun _ => rfl⟩

theorem waitLoop_releases (deadline : DateTime) (polls : Nat) (h : Holding id items) :
    (service.waitLoop id deadline polls).Narrates Precedes Halts
      (fun _ items' => Released items') items := by
  induction polls generalizing items with
  | zero => exact .inl rfl
  | succ polls ih =>
      refine ⟨trivial, fun now => ?_⟩
      have hnow : Holding id (⟨.now, now⟩ :: items) := h.cons fun _ => rfl
      change Program.Narrates _ _ _ (if _ then _ else _) _
      split
      · exact settleTimeout_releases hnow
      · refine ⟨trivial, fun _ => ⟨trivial, ?_⟩⟩
        have hwoken : Holding id (⟨.awaitEvent id, ()⟩ :: ⟨.now, now⟩ :: items) :=
          hnow.cons fun _ => rfl
        rintro (_ | current)
        · exact hwoken.gone
        · have hread : Holding id (⟨.getApproval id, some current⟩ :: _) :=
            hwoken.cons fun _ => rfl
          change Program.Narrates _ _ _ (if _ then _ else _) _
          split
          · exact ⟨trivial, fun _ => hread.pop⟩
          · exact ih hread

theorem wait_releases (polls : Nat) (h : Released items) :
    (service.wait polls id).Narrates Precedes Halts (fun _ items' => Released items')
      items := by
  refine ⟨trivial, ?_⟩
  rintro (_ | request)
  · exact h.cons fun _ => rfl
  · have hread : Released (⟨.getApproval id, some request⟩ :: items) := h.cons fun _ => rfl
    change Program.Narrates _ _ _ (if _ then _ else _) _
    split
    · exact hread
    · refine ⟨⟨request, items, rfl⟩, fun _ => waitLoop_releases _ polls ?_⟩
      refine ⟨fun id' hne hholds => ?_, request, ?_⟩
      · have hother : ensures id' (.ensureEvent id) = false := by simpa [ensures] using hne.symm
        exact (hread id' (holds_of_cons hother hholds).1).cons
      · exact List.mem_cons_of_mem _ List.mem_cons_self

end Wait

section Code

variable (deps : GatewayDeps) {items : Items}

theorem requireApproval_releases (call : Call) (supportsUrlElicitation : Bool) (polls : Nat)
    (h : Released items) :
    (requireApproval deps call supportsUrlElicitation polls).Narrates Precedes Halts
      (fun _ items' => Released items') items := by
  apply Program.Narrates.bind
    (idle_releases (openApproval_only idle_of_isCommon _ fun _ _ _ _ _ _ => rfl) h)
  intro approval items₁ hopened
  change Program.Narrates _ _ _ (if _ then _ else _) _
  split
  · apply Program.Narrates.bind (idle_releases
      (record_only deps idle_of_isCommon idle_of_isDeed _ _ _ _ _ _ _ _ _ _) hopened)
    exact fun _ _ hrecorded => hrecorded
  · apply Program.Narrates.bind (wait_releases polls hopened)
    intro settled items₂ hwaited
    apply Program.Narrates.bind (idle_releases
      (applyApproval_only deps idle_of_isCommon idle_of_isDeed _ _ _ _) hwaited)
    exact fun _ _ happlied => happlied

theorem callTool_releases (invocation : Invocation) (polls : Nat) (h : Released items) :
    (callTool deps invocation polls).Narrates Precedes Halts
      (fun _ items' => Released items') items := by
  refine ⟨trivial, fun started => ⟨trivial, fun found => ?_⟩⟩
  have hfound : Released (⟨.registryGet invocation.name, found⟩ :: ⟨.perfCounter, started⟩ ::
      items) := (h.cons fun _ => rfl).cons fun _ => rfl
  rcases found with _ | tool
  · apply Program.Narrates.bind (idle_releases
      (unknownTool_only deps idle_of_isCommon idle_of_isDeed _ _ _ _) hfound)
    exact fun _ _ h => h
  · dsimp only [Program.bind]
    split
    · exact idle_releases (Program.Only.bind
        (resume_only deps idle_of_isCommon idle_of_isDeed (fun _ _ _ => rfl) _)
        fun _ => trivial) hfound
    · split
      · exact idle_releases (Program.Only.bind
          (forward_only deps idle_of_isCommon idle_of_isDeed _ _) fun _ => trivial) hfound
      · exact idle_releases (Program.Only.bind
          (deny_only deps idle_of_isCommon idle_of_isDeed _) fun _ => trivial) hfound
      · exact requireApproval_releases deps _ _ polls hfound

theorem code_idle {entry : Entry} (h : opensOrWaits entry = false) :
    (code deps entry).Only Idle := by
  cases entry with
  | callTool | openApproval | wait => cases h
  | listTools =>
      exact Program.Only.bind (listTools_only idle_of_isCommon fun _ _ => rfl) fun _ => trivial
  | decide id approved approver note =>
      exact Program.Only.bind (decide_only idle_of_isCommon fun _ _ => rfl) fun _ => trivial
  | dismiss id note =>
      exact Program.Only.bind (dismiss_only idle_of_isCommon fun _ _ => rfl) fun _ => trivial
  | get id => exact Program.Only.bind (get_only idle_of_isCommon id) fun _ => trivial
  | pending => exact Program.Only.bind (pending_only idle_of_isCommon) fun _ => trivial
  | expireOverdue now => exact Program.Only.bind (sweep_only idle_of_isCommon now) fun _ => trivial

theorem code_opensOrWaits (entry : Entry) :
    (code deps entry).Narrates (fun _ op => opensOrWaits entry = true ∨ Idle op)
      (fun _ _ => True) (fun _ _ => True) [] := by
  cases h : opensOrWaits entry
  · exact Program.Only.narrates (fun _ _ hidle => .inr hidle) (fun _ _ _ => trivial)
      (fun _ _ _ _ _ => trivial) (code_idle deps h) trivial
  · exact Program.narrates_of_forall (fun _ _ => .inl rfl) (fun _ _ => trivial) _ _

theorem code_releases (entry : Entry) :
    (code deps entry).Narrates Precedes Halts (fun _ items => Released items) [] := by
  have hnone : Released [] := fun id h => by cases h
  cases entry with
  | callTool invocation polls =>
      apply Program.Narrates.bind (callTool_releases deps invocation polls hnone)
      exact fun _ _ h => h
  | wait id polls =>
      apply Program.Narrates.bind (wait_releases polls hnone)
      exact fun _ _ h => h
  | openApproval tool upstream arguments reason clientName =>
      refine idle_releases (Program.Only.bind ?_ fun _ => trivial) hnone
      exact openApproval_only idle_of_isCommon _ fun _ _ _ _ _ _ => rfl
  | listTools | decide | dismiss | get | pending | expireOverdue =>
      exact idle_releases (code_idle deps rfl) hnone

end Code

section World

variable {op : Op} {choice : Choice} {w w' : World} {answer : Res op} {id : String}

theorem mem_events (h : exec op choice w = some (answer, w')) (hid : id ∈ w'.events) :
    (id ∈ w.events ∧ pops id op = false) ∨ op = .newEvent id ∨ ensures id op = true := by
  cases op
  case newEvent id' =>
    cases h
    rcases List.mem_insert_iff.mp hid with rfl | hmem
    · exact .inr (.inl rfl)
    · exact .inl ⟨hmem, rfl⟩
  case ensureEvent id' =>
    cases h
    rcases List.mem_insert_iff.mp hid with rfl | hmem
    · exact .inr (.inr (by simp [ensures]))
    · exact .inl ⟨hmem, rfl⟩
  case popEvent id' =>
    cases h
    obtain ⟨hmem, hkept⟩ := List.mem_filter.mp hid
    have hne : id' ≠ id := fun heq => by simp [heq] at hkept
    exact .inl ⟨hmem, by simpa [pops] using hne⟩
  case createApproval request =>
    simp only [exec] at h
    split at h <;> cases h <;> exact .inl ⟨hid, rfl⟩
  all_goals
    cases h
    exact .inl ⟨hid, rfl⟩

theorem mem_orphans :
    id ∈ orphans op w ↔
      (op = .newEvent id ∧ isPending w id = false) ∨
        (id ∈ w.events ∧ ∃ row, w.approvals.get id = some row ∧ settles op row = true) := by
  have hfilter : id ∈ w.events.filter (fun id => (w.approvals.get id).any (settles op)) ↔
      id ∈ w.events ∧ ∃ row, w.approvals.get id = some row ∧ settles op row = true := by
    rw [List.mem_filter, Option.any_eq_true]
  cases op
  case newEvent id' =>
    rw [orphans, List.mem_filter, List.mem_singleton]
    constructor
    · rintro ⟨rfl, hsettled⟩
      exact .inl ⟨rfl, by simpa using hsettled⟩
    · rintro (⟨heq, hsettled⟩ | ⟨-, row, -, hsettles⟩)
      · cases heq
        exact ⟨rfl, by simpa using hsettled⟩
      · cases hsettles
  all_goals
    simp only [orphans, hfilter, reduceCtorEq, false_and, false_or]

theorem isPending_of_row {row : ApprovalRequest} (hrow : w.approvals.get id = some row) :
    isPending w id = (row.status == .pending) := by
  rw [isPending, hrow, Option.any_some]

theorem row_of_isPending (h : isPending w id = true) :
    ∃ row, w.approvals.get id = some row ∧ row.status = .pending := by
  obtain ⟨row, hrow, hpending⟩ := (Option.any_eq_true _ _).mp h
  exact ⟨row, hrow, beq_iff_eq.mp hpending⟩

theorem settle_pending (id : String) (approved : Bool) (decidedAt : DateTime)
    (approver : String) (note : Option String) (row : ApprovalRequest) :
    ((ApprovalsTable.settle id approved decidedAt approver note row).status == .pending) =
      (row.status == .pending && !(row.id == id && row.status == .pending)) := by
  rw [ApprovalsTable.settle]
  split
  · rename_i hsettles
    cases approved <;> simp [hsettles]
  · rename_i hkept
    cases hpending : row.status == .pending
    · rfl
    · have hne : row.id ≠ id := fun heq => hkept ⟨heq, beq_iff_eq.mp hpending⟩
      simp [hne]

theorem expire_pending (moment : DateTime) (row : ApprovalRequest) :
    ((ApprovalsTable.expire moment row).status == .pending) =
      (row.status == .pending && !ApprovalsTable.overdue moment row) := by
  rw [ApprovalsTable.expire]
  split
  · rename_i hoverdue
    simp [hoverdue]
  · rename_i hkept
    simp [hkept]

theorem isPending_exec (h : exec op choice w = some (answer, w')) {row : ApprovalRequest}
    (hrow : w.approvals.get id = some row) :
    isPending w' id = (row.status == .pending && !settles op row) := by
  cases op
  case createApproval request =>
    -- A row that is on file is not written over.
    have hsame : w'.approvals.get id = w.approvals.get id := by
      rcases exec_row h id with hsame | ⟨request, -, -, hnone, -⟩ | ⟨_, _, _, _, _, hop, -⟩ |
        ⟨_, _, hop, -⟩
      · exact hsame
      · rw [hrow] at hnone
        cases hnone
      · cases hop
      · cases hop
    rw [isPending_of_row (hsame.trans hrow)]
    simp [settles]
  case resolveApproval id' approved decidedAt approver note =>
    cases h
    have hafter : (w.approvals.resolve id' approved decidedAt approver note).2.get id =
        some (ApprovalsTable.settle id' approved decidedAt approver note row) := by
      rw [ApprovalsTable.get_resolve, hrow, Option.map_some]
    exact (isPending_of_row hafter).trans (settle_pending _ _ _ _ _ row)
  case expireOverdue moment =>
    cases h
    have hafter : (w.approvals.expireOverdue moment).2.get id =
        some (ApprovalsTable.expire moment row) := by
      rw [ApprovalsTable.get_expireOverdue, hrow, Option.map_some]
    exact (isPending_of_row hafter).trans (expire_pending moment row)
  all_goals
    cases h
    refine (isPending_of_row hrow).trans ?_
    simp [settles]

theorem orphan_exec (h : exec op choice w = some (answer, w')) (hid : id ∈ orphans op w) :
    id ∈ w'.events ∧ isPending w' id = false := by
  rcases mem_orphans.mp hid with ⟨rfl, hsettled⟩ | ⟨hmem, row, hrow, hsettles⟩
  · cases h
    exact ⟨List.mem_insert_self, hsettled⟩
  · refine ⟨?_, by simp [isPending_exec h hrow, hsettles]⟩
    cases op
    case resolveApproval | expireOverdue =>
      cases h
      exact hmem
    all_goals
      cases hsettles

theorem idle_of_orphan (hid : id ∈ orphans op w) :
    ensures id op = false ∧ ∀ id', op ≠ .getApproval id' := by
  rcases mem_orphans.mp hid with ⟨rfl, -⟩ | ⟨-, row, -, hsettles⟩
  · exact ⟨rfl, fun _ => by simp⟩
  · cases op
    case resolveApproval | expireOverdue => exact ⟨rfl, fun _ => by simp⟩
    all_goals
      cases hsettles

end World

section Steps

variable {deps : GatewayDeps} {world : World} {visits : List GateVisit} {c c' : GateConfig}
  {label : GateLabel} {choice : Choice} {entry : Entry} {rest : Prog Reply} {op : Op}
  {answer : Res op} {i j : Nat} {id : String}

theorem not_vanished {A : GateAssumption}
    (hreach : (machine deps).Reaches A (Config.initial world) c) :
    ¬Vanished id (journal i c.state.history) := by
  rintro ⟨row, earlier, hgone, hread⟩
  obtain ⟨newer, entry, before, older, c₁, next, after, -, hjournal, hperformed⟩ :=
    hreach.performed_item rfl hgone
  rw [← hjournal] at hread
  obtain ⟨⟨i', entry', op', answer', before'⟩, hevent, -, hitem⟩ := mem_journal.mp hread
  cases hitem
  obtain ⟨newer', older', hsplit⟩ := List.append_of_mem hevent
  have hhistory := congrArg (·.history) hperformed.state
  obtain ⟨c₂, next', after', hperformed'⟩ :=
    hperformed.reached.performed rfl (hhistory.trans hsplit)
  obtain ⟨choice, hexec⟩ := hperformed.exec
  obtain ⟨hnone, -⟩ := Prod.mk.inj (Option.some.inj hexec)
  obtain ⟨choice', hexec'⟩ := hperformed'.exec
  obtain ⟨hsome, rfl⟩ := Prod.mk.inj (Option.some.inj hexec')
  obtain ⟨row', hrow'⟩ :=
    exists_row_later (evolves_of_reaches hperformed'.later) ⟨row, hsome⟩
  rw [hperformed.state, hnone] at hrow'
  cases hrow'

theorem waiting_of_task (htask : c.tasks[i]? = some ⟨entry, rest⟩) :
    waiting c i id = (rest.head.any (ensures id) ||
      (underway rest && holds id (journal i c.state.history))) := by
  rw [waiting, upcoming_of_task htask, htask, Option.any_some]

theorem waiting_other (hstep : (machine deps).step c label = some c')
    (hj : c.moved label ≠ some j) : waiting c' j id = waiting c j id := by
  have hjournal : journal j c'.state.history = journal j c.state.history := by
    obtain ⟨entry, rfl, rfl⟩ | ⟨i, choice, entry, op, next, answer, world, rfl, -, -, rfl⟩ |
      ⟨change, world, rfl, -, rfl⟩ | ⟨i, entry, op, next, rfl, -, rfl⟩ :=
        Machine.step_cases hstep
    · rfl
    · exact journal_cons_other fun heq => hj (congrArg some heq)
    · rfl
    · rfl
  rw [waiting, waiting, step_upcoming hstep hj, step_task hstep hj, hjournal]

theorem mem_waiters : i ∈ waiters c id ↔ waiting c i id = true := by
  rw [waiters, List.mem_filter, List.mem_range, and_iff_right_iff_imp]
  intro hwaiting
  apply Nat.lt_of_not_le
  intro hge
  have hnone : c.tasks[i]? = none := List.getElem?_eq_none hge
  simp [waiting, Config.upcoming, hnone] at hwaiting

theorem attended_iff :
    Attended c ↔ ∀ id ∈ c.state.world.events,
      isPending c.state.world id = true ∨ ∃ i, waiting c i id = true := by
  refine forall₂_congr fun id _ => ?_
  rw [or_iff_not_imp_right, not_exists]
  simp

theorem underway_of_holds {items : Items}
    (h : rest.Narrates Precedes Halts (fun _ items' => Released items') items)
    (hholds : holds id items = true) (hfound : ¬Vanished id items) :
    underway rest = true := by
  cases rest with
  | ret reply => exact absurd (h id hholds) hfound
  | fail halt =>
      rcases h with rfl | hreleased
      · rfl
      · exact absurd (hreleased id hholds) hfound
  | perform op next => rfl

theorem precedes_of_head {items : Items}
    (h : rest.Narrates Precedes Halts (fun _ items' => Released items') items)
    (hhead : rest.head = some op) : Precedes items op := by
  cases rest with
  | perform op' next =>
      obtain rfl := Option.some.inj hhead
      exact h.1
  | ret | fail => cases hhead

theorem mindful_act :
    mindful (c, .act i choice) = true ↔ ∀ op, c.upcoming i = some op →
      ∀ id ∈ orphans op c.state.world, ∃ j, waiting c j id = true := by
  simp only [mindful, Option.all_eq_true, List.all_eq_true]
  refine forall₄_congr fun op _ id _ => ?_
  rw [Bool.not_eq_true', List.isEmpty_eq_false_iff_exists_mem]
  exact exists_congr fun j => mem_waiters

section Act

variable (hruns : (machine deps).Runs (Config.initial world) visits c)
  (hstep : (machine deps).step c (.act i choice) = some c')
include hruns hstep

theorem act_narrates :
    ∃ entry op next answer, c.tasks[i]? = some ⟨entry, .perform op next⟩ ∧
      exec op choice c.state.world = some (answer, c'.state.world) ∧
      c'.tasks[i]? = some ⟨entry, next answer⟩ ∧
      journal i c'.state.history = ⟨op, answer⟩ :: journal i c.state.history ∧
      (next answer).Narrates Precedes Halts (fun _ items => Released items)
        (journal i c'.state.history) := by
  obtain ⟨entry, op, next, answer, world', htask, hexec, rfl⟩ := Machine.act_cases hstep
  have hlt := (List.getElem?_eq_some_iff.mp htask).1
  refine ⟨entry, op, next, answer, htask, hexec, List.getElem?_set_self hlt,
    journal_cons_self _ _ _ _, ?_⟩
  rcases (hruns.narrated (code_releases deps)).tasks i entry _ htask with
    ⟨hcancelled, -⟩ | hnarrates
  · cases hcancelled
  · rw [State.push_history, journal_cons_self]
    exact hnarrates.2 answer

theorem waiting_act (hop : ∀ op, c.upcoming i = some op → pops id op = false)
    (h : waiting c j id = true) : waiting c' j id = true := by
  rcases eq_or_ne i j with rfl | hne
  · obtain ⟨entry, op, next, answer, htask, -, hafter, hjournal, hnarrates⟩ :=
      act_narrates hruns hstep
    have hkept := hop op (upcoming_of_task htask)
    have hholds : holds id (journal i c'.state.history) = true := by
      rw [waiting_of_task htask, Bool.or_eq_true] at h
      rw [hjournal]
      rcases h with hensures | hheld
      · have hensures : ensures id op = true := hensures
        simp [holds, held, hensures]
      · exact holds_cons hkept hheld
    have hunderway := underway_of_holds hnarrates hholds
      (not_vanished (hruns.tail hstep).reaches)
    rw [waiting_of_task hafter, hunderway, hholds]
    exact Bool.or_true _
  · rw [waiting_other hstep fun heq => hne (Option.some.inj heq)]
    exact h

theorem waiting_of_act (hop : ∀ op, c.upcoming i = some op →
      ensures id op = false ∧ ∀ id, op ≠ .getApproval id)
    (h : waiting c' j id = true) : waiting c j id = true := by
  rcases eq_or_ne i j with rfl | hne
  · obtain ⟨entry, op, next, answer, htask, -, hafter, hjournal, hnarrates⟩ :=
      act_narrates hruns hstep
    obtain ⟨hidle, hlook⟩ := hop op (upcoming_of_task htask)
    rw [waiting_of_task hafter, Bool.or_eq_true] at h
    rw [waiting_of_task htask]
    rcases h with hupcoming | hheld
    · obtain ⟨op', hhead, hensures⟩ := (Option.any_eq_true _ _).mp hupcoming
      have hprecedes := precedes_of_head hnarrates hhead
      cases op' with
      | ensureEvent id' =>
          obtain ⟨row, earlier, hread⟩ := hprecedes
          rw [hjournal] at hread
          cases (List.cons.inj hread).1
          exact absurd rfl (hlook id')
      | _ => cases hensures
    · rw [hjournal, Bool.and_eq_true] at hheld
      have hholds := (holds_of_cons hidle hheld.2).1
      simp [underway, hholds]
  · rw [waiting_other hstep fun heq => hne (Option.some.inj heq)] at h
    exact h

theorem attended_act (hattended : Attended c) (hmindful : mindful (c, .act i choice) = true) :
    Attended c' := by
  obtain ⟨entry, op, next, answer, htask, hexec, -⟩ := act_narrates hruns hstep
  have hupcoming := upcoming_of_task htask
  have hwaiters := mindful_act.mp hmindful op hupcoming
  have hlater : ∀ {id}, pops id op = false → (∃ j, waiting c j id = true) →
      ∃ j, waiting c' j id = true := by
    rintro id hkept ⟨j, hwaiting⟩
    refine ⟨j, waiting_act hruns hstep ?_ hwaiting⟩
    rintro op' hop'
    cases hupcoming.symm.trans hop'
    exact hkept
  rw [attended_iff] at hattended ⊢
  intro id hid
  -- The event was there before, has been put in place, or is ensured by a wait.
  rcases mem_events hexec hid with ⟨hmem, hkept⟩ | rfl | hensures
  · rcases hattended id hmem with hpending | hwaiting
    · obtain ⟨row, hrow, hstatus⟩ := row_of_isPending hpending
      cases hsettles : settles op row
      · left
        simp [isPending_exec hexec hrow, hstatus, hsettles]
      · exact .inr (hlater hkept
          (hwaiters id (mem_orphans.mpr (.inr ⟨hmem, row, hrow, hsettles⟩))))
    · exact .inr (hlater hkept hwaiting)
  · cases hpending : isPending c.state.world id
    · exact .inr (hlater rfl (hwaiters id (mem_orphans.mpr (.inl ⟨rfl, hpending⟩))))
    · left
      obtain ⟨row, hrow, hstatus⟩ := row_of_isPending hpending
      simp [isPending_exec hexec hrow, hstatus, settles]
  · have hwaiting : waiting c i id = true := by
      rw [waiting_of_task htask, Bool.or_eq_true]
      exact .inl hensures
    have hkept : pops id op = false := by
      cases op <;> first | rfl | cases hensures
    exact .inr (hlater hkept ⟨i, hwaiting⟩)

theorem mindful_of_attended (hattended : Attended c') :
    mindful (c, .act i choice) = true := by
  obtain ⟨entry, op, next, answer, htask, hexec, -⟩ := act_narrates hruns hstep
  refine mindful_act.mpr fun op' hop' id hid => ?_
  cases (upcoming_of_task htask).symm.trans hop'
  obtain ⟨hmem, hsettled⟩ := orphan_exec hexec hid
  rcases attended_iff.mp hattended id hmem with hpending | ⟨j, hwaiting⟩
  · rw [hsettled] at hpending
    cases hpending
  · refine ⟨j, waiting_of_act hruns hstep ?_ hwaiting⟩
    rintro op' hop''
    cases hop'.symm.trans hop''
    exact idle_of_orphan hid

end Act

theorem attended_of_same (hevents : c'.state.world.events = c.state.world.events)
    (happrovals : c'.state.world.approvals = c.state.world.approvals)
    (hwaiting : ∀ j id, waiting c j id = true → waiting c' j id = true)
    (hattended : Attended c) : Attended c' := by
  rw [attended_iff] at hattended ⊢
  rw [hevents]
  intro id hid
  rw [isPending, happrovals]
  rcases hattended id hid with hpending | ⟨j, hj⟩
  · exact .inl hpending
  · exact .inr ⟨j, hwaiting j id hj⟩

theorem attended_cancel (hstep : (machine deps).step c (.cancel i) = some c')
    (hattended : Attended c) : mindful (c, .cancel i) = true ↔ Attended c' := by
  have hstate : c'.state = c.state ∧ ∀ id, waiting c' i id = false := by
    obtain ⟨entry, op, next, htask, rfl⟩ := Machine.cancel_cases hstep
    have hlt := (List.getElem?_eq_some_iff.mp htask).1
    refine ⟨rfl, fun id => ?_⟩
    rw [waiting_of_task (List.getElem?_set_self hlt)]
    rfl
  obtain ⟨hstate, hcancelled⟩ := hstate
  have hothers : ∀ j id, j ≠ i → waiting c' j id = waiting c j id := by
    intro j id hne
    exact waiting_other hstep fun heq => hne (Option.some.inj heq).symm
  rw [attended_iff] at hattended
  rw [attended_iff, hstate]
  simp only [mindful, List.all_eq_true, Bool.or_eq_true, List.any_eq_true, bne_iff_ne,
    Bool.not_eq_true', mem_waiters]
  refine forall₂_congr fun id hid => ?_
  constructor
  · rintro ((hnot | hpending) | ⟨j, hwaiting, hne⟩)
    · rcases hattended id hid with hpending | ⟨j, hwaiting⟩
      · exact .inl hpending
      · have hne : j ≠ i := by
          rintro rfl
          rw [hnot] at hwaiting
          cases hwaiting
        exact .inr ⟨j, (hothers j id hne).trans hwaiting⟩
    · exact .inl hpending
    · exact .inr ⟨j, (hothers j id hne).trans hwaiting⟩
  · rintro (hpending | ⟨j, hwaiting⟩)
    · exact .inl (.inr hpending)
    · have hne : j ≠ i := by
        rintro rfl
        rw [hcancelled] at hwaiting
        cases hwaiting
      exact .inr ⟨j, (hothers j id hne).symm.trans hwaiting, hne⟩

/-- A step keeps every event attended exactly if it is a mindful one. -/
theorem attended_step (hruns : (machine deps).Runs (Config.initial world) visits c)
    (hstep : (machine deps).step c label = some c') (hattended : Attended c) :
    mindful (c, label) = true ↔ Attended c' := by
  cases label with
  | act i choice =>
      exact ⟨attended_act hruns hstep hattended, mindful_of_attended hruns hstep⟩
  | start entry =>
      refine iff_of_true rfl ?_
      have hsame := Option.some.inj hstep
      refine attended_of_same (by rw [← hsame]) (by rw [← hsame]) ?_ hattended
      intro j id hwaiting
      have hlt := List.mem_range.mp (List.mem_filter.mp (mem_waiters.mpr hwaiting)).1
      have hother : c.moved (.start entry : GateLabel) ≠ some j :=
        fun heq => hlt.ne' (Option.some.inj heq)
      exact (waiting_other hstep hother).trans hwaiting
  | env change =>
      refine iff_of_true rfl ?_
      obtain ⟨world', henv, rfl⟩ := Option.map_eq_some_iff.mp hstep
      have hsame : world'.events = c.state.world.events ∧
          world'.approvals = c.state.world.approvals := by
        cases change <;> cases henv <;> exact ⟨rfl, rfl⟩
      refine attended_of_same hsame.1 hsame.2 ?_ hattended
      exact fun j id hwaiting => (waiting_other hstep (by simp [Config.moved])).trans hwaiting
  | cancel i => exact attended_cancel hstep hattended

theorem mem_of_held {takes gives : Op → Bool} {items : Items}
    (h : held takes gives items = true) : ∃ item ∈ items, takes item.1 = true := by
  induction items with
  | nil => cases h
  | cons item items ih =>
      rw [held, Bool.or_eq_true, Bool.and_eq_true] at h
      rcases h with htakes | ⟨-, hheld⟩
      · exact ⟨item, List.mem_cons_self, htakes⟩
      · obtain ⟨earlier, hmem, htakes⟩ := ih hheld
        exact ⟨earlier, List.mem_cons_of_mem _ hmem, htakes⟩

theorem busy_of_waiting (hruns : (machine deps).Runs (Config.initial world) visits c)
    (htask : c.tasks[i]? = some ⟨entry, rest⟩) (h : waiting c i id = true) :
    opensOrWaits entry = true ∧ underway rest = true := by
  have hnarrated := hruns.narrated (code_opensOrWaits deps)
  rw [waiting_of_task htask, Bool.or_eq_true, Bool.and_eq_true] at h
  rcases h with hupcoming | ⟨hunderway, hholds⟩
  · obtain ⟨op, hhead, hensures⟩ := (Option.any_eq_true _ _).mp hupcoming
    cases rest with
    | perform op' next =>
        obtain rfl := Option.some.inj hhead
        refine ⟨(hnarrated.next htask).resolve_right fun hidle => ?_, rfl⟩
        rw [hidle id] at hensures
        cases hensures
    | ret | fail => cases hhead
  · refine ⟨?_, hunderway⟩
    obtain ⟨item, hitem, hensures⟩ := mem_of_held hholds
    obtain ⟨event, hevent, howner, rfl⟩ := mem_journal.mp hitem
    obtain ⟨newer, older, hsplit⟩ := List.append_of_mem hevent
    obtain ⟨rest', hentry⟩ := hnarrated.owners event hevent
    rw [howner, htask] at hentry
    have hbefore := hruns.reaches.before_event (code_opensOrWaits deps) hsplit
    rw [← (Task.mk.inj (Option.some.inj hentry)).1] at hbefore
    refine hbefore.resolve_right fun hidle => ?_
    change ensures id event.op = true at hensures
    rw [hidle id] at hensures
    cases hensures

theorem pending_of_quiet (hruns : (machine deps).Runs (Config.initial world) visits c)
    (hattended : Attended c) (hquiet : Quiet c) :
    ∀ id ∈ c.state.world.events, isPending c.state.world id = true := by
  intro id hid
  refine hattended id hid fun i => ?_
  rw [Bool.eq_false_iff]
  intro hwaiting
  rcases htask : c.tasks[i]? with _ | ⟨entry, rest⟩
  · rw [waiting, Config.upcoming, htask] at hwaiting
    cases hwaiting
  · obtain ⟨hentry, hunderway⟩ := busy_of_waiting hruns htask hwaiting
    rw [hquiet _ (List.mem_of_getElem? htask) hentry] at hunderway
    cases hunderway

theorem pending_of_attended (hruns : (machine deps).Runs (Config.initial world) visits c) :
    ∀ c₁ ∈ c :: visits.map Prod.fst, Attended c₁ → Quiet c₁ →
      ∀ id ∈ c₁.state.world.events, isPending c₁.state.world id = true := by
  induction hruns with
  | refl =>
      intro c₁ hmem hattended hquiet
      obtain rfl := List.mem_singleton.mp hmem
      exact pending_of_quiet (Machine.Runs.refl (M := machine deps)) hattended hquiet
  | @tail visits c c' label hruns hstep ih =>
      rw [List.map_cons, List.forall_mem_cons]
      exact ⟨pending_of_quiet (hruns.tail hstep), ih⟩

end Steps

theorem attended_run {deps : GatewayDeps} {world : World} {visits : List GateVisit}
    {c : GateConfig} (hworld : ∀ id ∈ world.events, isPending world id = true)
    (hruns : (machine deps).Runs (Config.initial world) visits c) :
    (∀ c₁ ∈ c :: visits.map Prod.fst, Attended c₁) ↔
      ∀ visit ∈ visits, mindful visit = true := by
  induction hruns with
  | refl =>
      have hinitial : Attended (Config.initial world : GateConfig) :=
        fun id hid _ => hworld id hid
      simpa using hinitial
  | @tail visits c c' label hruns hstep ih =>
      rw [List.forall_mem_cons, List.map_cons, List.forall_mem_cons (a := (c, label)), ih.symm]
      constructor
      · rintro ⟨hafter, hbefore⟩
        have hattended := hbefore c List.mem_cons_self
        exact ⟨(attended_step hruns hstep hattended).mpr hafter, hbefore⟩
      · rintro ⟨hmindful, hbefore⟩
        have hattended := hbefore c List.mem_cons_self
        exact ⟨(attended_step hruns hstep hattended).mp hmindful, hbefore⟩

/-- From a start with no event but those of pending requests: a run keeps every event
attended, in each state it goes through, exactly if each of its steps is mindful; and then
every event is that of a pending request whenever no call that opens or waits is in
progress. -/
theorem attended_iff_mindful {deps : GatewayDeps} {world : World} {visits : List GateVisit}
    {c : GateConfig} (hworld : ∀ id ∈ world.events, isPending world id = true)
    (hruns : (machine deps).Runs (Config.initial world) visits c) :
    ((∀ c₁ ∈ c :: visits.map Prod.fst, Attended c₁) ↔
      ∀ visit ∈ visits, mindful visit = true) ∧
    ((∀ visit ∈ visits, mindful visit = true) → ∀ c₁ ∈ c :: visits.map Prod.fst, Quiet c₁ →
      ∀ id ∈ c₁.state.world.events, isPending c₁.state.world id = true) := by
  have hattended := attended_run hworld hruns
  refine ⟨hattended, fun hmindful c₁ hmem hquiet => ?_⟩
  exact pending_of_attended hruns c₁ hmem (hattended.mpr hmindful c₁ hmem) hquiet

/-- The request is approved while task 1 waits for it. -/
def waitedFor : List GateLabel :=
  opening ++ .start (.wait "a" 1) :: acts 1 4 ++ approving 2 ++ acts 1 2

theorem attended_waitedFor :
    ∃ c : GateConfig, (machine deps).run .none (Config.initial office) waitedFor = some c ∧
      ∀ c₁ ∈ c :: ((machine deps).visits (Config.initial office) waitedFor).map Prod.fst,
        Attended c₁ := by
  obtain ⟨c, hrun⟩ : ∃ c : GateConfig,
      (machine deps).run .none (Config.initial office) waitedFor = some c := ⟨_, rfl⟩
  have hruns := Machine.runs_of_run hrun
  have hnone : ∀ id ∈ office.events, isPending office id = true := fun id hid => by cases hid
  exact ⟨c, hrun, (attended_iff_mindful hnone hruns).1.mpr (by decide)⟩

/-- The request is opened and approved, and nobody ever waits for it. -/
def unwaitedFor : List GateLabel :=
  opening ++ approving 1

/-- Every call has returned, and the event of the approved request is still there. -/
theorem event_left_behind :
    ¬∀ c : GateConfig, (machine deps).Reaches .none (Config.initial office) c →
      (∀ task ∈ c.tasks, underway task.rest = false) →
        ∀ id ∈ c.state.world.events, isPending c.state.world id = true := by
  intro h
  obtain ⟨c, hrun, hquiet, hevents, hsettled⟩ : ∃ c : GateConfig,
      (machine deps).run .none (Config.initial office) unwaitedFor = some c ∧
        (∀ task ∈ c.tasks, underway task.rest = false) ∧ c.state.world.events = ["a"] ∧
          isPending c.state.world "a" = false := ⟨_, rfl, by decide, rfl, by decide⟩
  have hpending := h c (Machine.reaches_of_run hrun) hquiet "a" (by simp [hevents])
  rw [hsettled] at hpending
  cases hpending

end McpGatekeeper.Wakeups
