import McpGatekeeper.Conduct
import McpGatekeeper.Scenarios

namespace McpGatekeeper.WriteOnce

open Interleaving
open McpGatekeeper.Approvals
open McpGatekeeper.Clock
open McpGatekeeper.Conduct
open McpGatekeeper.Gateway
open McpGatekeeper.Operations
open McpGatekeeper.Scenarios
open McpGatekeeper.System

/-- The columns `create` writes and no later statement touches. -/
structure SameRequest (row row' : ApprovalRequest) : Prop where
  id : row'.id = row.id
  createdAt : row'.createdAt = row.createdAt
  expiresAt : row'.expiresAt = row.expiresAt
  tool : row'.tool = row.tool
  upstream : row'.upstream = row.upstream
  arguments : row'.arguments = row.arguments
  reason : row'.reason = row.reason
  clientName : row'.clientName = row.clientName

theorem sameRequest_of_advances {row row' : ApprovalRequest} (h : Advances row row') :
    SameRequest row row' := by
  cases h <;> exact ⟨rfl, rfl, rfl, rfl, rfl, rfl, rfl, rfl⟩

/-- The operation found the row on file and changed it. -/
def TakesEffect (id : String) (event : GateEvent) : Prop :=
  ∃ row, event.before.approvals.get id = some row ∧
    (event.op.leaves event.before.approvals).get id ≠ some row

def Untouched (id : String) (history : List GateEvent) : Prop :=
  ∀ event ∈ history, ¬ TakesEffect id event

/-- Exactly one operation changed the row, and left it as it is. -/
def SettledOnce (id : String) (row : ApprovalRequest) (history : List GateEvent) : Prop :=
  ∃ newer event older, history = newer ++ event :: older ∧ TakesEffect id event ∧
    (event.op.leaves event.before.approvals).get id = some row ∧
    Untouched id (newer ++ older)

/-- A `resolve` of the request, or a sweep at or after its deadline, that finds it on file. -/
def Competes (id : String) (event : GateEvent) : Prop :=
  ∃ found, event.before.approvals.get id = some found ∧
    ((∃ approved decidedAt approver note,
      event.op = .resolveApproval id approved decidedAt approver note) ∨
      ∃ moment, event.op = .expireOverdue moment ∧ found.expiresAt ≤ moment)

theorem Untouched.cons {id : String} {history : List GateEvent} {event : GateEvent}
    (h : Untouched id history) (hevent : ¬ TakesEffect id event) :
    Untouched id (event :: history) := by
  intro other hother
  rcases List.mem_cons.mp hother with rfl | hother
  · exact hevent
  · exact h other hother

theorem SettledOnce.cons {id : String} {row : ApprovalRequest} {history : List GateEvent}
    {event : GateEvent} (h : SettledOnce id row history) (hevent : ¬ TakesEffect id event) :
    SettledOnce id row (event :: history) := by
  obtain ⟨newer, settling, older, rfl, heffect, hleft, huntouched⟩ := h
  exact ⟨event :: newer, settling, older, rfl, heffect, hleft, huntouched.cons hevent⟩

theorem settledOnce_cons {id : String} {row : ApprovalRequest} {history : List GateEvent}
    {event : GateEvent} (h : Untouched id history) (hevent : TakesEffect id event)
    (hleft : (event.op.leaves event.before.approvals).get id = some row) :
    SettledOnce id row (event :: history) :=
  ⟨[], event, history, rfl, hevent, hleft, h⟩

/-- How the row under a key and the history account for each other. -/
structure Accounted (s : GateState) (id : String) : Prop where
  unsettled : (∀ row, s.world.approvals.get id = some row → row.status = .pending) →
    Untouched id s.history
  settled : ∀ row, s.world.approvals.get id = some row → row.status ≠ .pending →
    SettledOnce id row s.history
  undecided : ∀ row, s.world.approvals.get id = some row →
    (row.status = .pending ↔ row.decidedAt = none ∧ row.approver = none)

theorem Accounted.push_same {s : GateState} {id : String} {event : GateEvent}
    {world : World} (h : Accounted s id) (hbefore : event.before = s.world)
    (hleaves : world.approvals = event.op.leaves s.world.approvals)
    (hsame : world.approvals.get id = s.world.approvals.get id) :
    Accounted (s.push event world) id := by
  have hevent : ¬ TakesEffect id event := by
    rintro ⟨row, hrow, hchanged⟩
    rw [hbefore] at hrow hchanged
    rw [← hleaves, hsame] at hchanged
    exact hchanged hrow
  constructor
  · intro hpending
    rw [State.push_world, hsame] at hpending
    exact (h.unsettled hpending).cons hevent
  · intro row hrow hsettled
    rw [State.push_world, hsame] at hrow
    exact (h.settled row hrow hsettled).cons hevent
  · intro row hrow
    rw [State.push_world, hsame] at hrow
    exact h.undecided row hrow

theorem Accounted.push_settled {s : GateState} {id : String} {event : GateEvent}
    {world : World} {row row' : ApprovalRequest} {decidedAt : DateTime}
    (h : Accounted s id) (hbefore : event.before = s.world)
    (hleaves : world.approvals = event.op.leaves s.world.approvals)
    (hrow : s.world.approvals.get id = some row) (hpending : row.status = .pending)
    (hrow' : world.approvals.get id = some row') (hstatus : row'.status ≠ .pending)
    (hdecidedAt : row'.decidedAt = some decidedAt) :
    Accounted (s.push event world) id := by
  have huntouched : Untouched id s.history := by
    refine h.unsettled fun other hother => ?_
    rw [hrow] at hother
    obtain rfl := Option.some.inj hother
    exact hpending
  have hleft : (event.op.leaves event.before.approvals).get id = some row' := by
    rw [hbefore, ← hleaves, hrow']
  have hevent : TakesEffect id event := by
    refine ⟨row, by rw [hbefore, hrow], ?_⟩
    rw [hleft]
    rintro heq
    obtain rfl := Option.some.inj heq
    exact hstatus hpending
  constructor
  · intro hall
    exact absurd (hall row' hrow') hstatus
  · intro other hother _
    rw [State.push_world, hrow'] at hother
    obtain rfl := Option.some.inj hother
    exact settledOnce_cons huntouched hevent hleft
  · intro other hother
    rw [State.push_world, hrow'] at hother
    obtain rfl := Option.some.inj hother
    simp [hstatus, hdecidedAt]

theorem accounted_exec {i : Nat} {entry : Entry} {op : Op} {choice : Choice} {s : GateState}
    {answer : Res op} {world : World} {deps : GatewayDeps} (hallowed : Allowed deps entry op)
    (hexec : exec op choice s.world = some (answer, world)) (id : String)
    (h : Accounted s id) :
    Accounted (s.push ⟨i, entry, op, answer, s.world⟩ world) id := by
  have hleaves := exec_leaves hexec
  rcases exec_row hexec id with hsame | ⟨request, rfl, hid, hnone, hrow'⟩ |
    ⟨row, approved, decidedAt, approver, note, rfl, hrow, hpending, hrow'⟩ |
    ⟨row, moment, rfl, hrow, hpending, -, hrow'⟩
  · exact h.push_same rfl hleaves hsame
  · have hevent : ¬ TakesEffect id ⟨i, entry, .createApproval request, answer, s.world⟩ := by
      rintro ⟨row, hrow, -⟩
      rw [hnone] at hrow
      cases hrow
    have huntouched : Untouched id s.history := by
      refine h.unsettled fun row hrow => ?_
      rw [hnone] at hrow
      cases hrow
    constructor
    · exact fun _ => huntouched.cons hevent
    · intro row hrow hsettled
      rw [State.push_world, hrow'] at hrow
      obtain rfl := Option.some.inj hrow
      exact absurd hallowed hsettled
    · intro row hrow
      rw [State.push_world, hrow'] at hrow
      obtain rfl := Option.some.inj hrow
      exact iff_of_true hallowed ⟨rfl, rfl⟩
  · exact h.push_settled rfl hleaves hrow hpending hrow' (by cases approved <;> simp) rfl
  · exact h.push_settled rfl hleaves hrow hpending hrow' (by simp) rfl

theorem accounted_preserved (deps : GatewayDeps) (A : GateAssumption) (id : String) :
    (conduct deps A).Preserves (Accounted · id) where
  exec := fun _ h _ hpre hexec => accounted_exec hpre.2 hexec id h
  env := by
    intro change s world _ h _ henv
    have happrovals : world.approvals = s.world.approvals := by
      cases change <;> cases henv <;> rfl
    constructor
    · simpa [happrovals] using h.unsettled
    · simpa [happrovals] using h.settled
    · simpa [happrovals] using h.undecided

theorem accounted_of_reaches {deps : GatewayDeps} {A : GateAssumption} {world : World}
    (hempty : world.approvals = .empty) {c : GateConfig}
    (hreach : (machine deps).Reaches A (Config.initial world) c) (id : String) :
    Accounted c.state id := by
  have hinitial : (conduct deps A).Good (fun _ _ _ _ => True) (Config.initial world) :=
    .initial trivial
  refine hinitial.invariant (conduct_kept deps A) (accounted_preserved deps A id) ?_ hreach
  have hnone : world.approvals.get id = none := by rw [hempty]; rfl
  constructor
  · exact fun _ event hevent => absurd hevent List.not_mem_nil
  · intro row hrow
    rw [Config.initial, hnone] at hrow
    cases hrow
  · intro row hrow
    rw [Config.initial, hnone] at hrow
    cases hrow

theorem leaves_of_competes {id : String} {event : GateEvent} (h : Competes id event) :
    ∃ row, (event.op.leaves event.before.approvals).get id = some row ∧
      row.status ≠ .pending := by
  obtain ⟨found, hfound, ⟨approved, decidedAt, approver, note, hop⟩ | ⟨moment, hop, hdue⟩⟩ := h
  · rw [hop, Op.leaves, ApprovalsTable.get_resolve, hfound]
    exact ⟨_, rfl, ApprovalsTable.settle_resolved (ApprovalsTable.id_of_get hfound) approved
      decidedAt approver note⟩
  · rw [hop, Op.leaves, ApprovalsTable.get_expireOverdue, hfound]
    refine ⟨_, rfl, ?_⟩
    unfold ApprovalsTable.expire
    split
    · simp
    · rename_i hkept
      intro hpending
      apply hkept
      rw [ApprovalsTable.overdue, hpending, Bool.and_eq_true, decide_eq_true_iff, isoformat_le]
      exact ⟨rfl, hdue⟩

/-- Whoever competes for a row, it is settled from then on. -/
theorem settled_of_competes {deps : GatewayDeps} {A : GateAssumption} {world : World}
    {c : GateConfig} (hreach : (machine deps).Reaches A (Config.initial world) c) {id : String}
    {event : GateEvent} (hevent : event ∈ c.state.history) (h : Competes id event)
    {row : ApprovalRequest} (hrow : c.state.world.approvals.get id = some row) :
    row.status ≠ .pending := by
  obtain ⟨newer, older, hsplit⟩ := List.append_of_mem hevent
  obtain ⟨choice, after, hexec, hevo⟩ := ((conduct_good hreach).past _ _ _ hsplit).exec
  obtain ⟨left, hleft, hsettled⟩ := leaves_of_competes h
  rw [← exec_leaves hexec] at hleft
  have hstands := hevo.1.approvals.settled hleft hsettled
  rw [hrow] at hstands
  obtain rfl := Option.some.inj hstands
  exact hsettled

theorem resolve_answered {deps : GatewayDeps} {A : GateAssumption} {world : World}
    {c : GateConfig} (hreach : (machine deps).Reaches A (Config.initial world) c)
    {i : Nat} {entry : Entry} {id : String} {approved : Bool} {decidedAt : DateTime}
    {approver : String} {note : Option String} {answer : Option ApprovalRequest}
    {before : World} {found : ApprovalRequest}
    (hevent : ⟨i, entry, .resolveApproval id approved decidedAt approver note, answer,
      before⟩ ∈ c.state.history) (hfound : before.approvals.get id = some found) :
    ∃ row, answer = some row ∧ row.status ≠ .pending ∧
      c.state.world.approvals.get id = some row := by
  obtain ⟨newer, older, hsplit⟩ := List.append_of_mem hevent
  obtain ⟨choice, after, hexec, hevo⟩ := ((conduct_good hreach).past _ _ _ hsplit).exec
  change exec (.resolveApproval id approved decidedAt approver note) choice before =
    some (answer, after) at hexec
  cases hexec
  have hrow : (before.approvals.resolve id approved decidedAt approver note).2.get id =
      some (ApprovalsTable.settle id approved decidedAt approver note found) := by
    rw [ApprovalsTable.get_resolve, hfound, Option.map_some]
  have hsettled := ApprovalsTable.settle_resolved (ApprovalsTable.id_of_get hfound) approved
    decidedAt approver note
  exact ⟨_, (ApprovalsTable.resolve_answer _ _ _ _ _ _).trans hrow, hsettled,
    hevo.1.approvals.settled hrow hsettled⟩

/-- From an empty table on, in every state `c` and every later state `c'`: the
request of a row on file never changes, it is pending exactly while no decision is
recorded, a settled row stays as it is, exactly one operation has settled it if any
competed for it, and every `resolve` that found it answered it so. -/
theorem queue_writeOnce {deps : GatewayDeps} {world : World}
    (hempty : world.approvals = .empty) {c c' : GateConfig}
    (hreach : (machine deps).Reaches .none (Config.initial world) c)
    (hlater : (machine deps).Reaches .none c c') {id : String} {row : ApprovalRequest}
    (hrow : c.state.world.approvals.get id = some row) :
    (∃ row', c'.state.world.approvals.get id = some row' ∧ SameRequest row row' ∧
      (row.status ≠ .pending → row' = row)) ∧
    (row.status = .pending ↔ row.decidedAt = none ∧ row.approver = none) ∧
    (row.status = .pending → Untouched id c.state.history) ∧
    (row.status ≠ .pending → SettledOnce id row c.state.history) ∧
    (∀ i entry approved decidedAt approver note answer before found,
      ⟨i, entry, .resolveApproval id approved decidedAt approver note, answer, before⟩ ∈
        c.state.history →
      before.approvals.get id = some found →
        answer = some row ∧ row.status ≠ .pending) ∧
    (∀ event ∈ c.state.history, Competes id event → SettledOnce id row c.state.history) := by
  have haccounted := accounted_of_reaches hempty hreach id
  refine ⟨?_, haccounted.undecided row hrow, ?_, haccounted.settled row hrow, ?_, ?_⟩
  · have hevolves := (evolves_of_reaches hlater).approvals
    obtain ⟨row', hrow', hadvances⟩ := hevolves id row hrow
    exact ⟨row', hrow', sameRequest_of_advances hadvances, hadvances.eq_of_settled⟩
  · intro hpending
    apply haccounted.unsettled
    intro other hother
    rw [hrow] at hother
    obtain rfl := Option.some.inj hother
    exact hpending
  · intro i entry approved decidedAt approver note answer before found hevent hfound
    obtain ⟨row', hanswer, hsettled, hrow'⟩ := resolve_answered hreach hevent hfound
    rw [hrow] at hrow'
    obtain rfl := Option.some.inj hrow'
    exact ⟨hanswer, hsettled⟩
  · intro event hevent hcompetes
    exact haccounted.settled row hrow (settled_of_competes hreach hevent hcompetes hrow)

/-- Two approvers race on one request: the second is told what the first decided. -/
def race : List GateLabel :=
  opening ++ [.start (.decide "a" true "kim" none), .start (.decide "a" false "lee" none),
    act 1, act 2, act 1, act 2, act 2, act 1]

def raced : GateConfig :=
  ((machine deps).run .none (Config.initial office) race).get (by decide)

theorem queue_writeOnce_raced :
    ∃ row, raced.state.world.approvals.get "a" = some row ∧ row.approver = some "kim" ∧
      SettledOnce "a" row raced.state.history := by
  have hreach : (machine deps).Reaches .none (Config.initial office) raced :=
    Machine.reaches_get _
  have hrow : raced.state.world.approvals.get "a" = some _ := rfl
  exact ⟨_, hrow, rfl, (queue_writeOnce rfl hreach .refl hrow).2.2.2.1 (by decide)⟩

end McpGatekeeper.WriteOnce
