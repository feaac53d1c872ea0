import McpGatekeeper.Conduct
import McpGatekeeper.Scenarios

namespace McpGatekeeper.Sweeps

open Interleaving
open McpGatekeeper.Approvals
open McpGatekeeper.Clock
open McpGatekeeper.Conduct
open McpGatekeeper.Gateway
open McpGatekeeper.Operations
open McpGatekeeper.Scenarios
open McpGatekeeper.Service
open McpGatekeeper.System

/-- The row with its expiry written in. -/
def expiredAt (moment : DateTime) (row : ApprovalRequest) : ApprovalRequest :=
  { row with
    status := .expired
    decidedAt := some moment
    approver := some timeoutApprover }

theorem expire_eq (moment : DateTime) (row : ApprovalRequest) :
    ApprovalsTable.expire moment row =
      if row.isExpiredAt moment then expiredAt moment row else row := by
  rw [ApprovalsTable.expire, ApprovalsTable.overdue_eq_isExpiredAt]
  rfl

theorem expire_settles {moment : DateTime} {row : ApprovalRequest}
    (hdue : row.expiresAt ≤ moment) :
    (ApprovalsTable.expire moment row).status ≠ .pending := by
  rw [expire_eq]
  split
  · simp [expiredAt]
  · rename_i hnot
    simpa [ApprovalRequest.isExpiredAt, hdue] using hnot

theorem expireOverdue_eq (table : ApprovalsTable) (moment : DateTime) :
    (table.expireOverdue moment).2.rows =
      table.rows.map (fun row =>
        if row.isExpiredAt moment then expiredAt moment row else row) ∧
    (table.expireOverdue moment).1 =
      (table.rows.filter fun row => row.isExpiredAt moment).length := by
  constructor
  · exact List.map_congr_left fun row _ => expire_eq moment row
  · have hsame : ApprovalsTable.overdue moment = fun row => row.isExpiredAt moment := by
      funext row
      exact ApprovalsTable.overdue_eq_isExpiredAt moment row
    rw [← hsame]
    rfl

/-- A row that is reported as pending was not due at any moment the task has read. -/
def Current (i : Nat) (answer : Option ApprovalRequest) (s : GateState) : Prop :=
  ∀ row, answer = some row → row.status = .pending →
    ∀ entry moment before, ⟨i, entry, .now, moment, before⟩ ∈ s.history →
      moment < row.expiresAt

section Get

variable {deps : GatewayDeps} {A : GateAssumption} {i : Nat} {entry : Entry} {id : String}
  {s s' : GateState}

theorem others_of_rely (hrely : (plain deps A).Rely i s s') {event : GateEvent}
    (hevent : event ∈ s'.history) (htask : event.task = i) : event ∈ s.history := by
  obtain ⟨-, others, hhistory, hothers⟩ := hrely
  rw [hhistory] at hevent
  rcases List.mem_append.mp hevent with hmem | hmem
  · exact absurd htask (hothers event hmem)
  · exact hmem

theorem sweep_keeps (hforward : Forward A) {request : ApprovalRequest}
    (hrow : s.world.approvals.get id = some request) (hdue : request.expiresAt ≤ s.world.now) :
    (plain deps A).Keeps i entry
      (SqliteApprovalStore.expireOverdue none >>= fun _ => SqliteApprovalStore.get id)
      (Current i) s := by
  intro s₁ hrely₁ _ _
  refine ⟨trivial, fun choice moment w₁ hexec₁ => ?_⟩
  cases hexec₁
  intro s₂ hrely₂ _ _
  refine ⟨trivial, fun choice count w₂ hexec₂ => ?_⟩
  cases hexec₂
  intro s₃ hrely₃ _ _
  refine ⟨trivial, fun choice answer w₃ hexec₃ => ?_⟩
  cases hexec₃
  rintro row hanswer hpending
  obtain ⟨row₂, hrow₂, hadvances⟩ :=
    (hrely₁.1.1.trans hrely₂.1.1).approvals id request hrow
  have hdue₂ : row₂.expiresAt ≤ s₁.world.now := by
    rw [hadvances.expiresAt_eq]
    exact le_trans hdue (hrely₁.1.2 hforward)
  have hswept : (s₂.world.approvals.expireOverdue s₁.world.now).2.get id =
      some (ApprovalsTable.expire s₁.world.now row₂) := by
    rw [ApprovalsTable.get_expireOverdue, hrow₂]
    rfl
  have hsettled := expire_settles hdue₂
  rw [hrely₃.1.1.approvals.settled hswept hsettled] at hanswer
  obtain rfl := Option.some.inj hanswer
  exact absurd hpending hsettled

theorem get_keeps (hforward : Forward A) (hfresh : ∀ event ∈ s.history, event.task ≠ i) :
    (plain deps A).Keeps i entry (ApprovalService.get id) (Current i) s := by
  intro s₁ hrely₁ _ _
  refine ⟨trivial, fun choice found w₁ hexec₁ => ?_⟩
  cases hexec₁
  rcases hfound : s₁.world.approvals.get id with _ | request
  · rintro row ⟨⟩
  · intro s₂ hrely₂ _ _
    refine ⟨trivial, fun choice now w₂ hexec₂ => ?_⟩
    cases hexec₂
    obtain ⟨row₂, hrow₂, hadvances⟩ := hrely₂.1.1.approvals id request hfound
    change (plain deps A).Keeps i entry (if _ then _ else _) _ _
    split
    · rename_i hexpired
      have hdue : request.expiresAt ≤ s₂.world.now := by
        simp only [ApprovalRequest.isExpiredAt, Bool.and_eq_true, decide_eq_true_eq] at hexpired
        exact hexpired.2
      exact sweep_keeps hforward hrow₂ (by rw [hadvances.expiresAt_eq]; exact hdue)
    · rename_i hnot
      rintro row hanswer hpending other moment before hevent
      obtain rfl := Option.some.inj hanswer
      rcases List.mem_cons.mp hevent with heq | hmem
      · cases heq
        simpa [ApprovalRequest.isExpiredAt, hpending] using hnot
      · -- Before the clock the task has only looked the request up.
        rcases List.mem_cons.mp (others_of_rely hrely₂ hmem rfl) with heq | hmem
        · cases heq
        · exact absurd rfl (hfresh _ (others_of_rely hrely₁ hmem rfl))

end Get

/-- What a returned call of `get` says of the row it reports. -/
def Reports (i : Nat) (entry : Entry) (out : Reply) (s : GateState) : Prop :=
  ∀ id answer, entry = .get id → out = .approval answer → Current i answer s

theorem reports_kept {deps : GatewayDeps} {A : GateAssumption} (hforward : Forward A) :
    (plain deps A).KeptByCode Reports := by
  intro i entry s _ hfresh
  cases entry
  case get id =>
    apply Contract.keeps_bind.mpr
    refine (get_keeps hforward hfresh).mono ?_
    intro answer s' hcurrent id' answer' _ hanswer
    cases hanswer
    exact hcurrent
  all_goals
    refine (Contract.keeps_of_unowed (fun _ _ _ _ => trivial) _).mono ?_
    rintro out s' - id answer ⟨⟩

/-- The sweep and the deadline check agree on every row, and with a clock that is read
forwards no call of `get` reports a row as pending that was due when it looked. -/
theorem sweep_agrees (deps : GatewayDeps) :
    (∀ (table : ApprovalsTable) (moment : DateTime),
      (table.expireOverdue moment).2.rows =
        table.rows.map (fun row =>
          if row.isExpiredAt moment then expiredAt moment row else row) ∧
      (table.expireOverdue moment).1 =
        (table.rows.filter fun row => row.isExpiredAt moment).length) ∧
    ∀ (world : World) (c : GateConfig),
      (machine deps).Reaches forwardClock (Config.initial world) c →
      ∀ i id row, c.tasks[i]? = some ⟨.get id, .ret (.approval (some row))⟩ →
        row.status = .pending → ∀ entry moment before,
          ⟨i, entry, .now, moment, before⟩ ∈ c.state.history → moment < row.expiresAt := by
  refine ⟨expireOverdue_eq, ?_⟩
  intro world c hreach i id row htask hpending entry moment before hevent
  have hgood := Contract.sound (K := plain deps forwardClock)
    (reports_kept forward_forwardClock) trivial hreach
  obtain ⟨s, hrely, hreports⟩ := hgood.returned htask
  exact hreports id (some row) rfl rfl row rfl hpending entry moment before
    (others_of_rely hrely hevent rfl)

/-- The request opened at noon is read at once. -/
def reading : List GateLabel := opening ++ [.start (.get "a"), act 1, act 1]

def readConfig : GateConfig :=
  ((machine deps).run forwardClock (Config.initial office) reading).get (by decide)

theorem sweep_agrees_noon :
    ∃ row, readConfig.tasks[1]?.map (·.rest) = some (.ret (.approval (some row))) ∧
      row.status = .pending ∧ noon < row.expiresAt := by
  have hreach : (machine deps).Reaches forwardClock (Config.initial office) readConfig :=
    Machine.reaches_get _
  have htask : readConfig.tasks[1]? = some ⟨.get "a", .ret (.approval (some _))⟩ := rfl
  refine ⟨_, congrArg (Option.map (·.rest)) htask, rfl, ?_⟩
  exact (sweep_agrees deps).2 office readConfig hreach 1 "a" _ htask rfl (.get "a") noon _
    (List.mem_of_getElem? (i := 0) rfl)

end McpGatekeeper.Sweeps
