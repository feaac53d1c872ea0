import McpGatekeeper.Conduct
import McpGatekeeper.Scenarios

/-!
What becomes of a request whose deadline passes without an answer.

The deadline is enforced by whoever looks next, so between the deadline and that
look the row is still pending, and what settles it then depends on who comes.
-/

namespace McpGatekeeper.Deadlines

open Interleaving
open McpGatekeeper.Approvals
open McpGatekeeper.Conduct
open McpGatekeeper.Gateway
open McpGatekeeper.Operations
open McpGatekeeper.Scenarios
open McpGatekeeper.System

/-- No approving decision reaches the database at a request that is still pending
with its deadline passed; the clock is read forwards. -/
def timelyApprovals : GateAssumption where
  act _ entry op s :=
    match entry, op with
    | .decide _ true _ _, .resolveApproval id _ _ _ _ =>
        (s.world.approvals.get id).all fun row => !row.isExpiredAt s.world.now
    | _, _ => true
  env := forwardClock.env

/-- The deadline of the request has passed and nobody has granted it. -/
def Lapsed (id : String) (s : GateState) : Prop :=
  ∃ row, s.world.approvals.get id = some row ∧ row.status ≠ .approved ∧
    row.expiresAt ≤ s.world.now

theorem lapsed_exec {deps : GatewayDeps} (hdeny : deps.approvals.approveOnTimeout = false)
    {i : Nat} {entry : Entry} {op : Op} {choice : Choice} {s : GateState} {answer : Res op}
    {world : World} {id : String} (h : Lapsed id s)
    (hassume : timelyApprovals.act i entry op s = true) (hallowed : Allowed deps entry op)
    (hexec : exec op choice s.world = some (answer, world)) :
    Lapsed id (s.push ⟨i, entry, op, answer, s.world⟩ world) := by
  obtain ⟨row, hrow, hungranted, hdue⟩ := h
  have hnow := exec_now hexec
  rcases exec_row hexec id with hsame | ⟨request, -, -, hnone, -⟩ |
    ⟨row', approved, decidedAt, approver, note, rfl, hrow', hpending, hafter⟩ |
    ⟨row', moment, rfl, hrow', -, -, hafter⟩
  · exact ⟨row, by rw [State.push_world, hsame, hrow], hungranted, by
      rw [State.push_world, hnow]; exact hdue⟩
  · rw [hrow] at hnone
    cases hnone
  · rw [hrow] at hrow'
    obtain rfl := Option.some.inj hrow'
    refine ⟨_, hafter, ?_, by rw [State.push_world, hnow]; exact hdue⟩
    cases approved with
    | false => simp
    | true =>
        cases hallowed with
        | human =>
            simp [timelyApprovals, hrow, ApprovalRequest.isExpiredAt, hpending, hdue] at hassume
        | waiter _ _ _ happrove =>
            rw [hdeny] at happrove
            cases happrove
        | holder _ _ _ _ happrove =>
            rw [hdeny] at happrove
            cases happrove
  · rw [hrow] at hrow'
    obtain rfl := Option.some.inj hrow'
    exact ⟨_, hafter, by simp, by rw [State.push_world, hnow]; exact hdue⟩

theorem lapsed_env {change : Env} {s : GateState} {world : World} {id : String}
    (h : Lapsed id s) (hassume : timelyApprovals.env change s = true)
    (henv : env change s.world = some world) : Lapsed id { s with world := world } := by
  obtain ⟨row, hrow, hungranted, hdue⟩ := h
  cases change with
  | tick now perfCounter =>
      cases henv
      exact ⟨row, hrow, hungranted, le_trans hdue (of_decide_eq_true hassume)⟩
  | disconnect upstream =>
      cases henv
      exact ⟨row, hrow, hungranted, hdue⟩

/-- With `on_timeout: deny` and no approval arriving late at an unsettled request,
a request undecided at its deadline is never granted. -/
theorem never_granted_after_deadline {deps : GatewayDeps}
    (hdeny : deps.approvals.approveOnTimeout = false) {world : World} {c c' : GateConfig}
    (hreach : (machine deps).Reaches timelyApprovals (Config.initial world) c)
    (hlater : (machine deps).Reaches timelyApprovals c c') {id : String}
    {row row' : ApprovalRequest} (hrow : c.state.world.approvals.get id = some row)
    (hpending : row.status = .pending) (hdue : row.expiresAt ≤ c.state.world.now)
    (hrow' : c'.state.world.approvals.get id = some row') : row'.status ≠ .approved := by
  have hlapsed : Lapsed id c.state := ⟨row, hrow, by simp [hpending], hdue⟩
  have hpreserves : (conduct deps timelyApprovals).Preserves (Lapsed id) :=
    { exec := fun _ h hassume hpre hexec => lapsed_exec hdeny h hassume hpre.2 hexec
      env := fun _ h hassume henv => lapsed_env h hassume henv }
  obtain ⟨other, hother, hungranted, -⟩ :=
    (conduct_good hreach).invariant (conduct_kept deps _) hpreserves hlapsed hlater
  rw [hrow'] at hother
  obtain rfl := Option.some.inj hother
  exact hungranted

/-- The request is due at five past noon, and at one nobody has looked. -/
def overdueConfig : GateConfig :=
  ((machine deps).run timelyApprovals (Config.initial office)
    (opening ++ [clock oneOClock])).get (by decide)

def lateDenial : List GateLabel :=
  [.start (.decide "a" false "kim" none), act 1, act 1]

def deniedConfig : GateConfig :=
  ((machine deps).run timelyApprovals overdueConfig lateDenial).get (by decide)

theorem never_granted_after_deadline_denied :
    ∃ row, deniedConfig.state.world.approvals.get "a" = some row ∧
      row.approver = some "kim" ∧ row.status ≠ .approved := by
  have hreach : (machine deps).Reaches timelyApprovals (Config.initial office) overdueConfig :=
    Machine.reaches_get _
  have hlater : (machine deps).Reaches timelyApprovals overdueConfig deniedConfig :=
    Machine.reaches_get _
  have hrow : overdueConfig.state.world.approvals.get "a" = some _ := rfl
  have hrow' : deniedConfig.state.world.approvals.get "a" = some _ := rfl
  exact ⟨_, hrow', rfl,
    never_granted_after_deadline rfl hreach hlater hrow rfl (by decide) hrow'⟩

/-- An approval of the overdue request is granted. -/
theorem late_decision_grants :
    deps.approvals.approveOnTimeout = false ∧
      (overdueConfig.state.world.approvals.get "a").any
        (·.isExpiredAt overdueConfig.state.world.now) = true ∧
      ∃ c row, (machine deps).run forwardClock overdueConfig (approving 1) = some c ∧
        c.state.world.approvals.get "a" = some row ∧ row.status = .approved := by
  refine ⟨rfl, by decide, _, _, rfl, rfl, rfl⟩

/-- No sweep finds a request that is due. -/
def noSweepsDue : GateAssumption where
  act _ _ op s :=
    match op with
    | .expireOverdue moment =>
        s.world.approvals.rows.all fun row => !ApprovalsTable.overdue moment row
    | _ => true
  env _ _ := true

/-- A human's decision reaches the database. -/
def decides (id : String) (event : GateEvent) : Bool :=
  match event.entry, event.op with
  | .decide id' _ _ _, .resolveApproval _ _ _ _ _ => id' == id
  | _, _ => false

/-- A client gives the request up, by itself or by a retry that came too early. -/
def dismisses (id : String) (event : GateEvent) : Bool :=
  match event.entry, event.op with
  | .dismiss id' _, .resolveApproval _ _ _ _ _ => id' == id
  | .callTool invocation _, .resolveApproval _ _ _ _ _ => invocation.resumes == some id
  | _, _ => false

/-- Who may have settled the request when nobody swept it away. -/
def Answered (id : String) (s : GateState) : Prop :=
  ∀ row, s.world.approvals.get id = some row → row.status ≠ .pending →
    s.history.any (decides id) = true ∨ s.history.any (dismisses id) = true ∨
      (row.status = .approved ∧ row.approver = some timeoutApprover)

theorem answered_exec {deps : GatewayDeps} {i : Nat} {entry : Entry} {op : Op}
    {choice : Choice} {s : GateState} {answer : Res op} {world : World} {id : String}
    (h : Answered id s) (hassume : noSweepsDue.act i entry op s = true)
    (hallowed : Allowed deps entry op)
    (hexec : exec op choice s.world = some (answer, world)) :
    Answered id (s.push ⟨i, entry, op, answer, s.world⟩ world) := by
  intro row hrow hsettled
  rcases exec_row hexec id with hsame | ⟨request, rfl, -, -, hafter⟩ |
    ⟨found, approved, decidedAt, approver, note, rfl, -, -, hafter⟩ |
    ⟨found, moment, rfl, hfound, -, hoverdue, -⟩
  · rw [State.push_world, hsame] at hrow
    rcases h row hrow hsettled with hhuman | hclient | htimeout
    · exact .inl (by simp [hhuman])
    · exact .inr (.inl (by simp [hclient]))
    · exact .inr (.inr htimeout)
  · rw [State.push_world, hafter] at hrow
    obtain rfl := Option.some.inj hrow
    exact absurd hallowed hsettled
  · rw [State.push_world, hafter] at hrow
    obtain rfl := Option.some.inj hrow
    cases hallowed with
    | human => exact .inl (by simp [decides])
    | dismissal => exact .inr (.inl (by simp [dismisses]))
    | retry _ _ _ _ hresumes => exact .inr (.inl (by simp [dismisses, hresumes]))
    | waiter => exact .inr (.inr ⟨rfl, rfl⟩)
    | holder => exact .inr (.inr ⟨rfl, rfl⟩)
  · have hmem : found ∈ s.world.approvals.rows := List.mem_of_find?_eq_some hfound
    have hdue := List.all_eq_true.mp hassume found hmem
    rw [hoverdue] at hdue
    cases hdue

/-- Unless a sweep meets a request that is due, a settled request was decided by a
human, given up by a client, or approved in the name of the timeout. -/
theorem timeout_approves {deps : GatewayDeps} {world : World}
    (hpending : ∀ id row, world.approvals.get id = some row → row.status = .pending)
    {c : GateConfig}
    (hreach : (machine deps).Reaches noSweepsDue (Config.initial world) c) {id : String}
    {row : ApprovalRequest} (hrow : c.state.world.approvals.get id = some row)
    (hsettled : row.status ≠ .pending)
    (hhuman : c.state.history.any (decides id) = false)
    (hclient : c.state.history.any (dismisses id) = false) :
    row.status = .approved ∧ row.approver = some timeoutApprover := by
  have hinitial : (conduct deps noSweepsDue).Good (fun _ _ _ _ => True)
      (Config.initial world) := .initial trivial
  have hpreserves : (conduct deps noSweepsDue).Preserves (Answered id) :=
    { exec := fun _ h hassume hpre hexec => answered_exec h hassume hpre.2 hexec
      env := by
        intro change s world _ h _ henv
        cases change <;> cases henv <;> exact h }
  have hanswered : Answered id c.state := by
    refine hinitial.invariant (conduct_kept deps _) hpreserves ?_ hreach
    intro row hrow hsettled
    exact absurd (hpending id row hrow) hsettled
  rcases hanswered row hrow hsettled with h | h | h
  · rw [hhuman] at h
    cases h
  · rw [hclient] at h
    cases h
  · exact h

/-- A waiter is the first to notice that nobody answered. -/
def unanswered : List GateLabel :=
  opening ++ [.start (.wait "a" 2), act 1, act 1, clock oneOClock, act 1, act 1, act 1,
    act 1]

def unansweredConfig : GateConfig :=
  ((machine lenientDeps).run noSweepsDue (Config.initial office) unanswered).get (by decide)

theorem timeout_approves_waiter :
    ∃ row, unansweredConfig.state.world.approvals.get "a" = some row ∧
      row.status = .approved ∧ row.approver = some timeoutApprover := by
  have hreach : (machine lenientDeps).Reaches noSweepsDue (Config.initial office)
      unansweredConfig := Machine.reaches_get _
  have hrow : unansweredConfig.state.world.approvals.get "a" = some _ := rfl
  exact ⟨_, hrow, timeout_approves office_pending hreach hrow (by decide) rfl rfl⟩

/-- The dashboard is the first to notice, and the request expires. -/
theorem dashboard_expires :
    lenientDeps.approvals.approveOnTimeout = true ∧
      ∃ c row, (machine lenientDeps).run forwardClock (Config.initial office)
          (opening ++ [clock oneOClock, .start .pending, act 1, act 1, act 1]) =
            some c ∧
        c.state.world.approvals.get "a" = some row ∧ row.status = .expired ∧
        row.approver = some timeoutApprover := by
  exact ⟨rfl, _, _, rfl, rfl, rfl, rfl⟩

end McpGatekeeper.Deadlines
