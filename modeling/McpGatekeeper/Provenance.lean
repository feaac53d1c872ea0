import McpGatekeeper.Conduct

namespace McpGatekeeper.Provenance

open Interleaving
open McpGatekeeper.Approvals
open McpGatekeeper.Clock
open McpGatekeeper.Conduct
open McpGatekeeper.Gateway
open McpGatekeeper.Operations
open McpGatekeeper.System

inductive Cause
  | decision (approved : Bool) (approver : String)
  | deadline
  | dismissal
  deriving DecidableEq

/-- What an entry point means by an operation that settles a row: its own word, the
deadline's, or the client's. -/
def cause : Entry → Op → Option Cause
  | _, .expireOverdue _ => some .deadline
  | .decide _ approved approver _, .resolveApproval _ _ _ _ _ => some (.decision approved approver)
  | .dismiss _ _, .resolveApproval _ _ _ _ _ => some .dismissal
  | .wait _ _, .resolveApproval _ _ _ _ _ => some .deadline
  | .callTool invocation _, .resolveApproval _ _ _ _ _ =>
      some (if invocation.resumes.isSome then .dismissal else .deadline)
  | _, _ => none

/-- The operation finds the row pending and leaves it settled. -/
def settles (id : String) (event : GateEvent) : Bool :=
  (event.before.approvals.get id).any (·.status == .pending) &&
    !((event.op.leaves event.before.approvals).get id).any (·.status == .pending)

def settledBy (id : String) (event : GateEvent) : Option Cause :=
  if settles id event then cause event.entry event.op else none

/-- How the request under a key was settled, if it was. -/
def settlement (id : String) (history : List GateEvent) : Option Cause :=
  history.findSome? (settledBy id)

inductive Fits : Option ApprovalRequest → Option Cause → Prop
  | absent : Fits none none
  | pending (row : ApprovalRequest) (hstatus : row.status = .pending)
      (happrover : row.approver = none) : Fits (some row) none
  | decided (row : ApprovalRequest) (approved : Bool) (approver : String)
      (hstatus : row.status = if approved then .approved else .denied)
      (happrover : row.approver = some approver) :
      Fits (some row) (some (.decision approved approver))
  | lapsed (row : ApprovalRequest) (hstatus : row.status = .expired ∨ row.status = .approved)
      (happrover : row.approver = some timeoutApprover) : Fits (some row) (some .deadline)
  | dismissed (row : ApprovalRequest) (hstatus : row.status = .denied)
      (happrover : row.approver = some clientApprover) : Fits (some row) (some .dismissal)

/-- Every row fits what the history says of it, and the history says one thing only. -/
structure Explained (s : GateState) : Prop where
  fits : ∀ id, Fits (s.world.approvals.get id) (settlement id s.history)
  unique : ∀ id, ∀ event ∈ s.history, ∀ cause, settledBy id event = some cause →
    settlement id s.history = some cause

theorem Fits.settled {row : ApprovalRequest} {cause : Cause} (h : Fits (some row) (some cause)) :
    row.status ≠ .pending := by
  cases h with
  | decided _ approved approver hstatus happrover =>
      rw [hstatus]
      cases approved <;> simp
  | lapsed _ hstatus happrover =>
      rcases hstatus with hstatus | hstatus <;> simp [hstatus]
  | dismissed _ hstatus happrover => simp [hstatus]

theorem Fits.unsettled {cause : Option Cause} (h : Fits none cause) : cause = none := by
  cases h with
  | absent => rfl

theorem Fits.undecided {row : ApprovalRequest} {cause : Option Cause} (h : Fits (some row) cause)
    (hpending : row.status = .pending) : cause = none := by
  rcases cause with _ | cause
  · rfl
  · exact absurd hpending h.settled

section Settlement

variable {id : String} {event : GateEvent} {history : List GateEvent}

theorem settlement_cons :
    settlement id (event :: history) = (settledBy id event).or (settlement id history) := by
  rw [settlement, List.findSome?_cons]
  cases settledBy id event <;> rfl

theorem settledBy_of_not_pending
    (h : ∀ row, event.before.approvals.get id = some row → row.status ≠ .pending) :
    settledBy id event = none := by
  have hsettles : settles id event = false := by
    rw [settles, Bool.and_eq_false_iff, Option.any_eq_false_iff_get]
    left
    intro hsome
    simpa using h _ (Option.some_get hsome).symm
  rw [settledBy, hsettles]
  rfl

theorem settledBy_of_same
    (h : (event.op.leaves event.before.approvals).get id = event.before.approvals.get id) :
    settledBy id event = none := by
  have hsettles : settles id event = false := by
    rw [settles, h, Bool.and_not_self]
  rw [settledBy, hsettles]
  rfl

theorem settledBy_of_settled {row row' : ApprovalRequest}
    (hrow : event.before.approvals.get id = some row) (hpending : row.status = .pending)
    (hrow' : (event.op.leaves event.before.approvals).get id = some row')
    (hsettled : row'.status ≠ .pending) :
    settledBy id event = cause event.entry event.op := by
  have hsettles : settles id event = true := by
    simp [settles, hrow, hpending, hrow', hsettled]
  rw [settledBy, hsettles]
  rfl

theorem settledBy_of_other {id' : String} {approved : Bool} {decidedAt : DateTime}
    {approver : String} {note : Option String}
    (hop : event.op = .resolveApproval id' approved decidedAt approver note) (hne : id ≠ id') :
    settledBy id event = none := by
  apply settledBy_of_same
  rw [hop]
  change (event.before.approvals.resolve id' approved decidedAt approver note).2.get id = _
  rw [ApprovalsTable.get_resolve]
  rcases hrow : event.before.approvals.get id with _ | row
  · rfl
  · have hid := ApprovalsTable.id_of_get hrow
    have hother : ¬(row.id = id' ∧ row.status = .pending) := fun h => hne (hid.symm.trans h.1)
    rw [Option.map_some, ApprovalsTable.settle_of_ne hother]

theorem decision_of_settledBy {approved : Bool} {approver : String}
    (h : settledBy id event = some (.decision approved approver)) :
    (∃ id' note, event.entry = .decide id' approved approver note) ∧
      ∃ approved' decidedAt approver' note,
        event.op = .resolveApproval id approved' decidedAt approver' note := by
  have hcause : cause event.entry event.op = some (.decision approved approver) := by
    rw [settledBy] at h
    split at h
    · exact h
    · cases h
  obtain ⟨i, entry, op, answer, before⟩ := event
  cases op with
  | resolveApproval id' approved' decidedAt approver' note =>
      have hid : id = id' := by
        rcases eq_or_ne id id' with heq | hne
        · exact heq
        · rw [settledBy_of_other rfl hne] at h
          cases h
      rw [hid]
      refine ⟨?_, approved', decidedAt, approver', note, rfl⟩
      cases entry with
      | decide id'' approved'' approver'' note' =>
          cases hcause
          exact ⟨id'', note', rfl⟩
      | callTool invocation polls =>
          simp only [cause] at hcause
          split at hcause <;> cases hcause
      | _ => cases hcause
  | _ => cases entry <;> cases hcause

end Settlement

theorem explained_exec {deps : GatewayDeps} {i : Nat} {entry : Entry} {op : Op}
    {choice : Choice} {s : GateState} {answer : Res op} {world : World}
    (h : Explained s) (hallowed : Allowed deps entry op)
    (hexec : exec op choice s.world = some (answer, world)) :
    Explained (s.push ⟨i, entry, op, answer, s.world⟩ world) := by
  have hleaves := exec_leaves hexec
  refine ⟨fun id => ?_, fun id event hevent cause hcause => ?_⟩
  · have hfits := h.fits id
    rw [State.push_world, State.push_history, settlement_cons]
    -- The row is left alone, created, resolved or swept.
    rcases exec_row hexec id with hsame | ⟨request, rfl, -, hnone, hafter⟩ |
      ⟨row, approved, decidedAt, approver, note, rfl, hrow, hpending, hafter⟩ |
      ⟨row, moment, rfl, hrow, hpending, -, hafter⟩
    · rw [settledBy_of_same (by rw [← hleaves, hsame]), Option.none_or, hsame]
      exact hfits
    · rw [hnone] at hfits
      rw [settledBy_of_not_pending (by simp [hnone]), hfits.unsettled, hafter]
      exact .pending _ hallowed rfl
    · rw [settledBy_of_settled hrow hpending (by rw [← hleaves]; exact hafter)
        (by cases approved <;> simp), hafter]
      cases hallowed with
      | human => exact .decided _ approved approver rfl rfl
      | dismissal => exact .dismissed _ rfl rfl
      | waiter => exact .lapsed _ (.inr rfl) rfl
      | retry invocation polls _ _ hresumes =>
          simp only [cause, hresumes]
          exact .dismissed _ rfl rfl
      | holder invocation polls _ _ _ hresumes =>
          simp only [cause, hresumes]
          exact .lapsed _ (.inr rfl) rfl
    · rw [settledBy_of_settled hrow hpending (by rw [← hleaves]; exact hafter) (by simp),
        hafter]
      exact .lapsed _ (.inl rfl) rfl
  · rw [State.push_history, settlement_cons]
    rcases List.mem_cons.mp hevent with rfl | hmem
    · rw [hcause]
      rfl
    · have hsettlement := h.unique id event hmem cause hcause
      have hfits := h.fits id
      rw [hsettlement] at hfits
      rw [settledBy_of_not_pending, Option.none_or, hsettlement]
      intro row hrow
      have hrow : s.world.approvals.get id = some row := hrow
      rw [hrow] at hfits
      exact hfits.settled

theorem explained_preserved (deps : GatewayDeps) (A : GateAssumption) :
    (conduct deps A).Preserves Explained where
  exec := fun _ h _ hpre hexec => explained_exec h hpre.2 hexec
  env := by
    intro change s world _ h _ henv
    cases change <;> cases henv <;> exact ⟨h.fits, h.unique⟩

theorem explained_of_reaches {deps : GatewayDeps} {A : GateAssumption} {world : World}
    (hundecided : ∀ id row, world.approvals.get id = some row →
      row.status = .pending ∧ row.approver = none)
    {c : GateConfig} (hreach : (machine deps).Reaches A (Config.initial world) c) :
    Explained c.state := by
  have hinitial : Explained ⟨world, []⟩ := by
    refine ⟨fun id => ?_, fun id event hevent => by cases hevent⟩
    rcases hrow : world.approvals.get id with _ | row
    · exact .absent
    · obtain ⟨hpending, hnone⟩ := hundecided id row hrow
      exact .pending row hpending hnone
  have hkept := (conduct_kept deps A).withInv (explained_preserved deps A)
  exact (Contract.sound hkept ⟨trivial, hinitial⟩ hreach).inv.2

/-- Once a request is settled, its cause is known and never changes. -/
theorem settlement_stands {deps : GatewayDeps} {A : GateAssumption} {world : World}
    (hundecided : ∀ id row, world.approvals.get id = some row →
      row.status = .pending ∧ row.approver = none)
    {c c₁ : GateConfig} (hreach : (machine deps).Reaches A (Config.initial world) c)
    (hearlier : (machine deps).Reaches A (Config.initial world) c₁)
    (hhistory : c₁.state.history ⊆ c.state.history) {id : String} {row : ApprovalRequest}
    (hrow : c₁.state.world.approvals.get id = some row) (hsettled : row.status ≠ .pending) :
    ∃ cause, settlement id c₁.state.history = some cause ∧
      settlement id c.state.history = some cause ∧ Fits (some row) (some cause) := by
  have hfits := (explained_of_reaches hundecided hearlier).fits id
  rw [hrow] at hfits
  rcases hcause : settlement id c₁.state.history with _ | cause
  · rw [hcause] at hfits
    cases hfits with
    | pending _ hpending => exact absurd hpending hsettled
  · rw [hcause] at hfits
    obtain ⟨event, hevent, hby⟩ := List.exists_of_findSome?_eq_some hcause
    have hexplained := explained_of_reaches hundecided hreach
    exact ⟨cause, rfl, hexplained.unique id event (hhistory hevent) cause hby, hfits⟩

end McpGatekeeper.Provenance
