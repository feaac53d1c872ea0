import McpGatekeeper.System

namespace McpGatekeeper.Filing

open Interleaving
open McpGatekeeper.Audit
open McpGatekeeper.Gateway
open McpGatekeeper.Operations
open McpGatekeeper.System

def filed : Op → Option AuditEvent
  | .recordAudit event => some event
  | _ => none

/-- The events recorded so far, latest first. -/
def filings (history : List GateEvent) : List AuditEvent :=
  history.filterMap fun own => filed own.op

/-- The row of the event is in the table, unless another event has been recorded under its
identifier. -/
def OnFile (s : GateState) (event : AuditEvent) : Prop :=
  (∀ other ∈ filings s.history, other.eventId = event.eventId → other = event) →
    ∃ key, (key, event.row) ∈ s.world.audit.rows

def Recorded (history : List GateEvent) (row : AuditEvent) : Prop :=
  ∃ performed ∈ history, ∃ event, performed.op = .recordAudit event ∧ row = event.row

theorem mem_filings {history : List GateEvent} {own : GateEvent} {event : AuditEvent}
    (hown : own ∈ history) (h : filed own.op = some event) : event ∈ filings history :=
  List.mem_filterMap.mpr ⟨own, hown, h⟩

theorem exec_audit {op : Op} {choice : Choice} {w w' : World} {answer : Res op}
    (h : exec op choice w = some (answer, w')) :
    w'.audit = (filed op).elim w.audit w.audit.record := by
  cases op
  case createApproval request =>
    simp only [exec] at h
    split at h <;> cases h <;> rfl
  all_goals
    cases h
    rfl

theorem mem_record {table : AuditTable} (event : AuditEvent) :
    (table.seq + 1, event.row) ∈ (table.record event).rows :=
  List.mem_append_right _ (List.mem_singleton_self _)

theorem mem_record_of_ne {table : AuditTable} {event other : AuditEvent} {key : Nat}
    (hrow : (key, event.row) ∈ table.rows) (hne : event.eventId ≠ other.eventId) :
    (key, event.row) ∈ (table.record other).rows := by
  refine List.mem_append_left _ (List.mem_filter.mpr ⟨hrow, ?_⟩)
  change (event.eventId != other.eventId) = true
  simpa using hne

section Runs

variable {deps : GatewayDeps} {A : GateAssumption} {world : World} {c c' : GateConfig}

theorem onFile_push {s : GateState} {i : Nat} {entry : Entry} {op : Op} {choice : Choice}
    {answer : Res op} {w' : World} (hexec : exec op choice s.world = some (answer, w'))
    (hfiled : ∀ event ∈ filings s.history, OnFile s event) :
    ∀ event ∈ filings (s.push ⟨i, entry, op, answer, s.world⟩ w').history,
      OnFile (s.push ⟨i, entry, op, answer, s.world⟩ w') event := by
  have haudit := exec_audit hexec
  intro event hevent hunique
  rw [State.push_world, haudit]
  cases hop : filed op with
  | none =>
      have hfilings : filings (s.push ⟨i, entry, op, answer, s.world⟩ w').history =
          filings s.history := List.filterMap_cons_none hop
      rw [hfilings] at hevent hunique
      exact hfiled event hevent hunique
  | some latest =>
      have hfilings : filings (s.push ⟨i, entry, op, answer, s.world⟩ w').history =
          latest :: filings s.history := List.filterMap_cons_some hop
      rw [hfilings] at hevent hunique
      by_cases hid : latest.eventId = event.eventId
      · obtain rfl := hunique latest List.mem_cons_self hid
        exact ⟨_, mem_record latest⟩
      · have hold : event ∈ filings s.history := by
          rcases List.mem_cons.mp hevent with rfl | hold
          · exact absurd rfl hid
          · exact hold
        obtain ⟨key, hrow⟩ := hfiled event hold fun other hother =>
          hunique other (List.mem_cons_of_mem _ hother)
        exact ⟨key, mem_record_of_ne hrow (Ne.symm hid)⟩

theorem onFile_step (h : (machine deps).Steps A c c')
    (hfiled : ∀ event ∈ filings c.state.history, OnFile c.state event) :
    ∀ event ∈ filings c'.state.history, OnFile c'.state event := by
  obtain ⟨label, -, hstep⟩ := h
  obtain ⟨entry, -, rfl⟩ | ⟨i, choice, entry, op, next, answer, world, -, -, hexec, rfl⟩ |
    ⟨change, world, -, henv, rfl⟩ | ⟨i, entry, op, next, -, -, rfl⟩ := Machine.step_cases hstep
  · exact hfiled
  · exact onFile_push hexec hfiled
  · cases change <;> cases henv <;> exact hfiled
  · exact hfiled

/-- Recording an event puts its row into the table, where it stays. -/
theorem onFile_of_reaches (h : (machine deps).Reaches A (Config.initial world) c)
    {event : AuditEvent} (hevent : event ∈ filings c.state.history) : OnFile c.state event := by
  revert event
  induction h with
  | refl =>
      intro event hevent
      cases hevent
  | tail _ hstep ih =>
      intro event hevent
      exact onFile_step hstep (fun _ => ih) event hevent

theorem Recorded.later {history : List GateEvent} {row : AuditEvent} (h : Recorded history row)
    (event : GateEvent) : Recorded (event :: history) row := by
  obtain ⟨performed, hmem, hrecorded⟩ := h
  exact ⟨performed, List.mem_cons_of_mem _ hmem, hrecorded⟩

/-- Rows are only ever written by the operation that is there for it. -/
theorem row_recorded (hreach : (machine deps).Reaches A (Config.initial world) c)
    {row : Nat × AuditEvent} (hrow : row ∈ c.state.world.audit.rows) :
    row ∈ world.audit.rows ∨ Recorded c.state.history row.2 := by
  induction hreach with
  | refl => exact .inl hrow
  | @tail c c' _ hstep ih =>
      obtain ⟨label, -, hlabel⟩ := hstep
      obtain ⟨entry, -, rfl⟩ | ⟨i, choice, entry, op, next, answer, world', -, -, hexec, rfl⟩ |
        ⟨change, world', -, henv, rfl⟩ | ⟨i, entry, op, next, -, -, rfl⟩ :=
          Machine.step_cases hlabel
      · exact ih hrow
      · have hold (h : row ∈ c.state.world.audit.rows) := (ih h).imp_right fun hrecorded =>
          hrecorded.later ⟨i, entry, op, answer, c.state.world⟩
        rw [State.push_world, exec_audit hexec] at hrow
        rcases hfiled : filed op with _ | event
        · rw [hfiled] at hrow
          exact hold hrow
        · rw [hfiled] at hrow
          rcases List.mem_append.mp hrow with hkept | hnew
          · exact hold (List.mem_of_mem_filter hkept)
          · obtain rfl := List.mem_singleton.mp hnew
            refine .inr ⟨_, List.mem_cons_self, event, ?_, rfl⟩
            cases op <;> cases hfiled
            rfl
      · cases change <;> cases henv <;> exact ih hrow
      · exact ih hrow

end Runs

end McpGatekeeper.Filing
