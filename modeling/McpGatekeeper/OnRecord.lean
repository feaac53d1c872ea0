import McpGatekeeper.Narrative
import McpGatekeeper.Scenarios

namespace McpGatekeeper.OnRecord

open Interleaving
open McpGatekeeper.Audit
open McpGatekeeper.Conduct
open McpGatekeeper.Filing
open McpGatekeeper.GateContract
open McpGatekeeper.Gateway
open McpGatekeeper.Narrative
open McpGatekeeper.Operations
open McpGatekeeper.Scenarios
open McpGatekeeper.System

/-- The task waits for the answer of an upstream. -/
def inFlight (i : Nat) (c : GateConfig) : Bool :=
  match c.tasks[i]? with
  | some ⟨_, .perform (.callTool _ _ _) _⟩ => true
  | _ => false

/-- The task has sent its call and recorded nothing yet. -/
def exposed (i : Nat) (c : GateConfig) : Bool :=
  inFlight i c || (!(upstreamAnswers (journal i c.state.history)).isEmpty &&
    (recordedEvents (journal i c.state.history)).isEmpty)

/-- An exposed task is abandoned: it is cancelled, or its audit write raises. -/
def strands : GateVisit → Bool
  | (c, .cancel i) => exposed i c
  | _ => false

/-- The task has called an upstream, which has answered or was left unanswered. -/
def Called (i : Nat) (visits : List GateVisit) (c : GateConfig) : Prop :=
  upstreamAnswers (journal i c.state.history) ≠ [] ∨
    ∃ c₁, (c₁, .cancel i) ∈ visits ∧ inFlight i c₁ = true

def ended : Prog Reply → Bool
  | .perform _ _ => false
  | _ => true

/-- Every invocation that called an upstream has, once it has ended, left an audit event for
its tool and arguments, and the row of the event is in the table. -/
def Accounted (deps : GatewayDeps) (visits : List GateVisit) (c : GateConfig) : Prop :=
  ∀ (i : Nat) (invocation : Invocation) (polls : Nat) (rest : Prog Reply),
    c.tasks[i]? = some ⟨.callTool invocation polls, rest⟩ → ended rest = true →
      Called i visits c → ∃ event ∈ recordedEvents (journal i c.state.history),
        event.tool = invocation.name ∧
          event.arguments = redactArguments invocation.args deps.redact ∧ OnFile c.state event

theorem describes_of_files {deps : GatewayDeps} {invocation : Invocation} {upstream : String}
    {decision : PolicyEngine.Decision} {outcome : Outcome} {status : Option ResultStatus}
    {approval : Option Approvals.ApprovalRequest} {error : Option String} {event : AuditEvent}
    (h : Files deps invocation upstream decision outcome status approval error event) :
    event.tool = invocation.name ∧
      event.arguments = redactArguments invocation.args deps.redact := by
  obtain ⟨now, eventId, latency, rfl⟩ := h
  exact ⟨rfl, rfl⟩

theorem describes_of_closing {deps : GatewayDeps} {invocation : Invocation} {items : Items}
    {event : AuditEvent} (h : Closing deps invocation items event) :
    event.tool = invocation.name ∧
      event.arguments = redactArguments invocation.args deps.redact := by
  cases h with
  | unknownTool started upstream event hfiles => exact describes_of_files hfiles
  | denied tool started event hfiles => exact describes_of_files hfiles
  | awaiting tool request items event hconcern hsight hundecided hfiles =>
      exact describes_of_files hfiles
  | unavailable tool approval items error event hadmitted hfiles =>
      exact describes_of_files hfiles
  | failed tool approval items error event hadmitted hfiles => exact describes_of_files hfiles
  | forwarded tool approval items result event hadmitted hfiles =>
      exact describes_of_files hfiles
  | refused tool id approval outcome items event hlearned hrefused hfiles =>
      exact describes_of_files hfiles

section Runs

variable {deps : GatewayDeps} {world : World} {visits : List GateVisit} {c : GateConfig}
  (hruns : (machine deps).Runs (Config.initial world) visits c)
include hruns

theorem recorded_describes {i : Nat} {invocation : Invocation} {polls : Nat}
    {rest : Prog Reply} (htask : c.tasks[i]? = some ⟨.callTool invocation polls, rest⟩)
    {event : AuditEvent} (hevent : event ∈ recordedEvents (journal i c.state.history)) :
    event.tool = invocation.name ∧
      event.arguments = redactArguments invocation.args deps.redact := by
  obtain ⟨item, hitem, hrecorded⟩ := List.mem_filterMap.mp hevent
  obtain ⟨own, hown, howner, rfl⟩ := mem_journal.mp hitem
  obtain ⟨rest', hrest'⟩ := (hruns.narrated (code_tells deps)).owners own hown
  obtain ⟨task, entry, op, answer, before⟩ := own
  obtain rfl : task = i := howner
  cases htask.symm.trans hrest'
  obtain ⟨newer, older, hsplit⟩ := List.append_of_mem hown
  have hbefore := before_of_event hruns.reaches hsplit
  cases op <;> cases hrecorded
  obtain ⟨eventId, ended, items, -, hcloses⟩ := hbefore
  exact describes_of_closing hcloses

theorem call_of_exposed {c₁ : GateConfig} {i : Nat} (hvisit : (c₁, .cancel i) ∈ visits)
    (hexposed : exposed i c₁ = true) {entry : Entry} {op : Op} {next : Res op → Prog Reply}
    (htask : c₁.tasks[i]? = some ⟨entry, .perform op next⟩) :
    (∃ invocation polls, entry = .callTool invocation polls) ∧
      recordedEvents (journal i c₁.state.history) = [] := by
  have hreach := hruns.visited hvisit
  have hgood := conduct_good hreach
  obtain ⟨visits', hruns'⟩ := hreach.runs
  have htold := hruns'.narrated (code_tells deps)
  rw [exposed, Bool.or_eq_true, Bool.and_eq_true] at hexposed
  rcases hexposed with hflight | ⟨hanswered, hunrecorded⟩
  · rw [inFlight, htask] at hflight
    cases op with
    | callTool upstream remoteName arguments =>
        have hcall : ∃ invocation polls, entry = .callTool invocation polls :=
          (hgood.pre htask rfl).2 rfl
        refine ⟨hcall, ?_⟩
        obtain ⟨invocation, polls, rfl⟩ := hcall
        exact (htold.next htask).2
    | _ => cases hflight
  · refine ⟨?_, List.isEmpty_iff.mp hunrecorded⟩
    obtain ⟨answer, hanswer⟩ : ∃ answer, answer ∈ upstreamAnswers (journal i c₁.state.history) :=
      List.exists_mem_of_ne_nil _ (by simpa using hanswered)
    obtain ⟨item, hitem, hcalled⟩ := List.mem_filterMap.mp hanswer
    obtain ⟨own, hown, rfl, rfl⟩ := mem_journal.mp hitem
    obtain ⟨newer, older, hsplit⟩ := List.append_of_mem hown
    have hallowed := (hgood.past newer own older hsplit).pre.2
    obtain ⟨rest', hrest'⟩ := htold.owners own hown
    cases htask.symm.trans hrest'
    obtain ⟨task, entry, op, answer, before⟩ := own
    cases op <;> cases hcalled
    exact hallowed rfl

/-- A run leaves every upstream call on record exactly if it abandons no invocation between
its call and its audit event. -/
theorem accounted_iff :
    Accounted deps visits c ↔ ∀ visit ∈ visits, strands visit = false := by
  constructor
  · rintro haccounted ⟨c₁, label⟩ hvisit
    cases label with
    | cancel i =>
        apply Bool.eq_false_iff.mpr
        intro hstrands
        -- The cancelled task has called and never records anything.
        have hexposed : exposed i c₁ = true := hstrands
        obtain ⟨entry, op, next, hbefore, hafter, hjournal⟩ := hruns.cancelled hvisit
        obtain ⟨⟨invocation, polls, rfl⟩, hunrecorded⟩ :=
          call_of_exposed hruns hvisit hexposed hbefore
        have hcalled : Called i visits c := by
          rw [exposed, Bool.or_eq_true, Bool.and_eq_true] at hexposed
          rcases hexposed with hflight | ⟨hanswered, -⟩
          · exact .inr ⟨c₁, hvisit, hflight⟩
          · rw [Called, hjournal]
            exact .inl (by simpa using hanswered)
        obtain ⟨event, hevent, -⟩ := haccounted i invocation polls _ hafter rfl hcalled
        rw [hjournal, hunrecorded] at hevent
        cases hevent
    | start | act | env => rfl
  · intro hspared i invocation polls rest htask hended hcalled
    have hanswered : upstreamAnswers (journal i c.state.history) ≠ [] := by
      rcases hcalled with hanswered | ⟨c₁, hvisit, hflight⟩
      · exact hanswered
      · have hexposed : exposed i c₁ = false := hspared _ hvisit
        simp [exposed, hflight] at hexposed
    suffices hrecorded : recordedEvents (journal i c.state.history) ≠ [] by
      obtain ⟨event, hevent⟩ := List.exists_mem_of_ne_nil _ hrecorded
      obtain ⟨htool, harguments⟩ := recorded_describes hruns htask hevent
      exact ⟨event, hevent, htool, harguments,
        onFile_of_reaches hruns.reaches (filed_of_recorded hevent)⟩
    -- A task that has been answered can only end with a record, or by being stranded.
    rcases (hruns.narrated (code_tells deps)).tasks i _ rest htask with
      ⟨-, c₁, hvisit⟩ | hnarrates
    · have hexposed : exposed i c₁ = false := hspared _ hvisit
      obtain ⟨-, -, -, -, -, hjournal⟩ := hruns.cancelled hvisit
      rw [exposed, ← hjournal] at hexposed
      intro hunrecorded
      simp [hunrecorded, hanswered] at hexposed
    · cases rest with
      | ret reply =>
          rcases hnarrates with hnone | ⟨event, hevent, -⟩
          · exact absurd hnone hanswered
          · exact List.ne_nil_of_mem hevent
      | fail halt => exact absurd hnarrates hanswered
      | perform op next => cases hended

end Runs

/-- An approved request is retried and sent to its upstream. -/
def sending : List GateLabel :=
  opening ++ approving 1 ++ .start (.callTool retry 0) :: acts 2 6

def answered : List GateLabel :=
  sending ++ [serves 2] ++ acts 2 4

theorem accounted_answered :
    ∃ c : GateConfig, (machine deps).run .none (Config.initial office) answered = some c ∧
      Accounted deps ((machine deps).visits (Config.initial office) answered) c := by
  obtain ⟨c, hrun⟩ : ∃ c : GateConfig,
      (machine deps).run .none (Config.initial office) answered = some c := ⟨_, rfl⟩
  have hruns := Machine.runs_of_run hrun
  exact ⟨c, hrun, (accounted_iff hruns).mpr (by decide)⟩

/-- The client gives up while the upstream works on its call. -/
def abandoned : List GateLabel :=
  sending ++ [.cancel 2]

/-- The upstream has answered, and the audit write raises. -/
def unwritten : List GateLabel :=
  sending ++ [serves 2] ++ acts 2 3 ++ [.cancel 2]

theorem executed_off_record :
    (∃ c : GateConfig, (machine deps).run .none (Config.initial office) abandoned = some c ∧
      c.state.world.audit.rows = [] ∧
      ¬Accounted deps ((machine deps).visits (Config.initial office) abandoned) c) ∧
    ∃ c : GateConfig, (machine deps).run .none (Config.initial office) unwritten = some c ∧
      c.state.world.audit.rows = [] ∧
      ¬Accounted deps ((machine deps).visits (Config.initial office) unwritten) c := by
  refine ⟨⟨_, rfl, rfl, fun haccounted => ?_⟩, ⟨_, rfl, rfl, fun haccounted => ?_⟩⟩
  · obtain ⟨event, hevent, -⟩ :=
      haccounted 2 retry 0 _ rfl rfl (.inr ⟨_, List.mem_cons_self, rfl⟩)
    cases hevent
  · obtain ⟨event, hevent, -⟩ := haccounted 2 retry 0 _ rfl rfl (.inl (List.cons_ne_nil _ _))
    cases hevent

end McpGatekeeper.OnRecord
