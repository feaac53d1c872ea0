import McpGatekeeper.GatewayRules
import McpGatekeeper.Interleaving.Lockstep
import McpGatekeeper.Scenarios

/-!
What the database holds of the arguments of a call beyond what redaction leaves.

Two calls that differ in nothing but masked arguments are followed side by side,
the surroundings answering both the same.
-/

namespace McpGatekeeper.Redaction

open Interleaving
open McpGatekeeper.Approvals
open McpGatekeeper.Audit
open McpGatekeeper.Conduct
open McpGatekeeper.GateContract
open McpGatekeeper.Gateway
open McpGatekeeper.GatewayRules
open McpGatekeeper.JsonValues
open McpGatekeeper.Operations
open McpGatekeeper.PolicyEngine
open McpGatekeeper.Scenarios
open McpGatekeeper.Service
open McpGatekeeper.System

/-- The same invocation with other arguments. -/
def carrying (invocation : Invocation) (arguments : JsonObject) : Invocation :=
  { invocation with arguments := some arguments }

/-- The same call with other arguments. -/
def bearing (call : Call) (arguments : JsonObject) : Call :=
  { call with request := { call.request with arguments := arguments } }

/-- The call, task 0 of its run, looks up a tool on which the policy decides both
arguments alike. -/
def asksAlike (deps : GatewayDeps) (invocation : Invocation) (a b : JsonObject) (i : Nat)
    (op : Op) (world : World) : Bool :=
  match op with
  | .registryGet name => i != 0 || (world.registry.get name).all fun tool =>
      decide (decision deps (carrying invocation a) tool =
        decision deps (carrying invocation b) tool)
  | _ => true

def sameDecision (deps : GatewayDeps) (invocation : Invocation) (a b : JsonObject) :
    GateAssumption where
  act i _ op s := asksAlike deps invocation a b i op s.world
  env _ _ := true

/-- The call is parked: its request is inserted under a key that is free. -/
def parks (i : Nat) (op : Op) (world : World) : Bool :=
  match op with
  | .createApproval request => i == 0 && (world.approvals.get request.id).isNone
  | _ => false

/-- Two calls part when they are parked under different arguments. -/
def secrecy (deps : GatewayDeps) (invocation : Invocation) (a b : JsonObject) :
    Comparison World Op where
  assume := asksAlike deps invocation a b
  parts i op world := parks i op world && dumps a != dumps b
  Apart world world' := ∃ id row row', world.approvals.get id = some row ∧
    world'.approvals.get id = some row' ∧ row.arguments ≠ row'.arguments

section Lockstep

variable {deps : GatewayDeps} {invocation : Invocation} {a b : JsonObject}

/-- The operation is no insertion, so that the two calls do not part at it. -/
abbrev Harmless (deps : GatewayDeps) (invocation : Invocation) (a b : JsonObject)
    (op : Op) : Prop :=
  ∀ world, (secrecy deps invocation a b).parts 0 op world = false

abbrev Alike {α : Type} (deps : GatewayDeps) (invocation : Invocation) (a b : JsonObject) :
    Prog α → Prog α → Prop :=
  (secrecy deps invocation a b).Lockstep (machine deps) 0 Eq

theorem harmless {op : Op} (h : ∀ request, op ≠ .createApproval request) :
    Harmless deps invocation a b op := by
  intro world
  cases op
  case createApproval request => exact absurd rfl (h request)
  all_goals rfl

theorem harmless_of_isCommon (op : Op) (h : isCommon op = true) :
    Harmless deps invocation a b op := by
  apply harmless
  rintro request rfl
  cases h

theorem alike_refl {α : Type} {p : Prog α} (hp : p.Only (Harmless deps invocation a b)) :
    Alike deps invocation a b p p :=
  Comparison.lockstep_refl (fun _ => rfl) hp

theorem alike_bind {α β : Type} {p q : Prog α} {f g : α → Prog β}
    (h : Alike deps invocation a b p q)
    (hnext : ∀ value, Alike deps invocation a b (f value) (g value)) :
    Alike deps invocation a b (p >>= f) (q >>= g) := by
  apply Comparison.lockstep_bind h
  rintro value _ rfl
  exact hnext value

theorem alike_record {arguments arguments' : JsonObject}
    (hmask : dumps (redactArguments arguments deps.redact) =
      dumps (redactArguments arguments' deps.redact))
    {approval approval' : Option ApprovalRequest}
    (hid : approval.map (·.id) = approval'.map (·.id))
    (happrover : approval.bind (·.approver) = approval'.bind (·.approver))
    (tool upstream : String) (decision : Decision) (outcome : Outcome)
    (clientName : Option String) (started : Int) (resultStatus : Option ResultStatus)
    (error : Option String) {α : Type} {p : Prog α}
    (hp : p.Only (Harmless deps invocation a b)) :
    Alike deps invocation a b
      (record deps tool upstream arguments decision outcome clientName started resultStatus
        approval error >>= fun _ => p)
      (record deps tool upstream arguments' decision outcome clientName started resultStatus
        approval' error >>= fun _ => p) := by
  refine Comparison.lockstep_perform (harmless (by rintro _ ⟨⟩)) fun eventId => ?_
  refine Comparison.lockstep_perform (harmless (by rintro _ ⟨⟩)) fun ended => ?_
  refine Comparison.lockstep_perform (harmless (by rintro _ ⟨⟩)) fun now => ?_
  intro choice world answer after _ hexec
  have hrow : (AuditEvent.build now eventId tool upstream arguments decision outcome deps.redact
        clientName (ended - started) resultStatus (approval.map (·.id))
        (approval.bind (·.approver)) error).row =
      (AuditEvent.build now eventId tool upstream arguments' decision outcome deps.redact
        clientName (ended - started) resultStatus (approval'.map (·.id))
        (approval'.bind (·.approver)) error).row := by
    simp only [AuditEvent.row, AuditEvent.build, hmask, hid, happrover]
  obtain ⟨-, rfl⟩ := Prod.mk.inj (Option.some.inj hexec)
  refine ⟨(), _, rfl, ?_⟩
  rw [if_neg (by simp [secrecy, parks])]
  exact ⟨by rw [AuditTable.record_congr _ hrow], alike_refl hp⟩

theorem alike_unknownTool
    (hmask : dumps (redactArguments a deps.redact) = dumps (redactArguments b deps.redact))
    (name : String) (clientName : Option String) (started : Int) :
    Alike deps invocation a b (unknownTool deps name a clientName started)
      (unknownTool deps name b clientName started) :=
  alike_record hmask rfl rfl _ _ _ _ _ _ _ _ ⟨harmless_of_isCommon _ rfl, fun _ => trivial⟩

variable (call : Call)
  (hmask : dumps (redactArguments call.request.arguments deps.redact) =
    dumps (redactArguments b deps.redact))
include hmask

theorem alike_recordCall {approval approval' : Option ApprovalRequest}
    (hid : approval.map (·.id) = approval'.map (·.id))
    (happrover : approval.bind (·.approver) = approval'.bind (·.approver))
    (outcome : Outcome) (resultStatus : Option ResultStatus) (error : Option String)
    {α : Type} (value : α) :
    Alike deps invocation a b
      (recordCall deps call outcome resultStatus approval error >>= fun _ => pure value)
      (recordCall deps (bearing call b) outcome resultStatus approval' error >>= fun _ =>
        pure value) :=
  alike_record hmask hid happrover _ _ _ _ _ _ _ _ trivial

theorem alike_deny :
    Alike deps invocation a b (deny deps call) (deny deps (bearing call b)) :=
  alike_recordCall call hmask rfl rfl _ _ _ _

theorem alike_forward (approval : Option ApprovalRequest) :
    Alike deps invocation a b (forward deps call approval)
      (forward deps (bearing call b) approval) := by
  refine Comparison.lockstep_perform (harmless (by rintro _ ⟨⟩)) ?_
  rintro (_ | _)
  · let failed : Call :=
      { call with
        decision :=
          { action := .deny, source := call.decision.source
            reason := some "upstream unavailable" } }
    exact alike_recordCall failed hmask rfl rfl .error _ _ _
  · intro choice world answer after _ hexec
    refine ⟨answer, after, hexec, ?_⟩
    rw [if_neg (by simp [secrecy, parks])]
    refine ⟨rfl, ?_⟩
    rcases answer with error | result
    · exact alike_recordCall call hmask rfl rfl .error _ _ _
    · exact alike_recordCall call hmask rfl rfl .forwarded _ _ _

theorem alike_applyApproval (approval : Option ApprovalRequest) (outcome : Option Outcome)
    (message : Option String) :
    Alike deps invocation a b (applyApproval deps call approval outcome message)
      (applyApproval deps (bearing call b) approval outcome message) := by
  rcases approval with _ | approval
  · exact rfl
  · change Alike deps invocation a b (if _ then _ else _) (if _ then _ else _)
    split
    · refine Comparison.lockstep_perform (harmless (by rintro _ ⟨⟩)) fun _ => ?_
      exact alike_forward call hmask _
    · refine Comparison.lockstep_perform (harmless (by rintro _ ⟨⟩)) fun _ => ?_
      exact alike_recordCall call hmask rfl rfl _ _ _ _

theorem alike_resume (id : String) :
    Alike deps invocation a b (resume deps call id) (resume deps (bearing call b) id) := by
  apply alike_bind (alike_refl (get_only harmless_of_isCommon id))
  rintro (_ | settled)
  · exact rfl
  · change Alike deps invocation a b (if _ then _ else _) (if _ then _ else _)
    split
    · exact alike_applyApproval call hmask _ _ _
    · have hdismiss : (ApprovalService.dismiss id
          (some "client retried with no decision on file")).Only
            (Harmless deps invocation a b) :=
        dismiss_only harmless_of_isCommon fun _ => harmless (by rintro _ ⟨⟩)
      exact alike_bind (alike_refl hdismiss) fun _ => alike_applyApproval call hmask _ _ _

omit hmask in
theorem lockstep_create (request : ApprovalRequest) :
    (secrecy deps invocation a b).Lockstep (machine deps) 0 (fun _ _ => True)
      (SqliteApprovalStore.create { request with arguments := a })
      (SqliteApprovalStore.create { request with arguments := b }) := by
  intro choice world answer after _ hexec
  change exec (.createApproval { request with arguments := a }) choice world =
    some (answer, after) at hexec
  change ∃ answer' after', exec (.createApproval { request with arguments := b }) choice world =
    some (answer', after') ∧ _
  -- The worlds are still the same, so the key is free in both runs or in neither.
  rcases hrow : world.approvals.get request.id with _ | row
  · obtain ⟨table, hcreate⟩ :=
      ApprovalsTable.create_of_get_none { request with arguments := a } hrow
    obtain ⟨table', hcreate'⟩ :=
      ApprovalsTable.create_of_get_none { request with arguments := b } hrow
    have hexec' : exec (.createApproval { request with arguments := b }) choice world =
        some (true, { world with approvals := table' }) := by
      simp [exec, hcreate']
    obtain ⟨rfl, rfl⟩ : true = answer ∧ { world with approvals := table } = after := by
      simpa [exec, hcreate] using hexec
    refine ⟨true, _, hexec', ?_⟩
    rcases eq_or_ne (dumps a) (dumps b) with heq | hne
    · rw [if_neg (by simp [secrecy, heq])]
      have hcongr : world.approvals.create { request with arguments := a } =
          world.approvals.create { request with arguments := b } :=
        ApprovalsTable.create_congr _ (by simp only [ApprovalsTable.newRow, heq])
      rw [hcongr, hcreate'] at hcreate
      obtain rfl := Option.some.inj hcreate
      exact ⟨rfl, trivial⟩
    · rw [if_pos (by simp [secrecy, parks, hrow, hne])]
      have hrow := get_of_created hexec
      have hrow' := get_of_created hexec'
      exact ⟨request.id, _, _, hrow, hrow', hne⟩
  · have hcreate :=
      ApprovalsTable.create_of_get_some { request with arguments := a } hrow
    have hcreate' :=
      ApprovalsTable.create_of_get_some { request with arguments := b } hrow
    have hexec' : exec (.createApproval { request with arguments := b }) choice world =
        some (false, world) := by
      simp [exec, hcreate']
    obtain ⟨rfl, rfl⟩ : false = answer ∧ world = after := by
      simpa [exec, hcreate] using hexec
    refine ⟨false, world, hexec', ?_⟩
    rw [if_neg (by simp [secrecy, parks, hrow])]
    exact ⟨rfl, trivial⟩

omit hmask in
theorem lockstep_openApproval (service : ApprovalService) (tool upstream : String)
    (reason clientName : Option String) :
    (secrecy deps invocation a b).Lockstep (machine deps) 0
      (fun x y => x.id = y.id ∧ x.approver = y.approver)
      (service.openApproval tool upstream a reason clientName)
      (service.openApproval tool upstream b reason clientName) := by
  refine Comparison.lockstep_perform (harmless (by rintro _ ⟨⟩)) fun now => ?_
  refine Comparison.lockstep_perform (harmless (by rintro _ ⟨⟩)) fun id => ?_
  dsimp only [Program.bind]
  rcases service.deadline now with _ | expiresAt
  · exact trivial
  · let request : ApprovalRequest :=
      { id := id, createdAt := now, expiresAt := expiresAt, status := .pending, tool := tool,
        upstream := upstream, arguments := a, reason := reason, clientName := clientName }
    refine Comparison.lockstep_bind (lockstep_create request) fun _ _ _ => ?_
    exact Comparison.lockstep_perform (harmless (by rintro _ ⟨⟩)) fun _ => ⟨rfl, rfl⟩

theorem alike_requireApproval (hcall : call.request.arguments = a)
    (supportsUrlElicitation : Bool) (polls : Nat) :
    Alike deps invocation a b (requireApproval deps call supportsUrlElicitation polls)
      (requireApproval deps (bearing call b) supportsUrlElicitation polls) := by
  subst hcall
  apply Comparison.lockstep_bind (lockstep_openApproval _ _ _ _ _)
  rintro x y ⟨hid, happrover⟩
  change Alike _ _ _ _ (if _ then _ else _) (if _ then _ else _)
  rw [hid]
  split
  · apply alike_recordCall call hmask
    · simp [hid]
    · exact happrover
  · have hwait : (deps.approvals.wait polls y.id).Only
        (Harmless deps invocation call.request.arguments b) :=
      wait_only harmless_of_isCommon (fun _ _ => harmless (by rintro _ ⟨⟩))
        (harmless (by rintro _ ⟨⟩)) polls
    apply alike_bind (alike_refl hwait)
    intro settled
    exact alike_bind (alike_applyApproval call hmask _ _ _) fun _ => rfl

omit hmask in
/-- The two calls are alike: they can only part where they are parked. -/
theorem alike_callTool (hmask : dumps (redactArguments a deps.redact) =
      dumps (redactArguments b deps.redact)) (polls : Nat) :
    Alike deps invocation a b (callTool deps (carrying invocation a) polls)
      (callTool deps (carrying invocation b) polls) := by
  refine Comparison.lockstep_perform (harmless (by rintro _ ⟨⟩)) fun started => ?_
  intro choice world answer after hassume hexec
  refine ⟨answer, after, hexec, ?_⟩
  rw [if_neg (by simp [secrecy, parks])]
  refine ⟨rfl, ?_⟩
  obtain ⟨rfl, rfl⟩ : world.registry.get invocation.name = answer ∧ world = after := by
    cases hexec
    exact ⟨rfl, rfl⟩
  rcases htool : world.registry.get invocation.name with _ | tool
  · dsimp only [Program.bind]
    exact alike_bind (alike_unknownTool hmask _ _ _) fun _ => rfl
  · have hdecision : evaluate ((carrying invocation b).request tool) deps.policy =
        evaluate ((carrying invocation a).request tool) deps.policy := by
      have hlookup : (world.registry.get invocation.name).all _ = true := hassume
      rw [htool] at hlookup
      exact (of_decide_eq_true hlookup).symm
    have hresumes : (carrying invocation b).resumes = (carrying invocation a).resumes := rfl
    have hmask' : dumps (redactArguments (gated deps (carrying invocation a) tool
        started).request.arguments deps.redact) = dumps (redactArguments b deps.redact) := hmask
    dsimp only [Program.bind]
    rw [hresumes, hdecision]
    split
    · rename_i id _
      exact alike_bind (alike_resume _ hmask' id) fun _ => rfl
    · split
      · exact alike_bind (alike_forward _ hmask' none) fun _ => rfl
      · exact alike_bind (alike_deny _ hmask') fun _ => rfl
      · exact alike_requireApproval _ hmask' rfl _ _

end Lockstep

/-- Everything the database holds. -/
def SameTables (world world' : World) : Prop :=
  world'.approvals = world.approvals ∧ world'.audit = world.audit

theorem lockstep_others {deps : GatewayDeps} {invocation : Invocation} {a b : JsonObject}
    {i : Nat} (hi : i ≥ 1) (entry : Entry) :
    (secrecy deps invocation a b).Lockstep (machine deps) i Eq ((machine deps).code entry)
      ((machine deps).code entry) := by
  refine Comparison.lockstep_refl (fun _ => rfl) (Program.only_of_forall ?_ _)
  intro op world
  have hne : (i == 0) = false := by simp; omega
  cases op <;> simp [secrecy, parks, hne]

theorem apart_lasts {deps : GatewayDeps} {invocation : Invocation} {a b : JsonObject}
    {v v' w w' : World} (h : (secrecy deps invocation a b).Apart v v') (hw : Evolves v w)
    (hw' : Evolves v' w') : ¬SameTables w w' := by
  rintro ⟨happrovals, -⟩
  obtain ⟨id, row, row', hrow, hrow', hne⟩ := h
  obtain ⟨later, hlater, hadvances⟩ := hw.approvals id row hrow
  obtain ⟨later', hlater', hadvances'⟩ := hw'.approvals id row' hrow'
  rw [happrovals, hlater] at hlater'
  obtain rfl := Option.some.inj hlater'
  exact hne (hadvances.call_eq.2.2.symm.trans hadvances'.call_eq.2.2)

theorem parted_eq_false {deps : GatewayDeps} {invocation : Invocation} {a b : JsonObject}
    {history : List GateEvent} :
    (secrecy deps invocation a b).parted history = false ↔
      dumps a = dumps b ∨
        history.any (fun event => parks event.task event.op event.before) = false := by
  rcases eq_or_ne (dumps a) (dumps b) with heq | hne
  · simp [Comparison.parted, secrecy, heq]
  · simp [Comparison.parted, secrecy, hne]

/-- Two runs of a call that differ in masked arguments leave the same tables exactly
when the arguments are written the same or the call is never parked. -/
theorem same_tables_iff {deps : GatewayDeps} {world : World} {invocation : Invocation}
    {polls : Nat} {a b : JsonObject} {labels : List GateLabel} {c : GateConfig}
    (hmask : dumps (redactArguments a deps.redact) = dumps (redactArguments b deps.redact))
    (hrun : (machine deps).run (sameDecision deps invocation a b) (Config.initial world)
      (.start (.callTool (carrying invocation a) polls) :: labels) = some c) :
    (∃ c', (machine deps).run .none (Config.initial world)
        (.start (.callTool (carrying invocation b) polls) :: labels) = some c' ∧
      SameTables c.state.world c'.state.world) ↔
    dumps a = dumps b ∨
      c.state.history.any (fun event => parks event.task event.op event.before) = false := by
  have hinitial : (secrecy deps invocation a b).Abreast (machine deps)
      (Config.initial world) (Config.initial world) :=
    ⟨rfl, rfl, fun i task h => by cases h⟩
  have hcalls : (secrecy deps invocation a b).Lockstep (machine deps) 0 Eq
      ((machine deps).code (.callTool (carrying invocation a) polls))
      ((machine deps).code (.callTool (carrying invocation b) polls)) :=
    alike_bind (alike_callTool hmask polls) fun _ => rfl
  have habreast := hinitial.start hcalls
  rw [← parted_eq_false]
  rcases habreast.run (fun i hi => lockstep_others hi) hrun with
    ⟨c', hrun', hmeets, hnever⟩ | ⟨hever, m, m', rest, hapart, hrest, hrest'⟩
  · have htables : SameTables c.state.world c'.state.world :=
      ⟨by rw [hmeets.world], by rw [hmeets.world]⟩
    exact iff_of_true ⟨c', hrun', htables⟩ hnever
  · refine iff_of_false ?_ (by simp [hever])
    rintro ⟨c', hrun', htables⟩
    have hlater : (machine deps).run .none m' rest = some c' := hrest' ▸ hrun'
    exact apart_lasts hapart (evolves_of_reaches (Machine.reaches_of_run hrest))
      (evolves_of_reaches (Machine.reaches_of_run hlater)) htables

def maskingDeps : GatewayDeps := { deps with redact := ["password"] }

def password (secret : String) : JsonObject := [("password", .str secret)]

def refused : GateConfig :=
  ((machine maskingDeps).run (sameDecision maskingDeps denial (password "hunter2")
    (password "letmein")) (Config.initial office)
    (.start (.callTool (carrying denial (password "hunter2")) 0) :: acts 0 6)).get
      (by decide)

theorem same_tables_iff_denied :
    ∃ c', (machine maskingDeps).run .none (Config.initial office)
        (.start (.callTool (carrying denial (password "letmein")) 0) :: acts 0 6) = some c' ∧
      SameTables refused.state.world c'.state.world := by
  have hmask : dumps (redactArguments (password "hunter2") maskingDeps.redact) =
      dumps (redactArguments (password "letmein") maskingDeps.redact) := rfl
  have hrun : (machine maskingDeps).run (sameDecision maskingDeps denial (password "hunter2")
      (password "letmein")) (Config.initial office)
      (.start (.callTool (carrying denial (password "hunter2")) 0) :: acts 0 6) =
        some refused := (Option.some_get _).symm
  exact (same_tables_iff hmask hrun).mpr (.inr rfl)

def writing : Invocation := { name := "fs__write", supportsUrlElicitation := true }

/-- The call is parked under the identifier `a`, and the client is sent to the UI. -/
def parking : List GateLabel :=
  acts 0 3 ++ [names 0 "a"] ++ acts 0 6

/-- The secret is masked in the audit log and not in the parked request. -/
theorem parked_secret_stored :
    redactArguments (password "hunter2") maskingDeps.redact =
      redactArguments (password "letmein") maskingDeps.redact ∧
    (∀ tool, decision maskingDeps (carrying writing (password "hunter2")) tool =
      decision maskingDeps (carrying writing (password "letmein")) tool) ∧
    ∃ c c', (machine maskingDeps).run .none (Config.initial office)
        (.start (.callTool (carrying writing (password "hunter2")) 0) :: parking) = some c ∧
      (machine maskingDeps).run .none (Config.initial office)
        (.start (.callTool (carrying writing (password "letmein")) 0) :: parking) = some c' ∧
      (c.state.world.approvals.get "a").map (·.arguments) = some (password "hunter2") ∧
      (c'.state.world.approvals.get "a").map (·.arguments) = some (password "letmein") ∧
      ¬SameTables c.state.world c'.state.world := by
  refine ⟨rfl, fun tool => rfl, _, _, rfl, rfl, rfl, rfl, ?_⟩
  rintro ⟨happrovals, -⟩
  have hrows : some (password "letmein") = some (password "hunter2") :=
    congrArg (fun table => (table.get "a").map (·.arguments)) happrovals
  have hne : password "letmein" ≠ password "hunter2" := by decide
  exact hne (Option.some.inj hrows)

end McpGatekeeper.Redaction
