import McpGatekeeper.Interleaving.Deeds
import McpGatekeeper.Interleaving.Strengthening
import McpGatekeeper.System

namespace McpGatekeeper.Conduct

open Interleaving
open McpGatekeeper.Approvals
open McpGatekeeper.Clock
open McpGatekeeper.Gateway
open McpGatekeeper.JsonValues
open McpGatekeeper.Operations
open McpGatekeeper.Service
open McpGatekeeper.System

/-- The operations by which a `call_tool` deals with its call. -/
def isDeed : Op → Bool
  | .registryGet _ => true
  | .callTool _ _ _ => true
  | .recordAudit _ => true
  | .takeGranted _ => true
  | .takeRefused _ => true
  | _ => false

/-- The operations any task may perform: they decide nothing by themselves. -/
def isRoutine : Op → Bool
  | .createApproval _ => false
  | .resolveApproval _ _ _ _ _ => false
  | .installRegistry _ => false
  | op => !isDeed op

/-- The routine operations that do not belong to a `wait`. -/
def isCommon : Op → Bool
  | .ensureEvent _ => false
  | op => isRoutine op

theorem isRoutine_of_isCommon {op : Op} (h : isCommon op = true) : isRoutine op = true := by
  cases op
  case ensureEvent => rfl
  all_goals
    exact h

section Service

variable {P : Op → Prop} (hcommon : ∀ op, isCommon op = true → P op)
include hcommon

theorem sweep_only (now : Option DateTime) :
    (SqliteApprovalStore.expireOverdue now).Only P := by
  cases now with
  | some moment => exact (Program.only_call _ _).mpr (hcommon _ rfl)
  | none => exact ⟨hcommon _ rfl, fun moment => ⟨hcommon _ rfl, fun _ => trivial⟩⟩

theorem get_only (id : String) : (ApprovalService.get id).Only P := by
  refine ⟨hcommon _ rfl, ?_⟩
  rintro (_ | request)
  · exact trivial
  · refine ⟨hcommon _ rfl, fun now => ?_⟩
    change Program.Only P (if _ then _ else _)
    split
    · apply Program.Only.bind (sweep_only hcommon none)
      exact fun _ => ⟨hcommon _ rfl, fun _ => trivial⟩
    · exact trivial

theorem resolve_only {id : String} {approved : Bool} {approver : String}
    {note : Option String}
    (hresolve : ∀ decidedAt, P (.resolveApproval id approved decidedAt approver note)) :
    (SqliteApprovalStore.resolve id approved approver note).Only P :=
  ⟨hcommon _ rfl, fun decidedAt => ⟨hresolve decidedAt, fun _ => trivial⟩⟩

theorem decide_only {id : String} {approved : Bool} {approver : String}
    {note : Option String}
    (hresolve : ∀ decidedAt, P (.resolveApproval id approved decidedAt approver note)) :
    (ApprovalService.decide id approved approver note).Only P := by
  apply Program.Only.bind (resolve_only hcommon hresolve)
  exact fun resolved => ⟨hcommon _ rfl, fun _ => trivial⟩

theorem dismiss_only {id : String} {note : Option String}
    (hresolve : ∀ decidedAt, P (.resolveApproval id false decidedAt clientApprover note)) :
    (ApprovalService.dismiss id note).Only P := by
  apply Program.Only.bind (resolve_only hcommon hresolve)
  exact fun resolved => ⟨hcommon _ rfl, fun _ => trivial⟩

theorem pending_only : ApprovalService.pending.Only P := by
  apply Program.Only.bind (sweep_only hcommon none)
  exact fun _ => ⟨hcommon _ rfl, fun _ => trivial⟩

variable (service : ApprovalService)

theorem openApproval_only {tool upstream : String} {arguments : JsonObject}
    {reason clientName : Option String}
    (hcreate : ∀ request : ApprovalRequest, request.status = .pending →
      request.tool = tool → request.upstream = upstream →
      request.arguments = arguments → P (.createApproval request)) :
    (service.openApproval tool upstream arguments reason clientName).Only P := by
  refine ⟨hcommon _ rfl, fun now => ⟨hcommon _ rfl, fun id => ?_⟩⟩
  dsimp only [Program.bind]
  split
  · exact trivial
  · refine ⟨hcreate _ rfl rfl rfl rfl, ?_⟩
    rintro (_ | _)
    · exact trivial
    · exact ⟨hcommon _ rfl, fun _ => trivial⟩

variable {service} {id : String}
  (htimeout : service.approveOnTimeout = true → ∀ decidedAt,
    P (.resolveApproval id true decidedAt timeoutApprover
      (some "auto-approved on timeout")))
include htimeout

theorem settleTimeout_only : (service.settleTimeout id).Only P := by
  refine ⟨hcommon _ rfl, fun _ => ?_⟩
  change Program.Only P (if _ then _ else _)
  split
  · rename_i happrove
    exact resolve_only hcommon (htimeout happrove)
  · apply Program.Only.bind (sweep_only hcommon none)
    exact fun _ => ⟨hcommon _ rfl, fun _ => trivial⟩

theorem waitLoop_only (deadline : DateTime) (polls : Nat) :
    (service.waitLoop id deadline polls).Only P := by
  induction polls with
  | zero => exact trivial
  | succ polls ih =>
      refine ⟨hcommon _ rfl, fun now => ?_⟩
      change Program.Only P (if _ then _ else _)
      split
      · exact settleTimeout_only hcommon htimeout
      · refine ⟨hcommon _ rfl, fun _ => ⟨hcommon _ rfl, ?_⟩⟩
        rintro (_ | current)
        · exact trivial
        · change Program.Only P (if _ then _ else _)
          split
          · exact ⟨hcommon _ rfl, fun _ => trivial⟩
          · exact ih

theorem wait_only (hensure : P (.ensureEvent id)) (polls : Nat) :
    (service.wait polls id).Only P := by
  refine ⟨hcommon _ rfl, ?_⟩
  rintro (_ | request)
  · exact trivial
  · change Program.Only P (if _ then _ else _)
    split
    · exact trivial
    · exact ⟨hensure, fun _ => waitLoop_only hcommon htimeout _ _⟩

end Service

section Gateway

variable (deps : GatewayDeps) {P : Op → Prop}
  (hcommon : ∀ op, isCommon op = true → P op)
include hcommon

theorem collectTools_only (names : List String) : (collectTools names).Only P := by
  induction names with
  | nil => exact trivial
  | cons name names ih =>
      refine ⟨hcommon _ rfl, fun listed => ?_⟩
      change Program.Only P (collectTools names >>= _)
      exact Program.Only.bind ih fun collected => trivial

theorem listTools_only (hinstall : ∀ collected, P (.installRegistry collected)) :
    listTools.Only P := by
  refine Program.Only.bind ⟨hcommon _ rfl, fun names => ?_⟩ fun registry => trivial
  apply Program.Only.bind (collectTools_only hcommon names)
  exact fun collected => ⟨hinstall collected, fun _ => trivial⟩

variable (hdeed : ∀ op, isDeed op = true → P op)
include hdeed

theorem record_only (tool upstream : String) (arguments : JsonObject)
    (decision : PolicyEngine.Decision) (outcome : Audit.Outcome)
    (clientName : Option String) (started : Int)
    (resultStatus : Option Audit.ResultStatus) (approval : Option ApprovalRequest)
    (error : Option String) :
    (record deps tool upstream arguments decision outcome clientName started resultStatus
      approval error).Only P :=
  ⟨hcommon _ rfl, fun _ => ⟨hcommon _ rfl, fun _ => ⟨hcommon _ rfl, fun _ =>
    ⟨hdeed _ rfl, fun _ => trivial⟩⟩⟩⟩

theorem unknownTool_only (name : String) (arguments : JsonObject)
    (clientName : Option String) (started : Int) :
    (unknownTool deps name arguments clientName started).Only P := by
  apply Program.Only.bind (record_only deps hcommon hdeed _ _ _ _ _ _ _ _ _ _)
  exact fun _ => ⟨hcommon _ rfl, fun names => trivial⟩

theorem forward_only (call : Call) (approval : Option ApprovalRequest) :
    (forward deps call approval).Only P := by
  refine ⟨hcommon _ rfl, ?_⟩
  rintro (_ | _)
  · apply Program.Only.bind (record_only deps hcommon hdeed _ _ _ _ _ _ _ _ _ _)
    exact fun _ => trivial
  · refine ⟨hdeed _ rfl, ?_⟩
    rintro (error | result)
    · apply Program.Only.bind (record_only deps hcommon hdeed _ _ _ _ _ _ _ _ _ _)
      exact fun _ => trivial
    · apply Program.Only.bind (record_only deps hcommon hdeed _ _ _ _ _ _ _ _ _ _)
      exact fun _ => trivial

theorem deny_only (call : Call) : (deny deps call).Only P := by
  apply Program.Only.bind (record_only deps hcommon hdeed _ _ _ _ _ _ _ _ _ _)
  exact fun _ => trivial

theorem applyApproval_only (call : Call) (approval : Option ApprovalRequest)
    (outcome : Option Audit.Outcome) (message : Option String) :
    (applyApproval deps call approval outcome message).Only P := by
  rcases approval with _ | approval
  · exact trivial
  · change Program.Only P (if _ then _ else _)
    split
    · exact ⟨hdeed _ rfl, fun _ => forward_only deps hcommon hdeed call _⟩
    · refine ⟨hdeed _ rfl, fun _ => ?_⟩
      apply Program.Only.bind (record_only deps hcommon hdeed _ _ _ _ _ _ _ _ _ _)
      exact fun _ => trivial

theorem resume_only {id : String}
    (hretry : ∀ decidedAt note, P (.resolveApproval id false decidedAt clientApprover note))
    (call : Call) : (resume deps call id).Only P := by
  apply Program.Only.bind (get_only hcommon id)
  rintro (_ | settled)
  · exact trivial
  · change Program.Only P (if _ then _ else _)
    split
    · exact applyApproval_only deps hcommon hdeed _ _ _ _
    · apply Program.Only.bind (dismiss_only hcommon fun decidedAt => hretry decidedAt _)
      exact fun dismissed => applyApproval_only deps hcommon hdeed _ _ _ _

theorem requireApproval_only {call : Call}
    (hcreate : ∀ request : ApprovalRequest, request.status = .pending →
      request.tool = call.request.tool → request.upstream = call.entry.upstream →
      request.arguments = call.request.arguments → P (.createApproval request))
    (htimeout : deps.approvals.approveOnTimeout = true → ∀ id decidedAt note,
      P (.resolveApproval id true decidedAt timeoutApprover note))
    (hensure : ∀ id, P (.ensureEvent id)) (supportsUrlElicitation : Bool) (polls : Nat) :
    (requireApproval deps call supportsUrlElicitation polls).Only P := by
  apply Program.Only.bind (openApproval_only hcommon _ hcreate)
  intro approval
  change Program.Only P (if _ then _ else _)
  split
  · apply Program.Only.bind (record_only deps hcommon hdeed _ _ _ _ _ _ _ _ _ _)
    exact fun _ => trivial
  · apply Program.Only.bind
      (wait_only hcommon (fun happrove decidedAt => htimeout happrove _ decidedAt _)
        (hensure _) polls)
    intro settled
    apply Program.Only.bind (applyApproval_only deps hcommon hdeed _ _ _ _)
    exact fun _ => trivial

theorem callTool_only {invocation : Invocation}
    (hcreate : ∀ request : ApprovalRequest, request.status = .pending →
      request.tool = invocation.name → request.arguments = invocation.args →
      P (.createApproval request))
    (hretry : ∀ id, invocation.resumes = some id → ∀ decidedAt note,
      P (.resolveApproval id false decidedAt clientApprover note))
    (htimeout : deps.approvals.approveOnTimeout = true → invocation.resumes = none →
      ∀ id decidedAt note, P (.resolveApproval id true decidedAt timeoutApprover note))
    (hensure : ∀ id, P (.ensureEvent id)) (polls : Nat) :
    (callTool deps invocation polls).Only P := by
  refine ⟨hcommon _ rfl, fun started => ⟨hdeed _ rfl, ?_⟩⟩
  rintro (_ | entry)
  · apply Program.Only.bind (unknownTool_only deps hcommon hdeed _ _ _ _)
    exact fun _ => trivial
  · dsimp only [Program.bind]
    split
    · rename_i requestState hresumes
      apply Program.Only.bind
        (resume_only deps hcommon hdeed (hretry requestState hresumes) _)
      exact fun _ => trivial
    · rename_i hresumes
      split
      · apply Program.Only.bind (forward_only deps hcommon hdeed _ _)
        exact fun _ => trivial
      · apply Program.Only.bind (deny_only deps hcommon hdeed _)
        exact fun _ => trivial
      · exact requireApproval_only deps hcommon hdeed
          (fun request hpending htool _ harguments =>
            hcreate request hpending htool harguments)
          (fun happrove => htimeout happrove hresumes) hensure _ _

end Gateway

/-- Whose word settles a request, and how: a human's, a client's that gave up, or
the configured answer to silence. -/
inductive Ruling (deps : GatewayDeps) :
    Entry → String → Bool → String → Option String → Prop
  | human (id : String) (approved : Bool) (approver : String) (note : Option String) :
      Ruling deps (.decide id approved approver note) id approved approver note
  | dismissal (id : String) (note : Option String) :
      Ruling deps (.dismiss id note) id false clientApprover note
  | retry (invocation : Invocation) (polls : Nat) (id : String) (note : Option String)
      (hresumes : invocation.resumes = some id) :
      Ruling deps (.callTool invocation polls) id false clientApprover note
  | waiter (id : String) (polls : Nat) (note : Option String)
      (happrove : deps.approvals.approveOnTimeout = true) :
      Ruling deps (.wait id polls) id true timeoutApprover note
  | holder (invocation : Invocation) (polls : Nat) (id : String) (note : Option String)
      (happrove : deps.approvals.approveOnTimeout = true)
      (hresumes : invocation.resumes = none) :
      Ruling deps (.callTool invocation polls) id true timeoutApprover note

def Allowed (deps : GatewayDeps) (entry : Entry) : Op → Prop
  | .createApproval request => request.status = .pending
  | .resolveApproval id approved _ approver note =>
      Ruling deps entry id approved approver note
  | .installRegistry _ => entry = .listTools
  | op => isDeed op = true → ∃ invocation polls, entry = .callTool invocation polls

theorem allowed_of_isRoutine (deps : GatewayDeps) (entry : Entry) {op : Op}
    (h : isRoutine op = true) : Allowed deps entry op := by
  cases op
  case createApproval => cases h
  case resolveApproval => cases h
  case installRegistry => cases h
  all_goals
    intro hdeed
    simp [isRoutine, hdeed] at h

theorem allowed_of_isDeed (deps : GatewayDeps) (invocation : Invocation) (polls : Nat)
    {op : Op} (h : isDeed op = true) : Allowed deps (.callTool invocation polls) op := by
  cases op
  case createApproval => cases h
  case resolveApproval => cases h
  case installRegistry => cases h
  all_goals
    exact fun _ => ⟨invocation, polls, rfl⟩

theorem code_allowed (deps : GatewayDeps) (entry : Entry) :
    (code deps entry).Only (Allowed deps entry) := by
  have hroutine : ∀ op, isRoutine op = true → Allowed deps entry op :=
    fun _ h => allowed_of_isRoutine deps entry h
  have hcommon : ∀ op, isCommon op = true → Allowed deps entry op :=
    fun op h => hroutine op (isRoutine_of_isCommon h)
  cases entry with
  | callTool invocation polls =>
      refine Program.Only.bind ?_ fun _ => trivial
      exact callTool_only deps hcommon (fun _ h => allowed_of_isDeed deps invocation polls h)
        (fun request hpending _ _ => hpending)
        (fun id hresumes _ note => .retry invocation polls id note hresumes)
        (fun happrove hresumes id _ note =>
          .holder invocation polls id note happrove hresumes)
        (fun id => hroutine (.ensureEvent id) rfl) polls
  | listTools =>
      refine Program.Only.bind ?_ fun _ => trivial
      exact listTools_only hcommon fun _ => rfl
  | openApproval tool upstream arguments reason clientName =>
      refine Program.Only.bind ?_ fun _ => trivial
      exact openApproval_only hcommon _ fun request hpending _ _ _ => hpending
  | decide id approved approver note =>
      refine Program.Only.bind ?_ fun _ => trivial
      exact decide_only hcommon fun _ => .human id approved approver note
  | dismiss id note =>
      refine Program.Only.bind ?_ fun _ => trivial
      exact dismiss_only hcommon fun _ => .dismissal id note
  | get id =>
      refine Program.Only.bind ?_ fun _ => trivial
      exact get_only hcommon id
  | wait id polls =>
      refine Program.Only.bind ?_ fun _ => trivial
      exact wait_only hcommon (fun happrove _ => .waiter id polls _ happrove)
        (hroutine (.ensureEvent id) rfl) polls
  | pending =>
      refine Program.Only.bind ?_ fun _ => trivial
      exact pending_only hcommon
  | expireOverdue now =>
      refine Program.Only.bind ?_ fun _ => trivial
      exact sweep_only hcommon now

def Forward (A : GateAssumption) : Prop :=
  ∀ now perfCounter s, A.env (.tick now perfCounter) s = true → s.world.now ≤ now

theorem forward_forwardClock : Forward forwardClock :=
  fun _ _ _ h => of_decide_eq_true h

/-- How the world moves in every run: nothing is assumed but `A`, nothing owed. -/
def plain (deps : GatewayDeps) (A : GateAssumption) : Contract (machine deps) where
  assume := A
  inv _ := True
  evo w w' := Evolves w w' ∧ (Forward A → w.now ≤ w'.now)
  pre _ _ _ _ := True
  evo_refl w := ⟨Evolves.refl w, fun _ => le_refl w.now⟩
  evo_trans hab hbc := ⟨hab.1.trans hbc.1, fun h => le_trans (hab.2 h) (hbc.2 h)⟩
  exec_evo _ _ _ hexec := ⟨exec_evolves hexec, fun _ => (exec_now hexec).ge⟩
  exec_inv _ _ _ _ := trivial
  env_evo := by
    intro change s world _ hassume henv
    refine ⟨env_evolves henv, fun hforward => ?_⟩
    cases change with
    | tick now perfCounter =>
        cases henv
        exact hforward now perfCounter s hassume
    | disconnect upstream =>
        cases henv
        exact le_refl _
  env_inv _ _ _ := trivial

/-- Every task keeps to the operations of its entry point. -/
def conduct (deps : GatewayDeps) (A : GateAssumption) : Contract (machine deps) :=
  (plain deps A).allowing (Allowed deps)

theorem conduct_kept (deps : GatewayDeps) (A : GateAssumption) :
    (conduct deps A).KeptByCode fun _ _ _ _ => True :=
  Contract.KeptByCode.allowing
    (fun _ _ _ _ _ => Contract.keeps_of_unowed (fun _ _ _ _ => trivial) _)
    (code_allowed deps)

theorem conduct_good {deps : GatewayDeps} {A : GateAssumption} {world : World}
    {c : GateConfig} (hreach : (machine deps).Reaches A (Config.initial world) c) :
    (conduct deps A).Good (fun _ _ _ _ => True) c :=
  Contract.sound (conduct_kept deps A) trivial hreach

theorem evolves_of_reaches {deps : GatewayDeps} {A : GateAssumption} {c c' : GateConfig}
    (hreach : (machine deps).Reaches A c c') : Evolves c.state.world c'.state.world :=
  hreach.evolves Evolves.refl Evolves.trans exec_evolves env_evolves

end McpGatekeeper.Conduct
