import McpGatekeeper.GatewayRules
import McpGatekeeper.Scenarios

namespace McpGatekeeper.Authorisation

open Interleaving
open McpGatekeeper.Approvals
open McpGatekeeper.Conduct
open McpGatekeeper.GateContract
open McpGatekeeper.Gateway
open McpGatekeeper.GatewayRules
open McpGatekeeper.JsonValues
open McpGatekeeper.Operations
open McpGatekeeper.PolicyEngine
open McpGatekeeper.Registry
open McpGatekeeper.Scenarios
open McpGatekeeper.System

def isUpstreamCall : Op → Bool
  | .callTool _ _ _ => true
  | _ => false

def isRegistryGet : Op → Bool
  | .registryGet _ => true
  | _ => false

section Trail

variable {deps : GatewayDeps} {A : GateAssumption} {c : GateConfig}

theorem deeds_eq_nil_of_trail {counts : Op → Bool} {i : Nat} {history : List GateEvent}
    (h : ∀ event ∈ trail i history, counts event.op = false)
    (hcounts : ∀ op, counts op = true → isDeed op = true) :
    deeds counts i history = [] := by
  apply List.eq_nil_iff_forall_not_mem.mpr
  intro event hevent
  obtain ⟨hmem, htask, hcount⟩ := mem_deeds.mp hevent
  have hfalse := h event (mem_deeds.mpr ⟨hmem, htask, hcounts _ hcount⟩)
  rw [hcount] at hfalse
  cases hfalse

theorem split_of_mem_older {history newer older : List GateEvent} {event event' : GateEvent}
    (hsplit : history = newer ++ event :: older) (h : event' ∈ older) :
    ∃ newer' older', history = newer' ++ event' :: older' ∧ older' <:+ older := by
  obtain ⟨between, older', rfl⟩ := List.append_of_mem h
  refine ⟨newer ++ event :: between, older', by simp [hsplit], ?_⟩
  exact ⟨between ++ [event'], by simp⟩

theorem lookup_unique (hgood : (gate deps A).Good (AtReturn deps) c) {i : Nat}
    {invocation invocation' : Invocation} {polls polls' : Nat}
    {tool tool' : Option NamespacedTool} {found found' : World}
    (h : lookup i invocation polls tool found ∈ c.state.history)
    (h' : lookup i invocation' polls' tool' found' ∈ c.state.history) :
    (invocation = invocation' ∧ polls = polls') ∧ tool = tool' := by
  have hone : (deeds isRegistryGet i c.state.history).length ≤ 1 := by
    apply hgood.deeds_le_one
    intro entry op s hget hpre
    cases op <;> cases hget
    have htrail : trail i s.history = [] := hpre.2
    apply deeds_eq_nil_of_trail
    · simp [htrail]
    · intro op hop
      cases op <;> first | rfl | cases hop
  have hmem : lookup i invocation polls tool found ∈
      deeds isRegistryGet i c.state.history := mem_deeds.mpr ⟨h, rfl, rfl⟩
  have hmem' : lookup i invocation' polls' tool' found' ∈
      deeds isRegistryGet i c.state.history := mem_deeds.mpr ⟨h', rfl, rfl⟩
  obtain ⟨event, hevent⟩ := List.length_eq_one_iff.mp
    (Nat.le_antisymm hone (List.length_pos_of_mem hmem))
  have heq : lookup i invocation polls tool found =
      lookup i invocation' polls' tool' found' := by
    rw [hevent, List.mem_singleton] at hmem hmem'
    rw [hmem, hmem']
  simp only [lookup, Event.mk.injEq, Entry.callTool.injEq] at heq
  obtain ⟨-, hcall, -, htool, -⟩ := heq
  exact ⟨hcall, eq_of_heq htool⟩

theorem call_permitted (hgood : (gate deps A).Good (AtReturn deps) c)
    {event : GateEvent} {newer older : List GateEvent}
    (hsplit : c.state.history = newer ++ event :: older)
    (hcall : isUpstreamCall event.op = true) :
    ∃ invocation polls tool answer,
      event = calling event.task invocation polls tool answer event.before ∧
      Permitted deps A event.task invocation polls tool ⟨event.before, older⟩ := by
  have hpre := (hgood.past newer event older hsplit).pre.2
  obtain ⟨i, entry, op, answer, before⟩ := event
  cases op <;> cases hcall
  obtain ⟨invocation, polls, tool, rfl, rfl, rfl, rfl, hpermitted⟩ := hpre
  exact ⟨invocation, polls, tool, answer, rfl, hpermitted⟩

theorem lookup_of_permitted {i : Nat} {invocation : Invocation} {polls : Nat}
    {tool : NamespacedTool} {s : GateState}
    (h : Permitted deps A i invocation polls tool s) :
    ∃ found, lookup i invocation polls (some tool) found ∈ s.history := by
  cases h with
  | byPolicy _ _ found htrail =>
      refine ⟨found, (mem_deeds.mp (?_ : _ ∈ trail i s.history)).1⟩
      simp [htrail]
  | byApproval _ _ _ _ found htrail =>
      refine ⟨found, (mem_deeds.mp (?_ : _ ∈ trail i s.history)).1⟩
      simp [htrail]

theorem approval_of_granting {i : Nat} {invocation : Invocation} {polls : Nat}
    {tool : NamespacedTool} {s : GateState} {approval : ApprovalRequest} {taken : World}
    (h : Permitted deps A i invocation polls tool s)
    (hgranting : granting i invocation polls approval taken ∈ s.history) :
    ∃ s₁, approval.status = .approved ∧ Applies deps A i invocation polls tool approval s₁ ∧
      s₁.world = taken ∧ tool.upstream ∈ taken.connections := by
  have hmem : granting i invocation polls approval taken ∈ trail i s.history :=
    mem_deeds.mpr ⟨hgranting, rfl, rfl⟩
  cases h with
  | byPolicy _ _ found htrail =>
      rw [htrail] at hmem
      simp [granting, lookup] at hmem
  | byApproval approval' hgranted s₁ happlies found htrail hconnected =>
      rw [htrail] at hmem
      simp only [granting, lookup, List.mem_cons, Event.mk.injEq, Op.takeGranted.injEq,
        true_and, reduceCtorEq, false_and, List.not_mem_nil, or_false] at hmem
      obtain ⟨rfl, -, rfl⟩ := hmem
      exact ⟨s₁, hgranted, happlies, rfl, hconnected⟩

end Trail

/-- The tool the task has found so far. -/
def foundTool (i : Nat) (history : List GateEvent) : Option NamespacedTool :=
  (trail i history).findSome? fun event =>
    match event with
    | ⟨_, _, .registryGet _, answer, _⟩ => answer
    | _ => none

/-- No retry of a call that policy denies reads an approved row while the upstream is
connected. -/
def noDeniedRetries (deps : GatewayDeps) : GateAssumption where
  act i entry op s :=
    match entry with
    | .callTool invocation _ =>
        match invocation.resumes, foundTool i s.history with
        | some id, some tool =>
            !(consults id op && (decision deps invocation tool).action == .deny &&
              (s.world.approvals.get id).any (·.status == .approved) &&
              decide (tool.upstream ∈ s.world.connections))
        | _, _ => true
    | _ => true
  env _ _ := true

theorem foundTool_of_trail {i : Nat} {invocation : Invocation} {polls : Nat}
    {tool : NamespacedTool} {found : World} {history : List GateEvent}
    (h : trail i history = [lookup i invocation polls (some tool) found]) :
    foundTool i history = some tool := by
  simp [foundTool, h, lookup]

/-- As long as no retry of a denied call reads a granted approval, an invocation whose
call policy denies calls no upstream. -/
theorem denied_never_called {deps : GatewayDeps} {world : World} {c : GateConfig}
    (hreach : (machine deps).Reaches (noDeniedRetries deps) (Config.initial world) c)
    {i : Nat} {invocation : Invocation} {polls : Nat} {tool : NamespacedTool} {found : World}
    (hfound : lookup i invocation polls (some tool) found ∈ c.state.history)
    (hdeny : (decision deps invocation tool).action = .deny) :
    ∀ event ∈ c.state.history, event.task = i → isUpstreamCall event.op = false := by
  have hgood := gate_good hreach
  intro event hevent htask
  rcases hcall : isUpstreamCall event.op with _ | _
  · rfl
  · obtain ⟨newer, older, hsplit⟩ := List.append_of_mem hevent
    obtain ⟨invocation', polls', tool', answer, -, hpermitted⟩ :=
      call_permitted hgood hsplit hcall
    obtain ⟨found', hfound'⟩ := lookup_of_permitted hpermitted
    have hmem : lookup i invocation' polls' (some tool') found' ∈ c.state.history := by
      rw [hsplit, ← htask]
      exact List.mem_append_right _ (List.mem_cons_of_mem _ hfound')
    obtain ⟨⟨rfl, rfl⟩, htool⟩ := lookup_unique hgood hfound hmem
    obtain rfl := Option.some.inj htool
    cases hpermitted with
    | byPolicy _ hallow =>
        rw [hdeny] at hallow
        cases hallow
    | byApproval approval hgranted s₁ happlies _ _ hconnected =>
        cases happlies.basis with
        | opened _ hdecision =>
            rw [hdeny] at hdecision
            cases hdecision
        | resumed hresumes s₀ op _ hconsults hassume htrail hevolves hread =>
            have hconnected₀ := hevolves.connections hconnected
            simp [noDeniedRetries, hresumes, foundTool_of_trail htrail, hconsults, hdeny,
              hread hgranted, hgranted, hconnected₀] at hassume

/-- The request of a write is presented for a delete, which policy denies. -/
def smuggling : Invocation :=
  { name := "fs__delete", requestState := some "a", inputResponses := some [] }

/-- A human has denied the request before. -/
def turnedAway : GateConfig :=
  ((machine deps).run (noDeniedRetries deps) (Config.initial office)
    (opening ++ denying 1 ++ .start (.callTool smuggling 0) :: acts 2 9)).get (by decide)

def deleteTool : NamespacedTool :=
  { upstream := "fs", remoteName := "delete", tool := { name := "fs__delete" } }

theorem denied_never_called_retried :
    turnedAway.state.history.any
      (fun event => event.task == 2 && isUpstreamCall event.op) = false := by
  have hreach : (machine deps).Reaches (noDeniedRetries deps) (Config.initial office)
      turnedAway :=
    Machine.reaches_get _
  obtain ⟨found, hfound⟩ : ∃ found,
      lookup 2 smuggling 0 (some deleteTool) found ∈ turnedAway.state.history :=
    ⟨_, List.mem_of_getElem? (i := 7) rfl⟩
  have hnever := denied_never_called hreach hfound (by decide)
  apply List.any_eq_false.mpr
  intro event hevent hcalls
  rw [Bool.and_eq_true, beq_iff_eq] at hcalls
  rw [hnever event hevent hcalls.1] at hcalls
  cases hcalls.2

def smuggled : GateConfig :=
  ((machine deps).run .none (Config.initial office)
    (opening ++ approving 1 ++ .start (.callTool smuggling 0) :: acts 2 6 ++
      [serves 2])).get (by decide)

theorem denied_call_forwarded :
    ∃ tool, foundTool 2 smuggled.state.history = some tool ∧
      (decision deps smuggling tool).action = .deny ∧
      smuggled.state.history.any
        (fun event => event.task == 2 && isUpstreamCall event.op) = true :=
  ⟨_, rfl, rfl, rfl⟩

/-- The row describes the call. -/
def describes (invocation : Invocation) (tool : NamespacedTool) (row : ApprovalRequest) :
    Bool :=
  decide (row.tool = invocation.name) && decide (row.upstream = tool.upstream) &&
    decide (row.arguments = dumps invocation.args)

/-- A retry that reads a granted approval while its upstream is connected repeats the
call the approval was opened for. -/
def faithfulRetries : GateAssumption where
  act i entry op s :=
    match entry with
    | .callTool invocation _ =>
        match invocation.resumes, foundTool i s.history with
        | some id, some tool =>
            !consults id op || decide (tool.upstream ∉ s.world.connections) ||
              (s.world.approvals.get id).all fun row =>
                row.status != .approved || describes invocation tool row
        | _, _ => true
    | _ => true
  env _ _ := true

theorem describes_of_applies {deps : GatewayDeps} {i : Nat} {invocation : Invocation}
    {polls : Nat} {tool : NamespacedTool} {approval : ApprovalRequest} {s : GateState}
    (happlies : Applies deps faithfulRetries i invocation polls tool approval s)
    (hgranted : approval.status = .approved) (hconnected : tool.upstream ∈ s.world.connections) :
    describes invocation tool approval = true := by
  cases happlies.basis with
  | opened _ _ _ _ _ _ htool hupstream harguments =>
      simp [describes, htool, hupstream, harguments]
  | resumed hresumes s₀ op _ hconsults hassume htrail hevolves hread =>
      have hconnected₀ := hevolves.connections hconnected
      simpa [faithfulRetries, hresumes, foundTool_of_trail htrail, hconsults,
        hread hgranted, hgranted, hconnected₀] using hassume

/-- As long as retries repeat the call, whatever is sent to an upstream on the strength
of an approval is what the row on file describes. -/
theorem approved_call_as_described {deps : GatewayDeps} {world : World} {c : GateConfig}
    (hreach : (machine deps).Reaches faithfulRetries (Config.initial world) c)
    {newer older : List GateEvent} {i : Nat} {invocation : Invocation} {polls : Nat}
    {upstream remoteName : String} {arguments : JsonObject}
    {answer : Except String CallToolResult} {before taken : World} {approval : ApprovalRequest}
    (hcall : c.state.history = newer ++
      ⟨i, .callTool invocation polls, .callTool upstream remoteName arguments, answer,
        before⟩ :: older)
    (hgranting : granting i invocation polls approval taken ∈ older) :
    namespaced upstream remoteName = approval.tool ∧ upstream = approval.upstream ∧
      dumps arguments = approval.arguments ∧
      c.state.world.approvals.get approval.id = some approval := by
  have hgood := gate_good hreach
  obtain ⟨invocation', polls', tool, answer', hevent, hpermitted⟩ :=
    call_permitted hgood hcall rfl
  simp only [calling, Event.mk.injEq, Entry.callTool.injEq, Op.callTool.injEq,
    true_and] at hevent
  obtain ⟨⟨rfl, rfl⟩, ⟨rfl, rfl, rfl⟩, -, -⟩ := hevent
  obtain ⟨s₁, hgranted, happlies, rfl, hconnected⟩ :=
    approval_of_granting hpermitted hgranting
  have hdescribes := describes_of_applies happlies hgranted hconnected
  simp only [describes, Bool.and_eq_true, decide_eq_true_eq] at hdescribes
  obtain ⟨⟨htool, hupstream⟩, harguments⟩ := hdescribes
  refine ⟨happlies.named.trans htool.symm, hupstream.symm, harguments.symm, ?_⟩
  obtain ⟨newer', older', hsplit, -⟩ := split_of_mem_older hcall hgranting
  have hhonoured := hgood.past _ _ _ hsplit
  have hfile := happlies.onFile.get (by simp [hgranted])
  exact hhonoured.evo.1.approvals.settled hfile (by simp [hgranted])

def writing : JsonObject := [("path", .str "notes")]

/-- The write is asked for by a client that is handed a link, approved, and retried. -/
def asking : Invocation :=
  { name := "fs__write", arguments := some writing, supportsUrlElicitation := true }

def retrying : Invocation :=
  { name := "fs__write", arguments := some writing, requestState := some "b"
    inputResponses := some [] }

def repeated : List GateLabel :=
  .start (.callTool asking 0) :: acts 0 3 ++ [names 0 "b"] ++ acts 0 6 ++
    .start (.decide "b" true "kim" none) :: acts 1 3 ++
    .start (.callTool retrying 0) :: acts 2 6 ++ [serves 2]

def retried : GateConfig :=
  ((machine deps).run faithfulRetries (Config.initial office) repeated).get (by decide)

theorem approved_call_as_described_retried :
    ∃ approval, retried.state.world.approvals.get "b" = some approval ∧
      namespaced "fs" "write" = approval.tool ∧ "fs" = approval.upstream ∧
        dumps writing = approval.arguments := by
  have hreach : (machine deps).Reaches faithfulRetries (Config.initial office) retried :=
    Machine.reaches_get _
  have hgranting : granting 2 retrying 0 _ _ ∈ retried.state.history.tail :=
    List.mem_of_getElem? (i := 1) rfl
  have hcall : retried.state.history =
      [] ++ ⟨2, .callTool retrying 0, .callTool "fs" "write" writing, _, _⟩ :: _ := rfl
  obtain ⟨htool, hupstream, harguments, hrow⟩ :=
    approved_call_as_described hreach hcall hgranting
  exact ⟨_, hrow, htool, hupstream, harguments⟩

/-- The approval of a write without arguments is presented with arguments. -/
def forging : Invocation :=
  { name := "fs__write", arguments := some writing, requestState := some "a"
    inputResponses := some [] }

def forged : GateConfig :=
  ((machine deps).run .none (Config.initial office)
    (opening ++ approving 1 ++ .start (.callTool forging 0) :: acts 2 6 ++
      [serves 2])).get (by decide)

theorem approval_spent_on_other_arguments :
    ∃ answer before taken approval older,
      forged.state.history =
        ⟨2, .callTool forging 0, .callTool "fs" "write" writing, answer, before⟩ :: older ∧
      granting 2 forging 0 approval taken ∈ older ∧ approval.id = "a" ∧
      approval.arguments = [] ∧ dumps writing ≠ approval.arguments := by
  have hgranting : granting 2 forging 0 _ _ ∈ forged.state.history.tail :=
    List.mem_of_getElem? (i := 1) rfl
  exact ⟨_, _, _, _, _, rfl, hgranting, rfl, rfl, by decide⟩

/-- The invocation presents the approval, or opened it itself. -/
def Uses (i : Nat) (invocation : Invocation) (polls : Nat) (id : String)
    (history : List GateEvent) : Prop :=
  invocation.resumes = some id ∨
    (invocation.resumes = none ∧ ∃ request before,
      ⟨i, .callTool invocation polls, .createApproval request, true, before⟩ ∈ history ∧
        request.id = id)

theorem Uses.later {i : Nat} {invocation : Invocation} {polls : Nat} {id : String}
    {history history' : List GateEvent} (h : Uses i invocation polls id history)
    (hsubset : history ⊆ history') : Uses i invocation polls id history' := by
  rcases h with h | ⟨hresumes, request, before, hopened, hid⟩
  · exact .inl h
  · exact .inr ⟨hresumes, request, before, hsubset hopened, hid⟩

theorem uses_of_granting {deps : GatewayDeps} {A : GateAssumption} {c : GateConfig}
    (hgood : (gate deps A).Good (AtReturn deps) c) {newer older : List GateEvent} {i : Nat}
    {invocation : Invocation} {polls : Nat} {approval : ApprovalRequest} {taken : World}
    (hsplit : c.state.history =
      newer ++ granting i invocation polls approval taken :: older) :
    approval.status = .approved ∧ taken.approvals.get approval.id = some approval ∧
      Uses i invocation polls approval.id older := by
  obtain ⟨-, hgranted, invocation', polls', tool, hentry, happlies⟩ :=
    (hgood.past _ _ _ hsplit).pre
  obtain ⟨rfl, rfl⟩ := Entry.callTool.inj hentry
  refine ⟨hgranted, happlies.onFile.get (by simp [hgranted]), ?_⟩
  cases happlies.basis with
  | resumed hresumes => exact .inl hresumes
  | opened hresumes _ request before hopened hid =>
      exact .inr ⟨hresumes, request, before, hopened, hid⟩

/-- Every invocation calls an upstream at most once, and acts on the strength of a row
only if it presents or opened that row, which is approved at that moment. -/
theorem approval_spent_once_per_use {deps : GatewayDeps} {world : World} {c : GateConfig}
    (hreach : (machine deps).Reaches .none (Config.initial world) c) :
    (∀ i, (deeds isUpstreamCall i c.state.history).length ≤ 1) ∧
    ∀ newer i invocation polls approval taken older,
      c.state.history = newer ++ granting i invocation polls approval taken :: older →
        approval.status = .approved ∧ taken.approvals.get approval.id = some approval ∧
        Uses i invocation polls approval.id older := by
  have hgood := gate_good hreach
  constructor
  · intro i
    apply hgood.deeds_le_one
    intro entry op s hcall hpre
    cases op <;> cases hcall
    obtain ⟨-, invocation, polls, tool, -, -, -, -, hpermitted⟩ := hpre
    have hno : ∀ event ∈ trail i s.history, isUpstreamCall event.op = false := by
      cases hpermitted with
      | byPolicy _ _ found htrail => simp [htrail, lookup, isUpstreamCall]
      | byApproval _ _ _ _ found htrail =>
          simp [htrail, lookup, granting, isUpstreamCall]
    apply deeds_eq_nil_of_trail hno
    intro op hop
    cases op <;> first | rfl | cases hop
  · intro newer i invocation polls approval taken older hsplit
    exact uses_of_granting hgood hsplit

def retried₂ : GateConfig :=
  ((machine deps).run .none (Config.initial office)
    (opening ++ approving 1 ++ .start (.callTool forging 0) :: acts 2 6 ++ [serves 2] ++
      .start (.callTool forging 0) :: acts 3 6 ++ [serves 3])).get (by decide)

theorem approval_spent_once_per_use_twice :
    (deeds isUpstreamCall 2 retried₂.state.history).length ≤ 1 := by
  have hreach : (machine deps).Reaches .none (Config.initial office) retried₂ :=
    Machine.reaches_get _
  exact (approval_spent_once_per_use hreach).1 2

/-- Two retries present one approval, and both are forwarded. -/
theorem approval_spent_twice :
    ∃ taken taken' approval, approval.id = "a" ∧
      granting 2 forging 0 approval taken ∈ retried₂.state.history ∧
      granting 3 forging 0 approval taken' ∈ retried₂.state.history ∧
      (deeds isUpstreamCall 2 retried₂.state.history).length = 1 ∧
      (deeds isUpstreamCall 3 retried₂.state.history).length = 1 := by
  have hgranting : granting 2 forging 0 _ _ ∈ retried₂.state.history :=
    List.mem_of_getElem? (i := 9) rfl
  have hgranting' : granting 3 forging 0 _ _ ∈ retried₂.state.history :=
    List.mem_of_getElem? (i := 2) rfl
  exact ⟨_, _, _, rfl, hgranting, hgranting', rfl, rfl⟩

/-- A human's approval reaches the database. -/
def approves (id : String) (event : GateEvent) : Bool :=
  match event.entry, event.op with
  | .decide id' true _ _, .resolveApproval _ _ _ _ _ => id' == id
  | _, _ => false

def GrantedByHumans (s : GateState) : Prop :=
  ∀ id row, s.world.approvals.get id = some row → row.status = .approved →
    s.history.any (approves id) = true

theorem grantedByHumans_exec {deps : GatewayDeps}
    (hdeny : deps.approvals.approveOnTimeout = false) {i : Nat} {entry : Entry} {op : Op}
    {choice : Choice} {s : GateState} {answer : Res op} {world : World}
    (h : GrantedByHumans s) (hallowed : Allowed deps entry op)
    (hexec : exec op choice s.world = some (answer, world)) :
    GrantedByHumans (s.push ⟨i, entry, op, answer, s.world⟩ world) := by
  intro id row hrow hgranted
  rcases exec_row hexec id with hsame | ⟨request, rfl, -, -, hafter⟩ |
    ⟨found, approved, decidedAt, approver, note, rfl, -, -, hafter⟩ |
    ⟨found, moment, rfl, -, -, -, hafter⟩
  · rw [State.push_world, hsame] at hrow
    simp [h id row hrow hgranted]
  · rw [State.push_world, hafter] at hrow
    obtain rfl := Option.some.inj hrow
    have hpending : request.status = .pending := hallowed
    have hnew : request.status = .approved := hgranted
    rw [hpending] at hnew
    cases hnew
  · rw [State.push_world, hafter] at hrow
    obtain rfl := Option.some.inj hrow
    cases approved with
    | false => cases hgranted
    | true =>
        cases hallowed with
        | human => simp [approves]
        | waiter _ _ _ happrove =>
            rw [hdeny] at happrove
            cases happrove
        | holder _ _ _ _ happrove =>
            rw [hdeny] at happrove
            cases happrove
  · rw [State.push_world, hafter] at hrow
    obtain rfl := Option.some.inj hrow
    cases hgranted

/-- The gate contract together with what the entry points may do at all. -/
def strictGate (deps : GatewayDeps) : Contract (machine deps) :=
  (gate deps .none).allowing (Allowed deps)

theorem grantedByHumans_preserved {deps : GatewayDeps}
    (hdeny : deps.approvals.approveOnTimeout = false) :
    (strictGate deps).Preserves GrantedByHumans where
  exec := fun _ h _ hpre hexec => grantedByHumans_exec hdeny h hpre.2 hexec
  env := by
    intro change s world _ h _ henv
    cases change <;> cases henv <;> exact h

theorem strictGate_good {deps : GatewayDeps}
    (hdeny : deps.approvals.approveOnTimeout = false) {world : World}
    (hpending : ∀ id row, world.approvals.get id = some row → row.status = .pending)
    {c : GateConfig} (hreach : (machine deps).Reaches .none (Config.initial world) c) :
    ((strictGate deps).withInv (grantedByHumans_preserved hdeny)).Good (AtReturn deps) c := by
  have hkept : (strictGate deps).KeptByCode (AtReturn deps) :=
    (gate_kept deps .none).allowing (code_allowed deps)
  refine Contract.sound (hkept.withInv _) ⟨trivial, fun id row hrow hgranted => ?_⟩ hreach
  rw [hpending id row hrow] at hgranted
  cases hgranted

/-- Where silence is a denial, a call that policy does not allow is forwarded only after
a human approved the very approval the invocation uses. -/
theorem called_only_if_approved {deps : GatewayDeps}
    (hdeny : deps.approvals.approveOnTimeout = false) {world : World}
    (hpending : ∀ id row, world.approvals.get id = some row → row.status = .pending)
    {c : GateConfig} (hreach : (machine deps).Reaches .none (Config.initial world) c)
    {newer older : List GateEvent} {event : GateEvent}
    (hsplit : c.state.history = newer ++ event :: older)
    (hcall : isUpstreamCall event.op = true) {invocation : Invocation} {polls : Nat}
    {tool : NamespacedTool} {found : World}
    (hfound : lookup event.task invocation polls (some tool) found ∈ c.state.history)
    (hdecision : (decision deps invocation tool).action ≠ .allow) :
    ∃ id, Uses event.task invocation polls id older ∧ older.any (approves id) = true := by
  have hgood := gate_good hreach
  have hstrict := strictGate_good hdeny hpending hreach
  obtain ⟨invocation', polls', tool', answer, -, hpermitted⟩ :=
    call_permitted hgood hsplit hcall
  obtain ⟨found', hfound'⟩ := lookup_of_permitted hpermitted
  have hmem : lookup event.task invocation' polls' (some tool') found' ∈ c.state.history := by
    rw [hsplit]
    exact List.mem_append_right _ (List.mem_cons_of_mem _ hfound')
  obtain ⟨⟨rfl, rfl⟩, htool⟩ := lookup_unique hgood hfound hmem
  obtain rfl := Option.some.inj htool
  cases hpermitted with
  | byPolicy _ hallow => exact absurd hallow hdecision
  | byApproval approval _ s₁ _ found₁ htrail =>
      have hgranting : granting event.task invocation polls approval s₁.world ∈ older := by
        refine (mem_deeds.mp (?_ : _ ∈ trail event.task older)).1
        rw [htrail]
        exact List.mem_cons_self
      obtain ⟨newer', older', hsplit', hsuffix⟩ := split_of_mem_older hsplit hgranting
      obtain ⟨hgranted, hrow, huses⟩ := uses_of_granting hgood hsplit'
      have hhuman := (hstrict.past _ _ _ hsplit').inv.2 approval.id approval hrow hgranted
      refine ⟨approval.id, huses.later hsuffix.subset, ?_⟩
      obtain ⟨human, hmem', happroves⟩ := List.any_eq_true.mp hhuman
      exact List.any_eq_true.mpr ⟨human, hsuffix.subset hmem', happroves⟩

def askedConfig : GateConfig :=
  ((machine deps).run .none (Config.initial office) repeated).get (by decide)

def writeTool : NamespacedTool :=
  { upstream := "fs", remoteName := "write", tool := { name := "fs__write" } }

theorem called_only_if_approved_retried :
    ∃ id, Uses 2 retrying 0 id askedConfig.state.history.tail ∧
      askedConfig.state.history.tail.any (approves id) = true := by
  have hreach : (machine deps).Reaches .none (Config.initial office) askedConfig :=
    Machine.reaches_get _
  have hfound : lookup 2 retrying 0 (some writeTool) _ ∈ askedConfig.state.history :=
    List.mem_of_getElem? (i := 5) rfl
  have hsplit : askedConfig.state.history =
      [] ++ ⟨2, .callTool retrying 0, .callTool "fs" "write" writing, _, _⟩ :: _ := rfl
  exact called_only_if_approved rfl office_pending hreach hsplit rfl hfound (by decide)

end McpGatekeeper.Authorisation
