import McpGatekeeper.ServiceRules

namespace McpGatekeeper.GatewayRules

open Interleaving
open McpGatekeeper.Approvals
open McpGatekeeper.Audit
open McpGatekeeper.Conduct
open McpGatekeeper.GateContract
open McpGatekeeper.Gateway
open McpGatekeeper.JsonValues
open McpGatekeeper.Operations
open McpGatekeeper.PolicyEngine
open McpGatekeeper.Registry
open McpGatekeeper.Service
open McpGatekeeper.ServiceRules
open McpGatekeeper.System

variable {deps : GatewayDeps} {A : GateAssumption} {i : Nat} {invocation : Invocation}
  {polls : Nat} {s : GateState}

/-- The call has ended, and filed the audit event its trail accounts for. -/
def Filed (deps : GatewayDeps) (i : Nat) (invocation : Invocation) (polls : Nat)
    (s : GateState) : Prop :=
  ∃ event before rest, trail i s.history = filing i invocation polls event before :: rest ∧
    Exit deps i invocation polls rest event ∧ missed i s.history = false

/-- The call has ended without a trace: it resumed an approval that is not on file. -/
def Untraced (i : Nat) (invocation : Invocation) (polls : Nat) (s : GateState) : Prop :=
  ∃ tool before, trail i s.history = [lookup i invocation polls (some tool) before] ∧
    missed i s.history = true ∧ invocation.resumes ≠ none

theorem applies_later {tool : NamespacedTool} {approval : ApprovalRequest}
    {s' : GateState} (h : Applies deps A i invocation polls tool approval s)
    (hquiet : Quiet A i s s') : Applies deps A i invocation polls tool approval s' where
  found := by
    obtain ⟨before, htrail⟩ := h.found
    exact ⟨before, hquiet.trail_eq.trans htrail⟩
  named := h.named
  onFile := h.onFile.later hquiet.evolves
  basis := by
    cases h.basis with
    | resumed hresumes s₀ op found hconsults hassume htrail hevolves hread =>
        exact .resumed hresumes s₀ op found hconsults hassume htrail
          (hevolves.trans hquiet.evolves) hread
    | opened hresumes hdecision request before hopened hid htool hupstream harguments =>
        exact .opened hresumes hdecision request before (hquiet.history.subset hopened) hid
          htool hupstream harguments

theorem keeps_connectionGet {α : Type} {Q : α → GateState → Prop} {upstream : String}
    {entry : Entry} {next : Bool → Prog α}
    (hlost : ∀ s', Quiet A i s s' → (gate deps A).Keeps i entry (next false) Q s')
    (hconnected : upstream ∈ s.world.connections → ∀ s', Quiet A i s s' →
      (gate deps A).Keeps i entry (next true) Q s') :
    (gate deps A).Keeps i entry (.perform (.connectionGet upstream) next) Q s := by
  apply keeps_silent rfl rfl
  intro choice answer s₁ s' hquiet₁ _ hexec hquiet₂ _
  obtain ⟨rfl, -⟩ := Prod.mk.inj (Option.some.inj hexec)
  rcases hmem : decide (upstream ∈ s₁.world.connections) with _ | _
  · exact hlost s' (hquiet₁.trans hquiet₂)
  · refine hconnected ?_ s' (hquiet₁.trans hquiet₂)
    exact hquiet₁.evolves.connections (of_decide_eq_true hmem)

theorem record_keeps {upstream : String} {decision : Decision} {outcome : Outcome}
    {started : Int} {resultStatus : Option ResultStatus}
    {approval : Option ApprovalRequest} {error : Option String}
    (hexit : ∀ event,
      Files deps invocation upstream decision outcome resultStatus approval error event →
        Exit deps i invocation polls (trail i s.history) event)
    (hmissed : missed i s.history = false) :
    (gate deps A).Keeps i (.callTool invocation polls)
      (record deps invocation.name upstream invocation.args decision outcome
        invocation.clientName started resultStatus approval error)
      (fun _ s' => Filed deps i invocation polls s') s := by
  apply keeps_ignored rfl rfl
  intro eventId s₁ hquiet₁
  apply keeps_ignored rfl rfl
  intro ended s₂ hquiet₂
  apply keeps_now
  intro s₃ hquiet₃ s₄ hrely _ _
  have hquiet := ((hquiet₁.trans hquiet₂).trans hquiet₃).trans (.of_rely hrely)
  have hends := hexit _ ⟨s₃.world.now, eventId, ended - started, rfl⟩
  rw [← hquiet.trail_eq] at hends
  rw [← hquiet.missed_eq] at hmissed
  refine ⟨⟨trivial, invocation, polls, rfl, hends, hmissed⟩, ?_⟩
  intro choice answer world _
  refine ⟨_, s₄.world, _, ?_, hends, ?_⟩
  · rw [State.push_history, trail, deeds_cons_of_counts rfl]
    rfl
  · rw [State.push_history, missed, deeds_cons_of_quiet rfl]
    exact hmissed

/-- The call of an invocation whose tool was found. -/
def gated (deps : GatewayDeps) (invocation : Invocation) (tool : NamespacedTool)
    (started : Int) : Call where
  entry := tool
  request := invocation.request tool
  decision := decision deps invocation tool
  clientName := invocation.clientName
  started := started

variable {tool : NamespacedTool} {started : Int}

theorem forward_keeps {approval : Option ApprovalRequest}
    (hcleared : Cleared deps i invocation polls tool approval (trail i s.history))
    (hpermitted : tool.upstream ∈ s.world.connections → ∀ s', Quiet A i s s' →
      Permitted deps A i invocation polls tool s')
    (hmissed : missed i s.history = false) :
    (gate deps A).Keeps i (.callTool invocation polls)
      (forward deps (gated deps invocation tool started) approval)
      (fun _ s' => Filed deps i invocation polls s') s := by
  apply keeps_connectionGet
  · intro s₁ hquiet₁
    rw [← hquiet₁.trail_eq] at hcleared
    rw [← hquiet₁.missed_eq] at hmissed
    refine Contract.keeps_seq (record_keeps ?_ hmissed) fun _ s' _ h => h
    exact fun event hfiles => .unavailable tool approval _ _ event hcleared hfiles
  · intro hconnected s₁ hquiet₁ s₂ hrely _ _
    have hquiet := hquiet₁.trans (.of_rely hrely)
    rw [← hquiet.trail_eq] at hcleared
    rw [← hquiet.missed_eq] at hmissed
    refine ⟨⟨trivial, invocation, polls, tool, rfl, rfl, rfl, rfl,
      hpermitted hconnected s₂ hquiet⟩, ?_⟩
    intro choice answer world _
    have htrail : trail i (s₂.push (calling i invocation polls tool answer s₂.world)
        world).history = calling i invocation polls tool answer s₂.world ::
          trail i s₂.history := deeds_cons_of_counts rfl
    have hmissed' : missed i (s₂.push (calling i invocation polls tool answer s₂.world)
        world).history = false := by
      rw [State.push_history, missed, calling, deeds_cons_of_quiet rfl]
      exact hmissed
    rcases answer with error | result
    · refine Contract.keeps_seq (record_keeps ?_ hmissed') fun _ s' _ h => h
      intro event hfiles
      rw [htrail]
      exact .failed tool approval _ _ _ event hcleared hfiles
    · refine Contract.keeps_seq (record_keeps ?_ hmissed') fun _ s' _ h => h
      intro event hfiles
      rw [htrail]
      exact .forwarded tool approval _ _ _ event hcleared hfiles

theorem grant_keeps {approval : ApprovalRequest}
    (happlies : Applies deps A i invocation polls tool approval s)
    (happroved : approval.status = .approved) (hmissed : missed i s.history = false) :
    (gate deps A).Keeps i (.callTool invocation polls)
      (.perform (.takeGranted approval) fun _ =>
        forward deps (gated deps invocation tool started) (some approval))
      (fun _ s' => Filed deps i invocation polls s') s := by
  intro s₁ hrely _ _
  have hquiet : Quiet A i s s₁ := .of_rely hrely
  have happlies₁ := applies_later happlies hquiet
  refine ⟨⟨trivial, happroved, invocation, polls, tool, rfl, happlies₁⟩, ?_⟩
  intro choice answer world hexec
  obtain ⟨found, htrail⟩ := happlies₁.found
  obtain ⟨-, rfl⟩ := Prod.mk.inj (Option.some.inj hexec)
  have htrail' : trail i (s₁.push (granting i invocation polls approval s₁.world)
      s₁.world).history = [granting i invocation polls approval s₁.world,
        lookup i invocation polls (some tool) found] := by
    rw [State.push_history, trail, granting, deeds_cons_of_counts rfl]
    exact congrArg _ htrail
  refine forward_keeps ?_ ?_ ?_
  · change Cleared deps i invocation polls tool (some approval) (trail i (s₁.push
      (granting i invocation polls approval s₁.world) s₁.world).history)
    rw [htrail']
    exact .byApproval approval happroved s₁.world found
  · intro hconnected s' hquiet'
    exact .byApproval approval happroved s₁ happlies₁ found
      (hquiet'.trail_eq.trans htrail') hconnected
  · rw [State.push_history, missed, deeds_cons_of_quiet rfl]
    exact hquiet.missed_eq.trans hmissed

theorem refuse_keeps {approval : ApprovalRequest} {outcome : Option Outcome}
    {message : String} (happlies : Applies deps A i invocation polls tool approval s)
    (hrefused : approval.status ≠ .approved)
    (hsettled : Forward A → approval.status ≠ .pending)
    (houtcome : outcome = none ∨ outcome = some .dismissedByClient)
    (hmissed : missed i s.history = false) :
    (gate deps A).Keeps i (.callTool invocation polls)
      (.perform (.takeRefused approval) fun _ =>
        recordCall deps (gated deps invocation tool started)
            (outcome.getD
              (if approval.status = .expired then .timedOut else .deniedByApprover))
            (some .error) (some approval) >>= fun _ =>
          pure (textResult message true))
      (fun _ s' => Filed deps i invocation polls s') s := by
  intro s₁ hrely _ _
  have hquiet : Quiet A i s s₁ := .of_rely hrely
  have happlies₁ := applies_later happlies hquiet
  refine ⟨⟨trivial, hrefused, hsettled, invocation, polls, tool, rfl, happlies₁⟩, ?_⟩
  intro choice answer world _
  obtain ⟨found, htrail⟩ := happlies₁.found
  have htrail' : trail i (s₁.push (refusing i invocation polls approval s₁.world)
      world).history = [refusing i invocation polls approval s₁.world,
        lookup i invocation polls (some tool) found] := by
    rw [State.push_history, trail, refusing, deeds_cons_of_counts rfl]
    exact congrArg _ htrail
  refine Contract.keeps_seq (record_keeps ?_ ?_) fun _ s' _ h => h
  · intro event hfiles
    change Exit deps i invocation polls (trail i (s₁.push
      (refusing i invocation polls approval s₁.world) world).history) event
    rw [htrail']
    refine .refused tool approval s₁.world found _ event hrefused ?_ hfiles
    rcases houtcome with rfl | rfl
    · exact .inr rfl
    · exact .inl rfl
  · rw [State.push_history, missed, deeds_cons_of_quiet rfl]
    exact hquiet.missed_eq.trans hmissed

theorem applyApproval_keeps {approval : ApprovalRequest} {outcome : Option Outcome}
    {message : Option String}
    (happlies : Applies deps A i invocation polls tool approval s)
    (hsettled : Forward A → approval.status ≠ .pending)
    (houtcome : outcome = none ∨ outcome = some .dismissedByClient)
    (hmissed : missed i s.history = false) :
    (gate deps A).Keeps i (.callTool invocation polls)
      (applyApproval deps (gated deps invocation tool started) (some approval) outcome
        message)
      (fun _ s' => Filed deps i invocation polls s') s := by
  change (gate deps A).Keeps i _ (if approval.status.isGranted then _ else _) _ _
  split
  · rename_i hgranted
    have happroved : approval.status = .approved := by
      simpa [ApprovalStatus.isGranted] using hgranted
    exact grant_keeps happlies happroved hmissed
  · rename_i hrefused
    have hunapproved : approval.status ≠ .approved := by
      simpa [ApprovalStatus.isGranted] using hrefused
    exact refuse_keeps happlies hunapproved hsettled houtcome hmissed

theorem filed_later {s' : GateState} (h : Filed deps i invocation polls s)
    (hquiet : Quiet A i s s') : Filed deps i invocation polls s' := by
  obtain ⟨event, before, rest, htrail, hexit, hmissed⟩ := h
  exact ⟨event, before, rest, hquiet.trail_eq.trans htrail, hexit,
    hquiet.missed_eq.trans hmissed⟩

theorem unknownTool_keeps {found : World}
    (htrail : trail i s.history = [lookup i invocation polls none found])
    (hmissed : missed i s.history = false) :
    (gate deps A).Keeps i (.callTool invocation polls)
      (unknownTool deps invocation.name invocation.args invocation.clientName started)
      (fun _ s' => Filed deps i invocation polls s') s := by
  refine Contract.keeps_seq (record_keeps (fun event hfiles => ?_) hmissed) ?_
  · rw [htrail]
    exact .unknownTool found _ event hfiles
  · intro _ s₁ _ hfiled
    apply keeps_ignored rfl rfl
    exact fun names s' hquiet => filed_later hfiled hquiet

theorem applies_of_consulted {id : String} {approval : ApprovalRequest} {s' : GateState}
    {found : World} (htrail : trail i s.history = [lookup i invocation polls (some tool) found])
    (hnamed : namespaced tool.upstream tool.remoteName = invocation.name)
    (hresumes : invocation.resumes = some id)
    (h : Consulted A i (.callTool invocation polls) id approval s s') :
    Applies deps A i invocation polls tool approval s' := by
  obtain ⟨s₀, op, hconsults, hassume, hbefore, hafter, hread⟩ := h.read
  obtain rfl := h.id_eq
  exact
    { found := ⟨found, h.quiet.trail_eq.trans htrail⟩
      named := hnamed
      onFile := h.onFile
      basis := .resumed hresumes s₀ op found hconsults hassume
        (hbefore.trail_eq.trans htrail) hafter.evolves hread }

section Found

variable {found : World}
  (htrail : trail i s.history = [lookup i invocation polls (some tool) found])
  (hmissed : missed i s.history = false)
include htrail hmissed

theorem deny_keeps (hresumes : invocation.resumes = none)
    (hdeny : (decision deps invocation tool).action = .deny) :
    (gate deps A).Keeps i (.callTool invocation polls)
      (deny deps (gated deps invocation tool started))
      (fun _ s' => Filed deps i invocation polls s') s := by
  refine Contract.keeps_seq (record_keeps (fun event hfiles => ?_) hmissed) fun _ s' _ h => h
  rw [htrail]
  exact .denied tool found event hresumes hdeny hfiles

theorem allow_keeps (hresumes : invocation.resumes = none)
    (hallow : (decision deps invocation tool).action = .allow) :
    (gate deps A).Keeps i (.callTool invocation polls)
      (forward deps (gated deps invocation tool started) none)
      (fun _ s' => Filed deps i invocation polls s') s := by
  refine forward_keeps ?_ ?_ hmissed
  · rw [htrail]
    exact .byPolicy found hresumes hallow
  · intro _ s' hquiet
    exact .byPolicy hresumes hallow found (hquiet.trail_eq.trans htrail)

variable (hnamed : namespaced tool.upstream tool.remoteName = invocation.name)
include hnamed

theorem requireApproval_keeps (hresumes : invocation.resumes = none)
    (hdecision : (decision deps invocation tool).action = .requireApproval)
    (supportsUrlElicitation : Bool) (polls' : Nat) :
    (gate deps A).Keeps i (.callTool invocation polls)
      (requireApproval deps (gated deps invocation tool started) supportsUrlElicitation
        polls')
      (fun _ s' => Filed deps i invocation polls s') s := by
  refine Contract.keeps_seq openApproval_keeps ?_
  rintro request s₁ - ⟨hquiet₁, hpending, htool, hupstream, harguments, hrow, before, hopened⟩
  obtain ⟨row, hrow, hadvances⟩ := hrow
  have hmissed₁ := hquiet₁.missed_eq.trans hmissed
  have htrail₁ := hquiet₁.trail_eq.trans htrail
  change (gate deps A).Keeps i _ (if _ then _ else _) _ _
  split
  · refine Contract.keeps_seq (record_keeps (fun event hfiles => ?_) hmissed₁)
      fun _ s' _ h => h
    rw [htrail₁]
    exact .awaiting tool found request event hresumes hdecision hpending hfiles
  · refine Contract.keeps_seq (wait_keeps polls' ⟨row, hrow⟩) ?_
    rintro answer s₂ - ⟨approval, rfl, hid, hfile, hquiet₂, hsettled⟩
    -- The row the wait ends with still describes the call it was opened for.
    obtain ⟨row₂, hrow₂, hadvances₂⟩ := hquiet₂.evolves.approvals _ _ hrow
    obtain ⟨row₂', hrow₂', hadvances₂'⟩ := hfile
    rw [hid, hrow₂] at hrow₂'
    obtain rfl := Option.some.inj hrow₂'
    have hopenedCall := (hadvances.trans hadvances₂).call_eq
    have hwaitedCall := hadvances₂'.call_eq
    have happlies : Applies deps A i invocation polls tool approval s₂ :=
      { found := ⟨found, hquiet₂.trail_eq.trans htrail₁⟩
        named := hnamed
        onFile := ⟨row₂, by rw [hid]; exact hrow₂, hadvances₂'⟩
        basis := .opened hresumes hdecision request before
          (hquiet₂.history.subset hopened) hid.symm
          ((hwaitedCall.1.symm.trans hopenedCall.1).trans htool)
          ((hwaitedCall.2.1.symm.trans hopenedCall.2.1).trans hupstream)
          ((hwaitedCall.2.2.symm.trans hopenedCall.2.2).trans (congrArg dumps harguments)) }
    exact Contract.keeps_seq
      (applyApproval_keeps happlies hsettled (.inl rfl) (hquiet₂.missed_eq.trans hmissed₁))
      fun _ s' _ h => h

theorem resume_keeps {id : String} (hresumes : invocation.resumes = some id) :
    (gate deps A).Keeps i (.callTool invocation polls)
      (resume deps (gated deps invocation tool started) id)
      (fun _ s' => Filed deps i invocation polls s' ∨ Untraced i invocation polls s') s := by
  apply Contract.keeps_seq get_keeps
  rintro answer s₁ - (⟨rfl, htrail₁, hmissed₁⟩ | ⟨settled, rfl, hconsulted⟩)
  · exact .inr ⟨tool, found, htrail₁.trans htrail, hmissed₁, by simp [hresumes]⟩
  · change (gate deps A).Keeps i _ (if _ then _ else _) _ _
    split
    · rename_i hresolved
      have hsettled : settled.status ≠ .pending := by
        simpa [ApprovalStatus.isResolved] using hresolved
      have happlies : Applies deps A i invocation polls tool settled s₁ :=
        applies_of_consulted htrail hnamed hresumes hconsulted
      refine Contract.Keeps.mono (fun _ s' h => .inl h)
        (applyApproval_keeps happlies (fun _ => hsettled) (.inl rfl) ?_)
      exact hconsulted.quiet.missed_eq.trans hmissed
    · obtain ⟨row, hrow, -⟩ := hconsulted.onFile
      rw [hconsulted.id_eq] at hrow
      apply Contract.keeps_seq (dismiss_keeps ⟨row, hrow⟩)
      rintro answer s₂ - ⟨dismissed, rfl, hsettled, hdismissed⟩
      have hread := hdismissed.earlier hconsulted.quiet
      have happlies : Applies deps A i invocation polls tool dismissed s₂ :=
        applies_of_consulted htrail hnamed hresumes hread
      refine Contract.Keeps.mono (fun _ s' h => .inl h)
        (applyApproval_keeps happlies (fun _ => hsettled) (.inr rfl) ?_)
      exact hread.quiet.missed_eq.trans hmissed

end Found

theorem callTool_keeps (htrail : trail i s.history = [])
    (hmissed : missed i s.history = false) :
    (gate deps A).Keeps i (.callTool invocation polls) (callTool deps invocation polls)
      (fun _ s' => Filed deps i invocation polls s' ∨ Untraced i invocation polls s') s := by
  apply keeps_ignored rfl rfl
  intro started s₁ hquiet₁ s₂ hrely _ _
  have hquiet := hquiet₁.trans (.of_rely hrely)
  rw [← hquiet.trail_eq] at htrail
  rw [← hquiet.missed_eq] at hmissed
  refine ⟨⟨trivial, htrail⟩, fun choice answer world hexec => ?_⟩
  obtain ⟨hanswer, -⟩ := Prod.mk.inj (Option.some.inj hexec)
  have htrail' : trail i (s₂.push (lookup i invocation polls answer s₂.world)
      world).history = [lookup i invocation polls answer s₂.world] := by
    rw [State.push_history, trail, lookup, deeds_cons_of_counts rfl]
    exact congrArg _ htrail
  have hmissed' : missed i (s₂.push (lookup i invocation polls answer s₂.world)
      world).history = false := by
    rw [State.push_history, missed, lookup, deeds_cons_of_quiet rfl]
    exact hmissed
  rcases answer with _ | tool
  · change (gate deps A).Keeps i _ (unknownTool deps _ _ _ _ >>= _) _ _
    exact Contract.keeps_seq (unknownTool_keeps htrail' hmissed') fun _ s' _ h => .inl h
  · have hnamed := (s₂.world.registry.named _ _ hanswer).2
    dsimp only [Program.bind]
    split
    · rename_i id hresumes
      exact Contract.keeps_seq (resume_keeps htrail' hmissed' hnamed hresumes)
        fun _ s' _ h => h
    · rename_i hresumes
      split
      · rename_i hallow
        exact Contract.keeps_seq (allow_keeps htrail' hmissed' hresumes hallow)
          fun _ s' _ h => .inl h
      · rename_i hdeny
        exact Contract.keeps_seq (deny_keeps htrail' hmissed' hresumes hdeny)
          fun _ s' _ h => .inl h
      · rename_i hdecision
        exact Contract.Keeps.mono (fun _ s' h => .inl h)
          (requireApproval_keeps htrail' hmissed' hnamed hresumes hdecision _ _)

theorem keeps_deedless {entry : Entry} {α : Type} {p : Prog α}
    (hp : p.Only fun op => isDeed op = false) :
    (gate deps A).Keeps i entry p (fun _ _ => True) s := by
  induction p generalizing s with
  | ret value => exact trivial
  | fail error => exact trivial
  | perform op next ih =>
      obtain ⟨hop, hnext⟩ := hp
      intro s₁ _ _ _
      refine ⟨⟨trivial, ?_⟩, fun _ answer _ _ => ih answer (hnext answer)⟩
      cases op <;> first | exact trivial | cases hop

theorem deedless_of_allowed {entry : Entry} {op : Op} (h : Allowed deps entry op)
    (hentry : ∀ invocation polls, entry ≠ .callTool invocation polls) :
    isDeed op = false := by
  rcases hdeed : isDeed op with _ | _
  · rfl
  · have hcall : ∃ invocation polls, entry = .callTool invocation polls := by
      cases op <;> first | exact h hdeed | cases hdeed
    obtain ⟨invocation, polls, rfl⟩ := hcall
    exact absurd rfl (hentry invocation polls)

/-- What is known of a task that has returned. -/
def AtReturn (deps : GatewayDeps) (i : Nat) (entry : Entry) (_reply : Reply)
    (s : GateState) : Prop :=
  match entry with
  | .callTool invocation polls =>
      Filed deps i invocation polls s ∨ Untraced i invocation polls s
  | _ => True

theorem gate_kept (deps : GatewayDeps) (A : GateAssumption) :
    (gate deps A).KeptByCode (AtReturn deps) := by
  intro i entry s _ hfresh
  have hdeedless (hentry : ∀ invocation polls, entry ≠ .callTool invocation polls) :
      (gate deps A).Keeps i entry (code deps entry) (fun _ _ => True) s :=
    keeps_deedless ((code_allowed deps entry).mono fun op h => deedless_of_allowed h hentry)
  cases entry with
  | callTool invocation polls =>
      have htrail : trail i s.history = [] := deeds_eq_nil_of_others hfresh
      have hmissed : missed i s.history = false := by
        rw [missed, deeds_eq_nil_of_others hfresh]
        rfl
      exact Contract.keeps_seq (callTool_keeps htrail hmissed) fun _ s' _ h => h
  | listTools | openApproval | decide | dismiss | get | wait | pending | expireOverdue =>
      apply hdeedless
      intro invocation polls h
      cases h

theorem gate_good {world : World} {c : GateConfig}
    (hreach : (machine deps).Reaches A (Config.initial world) c) :
    (gate deps A).Good (AtReturn deps) c :=
  Contract.sound (gate_kept deps A) trivial hreach

end McpGatekeeper.GatewayRules
