import McpGatekeeper.GateContract

namespace McpGatekeeper.ServiceRules

open Interleaving
open McpGatekeeper.Approvals
open McpGatekeeper.Clock
open McpGatekeeper.Conduct
open McpGatekeeper.GateContract
open McpGatekeeper.Gateway
open McpGatekeeper.JsonValues
open McpGatekeeper.Operations
open McpGatekeeper.Service
open McpGatekeeper.System

/-- Time has passed for the task, without a deed or a failed lookup of its own. -/
structure Quiet (A : GateAssumption) (i : Nat) (s s' : GateState) : Prop where
  evolves : Evolves s.world s'.world
  clock : Forward A → s.world.now ≤ s'.world.now
  history : s.history <:+ s'.history
  trail_eq : trail i s'.history = trail i s.history
  missed_eq : missed i s'.history = missed i s.history

section Quiet

variable {deps : GatewayDeps} {A : GateAssumption} {i : Nat} {entry : Entry}

theorem Quiet.trans {a b c : GateState} (hab : Quiet A i a b) (hbc : Quiet A i b c) :
    Quiet A i a c :=
  ⟨hab.evolves.trans hbc.evolves, fun h => le_trans (hab.clock h) (hbc.clock h),
    hab.history.trans hbc.history, hbc.trail_eq.trans hab.trail_eq,
    hbc.missed_eq.trans hab.missed_eq⟩

theorem Quiet.of_rely {s s' : GateState} (h : (gate deps A).Rely i s s') :
    Quiet A i s s' where
  evolves := h.1.1
  clock := h.1.2
  history := h.grows.2
  trail_eq := h.deeds_eq
  missed_eq := by rw [missed, missed, h.deeds_eq]

theorem Quiet.of_exec {op : Op} {choice : Choice} {s : GateState} {answer : Res op}
    {world : World} (hdeed : isDeed op = false)
    (hmiss : isLookup op = true → misses ⟨i, entry, op, answer, s.world⟩ = false)
    (hexec : exec op choice s.world = some (answer, world)) :
    Quiet A i s (s.push ⟨i, entry, op, answer, s.world⟩ world) where
  evolves := exec_evolves hexec
  clock _ := (exec_now hexec).ge
  history := List.suffix_cons _ _
  trail_eq := deeds_cons_of_quiet hdeed
  missed_eq := by
    rcases hlookup : isLookup op with _ | _
    · rw [missed, State.push_history, deeds_cons_of_quiet hlookup, missed]
    · rw [missed, State.push_history, deeds_cons_of_counts hlookup, List.any_cons,
        hmiss hlookup, Bool.false_or, missed]

end Quiet

/-- What a task has read about the request under a key. -/
structure Consulted (A : GateAssumption) (i : Nat) (entry : Entry) (id : String)
    (approval : ApprovalRequest) (s s' : GateState) : Prop where
  quiet : Quiet A i s s'
  id_eq : approval.id = id
  onFile : OnFile approval s'.world
  read : ∃ s₀ op, consults id op = true ∧ A.act i entry op s₀ = true ∧ Quiet A i s s₀ ∧
    Quiet A i s₀ s' ∧
    (approval.status = .approved → s₀.world.approvals.get id = some approval)

theorem Consulted.later {A : GateAssumption} {i : Nat} {entry : Entry} {id : String}
    {approval : ApprovalRequest} {s s' s'' : GateState}
    (h : Consulted A i entry id approval s s') (hquiet : Quiet A i s' s'') :
    Consulted A i entry id approval s s'' where
  quiet := h.quiet.trans hquiet
  id_eq := h.id_eq
  onFile := h.onFile.later hquiet.evolves
  read := by
    obtain ⟨s₀, op, hconsults, hassume, hbefore, hafter, hread⟩ := h.read
    exact ⟨s₀, op, hconsults, hassume, hbefore, hafter.trans hquiet, hread⟩

theorem Consulted.earlier {A : GateAssumption} {i : Nat} {entry : Entry} {id : String}
    {approval : ApprovalRequest} {s s' s'' : GateState} (hquiet : Quiet A i s s')
    (h : Consulted A i entry id approval s' s'') :
    Consulted A i entry id approval s s'' where
  quiet := hquiet.trans h.quiet
  id_eq := h.id_eq
  onFile := h.onFile
  read := by
    obtain ⟨s₀, op, hconsults, hassume, hbefore, hafter, hread⟩ := h.read
    exact ⟨s₀, op, hconsults, hassume, hquiet.trans hbefore, hafter, hread⟩

section Rules

variable {deps : GatewayDeps} {A : GateAssumption} {i : Nat} {entry : Entry} {α : Type}
  {s : GateState} {Q : α → GateState → Prop}

theorem keeps_silent {op : Op} {next : Res op → Prog α} (hdeed : isDeed op = false)
    (hlookup : isLookup op = false)
    (h : ∀ choice answer s₁ s', Quiet A i s s₁ → A.act i entry op s₁ = true →
      exec op choice s₁.world = some (answer, s'.world) → Quiet A i s₁ s' →
      s'.history = ⟨i, entry, op, answer, s₁.world⟩ :: s₁.history →
        (gate deps A).Keeps i entry (next answer) Q s') :
    (gate deps A).Keeps i entry (.perform op next) Q s := by
  intro s₁ hrely _ hassume
  refine ⟨⟨trivial, ?_⟩, fun choice answer world hexec => ?_⟩
  · cases op <;> first | exact trivial | cases hdeed
  · refine h choice answer s₁ (s₁.push _ world) (.of_rely hrely) hassume hexec ?_ rfl
    exact .of_exec hdeed (by simp [hlookup]) hexec

theorem keeps_now {next : DateTime → Prog α}
    (h : ∀ s', Quiet A i s s' →
      (gate deps A).Keeps i entry (next s'.world.now) Q s') :
    (gate deps A).Keeps i entry (.perform .now next) Q s := by
  apply keeps_silent rfl rfl
  intro choice answer s₁ s' hbefore _ hexec hafter _
  simp only [exec, Option.some.injEq, Prod.mk.injEq] at hexec
  obtain ⟨rfl, hworld⟩ := hexec
  rw [hworld]
  exact h s' (hbefore.trans hafter)

theorem keeps_ignored {op : Op} {next : Res op → Prog α} (hdeed : isDeed op = false)
    (hlookup : isLookup op = false)
    (h : ∀ answer s', Quiet A i s s' → (gate deps A).Keeps i entry (next answer) Q s') :
    (gate deps A).Keeps i entry (.perform op next) Q s := by
  apply keeps_silent hdeed hlookup
  intro choice answer s₁ s' hbefore _ _ hafter _
  exact h answer s' (hbefore.trans hafter)

theorem keeps_getApproval {id : String} {next : Option ApprovalRequest → Prog α}
    (hnone : ∀ s₁ s', Quiet A i s s₁ → s₁.world.approvals.get id = none →
      trail i s'.history = trail i s.history → missed i s'.history = true →
      (gate deps A).Keeps i entry (next none) Q s')
    (hsome : ∀ approval s', s'.world.approvals.get id = some approval →
      Consulted A i entry id approval s s' →
      (gate deps A).Keeps i entry (next (some approval)) Q s') :
    (gate deps A).Keeps i entry (.perform (.getApproval id) next) Q s := by
  intro s₁ hrely _ hassume
  refine ⟨⟨trivial, trivial⟩, fun choice answer world hexec => ?_⟩
  have hbefore : Quiet A i s s₁ := .of_rely hrely
  obtain ⟨rfl, rfl⟩ : s₁.world.approvals.get id = answer ∧ s₁.world = world := by
    change some (s₁.world.approvals.get id, s₁.world) = some (answer, world) at hexec
    simpa using hexec
  rcases hrow : s₁.world.approvals.get id with _ | approval
  · apply hnone s₁ _ hbefore hrow
    · rw [State.push_history, trail, deeds_cons_of_quiet rfl]
      exact hbefore.trail_eq
    · rw [missed, State.push_history, deeds_cons_of_counts rfl, List.any_cons]
      simp [misses, hrow]
  · have hafter : Quiet A i s₁ (s₁.push ⟨i, entry, .getApproval id, some approval, s₁.world⟩
        s₁.world) := by
      have hexec' : exec (.getApproval id) choice s₁.world =
          some (some approval, s₁.world) := by
        rw [← hrow]
        rfl
      refine .of_exec rfl (fun _ => ?_) hexec'
      simp [misses, hrow]
    refine hsome approval (s₁.push _ s₁.world) hrow ?_
    exact
      { quiet := hbefore.trans hafter
        id_eq := ApprovalsTable.id_of_get hrow
        onFile := onFile_of_get hrow
        read := ⟨s₁, _, by simp [consults], hassume, hbefore, hafter, fun _ => hrow⟩ }

end Rules

section Service

variable {deps : GatewayDeps} {A : GateAssumption} {i : Nat} {entry : Entry}
  {s : GateState} {id : String}

theorem exists_row_later {w w' : World} (h : Evolves w w')
    (hfile : ∃ row, w.approvals.get id = some row) :
    ∃ row, w'.approvals.get id = some row := by
  obtain ⟨row, hrow⟩ := hfile
  obtain ⟨row', hrow', -⟩ := h.approvals id row hrow
  exact ⟨row', hrow'⟩

theorem keeps_getApproval_of_row {α : Type} {Q : α → GateState → Prop}
    {next : Option ApprovalRequest → Prog α}
    (hfile : ∃ row, s.world.approvals.get id = some row)
    (hsome : ∀ approval s', s'.world.approvals.get id = some approval →
      Quiet A i s s' → (gate deps A).Keeps i entry (next (some approval)) Q s') :
    (gate deps A).Keeps i entry (.perform (.getApproval id) next) Q s := by
  apply keeps_getApproval
  · intro s₁ s' hquiet hnone _ _
    obtain ⟨row, hrow⟩ := exists_row_later hquiet.evolves hfile
    rw [hnone] at hrow
    cases hrow
  · intro approval s' hrow hconsulted
    exact hsome approval s' hrow hconsulted.quiet

theorem resolve_keeps {approved : Bool} {approver : String} {note : Option String}
    (hfile : ∃ row, s.world.approvals.get id = some row) :
    (gate deps A).Keeps i entry (SqliteApprovalStore.resolve id approved approver note)
      (fun answer s' => ∃ approval, answer = some approval ∧ approval.status ≠ .pending ∧
        s'.world.approvals.get id = some approval ∧ Quiet A i s s' ∧
        (approved = false → Consulted A i entry id approval s s')) s := by
  apply keeps_now
  intro s₁ hquiet₁
  apply keeps_silent rfl rfl
  intro choice answer s₂ s' hquiet₂ hassume hexec hquiet₃ _
  obtain ⟨rfl, hworld⟩ := Prod.mk.inj (Option.some.inj hexec)
  have hbefore := hquiet₁.trans hquiet₂
  obtain ⟨row, hrow⟩ := exists_row_later hbefore.evolves hfile
  have hid := ApprovalsTable.id_of_get hrow
  have hafter : s'.world.approvals.get id =
      some (ApprovalsTable.settle id approved s₁.world.now approver note row) := by
    rw [← hworld]
    simp only
    rw [ApprovalsTable.get_resolve, hrow, Option.map_some]
  have hsettled := ApprovalsTable.settle_resolved hid approved s₁.world.now approver note
  refine ⟨_, ?_, hsettled, hafter, hbefore.trans hquiet₃, fun happroved => ?_⟩
  · rw [ApprovalsTable.resolve_answer, ApprovalsTable.get_resolve, hrow, Option.map_some]
  · refine
      { quiet := hbefore.trans hquiet₃
        id_eq := ApprovalsTable.id_of_get hafter
        onFile := onFile_of_get hafter
        read := ⟨s₂, _, by simp [consults], hassume, hbefore, hquiet₃, fun hgranted => ?_⟩ }
    -- A denial leaves a row approved only where it was approved before.
    subst happroved
    rw [hrow]
    unfold ApprovalsTable.settle at hgranted ⊢
    split
    · rename_i hpending
      rw [if_pos hpending] at hgranted
      cases hgranted
    · rfl

theorem dismiss_keeps {note : Option String}
    (hfile : ∃ row, s.world.approvals.get id = some row) :
    (gate deps A).Keeps i entry (ApprovalService.dismiss id note)
      (fun answer s' => ∃ approval, answer = some approval ∧ approval.status ≠ .pending ∧
        Consulted A i entry id approval s s') s := by
  apply Contract.keeps_seq (resolve_keeps hfile)
  rintro answer s₁ - ⟨approval, rfl, hsettled, -, -, hconsulted⟩
  apply keeps_ignored rfl rfl
  intro _ s' hquiet
  exact ⟨approval, rfl, hsettled, (hconsulted rfl).later hquiet⟩

theorem sweep_keeps (id : String) :
    (gate deps A).Keeps i entry (SqliteApprovalStore.expireOverdue none)
      (fun _ s' => Quiet A i s s' ∧ ∀ row, s.world.approvals.get id = some row →
        row.expiresAt ≤ s.world.now → Forward A →
        ∃ row', s'.world.approvals.get id = some row' ∧ row'.status ≠ .pending) s := by
  apply keeps_now
  intro s₁ hquiet₁
  apply keeps_silent rfl rfl
  intro choice answer s₂ s' hquiet₂ _ hexec hquiet₃ _
  refine ⟨(hquiet₁.trans hquiet₂).trans hquiet₃, fun row hrow hdue hforward => ?_⟩
  obtain ⟨-, hworld⟩ := Prod.mk.inj (Option.some.inj hexec)
  obtain ⟨row₂, hrow₂, hadvances⟩ := (hquiet₁.trans hquiet₂).evolves.approvals id row hrow
  refine ⟨ApprovalsTable.expire s₁.world.now row₂, ?_, ?_⟩
  · rw [← hworld]
    simp only
    rw [ApprovalsTable.get_expireOverdue, hrow₂, Option.map_some]
  · have hdue₂ : row₂.expiresAt ≤ s₁.world.now := by
      rw [hadvances.expiresAt_eq]
      exact le_trans hdue (hquiet₁.clock hforward)
    unfold ApprovalsTable.expire
    rw [ApprovalsTable.overdue_eq_isExpiredAt]
    split
    · simp
    · rename_i hnot
      simpa [ApprovalRequest.isExpiredAt, hdue₂] using hnot

theorem get_keeps :
    (gate deps A).Keeps i entry (ApprovalService.get id)
      (fun answer s' =>
        (answer = none ∧ trail i s'.history = trail i s.history ∧
          missed i s'.history = true) ∨
        ∃ approval, answer = some approval ∧ Consulted A i entry id approval s s') s := by
  apply keeps_getApproval
  · intro _ s' _ _ htrail hmissed
    exact .inl ⟨rfl, htrail, hmissed⟩
  · intro request s₁ hrow hconsulted
    apply keeps_now
    intro s₂ hquiet₂
    change (gate deps A).Keeps i entry (if _ then _ else _) _ _
    split
    · apply Contract.keeps_seq (sweep_keeps id)
      rintro _ s₃ - ⟨hquiet₃, -⟩
      have hquiet := (hconsulted.quiet.trans hquiet₂).trans hquiet₃
      apply keeps_getApproval
      · intro _ s' _ _ htrail hmissed
        exact .inl ⟨rfl, htrail.trans hquiet.trail_eq, hmissed⟩
      · intro approval s' _ hread
        exact .inr ⟨approval, rfl, hread.earlier hquiet⟩
    · exact .inr ⟨request, rfl, hconsulted.later hquiet₂⟩

/-- A wait that returns has the row as it stands, settled if the clock is sound. -/
def Settles (A : GateAssumption) (i : Nat) (id : String)
    (answer : Option ApprovalRequest) (s s' : GateState) : Prop :=
  ∃ approval, answer = some approval ∧ approval.id = id ∧ OnFile approval s'.world ∧
    Quiet A i s s' ∧ (Forward A → approval.status ≠ .pending)

theorem Settles.earlier {answer : Option ApprovalRequest} {s s' s'' : GateState}
    (hquiet : Quiet A i s s') (h : Settles A i id answer s' s'') :
    Settles A i id answer s s'' := by
  obtain ⟨approval, hanswer, hid, hfile, hlater, hsettled⟩ := h
  exact ⟨approval, hanswer, hid, hfile, hquiet.trans hlater, hsettled⟩

theorem settleTimeout_keeps {row : ApprovalRequest}
    (hrow : s.world.approvals.get id = some row) (hdue : row.expiresAt ≤ s.world.now) :
    (gate deps A).Keeps i entry (deps.approvals.settleTimeout id)
      (fun answer s' => Settles A i id answer s s') s := by
  apply keeps_ignored rfl rfl
  intro _ s₁ hquiet₁
  change (gate deps A).Keeps i entry (if _ then _ else _) _ _
  obtain ⟨row₁, hrow₁, hadvances⟩ := hquiet₁.evolves.approvals id row hrow
  split
  · refine (resolve_keeps ⟨row₁, hrow₁⟩).mono ?_
    rintro answer s' ⟨approval, rfl, hsettled, hrow', hquiet', -⟩
    exact ⟨approval, rfl, ApprovalsTable.id_of_get hrow', onFile_of_get hrow',
      hquiet₁.trans hquiet', fun _ => hsettled⟩
  · apply Contract.keeps_seq (sweep_keeps id)
    rintro _ s₂ - ⟨hquiet₂, hswept⟩
    have hquiet := hquiet₁.trans hquiet₂
    apply keeps_getApproval_of_row (exists_row_later hquiet.evolves ⟨row, hrow⟩)
    intro approval s' hrow' hquiet'
    refine ⟨approval, rfl, ApprovalsTable.id_of_get hrow', onFile_of_get hrow',
      hquiet.trans hquiet', fun hforward => ?_⟩
    have hdue₁ : row₁.expiresAt ≤ s₁.world.now := by
      rw [hadvances.expiresAt_eq]
      exact le_trans hdue (hquiet₁.clock hforward)
    obtain ⟨row₂, hrow₂, hsettled⟩ := hswept row₁ hrow₁ hdue₁ hforward
    have hsame := hquiet'.evolves.approvals.settled hrow₂ hsettled
    rw [hrow'] at hsame
    obtain rfl := Option.some.inj hsame
    exact hsettled

theorem waitLoop_keeps (polls : Nat) {row : ApprovalRequest}
    (hrow : s.world.approvals.get id = some row) :
    (gate deps A).Keeps i entry (deps.approvals.waitLoop id row.expiresAt polls)
      (fun answer s' => Settles A i id answer s s') s := by
  induction polls generalizing s row with
  | zero => exact trivial
  | succ polls ih =>
      apply keeps_now
      intro s₁ hquiet₁
      obtain ⟨row₁, hrow₁, hadvances₁⟩ := hquiet₁.evolves.approvals id row hrow
      change (gate deps A).Keeps i entry (if _ then _ else _) _ _
      split
      · rename_i hdue
        refine (settleTimeout_keeps hrow₁ ?_).mono fun answer s' h => h.earlier hquiet₁
        rwa [hadvances₁.expiresAt_eq]
      · apply keeps_ignored rfl rfl
        intro _ s₂ hquiet₂
        have hquiet := hquiet₁.trans hquiet₂
        apply keeps_getApproval_of_row (exists_row_later hquiet.evolves ⟨row, hrow⟩)
        intro current s₃ hrow₃ hquiet₃
        have hquiet := hquiet.trans hquiet₃
        obtain ⟨row₃, hrow₃', hadvances₃⟩ := hquiet.evolves.approvals id row hrow
        rw [hrow₃] at hrow₃'
        obtain rfl := Option.some.inj hrow₃'
        change (gate deps A).Keeps i entry (if _ then _ else _) _ _
        split
        · rename_i hresolved
          apply keeps_ignored rfl rfl
          intro _ s' hquiet'
          have hsettled : current.status ≠ .pending := by
            simpa [ApprovalStatus.isResolved] using hresolved
          exact ⟨current, rfl, ApprovalsTable.id_of_get hrow₃,
            (onFile_of_get hrow₃).later hquiet'.evolves, hquiet.trans hquiet',
            fun _ => hsettled⟩
        · rw [← hadvances₃.expiresAt_eq]
          exact (ih hrow₃).mono fun answer s' h => h.earlier hquiet

theorem wait_keeps (polls : Nat) (hfile : ∃ row, s.world.approvals.get id = some row) :
    (gate deps A).Keeps i entry (deps.approvals.wait polls id)
      (fun answer s' => Settles A i id answer s s') s := by
  apply keeps_getApproval_of_row hfile
  intro request s₁ hrow hquiet₁
  change (gate deps A).Keeps i entry (if _ then _ else _) _ _
  split
  · rename_i hresolved
    have hsettled : request.status ≠ .pending := by
      simpa [ApprovalStatus.isResolved] using hresolved
    exact ⟨request, rfl, ApprovalsTable.id_of_get hrow, onFile_of_get hrow, hquiet₁,
      fun _ => hsettled⟩
  · apply keeps_ignored rfl rfl
    intro _ s₂ hquiet₂
    have hquiet := hquiet₁.trans hquiet₂
    obtain ⟨row₂, hrow₂, hadvances⟩ := hquiet₂.evolves.approvals id request hrow
    rw [← hadvances.expiresAt_eq]
    exact (waitLoop_keeps polls hrow₂).mono fun answer s' h => h.earlier hquiet

theorem openApproval_keeps {tool upstream : String} {arguments : JsonObject}
    {reason clientName : Option String} :
    (gate deps A).Keeps i entry
      (deps.approvals.openApproval tool upstream arguments reason clientName)
      (fun request s' => Quiet A i s s' ∧ request.status = .pending ∧
        request.tool = tool ∧ request.upstream = upstream ∧ request.arguments = arguments ∧
        (∃ row, s'.world.approvals.get request.id = some row ∧
          Advances (ApprovalsTable.newRow request) row) ∧
        ∃ before, ⟨i, entry, .createApproval request, true, before⟩ ∈ s'.history) s := by
  apply keeps_now
  intro s₁ hquiet₁
  apply keeps_ignored rfl rfl
  intro requestId s₂ hquiet₂
  dsimp only [Program.bind]
  split
  · exact trivial
  · apply keeps_silent rfl rfl
    intro choice answer s₃ s₄ hquiet₃ _ hexec hquiet₄ hhistory
    have hquiet := ((hquiet₁.trans hquiet₂).trans hquiet₃).trans hquiet₄
    rcases answer with _ | _
    · exact trivial
    · apply keeps_ignored rfl rfl
      intro _ s' hquiet'
      refine ⟨hquiet.trans hquiet', rfl, rfl, rfl, rfl, ?_, s₃.world, ?_⟩
      · exact hquiet'.evolves.approvals _ _ (get_of_created hexec)
      · apply hquiet'.history.subset
        rw [hhistory]
        exact List.mem_cons_self

end Service

end McpGatekeeper.ServiceRules
