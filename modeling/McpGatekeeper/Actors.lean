import McpGatekeeper.Provenance
import McpGatekeeper.Scenarios
import McpGatekeeper.Ui

namespace McpGatekeeper.Actors

open Interleaving
open McpGatekeeper.Approvals
open McpGatekeeper.Operations
open McpGatekeeper.Provenance
open McpGatekeeper.Scenarios
open McpGatekeeper.System
open McpGatekeeper.Ui

/-- The names the program itself signs with. -/
def reserved (approver : String) : Bool :=
  approver == timeoutApprover || approver == clientApprover

/-- A posted decision settles a request under a name of the program's own. -/
def impersonates (event : GateEvent) : Bool :=
  match event.op with
  | .resolveApproval id _ _ _ _ =>
      match settledBy id event with
      | some (.decision _ approver) => reserved approver
      | _ => false
  | _ => false

/-- The actor tells how the request was settled. -/
structure Identifies (actor : Option String) (cause : Option Cause) : Prop where
  timeout : actor = some timeoutApprover ↔ cause = some .deadline
  client : actor = some clientApprover ↔ cause = some .dismissal
  posted : (∃ text, actor = some text ∧ text ≠ "" ∧ text ≠ timeoutApprover ∧
    text ≠ clientApprover) ↔ ∃ approved text, cause = some (.decision approved text)

theorem identifies_of_fits {row : ApprovalRequest} {cause : Option Cause}
    (h : Fits (some row) cause)
    (hdecision : ∀ approved approver, cause = some (.decision approved approver) →
      approver ≠ "" ∧ reserved approver = false) :
    Identifies row.approver cause := by
  cases h with
  | pending _ hstatus happrover =>
      rw [happrover]
      constructor <;> simp
  | decided _ approved approver hstatus happrover =>
      obtain ⟨hname, hreserved⟩ := hdecision approved approver rfl
      simp only [reserved, Bool.or_eq_false_iff, beq_eq_false_iff_ne] at hreserved
      rw [happrover]
      constructor
      · simp [hreserved.1]
      · simp [hreserved.2]
      · exact iff_of_true ⟨approver, rfl, hname, hreserved⟩ ⟨approved, approver, rfl⟩
  | lapsed _ hstatus happrover =>
      rw [happrover]
      constructor
      · simp
      · simp [timeoutApprover, clientApprover]
      · simp +contextual
  | dismissed _ hstatus happrover =>
      rw [happrover]
      constructor
      · simp [timeoutApprover, clientApprover]
      · simp
      · simp +contextual

/-- The actor of every request tells how it was settled, unless a posted decision has
settled one under a name of the program's own. -/
theorem actors_identify_iff {deps : Gateway.GatewayDeps} {world : World} {c : GateConfig}
    (hundecided : ∀ id row, world.approvals.get id = some row →
      row.status = .pending ∧ row.approver = none)
    (hreach : (machine deps).Reaches .none (Config.initial world) c)
    (hposted : ∀ event ∈ c.state.history, Posted event.entry) :
    (∀ id row, c.state.world.approvals.get id = some row →
      Identifies row.approver (settlement id c.state.history)) ↔
    ∀ event ∈ c.state.history, impersonates event = false := by
  have hexplained := explained_of_reaches hundecided hreach
  constructor
  · -- What has settled a row stays its settlement, and the row shows the name for good.
    intro hidentifies event hevent
    apply Bool.eq_false_iff.mpr
    intro himpersonates
    obtain ⟨id, approved, approver, hsettled, hreserved⟩ : ∃ id approved approver,
        settledBy id event = some (.decision approved approver) ∧ reserved approver = true := by
      rw [impersonates] at himpersonates
      split at himpersonates
      · split at himpersonates
        · rename_i hsettled
          exact ⟨_, _, _, hsettled, himpersonates⟩
        · cases himpersonates
      · cases himpersonates
    have hsettlement := hexplained.unique id event hevent _ hsettled
    have hfits := hexplained.fits id
    rw [hsettlement] at hfits
    rcases hrow : c.state.world.approvals.get id with _ | row
    · rw [hrow] at hfits
      cases hfits.unsettled
    · rw [hrow] at hfits
      have hrow := hidentifies id row hrow
      rw [hsettlement] at hrow
      cases hfits with
      | decided _ _ _ hstatus happrover =>
          simp only [reserved, Bool.or_eq_true, beq_iff_eq] at hreserved
          rcases hreserved with rfl | rfl
          · cases hrow.timeout.mp happrover
          · cases hrow.client.mp happrover
  · intro hhonest id row hrow
    have hfits := hexplained.fits id
    rw [hrow] at hfits
    refine identifies_of_fits hfits fun approved approver hdecision => ?_
    obtain ⟨event, hevent, hsettled⟩ := List.exists_of_findSome?_eq_some hdecision
    obtain ⟨⟨id', note, hentry⟩, approved', decidedAt, approver', note', hop⟩ :=
      decision_of_settledBy hsettled
    constructor
    · have hform := hposted event hevent
      rw [hentry] at hform
      exact hform.approver_ne_empty
    · have hsigned := hhonest event hevent
      rw [impersonates, hop] at hsigned
      simpa only [hsettled] using hsigned

/-- The form a human posts for the request `a`. -/
def signing (approver : String) : DecisionForm where
  approvalId := "a"
  decision := "approve"
  approver := approver

def signed (approver : String) : List GateLabel :=
  opening ++ .start (signing approver).entry :: acts 1 3

def signedConfig : GateConfig :=
  ((machine deps).run .none (Config.initial office) (signed " kim ")).get (by decide)

theorem actors_identify_iff_signed :
    ∃ row, signedConfig.state.world.approvals.get "a" = some row ∧
      row.approver = some "kim" ∧
      Identifies row.approver (settlement "a" signedConfig.state.history) := by
  have hreach : (machine deps).Reaches .none (Config.initial office) signedConfig :=
    Machine.reaches_get _
  have hentries : signedConfig.state.history.map (·.entry) =
      List.replicate 3 (signing " kim ").entry ++
        List.replicate 4 (.openApproval "fs__write" "fs" [] none none) := rfl
  have hposted : ∀ event ∈ signedConfig.state.history, Posted event.entry := by
    intro event hevent
    have hentry : event.entry ∈ signedConfig.state.history.map (·.entry) :=
      List.mem_map_of_mem hevent
    rw [hentries] at hentry
    rcases List.mem_append.mp hentry with hform | hopening
    · exact fun _ _ _ _ _ => ⟨_, List.eq_of_mem_replicate hform⟩
    · intro id approved approver note hdecide
      cases (List.eq_of_mem_replicate hopening).symm.trans hdecide
  have hhonest : ∀ event ∈ signedConfig.state.history, impersonates event = false := by decide
  refine ⟨_, rfl, rfl, ?_⟩
  exact (actors_identify_iff (by intro id row h; cases h) hreach hposted).mpr hhonest "a" _ rfl

/-- A human signs as the timeout. -/
theorem timeout_impersonated :
    ∃ (c : GateConfig) (row : ApprovalRequest),
      (machine deps).run .none (Config.initial office) (signed " system:timeout ") = some c ∧
      c.state.world.approvals.get "a" = some row ∧ row.approver = some timeoutApprover ∧
      settlement "a" c.state.history = some (.decision true timeoutApprover) :=
  ⟨_, _, rfl, rfl, rfl, rfl⟩

end McpGatekeeper.Actors
