import McpGatekeeper.System

namespace McpGatekeeper.Ui

open McpGatekeeper.Gateway
open McpGatekeeper.System

/-- `ANONYMOUS` -/
def anonymous : String := "anonymous"

/-- What is posted to `/approvals/{approval_id}/decide`. -/
structure DecisionForm where
  approvalId : String
  decision : String
  approver : String := anonymous
  note : String := ""
  redirectTo : String := ""

def strip (text : String) : String :=
  String.ofList (PythonText.strip text.toList)

namespace DecisionForm

variable (form : DecisionForm)

/-- `approver.strip() or ANONYMOUS` -/
def actor : String :=
  orElse (some (strip form.approver)) anonymous

/-- `decide` -/
def entry : Entry :=
  .decide form.approvalId (form.decision == "approve") form.actor
    (if strip form.note = "" then none else some (strip form.note))

/-- Where the answer to a post redirects to. -/
def target : String :=
  if form.redirectTo = "/" then "/" else "/approvals/" ++ form.approvalId

theorem actor_ne_empty : form.actor ≠ "" := by
  change (if strip form.approver = "" then anonymous else strip form.approver) ≠ ""
  split
  · decide
  · assumption

end DecisionForm

/-- Decisions come from the form. -/
def Posted (entry : Entry) : Prop :=
  ∀ id approved approver note, entry = .decide id approved approver note →
    ∃ form : DecisionForm, entry = form.entry

theorem Posted.approver_ne_empty {id : String} {approved : Bool} {approver : String}
    {note : Option String} (h : Posted (.decide id approved approver note)) : approver ≠ "" := by
  obtain ⟨form, hform⟩ := h id approved approver note rfl
  obtain ⟨-, -, rfl, -⟩ := Entry.decide.inj hform
  exact form.actor_ne_empty

end McpGatekeeper.Ui
