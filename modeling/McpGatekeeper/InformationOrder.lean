import McpGatekeeper.PolicyCompilation

namespace McpGatekeeper.InformationOrder

open McpGatekeeper.JsonValues
open McpGatekeeper.PolicyCompilation
open McpGatekeeper.PolicyEngine

/-- The first value says less: it is null, or an object with fewer keys that says less
under each of them, or the same. -/
inductive Below : Json → Json → Prop
  | null (value : Json) : Below .null value
  | obj (fields fields' : JsonObject)
      (hkeys : ∀ key value, fields.lookup key = some value →
        (fields'.lookup key).isSome = true)
      (hvalues : ∀ key value value', fields.lookup key = some value →
        fields'.lookup key = some value' → Below value value') :
      Below (.obj fields) (.obj fields')
  | same (value : Json) : Below value value

/-- A hint that is stated is stated alike. -/
def HintBelow (hint hint' : Option Bool) : Prop :=
  ∀ value, hint = some value → hint' = some value

structure ViewBelow (view view' : AnnotationView) : Prop where
  readOnly : HintBelow view.readOnly view'.readOnly
  destructive : HintBelow view.destructive view'.destructive
  idempotent : HintBelow view.idempotent view'.idempotent
  openWorld : HintBelow view.openWorld view'.openWorld

/-- The same call, with less said of its arguments and of the tool. -/
structure RequestBelow (request request' : PolicyRequest) : Prop where
  tool : request'.tool = request.tool
  upstream : request'.upstream = request.upstream
  arguments : Below (.obj request.arguments) (.obj request'.arguments)
  annotations : ViewBelow request.annotations request'.annotations

theorem eq_of_below_scalar {value value' : Json} {rendered : String} (h : Below value value')
    (hrenders : Renders value rendered) : value' = value := by
  cases h with
  | null => cases hrenders
  | obj => cases hrenders
  | same => rfl

theorem leads_of_below {value target : Json} {segments : List (List Char)} {rendered : String}
    (hleads : Leads value segments target) (hrenders : Renders target rendered)
    {value' : Json} (h : Below value value') : Leads value' segments target := by
  induction hleads generalizing value' with
  | here value =>
      rw [eq_of_below_scalar h hrenders]
      exact .here value
  | field fields segment segments value target hvalue hrest ih =>
      cases h with
      | same => exact .field fields segment segments value target hvalue hrest
      | obj _ fields' hkeys hvalues =>
          obtain ⟨value', hvalue'⟩ := Option.isSome_iff_exists.mp (hkeys _ value hvalue)
          exact .field fields' segment segments value' target hvalue'
            (ih hrenders (hvalues _ value value' hvalue hvalue'))

theorem argumentMatches_mono {arguments arguments' : JsonObject} {condition : ArgumentCondition}
    (h : Below (.obj arguments) (.obj arguments'))
    (hmatches : argumentMatches arguments condition = true) :
    argumentMatches arguments' condition = true := by
  rw [argumentMatches_iff] at hmatches ⊢
  obtain ⟨value, rendered, hleads, hrenders, hpattern⟩ := hmatches
  exact ⟨value, rendered, leads_of_below hleads hrenders h, hrenders, hpattern⟩

theorem annotationsMatch_mono {view view' : AnnotationView} {condition : RuleCondition}
    (h : ViewBelow view view') (hmatches : annotationsMatch view condition = true) :
    annotationsMatch view' condition = true := by
  simp only [annotationsMatch, List.all_cons, List.all_nil, Bool.and_true, Bool.and_eq_true,
    hint_iff] at hmatches ⊢
  obtain ⟨hreadOnly, hdestructive, hidempotent, hopenWorld⟩ := hmatches
  exact ⟨fun hint heq => h.readOnly hint (hreadOnly hint heq),
    fun hint heq => h.destructive hint (hdestructive hint heq),
    fun hint heq => h.idempotent hint (hidempotent hint heq),
    fun hint heq => h.openWorld hint (hopenWorld hint heq)⟩

theorem ruleMatches_mono {rule : Rule} {request request' : PolicyRequest}
    (h : RequestBelow request request') (hmatches : ruleMatches rule request = true) :
    ruleMatches rule request' = true := by
  rw [ruleMatches_iff] at hmatches ⊢
  obtain ⟨hupstream, htool, hannotations, harguments⟩ := hmatches
  refine ⟨?_, ?_, annotationsMatch_mono h.annotations hannotations, ?_⟩
  · intro upstream hrule
    rw [h.upstream]
    exact hupstream upstream hrule
  · rw [h.tool]
    exact htool
  · rw [List.all_eq_true] at harguments ⊢
    intro condition hcondition
    exact argumentMatches_mono h.arguments (harguments condition hcondition)

/-- The decision is that of rule number `index`. -/
def DecidedBy (decision : Decision) (index : Nat) : Prop :=
  decision.source = .rule ∧ decision.ruleIndex = some index

theorem start_le {request : PolicyRequest} {policy : Policy} {start index : Nat}
    {rules : List Rule} (h : DecidedBy (evaluateFrom request policy start rules) index) :
    start ≤ index := by
  induction rules generalizing start with
  | nil => cases h.1
  | cons rule rules ih =>
      rw [evaluateFrom] at h
      split at h
      · exact (Option.some.inj h.2).le
      · exact Nat.le_of_succ_le (ih h)

theorem evaluateFrom_mono {request request' : PolicyRequest} {policy : Policy}
    (h : RequestBelow request request') {start index : Nat} {rules : List Rule}
    (hdecided : DecidedBy (evaluateFrom request policy start rules) index) :
    ∃ index' ≤ index, DecidedBy (evaluateFrom request' policy start rules) index' := by
  induction rules generalizing start with
  | nil => cases hdecided.1
  | cons rule rules ih =>
      have hstart := start_le hdecided
      rw [evaluateFrom] at hdecided ⊢
      rcases hlater : ruleMatches rule request'
      · have hfirst : ¬ruleMatches rule request = true := by
          intro hmatches
          rw [ruleMatches_mono h hmatches] at hlater
          cases hlater
        rw [if_neg hfirst] at hdecided
        exact ih hdecided
      · exact ⟨start, hstart, rfl, rfl⟩

/-- A rule that fires fires on whatever says more, so that the more informative call is
decided no later. -/
theorem evaluate_mono {request request' : PolicyRequest} (h : RequestBelow request request') :
    (∀ rule, ruleMatches rule request = true → ruleMatches rule request' = true) ∧
    ∀ policy index, DecidedBy (evaluate request policy) index →
      ∃ index' ≤ index, DecidedBy (evaluate request' policy) index' := by
  constructor
  · intro rule hmatches
    exact ruleMatches_mono h hmatches
  · intro policy index hdecided
    exact evaluateFrom_mono h hdecided

def writes : Policy where
  rules := [{ tool := "fs__write", action := .deny,
              condition := { arguments := [{ path := "path", pattern := "/prod/**" }] } },
            { tool := "fs__*", action := .allow }]

def unstated : PolicyRequest := { tool := "fs__write", upstream := "fs" }

def stated : PolicyRequest := { unstated with arguments := [("path", .str "/prod/db")] }

/-- A call without arguments, and the same call with its path stated. -/
theorem evaluate_mono_writes :
    DecidedBy (evaluate unstated writes) 1 ∧
      ∃ index ≤ 1, DecidedBy (evaluate stated writes) index := by
  have harguments : Below (.obj unstated.arguments) (.obj stated.arguments) := by
    constructor
    · rintro key value ⟨⟩
    · rintro key value value' ⟨⟩
  have hview : ViewBelow unstated.annotations stated.annotations := by
    constructor <;> exact fun _ hhint => hhint
  have hfirst : DecidedBy (evaluate unstated writes) 1 := by
    constructor <;> decide
  have hbelow : RequestBelow unstated stated := ⟨rfl, rfl, harguments, hview⟩
  exact ⟨hfirst, (evaluate_mono hbelow).2 writes 1 hfirst⟩

end McpGatekeeper.InformationOrder
