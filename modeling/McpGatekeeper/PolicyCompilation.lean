import McpGatekeeper.Config

namespace McpGatekeeper.PolicyCompilation

open McpGatekeeper.Config
open McpGatekeeper.Glob
open McpGatekeeper.JsonValues
open McpGatekeeper.PolicyEngine

/-- The segments are keys of the objects passed on the way from a value to another. -/
inductive Leads : Json → List (List Char) → Json → Prop
  | here (value : Json) : Leads value [] value
  | field (fields : JsonObject) (segment : List Char) (segments : List (List Char))
      (value target : Json) (hvalue : fields.lookup (String.ofList segment) = some value)
      (hrest : Leads value segments target) :
      Leads (.obj fields) (segment :: segments) target

/-- The scalars other than null, as patterns are written against them. -/
inductive Renders : Json → String → Prop
  | true : Renders (.bool true) "true"
  | false : Renders (.bool false) "false"
  | int (value : Int) : Renders (.int value) (toString value)
  | float (repr : String) : Renders (.float repr) repr
  | str (value : String) : Renders (.str value) value

theorem renders_iff {value : Json} {rendered : String} :
    Renders value rendered ↔ value ≠ .null ∧ canonicalValue value = some rendered := by
  constructor
  · intro h
    cases h <;> exact ⟨by simp, rfl⟩
  · rintro ⟨hvalue, hrendered⟩
    cases value with
    | null => exact absurd rfl hvalue
    | bool value =>
        cases hrendered
        cases value
        · exact .false
        · exact .true
    | int value =>
        cases hrendered
        exact .int value
    | float repr =>
        cases hrendered
        exact .float _
    | str value =>
        cases hrendered
        exact .str _
    | arr | obj => cases hrendered

/-- The path resolves to a scalar other than null that the pattern matches. -/
def Holds (arguments : JsonObject) (path pattern : String) : Prop :=
  ∃ value rendered, Leads (.obj arguments) (PythonText.split '.' path.toList) value ∧
    Renders value rendered ∧ matchPath pattern rendered = true

/-- Every hint that is asked for is stated, and with the value asked for. -/
structure Stated (when : WhenConfig) (view : AnnotationView) : Prop where
  readOnly : ∀ hint, when.readOnlyHint = some hint → view.readOnly = some hint
  destructive : ∀ hint, when.destructiveHint = some hint → view.destructive = some hint
  idempotent : ∀ hint, when.idempotentHint = some hint → view.idempotent = some hint
  openWorld : ∀ hint, when.openWorldHint = some hint → view.openWorld = some hint

structure Qualifies (rule : RuleConfig) (request : PolicyRequest) : Prop where
  upstream : ∀ upstream, rule.upstream = some upstream → request.upstream = upstream
  tool : matchTool rule.tool request.tool = true
  hints : ∀ when, rule.when = some when → Stated when request.annotations
  args : ∀ when, rule.when = some when → ∀ entry ∈ when.args,
    Holds request.arguments entry.1 entry.2

/-- The decision a policy file asks for: that of the first rule that qualifies, and the
default where none does. -/
inductive Prescribes (policy : PolicyConfig) (request : PolicyRequest) : Decision → Prop
  | rule (index : Nat) (rule : RuleConfig) (hrule : policy.rules[index]? = some rule)
      (hqualifies : Qualifies rule request)
      (hfirst : ∀ earlier < index, ∀ other, policy.rules[earlier]? = some other →
        ¬Qualifies other request) :
      Prescribes policy request
        { action := rule.action, source := .rule, reason := rule.reason
          ruleIndex := some index }
  | default (hnone : ∀ rule ∈ policy.rules, ¬Qualifies rule request) :
      Prescribes policy request
        { action := policy.default, source := .default, reason := policy.defaultReason
          ruleIndex := none }

theorem resolveLoop_of_leads {value target : Json} {segments : List (List Char)}
    (h : Leads value segments target) : resolveLoop value segments = target := by
  induction h with
  | here value => exact resolveLoop.eq_1 value
  | field fields segment segments value target hvalue _ ih =>
      rw [resolveLoop, hvalue]
      exact ih

theorem leads_of_resolveLoop {value : Json} {segments : List (List Char)}
    (h : resolveLoop value segments ≠ .null) :
    Leads value segments (resolveLoop value segments) := by
  induction segments generalizing value with
  | nil =>
      rw [resolveLoop]
      exact .here value
  | cons segment segments ih =>
      cases value with
      | obj fields =>
          rw [resolveLoop] at h ⊢
          rcases hvalue : fields.lookup (String.ofList segment) with _ | value
          · simp [hvalue] at h
          · simp only [hvalue] at h ⊢
            exact .field fields segment segments value _ hvalue (ih h)
      | null | bool | int | float | str | arr => simp [resolveLoop] at h

theorem argumentMatches_iff (arguments : JsonObject) (condition : ArgumentCondition) :
    argumentMatches arguments condition = true ↔
      Holds arguments condition.path condition.pattern := by
  rw [argumentMatches, resolveArgument]
  constructor
  · intro h
    split at h
    · cases h
    · rename_i hvalue
      split at h
      · cases h
      · rename_i rendered hrendered
        exact ⟨_, rendered, leads_of_resolveLoop hvalue, renders_iff.mpr ⟨hvalue, hrendered⟩, h⟩
  · rintro ⟨value, rendered, hleads, hrenders, hmatches⟩
    obtain ⟨hvalue, hrendered⟩ := renders_iff.mp hrenders
    rw [resolveLoop_of_leads hleads]
    split
    · exact absurd rfl hvalue
    · rw [hrendered]
      exact hmatches

theorem hint_iff (expected actual : Option Bool) :
    (expected.isNone || actual == expected) = true ↔
      ∀ hint, expected = some hint → actual = some hint := by
  cases expected with
  | none => simp
  | some hint => simp

theorem annotationsMatch_iff (when : WhenConfig) (view : AnnotationView) :
    annotationsMatch view when.toCondition = true ↔ Stated when view := by
  simp only [annotationsMatch, WhenConfig.toCondition, List.all_cons, List.all_nil,
    Bool.and_true, Bool.and_eq_true, hint_iff]
  constructor
  · rintro ⟨hreadOnly, hdestructive, hidempotent, hopenWorld⟩
    exact ⟨hreadOnly, hdestructive, hidempotent, hopenWorld⟩
  · rintro ⟨hreadOnly, hdestructive, hidempotent, hopenWorld⟩
    exact ⟨hreadOnly, hdestructive, hidempotent, hopenWorld⟩

theorem arguments_iff (when : WhenConfig) (arguments : JsonObject) :
    when.toCondition.arguments.all (argumentMatches arguments) = true ↔
      ∀ entry ∈ when.args, Holds arguments entry.1 entry.2 := by
  have hperm := List.perm_insertionSort (fun item item' => itemLe item item') when.args
  simp only [WhenConfig.toCondition, List.all_map, List.all_eq_true, Function.comp_apply,
    argumentMatches_iff, hperm.mem_iff]

theorem holds_of_isEmpty {condition : RuleCondition} (h : condition.isEmpty = true)
    (request : PolicyRequest) :
    annotationsMatch request.annotations condition = true ∧
      condition.arguments.all (argumentMatches request.arguments) = true := by
  simp only [RuleCondition.isEmpty, Bool.and_eq_true, Option.isNone_iff_eq_none,
    List.isEmpty_iff] at h
  obtain ⟨⟨⟨⟨harguments, hreadOnly⟩, hdestructive⟩, hidempotent⟩, hopenWorld⟩ := h
  simp [annotationsMatch, harguments, hreadOnly, hdestructive, hidempotent, hopenWorld]

theorem ruleMatches_iff (rule : Rule) (request : PolicyRequest) :
    ruleMatches rule request = true ↔
      (∀ upstream, rule.upstream = some upstream → request.upstream = upstream) ∧
      matchTool rule.tool request.tool = true ∧
      annotationsMatch request.annotations rule.condition = true ∧
      rule.condition.arguments.all (argumentMatches request.arguments) = true := by
  have hupstream : (rule.upstream.isSome && rule.upstream != some request.upstream) = false ↔
      ∀ upstream, rule.upstream = some upstream → request.upstream = upstream := by
    rcases rule.upstream with _ | upstream
    · simp
    · simp [eq_comm (a := upstream)]
  rw [← hupstream, ruleMatches]
  rcases hforeign : rule.upstream.isSome && rule.upstream != some request.upstream with _ | _
  · rcases htool : matchTool rule.tool request.tool with _ | _
    · simp
    · rcases hempty : rule.condition.isEmpty with _ | _
      · simp
      · simp [holds_of_isEmpty hempty request]
  · simp

theorem toRule_matches_iff (rule : RuleConfig) (request : PolicyRequest) :
    ruleMatches rule.toRule request = true ↔ Qualifies rule request := by
  rw [ruleMatches_iff]
  rcases hwhen : rule.when with _ | when
  · constructor
    · rintro ⟨hupstream, htool, -, -⟩
      exact ⟨hupstream, htool, by simp [hwhen], by simp [hwhen]⟩
    · rintro ⟨hupstream, htool, -, -⟩
      exact ⟨hupstream, htool, by simp [RuleConfig.toRule, hwhen, annotationsMatch],
        by simp [RuleConfig.toRule, hwhen]⟩
  · have hcondition : rule.toRule.condition = when.toCondition := by
      simp [RuleConfig.toRule, hwhen]
    rw [hcondition, annotationsMatch_iff, arguments_iff]
    constructor
    · rintro ⟨hupstream, htool, hhints, hargs⟩
      refine ⟨hupstream, htool, ?_, ?_⟩
      · rintro other hother
        rw [hwhen] at hother
        obtain rfl := Option.some.inj hother
        exact hhints
      · rintro other hother
        rw [hwhen] at hother
        obtain rfl := Option.some.inj hother
        exact hargs
    · rintro ⟨hupstream, htool, hhints, hargs⟩
      exact ⟨hupstream, htool, hhints when hwhen, hargs when hwhen⟩

theorem prescribed_from {policy : PolicyConfig} {request : PolicyRequest}
    {compiled : Policy} (hdefault : compiled.default = policy.default)
    (hreason : compiled.defaultReason = policy.defaultReason)
    (passed : List RuleConfig) {rest : List RuleConfig} (hrules : policy.rules = passed ++ rest)
    (hpassed : ∀ rule ∈ passed, ¬Qualifies rule request) :
    Prescribes policy request
      (evaluateFrom request compiled passed.length (rest.map (·.toRule))) := by
  induction rest generalizing passed with
  | nil =>
      rw [List.map_nil, evaluateFrom, hdefault, hreason]
      refine .default fun rule hrule => hpassed rule ?_
      simpa [hrules] using hrule
  | cons rule rest ih =>
      rw [List.map_cons, evaluateFrom]
      split
      · rename_i hmatches
        refine .rule passed.length rule (by simp [hrules])
          ((toRule_matches_iff rule request).mp hmatches) ?_
        intro earlier hearlier other hother
        rw [hrules, List.getElem?_append_left hearlier] at hother
        exact hpassed other (List.mem_of_getElem? hother)
      · rename_i hmatches
        have hskipped : ∀ other ∈ passed ++ [rule], ¬Qualifies other request := by
          intro other hother
          rcases List.mem_append.mp hother with hmem | hmem
          · exact hpassed other hmem
          · obtain rfl := List.mem_singleton.mp hmem
            exact fun hqualifies => hmatches ((toRule_matches_iff other request).mpr hqualifies)
        have hnext := ih (passed ++ [rule]) (by simp [hrules]) hskipped
        rwa [List.length_append, List.length_singleton] at hnext

theorem Prescribes.unique {policy : PolicyConfig} {request : PolicyRequest}
    {decision decision' : Decision} (h : Prescribes policy request decision)
    (h' : Prescribes policy request decision') : decision = decision' := by
  cases h with
  | rule index rule hrule hqualifies hfirst =>
      cases h' with
      | rule index' rule' hrule' hqualifies' hfirst' =>
          rcases Nat.lt_trichotomy index index' with hlt | rfl | hlt
          · exact absurd hqualifies (hfirst' index hlt rule hrule)
          · rw [hrule] at hrule'
            obtain rfl := Option.some.inj hrule'
            rfl
          · exact absurd hqualifies' (hfirst index' hlt rule' hrule')
      | default hnone => exact absurd hqualifies (hnone rule (List.mem_of_getElem? hrule))
  | default hnone =>
      cases h' with
      | rule index rule hrule hqualifies _ =>
          exact absurd hqualifies (hnone rule (List.mem_of_getElem? hrule))
      | default => rfl

inductive WhenReordered : Option WhenConfig → Option WhenConfig → Prop
  | absent : WhenReordered none none
  | present (when : WhenConfig) (args : List (String × String))
      (hargs : when.args.Perm args) :
      WhenReordered (some when) (some { when with args := args })

structure RuleReordered (rule rule' : RuleConfig) : Prop where
  when : WhenReordered rule.when rule'.when
  tool : rule'.tool = rule.tool
  action : rule'.action = rule.action
  reason : rule'.reason = rule.reason
  upstream : rule'.upstream = rule.upstream

structure PolicyReordered (policy policy' : PolicyConfig) : Prop where
  rules : List.Forall₂ RuleReordered policy.rules policy'.rules
  default : policy'.default = policy.default
  defaultReason : policy'.defaultReason = policy.defaultReason

theorem RuleReordered.symm {rule rule' : RuleConfig} (h : RuleReordered rule rule') :
    RuleReordered rule' rule := by
  obtain ⟨hwhen, htool, haction, hreason, hupstream⟩ := h
  refine ⟨?_, htool.symm, haction.symm, hreason.symm, hupstream.symm⟩
  generalize rule.when = found at hwhen ⊢
  generalize rule'.when = found' at hwhen ⊢
  cases hwhen with
  | absent => exact .absent
  | present when args hargs => exact .present { when with args := args } when.args hargs.symm

theorem RuleReordered.qualifies {rule rule' : RuleConfig} {request : PolicyRequest}
    (h : RuleReordered rule rule') (hqualifies : Qualifies rule request) :
    Qualifies rule' request := by
  obtain ⟨hwhen, htool, -, -, hupstream⟩ := h
  generalize hsome : rule.when = found at hwhen
  generalize hsome' : rule'.when = found' at hwhen
  refine ⟨hupstream ▸ hqualifies.upstream, htool ▸ hqualifies.tool, ?_, ?_⟩
  · rintro other hother
    obtain rfl := hsome'.symm.trans hother
    cases hwhen with
    | present when args hargs =>
        obtain ⟨hreadOnly, hdestructive, hidempotent, hopenWorld⟩ :=
          hqualifies.hints when hsome
        exact ⟨hreadOnly, hdestructive, hidempotent, hopenWorld⟩
  · rintro other hother entry hentry
    obtain rfl := hsome'.symm.trans hother
    cases hwhen with
    | present when args hargs =>
        exact hqualifies.args when hsome entry (hargs.mem_iff.mpr hentry)

theorem evaluateFrom_reordered {request : PolicyRequest} {compiled compiled' : Policy}
    (hdefault : compiled.default = compiled'.default)
    (hreason : compiled.defaultReason = compiled'.defaultReason)
    {rules rules' : List RuleConfig} (h : List.Forall₂ RuleReordered rules rules')
    (index : Nat) :
    evaluateFrom request compiled index (rules.map (·.toRule)) =
      evaluateFrom request compiled' index (rules'.map (·.toRule)) := by
  induction h generalizing index with
  | nil => simp [evaluateFrom, hdefault, hreason]
  | @cons rule rule' rules rules' hrule _ ih =>
      have hmatches : ruleMatches rule.toRule request = ruleMatches rule'.toRule request := by
        rw [Bool.eq_iff_iff, toRule_matches_iff, toRule_matches_iff]
        exact ⟨hrule.qualifies, hrule.symm.qualifies⟩
      have haction : rule'.toRule.action = rule.toRule.action := hrule.action
      have hreason : rule'.toRule.reason = rule.toRule.reason := hrule.reason
      simp only [List.map_cons, evaluateFrom, hmatches, ih, haction, hreason]

variable {isalnum : Char → Bool}

/-- The compiled policy decides every request as the file prescribes, whatever the
order in which the entries of `when.args` are written. -/
theorem compiled_policy_means_file (config : GatekeeperConfig isalnum)
    (request : PolicyRequest) (decision : Decision) :
    (evaluate request config.buildPolicy = decision ↔
      Prescribes config.policy request decision) ∧
    ∀ config' : GatekeeperConfig isalnum, PolicyReordered config.policy config'.policy →
      evaluate request config'.buildPolicy = evaluate request config.buildPolicy := by
  have hnone : ∀ rule ∈ ([] : List RuleConfig), ¬Qualifies rule request := by simp
  have hprescribed : Prescribes config.policy request (evaluate request config.buildPolicy) :=
    prescribed_from rfl rfl [] rfl hnone
  refine ⟨⟨?_, fun h => hprescribed.unique h⟩, ?_⟩
  · rintro rfl
    exact hprescribed
  · intro config' h
    exact (evaluateFrom_reordered h.default.symm h.defaultReason.symm h.rules 0).symm

/-- Writes below `/etc` by root are denied, everything else is left to the default. -/
def guarded : GatekeeperConfig Char.isAlphanum where
  policy :=
    { default := .allow
      rules :=
        [{ tool := "fs__*"
           action := .deny
           when := some { args := [("user.id", "0"), ("path", "/etc/**")] }
           reason := some "system files"
           tool_nonempty := by decide }] }
  accepted := by decide

def guardedWrite (user : Int) : PolicyRequest where
  tool := "fs__write"
  upstream := "fs"
  arguments := [("path", .str "/etc/ssh/config"), ("user", .obj [("id", .int user)])]

theorem compiled_policy_means_file_args :
    Prescribes guarded.policy (guardedWrite 0)
        { action := .deny, source := .rule, reason := some "system files", ruleIndex := some 0 } ∧
      Prescribes guarded.policy (guardedWrite 7) { action := .allow, source := .default } :=
  ⟨(compiled_policy_means_file guarded _ _).1.mp (by decide),
    (compiled_policy_means_file guarded _ _).1.mp (by decide)⟩

end McpGatekeeper.PolicyCompilation
