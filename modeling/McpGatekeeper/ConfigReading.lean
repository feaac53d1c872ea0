import McpGatekeeper.ConfigFile

namespace McpGatekeeper.ConfigReading

open Documents
open McpGatekeeper.Config
open McpGatekeeper.ConfigFile
open McpGatekeeper.Sessions

variable {isalnum : Char → Bool} {pydantic : Pydantic}

theorem accept_accepted {α β : Type} {validate : α → Except ValidationError β} {result : α → β}
    (hreturns : Returns validate result) (value : Accepted validate result) :
    accept hreturns value.1 = .ok value := by
  unfold accept
  split
  · rfl
  · rename_i error herror
    exact absurd (value.2.symm.trans herror) (by simp)

theorem single_lawful {α : Type} {read : YamlDoc → Except String α} {write : α → YamlDoc}
    (h : ∀ value, read (write value) = .ok value) : (single read write).Lawful := fun value =>
  congrArg (Except.mapError Refusal.type) (h value)

theorem str_lawful : (str pydantic).Lawful :=
  single_lawful pydantic.str_text

theorem bool_lawful : (bool pydantic).Lawful :=
  single_lawful pydantic.bool_boolean

theorem int_lawful : (int pydantic).Lawful :=
  single_lawful pydantic.int_integer

theorem float_lawful : (float pydantic).Lawful :=
  single_lawful pydantic.float_number

theorem versionOne_lawful : (versionOne pydantic).Lawful :=
  single_lawful fun _ => pydantic.literalOne_one

theorem literal_lawful {α : Type} {text : α → String} {values : List α}
    (h : ∀ value, (values.find? fun other => text other = text value) = some value) :
    (literal pydantic text values).Lawful :=
  single_lawful fun value => pydantic.literal_text (h value)

theorem strDict_lawful : (strDict pydantic).Lawful := by
  refine ⟨fun name => ?_, str_lawful⟩
  exact congrArg (Except.mapError Refusal.type) (pydantic.str_text name)

theorem accepted_lawful {α β : Type} {inner : FileSchema α}
    {validate : α → Except ValidationError β} {result : α → β}
    (hreturns : Returns validate result) (hinner : inner.Lawful) :
    (Schema.checked inner (accept hreturns) Subtype.val).Lawful :=
  ⟨hinner, accept_accepted hreturns⟩

theorem positive_seconds (timeout : { timeout : Clock.Seconds // Timeouts.gtZero timeout = true }) :
    positive (secondsNumber timeout.1) = .ok timeout := by
  obtain ⟨seconds, hpositive⟩ := timeout
  cases seconds with
  | finite value =>
      have hvalue : 0 < value := of_decide_eq_true hpositive
      change (if h : 0 < value then _ else _) = _
      rw [dif_pos hvalue]
  | infinity => rfl

theorem portRange_port (port : { port : Int // 1 ≤ port ∧ port ≤ 65535 }) :
    portRange port.1 = .ok port := by
  obtain ⟨value, hge, hle⟩ := port
  rw [portRange, dif_neg (Int.not_lt.mpr hge), dif_neg (Int.not_lt.mpr hle)]

theorem ofSections_toSections (file : GatekeeperFile isalnum) :
    GatekeeperFile.ofSections file.toSections = .ok file := by
  have haccept := @accept_accepted _ _ Sections.validate (fun _ => ()) (fun _ _ _ => rfl)
    ⟨file.toSections, file.accepted⟩
  exact congrArg (Except.map _) haccept

theorem orNone_str_lawful : (orNone (str pydantic)).Lawful :=
  ⟨str_lawful, fun _ h => by cases h⟩

theorem orNone_bool_lawful : (orNone (bool pydantic)).Lawful :=
  ⟨bool_lawful, fun _ h => by cases h⟩

theorem upstreamName_lawful : (upstreamName isalnum pydantic).Lawful :=
  accepted_lawful (returns_validateName isalnum) str_lawful

theorem nonempty_lawful (field : String) : (nonempty pydantic field).Lawful :=
  accepted_lawful (fun _ _ _ => rfl) str_lawful

theorem stdioUpstream_lawful : (stdioUpstream isalnum pydantic).Lawful := by
  refine ⟨?_, by simp [Fields.names], fun _ => rfl⟩
  have hname : (upstreamName isalnum pydantic).Lawful := upstreamName_lawful
  have htransport : (literal pydantic (fun _ : Unit => "stdio") [()]).Lawful :=
    literal_lawful fun _ => rfl
  have hcommand : (nonempty pydantic "command").Lawful := nonempty_lawful "command"
  have hargs : (strList pydantic).Lawful := str_lawful
  have henv : (strDict pydantic).Lawful := strDict_lawful
  have hcwd : (orNone (str pydantic)).Lawful := orNone_str_lawful
  exact ⟨hname, htransport, hcommand, hargs, henv, hcwd, trivial⟩

theorem httpUpstream_lawful : (httpUpstream isalnum pydantic).Lawful := by
  refine ⟨?_, by simp [Fields.names], fun _ => rfl⟩
  have hname : (upstreamName isalnum pydantic).Lawful := upstreamName_lawful
  have htransport : (literal pydantic (fun _ : Unit => "http") [()]).Lawful :=
    literal_lawful fun _ => rfl
  have hurl : (upstreamUrl pydantic).Lawful := accepted_lawful returns_validateUrl str_lawful
  have hheaders : (strDict pydantic).Lawful := strDict_lawful
  exact ⟨hname, htransport, hurl, hheaders, trivial⟩

theorem upstream_lawful : (upstream isalnum pydantic).Lawful := by
  have hstdio : ∀ (value : Upstream isalnum) inner, value.stdio? = some inner →
      Upstream.stdio inner = value := by
    rintro (value | value) inner h <;> cases h
    rfl
  have hhttp : ∀ (value : Upstream isalnum) inner, value.http? = some inner →
      Upstream.http inner = value := by
    rintro (value | value) inner h <;> cases h
    rfl
  refine ⟨?_, by simp [Choices.tags], ?_⟩
  · exact ⟨stdioUpstream_lawful, fun _ => ⟨_, rfl, rfl⟩, hstdio, httpUpstream_lawful,
      fun _ => ⟨_, rfl, rfl⟩, hhttp, trivial⟩
  · rintro (value | value)
    · exact .inl rfl
    · exact .inr (.inl rfl)

theorem action_lawful : (action pydantic).Lawful :=
  single_lawful fun value => pydantic.enum_text (by cases value <;> rfl)

theorem whenConfig_lawful : (whenConfig pydantic).Lawful := by
  refine ⟨?_, by simp [Fields.names], fun _ => rfl⟩
  have hargs : (strDict pydantic).Lawful := strDict_lawful
  have hhint : (orNone (bool pydantic)).Lawful := orNone_bool_lawful
  exact ⟨hargs, hhint, hhint, hhint, hhint, trivial⟩

theorem ruleConfig_lawful : (ruleConfig pydantic).Lawful := by
  refine ⟨?_, by simp [Fields.names], fun _ => rfl⟩
  have htool : (nonempty pydantic "tool").Lawful := nonempty_lawful "tool"
  have hwhen : (orNone (whenConfig pydantic)).Lawful := ⟨whenConfig_lawful, fun _ h => by cases h⟩
  have htext : (orNone (str pydantic)).Lawful := orNone_str_lawful
  exact ⟨htool, action_lawful, hwhen, htext, htext, trivial⟩

theorem policyConfig_lawful : (policyConfig pydantic).Lawful := by
  refine ⟨?_, by simp [Fields.names], fun _ => rfl⟩
  have hreason : (orNone (str pydantic)).Lawful := orNone_str_lawful
  have hrules : (Schema.sequence (ruleConfig pydantic)).Lawful := ruleConfig_lawful
  exact ⟨action_lawful, hreason, hrules, trivial⟩

theorem approvalUiConfig_lawful : (approvalUiConfig pydantic).Lawful := by
  refine ⟨?_, by simp [Fields.names], fun _ => rfl⟩
  have hport : (Schema.checked (int pydantic) portRange Subtype.val).Lawful :=
    ⟨int_lawful, portRange_port⟩
  exact ⟨str_lawful, hport, str_lawful, trivial⟩

theorem approvalConfig_lawful : (approvalConfig pydantic).Lawful := by
  refine ⟨?_, by simp [Fields.names], fun _ => rfl⟩
  have hmode : (literal pydantic modeValue [.auto, .elicit, .block]).Lawful :=
    literal_lawful fun value => by cases value <;> rfl
  have htimeout : (Schema.checked (float pydantic) positive
      fun timeout => secondsNumber timeout.1).Lawful := ⟨float_lawful, positive_seconds⟩
  have honTimeout : (literal pydantic onTimeoutValue [.deny, .allow]).Lawful :=
    literal_lawful fun value => by cases value <;> rfl
  exact ⟨hmode, htimeout, honTimeout, approvalUiConfig_lawful, trivial⟩

theorem auditConfig_lawful : (auditConfig pydantic).Lawful := by
  refine ⟨?_, by simp [Fields.names], fun _ => rfl⟩
  have hredact : (strList pydantic).Lawful := str_lawful
  exact ⟨str_lawful, hredact, bool_lawful, trivial⟩

theorem serverConfig_lawful : (serverConfig pydantic).Lawful := by
  refine ⟨?_, by simp [Fields.names], fun _ => rfl⟩
  have hinstructions : (orNone (str pydantic)).Lawful := orNone_str_lawful
  exact ⟨str_lawful, str_lawful, hinstructions, trivial⟩

theorem fillTransport_of_isSome {entries : Entries Plain}
    (h : (find "transport" entries).isSome) :
    fillTransport (.mapping entries) = .mapping entries :=
  if_pos h

theorem defaultTransport_write (upstreams : List (Upstream isalnum)) :
    defaultTransport ((Schema.sequence (upstream isalnum pydantic)).write upstreams) =
      (Schema.sequence (upstream isalnum pydantic)).write upstreams := by
  change Doc.sequence ((upstreams.map _).map fillTransport) = Doc.sequence (upstreams.map _)
  rw [List.map_map]
  refine congrArg Doc.sequence (List.map_congr_left fun value _ => ?_)
  cases value with
  | stdio value => exact fillTransport_of_isSome rfl
  | http value => exact fillTransport_of_isSome rfl

theorem sections_lawful : (sections isalnum pydantic).Lawful := by
  refine ⟨?_, by simp [Fields.names], fun _ => rfl⟩
  have hupstreams : (Schema.prepared defaultTransport
      (Schema.sequence (upstream isalnum pydantic))).Lawful :=
    ⟨upstream_lawful, defaultTransport_write⟩
  exact ⟨versionOne_lawful, serverConfig_lawful, hupstreams, policyConfig_lawful,
    approvalConfig_lawful, auditConfig_lawful, trivial⟩

theorem gatekeeperConfig_lawful : (gatekeeperConfig isalnum pydantic).Lawful :=
  ⟨sections_lawful, ofSections_toSections⟩

theorem stable_of_flat {ρ γ : Type} {record : FileSchema ρ} {make : γ}
    {fields : Fields Plain Refusal ρ γ} (hrecord : record = .model make fields)
    (hflat : fields.isFlat = true) : record.Stable := by
  rw [hrecord]
  exact fields.stable_of_isFlat hflat

theorem stdioUpstream_stable : (stdioUpstream isalnum pydantic).Stable :=
  stable_of_flat rfl rfl

theorem httpUpstream_stable : (httpUpstream isalnum pydantic).Stable :=
  stable_of_flat rfl rfl

theorem upstream_stable : (upstream isalnum pydantic).Stable := by
  refine ⟨stdioUpstream_stable, ?_, httpUpstream_stable, ?_, trivial⟩
  · rintro entries hsome
    refine ⟨_, rfl, Fields.find_fill_of_keeps _ entries ?_ hsome⟩
    simp [Fields.Keeps, literal, single, Schema.fill]
  · rintro entries hsome
    refine ⟨_, rfl, Fields.find_fill_of_keeps _ entries ?_ hsome⟩
    simp [Fields.Keeps, literal, single, Schema.fill]

theorem whenConfig_stable : (whenConfig pydantic).Stable :=
  stable_of_flat rfl rfl

theorem whenConfig_fill (doc : YamlDoc) :
    (whenConfig pydantic).fill doc = plainDoc .null ↔ doc = plainDoc .null := by
  cases doc with
  | scalar value => exact .rfl
  | sequence items => exact .rfl
  | mapping entries =>
      constructor
      · intro h
        cases h
      · intro h
        cases h

theorem ruleConfig_stable : (ruleConfig pydantic).Stable := by
  have htool : (nonempty pydantic "tool").Stable := Schema.stable_of_isFlat _ rfl
  have haction : (action pydantic).Stable := Schema.stable_of_isFlat _ rfl
  have hwhen : (orNone (whenConfig pydantic)).Stable := ⟨whenConfig_stable, whenConfig_fill⟩
  have htext : (orNone (str pydantic)).Stable := Schema.stable_of_isFlat _ rfl
  exact ⟨htool, haction, hwhen, htext, htext, trivial⟩

theorem policyConfig_stable : (policyConfig pydantic).Stable := by
  have haction : (action pydantic).Stable := Schema.stable_of_isFlat _ rfl
  have hreason : (orNone (str pydantic)).Stable := Schema.stable_of_isFlat _ rfl
  have hrules : (Schema.sequence (ruleConfig pydantic)).Stable := ruleConfig_stable
  exact ⟨haction, hreason, hrules, trivial⟩

theorem approvalConfig_stable : (approvalConfig pydantic).Stable := by
  have hmode : (literal pydantic modeValue [.auto, .elicit, .block]).Stable :=
    Schema.stable_of_isFlat _ rfl
  have htimeout : (Schema.checked (float pydantic) positive
      fun timeout => secondsNumber timeout.1).Stable := Schema.stable_of_isFlat _ rfl
  have honTimeout : (literal pydantic onTimeoutValue [.deny, .allow]).Stable :=
    Schema.stable_of_isFlat _ rfl
  have hui : (approvalUiConfig pydantic).Stable := stable_of_flat rfl rfl
  exact ⟨hmode, htimeout, honTimeout, hui, trivial⟩

theorem fillTransport_mapping (entries : Entries Plain) :
    ∃ filled, fillTransport (.mapping entries) = .mapping filled ∧
      (find "transport" filled).isSome := by
  rw [fillTransport]
  split
  · rename_i hsome
    exact ⟨entries, rfl, hsome⟩
  · refine ⟨_, rfl, ?_⟩
    rw [find_cons, if_pos rfl]
    rfl

theorem fillTransport_fill (item : YamlDoc) :
    fillTransport ((upstream isalnum pydantic).fill (fillTransport item)) =
      (upstream isalnum pydantic).fill (fillTransport item) := by
  cases item with
  | scalar value => rfl
  | sequence items => rfl
  | mapping entries =>
      obtain ⟨given, hgiven, hsome⟩ := fillTransport_mapping entries
      obtain ⟨filled, hfilled, hkept⟩ :=
        find_fill_tagged (@upstream_stable isalnum pydantic) hsome
      rw [hgiven]
      change fillTransport ((Schema.tagged _ _).fill _) = (Schema.tagged _ _).fill _
      rw [hfilled]
      exact fillTransport_of_isSome (by rw [hkept]; exact hsome)

theorem defaultTransport_fill (doc : YamlDoc) :
    defaultTransport ((Schema.sequence (upstream isalnum pydantic)).fill (defaultTransport doc)) =
      (Schema.sequence (upstream isalnum pydantic)).fill (defaultTransport doc) := by
  cases doc with
  | scalar value => rfl
  | mapping entries => rfl
  | sequence items =>
      change Doc.sequence (((items.map fillTransport).map _).map fillTransport) =
        Doc.sequence ((items.map fillTransport).map _)
      rw [List.map_map, List.map_map, List.map_map]
      refine congrArg Doc.sequence (List.map_congr_left fun item _ => ?_)
      exact fillTransport_fill item

theorem sections_stable : (sections isalnum pydantic).Stable := by
  have hversion : (versionOne pydantic).Stable := Schema.stable_of_isFlat _ rfl
  have hserver : (serverConfig pydantic).Stable := stable_of_flat rfl rfl
  have hupstreams : (Schema.prepared defaultTransport
      (Schema.sequence (upstream isalnum pydantic))).Stable :=
    ⟨upstream_stable, defaultTransport_fill⟩
  have haudit : (auditConfig pydantic).Stable := stable_of_flat rfl rfl
  exact ⟨hversion, hserver, hupstreams, policyConfig_stable, approvalConfig_stable, haudit,
    trivial⟩

theorem command_given : minLength "command" "server" = .ok () := by decide

/-- An upstream of that name, launched by a command. -/
def asCommand (upstream : UpstreamBase isalnum) : Upstream isalnum :=
  .stdio
    { upstream with
      command := "server"
      args := []
      env := []
      cwd := none
      command_nonempty := command_given }

theorem base_asCommand (upstreams : List (UpstreamBase isalnum)) :
    (upstreams.map asCommand).map Upstream.base = upstreams := by
  rw [List.map_map]
  exact List.map_id upstreams

/-- A file for a deployment. -/
def fileOf (deployment : Deployment isalnum) : GatekeeperFile isalnum where
  server := defaultServer
  upstreams := deployment.config.upstreams.map asCommand
  policy := deployment.config.policy
  approvals :=
    { mode := deployment.approvals.mode
      timeoutSeconds := deployment.approvals.timeoutSeconds
      onTimeout := deployment.approvals.onTimeout
      ui := { defaultUi with baseUrl := deployment.approvals.uiBaseUrl }
      accepted := deployment.approvals.accepted }
  audit :=
    { database := defaultAudit.database
      redact := deployment.audit.redact
      enabled := deployment.audit.enabled }
  accepted := by
    change validateUpstreams isalnum ((deployment.config.upstreams.map asCommand).map _) _ = _
    rw [base_asCommand]
    exact deployment.config.accepted

theorem deployment_fileOf (deployment : Deployment isalnum) :
    (fileOf deployment).deployment = deployment := by
  obtain ⟨⟨upstreams, policy, accepted⟩, approvals, audit⟩ := deployment
  simp only [GatekeeperFile.deployment, fileOf, base_asCommand]

/-- One upstream and nothing else, down to the transport. -/
def upstreamOnly : YamlDoc :=
  .mapping [(.text "upstreams",
    .sequence [.mapping [(.text "name", textDoc "fs"), (.text "command", textDoc "server")]])]

def fileKeys : List String :=
  ["version", "server", "upstreams", "policy", "approvals", "audit"]

def serverKeys : List String :=
  ["name", "version", "instructions"]

def policyKeys : List String :=
  ["default", "default_reason", "rules"]

def approvalsKeys : List String :=
  ["mode", "timeout_seconds", "on_timeout", "ui"]

def auditKeys : List String :=
  ["database", "redact", "enabled"]

def sectionKeys : List (String × List String) :=
  [("server", serverKeys), ("policy", policyKeys), ("approvals", approvalsKeys),
    ("audit", auditKeys)]

def stdioKeys : List String :=
  ["name", "transport", "command", "args", "env", "cwd"]

def httpKeys : List String :=
  ["name", "transport", "url", "headers"]

def upstreamKeys : List (String × List String) :=
  [("stdio", stdioKeys), ("http", httpKeys)]

def ruleKeys : List String :=
  ["tool", "action", "when", "reason", "upstream"]

def whenKeys : List String :=
  ["args", "read_only_hint", "destructive_hint", "idempotent_hint", "open_world_hint"]

/-- The transport of an upstream, where it is left out `stdio`. -/
def transportOf (entries : Entries Plain) : YamlDoc :=
  (find "transport" entries).getD (textDoc "stdio")

def atKeys (keys : List String) : List (PathPart Plain) :=
  keys.map fun key => .key (.text key)

/-- A key that is none of the section's. -/
def Stray (keys : List String) (entries : Entries Plain) (key : String) : Prop :=
  key ∉ keys ∧ ∃ doc, (.text key, doc) ∈ entries

/-- A rule of the policy section of a file. -/
def RuleAt (entries : Entries Plain) (i : Nat) (rule : Entries Plain) : Prop :=
  ∃ policy rules, find "policy" entries = some (.mapping policy) ∧
    find "rules" policy = some (.sequence rules) ∧ rules[i]? = some (.mapping rule)

/-- A key of a file, at any level of it, that is none of those of the section it is in. -/
inductive Misspelt (entries : Entries Plain) : List (PathPart Plain) → Prop
  | file {key : String} (h : Stray fileKeys entries key) : Misspelt entries (atKeys [key])
  | inSection {name key : String} {keys : List String} {inner : Entries Plain}
      (hkeys : (name, keys) ∈ sectionKeys) (hfind : find name entries = some (.mapping inner))
      (h : Stray keys inner key) : Misspelt entries (atKeys [name, key])
  | ui {key : String} {approvals inner : Entries Plain}
      (happrovals : find "approvals" entries = some (.mapping approvals))
      (hfind : find "ui" approvals = some (.mapping inner))
      (h : Stray ["host", "port", "base_url"] inner key) :
      Misspelt entries (atKeys ["approvals", "ui", key])
  | upstream {transport key : String} {keys : List String} {items : List YamlDoc} {i : Nat}
      {inner : Entries Plain} (hkeys : (transport, keys) ∈ upstreamKeys)
      (hfind : find "upstreams" entries = some (.sequence items))
      (hitem : items[i]? = some (.mapping inner))
      (htransport : transportOf inner = textDoc transport) (h : Stray keys inner key) :
      Misspelt entries (atKeys ["upstreams"] ++ .index i :: atKeys [transport, key])
  | rule {key : String} {i : Nat} {rule : Entries Plain} (hrule : RuleAt entries i rule)
      (h : Stray ruleKeys rule key) :
      Misspelt entries (atKeys ["policy", "rules"] ++ .index i :: atKeys [key])
  | when {key : String} {i : Nat} {rule inner : Entries Plain} (hrule : RuleAt entries i rule)
      (hfind : find "when" rule = some (.mapping inner)) (h : Stray whenKeys inner key) :
      Misspelt entries (atKeys ["policy", "rules"] ++ .index i :: atKeys ["when", key])

theorem fault_of_stray {ρ γ : Type} {record : FileSchema ρ} {make : γ}
    {fields : Fields Plain Refusal ρ γ} (hrecord : record = .model make fields)
    {keys : List String} (hkeys : fields.names = keys) {entries : Entries Plain} {key : String}
    (h : Stray keys entries key) :
    record.Fault (.mapping entries) ⟨atKeys [key], .extraForbidden⟩ := by
  obtain ⟨hkey, doc, hentry⟩ := h
  rw [← hkeys] at hkey
  exact fault_extra hrecord hentry hkey

theorem fillTransport_given (entries : Entries Plain) :
    ∃ filled, fillTransport (.mapping entries) = .mapping filled ∧
      find "transport" filled = some (transportOf entries) ∧
      ∀ keys key, "transport" ∈ keys → (Stray keys filled key ↔ Stray keys entries key) := by
  rw [fillTransport, transportOf]
  split
  · rename_i hsome
    obtain ⟨doc, hdoc⟩ := Option.isSome_iff_exists.mp hsome
    refine ⟨entries, rfl, ?_, fun _ _ _ => .rfl⟩
    rw [hdoc]
    rfl
  · rename_i hsome
    refine ⟨_, rfl, ?_, ?_⟩
    · rw [find_cons, if_pos rfl, Option.not_isSome_iff_eq_none.mp hsome]
      rfl
    · rintro keys key htransport
      refine and_congr_right fun hkey => exists_congr fun doc => ?_
      rw [List.mem_cons, or_iff_right]
      rintro h
      cases h
      exact hkey htransport

theorem mem_upstreamKeys {transport : String} {keys : List String} :
    (transport, keys) ∈ upstreamKeys ↔
      transport = "stdio" ∧ keys = stdioKeys ∨ transport = "http" ∧ keys = httpKeys := by
  simp [upstreamKeys]

theorem stdio_mem : ("stdio", stdioKeys) ∈ upstreamKeys :=
  mem_upstreamKeys.mpr (.inl ⟨rfl, rfl⟩)

theorem http_mem : ("http", httpKeys) ∈ upstreamKeys :=
  mem_upstreamKeys.mpr (.inr ⟨rfl, rfl⟩)

theorem transport_mem {transport : String} {keys : List String}
    (hkeys : (transport, keys) ∈ upstreamKeys) : "transport" ∈ keys := by
  obtain ⟨-, rfl⟩ | ⟨-, rfl⟩ := mem_upstreamKeys.mp hkeys
  · simp [stdioKeys]
  · simp [httpKeys]

theorem upstream_fault {transport key : String} {keys : List String} {inner : Entries Plain}
    (hkeys : (transport, keys) ∈ upstreamKeys)
    (htransport : transportOf inner = textDoc transport) (h : Stray keys inner key) :
    (upstream isalnum pydantic).Fault (fillTransport (.mapping inner))
      ⟨atKeys [transport, key], .extraForbidden⟩ := by
  obtain ⟨filled, hfilled, hfind, hgiven⟩ := fillTransport_given inner
  have hstray := (hgiven keys key (transport_mem hkeys)).mpr h
  rw [hfilled]
  refine .inside rfl (.chosen (hfind.trans (congrArg some htransport)) ?_)
  obtain ⟨rfl, rfl⟩ | ⟨rfl, rfl⟩ := mem_upstreamKeys.mp hkeys
  · have hfault : (stdioUpstream isalnum pydantic).Fault (.mapping filled)
        ⟨atKeys [key], .extraForbidden⟩ := fault_of_stray rfl rfl hstray
    exact .chosen hfault
  · have hfault : (httpUpstream isalnum pydantic).Fault (.mapping filled)
        ⟨atKeys [key], .extraForbidden⟩ := fault_of_stray rfl rfl hstray
    exact .rest (by decide) (.chosen hfault)

theorem rule_fault {entries rule : Entries Plain} {i : Nat} {place : List (PathPart Plain)}
    {complaint : Complaint Plain Refusal} (hrule : RuleAt entries i rule)
    (hfault : (ruleConfig pydantic).Fault (.mapping rule) ⟨place, complaint⟩) :
    (sections isalnum pydantic).Fault (.mapping entries)
      ⟨atKeys ["policy", "rules"] ++ .index i :: place, complaint⟩ := by
  obtain ⟨policy, rules, hpolicy, hrules, hitem⟩ := hrule
  refine fault_inside rfl (.there (.there (.there .here))) hpolicy ?_
  exact fault_inside rfl (.there (.there .here)) hrules (fault_item hitem hfault)

theorem misspelt_fault {entries : Entries Plain} {place : List (PathPart Plain)}
    (h : Misspelt entries place) :
    (sections isalnum pydantic).Fault (.mapping entries) ⟨place, .extraForbidden⟩ := by
  cases h with
  | file h => exact fault_of_stray rfl rfl h
  | inSection hkeys hfind h =>
      simp only [sectionKeys, List.mem_cons, Prod.mk.injEq, List.not_mem_nil, or_false] at hkeys
      obtain ⟨rfl, rfl⟩ | ⟨rfl, rfl⟩ | ⟨rfl, rfl⟩ | ⟨rfl, rfl⟩ := hkeys
      · exact fault_inside rfl (.there .here) hfind (fault_of_stray rfl rfl h)
      · exact fault_inside rfl (.there (.there (.there .here))) hfind (fault_of_stray rfl rfl h)
      · exact fault_inside rfl (.there (.there (.there (.there .here)))) hfind
          (fault_of_stray rfl rfl h)
      · exact fault_inside rfl (.there (.there (.there (.there (.there .here))))) hfind
          (fault_of_stray rfl rfl h)
  | ui happrovals hfind h =>
      refine fault_inside rfl (.there (.there (.there (.there .here)))) happrovals ?_
      exact fault_inside rfl (.there (.there (.there .here))) hfind (fault_of_stray rfl rfl h)
  | upstream hkeys hfind hitem htransport h =>
      refine fault_inside rfl (.there (.there .here)) hfind ?_
      refine fault_item ?_ (upstream_fault hkeys htransport h)
      rw [List.getElem?_map, hitem]
      rfl
  | rule hrule h => exact rule_fault hrule (fault_of_stray rfl rfl h)
  | when hrule hfind h =>
      refine rule_fault hrule (fault_inside rfl (.there (.there .here)) hfind ?_)
      exact .inner (by rintro ⟨⟩) (fault_of_stray rfl rfl h)

theorem stray_of_fault {ρ γ : Type} {record : FileSchema ρ} {make : γ}
    {fields : Fields Plain Refusal ρ γ} {doc : YamlDoc} {place : List (PathPart Plain)}
    (h : record.Fault doc ⟨place, .extraForbidden⟩) (hrecord : record = .model make fields)
    {keys : List String} (hkeys : fields.names = keys) (hflat : fields.isFlat = true) :
    ∃ entries key, doc = .mapping entries ∧ place = atKeys [key] ∧ Stray keys entries key := by
  obtain ⟨entries, rfl, hfields | ⟨key, doc, rfl, hkey, hentry⟩⟩ := extra_cases hrecord h
  · exact absurd hfields (fields.not_extra hflat)
  · rw [hkeys] at hkey
    exact ⟨entries, key, rfl, rfl, hkey, doc, hentry⟩

theorem server_mem : ("server", serverKeys) ∈ sectionKeys := List.mem_cons_self

theorem policy_mem : ("policy", policyKeys) ∈ sectionKeys :=
  List.mem_cons_of_mem _ List.mem_cons_self

theorem approvals_mem : ("approvals", approvalsKeys) ∈ sectionKeys :=
  List.mem_cons_of_mem _ (List.mem_cons_of_mem _ List.mem_cons_self)

theorem audit_mem : ("audit", auditKeys) ∈ sectionKeys :=
  List.mem_cons_of_mem _ (List.mem_cons_of_mem _ (List.mem_cons_of_mem _ List.mem_cons_self))

theorem stray_of_chosen {ρ γ : Type} {record : FileSchema ρ} {make : γ}
    {fields : Fields Plain Refusal ρ γ} {given filled : Entries Plain}
    {place : List (PathPart Plain)}
    (h : record.Fault (.mapping filled) ⟨place, .extraForbidden⟩)
    (hrecord : record = .model make fields) {keys : List String} (hkeys : fields.names = keys)
    (hflat : fields.isFlat = true) (hgiven : ∀ key, Stray keys filled key ↔ Stray keys given key) :
    ∃ key, place = atKeys [key] ∧ Stray keys given key := by
  obtain ⟨_, key, hentries, rfl, hstray⟩ := stray_of_fault h hrecord hkeys hflat
  obtain rfl := Doc.mapping.inj hentries
  exact ⟨key, rfl, (hgiven key).mp hstray⟩

theorem stray_of_upstream_fault {item : YamlDoc} {place : List (PathPart Plain)}
    (h : (upstream isalnum pydantic).Fault (fillTransport item) ⟨place, .extraForbidden⟩) :
    ∃ transport keys inner key, item = .mapping inner ∧ (transport, keys) ∈ upstreamKeys ∧
      transportOf inner = textDoc transport ∧ place = atKeys [transport, key] ∧
      Stray keys inner key := by
  cases item with
  | scalar value =>
      obtain _ | ⟨hshape, h⟩ := h
      cases hshape
  | sequence items =>
      obtain _ | ⟨hshape, h⟩ := h
      cases hshape
  | mapping inner =>
      obtain ⟨filled, hfilled, hfind, hgiven⟩ := fillTransport_given inner
      rw [hfilled] at h
      obtain ⟨entries, transport, hentries, hfound, hchoices⟩ := tagged_cases h
      obtain rfl := Doc.mapping.inj hentries
      have htransport := Option.some.inj (hfind.symm.trans hfound)
      obtain ⟨rfl, place, rfl, hstdio⟩ | hchoices := choice_cases hchoices
      · obtain ⟨key, rfl, hstray⟩ := stray_of_chosen hstdio rfl rfl
          rfl
          fun key => hgiven stdioKeys key (transport_mem stdio_mem)
        exact ⟨_, _, inner, key, rfl, stdio_mem, htransport, rfl, hstray⟩
      · obtain ⟨rfl, place, rfl, hhttp⟩ | hnone := choice_cases hchoices
        · obtain ⟨key, rfl, hstray⟩ := stray_of_chosen hhttp rfl rfl
            rfl
            fun key => hgiven httpKeys key (transport_mem http_mem)
          exact ⟨_, _, inner, key, rfl, http_mem, htransport, rfl, hstray⟩
        · cases hnone

theorem upstreams_cases {doc : YamlDoc} {place : List (PathPart Plain)}
    (h : (Schema.prepared defaultTransport
      (Schema.sequence (upstream isalnum pydantic))).Fault doc ⟨place, .extraForbidden⟩) :
    ∃ items i inner, doc = .sequence items ∧ ∃ item, items[i]? = some item ∧
      place = .index i :: inner ∧
      (upstream isalnum pydantic).Fault (fillTransport item) ⟨inner, .extraForbidden⟩ := by
  obtain ⟨filled, i, item, inner, hdoc, hitem, rfl, hfault⟩ := sequence_cases h
  cases doc with
  | sequence items =>
      obtain rfl : items.map fillTransport = filled := Doc.sequence.inj hdoc
      rw [List.getElem?_map, Option.map_eq_some_iff] at hitem
      obtain ⟨given, hgiven, rfl⟩ := hitem
      exact ⟨items, i, inner, rfl, given, hgiven, rfl, hfault⟩
  | scalar value => cases hdoc
  | mapping entries => cases hdoc

theorem stray_of_rule_fault {doc : YamlDoc} {place : List (PathPart Plain)}
    (h : (ruleConfig pydantic).Fault doc ⟨place, .extraForbidden⟩) :
    ∃ rule, doc = .mapping rule ∧
      ((∃ key, place = atKeys [key] ∧ Stray ruleKeys rule key) ∨
        ∃ inner key, find "when" rule = some (.mapping inner) ∧
          place = atKeys ["when", key] ∧ Stray whenKeys inner key) := by
  obtain ⟨rule, rfl, h | ⟨key, doc, rfl, hkey, hentry⟩⟩ := extra_cases rfl h
  · refine ⟨rule, rfl, .inr ?_⟩
    obtain ⟨doc, inner, hfind, rfl, -, hwhen⟩ | h :=
      field_cases (field_flat (field_flat h rfl) rfl)
    · obtain ⟨entries, key, rfl, rfl, hstray⟩ := stray_of_fault hwhen rfl rfl
        rfl
      exact ⟨entries, key, hfind, rfl, hstray⟩
    · exact (field_flat (field_flat h rfl) rfl).elim
  · exact ⟨rule, rfl, .inl ⟨key, rfl, hkey, doc, hentry⟩⟩

section Sections

variable {entries : Entries Plain} {place : List (PathPart Plain)}

theorem misspelt_of_section_fault {ρ γ : Type} {record : FileSchema ρ} {make : γ}
    {fields : Fields Plain Refusal ρ γ} {name : String} {doc : YamlDoc}
    (hfind : find name entries = some doc)
    (h : record.Fault doc ⟨place, .extraForbidden⟩) (hrecord : record = .model make fields)
    (hkeys : (name, fields.names) ∈ sectionKeys) (hflat : fields.isFlat = true) :
    Misspelt entries (.key (.text name) :: place) := by
  obtain ⟨inner, key, rfl, rfl, hstray⟩ := stray_of_fault h hrecord rfl hflat
  exact .inSection hkeys hfind hstray

theorem misspelt_of_upstreams_fault {doc : YamlDoc} (hfind : find "upstreams" entries = some doc)
    (h : (Schema.prepared defaultTransport
      (Schema.sequence (upstream isalnum pydantic))).Fault doc ⟨place, .extraForbidden⟩) :
    Misspelt entries (.key (.text "upstreams") :: place) := by
  obtain ⟨items, i, inner, rfl, item, hitem, rfl, hupstream⟩ := upstreams_cases h
  obtain ⟨transport, keys, given, key, rfl, hkeys, htransport, rfl, hstray⟩ :=
    stray_of_upstream_fault hupstream
  exact .upstream hkeys hfind hitem htransport hstray

theorem misspelt_of_policy_fault {doc : YamlDoc} (hpolicy : find "policy" entries = some doc)
    (h : (policyConfig pydantic).Fault doc ⟨place, .extraForbidden⟩) :
    Misspelt entries (.key (.text "policy") :: place) := by
  obtain ⟨policy, rfl, hrules | ⟨key, doc, rfl, hkey, hentry⟩⟩ := extra_cases rfl h
  · obtain ⟨doc, _, hfind, rfl, hsequence⟩ | hnone :=
      field_cases (field_flat (field_flat hrules rfl) rfl)
    · obtain ⟨rules, i, item, _, rfl, hitem, rfl, hrule⟩ := sequence_cases hsequence
      have hat : ∀ rule, item = .mapping rule → RuleAt entries i rule := by
        rintro rule rfl
        exact ⟨policy, rules, hpolicy, hfind, hitem⟩
      obtain ⟨rule, hmapping, ⟨key, rfl, hstray⟩ | ⟨inner, key, hwhen, rfl, hstray⟩⟩ :=
        stray_of_rule_fault hrule
      · exact .rule (hat rule hmapping) hstray
      · exact .when (hat rule hmapping) hwhen hstray
    · cases hnone
  · exact .inSection policy_mem hpolicy ⟨hkey, doc, hentry⟩

theorem misspelt_of_approvals_fault {doc : YamlDoc}
    (happrovals : find "approvals" entries = some doc)
    (h : (approvalConfig pydantic).Fault doc ⟨place, .extraForbidden⟩) :
    Misspelt entries (.key (.text "approvals") :: place) := by
  obtain ⟨approvals, rfl, hui | ⟨key, doc, rfl, hkey, hentry⟩⟩ := extra_cases rfl h
  · obtain ⟨doc, _, hfind, rfl, hinside⟩ | hnone := field_cases
      (field_flat (field_flat (field_flat hui rfl) rfl) rfl)
    · obtain ⟨inner, key, rfl, rfl, hstray⟩ := stray_of_fault hinside rfl rfl
        rfl
      exact .ui happrovals hfind hstray
    · cases hnone
  · exact .inSection approvals_mem happrovals ⟨hkey, doc, hentry⟩

theorem fault_misspelt
    (h : (sections isalnum pydantic).Fault (.mapping entries) ⟨place, .extraForbidden⟩) :
    Misspelt entries place := by
  obtain ⟨_, hentries, h | ⟨key, doc, rfl, hkey, hentry⟩⟩ := extra_cases rfl h
  · obtain rfl := Doc.mapping.inj hentries
    obtain ⟨doc, _, hserver, rfl, hin⟩ | h := field_cases (field_flat h rfl)
    · exact misspelt_of_section_fault hserver hin rfl server_mem
        rfl
    obtain ⟨doc, _, hupstreams, rfl, hin⟩ | h := field_cases h
    · exact misspelt_of_upstreams_fault hupstreams hin
    obtain ⟨doc, _, hpolicy, rfl, hin⟩ | h := field_cases h
    · exact misspelt_of_policy_fault hpolicy hin
    obtain ⟨doc, _, happrovals, rfl, hin⟩ | h := field_cases h
    · exact misspelt_of_approvals_fault happrovals hin
    obtain ⟨doc, _, haudit, rfl, hin⟩ | h := field_cases h
    · exact misspelt_of_section_fault haudit hin rfl audit_mem
        rfl
    cases h
  · obtain rfl := Doc.mapping.inj hentries
    exact .file ⟨hkey, doc, hentry⟩

end Sections

/-- What the validator has to say about a file. -/
def errors (isalnum : Char → Bool) (pydantic : Pydantic) (entries : Entries Plain) :
    List (Line Plain Refusal) :=
  (pydantic.validator.validate (gatekeeperConfig isalnum pydantic) (.mapping entries)).report

/-- A key misspelt in the policy, and a version that is not an integer. -/
def acton : Entries Plain :=
  [(.text "version", plainDoc (.number (.finite 1))),
    (.text "policy", .mapping [(.text "acton", textDoc "deny")])]

end McpGatekeeper.ConfigReading
