import McpGatekeeper.Documents.Defaults
import McpGatekeeper.Documents.Faults
import McpGatekeeper.Export
import McpGatekeeper.Sessions

/-!
The whole of `gatekeeper.yaml`: its schema, the message about a file that does not follow
it, and the deployment that one which does stands for.

Pydantic is a parameter: how it validates a document under a schema, how it reads a single
value and how it words its complaints.
-/

namespace McpGatekeeper.ConfigFile

open Documents
open McpGatekeeper.Clock
open McpGatekeeper.Config
open McpGatekeeper.Export
open McpGatekeeper.Gateway
open McpGatekeeper.Operations
open McpGatekeeper.PolicyEngine
open McpGatekeeper.Sessions
open McpGatekeeper.Timeouts

inductive Number
  | finite (value : Rat)
  | infinity
  | negativeInfinity
  | nan
  deriving DecidableEq

/-- What `yaml.safe_load` makes of a scalar that is no text; `other` is a date or a time,
under the name of its type and as text. -/
inductive Plain
  | null
  | boolean (value : Bool)
  | integer (value : Int)
  | number (value : Number)
  | other (typeName : String) (text : String)
  deriving DecidableEq

/-- Why a value is refused: by its type, by a bound or by a validator. -/
inductive Refusal
  | type (message : String)
  | greaterThan (bound : Int)
  | greaterThanEqual (bound : Int)
  | lessThanEqual (bound : Int)
  | validation (error : ValidationError)

abbrev YamlDoc := Doc Plain

abbrev FileSchema := Schema Plain Refusal

def textDoc (value : String) : YamlDoc :=
  .scalar (.text value)

def plainDoc (value : Plain) : YamlDoc :=
  .scalar (.other value)

/-- What pydantic does. Of single values it is known that a text, a flag and a number are
read as themselves, a member of a `Literal` or an enumeration as the value that it is the
text of, and 1 as `Literal[1]`; what else it takes for one of them is left open. -/
structure Pydantic where
  validator : Validator Plain Refusal
  str : YamlDoc → Except String String
  bool : YamlDoc → Except String Bool
  int : YamlDoc → Except String Int
  float : YamlDoc → Except String Number
  literal {α : Type} (text : α → String) (values : List α) : YamlDoc → Except String α
  enum {α : Type} (text : α → String) (values : List α) : YamlDoc → Except String α
  literalOne : YamlDoc → Except String Unit
  str_text : ∀ value, str (textDoc value) = .ok value
  bool_boolean : ∀ value, bool (plainDoc (.boolean value)) = .ok value
  int_integer : ∀ value, int (plainDoc (.integer value)) = .ok value
  float_number : ∀ value, float (plainDoc (.number value)) = .ok value
  literal_text {α : Type} {text : α → String} {values : List α} {value : α}
    (h : values.find? (fun other => text other = text value) = some value) :
    literal text values (textDoc (text value)) = .ok value
  enum_text {α : Type} {text : α → String} {values : List α} {value : α}
    (h : values.find? (fun other => text other = text value) = some value) :
    enum text values (textDoc (text value)) = .ok value
  literalOne_one : literalOne (plainDoc (.integer 1)) = .ok ()
  msg : Complaint Plain Refusal → String
  keyText : Plain → String

section Sections

/-- The bound `min_length=1`. -/
def minLength (field value : String) : Except ValidationError Unit :=
  if value = "" then .error (.stringTooShort field) else .ok ()

/-- The `url` of `HttpUpstream`: its bound, then `_validate_url`. -/
def validateUrl (value : String) : Except ValidationError String :=
  if value = "" then .error (.stringTooShort "url")
  else if "http://".toList <+: value.toList ∨ "https://".toList <+: value.toList then .ok value
  else .error (.valueError ("upstream url " ++ quote value ++
    " must start with http:// or https://"))

variable (isalnum : Char → Bool)

structure StdioUpstream extends UpstreamBase isalnum where
  command : String
  args : List String
  env : List (String × String)
  cwd : Option String
  command_nonempty : minLength "command" command = .ok ()

structure HttpUpstream extends UpstreamBase isalnum where
  url : String
  headers : List (String × String)
  url_accepted : validateUrl url = .ok url

inductive Upstream
  | stdio (upstream : StdioUpstream isalnum)
  | http (upstream : HttpUpstream isalnum)

structure ApprovalUiConfig where
  host : String
  port : Int
  baseUrl : String
  port_range : 1 ≤ port ∧ port ≤ 65535

/-- `ApprovalConfig`, with the section for the UI. -/
structure ApprovalSection where
  mode : ApprovalMode
  timeoutSeconds : Seconds
  onTimeout : OnTimeout
  ui : ApprovalUiConfig
  accepted : gtZero timeoutSeconds = true

/-- `AuditConfig`, with the place of the database. -/
structure AuditSection where
  database : String
  redact : List String
  enabled : Bool

structure ServerConfig where
  name : String
  version : String
  instructions : Option String

/-- The sections of a file, each checked by itself. -/
structure Sections where
  server : ServerConfig
  upstreams : List (Upstream isalnum)
  policy : PolicyConfig
  approvals : ApprovalSection
  audit : AuditSection

variable {isalnum}

namespace Upstream

def base : Upstream isalnum → UpstreamBase isalnum
  | .stdio upstream => upstream.toUpstreamBase
  | .http upstream => upstream.toUpstreamBase

def stdio? : Upstream isalnum → Option (StdioUpstream isalnum)
  | .stdio upstream => some upstream
  | .http _ => none

def http? : Upstream isalnum → Option (HttpUpstream isalnum)
  | .stdio _ => none
  | .http upstream => some upstream

end Upstream

def Sections.validate (sections : Sections isalnum) : Except ValidationError Unit :=
  validateUpstreams isalnum (sections.upstreams.map Upstream.base) sections.policy

end Sections

/-- `GatekeeperConfig`, as the schema accepts it. -/
structure GatekeeperFile (isalnum : Char → Bool) extends Sections isalnum where
  accepted : toSections.validate = .ok ()

/-- What `_serve` is started with. -/
def GatekeeperFile.deployment {isalnum : Char → Bool} (file : GatekeeperFile isalnum) :
    Deployment isalnum where
  config :=
    { upstreams := file.upstreams.map Upstream.base
      policy := file.policy
      accepted := file.accepted }
  approvals :=
    { mode := file.approvals.mode
      timeoutSeconds := file.approvals.timeoutSeconds
      onTimeout := file.approvals.onTimeout
      uiBaseUrl := file.approvals.ui.baseUrl
      accepted := file.approvals.accepted }
  audit :=
    { redact := file.audit.redact
      enabled := file.audit.enabled }

def defaultPort : { port : Int // 1 ≤ port ∧ port ≤ 65535 } :=
  ⟨8765, by decide⟩

theorem default_positive : gtZero (.finite 300) = true := by decide

def defaultTimeout : { timeout : Seconds // gtZero timeout = true } :=
  ⟨.finite 300, default_positive⟩

def defaultUi : ApprovalUiConfig where
  host := "127.0.0.1"
  port := defaultPort.1
  baseUrl := "http://localhost:8765"
  port_range := defaultPort.2

def defaultApprovals : ApprovalSection where
  mode := .auto
  timeoutSeconds := defaultTimeout.1
  onTimeout := .deny
  ui := defaultUi
  accepted := defaultTimeout.2

def defaultAudit : AuditSection where
  database := "./gatekeeper.db"
  redact := []
  enabled := true

def defaultServer : ServerConfig where
  name := "mcp-gatekeeper"
  version := "0.1.0"
  instructions := none

def modeValue : ApprovalMode → String
  | .auto => "auto"
  | .elicit => "elicit"
  | .block => "block"

def onTimeoutValue : OnTimeout → String
  | .deny => "deny"
  | .allow => "allow"

/-- A value that a validator accepts. -/
abbrev Accepted {α β : Type} (validate : α → Except ValidationError β) (result : α → β) :=
  { value // validate value = .ok (result value) }

/-- A validator that returns nothing but the one result. -/
def Returns {α β : Type} (validate : α → Except ValidationError β) (result : α → β) : Prop :=
  ∀ value other, validate value = .ok other → other = result value

def accept {α β : Type} {validate : α → Except ValidationError β} {result : α → β}
    (hreturns : Returns validate result) (value : α) : Except Refusal (Accepted validate result) :=
  match h : validate value with
  | .ok other => .ok ⟨value, h.trans (congrArg _ (hreturns value other h))⟩
  | .error error => .error (.validation error)

/-- `Field(gt=0)` -/
def positive : Number → Except Refusal { timeout : Seconds // gtZero timeout = true }
  | .finite value =>
      if h : 0 < value then .ok ⟨.finite value, decide_eq_true h⟩ else .error (.greaterThan 0)
  | .infinity => .ok ⟨.infinity, rfl⟩
  | .negativeInfinity => .error (.greaterThan 0)
  | .nan => .error (.greaterThan 0)

/-- `Field(ge=1, le=65535)` -/
def portRange (value : Int) : Except Refusal { port : Int // 1 ≤ port ∧ port ≤ 65535 } :=
  if hge : value < 1 then .error (.greaterThanEqual 1)
  else if hle : 65535 < value then .error (.lessThanEqual 65535)
  else .ok ⟨value, Int.not_lt.mp hge, Int.not_lt.mp hle⟩

theorem returns_validateName (isalnum : Char → Bool) : Returns (validateName isalnum) id := by
  intro value other h
  rw [validateName] at h
  split at h
  · cases h
  · split at h
    · cases h
    · split at h
      · cases h
      · exact (Except.ok.inj h).symm

theorem returns_validateUrl : Returns validateUrl id := by
  intro value other h
  rw [validateUrl] at h
  split at h
  · cases h
  · split at h
    · exact (Except.ok.inj h).symm
    · cases h

theorem minLength_iff {field value : String} : minLength field value = .ok () ↔ value ≠ "" := by
  rw [minLength]
  split <;> simp_all

def GatekeeperFile.ofSections {isalnum : Char → Bool} (sections : Sections isalnum) :
    Except Refusal (GatekeeperFile isalnum) :=
  (@accept _ _ Sections.validate (fun _ => ()) (fun _ _ _ => rfl) sections).map fun accepted =>
    { toSections := accepted.1, accepted := accepted.2 }

def secondsNumber : Seconds → Number
  | .finite value => .finite value
  | .infinity => .infinity

def fillTransport : YamlDoc → YamlDoc
  | .mapping entries =>
      if (find "transport" entries).isSome then .mapping entries
      else .mapping ((.text "transport", textDoc "stdio") :: entries)
  | item => item

/-- `_default_transport` -/
def defaultTransport : YamlDoc → YamlDoc :=
  Doc.mapItems (List.map fillTransport)

section FileSchema

variable (isalnum : Char → Bool) (pydantic : Pydantic)

def single {α : Type} (read : YamlDoc → Except String α) (write : α → YamlDoc) :
    FileSchema α :=
  .leaf (fun doc => (read doc).mapError .type) write

def str : FileSchema String :=
  single pydantic.str textDoc

def bool : FileSchema Bool :=
  single pydantic.bool fun value => plainDoc (.boolean value)

def int : FileSchema Int :=
  single pydantic.int fun value => plainDoc (.integer value)

def float : FileSchema Number :=
  single pydantic.float fun value => plainDoc (.number value)

/-- `… | None` -/
def orNone {α : Type} (inner : FileSchema α) : FileSchema (Option α) :=
  .nullable .null inner

/-- `list[str]` -/
def strList : FileSchema (List String) :=
  .sequence (str pydantic)

/-- `dict[str, str]` -/
def strDict : FileSchema (List (String × String)) :=
  .dictionary (fun key => (pydantic.str (.scalar key)).mapError .type) (str pydantic)

/-- `Literal` of some texts. -/
def literal {α : Type} (text : α → String) (values : List α) : FileSchema α :=
  single (pydantic.literal text values) fun value => textDoc (text value)

/-- `Literal[1]` -/
def versionOne : FileSchema Unit :=
  single pydantic.literalOne fun _ => plainDoc (.integer 1)

def upstreamName : FileSchema (Accepted (validateName isalnum) id) :=
  .checked (str pydantic) (accept (returns_validateName isalnum)) Subtype.val

def nonempty (field : String) : FileSchema (Accepted (minLength field) fun _ => ()) :=
  .checked (str pydantic) (accept fun _ _ _ => rfl) Subtype.val

def upstreamUrl : FileSchema (Accepted validateUrl id) :=
  .checked (str pydantic) (accept returns_validateUrl) Subtype.val

def stdioUpstream : FileSchema (StdioUpstream isalnum) :=
  .model
    (fun name (_ : Unit) command args env cwd =>
      { name := name.1, accepted := name.2, command := command.1, args := args, env := env,
        cwd := cwd, command_nonempty := command.2 })
    (.field "name" (upstreamName isalnum pydantic) none (fun upstream =>
        ⟨upstream.name, upstream.accepted⟩) <|
      .field "transport" (literal pydantic (fun _ => "stdio") [()]) (some ()) (fun _ => ()) <|
      .field "command" (nonempty pydantic "command") none (fun upstream =>
        ⟨upstream.command, upstream.command_nonempty⟩) <|
      .field "args" (strList pydantic) (some []) (·.args) <|
      .field "env" (strDict pydantic) (some []) (·.env) <|
      .field "cwd" (orNone (str pydantic)) (some none) (·.cwd) .done)

def httpUpstream : FileSchema (HttpUpstream isalnum) :=
  .model
    (fun name (_ : Unit) url headers =>
      { name := name.1, accepted := name.2, url := url.1, headers := headers,
        url_accepted := url.2 })
    (.field "name" (upstreamName isalnum pydantic) none (fun upstream =>
        ⟨upstream.name, upstream.accepted⟩) <|
      .field "transport" (literal pydantic (fun _ => "http") [()]) none (fun _ => ()) <|
      .field "url" (upstreamUrl pydantic) none (fun upstream =>
        ⟨upstream.url, upstream.url_accepted⟩) <|
      .field "headers" (strDict pydantic) (some []) (·.headers) .done)

def upstream : FileSchema (Upstream isalnum) :=
  .tagged "transport"
    (.choice "stdio" (stdioUpstream isalnum pydantic) .stdio Upstream.stdio? <|
      .choice "http" (httpUpstream isalnum pydantic) .http Upstream.http? .none)

def whenConfig : FileSchema WhenConfig :=
  .model WhenConfig.mk
    (.field "args" (strDict pydantic) (some []) (·.args) <|
      .field "read_only_hint" (orNone (bool pydantic)) (some none) (·.readOnlyHint) <|
      .field "destructive_hint" (orNone (bool pydantic)) (some none) (·.destructiveHint) <|
      .field "idempotent_hint" (orNone (bool pydantic)) (some none) (·.idempotentHint) <|
      .field "open_world_hint" (orNone (bool pydantic)) (some none) (·.openWorldHint) .done)

def action : FileSchema Action :=
  single (pydantic.enum actionValue [.allow, .deny, .requireApproval]) fun value =>
    textDoc (actionValue value)

def ruleConfig : FileSchema RuleConfig :=
  .model
    (fun tool action when reason upstream =>
      { tool := tool.1, action := action, when := when, reason := reason,
        upstream := upstream, tool_nonempty := minLength_iff.mp tool.2 })
    (.field "tool" (nonempty pydantic "tool") none (fun rule =>
        ⟨rule.tool, minLength_iff.mpr rule.tool_nonempty⟩) <|
      .field "action" (action pydantic) none (·.action) <|
      .field "when" (orNone (whenConfig pydantic)) (some none) (·.when) <|
      .field "reason" (orNone (str pydantic)) (some none) (·.reason) <|
      .field "upstream" (orNone (str pydantic)) (some none) (·.upstream) .done)

def policyConfig : FileSchema PolicyConfig :=
  .model PolicyConfig.mk
    (.field "default" (action pydantic) (some .requireApproval) (·.default) <|
      .field "default_reason" (orNone (str pydantic)) (some none) (·.defaultReason) <|
      .field "rules" (.sequence (ruleConfig pydantic)) (some []) (·.rules) .done)

def approvalUiConfig : FileSchema ApprovalUiConfig :=
  .model
    (fun host port baseUrl =>
      { host := host, port := port.1, baseUrl := baseUrl, port_range := port.2 })
    (.field "host" (str pydantic) (some "127.0.0.1") (·.host) <|
      .field "port" (.checked (int pydantic) portRange Subtype.val) (some defaultPort)
        (fun ui => ⟨ui.port, ui.port_range⟩) <|
      .field "base_url" (str pydantic) (some "http://localhost:8765") (·.baseUrl) .done)

def approvalConfig : FileSchema ApprovalSection :=
  .model
    (fun mode timeout onTimeout ui =>
      { mode := mode, timeoutSeconds := timeout.1, onTimeout := onTimeout, ui := ui,
        accepted := timeout.2 })
    (.field "mode" (literal pydantic modeValue [.auto, .elicit, .block]) (some .auto)
        (·.mode) <|
      .field "timeout_seconds"
        (.checked (float pydantic) positive fun timeout => secondsNumber timeout.1)
        (some defaultTimeout) (fun approvals => ⟨approvals.timeoutSeconds, approvals.accepted⟩) <|
      .field "on_timeout" (literal pydantic onTimeoutValue [.deny, .allow]) (some .deny)
        (·.onTimeout) <|
      .field "ui" (approvalUiConfig pydantic) (some defaultUi) (·.ui) .done)

def auditConfig : FileSchema AuditSection :=
  .model AuditSection.mk
    (.field "database" (str pydantic) (some "./gatekeeper.db") (·.database) <|
      .field "redact" (strList pydantic) (some []) (·.redact) <|
      .field "enabled" (bool pydantic) (some true) (·.enabled) .done)

def serverConfig : FileSchema ServerConfig :=
  .model ServerConfig.mk
    (.field "name" (str pydantic) (some "mcp-gatekeeper") (·.name) <|
      .field "version" (str pydantic) (some "0.1.0") (·.version) <|
      .field "instructions" (orNone (str pydantic)) (some none) (·.instructions) .done)

def sections : FileSchema (Sections isalnum) :=
  .model (fun (_ : Unit) => Sections.mk)
    (.field "version" (versionOne pydantic) (some ()) (fun _ => ()) <|
      .field "server" (serverConfig pydantic) (some defaultServer) (·.server) <|
      .field "upstreams"
        (.prepared defaultTransport (.sequence (upstream isalnum pydantic))) (some [])
        (·.upstreams) <|
      .field "policy" (policyConfig pydantic) (some {}) (·.policy) <|
      .field "approvals" (approvalConfig pydantic) (some defaultApprovals) (·.approvals) <|
      .field "audit" (auditConfig pydantic) (some defaultAudit) (·.audit) .done)

def gatekeeperConfig : FileSchema (GatekeeperFile isalnum) :=
  .checked (sections isalnum pydantic) GatekeeperFile.ofSections GatekeeperFile.toSections

end FileSchema

section Loader

variable (isalnum : Char → Bool) (pydantic : Pydantic)

def partText : PathPart Plain → String
  | .key (.text name) => name
  | .key (.other key) => pydantic.keyText key
  | .index i => toString i

/-- `".".join(str(part) for part in item["loc"]) or "(root)"` -/
def location (parts : List (PathPart Plain)) : String :=
  let joined := String.intercalate "." (parts.map (partText pydantic))
  if joined = "" then "(root)" else joined

def lineText (line : Line Plain Refusal) : String :=
  "  - " ++ location pydantic line.location ++ ": " ++ pydantic.msg line.complaint

/-- `_format_validation_error` -/
def formatValidationError (errors : List (Line Plain Refusal)) (source : String) : String :=
  String.intercalate "\n" ((source ++ " is not valid:") :: errors.map (lineText pydantic))

/-- `type(data).__name__` -/
def typeName : YamlDoc → String
  | .scalar (.text _) => "str"
  | .scalar (.other .null) => "NoneType"
  | .scalar (.other (.boolean _)) => "bool"
  | .scalar (.other (.integer _)) => "int"
  | .scalar (.other (.number _)) => "float"
  | .scalar (.other (.other typeName _)) => typeName
  | .sequence _ => "list"
  | .mapping _ => "dict"

/-- What `parse_config` makes of a validated document, or of a `ValidationError`. -/
def reraise (source : String) :
    Verdict Plain Refusal (GatekeeperFile isalnum) → Except String (GatekeeperFile isalnum)
  | .ok file => .ok file
  | .refused first rest => .error (formatValidationError pydantic (first :: rest) source)

/-- `parse_config`; the error is the message of the `ConfigError`. -/
def parseConfig (data : YamlDoc) (source : String) : Except String (GatekeeperFile isalnum) :=
  match data with
  | .scalar (.other .null) => .error (source ++ " is empty")
  | .mapping entries =>
      reraise isalnum pydantic source
        (pydantic.validator.validate (gatekeeperConfig isalnum pydantic) (.mapping entries))
  | data => .error (source ++ " must be a YAML mapping, found " ++ typeName data)

inductive ReadError
  | fileNotFound
  | osError (error : String)

/-- `load_config`, on what reading the file and `yaml.safe_load` give. -/
def loadConfig (readText : Except ReadError String) (safeLoad : String → Except String YamlDoc)
    (path : String) : Except String (GatekeeperFile isalnum) :=
  match readText with
  | .error .fileNotFound => .error ("config file not found: " ++ path)
  | .error (.osError error) => .error ("could not read " ++ path ++ ": " ++ error)
  | .ok text =>
      match safeLoad text with
      | .error error => .error (path ++ " is not valid YAML: " ++ error)
      | .ok document => parseConfig isalnum pydantic document path

end Loader

def readText {α : Type} (text : α → String) (values : List α) : YamlDoc → Except String α
  | .scalar (.text found) =>
      (values.find? fun value => text value = found).elim (.error "Input should be expected") .ok
  | _ => .error "Input should be expected"

/-- Pydantic but for its conversions: single values are read as themselves, and what equals
1 is one. -/
def strict : Pydantic where
  validator := structural Plain Refusal
  str
    | .scalar (.text value) => .ok value
    | _ => .error "Input should be a valid string"
  bool
    | .scalar (.other (.boolean value)) => .ok value
    | _ => .error "Input should be a valid boolean"
  int
    | .scalar (.other (.integer value)) => .ok value
    | _ => .error "Input should be a valid integer"
  float
    | .scalar (.other (.number value)) => .ok value
    | _ => .error "Input should be a valid number"
  literal := readText
  enum := readText
  literalOne
    | .scalar (.other (.integer 1)) => .ok ()
    | .scalar (.other (.number (.finite 1))) => .ok ()
    | .scalar (.other (.boolean true)) => .ok ()
    | _ => .error "Input should be 1"
  str_text _ := rfl
  bool_boolean _ := rfl
  int_integer _ := rfl
  float_number _ := rfl
  literal_text h := by
    rw [textDoc, readText, h]
    rfl
  enum_text h := by
    rw [textDoc, readText, h]
    rfl
  literalOne_one := rfl
  msg
    | .extraForbidden => "Extra inputs are not permitted"
    | .missing => "Field required"
    | _ => "Input should be valid"
  keyText _ := "key"

example : parseConfig Char.isAlphanum strict
    (.mapping [(.text "policy", .mapping [(.text "acton", textDoc "deny")])]) "gatekeeper.yaml" =
      .error "gatekeeper.yaml is not valid:\n  - policy.acton: Extra inputs are not permitted" := by
  rfl

end McpGatekeeper.ConfigFile
