import McpGatekeeper.Replies

/-!
The handlers of the MCP server: what a request says of its client, and the call of the
gateway made of it.

`validate` is `ClientCapabilities.model_validate`, and `str` the text Python makes of a value.
-/

namespace McpGatekeeper.Server

open Interleaving
open McpGatekeeper.Gateway
open McpGatekeeper.JsonValues
open McpGatekeeper.Narrative
open McpGatekeeper.Operations
open McpGatekeeper.PolicyEngine
open McpGatekeeper.Replies
open McpGatekeeper.Scenarios
open McpGatekeeper.System

structure ElicitationCapability where
  url : Option JsonObject := none

structure ClientCapabilities where
  elicitation : Option ElicitationCapability := none

structure Implementation where
  name : String
  version : String

/-- `_meta`, raw or parsed. -/
inductive Meta
  | absent
  | mapping (fields : JsonObject)
  | parsed (capabilities : Option ClientCapabilities) (info : Option Implementation)

def clientCapabilitiesKey : String := "io.modelcontextprotocol/clientCapabilities"

def clientInfoKey : String := "io.modelcontextprotocol/clientInfo"

/-- A value as the transport left it. -/
inductive Raw (Model : Type)
  | json (value : Json)
  | model (value : Model)

/-- `_meta_value`; a JSON null counts as missing. -/
def metaValue {Model : Type} (key : String) (parsed : Option Model) :
    Meta → Option (Raw Model)
  | .absent => none
  | .mapping fields =>
      match fields.lookup key with
      | none => none
      | some .null => none
      | some value => some (.json value)
  | .parsed _ _ => parsed.map .model

def Meta.capabilities : Meta → Option ClientCapabilities
  | .parsed capabilities _ => capabilities
  | _ => none

def Meta.info : Meta → Option Implementation
  | .parsed _ info => info
  | _ => none

def offersUrl (capabilities : ClientCapabilities) : Bool :=
  capabilities.elicitation.any fun elicitation => elicitation.url.isSome

/-- The truth of a value: `if not name` -/
def truthy : Json → Bool
  | .null => false
  | .bool value => value
  | .int value => value != 0
  | .float repr => repr != "0.0" && repr != "-0.0"
  | .str value => value != ""
  | .arr items => !items.isEmpty
  | .obj fields => !fields.isEmpty

section Handlers

variable (validate : JsonObject → Option ClientCapabilities) (str : Json → String)

/-- Anything but a mapping or a model has no capabilities. -/
def supportsUrlElicitation (data : Meta) : Bool :=
  match metaValue clientCapabilitiesKey data.capabilities data with
  | none => false
  | some (.json (.obj fields)) => (validate fields).any offersUrl
  | some (.json _) => false
  | some (.model capabilities) => offersUrl capabilities

/-- `f"{name} {version}" if version else str(name)` -/
def display (name version : Json) : Option String :=
  if truthy name then
    some (if truthy version then str name ++ " " ++ str version else str name)
  else none

def clientName (data : Meta) : Option String :=
  match metaValue clientInfoKey data.info data with
  | none => none
  | some (.json (.obj fields)) =>
      display str ((fields.lookup "name").getD .null) ((fields.lookup "version").getD .null)
  | some (.json _) => none
  | some (.model info) => display str (.str info.name) (.str info.version)

structure CallToolRequestParams where
  name : String
  arguments : Option JsonObject := none
  requestState : Option String := none
  inputResponses : Option JsonObject := none

def invocationOf (data : Meta) (params : CallToolRequestParams) : Invocation where
  name := params.name
  arguments := params.arguments
  clientName := clientName str data
  supportsUrlElicitation := supportsUrlElicitation validate data
  requestState := params.requestState
  inputResponses := params.inputResponses

/-- `on_call_tool` -/
def onCallTool (data : Meta) (params : CallToolRequestParams) (polls : Nat) : Entry :=
  .callTool (invocationOf validate str data params) polls

/-- The client says of itself that it can follow links. -/
inductive Advertises : Meta → Prop
  | mapping (fields stated : JsonObject) (capabilities : ClientCapabilities)
      (elicitation : ElicitationCapability) (url : JsonObject)
      (hstated : fields.lookup clientCapabilitiesKey = some (.obj stated))
      (hvalid : validate stated = some capabilities)
      (helicitation : capabilities.elicitation = some elicitation)
      (hurl : elicitation.url = some url) :
      Advertises (.mapping fields)
  | parsed (capabilities : ClientCapabilities) (elicitation : ElicitationCapability)
      (url : JsonObject) (info : Option Implementation)
      (helicitation : capabilities.elicitation = some elicitation)
      (hurl : elicitation.url = some url) :
      Advertises (.parsed (some capabilities) info)

end Handlers

section Links

variable {validate : JsonObject → Option ClientCapabilities} {str : Json → String}

theorem offersUrl_iff {capabilities : ClientCapabilities} :
    offersUrl capabilities = true ↔ ∃ elicitation url,
      capabilities.elicitation = some elicitation ∧ elicitation.url = some url := by
  rw [offersUrl, Option.any_eq_true]
  constructor
  · rintro ⟨elicitation, helicitation, hurl⟩
    obtain ⟨url, hurl⟩ := Option.isSome_iff_exists.mp hurl
    exact ⟨elicitation, url, helicitation, hurl⟩
  · rintro ⟨elicitation, url, helicitation, hurl⟩
    exact ⟨elicitation, helicitation, by rw [hurl]; rfl⟩

theorem supportsUrlElicitation_iff {data : Meta} :
    supportsUrlElicitation validate data = true ↔ Advertises validate data := by
  constructor
  · intro h
    cases data with
    | absent => cases h
    | mapping fields =>
        rw [supportsUrlElicitation, metaValue] at h
        cases hstated : fields.lookup clientCapabilitiesKey with
        | none =>
            rw [hstated] at h
            cases h
        | some value =>
            rw [hstated] at h
            cases value with
            | obj stated =>
                obtain ⟨capabilities, hvalid, hoffers⟩ := Option.any_eq_true _ _ |>.mp h
                obtain ⟨elicitation, url, helicitation, hurl⟩ := offersUrl_iff.mp hoffers
                exact .mapping fields stated capabilities elicitation url hstated hvalid
                  helicitation hurl
            | null | bool | int | float | str | arr => cases h
    | parsed capabilities info =>
        cases capabilities with
        | none => cases h
        | some capabilities =>
            obtain ⟨elicitation, url, helicitation, hurl⟩ := offersUrl_iff.mp h
            exact .parsed capabilities elicitation url info helicitation hurl
  · rintro (⟨fields, stated, capabilities, elicitation, url, hstated, hvalid, helicitation, hurl⟩ |
      ⟨capabilities, elicitation, url, info, helicitation, hurl⟩)
    · rw [supportsUrlElicitation, metaValue, hstated]
      refine Option.any_eq_true _ _ |>.mpr ⟨capabilities, hvalid, ?_⟩
      exact offersUrl_iff.mpr ⟨elicitation, url, helicitation, hurl⟩
    · exact offersUrl_iff.mpr ⟨elicitation, url, helicitation, hurl⟩

variable {deps : GatewayDeps} {A : GateAssumption} {world : World} {c : GateConfig}

/-- Unless the file forces it, nobody is sent a link who has not said that links can be
followed; and in `block` mode nobody is. -/
theorem links_advertised (hreach : (machine deps).Reaches A (Config.initial world) c) {i : Nat}
    {data : Meta} {params : CallToolRequestParams} {polls : Nat} {result : InputRequiredResult}
    (htask : c.tasks[i]? = some ⟨onCallTool validate str data params polls,
      .ret (.call (.inputRequired result))⟩) :
    deps.approvalMode = .elicit ∨
      deps.approvalMode = .auto ∧ Advertises validate data := by
  have hagrees : Agrees deps (invocationOf validate str data params)
      (journal i c.state.history) (.inputRequired result) :=
    hreach.of_return (code_agrees deps) htask
  cases hagrees with
  | asked message request event _ _ _ _ _ _ _ _ helicits =>
      rw [useElicitation] at helicits
      cases hmode : deps.approvalMode with
      | elicit => exact .inl rfl
      | block =>
          rw [hmode] at helicits
          cases helicits
      | auto =>
          rw [hmode] at helicits
          exact .inr ⟨rfl, supportsUrlElicitation_iff.mp helicits⟩

end Links

/-- The capabilities of a client that can follow links. -/
def followingLinks : ClientCapabilities := { elicitation := some { url := some [] } }

def following : Meta :=
  .mapping [(clientCapabilitiesKey, .obj [("elicitation", .obj [("url", .obj [])])])]

def writing : Entry :=
  onCallTool (fun _ => some followingLinks) (fun _ => "") following { name := "fs__write" } 0

theorem links_advertised_asking :
    ∃ c result,
      (machine Scenarios.deps).run .none (Config.initial office)
        (.start writing :: asking.tail) = some c ∧
      c.tasks[0]? = some ⟨writing, .ret (.call (.inputRequired result))⟩ ∧
      (Scenarios.deps.approvalMode = .elicit ∨ Scenarios.deps.approvalMode = .auto ∧
        Advertises (fun _ => some followingLinks) following) := by
  obtain ⟨c, result, hrun, htask⟩ : ∃ c result,
      (machine Scenarios.deps).run .none (Config.initial office)
        (.start writing :: asking.tail) = some c ∧
      c.tasks[0]? = some ⟨writing, .ret (.call (.inputRequired result))⟩ := ⟨_, _, rfl, rfl⟩
  exact ⟨c, result, hrun, htask, links_advertised (Machine.reaches_of_run hrun) htask⟩

end McpGatekeeper.Server
