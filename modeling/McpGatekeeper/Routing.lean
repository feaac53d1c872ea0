import McpGatekeeper.Aggregation
import McpGatekeeper.Authorisation
import McpGatekeeper.Refresh

namespace McpGatekeeper.Routing

open Interleaving
open McpGatekeeper.Aggregation
open McpGatekeeper.Authorisation
open McpGatekeeper.Conduct
open McpGatekeeper.GateContract
open McpGatekeeper.Gateway
open McpGatekeeper.GatewayRules
open McpGatekeeper.JsonValues
open McpGatekeeper.Narrative
open McpGatekeeper.Operations
open McpGatekeeper.Refresh
open McpGatekeeper.Registry
open McpGatekeeper.Scenarios
open McpGatekeeper.System

theorem mem_of_get_collectAll {pairs : List (String × Tool)} {registry : ToolRegistry}
    {name : String} {entry : NamespacedTool}
    (h : (collectAll registry pairs).get name = some entry) :
    registry.get name = some entry ∨ ∃ pair ∈ pairs, entry = advertised pair.1 pair.2 := by
  induction pairs generalizing registry with
  | nil => exact .inl h
  | cons pair pairs ih =>
      rcases ih h with hcollected | ⟨later, hlater, rfl⟩
      · rw [get_collect] at hcollected
        split at hcollected
        · exact .inr ⟨pair, List.mem_cons_self, (Option.some.inj hcollected).symm⟩
        · exact .inl hcollected
      · exact .inr ⟨later, List.mem_cons_of_mem _ hlater, rfl⟩

theorem listed_of_get_build {collected : List (String × List Tool)} {name : String}
    {entry : NamespacedTool} (h : (ToolRegistry.build collected).get name = some entry) :
    ∃ upstream tools, (upstream, tools) ∈ collected ∧ ∃ tool ∈ tools,
      entry = advertised upstream tool := by
  rw [build_eq_collectAll] at h
  rcases mem_of_get_collectAll h with hempty | ⟨pair, hpair, rfl⟩
  · cases hempty
  · obtain ⟨listing, hlisting, hmem⟩ := List.mem_flatMap.mp hpair
    obtain ⟨tool, htool, rfl⟩ := List.mem_map.mp hmem
    exact ⟨listing.1, listing.2, hlisting, tool, htool, rfl⟩

/-- An upstream has answered a listing with these tools. -/
def Lists (history : List GateEvent) (upstream : String) (tools : List Tool) : Prop :=
  ∃ i entry before, ⟨i, entry, .listTools upstream, .ok tools, before⟩ ∈ history

theorem Lists.later {history newer : List GateEvent} {upstream : String} {tools : List Tool}
    (h : Lists history upstream tools) : Lists (newer ++ history) upstream tools := by
  obtain ⟨i, entry, before, hmem⟩ := h
  exact ⟨i, entry, before, List.mem_append_right _ hmem⟩

section Runs

variable {deps : GatewayDeps} {A : GateAssumption} {world : World} {c : GateConfig}

theorem connected_of_asked (hreach : (machine deps).Reaches A (Config.initial world) c)
    {newer older : List GateEvent} {event : GateEvent}
    (hsplit : c.state.history = newer ++ event :: older) {i : Nat} {names : List String}
    (hasked : ⟨.connectionNames, names⟩ ∈ journal i older) : names ⊆ world.connections := by
  obtain ⟨asking, hmem, -, hitem⟩ := mem_journal.mp hasked
  obtain ⟨newer', older', hsplit', -⟩ := split_of_mem_older hsplit hmem
  obtain ⟨c₁, next, after, hperformed⟩ := hreach.performed rfl hsplit'
  obtain ⟨j, entry, op, answer, before⟩ := asking
  cases hitem
  obtain ⟨choice, hexec⟩ := hperformed.exec
  have hnames : before.connections = answer := (Prod.mk.inj (Option.some.inj hexec)).1
  have hconnections := (evolves_of_reaches hperformed.reached).connections
  rw [hperformed.state, hnames] at hconnections
  exact hconnections

theorem registry_listed (hempty : world.registry = .empty)
    (hreach : (machine deps).Reaches A (Config.initial world) c) {name : String}
    {entry : NamespacedTool} (hget : c.state.world.registry.get name = some entry) :
    ∃ upstream tools tool, Lists c.state.history upstream tools ∧ tool ∈ tools ∧
      upstream ∈ world.connections ∧ entry = advertised upstream tool := by
  rw [registry_installed_last hreach, hempty] at hget
  rcases hinstalled : c.state.history.findSome? fun event => installed event.op with
    _ | collected
  · rw [hinstalled] at hget
    cases hget
  · rw [hinstalled] at hget
    obtain ⟨upstream, tools, hlisting, tool, htool, rfl⟩ := listed_of_get_build hget
    obtain ⟨event, hevent, heq⟩ := List.exists_of_findSome?_eq_some hinstalled
    obtain ⟨i, entry, op, answer, before⟩ := event
    cases op <;> cases heq
    obtain ⟨newer, older, hsplit⟩ := List.append_of_mem hevent
    obtain ⟨newer', before', older', -, hsplit', readings, hjournal, rfl⟩ :=
      installs_refresh hreach ⟨_, _, performedAt_of_split hsplit⟩
    obtain ⟨reading, hreading, heq⟩ := List.mem_map.mp hlisting
    cases heq
    obtain ⟨upstream, answer⟩ := reading
    have hread : ⟨.listTools upstream, answer⟩ ∈ journal i older' := by
      rw [hjournal]
      apply List.mem_append_left
      exact List.mem_reverse.mpr (List.mem_map.mpr ⟨_, hreading, rfl⟩)
    have hasked : ⟨.connectionNames, readings.map (·.1)⟩ ∈ journal i older' := by
      rw [hjournal]
      exact List.mem_append_cons_self
    cases answer with
    | error error => cases htool
    | ok tools =>
        refine ⟨upstream, tools, tool, ?_, htool, ?_, rfl⟩
        · obtain ⟨event, hmem, rfl, hitem⟩ := mem_journal.mp hread
          obtain ⟨j, entry, op, answer, found⟩ := event
          cases hitem
          refine ⟨j, entry, found, ?_⟩
          rw [hsplit']
          exact List.mem_append_right _ (List.mem_cons_of_mem _ hmem)
        · apply connected_of_asked hreach hsplit' hasked
          exact List.mem_map_of_mem hreading

/-- The call goes to an upstream that was connected at the start, under the name of a tool
that this upstream has listed before; it is the tool the client named, and the policy was
asked about it as the listing describes it. -/
def AsListed (world : World) (older : List GateEvent) (event : GateEvent) : Prop :=
  ∃ invocation polls upstream tools tool answer found,
    event = ⟨event.task, .callTool invocation polls,
      .callTool upstream tool.name invocation.args, answer, event.before⟩ ∧
    namespaced upstream tool.name = invocation.name ∧
    upstream ∈ world.connections ∧ tool ∈ tools ∧ Lists older upstream tools ∧
    lookup event.task invocation polls (some (advertised upstream tool)) found ∈ older

theorem called_as_listed (hempty : world.registry = .empty)
    (hreach : (machine deps).Reaches A (Config.initial world) c)
    {newer older : List GateEvent} {event : GateEvent}
    (hsplit : c.state.history = newer ++ event :: older)
    (hcall : isUpstreamCall event.op = true) : AsListed world older event := by
  obtain ⟨invocation, polls, entry, answer, hevent, hpermitted⟩ :=
    call_permitted (gate_good hreach) hsplit hcall
  obtain ⟨found, hlookup⟩ := lookup_of_permitted hpermitted
  obtain ⟨newer', older', hsplit', hsuffix⟩ := split_of_mem_older hsplit hlookup
  obtain ⟨c₁, next, after, hperformed⟩ := hreach.performed rfl hsplit'
  obtain ⟨choice, hexec⟩ := hperformed.exec
  have hget : found.registry.get invocation.name = some entry :=
    (Prod.mk.inj (Option.some.inj hexec)).1
  have hregistered : c₁.state.world.registry.get invocation.name = some entry := by
    rw [hperformed.state]
    exact hget
  obtain ⟨upstream, tools, tool, hlists, htool, hconnected, rfl⟩ :=
    registry_listed hempty hperformed.reached hregistered
  rw [hperformed.state] at hlists
  obtain ⟨between, hbetween⟩ := hsuffix
  refine ⟨invocation, polls, upstream, tools, tool, answer, found, hevent, ?_, hconnected, htool,
    ?_, hlookup⟩
  · exact (found.registry.named _ _ hget).2
  · rw [← hbetween]
    exact hlists.later

end Runs

/-- The upstream is asked for its tools, and then called under a policy that allows it. -/
def listedCall : List GateLabel :=
  [.start .listTools, act 0, .act 0 { tools := .ok [{ name := "write" }] }, act 0,
    .start (.callTool { name := "fs__write" } 0)] ++ acts 1 3 ++ [serves 1]

def allowing : GatewayDeps where
  policy := { rules := [], default := .allow }
  approvals := {}

def unlisted : World := { office with registry := .empty }

theorem called_as_listed_write :
    ∃ c event older, (machine allowing).run .none (Config.initial unlisted) listedCall = some c ∧
      c.state.history = event :: older ∧ isUpstreamCall event.op = true ∧
      AsListed unlisted older event := by
  obtain ⟨c, event, older, hrun, hhistory, hcall⟩ : ∃ c event older,
      (machine allowing).run .none (Config.initial unlisted) listedCall = some c ∧
      c.state.history = event :: older ∧ isUpstreamCall event.op = true :=
    ⟨_, _, _, rfl, rfl, rfl⟩
  refine ⟨c, event, older, hrun, hhistory, hcall, ?_⟩
  have hsplit : c.state.history = [] ++ event :: older := hhistory
  exact called_as_listed rfl (Machine.reaches_of_run hrun) hsplit hcall

end McpGatekeeper.Routing
