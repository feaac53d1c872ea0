import Mathlib.Data.List.Sort
import Mathlib.Data.String.Basic
import McpGatekeeper.Routing

namespace McpGatekeeper.ToolLists

open Interleaving
open McpGatekeeper.Aggregation
open McpGatekeeper.Gateway
open McpGatekeeper.Narrative
open McpGatekeeper.Operations
open McpGatekeeper.Refresh
open McpGatekeeper.Registry
open McpGatekeeper.Routing
open McpGatekeeper.Scenarios
open McpGatekeeper.System

theorem insertName_eq (name : String) (names : List String) :
    ToolRegistry.insertName name names = names.orderedInsert (· ≤ ·) name := by
  induction names with
  | nil => rfl
  | cons other names ih => rw [ToolRegistry.insertName, List.orderedInsert, ih]

theorem names_eq (registry : ToolRegistry) :
    registry.names = registry.tools.keys.insertionSort (· ≤ ·) := by
  rw [ToolRegistry.names]
  induction registry.tools.keys with
  | nil => rfl
  | cons name names ih => rw [List.foldr_cons, ih, insertName_eq, List.insertionSort_cons]

theorem mem_names {registry : ToolRegistry} {name : String} :
    name ∈ registry.names ↔ ∃ entry, registry.get name = some entry := by
  rw [names_eq, List.mem_insertionSort, ← AList.mem_keys, ← AList.lookup_isSome,
    Option.isSome_iff_exists]
  rfl

theorem map_name_listing (registry : ToolRegistry) :
    registry.listing.map (·.name) = registry.names := by
  have hnamed : ∀ names : List String, (∀ name ∈ names, name ∈ registry.names) →
      (names.filterMap fun name => (registry.get name).map (·.tool)).map (·.name) = names := by
    intro names hnames
    induction names with
    | nil => rfl
    | cons name names ih =>
        obtain ⟨hname, hrest⟩ := List.forall_mem_cons.mp hnames
        obtain ⟨entry, hentry⟩ := mem_names.mp hname
        rw [List.filterMap_cons_some (by rw [hentry]; rfl), List.map_cons, ih hrest]
        exact congrArg (· :: names) (registry.named name entry hentry).1
  exact hnamed registry.names fun _ hname => hname

theorem listing_sorted (registry : ToolRegistry) :
    registry.listing.Pairwise fun tool other => tool.name < other.name := by
  rw [← List.pairwise_map (f := fun tool : Tool => tool.name) (R := (· < ·)), map_name_listing,
    names_eq]
  have hsorted := List.pairwise_insertionSort (· ≤ ·) registry.tools.keys
  have hnodup : (registry.tools.keys.insertionSort (· ≤ ·)).Nodup :=
    (List.perm_insertionSort _ _).nodup_iff.mpr registry.tools.keys_nodup
  exact (hsorted.and hnodup).imp fun h => lt_of_le_of_ne h.1 h.2

/-- The tools that were read, as a client gets to see them. -/
def offered (readings : List Reading) : List Tool :=
  (pairs (readings.map Reading.listing)).map fun pair => (advertised pair.1 pair.2).tool

/-- No two of them under one name. -/
def Distinct (readings : List Reading) : Prop :=
  ((offered readings).map (·.name)).Nodup

def built (readings : List Reading) : ToolRegistry :=
  .build (readings.map Reading.listing)

theorem mem_listing {registry : ToolRegistry} {tool : Tool} :
    tool ∈ registry.listing ↔ ∃ name entry, registry.get name = some entry ∧ entry.tool = tool := by
  rw [ToolRegistry.listing, List.mem_filterMap]
  constructor
  · rintro ⟨name, -, htool⟩
    obtain ⟨entry, hentry, rfl⟩ := Option.map_eq_some_iff.mp htool
    exact ⟨name, entry, hentry, rfl⟩
  · rintro ⟨name, entry, hentry, rfl⟩
    exact ⟨name, mem_names.mpr ⟨entry, hentry⟩, by rw [hentry]; rfl⟩

theorem listing_perm {readings : List Reading} (h : Distinct readings) :
    (built readings).listing.Perm (offered readings) := by
  have hlisted : (built readings).listing.Nodup :=
    (listing_sorted _).imp fun hlt heq => hlt.ne (congrArg Tool.name heq)
  refine (List.perm_ext_iff_of_nodup hlisted h.of_map).mpr fun tool => ?_
  rw [mem_listing, offered, List.mem_map]
  constructor
  · rintro ⟨name, entry, hentry, rfl⟩
    rw [built, build_eq_collectAll] at hentry
    rcases mem_of_get_collectAll hentry with hempty | ⟨pair, hpair, rfl⟩
    · cases hempty
    · exact ⟨pair, hpair, rfl⟩
  · rintro ⟨pair, hpair, rfl⟩
    have hnodup : ((pairs (readings.map Reading.listing)).map fun pair =>
        namespaced pair.1 pair.2.name).Nodup := by
      have hnames := h
      rw [Distinct, offered, List.map_map] at hnames
      exact hnames
    have hnone : ∀ pair ∈ pairs (readings.map Reading.listing),
        namespaced pair.1 pair.2.name ∉ ToolRegistry.empty.tools.keys := by
      intro pair _ hmem
      cases hmem
    obtain ⟨-, hget, -⟩ := collectAll_of_nodup hnodup hnone
    rw [← build_eq_collectAll] at hget
    exact ⟨_, _, hget pair hpair, rfl⟩

theorem listing_of_perm {readings readings' : List Reading} (h : Distinct readings)
    (hperm : (offered readings).Perm (offered readings')) :
    (built readings).listing = (built readings').listing := by
  have h' : Distinct readings' := (hperm.map _).nodup_iff.mp h
  have hlistings : (built readings).listing.Perm (built readings').listing :=
    ((listing_perm h).trans hperm).trans (listing_perm h').symm
  refine hlistings.eq_of_pairwise ?_ (listing_sorted _) (listing_sorted _)
  intro tool other _ _ hlt hgt
  exact absurd hlt hgt.not_gt

def readingOf : Item → Option Reading
  | ⟨.listTools upstream, answer⟩ => some (upstream, answer)
  | _ => none

/-- What a task was answered by the upstreams, in the order it asked. -/
def readingsOf (items : Items) : List Reading :=
  items.reverse.filterMap readingOf

theorem readingsOf_refresh (readings : List Reading) (names : List String)
    (collected : List (String × List Tool)) :
    readingsOf (⟨.installRegistry collected, ()⟩ ::
      ((readings.map Reading.item).reverse ++ [⟨.connectionNames, names⟩])) = readings := by
  have hread : (readings.map Reading.item).filterMap readingOf = readings := by
    rw [List.filterMap_map]
    exact List.filterMap_some
  simp only [readingsOf, List.reverse_cons, List.reverse_append, List.reverse_reverse,
    List.reverse_nil, List.nil_append, List.filterMap_append, hread]
  change [] ++ (readings ++ []) = readings
  rw [List.nil_append, List.append_nil]

theorem refreshRegistry_lists :
    refreshRegistry.Narrates BeforeRefresh (fun (_ : Halt) _ => True)
      (fun registry items => registry = built (readingsOf items)) [] := by
  refine ⟨trivial, fun names => ?_⟩
  have hnone : ∀ item ∈ [(⟨.connectionNames, names⟩ : Item)], installed item.1 = none := by
    intro item hitem
    rw [List.mem_singleton.mp hitem]
    rfl
  apply Program.Narrates.bind (collectTools_tells names hnone)
  rintro collected items ⟨readings, rfl, rfl, rfl⟩
  refine ⟨⟨readings, rfl, rfl⟩, fun _ => ?_⟩
  change ToolRegistry.build _ = built _
  rw [readingsOf_refresh]
  rfl

def ListsOf : Entry → Reply → Items → Prop
  | .listTools, .listed tools, items => tools = (built (readingsOf items)).listing
  | _, _, _ => True

theorem code_lists (deps : GatewayDeps) (entry : Entry) :
    (code deps entry).Narrates (beforeOf entry) (fun (_ : Halt) _ => True) (ListsOf entry) [] := by
  cases entry with
  | listTools =>
      have hlisted : listTools.Narrates BeforeRefresh (fun (_ : Halt) _ => True)
          (fun tools items => tools = (built (readingsOf items)).listing) [] := by
        apply Program.Narrates.bind refreshRegistry_lists
        rintro registry items rfl
        rfl
      apply Program.Narrates.bind hlisted
      exact fun tools items htools => htools
  | callTool | openApproval | decide | dismiss | get | wait | pending | expireOverdue =>
      refine Program.narrates_of_forall (fun _ _ => trivial) (fun reply _ => ?_) _ _
      cases reply <;> exact trivial

section Runs

variable {deps deps' : GatewayDeps} {A A' : GateAssumption} {world world' : World}
  {c c' : GateConfig} {i i' : Nat} {tools tools' : List Tool}

/-- A client is listed every tool that was read for it, each once and in the order of their
names; and the same list by any other process that read the same tools, whichever upstream it
asked first and in whatever order they answered. -/
theorem listing_stable (hreach : (machine deps).Reaches A (Config.initial world) c)
    (htask : c.tasks[i]? = some ⟨.listTools, .ret (.listed tools)⟩)
    (hdistinct : Distinct (readingsOf (journal i c.state.history))) :
    (tools.Pairwise fun tool other => tool.name < other.name) ∧
      tools.Perm (offered (readingsOf (journal i c.state.history))) ∧
      ((machine deps').Reaches A' (Config.initial world') c' →
        c'.tasks[i']? = some ⟨.listTools, .ret (.listed tools')⟩ →
        (offered (readingsOf (journal i c.state.history))).Perm
          (offered (readingsOf (journal i' c'.state.history))) → tools = tools') := by
  obtain rfl : tools = (built _).listing := hreach.of_return (code_lists deps) htask
  refine ⟨listing_sorted _, listing_perm hdistinct, fun hreach' htask' hperm => ?_⟩
  obtain rfl : tools' = (built _).listing := hreach'.of_return (code_lists deps') htask'
  exact listing_of_perm hdistinct hperm

end Runs

/-- The office with a second upstream, the two connected in either order. -/
def offices (connections : List String) : World :=
  { office with connections := connections }

/-- A refresh of the two. -/
def asking (first second : List Tool) : List GateLabel :=
  [.start .listTools, act 0, .act 0 { tools := .ok first }, .act 0 { tools := .ok second }, act 0]

def forwards : List Reading :=
  [("fs", .ok [{ name := "write" }, { name := "read" }]), ("web", .ok [{ name := "get" }])]

def backwards : List Reading :=
  [("web", .ok [{ name := "get" }]), ("fs", .ok [{ name := "read" }, { name := "write" }])]

theorem listing_stable_offices :
    ∃ c c' tools tools',
      (machine deps).run .none (Config.initial (offices ["fs", "web"]))
        (asking [{ name := "write" }, { name := "read" }] [{ name := "get" }]) = some c ∧
      (machine deps).run .none (Config.initial (offices ["web", "fs"]))
        (asking [{ name := "get" }] [{ name := "read" }, { name := "write" }]) = some c' ∧
      c.tasks[0]? = some ⟨.listTools, .ret (.listed tools)⟩ ∧
      c'.tasks[0]? = some ⟨.listTools, .ret (.listed tools')⟩ ∧ tools = tools' := by
  obtain ⟨c, c', tools, tools', hrun, hrun', htask, htask', hread, hread'⟩ :
      ∃ c c' tools tools',
        (machine deps).run .none (Config.initial (offices ["fs", "web"]))
          (asking [{ name := "write" }, { name := "read" }] [{ name := "get" }]) = some c ∧
        (machine deps).run .none (Config.initial (offices ["web", "fs"]))
          (asking [{ name := "get" }] [{ name := "read" }, { name := "write" }]) = some c' ∧
        c.tasks[0]? = some ⟨.listTools, .ret (.listed tools)⟩ ∧
        c'.tasks[0]? = some ⟨.listTools, .ret (.listed tools')⟩ ∧
        readingsOf (journal 0 c.state.history) = forwards ∧
        readingsOf (journal 0 c'.state.history) = backwards :=
    ⟨_, _, _, _, rfl, rfl, rfl, rfl, rfl, rfl⟩
  have hdistinct : Distinct forwards := by
    unfold Distinct
    decide
  have hreversed : offered backwards = (offered forwards).reverse := rfl
  have hperm : (offered forwards).Perm (offered backwards) := by
    rw [hreversed]
    exact (List.reverse_perm _).symm
  rw [← hread] at hdistinct hperm
  rw [← hread'] at hperm
  obtain ⟨-, -, hsame⟩ := listing_stable (Machine.reaches_of_run hrun) htask hdistinct
  exact ⟨c, c', tools, tools', hrun, hrun', htask, htask',
    hsame (Machine.reaches_of_run hrun') htask' hperm⟩

end McpGatekeeper.ToolLists
