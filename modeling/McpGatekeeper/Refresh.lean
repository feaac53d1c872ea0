import McpGatekeeper.Narrative
import McpGatekeeper.Scenarios

namespace McpGatekeeper.Refresh

open Interleaving
open McpGatekeeper.Conduct
open McpGatekeeper.Gateway
open McpGatekeeper.JsonValues
open McpGatekeeper.Narrative
open McpGatekeeper.Operations
open McpGatekeeper.Registry
open McpGatekeeper.Scenarios
open McpGatekeeper.System

/-- What `collected` keeps of an answer: an upstream that fails to list has no tools. -/
def listed : Except String (List Tool) → List Tool
  | .ok tools => tools
  | .error _ => []

/-- An upstream and what it answered a refresh. -/
abbrev Reading := String × Except String (List Tool)

def Reading.item (reading : Reading) : Item :=
  ⟨.listTools reading.1, reading.2⟩

def Reading.listing (reading : Reading) : String × List Tool :=
  (reading.1, listed reading.2)

def installed : Op → Option (List (String × List Tool))
  | .installRegistry collected => some collected
  | _ => none

/-- A refresh reads every connected upstream once, then installs what it has read, and
nothing after that. -/
def BeforeRefresh (items : Items) : Op → Prop
  | .listTools _ => ∀ item ∈ items, installed item.1 = none
  | .installRegistry collected => ∃ readings : List Reading,
      items = (readings.map Reading.item).reverse ++
        [⟨.connectionNames, readings.map (·.1)⟩] ∧
      collected = readings.map Reading.listing
  | _ => True

theorem collectTools_tells (names : List String) {items : Items}
    (hnone : ∀ item ∈ items, installed item.1 = none) :
    (collectTools names).Narrates BeforeRefresh (fun (_ : Halt) _ => True)
      (fun collected items' => ∃ readings : List Reading, readings.map (·.1) = names ∧
        items' = (readings.map Reading.item).reverse ++ items ∧
        collected = readings.map Reading.listing) items := by
  induction names generalizing items with
  | nil => exact ⟨[], rfl, rfl, rfl⟩
  | cons name names ih =>
      refine ⟨hnone, fun answer => ?_⟩
      change Program.Narrates _ _ _ (collectTools names >>= _) _
      have hnone' : ∀ item ∈ (⟨.listTools name, answer⟩ :: items : Items),
          installed item.1 = none := by
        rw [List.forall_mem_cons]
        exact ⟨rfl, hnone⟩
      refine Program.Narrates.bind (ih hnone') ?_
      rintro collected items' ⟨readings, rfl, rfl, rfl⟩
      refine ⟨(name, answer) :: readings, rfl, ?_, ?_⟩
      · rw [List.map_cons, List.reverse_cons, List.append_assoc]
        rfl
      · cases answer <;> rfl

theorem refreshRegistry_tells :
    refreshRegistry.Narrates BeforeRefresh (fun (_ : Halt) _ => True) (fun _ _ => True) [] := by
  refine ⟨trivial, fun names => ?_⟩
  have hnone : ∀ item ∈ [(⟨.connectionNames, names⟩ : Item)], installed item.1 = none := by
    intro item hitem
    rw [List.mem_singleton.mp hitem]
    rfl
  apply Program.Narrates.bind (collectTools_tells names hnone)
  rintro collected items ⟨readings, rfl, rfl, rfl⟩
  exact ⟨⟨readings, rfl, rfl⟩, fun _ => trivial⟩

theorem listTools_tells :
    listTools.Narrates BeforeRefresh (fun (_ : Halt) _ => True) (fun _ _ => True) [] :=
  Program.Narrates.bind refreshRegistry_tells fun _ _ _ => trivial

def beforeOf : Entry → Items → Op → Prop
  | .listTools => BeforeRefresh
  | _ => fun _ _ => True

theorem code_refreshes (deps : GatewayDeps) (entry : Entry) :
    (code deps entry).Narrates (beforeOf entry) (fun _ _ => True) (fun _ _ => True) [] := by
  cases entry with
  | listTools => exact Program.Narrates.bind listTools_tells fun _ _ _ => trivial
  | callTool | openApproval | decide | dismiss | get | wait | pending | expireOverdue =>
      exact Program.narrates_of_forall (fun _ _ => trivial) (fun _ _ => trivial) _ _

/-- At moment `t`, task `i` installs a registry built from these listings. -/
def Installs (history : List GateEvent) (t i : Nat) (collected : List (String × List Tool)) :
    Prop :=
  ∃ entry before, performedAt history t =
    some ⟨i, entry, .installRegistry collected, (), before⟩

def Reads (history : List GateEvent) (t i : Nat) (upstream : String)
    (answer : Except String (List Tool)) : Prop :=
  ∃ entry before, performedAt history t =
    some ⟨i, entry, .listTools upstream, answer, before⟩

def Asks (history : List GateEvent) (t i : Nat) (names : List String) : Prop :=
  ∃ entry before, before.connections = names ∧
    performedAt history t = some ⟨i, entry, .connectionNames, names, before⟩

/-- What an installation owes to the readings and the installations before it. -/
structure InOrder (history : List GateEvent) (t i : Nat)
    (collected : List (String × List Tool)) : Prop where
  /-- It has one listing for every upstream that was connected when its refresh began. -/
  complete : ∃ b < t, Asks history b i (collected.map (·.1))
  /-- Its refresh has read all of them itself. -/
  own : ∀ upstream tools, (upstream, tools) ∈ collected →
    ∃ r < t, ∃ answer, Reads history r i upstream answer ∧ tools = listed answer
  /-- It goes back behind an installation only if its refresh was reading by then. -/
  overlaps : ∀ t' i' collected', t' < t → Installs history t' i' collected' →
    ∀ upstream r r' answer answer', Reads history r i upstream answer →
      Reads history r' i' upstream answer' → r ≤ r' → r < t'

theorem exec_registry {op : Op} {choice : Choice} {w w' : World} {answer : Res op}
    (h : exec op choice w = some (answer, w')) :
    w'.registry = ((installed op).map ToolRegistry.build).getD w.registry := by
  cases op
  case createApproval request =>
    simp only [exec] at h
    split at h <;> cases h <;> rfl
  all_goals
    cases h
    rfl

theorem performed_earlier {history newer older : List GateEvent} {event : GateEvent}
    (hsplit : history = newer ++ event :: older) {i : Nat} {op : Op} {answer : Res op}
    (hitem : ⟨op, answer⟩ ∈ journal i older) :
    ∃ t < older.length, ∃ entry before,
      performedAt history t = some ⟨i, entry, op, answer, before⟩ := by
  obtain ⟨own, hown, htask, heq⟩ := mem_journal.mp hitem
  obtain ⟨t, hlt, hperformed⟩ := (mem_older_iff hsplit).mp hown
  obtain ⟨task, entry, op', answer', before⟩ := own
  obtain rfl : task = i := htask
  cases heq
  exact ⟨t, hlt, entry, before, hperformed⟩

section Runs

variable {deps : GatewayDeps} {A : GateAssumption} {world : World} {c : GateConfig}
  (hreach : (machine deps).Reaches A (Config.initial world) c)
include hreach

theorem registry_installed_last :
    c.state.world.registry =
      ((c.state.history.findSome? fun event => installed event.op).map
        ToolRegistry.build).getD world.registry := by
  induction hreach with
  | refl => rfl
  | tail _ hstep ih =>
      obtain ⟨label, -, hstep⟩ := hstep
      obtain ⟨entry, -, rfl⟩ | ⟨i, choice, entry, op, next, answer, after, -, -, hexec, rfl⟩ |
        ⟨change, after, -, henv, rfl⟩ | ⟨i, entry, op, next, -, -, rfl⟩ :=
          Machine.step_cases hstep
      · exact ih
      · rw [State.push_world, State.push_history, exec_registry hexec, List.findSome?_cons, ih]
        cases installed op <;> rfl
      · cases change <;> cases henv <;> exact ih
      · exact ih

theorem installs_refresh {t i : Nat} {collected : List (String × List Tool)}
    (h : Installs c.state.history t i collected) :
    ∃ newer before older, older.length = t ∧
      c.state.history =
        newer ++ ⟨i, .listTools, .installRegistry collected, (), before⟩ :: older ∧
      BeforeRefresh (journal i older) (.installRegistry collected) := by
  obtain ⟨entry, before, hperformed⟩ := h
  obtain ⟨newer, older, hsplit, hlength⟩ := split_of_performedAt hperformed
  obtain rfl : entry = .listTools := ((conduct_good hreach).past _ _ _ hsplit).pre.2
  exact ⟨newer, before, older, hlength, hsplit,
    hreach.before_event (code_refreshes deps) hsplit⟩

theorem reads_before_installs {t i : Nat} {collected : List (String × List Tool)}
    (h : Installs c.state.history t i collected) {r : Nat} {upstream : String}
    {answer : Except String (List Tool)}
    (hread : Reads c.state.history r i upstream answer) : r < t := by
  obtain ⟨newer, before, older, hlength, hsplit, -⟩ := installs_refresh hreach h
  obtain ⟨entry, before', hperformed⟩ := hread
  rcases Nat.lt_trichotomy r t with hlt | rfl | hgt
  · exact hlt
  · obtain ⟨entry', before'', hinstall⟩ := h
    rw [hperformed] at hinstall
    cases hinstall
  · exfalso
    obtain ⟨newer', older', hsplit', hlength'⟩ := split_of_performedAt hperformed
    have hinstall := performedAt_of_split hsplit
    have hmem : ⟨i, .listTools, .installRegistry collected, (), before⟩ ∈ older' :=
      (mem_older_iff hsplit').mpr ⟨older.length, by omega, hinstall⟩
    have hown : ⟨i, entry, .listTools upstream, answer, before'⟩ ∈ c.state.history := by
      rw [hsplit']
      exact List.mem_append_cons_self
    have hfirst : ⟨i, .listTools, .installRegistry collected, (), before⟩ ∈
        c.state.history := by
      rw [hsplit]
      exact List.mem_append_cons_self
    obtain rfl : entry = .listTools := hreach.entry_unique hown hfirst rfl
    have hnone : BeforeRefresh (journal i older') (.listTools upstream) :=
      hreach.before_event (code_refreshes deps) hsplit'
    cases hnone _ (mem_journal.mpr ⟨_, hmem, rfl, rfl⟩)

/-- A refresh installs what it has read itself, and takes the registry back behind another
only if the two overlap; then the one that finishes last wins. -/
theorem refreshes_in_order :
    (∀ t i collected, Installs c.state.history t i collected →
      InOrder c.state.history t i collected) ∧
    c.state.world.registry =
      ((c.state.history.findSome? fun event => installed event.op).map
        ToolRegistry.build).getD world.registry := by
  refine ⟨fun t i collected h => ?_, registry_installed_last hreach⟩
  obtain ⟨newer, before, older, hlength, hsplit, readings, hjournal, rfl⟩ :=
    installs_refresh hreach h
  refine ⟨?_, fun upstream tools hlisted => ?_, ?_⟩
  · have hasked : ⟨.connectionNames, readings.map (·.1)⟩ ∈ journal i older := by
      rw [hjournal]
      exact List.mem_append_cons_self
    obtain ⟨b, hlt, entry, before', hperformed⟩ := performed_earlier hsplit hasked
    obtain ⟨newer', older', hsplit', -⟩ := split_of_performedAt hperformed
    obtain ⟨c₁, next, after, hperformed'⟩ := hreach.performed rfl hsplit'
    obtain ⟨choice, hexec⟩ := hperformed'.exec
    have hnames : before'.connections = readings.map (·.1) :=
      (Prod.mk.inj (Option.some.inj hexec)).1
    refine ⟨b, by omega, entry, before', ?_, ?_⟩
    · rw [hnames, List.map_map]
      rfl
    · rw [List.map_map]
      exact hperformed
  · obtain ⟨reading, hreading, heq⟩ := List.mem_map.mp hlisted
    cases heq
    have hread : reading.item ∈ journal i older := by
      rw [hjournal]
      apply List.mem_append_left
      exact List.mem_reverse.mpr (List.mem_map_of_mem hreading)
    obtain ⟨r, hlt, hread⟩ := performed_earlier hsplit hread
    exact ⟨r, by omega, reading.2, hread, rfl⟩
  · intro t' i' collected' _ h' upstream r r' answer answer' _ hread' hback
    exact Nat.lt_of_le_of_lt hback (reads_before_installs hreach h' hread')

end Runs

def writeTool (readOnly : Bool) : Tool where
  name := "write"
  annotations := some { readOnlyHint := some readOnly }

def lists (i : Nat) (readOnly : Bool) : GateLabel :=
  .act i { tools := .ok [writeTool readOnly] }

/-- Two refreshes read an upstream one after the other, its tool having changed in between;
the one that read first installs last. -/
def overlapping : List GateLabel :=
  [.start .listTools, .start .listTools, act 0, lists 0 true, act 1, lists 1 false, act 1, act 0]

def overlappingConfig : GateConfig :=
  ((machine deps).run .none (Config.initial office) overlapping).get (by decide)

theorem refreshes_in_order_overlapping :
    InOrder overlappingConfig.state.history 5 0 [("fs", [writeTool true])] ∧
      overlappingConfig.state.world.registry = ToolRegistry.build [("fs", [writeTool true])] := by
  have hreach : (machine deps).Reaches .none (Config.initial office) overlappingConfig :=
    Machine.reaches_get _
  obtain ⟨hinOrder, hlast⟩ := refreshes_in_order hreach
  exact ⟨hinOrder 5 0 _ ⟨_, _, rfl⟩, hlast⟩

theorem registry_goes_back :
    ∃ c : GateConfig, (machine deps).run .none (Config.initial office) overlapping = some c ∧
      c.state.world.connections = ["fs"] ∧
      Reads c.state.history 1 0 "fs" (.ok [writeTool true]) ∧
      Reads c.state.history 3 1 "fs" (.ok [writeTool false]) ∧
      Installs c.state.history 4 1 [("fs", [writeTool false])] ∧
      Installs c.state.history 5 0 [("fs", [writeTool true])] ∧
      (c.state.world.registry.get "fs__write").map (·.annotations.readOnly) =
        some (some true) :=
  ⟨_, rfl, rfl, ⟨_, _, rfl⟩, ⟨_, _, rfl⟩, ⟨_, _, rfl⟩, ⟨_, _, rfl⟩, rfl⟩

end McpGatekeeper.Refresh
