import Mathlib.Data.List.Infix
import McpGatekeeper.Export
import McpGatekeeper.Text.Like

namespace McpGatekeeper.AuditView

open Like
open McpGatekeeper.Audit
open McpGatekeeper.Clock
open McpGatekeeper.Export
open McpGatekeeper.PolicyEngine
open McpGatekeeper.Scenarios

/-- `tool LIKE ?`, a clause that is left out for an empty filter. -/
def toolClause (tool : Option String) (event : AuditEvent) : Bool :=
  match tool with
  | none => true
  | some tool => tool == "" || like (containing tool.toList) event.tool.toList

/-- `action = ?`, a comparison of texts. -/
def actionClause (action : Option Action) (event : AuditEvent) : Bool :=
  match action with
  | none => true
  | some action => actionValue event.action == actionValue action

/-- `ORDER BY created_at DESC, id DESC`, of which the first is a text. -/
def Newer (row other : Nat × AuditEvent) : Prop :=
  other.2.createdAt.isoformat < row.2.createdAt.isoformat ∨
    other.2.createdAt.isoformat = row.2.createdAt.isoformat ∧ other.1 ≤ row.1

instance : DecidableRel Newer :=
  fun _ _ => inferInstanceAs (Decidable (_ ∨ _ ∧ _))

/-- The integers that `sqlite3` can pass on. -/
def Storable (n : Int) : Prop :=
  -9223372036854775808 ≤ n ∧ n ≤ 9223372036854775807

instance (n : Int) : Decidable (Storable n) :=
  inferInstanceAs (Decidable (_ ∧ _))

inductive QueryError
  | overflowError
  deriving DecidableEq

/-- `SqliteAuditStore.recent`; a negative `LIMIT` is none, and a negative `OFFSET` zero. -/
def recent (table : AuditTable) (limit offset : Int) (tool : Option String)
    (action : Option Action) : Except QueryError (List AuditEvent) :=
  if Storable limit ∧ Storable offset then
    let selected := table.rows.filter fun row =>
      toolClause tool row.2 && actionClause action row.2
    let kept := if limit < 0 then selected.length else limit.toNat
    .ok ((((selected.insertionSort Newer).drop offset.toNat).take kept).map (·.2))
  else .error .overflowError

/-- The tool's name contains the filter, and the action is the one asked for, if any. -/
def Wanted (tool : String) (action : Option Action) (event : AuditEvent) : Prop :=
  tool.toList <:+: event.tool.toList ∧ ∀ wanted, action = some wanted → event.action = wanted

instance (tool : String) (action : Option Action) (event : AuditEvent) :
    Decidable (Wanted tool action event) :=
  inferInstanceAs (Decidable (_ ∧ _))

/-- Later events first, and of two at one moment the one recorded later. -/
def NewestFirst (row other : Nat × AuditEvent) : Prop :=
  other.2.createdAt < row.2.createdAt ∨
    other.2.createdAt = row.2.createdAt ∧ other.1 ≤ row.1

instance : DecidableRel NewestFirst :=
  fun _ _ => inferInstanceAs (Decidable (_ ∨ _ ∧ _))

def wanted (table : AuditTable) (tool : String) (action : Option Action) :
    List (Nat × AuditEvent) :=
  table.rows.filter fun row => decide (Wanted tool action row.2)

/-- The events that are wanted, newest first. -/
def listed (table : AuditTable) (tool : String) (action : Option Action) : List AuditEvent :=
  ((wanted table tool action).insertionSort NewestFirst).map (·.2)

/-- The answer is a slice of the events that are wanted. -/
def Sliced (table : AuditTable) (tool : String) (action : Option Action) (limit offset : Nat) :
    Prop :=
  recent table limit offset (some tool) action =
    .ok (((listed table tool action).drop offset).take limit)

/-- Enough pages of any one size show every wanted event once and nothing else. -/
def Paged (table : AuditTable) (tool : String) (action : Option Action) : Prop :=
  ∀ limit : Nat, 0 < limit → Storable limit →
    ∀ pages : Nat, (∀ page < pages, Storable (page * limit : Nat)) →
      (wanted table tool action).length ≤ pages * limit →
        ∃ shown, ((List.range pages).mapM fun page =>
          recent table limit (page * limit : Nat) (some tool) action) = .ok shown ∧
            shown.flatten.Perm ((wanted table tool action).map (·.2))

/-- The database finds the filter in the names that contain it, and in no others. -/
def FoundLiterally (table : AuditTable) (tool : String) (action : Option Action) : Prop :=
  ∀ row ∈ table.rows, (∀ wanted, action = some wanted → row.2.action = wanted) →
    (like (containing tool.toList) row.2.tool.toList = true ↔
      tool.toList <:+: row.2.tool.toList)

theorem newer_iff (row other : Nat × AuditEvent) : Newer row other ↔ NewestFirst row other := by
  have heq : other.2.createdAt.isoformat = row.2.createdAt.isoformat ↔
      other.2.createdAt = row.2.createdAt := by
    constructor
    · intro h
      exact le_antisymm ((isoformat_le _ _).mp h.le) ((isoformat_le _ _).mp h.ge)
    · rintro h
      rw [h]
  rw [Newer, NewestFirst, isoformat_lt, heq]

theorem insertionSort_newer (rows : List (Nat × AuditEvent)) :
    rows.insertionSort Newer = rows.insertionSort NewestFirst := by
  congr! 1
  funext row other
  exact propext (newer_iff row other)

theorem flatMap_pages {α : Type} (items : List α) (limit pages : Nat) :
    ((List.range pages).flatMap fun page => (items.drop (page * limit)).take limit) =
      items.take (pages * limit) := by
  induction pages with
  | zero => simp
  | succ pages ih =>
      rw [List.range_succ, List.flatMap_append, ih, List.flatMap_singleton, Nat.succ_mul,
        List.take_add]

theorem mapM_ok {ε α β : Type} {f : α → Except ε β} {g : α → β} {items : List α}
    (h : ∀ item ∈ items, f item = .ok (g item)) : items.mapM f = .ok (items.map g) := by
  induction items with
  | nil => rfl
  | cons item items ih =>
      obtain ⟨hitem, hitems⟩ := List.forall_mem_cons.mp h
      rw [List.mapM_cons, hitem, ih hitems]
      rfl

theorem paged_of_sliced {table : AuditTable} {tool : String} {action : Option Action}
    (h : ∀ limit offset : Nat, Storable limit → Storable offset →
      Sliced table tool action limit offset) : Paged table tool action := by
  intro limit _ hlimit pages hoffsets hpages
  refine ⟨_, mapM_ok fun page hpage =>
    h limit (page * limit) hlimit (hoffsets page (List.mem_range.mp hpage)), ?_⟩
  have hlength : (listed table tool action).length = (wanted table tool action).length := by
    rw [listed, List.length_map, List.length_insertionSort]
  rw [← List.flatMap_def, flatMap_pages, List.take_of_length_le (by omega), listed]
  exact (List.perm_insertionSort _ _).map _

theorem actionClause_iff (action : Option Action) (event : AuditEvent) :
    actionClause action event = true ↔ ∀ wanted, action = some wanted → event.action = wanted := by
  have hvalue : ∀ a b : Action, actionValue a = actionValue b ↔ a = b := by
    intro a b
    cases a <;> cases b <;> decide
  cases action with
  | none => simp [actionClause]
  | some action => simp [actionClause, hvalue]

theorem toolClause_eq {tool : String} (h : tool ≠ "") (event : AuditEvent) :
    toolClause (some tool) event = like (containing tool.toList) event.tool.toList := by
  simp [toolClause, h]

/-- The rows the `WHERE` clause leaves. -/
def selected (table : AuditTable) (tool : Option String) (action : Option Action) :
    List (Nat × AuditEvent) :=
  table.rows.filter fun row => toolClause tool row.2 && actionClause action row.2

theorem mem_selected {table : AuditTable} {tool : String} (h : tool ≠ "")
    {action : Option Action} {row : Nat × AuditEvent} :
    row ∈ selected table (some tool) action ↔ row ∈ table.rows ∧
      like (containing tool.toList) row.2.tool.toList = true ∧
      ∀ wanted, action = some wanted → row.2.action = wanted := by
  rw [selected, List.mem_filter, toolClause_eq h, Bool.and_eq_true, actionClause_iff]

theorem mem_wanted {table : AuditTable} {tool : String} {action : Option Action}
    {row : Nat × AuditEvent} :
    row ∈ wanted table tool action ↔ row ∈ table.rows ∧ Wanted tool action row.2 := by
  rw [wanted, List.mem_filter, decide_eq_true_iff]

theorem recent_eq {limit offset : Int} (hlimit : Storable limit) (hoffset : Storable offset)
    (table : AuditTable) (tool : Option String) (action : Option Action) :
    recent table limit offset tool action =
      .ok (((((selected table tool action).insertionSort NewestFirst).drop offset.toNat).take
        (if limit < 0 then (selected table tool action).length else limit.toNat)).map (·.2)) := by
  rw [recent, if_pos ⟨hlimit, hoffset⟩, ← insertionSort_newer]
  rfl

theorem recent_slice {limit offset : Nat} (hlimit : Storable limit) (hoffset : Storable offset)
    (table : AuditTable) (tool : Option String) (action : Option Action) :
    recent table limit offset tool action =
      .ok (((((selected table tool action).insertionSort NewestFirst).map (·.2)).drop
        offset).take limit) := by
  rw [recent_eq hlimit hoffset, if_neg (by omega), List.map_take, List.map_drop]
  rfl

theorem storable_of_sliced {table : AuditTable} {tool : String} {action : Option Action}
    {limit offset : Nat} (h : Sliced table tool action limit offset) :
    Storable limit ∧ Storable offset := by
  refine Classical.byContradiction fun hoverflow => ?_
  rw [Sliced, recent, if_neg hoverflow] at h
  cases h

theorem events_of_sliced {table : AuditTable} {tool : String} {action : Option Action}
    (hrows : Storable table.rows.length)
    (h : ∀ limit offset : Nat, Storable limit → Storable offset →
      Sliced table tool action limit offset) :
    ((selected table (some tool) action).map (·.2)).Perm
      ((wanted table tool action).map (·.2)) := by
  have hzero : Storable (0 : Nat) := by decide
  have hslice := h table.rows.length 0 hrows hzero
  have hselected : ((selected table (some tool) action).insertionSort NewestFirst).length ≤
      table.rows.length := by
    rw [List.length_insertionSort]
    exact List.length_filter_le _ _
  have hwanted : (listed table tool action).length ≤ table.rows.length := by
    rw [listed, List.length_map, List.length_insertionSort]
    exact List.length_filter_le _ _
  rw [Sliced, recent_slice hrows hzero, List.drop_zero, List.drop_zero,
    List.take_of_length_le (by rwa [List.length_map]), List.take_of_length_le hwanted] at hslice
  have hsorted := Except.ok.inj hslice
  have hperm := ((List.perm_insertionSort NewestFirst (selected table (some tool) action)).map
    (·.2)).symm
  rw [hsorted] at hperm
  exact hperm.trans ((List.perm_insertionSort NewestFirst _).map _)

def seen (eventId tool : String) : AuditEvent where
  eventId := eventId
  createdAt := noon
  tool := tool
  upstream := "fs"
  arguments := []
  action := .allow
  decisionSource := .default
  outcome := .forwarded

/-- A tool of the upstream `fs`, and one of the upstream `fs2`. -/
def log : AuditTable :=
  (AuditTable.record {} (seen "1" "fs__read")).record (seen "2" "fs2__read")

end McpGatekeeper.AuditView
