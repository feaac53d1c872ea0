import Mathlib.Data.List.Chain
import Mathlib.Data.Prod.Lex
import McpGatekeeper.AuditView

namespace McpGatekeeper.AuditPage

open Interleaving
open McpGatekeeper.Audit
open McpGatekeeper.AuditView
open McpGatekeeper.Clock
open McpGatekeeper.Export
open McpGatekeeper.Gateway
open McpGatekeeper.Operations
open McpGatekeeper.PolicyEngine
open McpGatekeeper.Scenarios
open McpGatekeeper.System

/-- The parameters of `/audit`. -/
structure Query where
  tool : Option String := none
  action : Option String := none
  limit : Int := 100
  offset : Int := 0

/-- What `audit.html` is given that depends on the log, and where its links lead. -/
structure Page where
  events : List AuditEvent
  total : Nat
  newer : Option Query
  older : Option Query

/-- `Action(action) if action in {a.value for a in Action} else None` -/
def parsedAction (action : Option String) : Option Action :=
  action.bind fun text =>
    [.allow, .deny, .requireApproval].find? fun parsed => actionValue parsed == text

/-- What the links say beside the offset: the texts of the filters, and the limit as it was
asked for. -/
def Query.link (q : Query) (offset : Int) : Query where
  tool := some (q.tool.getD "")
  action := some (q.action.getD "")
  limit := q.limit
  offset := offset

/-- What the template makes of the events it is given. -/
def render (q : Query) (table : AuditTable) (events : List AuditEvent) : Page where
  events := events
  total := table.rows.length
  newer :=
    if events ≠ [] ∧ 0 < q.offset then some (q.link (max (q.offset - q.limit) 0)) else none
  older :=
    if events ≠ [] ∧ (events.length : Int) = q.limit then some (q.link (q.offset + q.limit))
    else none

/-- `audit_log` -/
def auditLog (q : Query) (table : AuditTable) : Except QueryError Page :=
  (recent table (min q.limit 500) (max q.offset 0) q.tool (parsedAction q.action)).map
    (render q table)

section Walk

/- What a text in a link is to the request made by following it: the template does not
encode it. -/
variable (carried : String → String)

def Query.followed (link : Query) : Query :=
  { link with tool := link.tool.map carried, action := link.action.map carried }

/-- The filters come through the links as they are. -/
structure Query.Carried (q : Query) : Prop where
  tool : carried (q.tool.getD "") = q.tool.getD ""
  action : carried (q.action.getD "") = q.action.getD ""

/-- The pages of a reader who follows "Older", each loaded from the log as it is by then. -/
def walk : Query → List AuditTable → List Page
  | _, [] => []
  | q, table :: tables =>
      match auditLog q table with
      | .error _ => []
      | .ok page =>
          page :: match page.older with
            | none => []
            | some link => walk (link.followed carried) tables

/-- The reader comes to a page without the link, and to no error. -/
def finishes : Query → List AuditTable → Bool
  | _, [] => false
  | q, table :: tables =>
      match auditLog q table with
      | .error _ => false
      | .ok page =>
          match page.older with
          | none => true
          | some link => finishes (link.followed carried) tables

end Walk

/-- The rows that the filters leave. -/
def matching (q : Query) (table : AuditTable) : List (Nat × AuditEvent) :=
  selected table q.tool (parsedAction q.action)

/-- They in the order of the page. -/
def ordered (q : Query) (table : AuditTable) : List (Nat × AuditEvent) :=
  (matching q table).insertionSort NewestFirst

/-- A limit that the database takes and under which no page is cut short. -/
def Query.Sound (q : Query) : Prop :=
  Storable q.limit ∧ q.limit < 0 ∨ 1 ≤ q.limit ∧ q.limit ≤ 500

section Page

variable {carried : String → String} {q : Query} {table : AuditTable}

theorem Query.Sound.storable (h : q.Sound) : Storable (min q.limit 500) := by
  unfold Query.Sound Storable at *
  omega

theorem length_ordered (q : Query) (table : AuditTable) :
    (ordered q table).length = (matching q table).length :=
  List.length_insertionSort _ _

theorem length_matching (q : Query) (table : AuditTable) :
    (matching q table).length ≤ table.rows.length :=
  List.length_filter_le _ _

def shown (q : Query) (table : AuditTable) : List AuditEvent :=
  (((ordered q table).drop q.offset.toNat).take
    (if q.limit < 0 then (matching q table).length else (min q.limit 500).toNat)).map (·.2)

theorem auditLog_eq (hlimit : Storable (min q.limit 500)) (hoffset : Storable (max q.offset 0))
    (table : AuditTable) : auditLog q table = .ok (render q table (shown q table)) := by
  have hzero : (max q.offset 0).toNat = q.offset.toNat := by omega
  have hnegative : min q.limit 500 < 0 ↔ q.limit < 0 := by omega
  rw [auditLog, recent_eq hlimit hoffset, hzero]
  simp only [hnegative]
  rfl

theorem auditLog_error (h : ¬(Storable (min q.limit 500) ∧ Storable (max q.offset 0)))
    (table : AuditTable) : auditLog q table = .error .overflowError := by
  rw [auditLog, recent, if_neg h]
  rfl

theorem toolClause_text (tool : Option String) (event : AuditEvent) :
    toolClause (some (tool.getD "")) event = toolClause tool event := by
  cases tool <;> rfl

theorem parsedAction_text (action : Option String) :
    parsedAction (some (action.getD "")) = parsedAction action := by
  cases action <;> rfl

theorem matching_link (hcarried : q.Carried carried) (offset : Int) (table : AuditTable) :
    matching ((q.link offset).followed carried) table = matching q table := by
  simp only [matching, selected, Query.followed, Query.link, Option.map_some, hcarried.tool,
    hcarried.action, toolClause_text, parsedAction_text]

theorem ordered_link (hcarried : q.Carried carried) (offset : Int) (table : AuditTable) :
    ordered ((q.link offset).followed carried) table = ordered q table := by
  rw [ordered, matching_link hcarried]
  rfl

theorem carried_link (hcarried : q.Carried carried) (offset : Int) :
    ((q.link offset).followed carried).Carried carried where
  tool := by simp [Query.followed, Query.link, hcarried.tool]
  action := by simp [Query.followed, Query.link, hcarried.action]

theorem older_eq (q : Query) (table : AuditTable) (events : List AuditEvent) :
    (render q table events).older =
      if events ≠ [] ∧ (events.length : Int) = q.limit then some (q.link (q.offset + q.limit))
      else none :=
  rfl

theorem page_cases (hsound : q.Sound) (table : AuditTable) :
    (render q table (shown q table)).older = none ∧
        shown q table = ((ordered q table).drop q.offset.toNat).map (·.2) ∨
      0 < q.limit ∧
        (render q table (shown q table)).older = some (q.link (q.offset + q.limit)) ∧
        shown q table =
          (((ordered q table).drop q.offset.toNat).take q.limit.toNat).map (·.2) ∧
        q.limit.toNat ≤ ((ordered q table).drop q.offset.toNat).length := by
  have hevents : shown q table = (((ordered q table).drop q.offset.toNat).take
      (if q.limit < 0 then (matching q table).length else (min q.limit 500).toNat)).map
        (·.2) := rfl
  have hlength := length_ordered q table
  rcases hsound with ⟨-, hunlimited⟩ | ⟨hpositive, hlimit⟩
  · left
    rw [if_pos hunlimited, List.take_of_length_le (by rw [List.length_drop]; omega)] at hevents
    refine ⟨?_, hevents⟩
    rw [older_eq, if_neg]
    rintro ⟨-, hfull⟩
    omega
  · rw [if_neg (by omega), min_eq_left hlimit] at hevents
    rcases Nat.lt_or_ge ((ordered q table).drop q.offset.toNat).length q.limit.toNat with
      hlast | hfull
    · left
      rw [List.take_of_length_le hlast.le] at hevents
      refine ⟨?_, hevents⟩
      rw [older_eq, if_neg]
      rintro ⟨-, hfull⟩
      rw [hevents, List.length_map] at hfull
      omega
    · right
      refine ⟨by omega, ?_, hevents, hfull⟩
      have hshown : (shown q table).length = q.limit.toNat := by
        rw [hevents, List.length_map, List.length_take, min_eq_left hfull]
      rw [older_eq, if_pos]
      refine ⟨List.ne_nil_of_length_pos (by omega), by omega⟩

variable {tables : List AuditTable}

theorem walk_cons (hpage : auditLog q table = .ok (render q table (shown q table))) :
    walk carried q (table :: tables) = render q table (shown q table) ::
      match (render q table (shown q table)).older with
      | none => []
      | some link => walk carried (link.followed carried) tables := by
  rw [walk, hpage]

theorem finishes_cons (hpage : auditLog q table = .ok (render q table (shown q table))) :
    finishes carried q (table :: tables) =
      match (render q table (shown q table)).older with
      | none => true
      | some link => finishes carried (link.followed carried) tables := by
  rw [finishes, hpage]

theorem storable_of_finishes (h : finishes carried q (table :: tables) = true) :
    Storable (min q.limit 500) ∧ Storable (max q.offset 0) := by
  refine Classical.byContradiction fun hoverflow => ?_
  rw [finishes, auditLog_error hoverflow] at h
  cases h

theorem page_of_finishes (h : finishes carried q (table :: tables) = true) :
    auditLog q table = .ok (render q table (shown q table)) :=
  auditLog_eq (storable_of_finishes h).1 (storable_of_finishes h).2 table

end Page

section Growing

theorem newestFirst_iff (row other : Nat × AuditEvent) :
    NewestFirst row other ↔
      toLex (other.2.createdAt, other.1) ≤ toLex (row.2.createdAt, row.1) := by
  rw [Prod.Lex.toLex_le_toLex, NewestFirst]

instance : IsTrans (Nat × AuditEvent) NewestFirst where
  trans row other third h h' := by
    rw [newestFirst_iff] at h h' ⊢
    exact h'.trans h

instance : Std.Total (α := Nat × AuditEvent) NewestFirst where
  total row other := by
    rw [newestFirst_iff, newestFirst_iff]
    exact le_total _ _

theorem sublist_insertionSort {rows rows' : List (Nat × AuditEvent)} (h : rows.Sublist rows') :
    (rows.insertionSort NewestFirst).Sublist (rows'.insertionSort NewestFirst) := by
  induction h with
  | slnil => exact List.Sublist.refl _
  | cons row _ ih => exact ih.trans (List.sublist_orderedInsert row _)
  | cons_cons row _ ih =>
      exact ih.orderedInsert_sublist row (List.pairwise_insertionSort NewestFirst _)

variable {carried : String → String} {q : Query} {table : AuditTable}

theorem ordered_sublist (q : Query) {table table' : AuditTable}
    (h : table.rows.Sublist table'.rows) : (ordered q table).Sublist (ordered q table') :=
  sublist_insertionSort (h.filter _)

theorem shown_of_ahead {tables : List AuditTable} (hcarried : q.Carried carried)
    (hsound : q.Sound)
    (hgrows : (table :: tables).IsChain fun table table' => table.rows.Sublist table'.rows)
    (hfinishes : finishes carried q (table :: tables) = true) {row : Nat × AuditEvent}
    (hrow : row ∈ (ordered q table).drop q.offset.toNat) :
    ∃ page ∈ walk carried q (table :: tables), row.2 ∈ page.events := by
  induction tables generalizing q table with
  | nil =>
      have hpage := page_of_finishes hfinishes
      rw [finishes_cons hpage] at hfinishes
      rw [walk_cons hpage]
      rcases page_cases hsound table with ⟨-, hevents⟩ | ⟨-, holder, -⟩
      · refine ⟨_, List.mem_cons_self, ?_⟩
        change row.2 ∈ shown q table
        rw [hevents]
        exact List.mem_map_of_mem hrow
      · rw [holder] at hfinishes
        cases hfinishes
  | cons table' tables ih =>
      have hpage := page_of_finishes hfinishes
      rw [finishes_cons hpage] at hfinishes
      rw [walk_cons hpage]
      rcases page_cases hsound table with ⟨-, hevents⟩ | ⟨hpositive, holder, hevents, -⟩
      · refine ⟨_, List.mem_cons_self, ?_⟩
        change row.2 ∈ shown q table
        rw [hevents]
        exact List.mem_map_of_mem hrow
      · rw [holder] at hfinishes
        rw [← List.take_append_drop q.limit.toNat (List.drop _ _), List.mem_append] at hrow
        rcases hrow with hhere | hahead
        · refine ⟨_, List.mem_cons_self, ?_⟩
          change row.2 ∈ shown q table
          rw [hevents]
          exact List.mem_map_of_mem hhere
        · -- New events only push the older ones further back, so the next page is not past them.
          obtain ⟨hgrown, hgrows⟩ := List.isChain_cons_cons.mp hgrows
          have hnext : row ∈ (ordered ((q.link (q.offset + q.limit)).followed carried)
              table').drop (q.offset + q.limit).toNat := by
            rw [List.drop_drop] at hahead
            have hmoved := ((ordered_sublist q hgrown).drop _).subset hahead
            rw [ordered_link hcarried]
            exact (List.drop_sublist_drop_left _ (by omega)).subset hmoved
          obtain ⟨page, hmem, hshown⟩ := ih (carried_link hcarried _) hsound hgrows hfinishes hnext
          rw [holder]
          exact ⟨page, List.mem_cons_of_mem _ hmem, hshown⟩

/-- One call that is denied, by task `i`. -/
def refusing (i : Nat) : List GateLabel :=
  .start (.callTool denial 0) :: acts i 2 ++ names i (toString i) :: acts i 3

def once : GateConfig :=
  ((machine deps).run distinctEvents (Config.initial office) (refusing 0)).get (by decide)

def twice : GateConfig :=
  ((machine deps).run distinctEvents once (refusing 1)).get (by decide)

end Growing

section Still

variable {carried : String → String} {q : Query} {table : AuditTable}

theorem walk_still (hrows : Storable table.rows.length) (hcarried : q.Carried carried)
    (hsound : q.Sound) (hoffset : 0 ≤ q.offset)
    (hwithin : q.offset.toNat ≤ (matching q table).length) {pages : Nat}
    (hpages : ((ordered q table).drop q.offset.toNat).length < pages) :
    finishes carried q (List.replicate pages table) = true ∧
      (walk carried q (List.replicate pages table)).flatMap (·.events) =
        ((ordered q table).drop q.offset.toNat).map (·.2) := by
  induction pages generalizing q with
  | zero => omega
  | succ pages ih =>
      have hstorable : Storable (max q.offset 0) := by
        have hlength := length_matching q table
        unfold Storable at *
        omega
      have hpage := auditLog_eq hsound.storable hstorable table
      rw [List.replicate_succ, finishes_cons hpage, walk_cons hpage, List.flatMap_cons]
      change _ ∧ shown q table ++ _ = _
      rcases page_cases hsound table with
        ⟨holder, hevents⟩ | ⟨hpositive, holder, hevents, hfull⟩
      · rw [holder, hevents, List.flatMap_nil, List.append_nil]
        exact ⟨rfl, rfl⟩
      · rw [holder, hevents]
        have hrest : (ordered ((q.link (q.offset + q.limit)).followed carried) table).drop
            (q.offset + q.limit).toNat =
              ((ordered q table).drop q.offset.toNat).drop q.limit.toNat := by
          rw [ordered_link hcarried, List.drop_drop, Int.toNat_add hoffset hpositive.le]
        have hoffset' : 0 ≤ q.offset + q.limit := by omega
        rw [List.length_drop, length_ordered] at hfull hpages
        have hwithin' : (q.offset + q.limit).toNat ≤
            (matching ((q.link (q.offset + q.limit)).followed carried) table).length := by
          rw [matching_link hcarried]
          omega
        have hnext := ih (q := (q.link (q.offset + q.limit)).followed carried)
          (carried_link hcarried _) hsound hoffset' hwithin'
        change (List.length (List.drop (q.offset + q.limit).toNat _) < pages →
          _ ∧ _ = List.map _ (List.drop (q.offset + q.limit).toNat _)) at hnext
        rw [hrest, List.length_drop, List.length_drop, length_ordered] at hnext
        obtain ⟨hfinishes, hwalked⟩ := hnext (by omega)
        refine ⟨hfinishes, ?_⟩
        rw [hwalked, ← List.map_append, List.take_append_drop]

theorem page_of_unsound (hunsound : ¬q.Sound) (hlimit : Storable (min q.limit 500))
    (hoffset : q.offset = 0) (table : AuditTable) :
    0 ≤ q.limit ∧ (render q table (shown q table)).older = none ∧
      shown q table = ((ordered q table).take (min q.limit 500).toNat).map (·.2) := by
  have hcut : q.limit = 0 ∨ 500 < q.limit := by
    unfold Query.Sound Storable at *
    omega
  have hevents : shown q table =
      ((ordered q table).take (min q.limit 500).toNat).map (·.2) := by
    rw [shown, if_neg (by omega), hoffset]
    rfl
  refine ⟨by omega, ?_, hevents⟩
  rw [older_eq, if_neg]
  rintro ⟨hne, hfull⟩
  have hpositive := List.length_pos_of_ne_nil hne
  rw [hevents, List.length_map, List.length_take] at hfull hpositive
  omega

end Still

end McpGatekeeper.AuditPage
