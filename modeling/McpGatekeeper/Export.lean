import Mathlib.Data.List.Sort
import McpGatekeeper.Database
import McpGatekeeper.Filing
import McpGatekeeper.Interleaving.FairLock
import McpGatekeeper.Narrative
import McpGatekeeper.Scenarios

/-!
The JSONL export of the audit log, and what a later export adds to an earlier one.

An event is stamped first and then waits for the connection; the export goes by the
stamps.  An export holds the lock while it reads and changes nothing, so it may be taken
at any moment of a run.
-/

namespace McpGatekeeper.Export

open Interleaving
open McpGatekeeper.Audit
open McpGatekeeper.Clock
open McpGatekeeper.Conduct
open McpGatekeeper.Database
open McpGatekeeper.Filing
open McpGatekeeper.Gateway
open McpGatekeeper.JsonValues
open McpGatekeeper.Narrative
open McpGatekeeper.Operations
open McpGatekeeper.PolicyEngine
open McpGatekeeper.Scenarios
open McpGatekeeper.System

def actionValue : Action → String
  | .allow => "allow"
  | .deny => "deny"
  | .requireApproval => "require_approval"

def sourceValue : Source → String
  | .rule => "rule"
  | .default => "default"

def outcomeValue : Outcome → String
  | .forwarded => "forwarded"
  | .deniedByPolicy => "denied_by_policy"
  | .deniedByApprover => "denied_by_approver"
  | .dismissedByClient => "dismissed_by_client"
  | .timedOut => "timed_out"
  | .awaitingApproval => "awaiting_approval"
  | .error => "error"
  | .unknownTool => "unknown_tool"

def statusValue : ResultStatus → String
  | .ok => "ok"
  | .error => "error"

def optional (value : Option String) : Json :=
  match value with
  | none => .null
  | some text => .str text

def optionalInt (value : Option Int) : Json :=
  match value with
  | none => .null
  | some number => .int number

/-- `AuditEvent.to_json`; the latency is in units of the counter. -/
def toJson (event : AuditEvent) : JsonObject :=
  [("event_id", .str event.eventId),
   ("timestamp", .str event.createdAt.isoformat),
   ("tool", .str event.tool),
   ("upstream", .str event.upstream),
   ("arguments", .obj event.arguments),
   ("action", .str (actionValue event.action)),
   ("decision", .obj
     [("source", .str (sourceValue event.decisionSource)),
      ("reason", optional event.decisionReason),
      ("rule_index", optionalInt (event.ruleIndex.map Int.ofNat))]),
   ("outcome", .str (outcomeValue event.outcome)),
   ("approval", .obj
     [("id", optional event.approvalId), ("approver", optional event.approver)]),
   ("latency_ms", optionalInt event.latency),
   ("result_status", optional (event.resultStatus.map statusValue)),
   ("client", optional event.clientName),
   ("error", optional event.error)]

/-- `AuditEvent.to_jsonl` -/
def toJsonl (event : AuditEvent) : JsonObject :=
  dumps (toJson event)

/-- `ORDER BY created_at ASC, id ASC`, of which the first is a text. -/
def Precedes (row other : Nat × AuditEvent) : Prop :=
  row.2.createdAt.isoformat < other.2.createdAt.isoformat ∨
    row.2.createdAt.isoformat = other.2.createdAt.isoformat ∧ row.1 ≤ other.1

instance : DecidableRel Precedes :=
  fun _ _ => inferInstanceAs (Decidable (_ ∨ _ ∧ _))

/-- `export_jsonl`, each line by the value it is the text of. -/
def exportJsonl (table : AuditTable) : List JsonObject :=
  (table.rows.insertionSort Precedes).map fun row => toJsonl row.2

theorem toJsonl_row (event : AuditEvent) : toJsonl event.row = toJsonl event := by
  simp only [toJsonl, toJson, AuditEvent.row, dumps, sortKeys, dumps_dumps]

theorem eventId_of_toJsonl {event event' : AuditEvent} (h : toJsonl event = toJsonl event') :
    event.eventId = event'.eventId := by
  have hmem : ("event_id", Json.str event.eventId) ∈ toJsonl event :=
    mem_dumps.mpr ⟨_, List.mem_cons_self, rfl⟩
  rw [h] at hmem
  obtain ⟨⟨key, value⟩, hfield, heq⟩ := mem_dumps.mp hmem
  simp only [Prod.mk.injEq] at heq
  obtain ⟨rfl, hvalue⟩ := heq
  obtain rfl : value = .str event'.eventId := by simpa [toJson] using hfield
  exact (Json.str.inj hvalue).symm

/-- The rows lie in the order of their keys and of their stamps, the events that wait for
the connection come after them, and nothing lies in the future. -/
structure Chronological (table : AuditTable) (waiting : List AuditEvent)
    (now : DateTime) : Prop where
  keys : (table.rows.map (·.1)).Pairwise (· < ·)
  issued : ∀ row ∈ table.rows, row.1 ≤ table.seq
  ids : (table.rows.map (·.2.eventId)).Nodup
  stamps : (table.rows.map (·.2.createdAt) ++ waiting.map (·.createdAt)).Pairwise (· ≤ ·)
  past : ∀ stamp ∈ table.rows.map (·.2.createdAt) ++ waiting.map (·.createdAt), stamp ≤ now

theorem rows_record {table : AuditTable} {event : AuditEvent}
    (hfresh : (table.rows.all fun row => row.2.eventId != event.eventId) = true) :
    (table.record event).rows = table.rows ++ [(table.seq + 1, event.row)] := by
  rw [AuditTable.record, List.filter_eq_self.mpr (List.all_eq_true.mp hfresh)]

namespace Chronological

variable {table : AuditTable} {waiting : List AuditEvent} {event : AuditEvent} {now : DateTime}

theorem empty (now : DateTime) : Chronological {} [] now where
  keys := .nil
  issued row h := by cases h
  ids := List.nodup_nil
  stamps := .nil
  past stamp h := by cases h

theorem later (h : Chronological table waiting now) {now' : DateTime} (hnow : now ≤ now') :
    Chronological table waiting now' :=
  { h with past := fun stamp hstamp => le_trans (h.past stamp hstamp) hnow }

theorem sublist (h : Chronological table waiting now) {waiting' : List AuditEvent}
    (hsublist : waiting'.Sublist waiting) : Chronological table waiting' now := by
  have hstamps := (hsublist.map (·.createdAt)).append_left (table.rows.map (·.2.createdAt))
  exact { h with
    stamps := h.stamps.sublist hstamps
    past := fun stamp hstamp => h.past stamp (hstamps.subset hstamp) }

theorem join (h : Chronological table waiting now) {joined : Option AuditEvent}
    (hnow : ∀ event, joined = some event → event.createdAt = now) :
    Chronological table (waiting ++ joined.toList) now := by
  rcases joined with _ | event
  · rw [Option.toList_none, List.append_nil]
    exact h
  · obtain rfl := hnow event rfl
    refine { h with stamps := ?_, past := ?_ }
    · rw [List.map_append, ← List.append_assoc, List.pairwise_append]
      refine ⟨h.stamps, List.pairwise_singleton _ _, fun stamp hstamp stamp' hstamp' => ?_⟩
      obtain rfl : stamp' = event.createdAt := List.mem_singleton.mp hstamp'
      exact h.past stamp hstamp
    · intro stamp hstamp
      rw [List.map_append, ← List.append_assoc, List.mem_append] at hstamp
      rcases hstamp with hold | hnew
      · exact h.past stamp hold
      · obtain rfl : stamp = event.createdAt := List.mem_singleton.mp hnew
        exact le_refl _

theorem record (h : Chronological table (event :: waiting) now)
    (hfresh : (table.rows.all fun row => row.2.eventId != event.eventId) = true) :
    Chronological (table.record event) waiting now := by
  have hstamps : (table.record event).rows.map (·.2.createdAt) ++ waiting.map (·.createdAt) =
      table.rows.map (·.2.createdAt) ++ (event :: waiting).map (·.createdAt) := by
    rw [rows_record hfresh, List.map_append, List.append_assoc]
    rfl
  refine ⟨?_, ?_, ?_, ?_, ?_⟩
  · rw [rows_record hfresh, List.map_append, List.pairwise_append]
    refine ⟨h.keys, List.pairwise_singleton _ _, fun key hkey key' hkey' => ?_⟩
    obtain ⟨row, hrow, rfl⟩ := List.mem_map.mp hkey
    obtain rfl : key' = table.seq + 1 := by simpa using hkey'
    exact Nat.lt_succ_of_le (h.issued row hrow)
  · rw [rows_record hfresh]
    intro row hrow
    rcases List.mem_append.mp hrow with hold | hnew
    · exact Nat.le_succ_of_le (h.issued row hold)
    · obtain rfl : row = (table.seq + 1, event.row) := by simpa using hnew
      exact Nat.le_refl _
  · rw [rows_record hfresh, List.map_append, List.nodup_append]
    refine ⟨h.ids, List.nodup_singleton _, fun id hid id' hid' => ?_⟩
    obtain ⟨row, hrow, rfl⟩ := List.mem_map.mp hid
    obtain rfl : id' = event.eventId := List.mem_singleton.mp hid'
    simpa using List.all_eq_true.mp hfresh row hrow
  · rw [hstamps]
    exact h.stamps
  · rw [hstamps]
    exact h.past

theorem exportJsonl_eq (h : Chronological table waiting now) :
    exportJsonl table = table.rows.map fun row => toJsonl row.2 := by
  have hstamps := List.pairwise_map.mp (List.pairwise_append.mp h.stamps).1
  have hrows : table.rows.Pairwise Precedes := by
    refine ((List.pairwise_map.mp h.keys).and hstamps).imp ?_
    rintro row other ⟨hkeys, hle⟩
    rcases lt_or_eq_of_le ((isoformat_le _ _).mpr hle) with hlt | heq
    · exact .inl hlt
    · exact .inr ⟨heq, Nat.le_of_lt hkeys⟩
  rw [exportJsonl, hrows.insertionSort_eq]

theorem nodup_export (h : Chronological table waiting now) : (exportJsonl table).Nodup := by
  rw [h.exportJsonl_eq]
  refine List.pairwise_map.mpr ((List.pairwise_map.mp h.ids).imp ?_)
  exact fun hne heq => hne (eventId_of_toJsonl heq)

end Chronological

def underLock (op : Op) : Bool :=
  (databaseCall op).isSome

abbrev GateLine := Line World Entry Res Halt Reply

def inFlight (q : GateLine) : List AuditEvent :=
  q.ops.filterMap filed

/-- The clock is never set back, and no two events have one identifier. -/
def distinctEvents : GateAssumption where
  act _ _ op s :=
    match op with
    | .recordAudit event => s.world.audit.rows.all fun row => row.2.eventId != event.eventId
    | _ => true
  env := forwardClock.env

/-- Every event of the history is in the table. -/
def Kept (s : GateState) : Prop :=
  ∀ own ∈ s.history, ∀ event, filed own.op = some event →
    ∃ key, (key, event.row) ∈ s.world.audit.rows

structure InOrder (q : GateLine) : Prop where
  line : q.Orderly underLock
  table : Chronological q.config.state.world.audit (inFlight q) q.config.state.world.now

theorem filed_guarded (op : Option Op) :
    (op.filter underLock).toList.filterMap filed = (op.bind filed).toList := by
  rcases op with _ | op
  · rfl
  · cases op <;> rfl

theorem Chronological.exec {i : Nat} {entry : Entry} {op : Op} {choice : Choice} {s : GateState}
    {answer : Res op} {w' : World} {waiting : List AuditEvent}
    (h : Chronological s.world.audit ((filed op).toList ++ waiting) s.world.now)
    (hassumed : distinctEvents.act i entry op s = true)
    (hexec : exec op choice s.world = some (answer, w')) :
    Chronological w'.audit waiting w'.now := by
  rw [exec_audit hexec, exec_now hexec]
  cases op
  case recordAudit event => exact h.record hassumed
  all_goals
    exact h

theorem exec_rows {i : Nat} {entry : Entry} {op : Op} {choice : Choice} {s : GateState}
    {answer : Res op} {w' : World} (hassumed : distinctEvents.act i entry op s = true)
    (h : exec op choice s.world = some (answer, w')) :
    w'.audit.rows = s.world.audit.rows ++
      ((filed op).map fun event => (s.world.audit.seq + 1, event.row)).toList := by
  rw [exec_audit h]
  cases op
  case recordAudit event => exact rows_record hassumed
  all_goals
    exact (List.append_nil _).symm

section Rows

variable {deps : GatewayDeps}

theorem rows_step {c c' : GateConfig} (h : (machine deps).Steps distinctEvents c c') :
    c.state.world.audit.rows <+: c'.state.world.audit.rows ∧ (Kept c.state → Kept c'.state) := by
  obtain ⟨label, hpermits, hstep⟩ := h
  obtain ⟨entry, -, rfl⟩ | ⟨i, choice, entry, op, next, answer, world, rfl, htask, hexec, rfl⟩ |
    ⟨change, world, -, henv, rfl⟩ | ⟨i, entry, op, next, -, -, rfl⟩ := Machine.step_cases hstep
  · exact ⟨List.prefix_refl _, id⟩
  · have hrows := exec_rows (Assumption.act_of_permits hpermits htask) hexec
    refine ⟨hrows ▸ List.prefix_append _ _, fun hkept own hown event hfiled => ?_⟩
    rw [State.push_world, hrows]
    rcases List.mem_cons.mp hown with rfl | hold
    · exact ⟨_, List.mem_append_right _ (by rw [hfiled]; exact List.mem_singleton_self _)⟩
    · obtain ⟨key, hrow⟩ := hkept own hold event hfiled
      exact ⟨key, List.mem_append_left _ hrow⟩
  · cases change <;> cases henv <;> exact ⟨List.prefix_refl _, id⟩
  · exact ⟨List.prefix_refl _, id⟩

theorem rows_grow {c c' : GateConfig} (h : (machine deps).Reaches distinctEvents c c') :
    c.state.world.audit.rows <+: c'.state.world.audit.rows := by
  induction h with
  | refl => exact List.prefix_refl _
  | tail _ hstep ih => exact ih.trans (rows_step hstep).1

theorem kept_of_reaches {world : World} {c : GateConfig}
    (h : (machine deps).Reaches distinctEvents (Config.initial world) c) : Kept c.state := by
  induction h with
  | refl =>
      intro own hown
      cases hown
  | tail _ hstep ih => exact (rows_step hstep).2 ih

end Rows

section Runs

variable {deps : GatewayDeps} {world : World}

theorem code_head (deps : GatewayDeps) (entry : Entry) :
    (code deps entry).head.bind filed = none := by
  cases entry with
  | expireOverdue now => cases now <;> rfl
  | callTool | listTools | openApproval | decide | dismiss | get | wait | pending => rfl

theorem joins_now {A : GateAssumption} {c : GateConfig}
    (hreach : (machine deps).Reaches A (Config.initial world) c) {i : Nat} {entry : Entry}
    {rest : Prog Reply} (htask : c.tasks[i]? = some ⟨entry, rest⟩) {event : AuditEvent}
    (hrest : rest.head.bind filed = some event) {op : Op} {choice : Choice} {answer : Res op}
    {s : GateState} {after : World}
    (hstate : c.state = s.push ⟨i, entry, op, answer, s.world⟩ after)
    (hexec : exec op choice s.world = some (answer, after)) : event.createdAt = after.now := by
  rcases rest with _ | _ | ⟨last, next⟩
  · cases hrest
  · cases hrest
  cases last <;> cases hrest
  obtain ⟨visits, hruns⟩ := hreach.runs
  obtain ⟨invocation, polls, rfl⟩ : ∃ invocation polls, entry = .callTool invocation polls :=
    ((conduct_good hruns.reaches).pre htask rfl).2 rfl
  obtain ⟨eventId, ended, items, hjournal, -⟩ := (hruns.narrated (code_tells deps)).next htask
  rw [hstate, State.push_history, journal_cons_self] at hjournal
  cases (List.cons.inj hjournal).1
  obtain ⟨hread, rfl⟩ := Prod.mk.inj (Option.some.inj hexec)
  exact hread.symm

theorem InOrder.step {q q' : GateLine}
    (hreach : (machine deps).Reaches distinctEvents (Config.initial world) q'.config)
    (hstep : (machine deps).StepsInLine underLock distinctEvents q q') (h : InOrder q) :
    InOrder q' := by
  obtain ⟨label, hpermits, hstep⟩ := hstep
  refine ⟨h.line.step hstep, ?_⟩
  obtain ⟨entry, rfl, hstate, hops⟩ | ⟨i, choice, entry, op, next, answer, after, older, rfl,
    htask, hexec, hstate, hafter, hbefore, hops⟩ | ⟨change, after, rfl, henv, hstate, hops⟩ |
    ⟨i, rfl, hstate, hops⟩ := Machine.stepInLine_cases h.line hstep
  · have hflight : inFlight q' = inFlight q := by
      rw [inFlight, hops, List.filterMap_append, filed_guarded]
      change _ ++ ((code deps entry).head.bind filed).toList = _
      rw [code_head]
      exact List.append_nil _
    rw [hflight, hstate]
    exact h.table
  · have hfirst : inFlight q = (filed op).toList ++ older.filterMap filed := by
      rw [inFlight, hbefore, List.filterMap_append, filed_guarded]
      rfl
    have hlast : inFlight q' =
        older.filterMap filed ++ ((next answer).head.bind filed).toList := by
      rw [inFlight, hops, List.filterMap_append, filed_guarded]
    have htable := h.table
    rw [hfirst] at htable
    have hgranted := htable.exec (Assumption.act_of_permits hpermits htask) hexec
    rw [hlast, hstate]
    exact hgranted.join fun event hjoins => joins_now hreach hafter hjoins hstate hexec
  · have hflight : inFlight q' = inFlight q := by rw [inFlight, hops, inFlight]
    rw [hflight, hstate]
    cases change with
    | tick now perfCounter =>
        cases henv
        exact h.table.later (of_decide_eq_true hpermits)
    | disconnect upstream =>
        cases henv
        exact h.table
  · rw [hstate]
    exact h.table.sublist (hops.filterMap filed)

theorem inOrder_of_reaches (hworld : Chronological world.audit [] world.now) {q : GateLine}
    (hreach : (machine deps).ReachesInLine underLock distinctEvents (Line.initial world) q) :
    InOrder q := by
  induction hreach with
  | refl => exact ⟨.initial world, hworld⟩
  | tail hreach hstep ih =>
      exact ih.step (Machine.ReachesInLine.reaches (hreach.tail hstep)) hstep

/-- An export begins with every earlier one, and has every event that was recorded before it,
each once. -/
theorem export_grows (hworld : Chronological world.audit [] world.now) {q q' : GateLine}
    (hreach : (machine deps).ReachesInLine underLock distinctEvents (Line.initial world) q)
    (hlater : (machine deps).ReachesInLine underLock distinctEvents q q') :
    exportJsonl q.config.state.world.audit <+: exportJsonl q'.config.state.world.audit ∧
    (∀ own ∈ q.config.state.history, ∀ event, filed own.op = some event →
      toJsonl event ∈ exportJsonl q.config.state.world.audit) ∧
    (exportJsonl q.config.state.world.audit).Nodup := by
  have hearlier := (inOrder_of_reaches hworld hreach).table
  have hlast := (inOrder_of_reaches hworld (hreach.trans hlater)).table
  refine ⟨?_, fun own hown event hfiled => ?_, hearlier.nodup_export⟩
  · rw [hearlier.exportJsonl_eq, hlast.exportJsonl_eq]
    exact (rows_grow hlater.reaches).map _
  · obtain ⟨key, hrow⟩ := kept_of_reaches hreach.reaches own hown event hfiled
    rw [hearlier.exportJsonl_eq, ← toJsonl_row]
    exact List.mem_map.mpr ⟨_, hrow, rfl⟩

end Runs

/-- Two denied calls: task 1 is the first to ask for the connection. -/
def queueing : List GateLabel :=
  [.start (.callTool denial 0), .start (.callTool denial 0)] ++ acts 0 2 ++ acts 1 2 ++
    names 1 "f" :: acts 1 2 ++ names 0 "e" :: acts 0 2

def once : GateLine :=
  ((machine deps).runInLine underLock distinctEvents (Line.initial office)
    (queueing ++ [act 1])).get (by decide)

def twice : GateLine :=
  ((machine deps).runInLine underLock distinctEvents once [act 0]).get (by decide)

theorem export_grows_queued :
    (exportJsonl once.config.state.world.audit).length = 1 ∧
    (exportJsonl twice.config.state.world.audit).length = 2 ∧
    exportJsonl once.config.state.world.audit <+: exportJsonl twice.config.state.world.audit := by
  have hreach : (machine deps).ReachesInLine underLock distinctEvents (Line.initial office)
      once := Machine.reachesInLine_get _
  have hlater : (machine deps).ReachesInLine underLock distinctEvents once twice :=
    Machine.reachesInLine_get _
  exact ⟨rfl, rfl, (export_grows (.empty noon) hreach hlater).1⟩

end McpGatekeeper.Export
