import Mathlib.Data.Prod.Lex
import Mathlib.Data.String.Basic
import McpGatekeeper.OnDisk

namespace McpGatekeeper.JsonLines

open Interleaving
open McpGatekeeper.Approvals
open McpGatekeeper.Audit
open McpGatekeeper.Clock
open McpGatekeeper.Export
open McpGatekeeper.Gateway
open McpGatekeeper.JsonText
open McpGatekeeper.JsonValues
open McpGatekeeper.OnDisk
open McpGatekeeper.Operations
open McpGatekeeper.Rows
open McpGatekeeper.Scenarios
open McpGatekeeper.System
open McpGatekeeper.TextTables
open McpGatekeeper.Timestamps

/-- `ORDER BY created_at ASC, id ASC` -/
def PrecedesText (row other : Nat × AuditRow) : Prop :=
  row.2.createdAt < other.2.createdAt ∨
    row.2.createdAt = other.2.createdAt ∧ row.1 ≤ other.1

instance : DecidableRel PrecedesText :=
  fun _ _ => inferInstanceAs (Decidable (_ ∨ _ ∧ _))

section Files

variable (spell : List Char → String)

/-- `export_jsonl`; `none` where a row cannot be read. -/
def exportLines (tables : Tables) : Option (List String) :=
  (tables.audit.insertionSort PrecedesText).mapM fun row =>
    (rowToEvent spell row.2).map fun event => dumpsText (toJson event)

/-- The command `export`, and the download of the UI. -/
def exportFile (tables : Tables) : Option String :=
  (exportLines spell tables).map fun lines =>
    String.ofList ((lines.map (·.toList)).flatMap (· ++ ['\n']))

/-- A reader of the file: `json.loads` of each line. -/
def readFile (text : String) : Option (List Json) :=
  (PythonText.split '\n' text.toList).dropLast.mapM fun line =>
    loads spell (String.ofList line)

end Files

section Lines

variable {spell : List Char → String} {event event' : AuditEvent}

theorem nodup_toJson (event : AuditEvent) : ((toJson event).map (·.1)).Nodup := by
  have hkeys : (toJson event).map (·.1) = ["event_id", "timestamp", "tool", "upstream",
      "arguments", "action", "decision", "outcome", "approval", "latency_ms", "result_status",
      "client", "error"] :=
    rfl
  rw [hkeys]
  decide

theorem proper_optional (value : Option String) : proper spell (optional value) = true := by
  cases value <;> rfl

theorem proper_optionalInt (value : Option Int) : proper spell (optionalInt value) = true := by
  cases value <;> rfl

theorem proper_toJson (h : proper spell (.obj event.arguments) = true) :
    proper spell (.obj (toJson event)) = true := by
  simpa [toJson, proper, properFields, proper_optional, proper_optionalInt] using h

theorem newline_not_mem (h : proper spell (.obj event.arguments) = true) :
    '\n' ∉ (dumpsText (toJson event)).toList := by
  intro hmem
  have hall := List.all_eq_true.mp (printable_dumpsText (proper_toJson h)) '\n' hmem
  cases hall

theorem loads_line (h : proper spell (.obj event.arguments) = true) :
    loads spell (dumpsText (toJson event)) = some (.obj (toJsonl event)) :=
  loads_dumpsText (proper_toJson h)

end Lines

section Export

variable {spell : List Char → String} {approvals : ApprovalsTable} {audit : AuditTable}

theorem precedes_text (row other : Nat × AuditEvent) :
    Precedes row other ↔ PrecedesText (row.1, recordRow row.2) (other.1, recordRow other.2) :=
  Iff.rfl

/-- The events of the table, oldest first. -/
def chronicle (audit : AuditTable) : List AuditEvent :=
  (audit.rows.insertionSort Precedes).map (·.2)

theorem precedes_iff (row other : Nat × AuditEvent) :
    Precedes row other ↔
      toLex (row.2.createdAt.isoformat, row.1) ≤ toLex (other.2.createdAt.isoformat, other.1) := by
  rw [Prod.Lex.toLex_le_toLex, Precedes]

instance : IsTrans (Nat × AuditEvent) Precedes where
  trans row other third h h' := by
    rw [precedes_iff] at h h' ⊢
    exact h.trans h'

instance : Std.Total (α := Nat × AuditEvent) Precedes where
  total row other := by
    rw [precedes_iff, precedes_iff]
    exact le_total _ _

theorem chronicle_ordered (audit : AuditTable) :
    (chronicle audit).Pairwise fun event later => event.createdAt ≤ later.createdAt := by
  refine List.pairwise_map.mpr ((List.pairwise_insertionSort Precedes _).imp ?_)
  rintro row other (h | ⟨h, -⟩)
  · exact (isoformat_le _ _).mp h.le
  · exact (isoformat_le _ _).mp h.le

theorem settled_chronicle (h : Readable spell approvals audit) :
    ∀ event ∈ chronicle audit, Settled spell event.arguments := by
  intro event hevent
  obtain ⟨row, hrow, rfl⟩ := List.mem_map.mp hevent
  exact h.audit row ((List.mem_insertionSort Precedes).mp hrow)

theorem exportJsonl_chronicle (audit : AuditTable) :
    exportJsonl audit = (chronicle audit).map toJsonl := by
  rw [exportJsonl, chronicle, List.map_map, Function.comp_def]

theorem mapM_rowToEvent {rows : List (Nat × AuditEvent)}
    (h : ∀ row ∈ rows, Settled spell row.2.arguments) :
    (rows.map fun row => (row.1, recordRow row.2)).mapM (fun row => rowToEvent spell row.2) =
      some (rows.map (·.2)) := by
  induction rows with
  | nil => rfl
  | cons row rows ih =>
      obtain ⟨hrow, hrows⟩ := List.forall_mem_cons.mp h
      rw [List.map_cons, List.mapM_cons, rowToEvent_recordRow hrow, ih hrows]
      rfl

theorem mapM_line {rows : List (Nat × AuditEvent)}
    (h : ∀ row ∈ rows, Settled spell row.2.arguments) :
    (rows.map fun row => (row.1, recordRow row.2)).mapM
        (fun row => (rowToEvent spell row.2).map fun event => dumpsText (toJson event)) =
      some ((rows.map (·.2)).map fun event => dumpsText (toJson event)) := by
  induction rows with
  | nil => rfl
  | cons row rows ih =>
      obtain ⟨hrow, hrows⟩ := List.forall_mem_cons.mp h
      rw [List.map_cons, List.mapM_cons, rowToEvent_recordRow hrow, ih hrows]
      rfl

theorem sort_written (approvals : ApprovalsTable) (audit : AuditTable) :
    (written approvals audit).audit.insertionSort PrecedesText =
      (audit.rows.insertionSort Precedes).map fun row => (row.1, recordRow row.2) :=
  (List.map_insertionSort Precedes PrecedesText _ _
    fun row _ other _ => precedes_text row other).symm

theorem exportLines_written (h : Readable spell approvals audit) :
    exportLines spell (written approvals audit) =
      some ((chronicle audit).map fun event => dumpsText (toJson event)) := by
  rw [exportLines, sort_written]
  exact mapM_line fun row hrow => h.audit row ((List.mem_insertionSort Precedes).mp hrow)

theorem mapM_loads {events : List AuditEvent}
    (h : ∀ event ∈ events, Settled spell event.arguments) :
    (events.map fun event => (dumpsText (toJson event)).toList).mapM
        (fun line => loads spell (String.ofList line)) =
      some (events.map fun event => Json.obj (toJsonl event)) := by
  induction events with
  | nil => rfl
  | cons event events ih =>
      obtain ⟨hevent, hevents⟩ := List.forall_mem_cons.mp h
      rw [List.map_cons, List.mapM_cons, String.ofList_toList, loads_line hevent.proper, ih hevents]
      rfl

theorem readFile_exportFile (h : Readable spell approvals audit) :
    ∃ text, exportFile spell (written approvals audit) = some text ∧
      text.toList.count '\n' = audit.rows.length ∧
      readFile spell text = some ((exportJsonl audit).map .obj) := by
  have hsettled := settled_chronicle h
  have hlines : ∀ line ∈ (chronicle audit).map fun event => (dumpsText (toJson event)).toList,
      '\n' ∉ line := by
    intro line hline
    obtain ⟨event, hevent, rfl⟩ := List.mem_map.mp hline
    exact newline_not_mem (hsettled event hevent).proper
  refine ⟨_, by rw [exportFile, exportLines_written h]; rfl, ?_, ?_⟩
  · rw [String.toList_ofList, List.map_map]
    refine (PythonText.count_lines hlines).trans ?_
    rw [List.length_map, chronicle, List.length_map, List.length_insertionSort]
  · rw [readFile, String.toList_ofList, List.map_map, exportJsonl_chronicle, List.map_map]
    change ((PythonText.split '\n' (((chronicle audit).map fun event =>
      (dumpsText (toJson event)).toList).flatMap (· ++ ['\n']))).dropLast.mapM _) = _
    rw [PythonText.split_lines hlines, List.dropLast_concat]
    exact mapM_loads hsettled

end Export

section Lossless

theorem value_of_dumps {fields fields' : JsonObject} (hkeys : (fields'.map (·.1)).Nodup)
    (h : dumps fields = dumps fields') {i : Nat} {key : String} {value value' : Json}
    (hfield : fields[i]? = some (key, value)) (hfield' : fields'[i]? = some (key, value')) :
    sortKeys value = sortKeys value' := by
  have hmem : (key, sortKeys value) ∈ dumps fields :=
    mem_dumps.mpr ⟨_, List.mem_of_getElem? hfield, rfl⟩
  rw [h] at hmem
  obtain ⟨⟨other, read⟩, hread, heq⟩ := mem_dumps.mp hmem
  obtain ⟨rfl, hvalue⟩ := Prod.mk.inj heq
  have hunique := List.inj_on_of_nodup_map hkeys hread (List.mem_of_getElem? hfield') rfl
  rw [← (Prod.mk.inj hunique).2]
  exact hvalue.symm

theorem optional_inj {value value' : Option String}
    (h : sortKeys (optional value) = sortKeys (optional value')) : value = value' := by
  cases value <;> cases value' <;> simp_all [Export.optional, sortKeys]

theorem optionalInt_inj {value value' : Option Int}
    (h : sortKeys (optionalInt value) = sortKeys (optionalInt value')) : value = value' := by
  cases value <;> cases value' <;> simp_all [optionalInt, sortKeys]

theorem str_inj {text text' : String} (h : sortKeys (.str text) = sortKeys (.str text')) :
    text = text' := by
  simpa [sortKeys] using h

theorem value_inj {α : Type} {members : List α} {value : α → String}
    (hmember : ∀ a, member members value (value a) = some a) {a a' : α}
    (h : value a = value a') : a = a' := by
  have hread := hmember a
  rw [h, hmember] at hread
  exact (Option.some.inj hread).symm

theorem toJsonl_injective {event event' : AuditEvent}
    (hsorted : dumps event.arguments = event.arguments)
    (hsorted' : dumps event'.arguments = event'.arguments)
    (h : toJsonl event = toJsonl event') : event = event' := by
  have hvalue : ∀ {i : Nat} {key : String} {value value' : Json},
      (toJson event)[i]? = some (key, value) → (toJson event')[i]? = some (key, value') →
        sortKeys value = sortKeys value' :=
    value_of_dumps (nodup_toJson event') h
  have harguments : event.arguments = event'.arguments := by
    have hobj := hvalue (i := 4) rfl rfl
    rw [sortKeys, sortKeys, hsorted, hsorted'] at hobj
    exact Json.obj.inj hobj
  have hdecision := Json.obj.inj (hvalue (i := 6) rfl rfl)
  have hsource := str_inj (value_of_dumps (i := 0) (by simp) hdecision rfl rfl)
  have hreason := optional_inj (value_of_dumps (i := 1) (by simp) hdecision rfl rfl)
  have hrule := optionalInt_inj (value_of_dumps (i := 2) (by simp) hdecision rfl rfl)
  have happroval := Json.obj.inj (hvalue (i := 8) rfl rfl)
  have hid := optional_inj (value_of_dumps (i := 0) (by simp) happroval rfl rfl)
  have happrover := optional_inj (value_of_dumps (i := 1) (by simp) happroval rfl rfl)
  have hstamp : event.createdAt = event'.createdAt := by
    have hread := fromisoformat_isoformat event.createdAt
    rw [str_inj (hvalue (i := 1) rfl rfl), fromisoformat_isoformat] at hread
    exact (Option.some.inj hread).symm
  have hstatus := optional_inj (hvalue (i := 10) rfl rfl)
  have heventId := str_inj (hvalue (i := 0) rfl rfl)
  have htool := str_inj (hvalue (i := 2) rfl rfl)
  have hupstream := str_inj (hvalue (i := 3) rfl rfl)
  have haction := value_inj member_action (str_inj (hvalue (i := 5) rfl rfl))
  have houtcome := value_inj member_outcome (str_inj (hvalue (i := 7) rfl rfl))
  have hlatency := optionalInt_inj (hvalue (i := 9) rfl rfl)
  have hclient := optional_inj (hvalue (i := 11) rfl rfl)
  have herror := optional_inj (hvalue (i := 12) rfl rfl)
  have hsource := value_inj member_source hsource
  have hrule := Option.map_injective (fun _ _ => Int.ofNat.inj) hrule
  have hstatus := Option.map_injective (fun _ _ => value_inj member_resultStatus) hstatus
  cases event
  cases event'
  simp_all

theorem eq_of_map_toJsonl {spell : List Char → String} {events events' : List AuditEvent}
    (h : ∀ event ∈ events, Settled spell event.arguments)
    (h' : ∀ event ∈ events', Settled spell event.arguments)
    (hsame : events.map toJsonl = events'.map toJsonl) : events = events' := by
  induction events generalizing events' with
  | nil => exact (List.map_eq_nil_iff.mp hsame.symm).symm
  | cons event events ih =>
      cases events' with
      | nil => cases hsame
      | cons event' events' =>
          obtain ⟨hevent, hevents⟩ := List.forall_mem_cons.mp h
          obtain ⟨hevent', hevents'⟩ := List.forall_mem_cons.mp h'
          obtain ⟨hfirst, hrest⟩ := List.cons.inj hsame
          rw [toJsonl_injective hevent.sorted hevent'.sorted hfirst, ih hevents hevents' hrest]

theorem chronicle_of_exportFile {spell : List Char → String}
    {approvals approvals' : ApprovalsTable} {audit audit' : AuditTable}
    (h : Readable spell approvals audit) (h' : Readable spell approvals' audit')
    (hsame : exportFile spell (written approvals audit) =
      exportFile spell (written approvals' audit')) :
    chronicle audit = chronicle audit' := by
  obtain ⟨text, htext, -, hread⟩ := readFile_exportFile h
  obtain ⟨text', htext', -, hread'⟩ := readFile_exportFile h'
  obtain rfl : text = text' := Option.some.inj (htext.symm.trans (hsame.trans htext'))
  have hlines : exportJsonl audit = exportJsonl audit' :=
    List.map_injective_iff.mpr (fun _ _ => Json.obj.inj) (Option.some.inj (hread.symm.trans hread'))
  rw [exportJsonl_chronicle, exportJsonl_chronicle] at hlines
  exact eq_of_map_toJsonl (settled_chronicle h) (settled_chronicle h') hlines

end Lossless

section Runs

variable (spell : List Char → String) (deps : GatewayDeps) {w : World}

/-- At any moment of any run the export reads, line by line, as the events of the table in
chronological order. -/
theorem export_reads_back (hw : Legible spell w) {labels : List GateLabel}
    (hlabels : ∀ label ∈ labels, Arrives spell label) {c : DiskConfig}
    (hrun : (diskMachine spell deps).run .none (Config.initial (onDisk w)) labels = some c) :
    ∃ text events, exportFile spell c.state.world.tables = some text ∧
      (c.state.world.tables.audit.insertionSort PrecedesText).mapM
        (fun row => rowToEvent spell row.2) = some events ∧
      events.Pairwise (fun event later => event.createdAt ≤ later.createdAt) ∧
      text.toList.count '\n' = c.state.world.tables.audit.length ∧
      readFile spell text = some (events.map fun event => .obj (toJsonl event)) := by
  obtain ⟨approvals, audit, htables, hreadable⟩ := written_of_run hw hlabels hrun
  obtain ⟨text, htext, hcount, hread⟩ := readFile_exportFile hreadable
  rw [htables]
  refine ⟨text, chronicle audit, htext, ?_, chronicle_ordered audit, ?_, ?_⟩
  · rw [sort_written]
    exact mapM_rowToEvent fun row hrow =>
      hreadable.audit row ((List.mem_insertionSort Precedes).mp hrow)
  · rw [hcount, written, List.length_map]
  · rw [hread, exportJsonl_chronicle, List.map_map, Function.comp_def]

/-- A call that policy denies, with its arguments out of order. -/
def refusing : List GateLabel :=
  .start (.callTool { denial with arguments := some [("size", .int 3), ("path", .str "/a")] } 0) ::
    acts 0 2 ++ [names 0 "e"] ++ acts 0 3

theorem arrives_refusing (spell : List Char → String) :
    ∀ label ∈ refusing, Arrives spell label := by
  intro label hlabel entry hentry
  subst hentry
  simp [refusing, acts, act, names] at hlabel
  rw [hlabel]
  simp [parsed, Invocation.args, proper, properFields]

theorem export_reads_back_refusing :
    ∃ c, (diskMachine spellHalf Scenarios.deps).run .none (Config.initial (onDisk office))
        refusing = some c ∧
      ∃ text events, exportFile spellHalf c.state.world.tables = some text ∧
        (c.state.world.tables.audit.insertionSort PrecedesText).mapM
          (fun row => rowToEvent spellHalf row.2) = some events ∧
        events.Pairwise (fun event later => event.createdAt ≤ later.createdAt) ∧
        text.toList.count '\n' = c.state.world.tables.audit.length ∧
        readFile spellHalf text = some (events.map fun event => .obj (toJsonl event)) := by
  obtain ⟨c, hrun⟩ : ∃ c, (machine Scenarios.deps).run .none (Config.initial office) refusing =
      some c := ⟨_, rfl⟩
  have hdisk := (disk spellHalf Scenarios.deps).run_map
    (View.ready_initial (legible_office _)) (welcome_of_arrives (arrives_refusing _))
  rw [hrun] at hdisk
  exact ⟨_, hdisk, export_reads_back _ _ (legible_office _) (arrives_refusing _) hdisk⟩

/-- Two runs, of whatever deployments, that export the same file hold the same audit rows in
the same order. -/
theorem export_lossless (deps' : GatewayDeps) {w' : World} (hw : Legible spell w)
    (hw' : Legible spell w') {labels labels' : List GateLabel}
    (hlabels : ∀ label ∈ labels, Arrives spell label)
    (hlabels' : ∀ label ∈ labels', Arrives spell label) {c c' : DiskConfig}
    (hrun : (diskMachine spell deps).run .none (Config.initial (onDisk w)) labels = some c)
    (hrun' : (diskMachine spell deps').run .none (Config.initial (onDisk w')) labels' =
      some c')
    (hsame : exportFile spell c.state.world.tables = exportFile spell c'.state.world.tables) :
    (c.state.world.tables.audit.insertionSort PrecedesText).map (·.2) =
      (c'.state.world.tables.audit.insertionSort PrecedesText).map (·.2) := by
  obtain ⟨approvals, audit, htables, hreadable⟩ := written_of_run hw hlabels hrun
  obtain ⟨approvals', audit', htables', hreadable'⟩ := written_of_run hw' hlabels' hrun'
  rw [htables, htables'] at hsame ⊢
  have hrows : ∀ audit : AuditTable, ((audit.rows.insertionSort Precedes).map fun row =>
      (row.1, recordRow row.2)).map (·.2) = (chronicle audit).map recordRow := by
    intro audit
    rw [chronicle, List.map_map, List.map_map]
    rfl
  rw [sort_written, sort_written, hrows, hrows,
    chronicle_of_exportFile hreadable hreadable' hsame]

theorem export_lossless_refusing :
    ∃ c c', (diskMachine spellHalf Scenarios.deps).run .none (Config.initial (onDisk office))
        refusing = some c ∧
      (diskMachine spellHalf lenientDeps).run .none (Config.initial (onDisk office))
        refusing = some c' ∧
      (c.state.world.tables.audit.insertionSort PrecedesText).map (·.2) =
        (c'.state.world.tables.audit.insertionSort PrecedesText).map (·.2) := by
  obtain ⟨c, c', hrun, hrun', hsame⟩ : ∃ c c',
      (machine Scenarios.deps).run .none (Config.initial office) refusing = some c ∧
      (machine lenientDeps).run .none (Config.initial office) refusing = some c' ∧
      onDisk c.state.world = onDisk c'.state.world := ⟨_, _, rfl, rfl, rfl⟩
  have hdisk := (disk spellHalf Scenarios.deps).run_map
    (View.ready_initial (legible_office _)) (welcome_of_arrives (arrives_refusing _))
  have hdisk' := (disk spellHalf lenientDeps).run_map
    (View.ready_initial (legible_office _)) (welcome_of_arrives (arrives_refusing _))
  rw [hrun] at hdisk
  rw [hrun'] at hdisk'
  refine ⟨_, _, hdisk, hdisk', export_lossless _ _ _ (legible_office _) (legible_office _)
    (arrives_refusing _) (arrives_refusing _) hdisk hdisk' ?_⟩
  exact congrArg (fun world => exportFile spellHalf world.tables) hsame

end Runs

end McpGatekeeper.JsonLines
