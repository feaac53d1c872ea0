import McpGatekeeper.Documents.Schema

namespace Documents

variable {τ ε α β : Type}

/-- Which lines are right about a document. -/
abbrev Faults (τ ε : Type) := Doc τ → Line τ ε → Prop

inductive LeafFault (read : Doc τ → Except ε α) : Faults τ ε
  | refused {doc : Doc τ} {error : ε} (h : read doc = .error error) :
      LeafFault read doc ⟨[], .refused error⟩

inductive ShapeFault {δ : Type} (shape : Doc τ → Option δ) (complaint : Complaint τ ε)
    (inner : δ → Line τ ε → Prop) : Faults τ ε
  | shape {doc : Doc τ} (h : shape doc = none) :
      ShapeFault shape complaint inner doc ⟨[], complaint⟩
  | inside {doc : Doc τ} {content : δ} {line : Line τ ε} (hshape : shape doc = some content)
      (h : inner content line) : ShapeFault shape complaint inner doc line

inductive NullableFault (null : τ) (inner : Faults τ ε) : Faults τ ε
  | inner {doc : Doc τ} {line : Line τ ε} (hgiven : doc ≠ .scalar (.other null))
      (h : inner doc line) : NullableFault null inner doc line

inductive SequenceFault (item : Faults τ ε) : List (Doc τ) → Line τ ε → Prop
  | item {items : List (Doc τ)} {i : Nat} {doc : Doc τ} {line : Line τ ε}
      (hitem : items[i]? = some doc) (h : item doc line) :
      SequenceFault item items (line.under (.index i))

inductive DictionaryFault (read : Scalar τ → Except ε String) (value : Faults τ ε) :
    Entries τ → Line τ ε → Prop
  | key {entries : Entries τ} {key : Scalar τ} {doc : Doc τ} {error : ε}
      (hentry : (key, doc) ∈ entries) (h : read key = .error error) :
      DictionaryFault read value entries
        ⟨[.key key, .key (.text "[key]")], .refused error⟩
  | value {entries : Entries τ} {key : Scalar τ} {doc : Doc τ} {line : Line τ ε}
      (hentry : (key, doc) ∈ entries) (h : value doc line) :
      DictionaryFault read value entries (line.under (.key key))

/-- A field that has no default has to be there; one that is there has to be right. -/
inductive FieldFault (name : String) (default : Option α) (inner : Faults τ ε) :
    Option (Doc τ) → Line τ ε → Prop
  | missing (h : default = none) :
      FieldFault name default inner none ⟨[.key (.text name)], .missing⟩
  | inside {doc : Doc τ} {line : Line τ ε} (h : inner doc line) :
      FieldFault name default inner (some doc) (line.under (.key (.text name)))

/-- Every key of a record has to be the name of a field. -/
inductive ModelFault (names : List String) (fields : Entries τ → Line τ ε → Prop) :
    Entries τ → Line τ ε → Prop
  | field {entries : Entries τ} {line : Line τ ε} (h : fields entries line) :
      ModelFault names fields entries line
  | extra {entries : Entries τ} {name : String} {doc : Doc τ}
      (hentry : (.text name, doc) ∈ entries) (hname : name ∉ names) :
      ModelFault names fields entries ⟨[.key (.text name)], .extraForbidden⟩
  | invalidKey {entries : Entries τ} {key : τ} {doc : Doc τ}
      (hentry : (.other key, doc) ∈ entries) :
      ModelFault names fields entries ⟨[.key (.other key)], .invalidKey⟩

inductive ChoiceFault (tag : String) (inner : Faults τ ε) (rest : String → Faults τ ε) :
    String → Faults τ ε
  | chosen {doc : Doc τ} {line : Line τ ε} (h : inner doc line) :
      ChoiceFault tag inner rest tag doc (line.under (.key (.text tag)))
  | rest {found : String} {doc : Doc τ} {line : Line τ ε} (hfound : found ≠ tag)
      (h : rest found doc line) : ChoiceFault tag inner rest found doc line

inductive CheckedFault (inner : Faults τ ε) (read : Doc τ → Verdict τ ε α)
    (check : α → Except ε β) : Faults τ ε
  | inner {doc : Doc τ} {line : Line τ ε} (h : inner doc line) :
      CheckedFault inner read check doc line
  | check {doc : Doc τ} {value : α} {error : ε} (hread : read doc = .ok value)
      (h : check value = .error error) :
      CheckedFault inner read check doc ⟨[], .refused error⟩

inductive TaggedFault [DecidableEq τ] (tag : String) (choices : String → Faults τ ε) :
    Entries τ → Line τ ε → Prop
  | notFound {entries : Entries τ} (h : find tag entries = none) :
      TaggedFault tag choices entries ⟨[], .unionTagNotFound⟩
  | notText {entries : Entries τ} {doc : Doc τ} (hfound : find tag entries = some doc)
      (h : ∀ name, doc ≠ .scalar (.text name)) :
      TaggedFault tag choices entries ⟨[], .unionTagInvalid doc⟩
  | chosen {entries : Entries τ} {name : String} {line : Line τ ε}
      (hfound : find tag entries = some (.scalar (.text name)))
      (h : choices name (.mapping entries) line) : TaggedFault tag choices entries line

mutual

/-- What is wrong with a document under the schema. -/
def Schema.Fault [DecidableEq τ] {α : Type} : Schema τ ε α → Faults τ ε
  | .leaf read _ => LeafFault read
  | .nullable null inner => NullableFault null inner.Fault
  | .sequence item => ShapeFault Doc.items? .listType (SequenceFault item.Fault)
  | .dictionary key value =>
      ShapeFault Doc.entries? .dictType (DictionaryFault key value.Fault)
  | .model _ fields => ShapeFault Doc.entries? .modelType (ModelFault fields.names fields.Fault)
  | .tagged tag choices =>
      ShapeFault Doc.entries? .modelAttributesType (TaggedFault tag choices.Fault)
  | .checked inner check _ => CheckedFault inner.Fault inner.validate check
  | .prepared prepare inner => fun doc => inner.Fault (prepare doc)

def Fields.Fault [DecidableEq τ] {ρ γ : Type} : Fields τ ε ρ γ → Entries τ → Line τ ε → Prop
  | .done => fun _ _ => False
  | .field name schema default _ rest => fun entries line =>
      FieldFault name default schema.Fault (find name entries) line ∨ rest.Fault entries line

def Choices.Fault [DecidableEq τ] {α : Type} : Choices τ ε α → String → Faults τ ε
  | .none => fun found _ line => line = ⟨[], .unionTagInvalid (.scalar (.text found))⟩
  | .choice tag schema _ _ rest => ChoiceFault tag schema.Fault rest.Fault

end

/-- The record has the field. -/
inductive Fields.Has {ρ β : Type} (name : String) (schema : Schema τ ε β) :
    {γ : Type} → Fields τ ε ρ γ → Prop
  | here {γ : Type} {default : Option β} {get : ρ → β} {rest : Fields τ ε ρ γ} :
      Fields.Has name schema (.field name schema default get rest)
  | there {β' γ : Type} {name' : String} {schema' : Schema τ ε β'} {default' : Option β'}
      {get' : ρ → β'} {rest : Fields τ ε ρ γ} (h : Fields.Has name schema rest) :
      Fields.Has name schema (.field name' schema' default' get' rest)

section Record

variable [DecidableEq τ] {ρ γ : Type} {make : γ} {fields : Fields τ ε ρ γ}
  {record : Schema τ ε ρ} (hrecord : record = .model make fields) {entries : Entries τ}
  {name : String} {doc : Doc τ} {place : List (PathPart τ)} {complaint : Complaint τ ε}

theorem Fields.Has.fault {schema : Schema τ ε β} {line : Line τ ε}
    (h : fields.Has name schema) (hfind : find name entries = some doc)
    (hfault : schema.Fault doc line) : fields.Fault entries (line.under (.key (.text name))) := by
  induction h with
  | here =>
      refine .inl ?_
      rw [hfind]
      exact .inside hfault
  | there _ ih => exact .inr ih

include hrecord

theorem fault_inside {schema : Schema τ ε β} (h : fields.Has name schema)
    (hfind : find name entries = some doc) (hfault : schema.Fault doc ⟨place, complaint⟩) :
    record.Fault (.mapping entries) ⟨.key (.text name) :: place, complaint⟩ := by
  rw [hrecord]
  exact .inside rfl (.field (h.fault hfind hfault))

theorem fault_extra (hentry : (.text name, doc) ∈ entries) (hname : name ∉ fields.names) :
    record.Fault (.mapping entries) ⟨[.key (.text name)], .extraForbidden⟩ := by
  rw [hrecord]
  exact .inside rfl (.extra hentry hname)

end Record

theorem fault_item [DecidableEq τ] {item : Schema τ ε α} {items : List (Doc τ)} {i : Nat}
    {doc : Doc τ} {place : List (PathPart τ)} {complaint : Complaint τ ε}
    (hitem : items[i]? = some doc) (hfault : item.Fault doc ⟨place, complaint⟩) :
    (Schema.sequence item).Fault (.sequence items) ⟨.index i :: place, complaint⟩ :=
  .inside rfl (.item hitem hfault)

section Extra

variable [DecidableEq τ]

theorem Schema.not_extra {α : Type} : ∀ (schema : Schema τ ε α), schema.isFlat = true →
    ∀ (doc : Doc τ) (line : Line τ ε), schema.Fault doc line → line.complaint ≠ .extraForbidden
  | .leaf _ _, _, doc, line, h => by
      cases h
      simp
  | .nullable _ inner, hflat, doc, line, h => by
      obtain ⟨-, h⟩ := h
      exact inner.not_extra hflat doc line h
  | .sequence item, hflat, doc, line, h => by
      obtain _ | ⟨-, hitem, h⟩ := h
      · simp
      · exact fun hextra => item.not_extra hflat _ _ h hextra
  | .dictionary _ value, hflat, doc, line, h => by
      obtain _ | ⟨-, _ | ⟨hentry, h⟩⟩ := h
      · simp
      · simp
      · exact fun hextra => value.not_extra hflat _ _ h hextra
  | .checked inner _ _, hflat, doc, line, h => by
      obtain h | _ := h
      · exact inner.not_extra hflat doc line h
      · simp

variable {ρ γ : Type} {entries : Entries τ} {place : List (PathPart τ)}

theorem extra_cases {make : γ} {fields : Fields τ ε ρ γ} {record : Schema τ ε ρ}
    (hrecord : record = .model make fields) {doc : Doc τ}
    (h : record.Fault doc ⟨place, .extraForbidden⟩) :
    ∃ entries, doc = .mapping entries ∧
      (fields.Fault entries ⟨place, .extraForbidden⟩ ∨
        ∃ name doc, place = [.key (.text name)] ∧ name ∉ fields.names ∧
          (.text name, doc) ∈ entries) := by
  rw [hrecord] at h
  obtain _ | ⟨hshape, h⟩ := h
  cases doc with
  | mapping entries =>
      obtain rfl := Option.some.inj hshape
      refine ⟨entries, rfl, ?_⟩
      cases h with
      | field h => exact .inl h
      | extra hentry hname => exact .inr ⟨_, _, rfl, hname, hentry⟩
  | scalar value => cases hshape
  | sequence items => cases hshape

theorem field_cases {name : String} {schema : Schema τ ε β} {default : Option β} {get : ρ → β}
    {rest : Fields τ ε ρ γ}
    (h : (Fields.field name schema default get rest).Fault entries ⟨place, .extraForbidden⟩) :
    (∃ doc inner, find name entries = some doc ∧ place = .key (.text name) :: inner ∧
        schema.Fault doc ⟨inner, .extraForbidden⟩) ∨
      rest.Fault entries ⟨place, .extraForbidden⟩ := by
  refine h.imp_left fun hfield => ?_
  generalize hline : Line.mk place (.extraForbidden : Complaint τ ε) = line at hfield
  generalize hfound : find name entries = found at hfield
  cases hfield with
  | missing => cases hline
  | @inside doc line hinner =>
      obtain ⟨location, complaint⟩ := line
      cases hline
      exact ⟨doc, location, rfl, rfl, hinner⟩

theorem sequence_cases {item : Schema τ ε α} {doc : Doc τ}
    (h : (Schema.sequence item).Fault doc ⟨place, .extraForbidden⟩) :
    ∃ items i found inner, doc = .sequence items ∧ items[i]? = some found ∧
      place = .index i :: inner ∧ item.Fault found ⟨inner, .extraForbidden⟩ := by
  obtain _ | ⟨hshape, h⟩ := h
  cases doc with
  | sequence items =>
      obtain rfl := Option.some.inj hshape
      generalize hline : Line.mk place (.extraForbidden : Complaint τ ε) = line at h
      cases h with
      | @item i found line hitem hinner =>
          obtain ⟨location, complaint⟩ := line
          cases hline
          exact ⟨items, i, found, location, rfl, hitem, rfl, hinner⟩
  | scalar value => cases hshape
  | mapping entries => cases hshape

theorem tagged_cases {tag : String} {choices : Choices τ ε α} {doc : Doc τ}
    (h : (Schema.tagged tag choices).Fault doc ⟨place, .extraForbidden⟩) :
    ∃ entries found, doc = .mapping entries ∧ find tag entries = some (.scalar (.text found)) ∧
      choices.Fault found doc ⟨place, .extraForbidden⟩ := by
  obtain _ | ⟨hshape, h⟩ := h
  cases doc with
  | mapping entries =>
      obtain rfl := Option.some.inj hshape
      generalize hline : Line.mk place (.extraForbidden : Complaint τ ε) = line at h
      cases h with
      | notFound => cases hline
      | notText => cases hline
      | chosen hfound h => exact ⟨entries, _, rfl, hfound, h⟩
  | scalar value => cases hshape
  | sequence items => cases hshape

theorem choice_cases {tag found : String} {schema : Schema τ ε β} {into : β → α}
    {outof : α → Option β} {rest : Choices τ ε α} {doc : Doc τ}
    (h : (Choices.choice tag schema into outof rest).Fault found doc
      ⟨place, .extraForbidden⟩) :
    (found = tag ∧ ∃ inner, place = .key (.text tag) :: inner ∧
        schema.Fault doc ⟨inner, .extraForbidden⟩) ∨
      rest.Fault found doc ⟨place, .extraForbidden⟩ := by
  generalize hline : Line.mk place (.extraForbidden : Complaint τ ε) = line at h ⊢
  cases h with
  | @chosen _ line hinner =>
      obtain ⟨location, complaint⟩ := line
      cases hline
      exact .inl ⟨rfl, location, rfl, hinner⟩
  | rest _ h => exact .inr h

theorem field_flat {name : String} {schema : Schema τ ε β} {default : Option β} {get : ρ → β}
    {rest : Fields τ ε ρ γ}
    (h : (Fields.field name schema default get rest).Fault entries ⟨place, .extraForbidden⟩)
    (hflat : schema.isFlat = true) : rest.Fault entries ⟨place, .extraForbidden⟩ := by
  refine (field_cases h).resolve_left ?_
  rintro ⟨doc, inner, -, -, hinner⟩
  exact schema.not_extra hflat doc _ hinner rfl

theorem Fields.not_extra {ρ γ : Type} : ∀ (fields : Fields τ ε ρ γ), fields.isFlat = true →
    ¬fields.Fault entries ⟨place, .extraForbidden⟩
  | .done, _, h => h
  | .field _ schema _ _ rest, hflat, h => by
      obtain ⟨hschema, hrest⟩ := (Bool.and_eq_true _ _).mp hflat
      exact rest.not_extra hrest (field_flat h hschema)

end Extra

theorem report_refuse {complaint : Complaint τ ε} :
    (refuse complaint : Verdict τ ε α).report = [⟨[], complaint⟩] := rfl

theorem mem_under {part : PathPart τ} {verdict : Verdict τ ε α} {line : Line τ ε} :
    line ∈ (under part verdict).report ↔ ∃ inner ∈ verdict.report, inner.under part = line := by
  rw [under, Checked.report_mapReport, List.mem_map]

theorem mem_judge {result : Except ε α} {line : Line τ ε} :
    line ∈ (judge result).report ↔ ∃ error, result = .error error ∧
      line = ⟨[], .refused error⟩ := by
  cases result <;> simp [judge, report_refuse]

theorem mem_leaf {read : Doc τ → Except ε α} {doc : Doc τ} {line : Line τ ε} :
    line ∈ (judge (read doc)).report ↔ LeafFault read doc line := by
  rw [mem_judge]
  constructor
  · rintro ⟨error, herror, rfl⟩
    exact .refused herror
  · rintro ⟨herror⟩
    exact ⟨_, herror, rfl⟩

theorem mem_shaped {δ : Type} {shape : Doc τ → Option δ} {complaint : Complaint τ ε}
    {read : δ → Verdict τ ε α} {inner : δ → Line τ ε → Prop}
    (hinner : ∀ content line, line ∈ (read content).report ↔ inner content line)
    (doc : Doc τ) (line : Line τ ε) :
    line ∈ (shaped shape complaint read doc).report ↔
      ShapeFault shape complaint inner doc line := by
  rw [shaped]
  rcases hshape : shape doc with _ | content
  · constructor
    · intro hline
      obtain rfl := List.mem_singleton.mp hline
      exact .shape hshape
    · intro h
      cases h with
      | shape h => exact List.mem_singleton_self _
      | inside hcontent h => rw [hshape] at hcontent; cases hcontent
  · change line ∈ (read content).report ↔ _
    rw [hinner]
    constructor
    · exact .inside hshape
    · intro h
      cases h with
      | shape h => rw [hshape] at h; cases h
      | inside hcontent h =>
          obtain rfl := Option.some.inj (hshape.symm.trans hcontent)
          exact h

theorem mem_model {names : List String} {read : Entries τ → Verdict τ ε α}
    {fields : Entries τ → Line τ ε → Prop}
    (hfields : ∀ entries line, line ∈ (read entries).report ↔ fields entries line)
    (entries : Entries τ) (line : Line τ ε) :
    line ∈ (readModel names read entries).report ↔ ModelFault names fields entries line := by
  rw [readModel, Checked.report_alongside, List.mem_append, hfields, extras,
    List.mem_flatMap]
  constructor
  · rintro (hline | ⟨⟨key, doc⟩, hentry, hline⟩)
    · exact .field hline
    · cases key with
      | text name =>
          change line ∈ (if name ∈ names then [] else [_]) at hline
          split at hline
          · cases hline
          · rename_i hname
            obtain rfl := List.mem_singleton.mp hline
            exact .extra hentry hname
      | other value =>
          obtain rfl := List.mem_singleton.mp hline
          exact .invalidKey hentry
  · intro h
    cases h with
    | field h => exact .inl h
    | extra hentry hname =>
        refine .inr ⟨_, hentry, ?_⟩
        simp [extra, hname]
    | invalidKey hentry => exact .inr ⟨_, hentry, List.mem_singleton_self _⟩

section Inner

variable {read : Doc τ → Verdict τ ε α} {inner : Faults τ ε}
  (hinner : ∀ doc line, line ∈ (read doc).report ↔ inner doc line)

include hinner

theorem mem_sequence (items : List (Doc τ)) (line : Line τ ε) :
    line ∈ (readSequence read items).report ↔ SequenceFault inner items line := by
  rw [readSequence, Checked.report_all, List.mem_flatMap]
  constructor
  · rintro ⟨result, hresult, hline⟩
    obtain ⟨i, hi, rfl⟩ := List.mem_mapIdx.mp hresult
    obtain ⟨line, hinside, rfl⟩ := mem_under.mp hline
    exact .item (List.getElem?_eq_getElem hi) ((hinner _ _).mp hinside)
  · rintro ⟨hitem, h⟩
    obtain ⟨hi, rfl⟩ := List.getElem?_eq_some_iff.mp hitem
    exact ⟨_, List.mem_mapIdx.mpr ⟨_, hi, rfl⟩, mem_under.mpr ⟨_, (hinner _ _).mpr h, rfl⟩⟩

theorem mem_dictionary {key : Scalar τ → Except ε String} (entries : Entries τ)
    (line : Line τ ε) :
    line ∈ (Checked.all (entries.map (readEntry key read))).report ↔
      DictionaryFault key inner entries line := by
  simp only [readEntry, readKey, Checked.report_all, List.mem_flatMap, List.mem_map,
    exists_exists_and_eq_and, Checked.report_combine, List.mem_append, mem_under, mem_judge]
  constructor
  · rintro ⟨⟨name, doc⟩, hentry, ⟨_, ⟨error, herror, rfl⟩, rfl⟩ | ⟨line, hinside, rfl⟩⟩
    · exact .key hentry herror
    · exact .value hentry ((hinner _ _).mp hinside)
  · intro h
    cases h with
    | key hentry herror => exact ⟨_, hentry, .inl ⟨_, ⟨_, herror, rfl⟩, rfl⟩⟩
    | value hentry h => exact ⟨_, hentry, .inr ⟨_, (hinner _ _).mpr h, rfl⟩⟩

theorem mem_field {name : String} {default : Option α} {found : Option (Doc τ)}
    {line : Line τ ε} :
    line ∈ (readField name default read found).report ↔
      FieldFault name default inner found line := by
  constructor
  · intro hline
    cases found with
    | none =>
        cases default with
        | some value => cases hline
        | none =>
            obtain rfl := List.mem_singleton.mp hline
            exact .missing rfl
    | some doc =>
        obtain ⟨line, hinside, rfl⟩ := mem_under.mp hline
        exact .inside ((hinner _ _).mp hinside)
  · intro h
    cases h with
    | missing h =>
        rw [h]
        exact List.mem_singleton_self _
    | inside h => exact mem_under.mpr ⟨_, (hinner _ _).mpr h, rfl⟩

theorem mem_checked {check : α → Except ε β} (doc : Doc τ) (line : Line τ ε) :
    line ∈ (readChecked read check doc).report ↔ CheckedFault inner read check doc line := by
  rw [readChecked]
  rcases hread : read doc with value | ⟨first, rest⟩
  · rw [Checked.bind_ok, mem_judge]
    constructor
    · rintro ⟨error, herror, rfl⟩
      exact .check hread herror
    · intro h
      cases h with
      | inner h => rw [← hinner, hread] at h; cases h
      | check hvalue h =>
          cases hread.symm.trans hvalue
          exact ⟨_, h, rfl⟩
  · change line ∈ (Checked.refused first rest : Verdict τ ε α).report ↔ _
    rw [← hread, hinner]
    constructor
    · exact .inner
    · intro h
      cases h with
      | inner h => exact h
      | check hvalue h => rw [hread] at hvalue; cases hvalue

theorem mem_nullable [DecidableEq τ] {null : τ} (doc : Doc τ) (line : Line τ ε) :
    line ∈ (readNullable null read doc).report ↔ NullableFault null inner doc line := by
  have hgiven (hdoc : doc ≠ .scalar (.other null)) :
      line ∈ (read doc).report ↔ NullableFault null inner doc line := by
    rw [hinner]
    exact ⟨.inner hdoc, fun h => by cases h; assumption⟩
  cases doc with
  | scalar value =>
      rw [readNullable]
      split
      · rename_i hnull
        constructor
        · rintro ⟨⟩
        · rintro ⟨hdoc, -⟩
          exact absurd (congrArg _ hnull) hdoc
      · rename_i hvalue
        rw [Checked.report_map]
        exact hgiven fun h => hvalue (Doc.scalar.inj h)
  | sequence items =>
      rw [readNullable, Checked.report_map]
      · exact hgiven (by rintro ⟨⟩)
      · simp
  | mapping entries =>
      rw [readNullable, Checked.report_map]
      · exact hgiven (by rintro ⟨⟩)
      · simp

theorem mem_choice {tag : String} {into : α → β} {read' : String → Doc τ → Verdict τ ε β}
    {rest : String → Faults τ ε}
    (hrest : ∀ found doc line, line ∈ (read' found doc).report ↔ rest found doc line)
    (found : String) (doc : Doc τ) (line : Line τ ε) :
    line ∈ (if found = tag then under (.key (.text tag)) ((read doc).map into)
        else read' found doc).report ↔ ChoiceFault tag inner rest found doc line := by
  split
  · rename_i hfound
    rw [mem_under, Checked.report_map]
    constructor
    · rintro ⟨line, hline, rfl⟩
      rw [hfound]
      exact .chosen ((hinner _ _).mp hline)
    · intro h
      cases h with
      | chosen h => exact ⟨_, (hinner _ _).mpr h, rfl⟩
      | rest hne h => exact absurd hfound hne
  · rename_i hfound
    rw [hrest]
    constructor
    · exact .rest hfound
    · intro h
      cases h with
      | chosen h => exact absurd rfl hfound
      | rest hne h => exact h

end Inner

theorem mem_tagged [DecidableEq τ] {tag : String} {read : String → Doc τ → Verdict τ ε α}
    {choices : String → Faults τ ε}
    (hchoices : ∀ found doc line, line ∈ (read found doc).report ↔ choices found doc line)
    (entries : Entries τ) (line : Line τ ε) :
    line ∈ (readTagged tag read entries).report ↔ TaggedFault tag choices entries line := by
  have hother {doc : Doc τ} (hfound : find tag entries = some doc)
      (hdoc : ∀ name, doc ≠ .scalar (.text name)) :
      line = ⟨[], .unionTagInvalid doc⟩ ↔ TaggedFault tag choices entries line := by
    constructor
    · rintro rfl
      exact .notText hfound hdoc
    · intro h
      cases h with
      | notFound h => rw [hfound] at h; cases h
      | notText hfound' h =>
          obtain rfl := Option.some.inj (hfound.symm.trans hfound')
          rfl
      | chosen hfound' h => exact absurd (Option.some.inj (hfound.symm.trans hfound')) (hdoc _)
  rw [readTagged]
  split
  · rename_i name hfound
    rw [hchoices]
    constructor
    · exact .chosen hfound
    · intro h
      cases h with
      | notFound h => rw [hfound] at h; cases h
      | notText hfound' h => exact absurd (Option.some.inj (hfound'.symm.trans hfound)) (h _)
      | chosen hfound' h =>
          obtain rfl := Scalar.text.inj (Doc.scalar.inj (Option.some.inj
            (hfound.symm.trans hfound')))
          exact h
  · rename_i doc hdoc hfound
    rw [report_refuse, List.mem_singleton]
    exact hother hfound hdoc
  · rename_i hfound
    rw [report_refuse, List.mem_singleton]
    constructor
    · rintro rfl
      exact .notFound hfound
    · intro h
      cases h with
      | notFound h => rfl
      | notText hfound' h => rw [hfound] at hfound'; cases hfound'
      | chosen hfound' h => rw [hfound] at hfound'; cases hfound'

variable [DecidableEq τ]

mutual

/-- The report has a line for each fault, and no other line. -/
theorem Schema.mem_report_iff {α : Type} : ∀ (schema : Schema τ ε α) (doc : Doc τ)
    (line : Line τ ε), line ∈ (schema.validate doc).report ↔ schema.Fault doc line
  | .leaf _ _, _, _ => mem_leaf
  | .nullable _ inner, doc, line => mem_nullable inner.mem_report_iff doc line
  | .sequence item, doc, line => mem_shaped (mem_sequence item.mem_report_iff) doc line
  | .dictionary _ value, doc, line => mem_shaped (mem_dictionary value.mem_report_iff) doc line
  | .model make fields, doc, line => by
      apply mem_shaped (mem_model _)
      intro entries line
      rw [Checked.report_map]
      exact fields.mem_report_iff entries line
  | .tagged _ choices, doc, line => mem_shaped (mem_tagged choices.mem_report_iff) doc line
  | .checked inner _ _, doc, line => mem_checked inner.mem_report_iff doc line
  | .prepared prepare inner, doc, line => inner.mem_report_iff (prepare doc) line

theorem Fields.mem_report_iff {ρ γ : Type} : ∀ (fields : Fields τ ε ρ γ) (entries : Entries τ)
    (line : Line τ ε), line ∈ (fields.validate entries).report ↔ fields.Fault entries line
  | .done, _, line => List.mem_nil_iff line
  | .field name schema default get rest, entries, line => by
      rw [Fields.validate, Checked.report_combine, List.mem_append,
        mem_field schema.mem_report_iff, rest.mem_report_iff entries line, Fields.Fault]

theorem Choices.mem_report_iff {α : Type} : ∀ (choices : Choices τ ε α) (found : String)
    (doc : Doc τ) (line : Line τ ε),
    line ∈ (choices.validate found doc).report ↔ choices.Fault found doc line
  | .none, _, _, _ => List.mem_singleton
  | .choice _ schema _ _ rest, found, doc, line =>
      mem_choice schema.mem_report_iff rest.mem_report_iff found doc line

end

end Documents
