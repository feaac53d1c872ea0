import McpGatekeeper.Documents.RoundTrip

namespace Documents

variable {τ ε α β : Type}

def Doc.mapItems (f : List (Doc τ) → List (Doc τ)) : Doc τ → Doc τ
  | .sequence items => .sequence (f items)
  | doc => doc

def Doc.mapEntries (f : Entries τ → Entries τ) : Doc τ → Doc τ
  | .mapping entries => .mapping (f entries)
  | doc => doc

theorem shaped_entries (complaint : Complaint τ ε) {read : Entries τ → Verdict τ ε α}
    {f : Entries τ → Entries τ} (h : ∀ entries, read (f entries) = read entries)
    (doc : Doc τ) :
    shaped Doc.entries? complaint read (doc.mapEntries f) =
      shaped Doc.entries? complaint read doc := by
  cases doc with
  | mapping entries => exact h entries
  | scalar value => rfl
  | sequence items => rfl

theorem shaped_items (complaint : Complaint τ ε) {read : List (Doc τ) → Verdict τ ε α}
    {f : List (Doc τ) → List (Doc τ)} (h : ∀ items, read (f items) = read items)
    (doc : Doc τ) :
    shaped Doc.items? complaint read (doc.mapItems f) = shaped Doc.items? complaint read doc := by
  cases doc with
  | sequence items => exact h items
  | scalar value => rfl
  | mapping entries => rfl

theorem readSequence_map {read : Doc τ → Verdict τ ε α} {f : Doc τ → Doc τ}
    (h : ∀ doc, read (f doc) = read doc) (items : List (Doc τ)) :
    readSequence read (items.map f) = readSequence read items := by
  have hread : (items.map f).mapIdx (fun i doc => under (.index i) (read doc)) =
      items.mapIdx fun i doc => under (.index i) (read doc) := by
    apply List.ext_getElem
    · simp
    · intro i _ _
      simp [h]
  rw [readSequence, hread, readSequence]

variable [DecidableEq τ]

/-- The tag of a document that has a usable one. -/
def tagOf (tag : String) (doc : Doc τ) : Option String :=
  match doc.entries?.bind (find tag) with
  | some (.scalar (.text found)) => some found
  | _ => none

/-- A field, filled in where it is given and added where it is left to its default. -/
def fillField (name : String) (default : Option (Doc τ)) (fill : Doc τ → Doc τ)
    (entries : Entries τ) : Entries τ :=
  match find name entries, default with
  | some _, _ => rewrite name fill entries
  | none, some doc => entries ++ [(.text name, doc)]
  | none, none => entries

mutual

/-- The document with every default of the schema written out. -/
def Schema.fill {α : Type} : Schema τ ε α → Doc τ → Doc τ
  | .leaf _ _ => id
  | .nullable _ inner => inner.fill
  | .sequence item => Doc.mapItems (List.map item.fill)
  | .dictionary _ value => Doc.mapEntries (List.map fun entry => (entry.1, value.fill entry.2))
  | .model _ fields => Doc.mapEntries fields.fill
  | .tagged tag choices => fun doc =>
      match tagOf tag doc with
      | some found => choices.fill found doc
      | none => doc
  | .checked inner _ _ => inner.fill
  | .prepared prepare inner => fun doc => inner.fill (prepare doc)

def Fields.fill {ρ γ : Type} : Fields τ ε ρ γ → Entries τ → Entries τ
  | .done => id
  | .field name schema default _ rest => fun entries =>
      rest.fill (fillField name (default.map schema.write) schema.fill entries)

def Choices.fill {α : Type} : Choices τ ε α → String → Doc τ → Doc τ
  | .none => fun _ doc => doc
  | .choice tag schema _ _ rest => fun found doc =>
      if found = tag then schema.fill doc else rest.fill found doc

end

mutual

/-- What else it takes for filling in to be harmless: nothing but the null is filled in to
one, a tag that is there is kept, and what is filled in needs no further preparation. -/
def Schema.Stable {α : Type} : Schema τ ε α → Prop
  | .leaf _ _ => True
  | .nullable null inner => inner.Stable ∧
      ∀ doc, inner.fill doc = .scalar (.other null) ↔ doc = .scalar (.other null)
  | .sequence item => item.Stable
  | .dictionary _ value => value.Stable
  | .model _ fields => fields.Stable
  | .tagged tag choices => choices.Stable tag
  | .checked inner _ _ => inner.Stable
  | .prepared prepare inner => inner.Stable ∧
      ∀ doc, prepare (inner.fill (prepare doc)) = inner.fill (prepare doc)

def Fields.Stable {ρ γ : Type} : Fields τ ε ρ γ → Prop
  | .done => True
  | .field _ schema _ _ rest => schema.Stable ∧ rest.Stable

def Choices.Stable {α : Type} : Choices τ ε α → String → Prop
  | .none, _ => True
  | .choice _ schema _ _ rest, tag =>
      schema.Stable ∧
        (∀ entries, (find tag entries).isSome →
          ∃ filled, schema.fill (.mapping entries) = .mapping filled ∧
            find tag filled = find tag entries) ∧
        rest.Stable tag

end

theorem Schema.fill_of_isFlat {α : Type} : ∀ schema : Schema τ ε α, schema.isFlat = true →
    ∀ doc, schema.fill doc = doc
  | .leaf _ _, _, _ => rfl
  | .nullable _ inner, hflat, doc => inner.fill_of_isFlat hflat doc
  | .sequence item, hflat, doc => by
      cases doc with
      | scalar value => rfl
      | mapping entries => rfl
      | sequence items =>
          have hitems : items.map item.fill = items.map id :=
            List.map_congr_left fun inner _ => item.fill_of_isFlat hflat inner
          rw [List.map_id] at hitems
          exact congrArg Doc.sequence hitems
  | .dictionary _ value, hflat, doc => by
      cases doc with
      | scalar value => rfl
      | sequence items => rfl
      | mapping entries =>
          have hentries : (entries.map fun entry => (entry.1, value.fill entry.2)) =
              entries.map id :=
            List.map_congr_left fun entry _ =>
              congrArg (Prod.mk entry.1) (value.fill_of_isFlat hflat entry.2)
          rw [List.map_id] at hentries
          exact congrArg Doc.mapping hentries
  | .checked inner _ _, hflat, doc => inner.fill_of_isFlat hflat doc

theorem Schema.stable_of_isFlat {α : Type} : ∀ schema : Schema τ ε α, schema.isFlat = true →
    schema.Stable
  | .leaf _ _, _ => trivial
  | .nullable _ inner, hflat => by
      refine ⟨inner.stable_of_isFlat hflat, fun doc => ?_⟩
      rw [inner.fill_of_isFlat hflat doc]
  | .sequence item, hflat => item.stable_of_isFlat hflat
  | .dictionary _ value, hflat => value.stable_of_isFlat hflat
  | .checked inner _ _, hflat => inner.stable_of_isFlat hflat

theorem Fields.stable_of_isFlat {ρ γ : Type} : ∀ fields : Fields τ ε ρ γ,
    fields.isFlat = true → fields.Stable
  | .done, _ => trivial
  | .field _ schema _ _ rest, hflat => by
      obtain ⟨hschema, hrest⟩ := (Bool.and_eq_true _ _).mp hflat
      exact ⟨schema.stable_of_isFlat hschema, rest.stable_of_isFlat hrest⟩

section Fill

variable {name : String} {default : Option (Doc τ)} {fill : Doc τ → Doc τ}
  {entries : Entries τ}

theorem find_fillField :
    find name (fillField name default fill entries) =
      ((find name entries).map fill).or default := by
  unfold fillField
  split
  · rename_i doc _ hfind
    rw [find_rewrite, hfind]
    rfl
  · rename_i doc hfind
    rw [find_append_singleton, if_pos rfl, hfind]
    rfl
  · rename_i hfind
    rw [hfind]
    rfl

theorem find_fillField_of_ne {name' : String} (hne : name' ≠ name) :
    find name' (fillField name default fill entries) = find name' entries := by
  unfold fillField
  split
  · exact find_rewrite_of_ne hne fill
  · rw [find_append_singleton, if_neg, Option.or_none]
    exact fun h => hne (Scalar.text.inj h).symm
  · rfl

theorem extras_fillField {names : List String} (hname : name ∈ names) :
    extras names (fillField name default fill entries) =
      (extras names entries : List (Line τ ε)) := by
  unfold fillField
  split
  · rw [extras, rewrite, List.flatMap_map]
    rfl
  · rw [extras, List.flatMap_append, List.flatMap_singleton, extra_of_mem hname, List.append_nil]
    rfl
  · rfl

end Fill

theorem Fields.find_fill_of_not_mem {ρ γ : Type} : ∀ (fields : Fields τ ε ρ γ)
    {name : String} (entries : Entries τ), name ∉ fields.names →
      find name (fields.fill entries) = find name entries
  | .done, _, _, _ => rfl
  | .field name' schema default _ rest, name, entries, hname => by
      rw [Fields.names, List.mem_cons, not_or] at hname
      change find name
        (rest.fill (fillField name' (default.map schema.write) schema.fill entries)) = _
      rw [rest.find_fill_of_not_mem _ hname.2]
      exact find_fillField_of_ne hname.1

/-- A field of the name, where there is one, leaves what it is given. -/
def Fields.Keeps {ρ γ : Type} (name : String) : Fields τ ε ρ γ → Prop
  | .done => True
  | .field name' schema _ _ rest =>
      (name' = name → ∀ doc, schema.fill doc = doc) ∧ rest.Keeps name

theorem Fields.find_fill_of_keeps {ρ γ : Type} {name : String} : ∀ (fields : Fields τ ε ρ γ)
    (entries : Entries τ), fields.Keeps name → (find name entries).isSome →
      find name (fields.fill entries) = find name entries
  | .done, _, _, _ => rfl
  | .field name' schema default _ rest, entries, hkeeps, hsome => by
      have hstep : find name (fillField name' (default.map schema.write) schema.fill entries) =
          find name entries := by
        by_cases hname : name' = name
        · obtain ⟨doc, hdoc⟩ := Option.isSome_iff_exists.mp hsome
          rw [hname, find_fillField, hdoc, Option.map_some, hkeeps.1 hname doc, Option.some_or]
        · exact find_fillField_of_ne (Ne.symm hname)
      change find name
        (rest.fill (fillField name' (default.map schema.write) schema.fill entries)) = _
      rw [rest.find_fill_of_keeps _ hkeeps.2 (by rw [hstep]; exact hsome), hstep]

theorem Fields.extras_fill {ρ γ : Type} {names : List String} : ∀ (fields : Fields τ ε ρ γ)
    (entries : Entries τ), (∀ name ∈ fields.names, name ∈ names) →
      extras names (fields.fill entries) = (extras names entries : List (Line τ ε))
  | .done, _, _ => rfl
  | .field name schema default _ rest, entries, hnames => by
      change extras names
        (rest.fill (fillField name (default.map schema.write) schema.fill entries)) = _
      rw [rest.extras_fill _ fun other hother => hnames other (List.mem_cons_of_mem _ hother)]
      exact extras_fillField (hnames name List.mem_cons_self)

theorem Fields.validate_congr {ρ γ : Type} {entries entries' : Entries τ} :
    ∀ (fields : Fields τ ε ρ γ),
      (∀ name ∈ fields.names, find name entries = find name entries') →
        fields.validate entries = fields.validate entries'
  | .done, _ => rfl
  | .field name schema default _ rest, hfind => by
      have hrest := rest.validate_congr fun other hother =>
        hfind other (List.mem_cons_of_mem _ hother)
      have hhead := hfind name List.mem_cons_self
      change Checked.combine _ (readField name default schema.validate (find name entries))
        (rest.validate entries) = _
      rw [hhead, hrest]
      rfl

theorem Choices.find_fill {tag : String} {α : Type} : ∀ {choices : Choices τ ε α},
    choices.Stable tag → ∀ (found : String) {entries : Entries τ}, (find tag entries).isSome →
      ∃ filled, choices.fill found (.mapping entries) = .mapping filled ∧
        find tag filled = find tag entries
  | .none, _, _, entries, _ => ⟨entries, rfl, rfl⟩
  | .choice tag' schema into outof rest, hstable, found, entries, hsome => by
      obtain ⟨-, hkeeps, hrest⟩ := hstable
      by_cases hfound : found = tag'
      · simp only [Choices.fill, if_pos hfound]
        exact hkeeps entries hsome
      · simp only [Choices.fill, if_neg hfound]
        exact Choices.find_fill hrest found hsome

theorem find_fill_tagged {tag : String} {choices : Choices τ ε α} (hstable : choices.Stable tag)
    {entries : Entries τ} (hsome : (find tag entries).isSome) :
    ∃ filled, (Schema.tagged tag choices).fill (.mapping entries) = .mapping filled ∧
      find tag filled = find tag entries := by
  rw [Schema.fill]
  dsimp only
  split
  · rename_i found _
    exact Choices.find_fill hstable found hsome
  · exact ⟨entries, rfl, rfl⟩

theorem tagOf_eq_some {tag found : String} {doc : Doc τ} (h : tagOf tag doc = some found) :
    Tagged tag found doc := by
  rw [tagOf] at h
  split at h
  · rename_i name hname
    obtain rfl := Option.some.inj h
    obtain ⟨entries, hentries, hfind⟩ := Option.bind_eq_some_iff.mp hname
    refine ⟨entries, ?_, hfind⟩
    cases doc with
    | mapping entries' => exact congrArg Doc.mapping (Option.some.inj hentries)
    | scalar value => cases hentries
    | sequence items => cases hentries
  · cases h

mutual

/-- Writing out the defaults changes neither what is read nor what is complained about. -/
theorem Schema.validate_fill {α : Type} : ∀ (schema : Schema τ ε α), schema.Lawful →
    schema.Stable → ∀ doc, schema.validate (schema.fill doc) = schema.validate doc
  | .leaf read write, _, _, doc => rfl
  | .nullable null inner, hlawful, hstable, doc => by
      obtain ⟨hinner, hnull⟩ := hstable
      change readNullable null inner.validate (inner.fill doc) =
        readNullable null inner.validate doc
      by_cases hdoc : doc = .scalar (.other null)
      · rw [(hnull doc).mpr hdoc, hdoc]
      · rw [readNullable_of_ne hdoc, readNullable_of_ne fun h => hdoc ((hnull doc).mp h),
          inner.validate_fill hlawful.1 hinner doc]
  | .sequence item, hlawful, hstable, doc =>
      shaped_items .listType (readSequence_map (item.validate_fill hlawful hstable)) doc
  | .dictionary key inner, hlawful, hstable, doc => by
      refine shaped_entries .dictType (fun entries => ?_) doc
      have hread : readEntry key inner.validate ∘
          (fun entry => (entry.1, inner.fill entry.2)) = readEntry key inner.validate := by
        funext entry
        simp only [Function.comp_apply, readEntry, inner.validate_fill hlawful.2 hstable]
      rw [List.map_map, hread]
  | .model make fields, hlawful, hstable, doc => by
      obtain ⟨hfields, hnodup, -⟩ := hlawful
      refine shaped_entries .modelType (fun entries => ?_) doc
      rw [readModel, fields.validate_fill hfields hstable hnodup entries,
        fields.extras_fill entries fun _ hname => hname]
      rfl
  | .tagged tag choices, hlawful, hstable, doc => by
      rcases htag : tagOf tag doc with _ | found
      · have hfill : (Schema.tagged tag choices).fill doc = doc := by
          rw [Schema.fill]
          simp [htag]
        rw [hfill]
      · obtain ⟨entries, rfl, hfound⟩ := tagOf_eq_some htag
        obtain ⟨filled, hfilled, hkept⟩ :=
          choices.find_fill hstable found (show (find tag entries).isSome by simp [hfound])
        have hfill : (Schema.tagged tag choices).fill (.mapping entries) = .mapping filled := by
          rw [Schema.fill]
          simp [htag, hfilled]
        rw [hfill]
        change readTagged tag choices.validate filled = readTagged tag choices.validate entries
        rw [readTagged, readTagged, hkept, hfound, ← hfilled]
        exact choices.validate_fill tag hlawful.1 hstable found _
  | .checked inner check forget, hlawful, hstable, doc => by
      change readChecked inner.validate check (inner.fill doc) = _
      rw [readChecked, inner.validate_fill hlawful.1 hstable doc]
      rfl
  | .prepared prepare inner, hlawful, hstable, doc => by
      obtain ⟨hinner, hprepare⟩ := hstable
      change inner.validate (prepare (inner.fill (prepare doc))) = _
      rw [hprepare]
      exact inner.validate_fill hlawful.1 hinner (prepare doc)

theorem Fields.validate_fill {ρ γ : Type} : ∀ (fields : Fields τ ε ρ γ), fields.Lawful →
    fields.Stable → fields.names.Nodup →
      ∀ entries, fields.validate (fields.fill entries) = fields.validate entries
  | .done, _, _, _, _ => rfl
  | .field name schema default get rest, hlawful, hstable, hnodup, entries => by
      obtain ⟨hschema, hrest⟩ := hlawful
      obtain ⟨hfresh, hnodup⟩ := List.nodup_cons.mp hnodup
      let filled := fillField name (default.map schema.write) schema.fill entries
      have hfind : find name (rest.fill filled) =
          ((find name entries).map schema.fill).or (default.map schema.write) := by
        rw [rest.find_fill_of_not_mem filled hfresh, find_fillField]
      have hhead : readField name default schema.validate (find name (rest.fill filled)) =
          readField name default schema.validate (find name entries) := by
        rw [hfind]
        rcases find name entries with _ | doc
        · rcases default with _ | value
          · rfl
          · exact congrArg (under _) (schema.validate_write hschema value)
        · exact congrArg (under _) (schema.validate_fill hschema hstable.1 doc)
      have htail : rest.validate (rest.fill filled) = rest.validate entries := by
        rw [rest.validate_fill hrest hstable.2 hnodup filled]
        apply rest.validate_congr
        rintro other hother
        apply find_fillField_of_ne
        rintro rfl
        exact hfresh hother
      change Checked.combine _
        (readField name default schema.validate (find name (rest.fill filled)))
        (rest.validate (rest.fill filled)) = _
      rw [hhead, htail]
      rfl

theorem Choices.validate_fill {α : Type} : ∀ (choices : Choices τ ε α) (tag : String),
    choices.Lawful tag → choices.Stable tag → ∀ found doc,
      choices.validate found (choices.fill found doc) = choices.validate found doc
  | .none, _, _, _, _, _ => rfl
  | .choice tag' schema into outof rest, tag, hlawful, hstable, found, doc => by
      by_cases hfound : found = tag'
      · have hvalidate := schema.validate_fill hlawful.1 hstable.1 doc
        simp only [Choices.fill, Choices.validate, if_pos hfound, hvalidate]
      · have hvalidate := rest.validate_fill tag hlawful.2.2.2 hstable.2.2 found doc
        simp only [Choices.fill, Choices.validate, if_neg hfound, hvalidate]

end

end Documents
