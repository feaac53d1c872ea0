import Mathlib.Data.List.Nodup
import McpGatekeeper.Documents.Schema

namespace Documents

variable {τ ε α β ρ γ : Type}

section Entries

variable [DecidableEq τ] {name : String} {entries : Entries τ} {doc : Doc τ}

theorem find_cons (key : Scalar τ) :
    find name ((key, doc) :: entries) =
      if key = .text name then some doc else find name entries := by
  rw [find, List.lookup_cons]
  by_cases h : key = .text name
  · simp [h]
  · have hne : (Scalar.text name == key) = false := beq_false_of_ne (Ne.symm h)
    simp [h, hne, find]

theorem find_of_mem (hnodup : (entries.map Prod.fst).Nodup)
    (hmem : (.text name, doc) ∈ entries) : find name entries = some doc := by
  induction entries with
  | nil => cases hmem
  | cons entry entries ih =>
      obtain ⟨key, doc'⟩ := entry
      obtain ⟨hkey, hnodup⟩ := List.nodup_cons.mp hnodup
      rw [find_cons]
      rcases List.mem_cons.mp hmem with heq | hlater
      · cases heq
        rw [if_pos rfl]
      · have hne : key ≠ .text name := by
          have hlater' := List.mem_map_of_mem (f := Prod.fst) hlater
          exact ne_of_mem_of_not_mem hlater' hkey |>.symm
        rw [if_neg hne]
        exact ih hnodup hlater

theorem find_append_singleton (key : Scalar τ) :
    find name (entries ++ [(key, doc)]) =
      (find name entries).or (if key = .text name then some doc else none) := by
  induction entries with
  | nil => rw [List.nil_append, find_cons]; rfl
  | cons entry entries ih =>
      obtain ⟨key', doc'⟩ := entry
      rw [List.cons_append, find_cons, find_cons, ih]
      split <;> rfl

/-- The document under a name, rewritten. -/
def rewrite (name : String) (f : Doc τ → Doc τ) (entries : Entries τ) : Entries τ :=
  entries.map fun (key, doc) => (key, if key = .text name then f doc else doc)

theorem find_rewrite (f : Doc τ → Doc τ) :
    find name (rewrite name f entries) = (find name entries).map f := by
  induction entries with
  | nil => rfl
  | cons entry entries ih =>
      obtain ⟨key, doc⟩ := entry
      rw [rewrite, List.map_cons, find_cons, find_cons]
      split
      · rfl
      · exact ih

theorem find_rewrite_of_ne {name' : String} (hne : name' ≠ name) (f : Doc τ → Doc τ) :
    find name' (rewrite name f entries) = find name' entries := by
  induction entries with
  | nil => rfl
  | cons entry entries ih =>
      obtain ⟨key, doc⟩ := entry
      rw [rewrite, List.map_cons, find_cons, find_cons]
      split
      · rename_i hkey
        rw [if_neg]
        rw [hkey]
        exact fun h => hne (Scalar.text.inj h)
      · exact ih

end Entries

/-- A record made of the fields of another. -/
def Fields.rebuild {ρ γ : Type} : Fields τ ε ρ γ → ρ → γ → ρ
  | .done, _, made => made
  | .field _ _ _ get rest, value, make => rest.rebuild value (make (get value))

def Choices.Holds {α : Type} : Choices τ ε α → α → Prop
  | .none, _ => False
  | .choice _ _ _ outof rest, value => (outof value).isSome ∨ rest.Holds value

/-- The document carries the tag. -/
def Tagged [DecidableEq τ] (tag found : String) (doc : Doc τ) : Prop :=
  ∃ entries, doc = .mapping entries ∧ find tag entries = some (.scalar (.text found))

theorem Fields.keys_write {ρ γ : Type} : ∀ (fields : Fields τ ε ρ γ) (value : ρ),
    (fields.write value).map Prod.fst = fields.names.map Scalar.text
  | .done, _ => rfl
  | .field name _ _ _ rest, value => congrArg (Scalar.text name :: ·) (rest.keys_write value)

theorem extra_of_mem {names : List String} {name : String} (h : name ∈ names) :
    (extra names (.text name) : List (Line τ ε)) = [] :=
  if_pos h

theorem Fields.extras_write (fields : Fields τ ε ρ γ) (value : ρ) :
    extras fields.names (fields.write value) = ([] : List (Line τ ε)) := by
  rw [extras, List.flatMap_eq_nil_iff]
  intro entry hentry
  have hkey := List.mem_map_of_mem (f := Prod.fst) hentry
  rw [fields.keys_write] at hkey
  obtain ⟨name, hname, heq⟩ := List.mem_map.mp hkey
  change extra fields.names entry.1 = []
  rw [← heq]
  exact extra_of_mem hname

theorem readSequence_write {read : Doc τ → Verdict τ ε α} {write : α → Doc τ}
    (h : ∀ value, read (write value) = .ok value) (values : List α) :
    readSequence read (values.map write) = .ok values := by
  have hread : (values.map write).mapIdx (fun i doc => under (.index i) (read doc)) =
      values.map .ok := by
    apply List.ext_getElem
    · simp
    · intro i _ _
      simp [h, under]
  rw [readSequence, hread, Checked.all_map_ok]

theorem readEntry_write {key : Scalar τ → Except ε String} {read : Doc τ → Verdict τ ε α}
    {write : α → Doc τ} (hkey : ∀ name, key (.text name) = .ok name)
    (h : ∀ value, read (write value) = .ok value) (entries : List (String × α)) :
    .all ((entries.map (writeEntry write)).map (readEntry key read)) =
      (.ok entries : Verdict τ ε (List (String × α))) := by
  have hread : readEntry key read ∘ writeEntry write = Checked.ok := by
    funext entry
    simp [readEntry, writeEntry, readKey, judge, hkey, h, under]
  rw [List.map_map, hread, Checked.all_map_ok]

variable [DecidableEq τ]

mutual

/-- What it takes for what is written to be read back. -/
def Schema.Lawful {α : Type} : Schema τ ε α → Prop
  | .leaf read write => ∀ value, read (write value) = .ok value
  | .nullable null inner => inner.Lawful ∧ ∀ value, inner.write value ≠ .scalar (.other null)
  | .sequence item => item.Lawful
  | .dictionary key value => (∀ name, key (.text name) = .ok name) ∧ value.Lawful
  | .model make fields =>
      fields.Lawful ∧ fields.names.Nodup ∧ ∀ value, fields.rebuild value make = value
  | .tagged tag choices =>
      choices.Lawful tag ∧ choices.tags.Nodup ∧ ∀ value, choices.Holds value
  | .checked inner check forget => inner.Lawful ∧ ∀ value, check (forget value) = .ok value
  | .prepared prepare inner =>
      inner.Lawful ∧ ∀ value, prepare (inner.write value) = inner.write value

def Fields.Lawful {ρ γ : Type} : Fields τ ε ρ γ → Prop
  | .done => True
  | .field _ schema _ _ rest => schema.Lawful ∧ rest.Lawful

def Choices.Lawful {α : Type} : Choices τ ε α → String → Prop
  | .none, _ => True
  | .choice found schema into outof rest, tag =>
      schema.Lawful ∧ (∀ inner, Tagged tag found (schema.write inner)) ∧
        (∀ value inner, outof value = some inner → into inner = value) ∧ rest.Lawful tag

end

theorem readNullable_of_ne {null : τ} {read : Doc τ → Verdict τ ε α} {doc : Doc τ}
    (h : doc ≠ .scalar (.other null)) : readNullable null read doc = (read doc).map some := by
  cases doc with
  | scalar value =>
      rw [readNullable, if_neg]
      rintro rfl
      exact h rfl
  | sequence items => rw [readNullable]; simp
  | mapping entries => rw [readNullable]; simp

theorem Fields.find_write {fields : Fields τ ε ρ γ} (hnodup : fields.names.Nodup) {value : ρ}
    {name : String} {doc : Doc τ} (hmem : (.text name, doc) ∈ fields.write value) :
    find name (fields.write value) = some doc := by
  refine find_of_mem ?_ hmem
  rw [fields.keys_write]
  exact hnodup.map fun _ _ => Scalar.text.inj

mutual

/-- What is written is read back. -/
theorem Schema.validate_write {α : Type} : ∀ (schema : Schema τ ε α), schema.Lawful →
    ∀ value, schema.validate (schema.write value) = .ok value
  | .leaf read write, hlawful, value => congrArg judge (hlawful value)
  | .nullable null inner, hlawful, value => by
      obtain ⟨hinner, hnull⟩ := hlawful
      cases value with
      | none => simp [Schema.validate, Schema.write, readNullable]
      | some value =>
          change readNullable null inner.validate (inner.write value) = _
          rw [readNullable_of_ne (hnull value), inner.validate_write hinner value]
          rfl
  | .sequence item, hlawful, values => readSequence_write (item.validate_write hlawful) values
  | .dictionary key inner, hlawful, entries =>
      readEntry_write hlawful.1 (inner.validate_write hlawful.2) entries
  | .model make fields, hlawful, value => by
      obtain ⟨hfields, hnodup, hrebuild⟩ := hlawful
      change readModel fields.names (fun entries => (fields.validate entries).map (· make))
        (fields.write value) = _
      rw [readModel, fields.extras_write, Checked.alongside_nil,
        fields.validate_write hfields value _ fun _ _ => fields.find_write hnodup]
      exact congrArg Checked.ok (hrebuild value)
  | .tagged tag choices, hlawful, value => by
      obtain ⟨hchoices, hnodup, hholds⟩ := hlawful
      obtain ⟨found, -, ⟨entries, hdoc, hfound⟩, hvalidate⟩ :=
        choices.validate_write tag hchoices hnodup value (hholds value)
      change shaped Doc.entries? .modelAttributesType (readTagged tag choices.validate)
        (choices.write value) = _
      rw [hdoc] at hvalidate ⊢
      change readTagged tag choices.validate entries = _
      rw [readTagged, hfound]
      exact hvalidate
  | .checked inner check forget, hlawful, value => by
      obtain ⟨hinner, hcheck⟩ := hlawful
      change readChecked inner.validate check (inner.write (forget value)) = _
      rw [readChecked, inner.validate_write hinner, Checked.bind_ok, hcheck]
      rfl
  | .prepared prepare inner, hlawful, value => by
      obtain ⟨hinner, hprepare⟩ := hlawful
      change inner.validate (prepare (inner.write value)) = _
      rw [hprepare]
      exact inner.validate_write hinner value

theorem Fields.validate_write {ρ γ : Type} : ∀ (fields : Fields τ ε ρ γ), fields.Lawful →
    ∀ (value : ρ) (entries : Entries τ),
      (∀ name doc, (.text name, doc) ∈ fields.write value → find name entries = some doc) →
        fields.validate entries = .ok (fields.rebuild value)
  | .done, _, value, entries, _ => rfl
  | .field name schema default get rest, hlawful, value, entries, hfind => by
      obtain ⟨hschema, hrest⟩ := hlawful
      have hhead := hfind name (schema.write (get value)) List.mem_cons_self
      have htail := rest.validate_write hrest value entries fun name doc hmem =>
        hfind name doc (List.mem_cons_of_mem _ hmem)
      change Checked.combine _ (readField name default schema.validate (find name entries))
        (rest.validate entries) = _
      rw [hhead, htail, readField, schema.validate_write hschema]
      rfl

theorem Choices.validate_write {α : Type} : ∀ (choices : Choices τ ε α) (tag : String),
    choices.Lawful tag → choices.tags.Nodup → ∀ value, choices.Holds value →
      ∃ found ∈ choices.tags, Tagged tag found (choices.write value) ∧
        choices.validate found (choices.write value) = .ok value
  | .none, _, _, _, _, hholds => hholds.elim
  | .choice tag' schema into outof rest, tag, hlawful, hnodup, value, hholds => by
      obtain ⟨hschema, htagged, hinto, hrest⟩ := hlawful
      obtain ⟨hfresh, hnodup⟩ := List.nodup_cons.mp hnodup
      rcases hout : outof value with _ | inner
      · have hwrite : (Choices.choice tag' schema into outof rest).write value =
            rest.write value := by
          rw [Choices.write, hout]
        have hrestHolds := hholds.resolve_left (by simp [hout])
        obtain ⟨found, hfound, hcarries, hvalidate⟩ :=
          rest.validate_write tag hrest hnodup value hrestHolds
        rw [hwrite]
        refine ⟨found, List.mem_cons_of_mem _ hfound, hcarries, ?_⟩
        change (if found = tag' then _ else rest.validate found (rest.write value)) = _
        rw [if_neg]
        · exact hvalidate
        · rintro rfl
          exact hfresh hfound
      · have hwrite : (Choices.choice tag' schema into outof rest).write value =
            schema.write inner := by
          rw [Choices.write, hout]
        rw [hwrite]
        refine ⟨tag', List.mem_cons_self, htagged inner, ?_⟩
        change (if tag' = tag' then
          under (.key (.text tag')) ((schema.validate (schema.write inner)).map into) else _) = _
        rw [if_pos rfl, schema.validate_write hschema, Checked.map_ok, hinto value inner hout]
        rfl

end

end Documents
