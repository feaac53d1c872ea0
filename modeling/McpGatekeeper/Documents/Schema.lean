import Mathlib.Data.List.Basic

/-!
Documents made of scalars, sequences and mappings, and schemas that read them: what each
place holds, which keys it may have, what stands for a key that is left out, and which
checks come on top.

Reading collects every complaint with its location. A schema also says how a value is
written.

A validator that is not ours is a parameter of what is said about it, by what it does with
each kind of schema; reading by recursion on the schema is one that does so.
-/

namespace Documents

/-- Scalars; the texts among them serve as keys and as tags. -/
inductive Scalar (τ : Type)
  | text (value : String)
  | other (value : τ)
  deriving DecidableEq

inductive Doc (τ : Type)
  | scalar (value : Scalar τ)
  | sequence (items : List (Doc τ))
  | mapping (entries : List (Scalar τ × Doc τ))

inductive PathPart (τ : Type)
  | key (key : Scalar τ)
  | index (index : Nat)
  deriving DecidableEq

/-- What can be wrong; `refused` is what a check of a value says. -/
inductive Complaint (τ ε : Type)
  | missing
  | extraForbidden
  | invalidKey
  | listType
  | dictType
  | modelType
  | modelAttributesType
  | unionTagNotFound
  | unionTagInvalid (tag : Doc τ)
  | refused (error : ε)

structure Line (τ ε : Type) where
  location : List (PathPart τ)
  complaint : Complaint τ ε

/-- A value, or at least one complaint. -/
inductive Checked (ε α : Type)
  | ok (value : α)
  | refused (first : ε) (rest : List ε)

namespace Checked

variable {ε ε' α β γ : Type}

def report : Checked ε α → List ε
  | ok _ => []
  | refused first rest => first :: rest

def map (f : α → β) : Checked ε α → Checked ε β
  | ok value => .ok (f value)
  | refused first rest => .refused first rest

def mapReport (f : ε → ε') : Checked ε α → Checked ε' α
  | ok value => .ok value
  | refused first rest => .refused (f first) (rest.map f)

def bind (f : α → Checked ε β) : Checked ε α → Checked ε β
  | ok value => f value
  | refused first rest => .refused first rest

/-- The result beside complaints of another kind. -/
def alongside (more : List ε) : Checked ε α → Checked ε α
  | ok value =>
      match more with
      | [] => .ok value
      | first :: rest => .refused first rest
  | refused first rest => .refused first (rest ++ more)

/-- Both results; where neither is a value, the complaints of both. -/
def combine (f : α → β → γ) : Checked ε α → Checked ε β → Checked ε γ
  | ok value, other => other.map (f value)
  | refused first rest, other => .refused first (rest ++ other.report)

def all : List (Checked ε α) → Checked ε (List α)
  | [] => .ok []
  | first :: rest => combine List.cons first (all rest)

@[simp] theorem report_ok (value : α) : (ok value : Checked ε α).report = [] := rfl

@[simp] theorem report_map (f : α → β) (result : Checked ε α) :
    (result.map f).report = result.report := by
  cases result <;> rfl

@[simp] theorem report_mapReport (f : ε → ε') (result : Checked ε α) :
    (result.mapReport f).report = result.report.map f := by
  cases result <;> rfl

@[simp] theorem report_alongside (more : List ε) (result : Checked ε α) :
    (result.alongside more).report = result.report ++ more := by
  cases result with
  | ok value => cases more <;> rfl
  | refused first rest => rfl

@[simp] theorem report_combine (f : α → β → γ) (result : Checked ε α) (other : Checked ε β) :
    (combine f result other).report = result.report ++ other.report := by
  cases result with
  | ok value => simp [combine]
  | refused first rest => rfl

@[simp] theorem report_all (results : List (Checked ε α)) :
    (all results).report = results.flatMap report := by
  induction results with
  | nil => rfl
  | cons first rest ih => simp [all, ih]

@[simp] theorem map_ok (f : α → β) (value : α) :
    (ok value : Checked ε α).map f = .ok (f value) := rfl

@[simp] theorem mapReport_ok (f : ε → ε') (value : α) :
    (ok value).mapReport f = .ok value := rfl

@[simp] theorem bind_ok (f : α → Checked ε β) (value : α) : (ok value).bind f = f value := rfl

@[simp] theorem combine_ok (f : α → β → γ) (value : α) (value' : β) :
    combine f (ok value) (ok value' : Checked ε β) = .ok (f value value') := rfl

@[simp] theorem alongside_nil (result : Checked ε α) : result.alongside [] = result := by
  cases result <;> simp [alongside]

@[simp] theorem all_map_ok (values : List α) :
    all (values.map ok) = (.ok values : Checked ε (List α)) := by
  induction values with
  | nil => rfl
  | cons value values ih => rw [List.map_cons, all, ih, combine_ok]

end Checked

mutual

/-- How the values of a type are read and written: `checked` has a check on top of another
schema, `prepared` a step before it. -/
inductive Schema (τ ε : Type) : Type → Type 1
  | leaf {α : Type} (read : Doc τ → Except ε α) (write : α → Doc τ) : Schema τ ε α
  | nullable {α : Type} (null : τ) (inner : Schema τ ε α) : Schema τ ε (Option α)
  | sequence {α : Type} (item : Schema τ ε α) : Schema τ ε (List α)
  | dictionary {α : Type} (key : Scalar τ → Except ε String) (value : Schema τ ε α) :
      Schema τ ε (List (String × α))
  | model {ρ γ : Type} (make : γ) (fields : Fields τ ε ρ γ) : Schema τ ε ρ
  | tagged {α : Type} (tag : String) (choices : Choices τ ε α) : Schema τ ε α
  | checked {α β : Type} (inner : Schema τ ε α) (check : α → Except ε β) (forget : β → α) :
      Schema τ ε β
  | prepared {α : Type} (prepare : Doc τ → Doc τ) (inner : Schema τ ε α) : Schema τ ε α

/-- The fields of a record `ρ` that is made by a function of type `γ`. -/
inductive Fields (τ ε : Type) : Type → Type → Type 1
  | done {ρ : Type} : Fields τ ε ρ ρ
  | field {ρ β γ : Type} (name : String) (schema : Schema τ ε β) (default : Option β)
      (get : ρ → β) (rest : Fields τ ε ρ γ) : Fields τ ε ρ (β → γ)

inductive Choices (τ ε : Type) : Type → Type 1
  | none {α : Type} : Choices τ ε α
  | choice {α β : Type} (tag : String) (schema : Schema τ ε β) (into : β → α)
      (outof : α → Option β) (rest : Choices τ ε α) : Choices τ ε α

end

variable {τ ε α β : Type}

def Fields.names {ρ γ : Type} : Fields τ ε ρ γ → List String
  | .done => []
  | .field name _ _ _ rest => name :: rest.names

def Choices.tags {α : Type} : Choices τ ε α → List String
  | .none => []
  | .choice tag _ _ _ rest => tag :: rest.tags

mutual

/-- There is no record in the schema, and nothing is prepared. -/
def Schema.isFlat {α : Type} : Schema τ ε α → Bool
  | .leaf _ _ => true
  | .nullable _ inner => inner.isFlat
  | .sequence item => item.isFlat
  | .dictionary _ value => value.isFlat
  | .model _ _ => false
  | .tagged _ _ => false
  | .checked inner _ _ => inner.isFlat
  | .prepared _ _ => false

def Fields.isFlat {ρ γ : Type} : Fields τ ε ρ γ → Bool
  | .done => true
  | .field _ schema _ _ rest => schema.isFlat && rest.isFlat

end

abbrev Entries (τ : Type) := List (Scalar τ × Doc τ)

abbrev Verdict (τ ε α : Type) := Checked (Line τ ε) α

def refuse (complaint : Complaint τ ε) : Verdict τ ε α :=
  .refused ⟨[], complaint⟩ []

def Line.under (part : PathPart τ) (line : Line τ ε) : Line τ ε where
  location := part :: line.location
  complaint := line.complaint

def under (part : PathPart τ) (verdict : Verdict τ ε α) : Verdict τ ε α :=
  verdict.mapReport (Line.under part)

def judge : Except ε α → Verdict τ ε α
  | .ok value => .ok value
  | .error error => refuse (.refused error)

/-- The complaint about a key that is none of the names. -/
def extra (names : List String) (key : Scalar τ) : List (Line τ ε) :=
  match key with
  | .text name => if name ∈ names then [] else [⟨[.key key], .extraForbidden⟩]
  | .other _ => [⟨[.key key], .invalidKey⟩]

def extras (names : List String) (entries : Entries τ) : List (Line τ ε) :=
  entries.flatMap fun entry => extra names entry.1

def readKey (read : Scalar τ → Except ε String) (key : Scalar τ) : Verdict τ ε String :=
  under (.key key) (under (.key (.text "[key]")) (judge (read key)))

def Doc.items? : Doc τ → Option (List (Doc τ))
  | .sequence items => some items
  | _ => none

def Doc.entries? : Doc τ → Option (Entries τ)
  | .mapping entries => some entries
  | _ => none

/-- Reads documents of one shape. -/
def shaped {δ : Type} (shape : Doc τ → Option δ) (complaint : Complaint τ ε)
    (read : δ → Verdict τ ε α) (doc : Doc τ) : Verdict τ ε α :=
  match shape doc with
  | some inner => read inner
  | none => refuse complaint

def readSequence (read : Doc τ → Verdict τ ε α) (items : List (Doc τ)) :
    Verdict τ ε (List α) :=
  .all (items.mapIdx fun i doc => under (.index i) (read doc))

def readEntry (key : Scalar τ → Except ε String) (read : Doc τ → Verdict τ ε α)
    (entry : Scalar τ × Doc τ) : Verdict τ ε (String × α) :=
  .combine Prod.mk (readKey key entry.1) (under (.key entry.1) (read entry.2))

/-- What a field reads, from the document under its name. -/
def readField (name : String) (default : Option α) (read : Doc τ → Verdict τ ε α) :
    Option (Doc τ) → Verdict τ ε α
  | some doc => under (.key (.text name)) (read doc)
  | none =>
      match default with
      | some value => .ok value
      | none => .refused ⟨[.key (.text name)], .missing⟩ []

/-- The fields in their order, then the keys that belong to none of them. -/
def readModel (names : List String) (read : Entries τ → Verdict τ ε α) (entries : Entries τ) :
    Verdict τ ε α :=
  (read entries).alongside (extras names entries)

def readChecked (read : Doc τ → Verdict τ ε α) (check : α → Except ε β) (doc : Doc τ) :
    Verdict τ ε β :=
  (read doc).bind fun value => judge (check value)

variable [DecidableEq τ]

def find (name : String) (entries : Entries τ) : Option (Doc τ) :=
  entries.lookup (.text name)

def readNullable (null : τ) (read : Doc τ → Verdict τ ε α) : Doc τ → Verdict τ ε (Option α)
  | .scalar value =>
      if value = .other null then .ok none else (read (.scalar value)).map some
  | doc => (read doc).map some

def readTagged (tag : String) (read : String → Doc τ → Verdict τ ε α) (entries : Entries τ) :
    Verdict τ ε α :=
  match find tag entries with
  | some (.scalar (.text found)) => read found (.mapping entries)
  | some other => refuse (.unionTagInvalid other)
  | none => refuse .unionTagNotFound

mutual

/-- Reading by recursion on the schema. -/
def Schema.validate {α : Type} : Schema τ ε α → Doc τ → Verdict τ ε α
  | .leaf read _ => fun doc => judge (read doc)
  | .nullable null inner => readNullable null inner.validate
  | .sequence item => shaped Doc.items? .listType (readSequence item.validate)
  | .dictionary key value =>
      shaped Doc.entries? .dictType fun entries =>
        .all (entries.map (readEntry key value.validate))
  | .model make fields =>
      shaped Doc.entries? .modelType
        (readModel fields.names fun entries => (fields.validate entries).map (· make))
  | .tagged tag choices =>
      shaped Doc.entries? .modelAttributesType (readTagged tag choices.validate)
  | .checked inner check _ => readChecked inner.validate check
  | .prepared prepare inner => fun doc => inner.validate (prepare doc)

def Fields.validate {ρ γ : Type} : Fields τ ε ρ γ → Entries τ → Verdict τ ε (γ → ρ)
  | .done => fun _ => .ok id
  | .field name schema default _ rest => fun entries =>
      .combine (fun value build make => build (make value))
        (readField name default schema.validate (find name entries)) (rest.validate entries)

def Choices.validate {α : Type} : Choices τ ε α → String → Doc τ → Verdict τ ε α
  | .none => fun found _ => refuse (.unionTagInvalid (.scalar (.text found)))
  | .choice tag schema into _ rest => fun found doc =>
      if found = tag then under (.key (.text tag)) ((schema.validate doc).map into)
      else rest.validate found doc

end

/-- A validator that is not ours, by what is known of it: how it deals with each kind of
schema. -/
structure Validator (τ ε : Type) [DecidableEq τ] where
  validate {α : Type} : Schema τ ε α → Doc τ → Verdict τ ε α
  fields {ρ γ : Type} : Fields τ ε ρ γ → Entries τ → Verdict τ ε (γ → ρ)
  choices {α : Type} : Choices τ ε α → String → Doc τ → Verdict τ ε α
  leaf {α : Type} (read : Doc τ → Except ε α) (write : α → Doc τ) (doc : Doc τ) :
    validate (.leaf read write) doc = judge (read doc)
  nullable {α : Type} (null : τ) (inner : Schema τ ε α) (doc : Doc τ) :
    validate (.nullable null inner) doc = readNullable null (validate inner) doc
  -- A list and a dictionary are read through to the end, whatever is wrong on the way.
  sequence {α : Type} (item : Schema τ ε α) (doc : Doc τ) :
    validate (.sequence item) doc =
      shaped Doc.items? .listType (readSequence (validate item)) doc
  dictionary {α : Type} (key : Scalar τ → Except ε String) (value : Schema τ ε α) (doc : Doc τ) :
    validate (.dictionary key value) doc =
      shaped Doc.entries? .dictType
        (fun entries => .all (entries.map (readEntry key (validate value)))) doc
  -- Keys that no field has are refused.
  model {ρ γ : Type} (make : γ) (members : Fields τ ε ρ γ) (doc : Doc τ) :
    validate (.model make members) doc =
      shaped Doc.entries? .modelType
        (readModel members.names fun entries => (fields members entries).map (· make)) doc
  noFields {ρ : Type} (entries : Entries τ) : fields (.done : Fields τ ε ρ ρ) entries = .ok id
  field {ρ β γ : Type} (name : String) (schema : Schema τ ε β) (default : Option β)
    (get : ρ → β) (rest : Fields τ ε ρ γ) (entries : Entries τ) :
    fields (.field name schema default get rest) entries =
      .combine (fun value build make => build (make value))
        (readField name default (validate schema) (find name entries)) (fields rest entries)
  -- A union is read as the choice its tag names.
  tagged {α : Type} (tag : String) (members : Choices τ ε α) (doc : Doc τ) :
    validate (.tagged tag members) doc =
      shaped Doc.entries? .modelAttributesType (readTagged tag (choices members)) doc
  noChoice {α : Type} (found : String) (doc : Doc τ) :
    choices (.none : Choices τ ε α) found doc =
      refuse (.unionTagInvalid (.scalar (.text found)))
  choice {α β : Type} (tag : String) (schema : Schema τ ε β) (into : β → α)
    (outof : α → Option β) (rest : Choices τ ε α) (found : String) (doc : Doc τ) :
    choices (.choice tag schema into outof rest) found doc =
      if found = tag then under (.key (.text tag)) ((validate schema doc).map into)
      else choices rest found doc
  -- A check sees the value of a document that is otherwise right.
  checked {α β : Type} (inner : Schema τ ε α) (check : α → Except ε β) (forget : β → α)
    (doc : Doc τ) :
    validate (.checked inner check forget) doc = readChecked (validate inner) check doc
  prepared {α : Type} (prepare : Doc τ → Doc τ) (inner : Schema τ ε α) (doc : Doc τ) :
    validate (.prepared prepare inner) doc = validate inner (prepare doc)

/-- The validator that reads by recursion on the schema. -/
def structural (τ ε : Type) [DecidableEq τ] : Validator τ ε where
  validate := Schema.validate
  fields := Fields.validate
  choices := Choices.validate
  leaf _ _ _ := rfl
  nullable _ _ _ := rfl
  sequence _ _ := rfl
  dictionary _ _ _ := rfl
  model _ _ _ := rfl
  noFields _ := rfl
  field _ _ _ _ _ _ := rfl
  tagged _ _ _ := rfl
  noChoice _ _ := rfl
  choice _ _ _ _ _ _ _ := rfl
  checked _ _ _ _ := rfl
  prepared _ _ _ := rfl

section Validators

variable (validator : Validator τ ε)

mutual

/-- What is known of a validator decides what it reads and what it reports. -/
theorem Validator.validate_eq {α : Type} : ∀ schema : Schema τ ε α,
    validator.validate schema = schema.validate
  | .leaf read write => funext fun doc => validator.leaf read write doc
  | .nullable null inner => by
      funext doc
      rw [validator.nullable, Validator.validate_eq inner]
      rfl
  | .sequence item => by
      funext doc
      rw [validator.sequence, Validator.validate_eq item]
      rfl
  | .dictionary key value => by
      funext doc
      rw [validator.dictionary, Validator.validate_eq value]
      rfl
  | .model make members => by
      funext doc
      rw [validator.model, Validator.fields_eq members]
      rfl
  | .tagged tag members => by
      funext doc
      rw [validator.tagged, Validator.choices_eq members]
      rfl
  | .checked inner check forget => by
      funext doc
      rw [validator.checked, Validator.validate_eq inner]
      rfl
  | .prepared prepare inner => by
      funext doc
      rw [validator.prepared, Validator.validate_eq inner]
      rfl

theorem Validator.fields_eq {ρ γ : Type} : ∀ members : Fields τ ε ρ γ,
    validator.fields members = members.validate
  | .done => funext fun entries => validator.noFields entries
  | .field name schema default get rest => by
      funext entries
      rw [validator.field, Validator.validate_eq schema, Validator.fields_eq rest]
      rfl

theorem Validator.choices_eq {α : Type} : ∀ members : Choices τ ε α,
    validator.choices members = members.validate
  | .none => by
      funext found doc
      exact validator.noChoice found doc
  | .choice tag schema into outof rest => by
      funext found doc
      rw [validator.choice, Validator.validate_eq schema, Validator.choices_eq rest]
      rfl

end

end Validators

def writeEntry (write : α → Doc τ) (entry : String × α) : Scalar τ × Doc τ :=
  (.text entry.1, write entry.2)

mutual

def Schema.write {α : Type} : Schema τ ε α → α → Doc τ
  | .leaf _ write, value => write value
  | .nullable null inner, value =>
      match value with
      | none => .scalar (.other null)
      | some value => inner.write value
  | .sequence item, values => .sequence (values.map item.write)
  | .dictionary _ schema, entries => .mapping (entries.map (writeEntry schema.write))
  | .model _ fields, value => .mapping (fields.write value)
  | .tagged _ choices, value => choices.write value
  | .checked inner _ forget, value => inner.write (forget value)
  | .prepared _ inner, value => inner.write value

def Fields.write {ρ γ : Type} : Fields τ ε ρ γ → ρ → Entries τ
  | .done, _ => []
  | .field name schema _ get rest, value =>
      (.text name, schema.write (get value)) :: rest.write value

def Choices.write {α : Type} : Choices τ ε α → α → Doc τ
  | .none, _ => .mapping []
  | .choice _ schema _ outof rest, value =>
      match outof value with
      | some inner => schema.write inner
      | none => rest.write value

end

end Documents
