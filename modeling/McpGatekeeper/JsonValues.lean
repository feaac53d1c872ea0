import Mathlib.Data.String.Basic

namespace McpGatekeeper.JsonValues

/-- A float is kept as its `repr`, which is what `str` and `json.dumps` print and
what `json.loads` reads back. -/
inductive Json
  | null
  | bool (value : Bool)
  | int (value : Int)
  | float (repr : String)
  | str (value : String)
  | arr (items : List Json)
  | obj (fields : List (String × Json))

/-- A `dict` from a JSON object, in insertion order. -/
abbrev JsonObject := List (String × Json)

def insertField (field : String × Json) : JsonObject → JsonObject
  | [] => [field]
  | other :: fields =>
      if field.1 ≤ other.1 then field :: other :: fields
      else other :: insertField field fields

mutual

def sortKeys : Json → Json
  | .arr items => .arr (sortKeysItems items)
  | .obj fields => .obj (dumps fields)
  | value => value

def sortKeysItems : List Json → List Json
  | [] => []
  | item :: items => sortKeys item :: sortKeysItems items

/-- The text `json.dumps(fields, sort_keys=True)`, represented by the one value it
determines and is determined by: the object with its keys in order. -/
def dumps : JsonObject → JsonObject
  | [] => []
  | (key, value) :: fields => insertField (key, sortKeys value) (dumps fields)

end

theorem mem_insertField {field other : String × Json} {fields : JsonObject} :
    other ∈ insertField field fields ↔ other = field ∨ other ∈ fields := by
  induction fields with
  | nil => simp [insertField]
  | cons first fields ih =>
      rw [insertField]
      split
      · rw [List.mem_cons]
      · rw [List.mem_cons, ih, List.mem_cons]
        exact or_left_comm

theorem mem_dumps {field : String × Json} {fields : JsonObject} :
    field ∈ dumps fields ↔ ∃ other ∈ fields, (other.1, sortKeys other.2) = field := by
  induction fields with
  | nil => simp [dumps]
  | cons first fields ih =>
      rw [dumps, mem_insertField, ih, List.exists_mem_cons_iff]
      exact or_congr_left eq_comm

theorem insertField_sorted {field : String × Json} {fields : JsonObject}
    (h : fields.Pairwise fun a b => a.1 ≤ b.1) :
    (insertField field fields).Pairwise fun a b => a.1 ≤ b.1 := by
  induction fields with
  | nil => simp [insertField]
  | cons first fields ih =>
      obtain ⟨hfirst, hrest⟩ := List.pairwise_cons.mp h
      rw [insertField]
      split
      · rename_i hle
        refine List.pairwise_cons.mpr ⟨fun other hother => ?_, h⟩
        rcases List.mem_cons.mp hother with rfl | hmem
        · exact hle
        · exact le_trans hle (hfirst other hmem)
      · rename_i hlt
        refine List.pairwise_cons.mpr ⟨fun other hother => ?_, ih hrest⟩
        rcases mem_insertField.mp hother with rfl | hmem
        · exact le_of_not_ge hlt
        · exact hfirst other hmem

theorem dumps_sorted (fields : JsonObject) :
    (dumps fields).Pairwise fun a b => a.1 ≤ b.1 := by
  induction fields with
  | nil => exact List.Pairwise.nil
  | cons field fields ih =>
      rw [dumps]
      exact insertField_sorted ih

theorem dumps_of_sorted {fields : JsonObject} (h : fields.Pairwise fun a b => a.1 ≤ b.1)
    (hsettled : ∀ field ∈ fields, sortKeys field.2 = field.2) : dumps fields = fields := by
  induction fields with
  | nil => rfl
  | cons field fields ih =>
      obtain ⟨hfirst, hrest⟩ := List.pairwise_cons.mp h
      obtain ⟨key, value⟩ := field
      have hvalue : sortKeys value = value := hsettled _ List.mem_cons_self
      rw [dumps, ih hrest fun other hother => hsettled other (List.mem_cons_of_mem _ hother),
        hvalue]
      rcases fields with _ | ⟨other, fields⟩
      · rfl
      · rw [insertField, if_pos (hfirst other List.mem_cons_self)]

mutual

theorem sortKeys_sortKeys (value : Json) : sortKeys (sortKeys value) = sortKeys value := by
  cases value with
  | arr items => simp [sortKeys, sortKeysItems_sortKeysItems items]
  | obj fields => simp [sortKeys, dumps_dumps fields]
  | null | bool | int | float | str => simp [sortKeys]

theorem sortKeysItems_sortKeysItems (items : List Json) :
    sortKeysItems (sortKeysItems items) = sortKeysItems items := by
  cases items with
  | nil => rfl
  | cons item items =>
      simp [sortKeysItems, sortKeys_sortKeys item, sortKeysItems_sortKeysItems items]

theorem settled_dumps (fields : JsonObject) :
    ∀ field ∈ dumps fields, sortKeys field.2 = field.2 := by
  cases fields with
  | nil => simp [dumps]
  | cons field fields =>
      obtain ⟨key, value⟩ := field
      rw [dumps]
      intro other hother
      rcases mem_insertField.mp hother with rfl | hmem
      · exact sortKeys_sortKeys value
      · exact settled_dumps fields other hmem

theorem dumps_dumps (fields : JsonObject) : dumps (dumps fields) = dumps fields :=
  dumps_of_sorted (dumps_sorted fields) (settled_dumps fields)

end

mutual

def Json.beq : Json → Json → Bool
  | .null, .null => true
  | .bool a, .bool b => a == b
  | .int a, .int b => a == b
  | .float a, .float b => a == b
  | .str a, .str b => a == b
  | .arr a, .arr b => beqItems a b
  | .obj a, .obj b => beqFields a b
  | _, _ => false

def beqItems : List Json → List Json → Bool
  | [], [] => true
  | a :: as, b :: bs => a.beq b && beqItems as bs
  | _, _ => false

def beqFields : JsonObject → JsonObject → Bool
  | [], [] => true
  | (key, a) :: as, (key', b) :: bs => key == key' && a.beq b && beqFields as bs
  | _, _ => false

end

mutual

theorem Json.beq_iff (a b : Json) : a.beq b = true ↔ a = b := by
  cases a <;> cases b <;> simp [Json.beq]
  case arr.arr a b => exact beqItems_iff a b
  case obj.obj a b => exact beqFields_iff a b

theorem beqItems_iff (as bs : List Json) : beqItems as bs = true ↔ as = bs := by
  cases as with
  | nil => cases bs <;> simp [beqItems]
  | cons a as =>
      cases bs with
      | nil => simp [beqItems]
      | cons b bs => simp [beqItems, Json.beq_iff a b, beqItems_iff as bs]

theorem beqFields_iff (as bs : JsonObject) : beqFields as bs = true ↔ as = bs := by
  cases as with
  | nil => cases bs <;> simp [beqFields]
  | cons a as =>
      cases bs with
      | nil => simp [beqFields]
      | cons b bs =>
          obtain ⟨key, a⟩ := a
          obtain ⟨key', b⟩ := b
          simp [beqFields, Json.beq_iff a b, beqFields_iff as bs]

end

instance : DecidableEq Json :=
  fun a b => decidable_of_iff _ (Json.beq_iff a b)

end McpGatekeeper.JsonValues
