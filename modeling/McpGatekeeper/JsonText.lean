import Mathlib.Data.List.Nodup
import McpGatekeeper.JsonValues
import McpGatekeeper.Text.JsonString
import McpGatekeeper.Text.Numeral

namespace McpGatekeeper.JsonText

open McpGatekeeper.JsonValues

def isSpace (c : Char) : Bool :=
  decide (c ∈ [' ', '\t', '\n', '\r'])

def skipSpace (text : List Char) : List Char :=
  text.dropWhile isSpace

/-- What goes after an opening bracket and before the closing one, and what goes after a
comma, at a depth. -/
structure Layout where
  edge : Nat → List Char
  gap : Nat → List Char
  edge_space : ∀ depth, (edge depth).all isSpace = true
  gap_space : ∀ depth, (gap depth).all isSpace = true

/-- `json.dumps(value)` -/
def compact : Layout where
  edge _ := []
  gap _ := [' ']
  edge_space _ := rfl
  gap_space _ := rfl

/-- `json.dumps(value, indent=indent)` -/
def indented (indent : Nat) : Layout where
  edge depth := '\n' :: List.replicate (indent * depth) ' '
  gap depth := '\n' :: List.replicate (indent * depth) ' '
  edge_space depth := by simp [isSpace]
  gap_space depth := by simp [isSpace]

/-- The words of `NaN` and the infinities are not their `repr`. -/
def floatText (repr : String) : List Char :=
  if repr = "nan" then "NaN".toList
  else if repr = "inf" then "Infinity".toList
  else if repr = "-inf" then "-Infinity".toList
  else repr.toList

section Writing

variable (layout : Layout)

mutual

def valueText (depth : Nat) : Json → List Char
  | .null => "null".toList
  | .bool true => "true".toList
  | .bool false => "false".toList
  | .int value => Numeral.writeInt value
  | .float repr => floatText repr
  | .str value => JsonString.write value.toList
  | .arr [] => ['[', ']']
  | .arr (item :: items) =>
      '[' :: layout.edge (depth + 1) ++ valueText (depth + 1) item ++ itemsText depth items
  | .obj [] => ['{', '}']
  | .obj ((key, value) :: fields) =>
      '{' :: layout.edge (depth + 1) ++ JsonString.write key.toList ++ [':', ' '] ++
        valueText (depth + 1) value ++ fieldsText depth fields

/-- The items after the first, and the closing bracket. -/
def itemsText (depth : Nat) : List Json → List Char
  | [] => layout.edge depth ++ [']']
  | item :: items =>
      ',' :: layout.gap (depth + 1) ++ valueText (depth + 1) item ++ itemsText depth items

def fieldsText (depth : Nat) : JsonObject → List Char
  | [] => layout.edge depth ++ ['}']
  | (key, value) :: fields =>
      ',' :: layout.gap (depth + 1) ++ JsonString.write key.toList ++ [':', ' '] ++
        valueText (depth + 1) value ++ fieldsText depth fields

end

end Writing

/-- `json.dumps(fields, sort_keys=True)` -/
def dumpsText (fields : JsonObject) : String :=
  String.ofList (valueText compact 0 (.obj (dumps fields)))

def constants : List (String × Json) :=
  [("null", .null), ("true", .bool true), ("false", .bool false), ("NaN", .float "nan"),
    ("Infinity", .float "inf"), ("-Infinity", .float "-inf")]

def readConstant (text : List Char) : Option (Json × List Char) :=
  constants.findSome? fun constant =>
    (text.dropPrefix? constant.1.toList).map fun rest => (constant.2, rest)

/-- `fields[key] = value` -/
def setItem (key : String) (value : Json) : JsonObject → JsonObject
  | [] => [(key, value)]
  | field :: fields =>
      if field.1 = key then (key, value) :: fields else field :: setItem key value fields

section Reading

-- `repr(float(text))`
variable (spell : List Char → String)

def readNumber (text : List Char) : Option (Json × List Char) :=
  (Numeral.read text).map fun parts =>
    if parts.2.1 = [] then (.int (Numeral.toInt parts.1), parts.2.2)
    else (.float (spell (parts.1 ++ parts.2.1)), parts.2.2)

mutual

def readValue : Nat → List Char → Option (Json × List Char)
  | 0, _ => none
  | fuel + 1, text =>
      if text.head? = some '"' then
        (JsonString.read text).map fun value => (.str (String.ofList value.1), value.2)
      else if text.head? = some '[' then
        let rest := skipSpace (text.drop 1)
        if rest.head? = some ']' then some (.arr [], rest.drop 1)
        else (readItems fuel rest).map fun items => (.arr items.1, items.2)
      else if text.head? = some '{' then
        let rest := skipSpace (text.drop 1)
        if rest.head? = some '}' then some (.obj [], rest.drop 1)
        else (readFields fuel [] rest).map fun fields => (.obj fields.1, fields.2)
      else (readConstant text).or (readNumber spell text)

def readItems : Nat → List Char → Option (List Json × List Char)
  | 0, _ => none
  | fuel + 1, text =>
      (readValue fuel text).bind fun item =>
        let rest := skipSpace item.2
        if rest.head? = some ']' then some ([item.1], rest.drop 1)
        else if rest.head? = some ',' then
          (readItems fuel (skipSpace (rest.drop 1))).map fun items =>
            (item.1 :: items.1, items.2)
        else none

/-- A key that comes again takes the later value, in its first place. -/
def readFields : Nat → JsonObject → List Char → Option (JsonObject × List Char)
  | 0, _, _ => none
  | fuel + 1, fields, text =>
      (JsonString.read text).bind fun key =>
        let rest := skipSpace key.2
        if rest.head? = some ':' then
          (readValue fuel (skipSpace (rest.drop 1))).bind fun value =>
            let fields := setItem (String.ofList key.1) value.1 fields
            let rest := skipSpace value.2
            if rest.head? = some '}' then some (fields, rest.drop 1)
            else if rest.head? = some ',' then
              readFields fuel fields (skipSpace (rest.drop 1))
            else none
        else none

end

/-- `json.loads(text)`; `none` where it raises. -/
def loads (text : String) : Option Json :=
  (readValue spell (text.toList.length + 1) (skipSpace text.toList)).bind fun value =>
    if skipSpace value.2 = [] then some value.1 else none

end Reading

section Proper

variable (spell : List Char → String)

/-- A float that is not spelled out is written with a fraction or an exponent. -/
def isFloatRepr (repr : String) : Bool :=
  decide (repr ∈ ["nan", "inf", "-inf"]) ||
    (decide (spell repr.toList = repr) && (Numeral.read repr.toList).any fun parts =>
      !parts.2.1.isEmpty && parts.2.2.isEmpty)

mutual

/-- The keys of an object are distinct, and every float is its `repr`. -/
def proper : Json → Bool
  | .float repr => isFloatRepr spell repr
  | .arr items => properItems items
  | .obj fields => decide (fields.map (·.1)).Nodup && properFields fields
  | _ => true

def properItems : List Json → Bool
  | [] => true
  | item :: items => proper item && properItems items

def properFields : JsonObject → Bool
  | [] => true
  | (_, value) :: fields => proper value && properFields fields

end

/-- What a float is read as is the `repr` of a float. -/
def Spells : Prop :=
  ∀ text parts, Numeral.read text = some parts → parts.2.1 ≠ [] →
    isFloatRepr spell (spell (parts.1 ++ parts.2.1)) = true

end Proper

theorem skipSpace_append {space text : List Char} (h : space.all isSpace = true) :
    skipSpace (space ++ text) = skipSpace text :=
  List.dropWhile_append_of_pos (List.all_eq_true.mp h)

theorem skipSpace_cons {c : Char} (h : isSpace c = false) (text : List Char) :
    skipSpace (c :: text) = c :: text := by
  rw [skipSpace, List.dropWhile_cons, if_neg (by simp [h])]

theorem setItem_fresh {key : String} {value : Json} {fields : JsonObject}
    (h : key ∉ fields.map (·.1)) : setItem key value fields = fields ++ [(key, value)] := by
  induction fields with
  | nil => rfl
  | cons field fields ih =>
      obtain ⟨hfirst, hrest⟩ := List.ne_and_not_mem_of_not_mem_cons h
      rw [setItem, if_neg hfirst.symm, ih hrest, List.cons_append]

theorem insertField_perm (field : String × Json) (fields : JsonObject) :
    (insertField field fields).Perm (field :: fields) := by
  induction fields with
  | nil => exact .refl _
  | cons other fields ih =>
      rw [insertField]
      split
      · exact .refl _
      · exact (ih.cons other).trans (.swap field other fields)

theorem dumps_keys_perm (fields : JsonObject) :
    ((dumps fields).map (·.1)).Perm (fields.map (·.1)) := by
  induction fields with
  | nil => exact .refl _
  | cons field fields ih =>
      rw [dumps]
      exact ((insertField_perm _ _).map _).trans (ih.cons field.1)

section Sorting

variable {spell : List Char → String}

theorem properFields_iff {fields : JsonObject} :
    properFields spell fields = true ↔ ∀ field ∈ fields, proper spell field.2 = true := by
  induction fields with
  | nil => simp [properFields]
  | cons field fields ih =>
      obtain ⟨key, value⟩ := field
      rw [properFields, Bool.and_eq_true, ih, List.forall_mem_cons]

mutual

theorem proper_sortKeys {value : Json} (h : proper spell value = true) :
    proper spell (sortKeys value) = true := by
  cases value with
  | arr items => exact properItems_sortKeysItems h
  | obj fields =>
      obtain ⟨hkeys, hfields⟩ := Bool.and_eq_true_iff.mp h
      refine Bool.and_eq_true_iff.mpr ⟨?_, properFields_dumps hfields⟩
      exact decide_eq_true ((dumps_keys_perm fields).nodup_iff.mpr (of_decide_eq_true hkeys))
  | null | bool | int | float | str => exact h

theorem properItems_sortKeysItems {items : List Json} (h : properItems spell items = true) :
    properItems spell (sortKeysItems items) = true := by
  cases items with
  | nil => rfl
  | cons item items =>
      obtain ⟨hitem, hitems⟩ := Bool.and_eq_true_iff.mp h
      exact Bool.and_eq_true_iff.mpr ⟨proper_sortKeys hitem, properItems_sortKeysItems hitems⟩

theorem properFields_dumps {fields : JsonObject} (h : properFields spell fields = true) :
    properFields spell (dumps fields) = true := by
  cases fields with
  | nil => rfl
  | cons field fields =>
      obtain ⟨hvalue, hfields⟩ := Bool.and_eq_true_iff.mp h
      rw [dumps, properFields_iff]
      intro other hother
      rcases mem_insertField.mp hother with rfl | hmem
      · exact proper_sortKeys hvalue
      · exact properFields_iff.mp (properFields_dumps hfields) other hmem

end

end Sorting

section RoundTrip

variable {spell : List Char → String} (layout : Layout)

theorem readNumber_writeInt (value : Int) {rest : List Char} (hrest : Numeral.Stops rest) :
    readNumber spell (Numeral.writeInt value ++ rest) = some (.int value, rest) := by
  rw [readNumber, Numeral.read_append hrest, Numeral.read_writeInt]
  simp [Numeral.toInt_writeInt]

theorem numeral_cases {text : List Char} {parts : List Char × List Char × List Char}
    (h : Numeral.read text = some parts) :
    ∃ c tail, text = c :: tail ∧
      (c.isDigit = true ∨ c = '-' ∧ ∃ d, tail.head? = some d ∧ d.isDigit = true) := by
  obtain ⟨whole, hwhole, -⟩ := Option.map_eq_some_iff.mp h
  exact Numeral.head_of_readWhole hwhole

theorem readConstant_of_numeral {text : List Char} {parts : List Char × List Char × List Char}
    (h : Numeral.read text = some parts) : readConstant text = none := by
  have hwords : ∀ word ∈ constants.map (·.1.toList), text.dropPrefix? word = none := by
    obtain ⟨c, tail, rfl, hdigit | ⟨rfl, d, hhead, hdigit⟩⟩ := numeral_cases h
    · have hfirst : ∀ first, first.isDigit = false → (c == first) = false := by
        rintro first hfirst
        refine beq_eq_false_iff_ne.mpr ?_
        rintro rfl
        rw [hfirst] at hdigit
        cases hdigit
      simp [constants, List.dropPrefix?, hfirst 'n' rfl, hfirst 't' rfl, hfirst 'f' rfl,
        hfirst 'N' rfl, hfirst 'I' rfl, hfirst '-' rfl]
    · obtain ⟨tail, rfl⟩ := List.head?_eq_some_iff.mp hhead
      have hletter : (d == 'I') = false := by
        refine beq_eq_false_iff_ne.mpr ?_
        rintro rfl
        cases hdigit
      simp [constants, List.dropPrefix?, hletter]
  rw [readConstant, List.findSome?_eq_none_iff]
  intro constant hconstant
  rw [hwords _ (List.mem_map_of_mem hconstant)]
  rfl

theorem readConstant_word {constant : String × Json} (h : constant ∈ constants)
    (rest : List Char) :
    readConstant (constant.1.toList ++ rest) = some (constant.2, rest) := by
  simp only [constants, List.mem_cons, List.not_mem_nil, or_false] at h
  rcases h with rfl | rfl | rfl | rfl | rfl | rfl
  all_goals simp [readConstant, constants, List.dropPrefix?]

theorem readScalar_float {repr : String} (h : isFloatRepr spell repr = true) {rest : List Char}
    (hrest : Numeral.Stops rest) :
    (readConstant (floatText repr ++ rest)).or (readNumber spell (floatText repr ++ rest)) =
      some (.float repr, rest) := by
  by_cases hword : repr ∈ ["nan", "inf", "-inf"]
  · obtain ⟨constant, hmem, htext, hvalue⟩ : ∃ constant ∈ constants,
        floatText repr = constant.1.toList ∧ constant.2 = .float repr := by
      simp only [List.mem_cons, List.not_mem_nil, or_false] at hword
      rcases hword with rfl | rfl | rfl
      · exact ⟨("NaN", .float "nan"), by simp [constants], rfl, rfl⟩
      · exact ⟨("Infinity", .float "inf"), by simp [constants], rfl, rfl⟩
      · exact ⟨("-Infinity", .float "-inf"), by simp [constants], rfl, rfl⟩
    rw [htext, readConstant_word hmem, hvalue, Option.some_or]
  · rw [isFloatRepr, decide_eq_false hword, Bool.false_or, Bool.and_eq_true,
      Option.any_eq_true] at h
    obtain ⟨hspell, ⟨whole, tail, left⟩, hread, hparts⟩ := h
    obtain ⟨htail, hleft⟩ := Bool.and_eq_true_iff.mp hparts
    obtain rfl : left = [] := List.isEmpty_iff.mp hleft
    have htext : floatText repr = repr.toList := by
      simp only [List.mem_cons, List.not_mem_nil, or_false, not_or] at hword
      rw [floatText, if_neg hword.1, if_neg hword.2.1, if_neg hword.2.2]
    have happend : Numeral.read (repr.toList ++ rest) = some (whole, tail, rest) := by
      rw [Numeral.read_append hrest, hread]
      rfl
    have hwhole : whole ++ tail = repr.toList := by
      rw [← Numeral.append_of_read hread, List.append_nil]
    rw [htext, readConstant_of_numeral happend, Option.none_or, readNumber, happend,
      Option.map_some, if_neg (by simpa using htail), hwhole, of_decide_eq_true hspell]

theorem head_of_isFloatRepr {repr : String} (h : isFloatRepr spell repr = true) :
    ∃ c tail, floatText repr = c :: tail ∧ (c.isDigit = true ∨ c ∈ ['N', 'I', '-']) := by
  by_cases hword : repr ∈ ["nan", "inf", "-inf"]
  · simp only [List.mem_cons, List.not_mem_nil, or_false] at hword
    rcases hword with rfl | rfl | rfl
    · exact ⟨'N', _, rfl, .inr (by decide)⟩
    · exact ⟨'I', _, rfl, .inr (by decide)⟩
    · exact ⟨'-', _, rfl, .inr (by decide)⟩
  · rw [isFloatRepr, decide_eq_false hword, Bool.false_or, Bool.and_eq_true,
      Option.any_eq_true] at h
    obtain ⟨-, parts, hread, -⟩ := h
    simp only [List.mem_cons, List.not_mem_nil, or_false, not_or] at hword
    rw [floatText, if_neg hword.1, if_neg hword.2.1, if_neg hword.2.2]
    obtain ⟨c, tail, heq, hdigit | ⟨rfl, -⟩⟩ := numeral_cases hread
    · exact ⟨c, tail, heq, .inl hdigit⟩
    · exact ⟨'-', tail, heq, .inr (by decide)⟩

theorem head_of_writeInt (value : Int) :
    ∃ c tail, Numeral.writeInt value = c :: tail ∧ (c.isDigit = true ∨ c = '-') := by
  obtain ⟨c, tail, heq, hdigit | ⟨rfl, -⟩⟩ := numeral_cases (Numeral.read_writeInt value)
  · exact ⟨c, tail, heq, .inl hdigit⟩
  · exact ⟨'-', tail, heq, .inr rfl⟩

/-- Where the text of a value can begin. -/
def begins (c : Char) : Bool :=
  c.isDigit || decide (c ∈ ['N', 'I', '-', 'n', 't', 'f', '"', '[', '{'])

theorem head_of_valueText {value : Json} (h : proper spell value = true) (depth : Nat) :
    ∃ c tail, valueText layout depth value = c :: tail ∧ begins c = true := by
  cases value with
  | null => exact ⟨'n', _, rfl, by decide⟩
  | bool value =>
      cases value with
      | false => exact ⟨'f', _, rfl, by decide⟩
      | true => exact ⟨'t', _, rfl, by decide⟩
  | int value =>
      obtain ⟨c, tail, heq, hdigit | rfl⟩ := head_of_writeInt value
      · exact ⟨c, tail, heq, by simp [begins, hdigit]⟩
      · exact ⟨'-', tail, heq, by decide⟩
  | float repr =>
      obtain ⟨c, tail, heq, hdigit | hmem⟩ := head_of_isFloatRepr h
      · exact ⟨c, tail, heq, by simp [begins, hdigit]⟩
      · refine ⟨c, tail, heq, ?_⟩
        simp only [List.mem_cons, List.not_mem_nil, or_false] at hmem
        rcases hmem with rfl | rfl | rfl <;> decide
  | str value => exact ⟨'"', _, rfl, by decide⟩
  | arr items =>
      cases items with
      | nil => exact ⟨'[', _, rfl, by decide⟩
      | cons item items => exact ⟨'[', _, rfl, by decide⟩
  | obj fields =>
      cases fields with
      | nil => exact ⟨'{', _, rfl, by decide⟩
      | cons field fields => exact ⟨'{', _, rfl, by decide⟩

theorem begins_cases {c : Char} (h : begins c = true) :
    isSpace c = false ∧ c ≠ ']' ∧ c ≠ '}' := by
  have hall : ∀ d ∈ [' ', '\t', '\n', '\r', ']', '}'], begins d = false := by
    simp [begins]
  have hne : ∀ d ∈ [' ', '\t', '\n', '\r', ']', '}'], c ≠ d := by
    rintro d hd rfl
    rw [hall c hd] at h
    cases h
  refine ⟨decide_eq_false fun hspace => ?_, hne _ (by simp), hne _ (by simp)⟩
  exact hne c (List.mem_append_left [']', '}'] hspace) rfl

theorem skipSpace_valueText {value : Json} (h : proper spell value = true) (depth : Nat)
    {space : List Char} (hspace : space.all isSpace = true) (rest : List Char) :
    skipSpace (space ++ (valueText layout depth value ++ rest)) =
      valueText layout depth value ++ rest := by
  obtain ⟨c, tail, heq, hbegins⟩ := head_of_valueText layout h depth
  rw [skipSpace_append hspace, heq, List.cons_append, skipSpace_cons (begins_cases hbegins).1]

theorem stops_space {space rest : List Char} (hspace : space.all isSpace = true)
    (hrest : Numeral.Stops rest) : Numeral.Stops (space ++ rest) := by
  cases space with
  | nil => exact hrest
  | cons c space =>
      have hall : ∀ d ∈ [' ', '\t', '\n', '\r'], Numeral.numeric d = false := by
        simp [Numeral.numeric]
      rw [List.all_cons, Bool.and_eq_true] at hspace
      exact Numeral.stops_cons (hall c (of_decide_eq_true hspace.1))

theorem stops_itemsText (depth : Nat) (items : List Json) (rest : List Char) :
    Numeral.Stops (itemsText layout depth items ++ rest) := by
  cases items with
  | nil =>
      rw [itemsText, List.append_assoc]
      exact stops_space (layout.edge_space depth) (Numeral.stops_cons (by decide))
  | cons item items => exact Numeral.stops_cons (by decide)

theorem stops_fieldsText (depth : Nat) (fields : JsonObject) (rest : List Char) :
    Numeral.Stops (fieldsText layout depth fields ++ rest) := by
  cases fields with
  | nil =>
      rw [fieldsText, List.append_assoc]
      exact stops_space (layout.edge_space depth) (Numeral.stops_cons (by decide))
  | cons field fields => exact Numeral.stops_cons (by decide)

/-! How often the readers call one another. -/

mutual

def size : Json → Nat
  | .arr items => sizeItems items + 1
  | .obj fields => sizeFields fields + 1
  | _ => 1

def sizeItems : List Json → Nat
  | [] => 0
  | item :: items => size item + sizeItems items + 1

def sizeFields : JsonObject → Nat
  | [] => 0
  | (_, value) :: fields => size value + sizeFields fields + 1

end

theorem readValue_string (fuel : Nat) (text rest : List Char) :
    readValue spell (fuel + 1) (JsonString.write text ++ rest) =
      some (.str (String.ofList text), rest) := by
  have hhead : (JsonString.write text ++ rest).head? = some '"' := rfl
  rw [readValue, if_pos hhead, JsonString.read_write]
  rfl

theorem readValue_array (fuel : Nat) (text : List Char) :
    readValue spell (fuel + 1) ('[' :: text) =
      if (skipSpace text).head? = some ']' then some (.arr [], (skipSpace text).drop 1)
      else (readItems spell fuel (skipSpace text)).map fun items => (.arr items.1, items.2) :=
  rfl

theorem readValue_object (fuel : Nat) (text : List Char) :
    readValue spell (fuel + 1) ('{' :: text) =
      if (skipSpace text).head? = some '}' then some (.obj [], (skipSpace text).drop 1)
      else (readFields spell fuel [] (skipSpace text)).map fun fields =>
        (.obj fields.1, fields.2) :=
  rfl

theorem readValue_scalar {text rest tail : List Char} {c : Char} {value : Json}
    (heq : text = c :: tail) (hc : c.isDigit = true ∨ c ∈ ['n', 't', 'f', 'N', 'I', '-'])
    (hscalar : (readConstant (text ++ rest)).or (readNumber spell (text ++ rest)) =
      some (value, rest)) (fuel : Nat) :
    readValue spell (fuel + 1) (text ++ rest) = some (value, rest) := by
  have hne : ∀ d, d.isDigit = false → d ∉ ['n', 't', 'f', 'N', 'I', '-'] → c ≠ d := by
    rintro d hdigit hmem rfl
    rcases hc with h | h
    · rw [hdigit] at h
      cases h
    · exact hmem h
  have hhead : ∀ d, d.isDigit = false → d ∉ ['n', 't', 'f', 'N', 'I', '-'] →
      (text ++ rest).head? ≠ some d := by
    intro d hdigit hmem h
    rw [heq] at h
    exact hne d hdigit hmem (Option.some.inj h)
  rw [readValue, if_neg (hhead '"' rfl (by decide)), if_neg (hhead '[' rfl (by decide)),
    if_neg (hhead '{' rfl (by decide)), hscalar]

theorem readValue_constant {constant : String × Json} (h : constant ∈ constants)
    (rest : List Char) (fuel : Nat) :
    readValue spell (fuel + 1) (constant.1.toList ++ rest) = some (constant.2, rest) := by
  have hscalar : (readConstant (constant.1.toList ++ rest)).or
      (readNumber spell (constant.1.toList ++ rest)) = some (constant.2, rest) := by
    rw [readConstant_word h, Option.some_or]
  simp only [constants, List.mem_cons, List.not_mem_nil, or_false] at h
  rcases h with rfl | rfl | rfl | rfl | rfl | rfl
  all_goals exact readValue_scalar rfl (.inr (by decide)) hscalar fuel

theorem readValue_int (value : Int) {rest : List Char} (hrest : Numeral.Stops rest)
    (fuel : Nat) :
    readValue spell (fuel + 1) (Numeral.writeInt value ++ rest) = some (.int value, rest) := by
  have hread : Numeral.read (Numeral.writeInt value ++ rest) =
      some (Numeral.writeInt value, [], rest) := by
    rw [Numeral.read_append hrest, Numeral.read_writeInt]
    rfl
  have hscalar : (readConstant (Numeral.writeInt value ++ rest)).or
      (readNumber spell (Numeral.writeInt value ++ rest)) = some (.int value, rest) := by
    rw [readConstant_of_numeral hread, Option.none_or, readNumber_writeInt value hrest]
  obtain ⟨c, tail, heq, hdigit | rfl⟩ := head_of_writeInt value
  · exact readValue_scalar heq (.inl hdigit) hscalar fuel
  · exact readValue_scalar heq (.inr (by decide)) hscalar fuel

theorem readValue_float {repr : String} (h : isFloatRepr spell repr = true) {rest : List Char}
    (hrest : Numeral.Stops rest) (fuel : Nat) :
    readValue spell (fuel + 1) (floatText repr ++ rest) = some (.float repr, rest) := by
  obtain ⟨c, tail, heq, hdigit | hmem⟩ := head_of_isFloatRepr h
  · exact readValue_scalar heq (.inl hdigit) (readScalar_float h hrest) fuel
  · refine readValue_scalar heq (.inr ?_) (readScalar_float h hrest) fuel
    exact List.mem_append_right ['n', 't', 'f'] hmem

mutual

theorem readValue_valueText {value : Json} {fuel : Nat} (hfuel : size value ≤ fuel)
    (h : proper spell value = true) (depth : Nat) {rest : List Char}
    (hrest : Numeral.Stops rest) :
    readValue spell fuel (valueText layout depth value ++ rest) = some (value, rest) := by
  cases fuel with
  | zero => cases value <;> simp [size] at hfuel
  | succ fuel =>
      cases value with
      | null =>
          have hmem : ("null", Json.null) ∈ constants := by simp [constants]
          exact readValue_constant hmem rest fuel
      | bool value =>
          cases value with
          | true =>
              have hmem : ("true", Json.bool true) ∈ constants := by simp [constants]
              exact readValue_constant hmem rest fuel
          | false =>
              have hmem : ("false", Json.bool false) ∈ constants := by simp [constants]
              exact readValue_constant hmem rest fuel
      | int value => exact readValue_int value hrest fuel
      | float repr => exact readValue_float h hrest fuel
      | str value =>
          rw [valueText, readValue_string, String.ofList_toList]
      | arr items =>
          cases items with
          | nil => rfl
          | cons item items =>
              have hitems := readItems_itemsText (Nat.le_of_succ_le_succ hfuel) h depth rest
              obtain ⟨c, tail, heq, hbegins⟩ :=
                head_of_valueText layout (Bool.and_eq_true_iff.mp h).1 (depth + 1)
              rw [valueText]
              simp only [List.cons_append, List.append_assoc] at hitems ⊢
              rw [readValue_array, skipSpace_valueText layout (Bool.and_eq_true_iff.mp h).1 _
                (layout.edge_space _), hitems, if_neg]
              · rfl
              · rw [heq]
                exact fun h => (begins_cases hbegins).2.1 (Option.some.inj h)
      | obj fields =>
          cases fields with
          | nil => rfl
          | cons field fields =>
              obtain ⟨key, value⟩ := field
              obtain ⟨hkeys, hfields⟩ := Bool.and_eq_true_iff.mp h
              have hread := readFields_fieldsText [] (Nat.le_of_succ_le_succ hfuel)
                (of_decide_eq_true hkeys) hfields depth rest
              rw [valueText]
              simp only [List.cons_append, List.append_assoc, List.nil_append] at hread ⊢
              rw [readValue_object, skipSpace_append (layout.edge_space _)]
              have hskip : ∀ rest, skipSpace (JsonString.write key.toList ++ rest) =
                  JsonString.write key.toList ++ rest := fun rest => skipSpace_cons (by decide) _
              rw [hskip, hread, if_neg]
              · rfl
              · exact fun h => by cases h
termination_by fuel

theorem readItems_itemsText {item : Json} {items : List Json} {fuel : Nat}
    (hfuel : sizeItems (item :: items) ≤ fuel)
    (h : properItems spell (item :: items) = true) (depth : Nat) (rest : List Char) :
    readItems spell fuel
      (valueText layout (depth + 1) item ++ itemsText layout depth items ++ rest) =
      some (item :: items, rest) := by
  cases fuel with
  | zero => simp [sizeItems] at hfuel
  | succ fuel =>
      rw [sizeItems] at hfuel
      obtain ⟨hitem, hitems⟩ := Bool.and_eq_true_iff.mp h
      rw [List.append_assoc, readItems, readValue_valueText (by omega) hitem (depth + 1)
        (stops_itemsText layout depth items rest), Option.bind_some]
      cases items with
      | nil =>
          rw [itemsText, List.append_assoc, skipSpace_append (layout.edge_space depth)]
          rfl
      | cons other items =>
          have hread := readItems_itemsText (by omega : _ ≤ fuel) hitems depth rest
          rw [itemsText]
          simp only [List.cons_append, List.append_assoc] at hread ⊢
          rw [skipSpace_cons (by decide), List.head?_cons, if_neg (by simp), if_pos rfl, List.drop_succ_cons,
            List.drop_zero, skipSpace_valueText layout (Bool.and_eq_true_iff.mp hitems).1 _
              (layout.gap_space _), hread]
          rfl
termination_by fuel

theorem readFields_fieldsText {key : String} {value : Json} {fields : JsonObject}
    (acc : JsonObject) {fuel : Nat} (hfuel : sizeFields ((key, value) :: fields) ≤ fuel)
    (hkeys : ((acc ++ (key, value) :: fields).map (·.1)).Nodup)
    (h : properFields spell ((key, value) :: fields) = true) (depth : Nat)
    (rest : List Char) :
    readFields spell fuel acc
      (JsonString.write key.toList ++ [':', ' '] ++ valueText layout (depth + 1) value ++
        fieldsText layout depth fields ++ rest) =
      some (acc ++ (key, value) :: fields, rest) := by
  cases fuel with
  | zero => simp [sizeFields] at hfuel
  | succ fuel =>
      rw [sizeFields] at hfuel
      obtain ⟨hvalue, hfields⟩ := Bool.and_eq_true_iff.mp h
      have hfresh : key ∉ acc.map (·.1) := by
        rw [List.map_append, List.nodup_append] at hkeys
        exact fun hmem => hkeys.2.2 key hmem key List.mem_cons_self rfl
      have hspace : [' '].all isSpace = true := rfl
      simp only [List.append_assoc]
      rw [readFields, JsonString.read_write, Option.bind_some]
      simp only [List.cons_append, List.nil_append]
      rw [skipSpace_cons (by decide), List.head?_cons, if_pos rfl, List.drop_succ_cons, List.drop_zero,
        ← List.singleton_append, skipSpace_valueText layout hvalue _ hspace,
        readValue_valueText (by omega) hvalue (depth + 1) (stops_fieldsText layout depth fields rest),
        Option.bind_some, String.ofList_toList, setItem_fresh hfresh]
      cases fields with
      | nil =>
          rw [fieldsText, List.append_assoc, skipSpace_append (layout.edge_space depth)]
          rfl
      | cons other fields =>
          obtain ⟨key', value'⟩ := other
          have hread := readFields_fieldsText (acc ++ [(key, value)])
            (by omega : _ ≤ fuel) (by simpa using hkeys) hfields depth rest
          rw [fieldsText]
          simp only [List.cons_append, List.append_assoc, List.nil_append] at hread ⊢
          rw [skipSpace_cons (by decide), List.head?_cons, if_neg (by simp), if_pos rfl, List.drop_succ_cons,
            List.drop_zero, skipSpace_append (layout.gap_space _)]
          have hskip : ∀ rest, skipSpace (JsonString.write key'.toList ++ rest) =
              JsonString.write key'.toList ++ rest := fun rest => skipSpace_cons (by decide) _
          rw [hskip, hread]
termination_by fuel

end

mutual

theorem size_le_length {value : Json} (h : proper spell value = true) (depth : Nat) :
    size value ≤ (valueText layout depth value).length := by
  cases value with
  | arr items =>
      cases items with
      | nil => simp [size, sizeItems, valueText]
      | cons item items =>
          obtain ⟨hitem, hitems⟩ := Bool.and_eq_true_iff.mp h
          have hfirst := size_le_length hitem (depth + 1)
          have hrest := sizeItems_lt_length hitems depth
          simp only [size, sizeItems, valueText, List.length_append, List.length_cons]
          omega
  | obj fields =>
      cases fields with
      | nil => simp [size, sizeFields, valueText]
      | cons field fields =>
          obtain ⟨hvalue, hfields⟩ := Bool.and_eq_true_iff.mp (Bool.and_eq_true_iff.mp h).2
          have hfirst := size_le_length hvalue (depth + 1)
          have hrest := sizeFields_lt_length hfields depth
          simp only [size, sizeFields, valueText, List.length_append, List.length_cons]
          omega
  | null | bool | int | float | str =>
      obtain ⟨c, tail, heq, -⟩ := head_of_valueText layout h depth
      rw [heq]
      simp [size]

theorem sizeItems_lt_length {items : List Json} (h : properItems spell items = true)
    (depth : Nat) : sizeItems items < (itemsText layout depth items).length := by
  cases items with
  | nil => simp [sizeItems, itemsText]
  | cons item items =>
      obtain ⟨hitem, hitems⟩ := Bool.and_eq_true_iff.mp h
      have hfirst := size_le_length hitem (depth + 1)
      have hrest := sizeItems_lt_length hitems depth
      simp only [sizeItems, itemsText, List.length_append, List.length_cons]
      omega

theorem sizeFields_lt_length {fields : JsonObject} (h : properFields spell fields = true)
    (depth : Nat) : sizeFields fields < (fieldsText layout depth fields).length := by
  cases fields with
  | nil => simp [sizeFields, fieldsText]
  | cons field fields =>
      obtain ⟨hvalue, hfields⟩ := Bool.and_eq_true_iff.mp h
      have hfirst := size_le_length hvalue (depth + 1)
      have hrest := sizeFields_lt_length hfields depth
      simp only [sizeFields, fieldsText, List.length_append, List.length_cons]
      omega

end

/-- A value is read back from its text, however the text is laid out. -/
theorem loads_valueText {value : Json} (h : proper spell value = true) :
    loads spell (String.ofList (valueText layout 0 value)) = some value := by
  have hfuel := Nat.le_succ_of_le (size_le_length layout h 0)
  have hread := readValue_valueText layout hfuel h 0 Numeral.stops_nil
  have hempty : ([] : List Char).all isSpace = true := rfl
  have hskip := skipSpace_valueText layout h 0 hempty []
  simp only [List.nil_append, List.append_nil] at hread hskip
  rw [loads, String.toList_ofList, hskip, hread]
  rfl

end RoundTrip

section OneLine

variable {spell : List Char → String}

theorem printable_of_numeric {c : Char} (h : Numeral.numeric c = true) :
    JsonString.printable c = true := by
  rcases Bool.or_eq_true_iff.mp h with hdigit | hmem
  · simp only [Char.isDigit, Bool.and_eq_true, decide_eq_true_eq, UInt32.le_iff_toNat_le] at hdigit
    obtain ⟨hlow, hhigh⟩ := hdigit
    have hlow : 48 ≤ c.toNat := hlow
    have hhigh : c.toNat ≤ 57 := hhigh
    simp only [JsonString.printable, Bool.and_eq_true, decide_eq_true_eq]
    omega
  · have hall : ∀ d ∈ ['.', 'e', 'E', '-', '+'], JsonString.printable d = true := by
      simp [JsonString.printable]
    exact hall c (of_decide_eq_true hmem)

theorem printable_numeral {text : List Char} {parts : List Char × List Char × List Char}
    (h : Numeral.read text = some parts) (hleft : parts.2.2 = []) :
    text.all JsonString.printable = true := by
  rw [← Numeral.append_of_read h, hleft, List.append_nil]
  refine List.all_eq_true.mpr fun c hc => printable_of_numeric ?_
  exact List.all_eq_true.mp (Numeral.numeric_read h) c hc

theorem printable_floatText {repr : String} (h : isFloatRepr spell repr = true) :
    (floatText repr).all JsonString.printable = true := by
  by_cases hword : repr ∈ ["nan", "inf", "-inf"]
  · simp only [List.mem_cons, List.not_mem_nil, or_false] at hword
    rcases hword with rfl | rfl | rfl <;> rfl
  · rw [isFloatRepr, decide_eq_false hword, Bool.false_or, Bool.and_eq_true,
      Option.any_eq_true] at h
    obtain ⟨-, parts, hread, hparts⟩ := h
    simp only [List.mem_cons, List.not_mem_nil, or_false, not_or] at hword
    rw [floatText, if_neg hword.1, if_neg hword.2.1, if_neg hword.2.2]
    exact printable_numeral hread (List.isEmpty_iff.mp (Bool.and_eq_true_iff.mp hparts).2)

mutual

theorem printable_valueText {value : Json} (h : proper spell value = true) (depth : Nat) :
    (valueText compact depth value).all JsonString.printable = true := by
  cases value with
  | null => rfl
  | bool value => cases value <;> rfl
  | int value => exact printable_numeral (Numeral.read_writeInt value) rfl
  | float repr => exact printable_floatText h
  | str value => exact JsonString.printable_write value.toList
  | arr items =>
      cases items with
      | nil => rfl
      | cons item items =>
          obtain ⟨hitem, hitems⟩ := Bool.and_eq_true_iff.mp h
          have hfirst := printable_valueText hitem (depth + 1)
          have hrest := printable_itemsText hitems depth
          have hedge : ('[' :: compact.edge (depth + 1)).all JsonString.printable = true := rfl
          rw [valueText, List.all_append, List.all_append, hedge, hfirst, hrest]
          rfl
  | obj fields =>
      cases fields with
      | nil => rfl
      | cons field fields =>
          obtain ⟨hvalue, hfields⟩ := Bool.and_eq_true_iff.mp (Bool.and_eq_true_iff.mp h).2
          have hfirst := printable_valueText hvalue (depth + 1)
          have hrest := printable_fieldsText hfields depth
          have hkey := JsonString.printable_write field.1.toList
          have hedge : ('{' :: compact.edge (depth + 1)).all JsonString.printable = true := rfl
          have hcolon : [':', ' '].all JsonString.printable = true := rfl
          rw [valueText, List.all_append, List.all_append, List.all_append, List.all_append,
            hedge, hkey, hcolon, hfirst, hrest]
          rfl

theorem printable_itemsText {items : List Json} (h : properItems spell items = true)
    (depth : Nat) : (itemsText compact depth items).all JsonString.printable = true := by
  cases items with
  | nil => rfl
  | cons item items =>
      obtain ⟨hitem, hitems⟩ := Bool.and_eq_true_iff.mp h
      have hfirst := printable_valueText hitem (depth + 1)
      have hrest := printable_itemsText hitems depth
      have hgap : (',' :: compact.gap (depth + 1)).all JsonString.printable = true := rfl
      rw [itemsText, List.all_append, List.all_append, hgap, hfirst, hrest]
      rfl

theorem printable_fieldsText {fields : JsonObject} (h : properFields spell fields = true)
    (depth : Nat) : (fieldsText compact depth fields).all JsonString.printable = true := by
  cases fields with
  | nil => rfl
  | cons field fields =>
      obtain ⟨hvalue, hfields⟩ := Bool.and_eq_true_iff.mp h
      have hfirst := printable_valueText hvalue (depth + 1)
      have hrest := printable_fieldsText hfields depth
      have hkey := JsonString.printable_write field.1.toList
      have hgap : (',' :: compact.gap (depth + 1)).all JsonString.printable = true := rfl
      have hcolon : [':', ' '].all JsonString.printable = true := rfl
      rw [fieldsText, List.all_append, List.all_append, List.all_append, List.all_append, hgap,
        hkey, hcolon, hfirst, hrest]
      rfl

end

end OneLine

section Accepted

variable {spell : List Char → String}

theorem setItem_keys (key : String) (value : Json) (fields : JsonObject) :
    (setItem key value fields).map (·.1) =
      if key ∈ fields.map (·.1) then fields.map (·.1) else fields.map (·.1) ++ [key] := by
  induction fields with
  | nil => rfl
  | cons field fields ih =>
      rw [setItem]
      by_cases hkey : field.1 = key
      · subst key
        simp
      · have hne : key ≠ field.1 := fun h => hkey h.symm
        rw [if_neg hkey, List.map_cons, ih, List.map_cons]
        simp only [List.mem_cons, hne, false_or]
        split <;> rfl

theorem setItem_nodup {fields : JsonObject} (h : (fields.map (·.1)).Nodup) (key : String)
    (value : Json) : ((setItem key value fields).map (·.1)).Nodup := by
  rw [setItem_keys]
  split
  · exact h
  · rename_i hfresh
    refine List.nodup_append.mpr ⟨h, List.nodup_singleton key, ?_⟩
    rintro other hother _ hkey rfl
    obtain rfl := List.mem_singleton.mp hkey
    exact hfresh hother

theorem setItem_proper {fields : JsonObject} (h : properFields spell fields = true)
    (key : String) {value : Json} (hvalue : proper spell value = true) :
    properFields spell (setItem key value fields) = true := by
  induction fields with
  | nil => simp [setItem, properFields, hvalue]
  | cons field fields ih =>
      obtain ⟨hfirst, hrest⟩ := Bool.and_eq_true_iff.mp h
      rw [setItem]
      split
      · exact Bool.and_eq_true_iff.mpr ⟨hvalue, hrest⟩
      · exact Bool.and_eq_true_iff.mpr ⟨hfirst, ih hrest⟩

mutual

theorem proper_of_readValue (hspell : Spells spell) {fuel : Nat} {text : List Char} {read : Json × List Char}
    (h : readValue spell fuel text = some read) : proper spell read.1 = true := by
  cases fuel with
  | zero => cases h
  | succ fuel =>
      rw [readValue] at h
      split at h
      · obtain ⟨value, -, rfl⟩ := Option.map_eq_some_iff.mp h
        rfl
      · split at h
        · simp only at h
          split at h
          · cases h
            rfl
          · obtain ⟨items, hitems, rfl⟩ := Option.map_eq_some_iff.mp h
            exact proper_of_readItems hspell hitems
        · split at h
          · simp only at h
            split at h
            · cases h
              rfl
            · obtain ⟨fields, hfields, rfl⟩ := Option.map_eq_some_iff.mp h
              have hempty : (([] : JsonObject).map (·.1)).Nodup := List.nodup_nil
              obtain ⟨hkeys, hproper⟩ := proper_of_readFields hspell hempty rfl hfields
              exact Bool.and_eq_true_iff.mpr ⟨decide_eq_true hkeys, hproper⟩
          · rcases Option.or_eq_some_iff.mp h with hconstant | ⟨-, hnumber⟩
            · obtain ⟨constant, hmem, hmap⟩ := List.exists_of_findSome?_eq_some hconstant
              obtain ⟨rest, -, rfl⟩ := Option.map_eq_some_iff.mp hmap
              have hall : ∀ constant ∈ constants, proper spell constant.2 = true := by
                simp [constants, proper, isFloatRepr]
              exact hall constant hmem
            · obtain ⟨parts, hparts, rfl⟩ := Option.map_eq_some_iff.mp hnumber
              split
              · rfl
              · rename_i hfloat
                exact hspell text parts hparts hfloat
termination_by fuel

theorem proper_of_readItems (hspell : Spells spell) {fuel : Nat} {text : List Char} {read : List Json × List Char}
    (h : readItems spell fuel text = some read) : properItems spell read.1 = true := by
  cases fuel with
  | zero => cases h
  | succ fuel =>
      rw [readItems] at h
      obtain ⟨item, hitem, h⟩ := Option.bind_eq_some_iff.mp h
      have hproper := proper_of_readValue hspell hitem
      simp only at h
      split at h
      · cases h
        simp [properItems, hproper]
      · split at h
        · obtain ⟨items, hitems, rfl⟩ := Option.map_eq_some_iff.mp h
          exact Bool.and_eq_true_iff.mpr ⟨hproper, proper_of_readItems hspell hitems⟩
        · cases h
termination_by fuel

theorem proper_of_readFields (hspell : Spells spell) {fuel : Nat} {acc : JsonObject} (hkeys : (acc.map (·.1)).Nodup)
    (hacc : properFields spell acc = true) {text : List Char} {read : JsonObject × List Char}
    (h : readFields spell fuel acc text = some read) :
    (read.1.map (·.1)).Nodup ∧ properFields spell read.1 = true := by
  cases fuel with
  | zero => cases h
  | succ fuel =>
      rw [readFields] at h
      obtain ⟨key, -, h⟩ := Option.bind_eq_some_iff.mp h
      simp only at h
      split at h
      · obtain ⟨value, hvalue, h⟩ := Option.bind_eq_some_iff.mp h
        have hkeys' := setItem_nodup hkeys (String.ofList key.1) value.1
        have hacc' := setItem_proper hacc (String.ofList key.1) (proper_of_readValue hspell hvalue)
        split at h
        · cases h
          exact ⟨hkeys', hacc'⟩
        · split at h
          · exact proper_of_readFields hspell hkeys' hacc' h
          · cases h
      · cases h
termination_by fuel

end

theorem proper_of_loads (hspell : Spells spell) {text : String} {value : Json}
    (h : loads spell text = some value) : proper spell value = true := by
  obtain ⟨read, hread, hrest⟩ := Option.bind_eq_some_iff.mp h
  split at hrest
  · cases hrest
    exact proper_of_readValue hspell hread
  · cases hrest

end Accepted

section Sorted

variable {spell : List Char → String}

theorem loads_dumpsText {fields : JsonObject} (h : proper spell (.obj fields) = true) :
    loads spell (dumpsText fields) = some (.obj (dumps fields)) :=
  loads_valueText compact (proper_sortKeys h)

theorem printable_dumpsText {fields : JsonObject} (h : proper spell (.obj fields) = true) :
    (dumpsText fields).toList.all JsonString.printable = true := by
  rw [dumpsText, String.toList_ofList]
  exact printable_valueText (proper_sortKeys h) 0

/-- Whatever text was read, however its keys were ordered or repeated and its items
spaced: what is written of it reads as the same value again. -/
theorem loads_written (hspell : Spells spell) {text : String} {value : Json}
    (h : loads spell text = some value) (layout : Layout) :
    loads spell (String.ofList (valueText layout 0 (sortKeys value))) =
      some (sortKeys value) :=
  loads_valueText layout (proper_sortKeys (proper_of_loads hspell h))

/-- `repr(float(text))`, of the numbers that are the text `1.50` or `1.5`. -/
def spellHalf (text : List Char) : String :=
  if text = "1.50".toList ∨ text = "1.5".toList then "1.5" else "inf"

theorem spells_spellHalf : Spells spellHalf := by
  intro text parts _ _
  rw [spellHalf]
  split
  · decide
  · simp [isFloatRepr]

theorem loads_written_half :
    loads spellHalf "\x7b\"b\": 1.50, \"a\":[1 , \"\\u0041\"], \"b\":1.5\x7d" =
        some (.obj [("b", .float "1.5"), ("a", .arr [.int 1, .str "A"])]) ∧
      loads spellHalf (String.ofList (valueText (indented 2) 0
        (sortKeys (.obj [("b", .float "1.5"), ("a", .arr [.int 1, .str "A"])])))) =
        some (sortKeys (.obj [("b", .float "1.5"), ("a", .arr [.int 1, .str "A"])])) := by
  have hread : loads spellHalf "\x7b\"b\": 1.50, \"a\":[1 , \"\\u0041\"], \"b\":1.5\x7d" =
      some (.obj [("b", .float "1.5"), ("a", .arr [.int 1, .str "A"])]) := by
    decide +kernel
  exact ⟨hread, loads_written spells_spellHalf hread (indented 2)⟩

end Sorted

end McpGatekeeper.JsonText
