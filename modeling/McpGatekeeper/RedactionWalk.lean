import McpGatekeeper.Audit
import McpGatekeeper.JsonPaths

namespace McpGatekeeper.RedactionWalk

open McpGatekeeper.Audit
open McpGatekeeper.Glob
open McpGatekeeper.JsonPaths
open McpGatekeeper.JsonValues

/-- The path handed down a step. -/
def extend (path : String) : Step → String
  | .key name => childPath path name
  | .item index => path ++ "/" ++ toString index

def pathOf (path : String) (steps : List Step) : String :=
  steps.foldl extend path

/-- The test succeeds at the position or above it. -/
def Hidden (translated : List String) (path : String) (steps : List Step) : Prop :=
  ∃ above, above <+: steps ∧ masks translated (pathOf path above) = true

/-- The test succeeds nowhere above the position. -/
def Reached (translated : List String) (path : String) (steps : List Step) : Prop :=
  ∀ above, above <+: steps → above ≠ steps → masks translated (pathOf path above) = false

section Walk

variable {translated : List String}

theorem hidden_nil {path : String} :
    Hidden translated path [] ↔ masks translated path = true := by
  constructor
  · rintro ⟨above, habove, hmasks⟩
    obtain rfl := List.prefix_nil.mp habove
    exact hmasks
  · intro hmasks
    exact ⟨[], List.prefix_refl _, hmasks⟩

theorem hidden_cons {path : String} {step : Step} {steps : List Step} :
    Hidden translated path (step :: steps) ↔
      masks translated path = true ∨ Hidden translated (extend path step) steps := by
  constructor
  · rintro ⟨above, habove, hmasks⟩
    rcases above with _ | ⟨first, above⟩
    · exact .inl hmasks
    · obtain ⟨rfl, hrest⟩ := List.cons_prefix_cons.mp habove
      exact .inr ⟨above, hrest, hmasks⟩
  · rintro (hmasks | ⟨above, habove, hmasks⟩)
    · exact ⟨[], List.nil_prefix, hmasks⟩
    · exact ⟨step :: above, List.cons_prefix_cons.mpr ⟨rfl, habove⟩, hmasks⟩

theorem reached_nil {path : String} : Reached translated path [] :=
  fun _ habove hne => absurd (List.prefix_nil.mp habove) hne

theorem reached_cons {path : String} {step : Step} {steps : List Step} :
    Reached translated path (step :: steps) ↔
      masks translated path = false ∧ Reached translated (extend path step) steps := by
  constructor
  · intro h
    refine ⟨h [] List.nil_prefix (by simp), fun above hprefix hne => ?_⟩
    exact h (step :: above) (List.cons_prefix_cons.mpr ⟨rfl, hprefix⟩) (by simpa using hne)
  · rintro ⟨hpath, habove⟩
    rintro (_ | ⟨first, above⟩) hprefix hne
    · exact hpath
    · obtain ⟨rfl, hrest⟩ := List.cons_prefix_cons.mp hprefix
      exact habove above hrest (by simpa using hne)

theorem redact_of_masks {path : String} (h : masks translated path = true) (json : Json) :
    redact translated json path = .str redacted := by
  cases json <;> simp [redact, h]

theorem redactFields_eq_map (fields : JsonObject) (path : String) :
    redactFields translated fields path =
      fields.map fun field => (field.1, redact translated field.2 (childPath path field.1)) := by
  induction fields with
  | nil => rfl
  | cons field fields ih => rw [redactFields, ih, List.map_cons]

theorem redactItems_eq_mapIdx (items : List Json) (path : String) (index : Nat) :
    redactItems translated items path index =
      items.mapIdx fun i item => redact translated item (path ++ "/" ++ toString (index + i)) := by
  induction items generalizing index with
  | nil => rfl
  | cons item items ih =>
      rw [redactItems, ih, List.mapIdx_cons]
      simp only [Nat.add_assoc, Nat.add_comm 1]
      rfl

theorem lookup_redactFields (fields : JsonObject) (path name : String) :
    (redactFields translated fields path).lookup name =
      (fields.lookup name).map fun value => redact translated value (childPath path name) := by
  induction fields with
  | nil => rfl
  | cons field fields ih =>
      rw [redactFields, List.lookup_cons, List.lookup_cons, ih]
      rcases hname : name == field.1
      · rfl
      · rw [beq_iff_eq] at hname
        rw [hname]
        rfl

theorem child_redact {path : String} (h : masks translated path = false) (json : Json)
    (step : Step) :
    child (redact translated json path) step =
      (child json step).map fun value => redact translated value (extend path step) := by
  cases json with
  | obj fields =>
      simp only [redact, h, Bool.false_eq_true, if_false]
      cases step with
      | key name => exact lookup_redactFields fields path name
      | item index => rfl
  | arr items =>
      simp only [redact, h, Bool.false_eq_true, if_false]
      cases step with
      | key name => rfl
      | item index =>
          change (redactItems translated items path 0)[index]? = _
          rw [redactItems_eq_mapIdx, List.getElem?_mapIdx, Nat.zero_add]
          rfl
  | null | bool | int | float | str =>
      simp only [redact, h, Bool.false_eq_true, if_false]
      rfl

theorem redact_eq_mark_iff {path : String} {json : Json} :
    redact translated json path = .str redacted ↔
      masks translated path = true ∨ json = .str redacted := by
  rcases hmasks : masks translated path
  · cases json <;> simp [redact, hmasks]
  · simp [redact_of_masks hmasks]

theorem descend_redact {json value : Json} {path : String} {steps : List Step}
    (h : Reached translated path steps) (hvalue : descend json steps = some value) :
    descend (redact translated json path) steps =
      some (redact translated value (pathOf path steps)) := by
  induction steps generalizing json path with
  | nil =>
      cases hvalue
      rfl
  | cons step steps ih =>
      obtain ⟨inner, hinner, hvalue⟩ := descend_cons.mp hvalue
      obtain ⟨hpath, hbelow⟩ := reached_cons.mp h
      rw [descend_cons]
      exact ⟨_, by rw [child_redact hpath, hinner]; rfl, ih hbelow hvalue⟩

/-- The mark stands where a value is masked or was the mark before, below no mask. -/
theorem mark_iff_reached {json value : Json} {path : String} {steps : List Step}
    (hvalue : descend json steps = some value) :
    descend (redact translated json path) steps = some (.str redacted) ↔
      (masks translated (pathOf path steps) = true ∨ value = .str redacted) ∧
        Reached translated path steps := by
  induction steps generalizing json path with
  | nil =>
      cases hvalue
      rw [descend, Option.some_inj, redact_eq_mark_iff, and_iff_left reached_nil]
      rfl
  | cons step steps ih =>
      obtain ⟨inner, hinner, hvalue⟩ := descend_cons.mp hvalue
      rw [reached_cons, descend_cons]
      rcases hpath : masks translated path
      · have hchild : child (redact translated json path) step =
            some (redact translated inner (extend path step)) := by
          rw [child_redact hpath, hinner]
          rfl
        have hsteps : pathOf path (step :: steps) = pathOf (extend path step) steps := rfl
        simp [hchild, ih hvalue, hsteps]
      · rw [redact_of_masks hpath]
        simp [child]

theorem mark_iff_hidden {json value : Json} {path : String} {steps : List Step}
    (hvalue : descend json steps = some value) :
    (∃ above, above <+: steps ∧
      descend (redact translated json path) above = some (.str redacted)) ↔
      Hidden translated path steps ∨ value = .str redacted := by
  induction steps generalizing json path with
  | nil =>
      cases hvalue
      rw [hidden_nil, ← redact_eq_mark_iff]
      constructor
      · rintro ⟨above, habove, hmark⟩
        obtain rfl := List.prefix_nil.mp habove
        exact Option.some.inj hmark
      · intro hmark
        exact ⟨[], List.prefix_refl _, congrArg some hmark⟩
  | cons step steps ih =>
      obtain ⟨inner, hinner, hvalue⟩ := descend_cons.mp hvalue
      rw [hidden_cons]
      rcases hpath : masks translated path
      · have hchild : child (redact translated json path) step =
            some (redact translated inner (extend path step)) := by
          rw [child_redact hpath, hinner]
          rfl
        have hne : redact translated json path ≠ .str redacted := by
          intro hmark
          rw [hmark] at hchild
          cases hchild
        simp only [Bool.false_eq_true, false_or, ← ih hvalue]
        constructor
        · rintro ⟨above, habove, hmark⟩
          rcases above with _ | ⟨first, above⟩
          · exact absurd (Option.some.inj hmark) hne
          · obtain ⟨rfl, hrest⟩ := List.cons_prefix_cons.mp habove
            obtain ⟨other, hother, hmark⟩ := descend_cons.mp hmark
            rw [hchild] at hother
            cases hother
            exact ⟨above, hrest, hmark⟩
        · rintro ⟨above, habove, hmark⟩
          exact ⟨step :: above, List.cons_prefix_cons.mpr ⟨rfl, habove⟩,
            descend_cons.mpr ⟨_, hchild, hmark⟩⟩
      · -- The mark stands here already, and there is nothing below it.
        refine iff_of_true ⟨[], List.nil_prefix, ?_⟩ (.inl (.inl rfl))
        rw [descend, redact_of_masks hpath]

mutual

theorem redact_of_nil (json : Json) (path : String) : redact [] json path = json := by
  have hmasks : masks [] path = false := Bool.and_false _
  cases json with
  | obj fields => simp [redact, hmasks, redactFields_of_nil fields path]
  | arr items => simp [redact, hmasks, redactItems_of_nil items path 0]
  | null | bool | int | float | str => simp [redact, hmasks]

theorem redactFields_of_nil (fields : JsonObject) (path : String) :
    redactFields [] fields path = fields := by
  cases fields with
  | nil => rfl
  | cons field fields =>
      rw [redactFields, redact_of_nil field.2, redactFields_of_nil fields path]

theorem redactItems_of_nil (items : List Json) (path : String) (index : Nat) :
    redactItems [] items path index = items := by
  cases items with
  | nil => rfl
  | cons item items => rw [redactItems, redact_of_nil item, redactItems_of_nil items]

end

mutual

theorem redact_redact (json : Json) (path : String) :
    redact translated (redact translated json path) path = redact translated json path := by
  rcases hmasks : masks translated path
  · cases json with
    | obj fields => simp [redact, hmasks, redactFields_redactFields fields path]
    | arr items => simp [redact, hmasks, redactItems_redactItems items path 0]
    | null | bool | int | float | str => simp [redact, hmasks]
  · rw [redact_of_masks hmasks, redact_of_masks hmasks]

theorem redactFields_redactFields (fields : JsonObject) (path : String) :
    redactFields translated (redactFields translated fields path) path =
      redactFields translated fields path := by
  cases fields with
  | nil => rfl
  | cons field fields =>
      simp only [redactFields, redact_redact field.2, redactFields_redactFields fields path]

theorem redactItems_redactItems (items : List Json) (path : String) (index : Nat) :
    redactItems translated (redactItems translated items path index) path index =
      redactItems translated items path index := by
  cases items with
  | nil => rfl
  | cons item items => simp only [redactItems, redact_redact item, redactItems_redactItems items]

end

mutual

theorem redact_replace {put : List Step → Option Json} (json : Json) (path : String)
    (h : ∀ steps, (put steps).isSome → Hidden translated path steps) :
    redact translated (replace put json) path = redact translated json path := by
  rcases hmasks : masks translated path
  · have hput : put [] = none := by
      rw [← Option.not_isSome_iff_eq_none]
      intro hsome
      rw [hidden_nil.mp (h [] hsome)] at hmasks
      cases hmasks
    cases json with
    | obj fields =>
        simp only [replace, hput, Option.getD_none, redact, hmasks, Bool.false_eq_true, if_false]
        rw [redactFields_replace fields path hmasks h]
    | arr items =>
        simp only [replace, hput, Option.getD_none, redact, hmasks, Bool.false_eq_true, if_false]
        rw [redactItems_replace items path 0 hmasks h]
    | null | bool | int | float | str => simp only [replace, hput, Option.getD_none]
  · rw [redact_of_masks hmasks, redact_of_masks hmasks]

theorem redactFields_replace {put : List Step → Option Json} (fields : JsonObject)
    (path : String) (hmasks : masks translated path = false)
    (h : ∀ steps, (put steps).isSome → Hidden translated path steps) :
    redactFields translated (replaceFields put fields) path =
      redactFields translated fields path := by
  cases fields with
  | nil => rfl
  | cons field fields =>
      have hbelow : ∀ steps, (put (.key field.1 :: steps)).isSome →
          Hidden translated (childPath path field.1) steps := by
        intro steps hsome
        simpa [hidden_cons, hmasks, extend] using h _ hsome
      simp only [replaceFields, redactFields]
      rw [redact_replace field.2 _ hbelow, redactFields_replace fields path hmasks h]

theorem redactItems_replace {put : List Step → Option Json} (items : List Json)
    (path : String) (index : Nat) (hmasks : masks translated path = false)
    (h : ∀ steps, (put steps).isSome → Hidden translated path steps) :
    redactItems translated (replaceItems put items index) path index =
      redactItems translated items path index := by
  cases items with
  | nil => rfl
  | cons item items =>
      have hbelow : ∀ steps, (put (.item index :: steps)).isSome →
          Hidden translated (path ++ "/" ++ toString index) steps := by
        intro steps hsome
        simpa [hidden_cons, hmasks, extend] using h _ hsome
      simp only [replaceItems, redactItems]
      rw [redact_replace item _ hbelow, redactItems_replace items path _ hmasks h]

end

end Walk

theorem toList_extend {path : String} (h : path ≠ "") (step : Step) :
    (extend path step).toList = path.toList ++ ['/'] ++ step.text := by
  cases step with
  | key name =>
      rw [extend, childPath, if_neg h]
      simp [Step.text]
  | item index => simp [extend, Step.text]

theorem extend_eq_empty_iff {path : String} {step : Step} :
    extend path step = "" ↔ path = "" ∧ step = .key "" := by
  rcases eq_or_ne path "" with rfl | hpath
  · cases step with
    | key name => simp [extend, childPath]
    | item index =>
        have hne : extend "" (.item index) ≠ "" := by
          rw [← String.toList_inj.ne]
          simp [extend]
        simp [hne]
  · have hne : extend path step ≠ "" := by
      rw [← String.toList_inj.ne, toList_extend hpath]
      simp
    simp [hne, hpath]

theorem pathOf_eq_empty_iff {path : String} {steps : List Step} :
    pathOf path steps = "" ↔ path = "" ∧ ∀ step ∈ steps, step = .key "" := by
  induction steps generalizing path with
  | nil => simp [pathOf]
  | cons step steps ih =>
      change pathOf (extend path step) steps = "" ↔ _
      rw [ih, extend_eq_empty_iff, List.forall_mem_cons, and_assoc]

theorem pathOf_append_singleton (path : String) (steps : List Step) (step : Step) :
    pathOf path (steps ++ [step]) = extend (pathOf path steps) step := by
  simp [pathOf]

theorem masks_singleton {pattern path : String} :
    masks [pattern] path = true ↔ path ≠ "" ∧ matchPath pattern path = true := by
  simp [masks]

/-- The patterns as they are matched. -/
def translate (patterns : List String) : List String :=
  patterns.map fun pattern => String.ofList (PythonText.replace '.' '/' pattern.toList)

/-- The arguments are masked at the position or above it. -/
def Hides (patterns : List String) (steps : List Step) : Prop :=
  Hidden (translate patterns) "" steps

theorem masks_empty (translated : List String) : masks translated "" = false := rfl

theorem redactArguments_eq (arguments : JsonObject) (patterns : List String) :
    redactArguments arguments patterns = redactFields (translate patterns) arguments "" := by
  cases patterns with
  | nil => exact (redactFields_of_nil arguments "").symm
  | cons pattern patterns =>
      rw [redactArguments, if_neg (by simp)]
      simp only [redact, masks_empty, Bool.false_eq_true, if_false]
      rfl

theorem obj_redactArguments (arguments : JsonObject) (patterns : List String) :
    .obj (redactArguments arguments patterns) =
      redact (translate patterns) (.obj arguments) "" := by
  rw [redactArguments_eq]
  simp only [redact, masks_empty, Bool.false_eq_true, if_false]

/-- The same keys, as many items, or the same value. -/
def SameShape : Json → Json → Prop
  | .obj fields, .obj fields' => fields'.map Prod.fst = fields.map Prod.fst
  | .arr items, .arr items' => items'.length = items.length
  | value, value' => value' = value

theorem sameShape_redact {translated : List String} {path : String}
    (h : masks translated path = false) (json : Json) :
    SameShape json (redact translated json path) := by
  cases json with
  | obj fields =>
      simp [redact, h, SameShape, redactFields_eq_map, Function.comp_def]
  | arr items => simp [redact, h, SameShape, redactItems_eq_mapIdx]
  | null | bool | int | float | str => simp [redact, h, SameShape]

/-- Redaction tells nothing of what it masks, leaves everything else as it is, and
leaves its own result alone. -/
theorem redactArguments_secures (arguments : JsonObject) (patterns : List String) :
    (∀ put : List Step → Option Json, (∀ steps, (put steps).isSome → Hides patterns steps) →
      redactArguments (replaceFields put arguments) patterns =
        redactArguments arguments patterns) ∧
    (∀ steps value, descend (.obj arguments) steps = some value → ¬Hides patterns steps →
      ∃ value', descend (.obj (redactArguments arguments patterns)) steps = some value' ∧
        SameShape value value') ∧
    redactArguments (redactArguments arguments patterns) patterns =
      redactArguments arguments patterns := by
  refine ⟨fun put hput => ?_, fun steps value hvalue hides => ?_, ?_⟩
  · rw [redactArguments_eq, redactArguments_eq]
    exact redactFields_replace arguments "" (masks_empty _) hput
  · have hopen : ∀ above, above <+: steps →
        masks (translate patterns) (pathOf "" above) = false := by
      intro above habove
      rw [Bool.eq_false_iff]
      exact fun hmasks => hides ⟨above, habove, hmasks⟩
    rw [obj_redactArguments]
    exact ⟨_, descend_redact (fun above habove _ => hopen above habove) hvalue,
      sameShape_redact (hopen steps (List.prefix_refl _)) value⟩
  · rw [redactArguments_eq, redactArguments_eq]
    exact redactFields_redactFields arguments ""

def login : JsonObject := [("password", .str "hunter2"), ("path", .str "/srv")]

/-- Something else under `password`. -/
def guess (steps : List Step) : Option Json :=
  if steps = [.key "password"] then some .null else none

theorem redactArguments_secures_login :
    redactArguments [("password", .null), ("path", .str "/srv")] ["password"] =
      redactArguments login ["password"] := by
  refine (redactArguments_secures login ["password"]).1 guess ?_
  intro steps hsome
  rw [guess] at hsome
  split at hsome
  · rename_i hsteps
    exact ⟨steps, List.prefix_refl _, by rw [hsteps]; decide⟩
  · cases hsome

end McpGatekeeper.RedactionWalk
