import McpGatekeeper.JsonValues

namespace McpGatekeeper.JsonPaths

open McpGatekeeper.JsonValues

/-- From an object to what it has under a key, or from a list to an item. -/
inductive Step
  | key (name : String)
  | item (index : Nat)
  deriving DecidableEq

/-- A key, or the decimal text of an index. -/
def Step.text : Step → List Char
  | .key name => name.toList
  | .item index => (toString index).toList

def child : Json → Step → Option Json
  | .obj fields, .key name => fields.lookup name
  | .arr items, .item index => items[index]?
  | _, _ => none

def descend : Json → List Step → Option Json
  | json, [] => some json
  | json, step :: steps => (child json step).bind fun value => descend value steps

theorem descend_cons {json value : Json} {step : Step} {steps : List Step} :
    descend json (step :: steps) = some value ↔
      ∃ inner, child json step = some inner ∧ descend inner steps = some value := by
  rw [descend, Option.bind_eq_some_iff]

theorem descend_append {json value : Json} {steps steps' : List Step} :
    descend json (steps ++ steps') = some value ↔
      ∃ inner, descend json steps = some inner ∧ descend inner steps' = some value := by
  induction steps generalizing json with
  | nil => simp [descend]
  | cons step steps ih =>
      simp only [List.cons_append, descend_cons, ih]
      constructor
      · rintro ⟨first, hfirst, inner, hinner, hvalue⟩
        exact ⟨inner, ⟨first, hfirst, hinner⟩, hvalue⟩
      · rintro ⟨inner, ⟨first, hfirst, hinner⟩, hvalue⟩
        exact ⟨first, hfirst, inner, hinner, hvalue⟩

mutual

/-- The value with other values put wherever `put` has one. -/
def replace (put : List Step → Option Json) : Json → Json
  | .obj fields => (put []).getD (.obj (replaceFields put fields))
  | .arr items => (put []).getD (.arr (replaceItems put items 0))
  | value => (put []).getD value

def replaceFields (put : List Step → Option Json) : JsonObject → JsonObject
  | [] => []
  | (key, value) :: fields =>
      (key, replace (fun steps => put (.key key :: steps)) value) :: replaceFields put fields

def replaceItems (put : List Step → Option Json) : List Json → Nat → List Json
  | [], _ => []
  | value :: items, index =>
      replace (fun steps => put (.item index :: steps)) value ::
        replaceItems put items (index + 1)

end

end McpGatekeeper.JsonPaths
