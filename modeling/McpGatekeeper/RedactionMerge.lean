import McpGatekeeper.RedactionWalk

namespace McpGatekeeper.RedactionMerge

open McpGatekeeper.Audit
open McpGatekeeper.Glob
open McpGatekeeper.JsonValues
open McpGatekeeper.RedactionWalk

/-- The one test succeeds where one of the two does. -/
def Joins (first second both : List String) : Prop :=
  ∀ path, masks both path = (masks first path || masks second path)

theorem masks_iff (translated : List String) (path : String) :
    masks translated path = true ↔
      path ≠ "" ∧ ∃ pattern ∈ translated, matchPath pattern path = true := by
  simp [masks]

theorem joins_translate {first second both : List String}
    (h : ∀ pattern, pattern ∈ both ↔ pattern ∈ first ∨ pattern ∈ second) :
    Joins (translate first) (translate second) (translate both) := by
  intro path
  have hmem : ∀ patterns, masks (translate patterns) path = true ↔ path ≠ "" ∧
      ∃ pattern ∈ patterns, matchPath
        (String.ofList (PythonText.replace '.' '/' pattern.toList)) path = true := by
    intro patterns
    rw [masks_iff]
    simp [RedactionWalk.translate]
  rw [Bool.eq_iff_iff, Bool.or_eq_true, hmem, hmem, hmem]
  constructor
  · rintro ⟨hpath, pattern, hpattern, hmatch⟩
    rcases (h pattern).mp hpattern with hfirst | hsecond
    · exact .inl ⟨hpath, pattern, hfirst, hmatch⟩
    · exact .inr ⟨hpath, pattern, hsecond, hmatch⟩
  · rintro (⟨hpath, pattern, hpattern, hmatch⟩ | ⟨hpath, pattern, hpattern, hmatch⟩)
    · exact ⟨hpath, pattern, (h pattern).mpr (.inl hpattern), hmatch⟩
    · exact ⟨hpath, pattern, (h pattern).mpr (.inr hpattern), hmatch⟩

mutual

theorem redact_redact {first second both : List String} (h : Joins first second both)
    (json : Json) (path : String) :
    redact second (redact first json path) path = redact both json path := by
  rcases hfirst : masks first path with _ | _
  · rcases hsecond : masks second path with _ | _
    · have hboth : masks both path = false := by rw [h, hfirst, hsecond]; rfl
      cases json with
      | obj fields =>
          simp only [redact, hfirst, hsecond, hboth, Bool.false_eq_true, if_false]
          rw [redactFields_join h]
      | arr items =>
          simp only [redact, hfirst, hsecond, hboth, Bool.false_eq_true, if_false]
          rw [redactItems_join h]
      | null | bool | int | float | str =>
          simp only [redact, hfirst, hsecond, hboth, Bool.false_eq_true, if_false]
    · have hboth : masks both path = true := by rw [h, hfirst, hsecond]; rfl
      rw [redact_of_masks hsecond, redact_of_masks hboth]
  · have hboth : masks both path = true := by rw [h, hfirst]; rfl
    rw [redact_of_masks hfirst, redact_of_masks hboth]
    exact redact_eq_mark_iff.mpr (.inr rfl)

theorem redactFields_join {first second both : List String} (h : Joins first second both)
    (fields : JsonObject) (path : String) :
    redactFields second (redactFields first fields path) path =
      redactFields both fields path := by
  cases fields with
  | nil => rfl
  | cons field fields =>
      rw [redactFields, redactFields, redactFields, redact_redact h field.2,
        redactFields_join h fields]

theorem redactItems_join {first second both : List String} (h : Joins first second both)
    (items : List Json) (path : String) (index : Nat) :
    redactItems second (redactItems first items path index) path index =
      redactItems both items path index := by
  cases items with
  | nil => rfl
  | cons item items =>
      rw [redactItems, redactItems, redactItems, redact_redact h item,
        redactItems_join h items]

end

/-- Redacting twice is redacting once under the patterns of both. -/
theorem redactArguments_join {first second both : List String}
    (h : ∀ pattern, pattern ∈ both ↔ pattern ∈ first ∨ pattern ∈ second)
    (arguments : JsonObject) :
    redactArguments (redactArguments arguments first) second =
      redactArguments arguments both := by
  rw [redactArguments_eq, redactArguments_eq, redactArguments_eq]
  exact redactFields_join (joins_translate h) arguments ""

theorem redactArguments_join_login :
    redactArguments (redactArguments login ["password"]) ["path", "password"] =
      redactArguments login ["path", "password"] :=
  redactArguments_join (by simp) login

end McpGatekeeper.RedactionMerge
