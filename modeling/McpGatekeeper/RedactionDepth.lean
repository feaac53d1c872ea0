import McpGatekeeper.GlobLanguage
import McpGatekeeper.RedactionWalk

namespace McpGatekeeper.RedactionDepth

open PythonText
open McpGatekeeper.Audit
open McpGatekeeper.Glob
open McpGatekeeper.GlobLanguage
open McpGatekeeper.JsonPaths
open McpGatekeeper.JsonValues
open McpGatekeeper.RedactionWalk

/-- A key as patterns spell it. -/
def Plain (key : String) : Prop :=
  ∀ c ∈ key.toList, c ≠ '.' ∧ c ≠ '/' ∧ c ≠ '*' ∧ c ≠ '?'

theorem translate_doubleStar {key : String} (h : Plain key) :
    translate ["**." ++ key] = ["**/" ++ key] := by
  have hkey : replace '.' '/' key.toList = key.toList :=
    replace_of_not_mem fun hmem => (h '.' hmem).1 rfl
  have hdots : replace '.' '/' "**.".toList = "**/".toList := rfl
  have hpattern : String.ofList (replace '.' '/' ("**." ++ key).toList) = "**/" ++ key := by
    rw [String.toList_append, replace_append, hkey, hdots, ← String.toList_append,
      String.ofList_toList]
  exact congrArg (fun pattern => [pattern]) hpattern

theorem pathDenotes_doubleStar {key : String} (h : Plain key) {value : List Char} :
    PathDenotes ("**/" ++ key).toList value ↔ '/' :: key.toList <:+ value := by
  have hkey : ∀ c ∈ '/' :: key.toList, c ≠ '*' ∧ c ≠ '?' := by
    intro c hc
    rcases List.mem_cons.mp hc with rfl | hc
    · decide
    · exact (h c hc).2.2
  rw [String.toList_append]
  change PathDenotes ('*' :: '*' :: '/' :: key.toList) value ↔ _
  rw [PathDenotes]
  simp only [pathDenotes_literal hkey]
  constructor
  · rintro ⟨run, rest, rfl, rfl⟩
    exact List.suffix_append run _
  · rintro ⟨run, rfl⟩
    exact ⟨run, _, rfl, rfl⟩

theorem slash_mem_of_masks {key path : String} (h : Plain key)
    (hmasks : masks (translate ["**." ++ key]) path = true) : '/' ∈ path.toList := by
  rw [translate_doubleStar h, masks_singleton, matchPath_iff, pathDenotes_doubleStar h] at hmasks
  rcases hmasks with ⟨-, hsuffix | ⟨line, hline, hdenotes⟩⟩
  · exact hsuffix.subset List.mem_cons_self
  · rw [hline, List.mem_append]
    exact .inl (((pathDenotes_doubleStar h).mp hdenotes).subset List.mem_cons_self)

theorem hides_doubleStar_iff {key : String} (h : Plain key) {above : List Step} :
    Hides ["**." ++ key] (above ++ [.key key]) ↔ ∃ step ∈ above, step ≠ .key "" := by
  constructor
  · rintro ⟨steps, hsteps, hmasks⟩
    refine Classical.byContradiction fun hnone => ?_
    have hempty : ∀ steps, steps <+: above → pathOf "" steps = "" := by
      intro steps hsteps
      refine pathOf_eq_empty_iff.mpr ⟨rfl, fun step hstep => ?_⟩
      exact Classical.byContradiction fun hne => hnone ⟨step, hsteps.subset hstep, hne⟩
    have hslash := slash_mem_of_masks h hmasks
    rcases List.prefix_concat_iff.mp hsteps with rfl | hsteps
    · rw [pathOf_append_singleton, hempty above (List.prefix_refl _)] at hslash
      exact (h '/' hslash).2.1 rfl
    · rw [hempty steps hsteps] at hslash
      cases hslash
  · rintro ⟨step, hmem, hne⟩
    have hpath : pathOf "" above ≠ "" := by
      intro hempty
      exact hne ((pathOf_eq_empty_iff.mp hempty).2 step hmem)
    have htext := toList_extend hpath (.key key)
    refine ⟨above ++ [.key key], List.prefix_refl _, ?_⟩
    rw [pathOf_append_singleton, translate_doubleStar h, masks_singleton, matchPath_iff,
      pathDenotes_doubleStar h, htext, List.append_assoc]
    refine ⟨fun hempty => ?_, .inl (List.suffix_append _ _)⟩
    rw [hempty] at htext
    simp at htext

/-- Everything under a key is masked or below a mask, exactly when no object that is
reached by empty keys alone has anything but the mark under it. -/
theorem reachesEveryDepth_iff {key : String} (h : Plain key) (arguments : JsonObject) :
    (∀ above value, descend (.obj arguments) (above ++ [.key key]) = some value →
      ∃ steps, steps <+: above ++ [.key key] ∧
        descend (.obj (redactArguments arguments ["**." ++ key])) steps =
          some (.str redacted)) ↔
    ∀ depth value, descend (.obj arguments) (List.replicate depth (.key "") ++ [.key key]) =
      some value → value = .str redacted := by
  have hmark (above : List Step) (value : Json)
      (hvalue : descend (.obj arguments) (above ++ [.key key]) = some value) :
      (∃ steps, steps <+: above ++ [.key key] ∧
        descend (redact (translate ["**." ++ key]) (.obj arguments) "") steps =
          some (.str redacted)) ↔
        Hides ["**." ++ key] (above ++ [.key key]) ∨ value = .str redacted :=
    mark_iff_hidden hvalue
  simp only [obj_redactArguments]
  constructor
  · intro hall depth value hvalue
    rcases (hmark _ value hvalue).mp (hall _ value hvalue) with hhidden | hvalue
    · obtain ⟨step, hmem, hne⟩ := (hides_doubleStar_iff h).mp hhidden
      exact absurd (List.eq_of_mem_replicate hmem) hne
    · exact hvalue
  · intro hnone above value hvalue
    apply (hmark above value hvalue).mpr
    rcases Classical.em (∃ step ∈ above, step ≠ .key "") with hstep | hempty
    · exact .inl ((hides_doubleStar_iff h).mpr hstep)
    · have habove : above = List.replicate above.length (.key "") := by
        rw [List.eq_replicate_iff]
        exact ⟨rfl, fun step hmem =>
          Classical.byContradiction fun hne => hempty ⟨step, hmem, hne⟩⟩
      rw [habove] at hvalue
      exact .inr (hnone _ value hvalue)

def nestedToken : JsonObject := [("auth", .obj [("token", .str "t")])]

theorem reachesEveryDepth_iff_nested :
    ∃ steps, steps <+: [.key "auth"] ++ [.key "token"] ∧
      descend (.obj (redactArguments nestedToken ["**." ++ "token"])) steps =
        some (.str redacted) := by
  have hnone : ∀ depth value,
      descend (.obj nestedToken) (List.replicate depth (.key "") ++ [.key "token"]) =
        some value → value = .str redacted := by
    rintro (_ | depth) value hvalue
    · cases hvalue
    · cases hvalue
  have hkey : Plain "token" := by
    simp [Plain]
  exact (reachesEveryDepth_iff hkey nestedToken).mpr hnone [.key "auth"] (.str "t") rfl

def topToken : JsonObject := [("token", .str "t")]

/-- The pattern of the shipped configuration lets a secret at the top through. -/
theorem top_token_kept :
    redactArguments topToken ["**.token"] = topToken ∧
    ¬∀ above value, descend (.obj topToken) (above ++ [.key "token"]) = some value →
      ∃ steps, steps <+: above ++ [.key "token"] ∧
        descend (.obj (redactArguments topToken ["**.token"])) steps = some (.str redacted) := by
  have hkept : redactArguments topToken ["**.token"] = topToken := by decide
  refine ⟨hkept, fun hall => ?_⟩
  obtain ⟨steps, hsteps, hmark⟩ := hall [] (.str "t") rfl
  rw [hkept] at hmark
  rcases List.prefix_concat_iff.mp hsteps with rfl | hsteps
  · revert hmark
    decide
  · obtain rfl := List.prefix_nil.mp hsteps
    cases hmark

end McpGatekeeper.RedactionDepth
