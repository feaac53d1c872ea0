import McpGatekeeper.Config

namespace McpGatekeeper.Namespacing

open PythonText
open McpGatekeeper.Config
open McpGatekeeper.Registry

theorem toList_namespaced (upstream tool : String) :
    (namespaced upstream tool).toList = upstream.toList ++ ['_', '_'] ++ tool.toList := by
  simp [namespaced, namespaceSeparator]

theorem partition_namespaced {upstream tool : List Char}
    (hseparator : ¬['_', '_'] <:+: upstream) (hlast : upstream.getLast? ≠ some '_') :
    partition ['_', '_'] (upstream ++ ['_', '_'] ++ tool) = some (upstream, tool) := by
  refine partition_append ?_
  -- Read earlier, the separator would lie in the upstream or over its last character.
  rintro (_ | ⟨c, _ | ⟨d, rest⟩⟩) hne hsuffix hprefix
  · exact hne rfl
  · obtain ⟨front, rfl⟩ := hsuffix
    obtain ⟨rfl, -⟩ := List.cons_prefix_cons.mp hprefix
    exact hlast (by simp)
  · obtain ⟨hc, hprefix⟩ := List.cons_prefix_cons.mp hprefix
    obtain ⟨hd, -⟩ := List.cons_prefix_cons.mp hprefix
    rw [← hc, ← hd] at hsuffix
    exact hseparator (List.IsInfix.trans ⟨[], rest, rfl⟩ hsuffix.isInfix)

theorem partition_of_getLast {upstream tool : List Char} (hlast : upstream.getLast? = some '_') :
    partition ['_', '_'] (upstream ++ ['_', '_'] ++ tool) ≠ some (upstream, tool) := by
  intro h
  obtain ⟨front, rfl⟩ := List.getLast?_eq_some_iff.mp hlast
  have htext : front ++ ['_'] ++ ['_', '_'] ++ tool = front ++ ['_', '_'] ++ ('_' :: tool) := by
    simp
  rw [htext] at h
  have hlength := length_le_of_partition h
  simp at hlength

theorem name_ne_nil {isalnum : Char → Bool} (upstream : UpstreamBase isalnum) :
    upstream.name.toList ≠ [] := by
  intro hnil
  have haccepted := upstream.accepted
  rw [validateName, if_pos (by simpa using hnil)] at haccepted
  cases haccepted

theorem splitNamespace_eq_some_iff {name upstream tool : String} :
    splitNamespace name = some (upstream, tool) ↔
      partition ['_', '_'] name.toList = some (upstream.toList, tool.toList) ∧
        upstream.toList ≠ [] ∧ tool.toList ≠ [] := by
  have hsep : namespaceSeparator.toList = ['_', '_'] := by simp [namespaceSeparator]
  rw [splitNamespace, hsep]
  rcases partition ['_', '_'] name.toList with _ | ⟨front, back⟩
  · simp
  · simp only [Option.some.injEq, Prod.mk.injEq]
    constructor
    · intro h
      split at h
      · cases h
      · rename_i hne
        cases h
        simpa [not_or] using hne
    · rintro ⟨⟨rfl, rfl⟩, hupstream, htool⟩
      rw [if_neg (by simp [hupstream, htool]), String.ofList_toList, String.ofList_toList]

theorem namespaced_of_splitNamespace {name upstream tool : String}
    (h : splitNamespace name = some (upstream, tool)) : namespaced upstream tool = name := by
  rw [← String.toList_inj, toList_namespaced]
  exact (append_of_partition (splitNamespace_eq_some_iff.mp h).1).symm

/-- What an upstream and a tool are called together tells them apart, unless the
upstream is called something that ends in an underscore. -/
theorem roundTrips_iff {isalnum : Char → Bool} (upstream : UpstreamBase isalnum)
    {tool : String} (htool : tool ≠ "") :
    (splitNamespace (namespaced upstream.name tool) = some (upstream.name, tool) ∧
      ∀ name before after, splitNamespace name = some (before, after) →
        namespaced before after = name) ↔
      upstream.name.toList.getLast? ≠ some '_' := by
  have hseparator : ¬['_', '_'] <:+: upstream.name.toList := not_containsSeparator upstream
  rw [splitNamespace_eq_some_iff, toList_namespaced]
  constructor
  · rintro ⟨⟨hparts, -⟩, -⟩ hlast
    exact partition_of_getLast hlast hparts
  · intro hlast
    refine ⟨⟨partition_namespaced hseparator hlast, name_ne_nil upstream, by simpa using htool⟩, ?_⟩
    intro name before after h
    exact namespaced_of_splitNamespace h

theorem roundTrips_iff_fs :
    splitNamespace (namespaced "fs" "read__file") = some ("fs", "read__file") := by
  have hname : (⟨"fs", by decide⟩ : UpstreamBase Char.isAlphanum).name.toList.getLast? ≠
      some '_' := by decide
  exact ((roundTrips_iff _ (by decide)).mpr hname).1

/-- The validator accepts the name `a_`; its tool `x` is taken for the tool `_x` of `a`. -/
theorem split_of_underscore :
    validateName Char.isAlphanum "a_" = .ok "a_" ∧
      splitNamespace (namespaced "a_" "x") = some ("a", "_x") ∧
      splitNamespace (namespaced "a_" "x") ≠ some ("a_", "x") := by
  decide

end McpGatekeeper.Namespacing
