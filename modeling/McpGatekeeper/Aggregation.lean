import Mathlib.Algebra.GroupWithZero.Nat
import Mathlib.Data.List.Nodup
import McpGatekeeper.Config

/-!
When flattening several upstreams into one tool list loses nothing.

The separator cannot occur in the name of an upstream, but its two halves can be
shared out between the end of a name and the beginning of a tool.
-/

namespace McpGatekeeper.Aggregation

open McpGatekeeper.Config
open McpGatekeeper.Registry

theorem overlap_of_append_eq {upstream difference tool tool' : List Char}
    (hdifference : difference ≠ [])
    (hseparator : ¬namespaceSeparator.toList <:+: upstream ++ difference)
    (h : ['_', '_'] ++ tool = difference ++ ['_', '_'] ++ tool') :
    difference = ['_'] ∧ tool = '_' :: tool' := by
  rcases difference with _ | ⟨c, _ | ⟨c', rest⟩⟩
  · exact absurd rfl hdifference
  · simp only [List.cons_append, List.nil_append, List.cons.injEq] at h
    obtain ⟨rfl, -, rfl⟩ := h
    exact ⟨rfl, rfl⟩
  · simp only [List.cons_append, List.nil_append, List.cons.injEq] at h
    obtain ⟨rfl, rfl, -⟩ := h
    exact absurd ⟨upstream, rest, by simp [namespaceSeparator]⟩ hseparator

/-- The upstream `longer` is called like `upstream` with an underscore at the end, and a
tool of `upstream` like one of `longer` with an underscore in front. -/
def Overlap (upstream tool longer tool' : String) : Prop :=
  longer = upstream ++ "_" ∧ tool = "_" ++ tool'

theorem namespaced_eq_iff {isalnum : Char → Bool} (upstream upstream' : UpstreamBase isalnum)
    (tool tool' : String) :
    namespaced upstream.name tool = namespaced upstream'.name tool' ↔
      (upstream.name = upstream'.name ∧ tool = tool') ∨
      Overlap upstream.name tool upstream'.name tool' ∨
      Overlap upstream'.name tool' upstream.name tool := by
  constructor
  · intro h
    have hlists : upstream.name.toList ++ (['_', '_'] ++ tool.toList) =
        upstream'.name.toList ++ (['_', '_'] ++ tool'.toList) := by
      simpa [namespaced, namespaceSeparator] using congrArg String.toList h
    rcases List.append_eq_append_iff.mp hlists with ⟨difference, hname, hrest⟩ |
      ⟨difference, hname, hrest⟩
    · rcases eq_or_ne difference [] with rfl | hne
      · exact .inl ⟨String.toList_inj.mp (by simpa using hname.symm),
          String.toList_inj.mp (by simpa using hrest)⟩
      · have hseparator := not_containsSeparator upstream'
        rw [hname] at hseparator
        obtain ⟨rfl, htool⟩ := overlap_of_append_eq hne hseparator (by simpa using hrest)
        exact .inr (.inl ⟨String.toList_inj.mp (by simpa using hname),
          String.toList_inj.mp (by simpa using htool)⟩)
    · rcases eq_or_ne difference [] with rfl | hne
      · exact .inl ⟨String.toList_inj.mp (by simpa using hname),
          String.toList_inj.mp (by simpa using hrest.symm)⟩
      · have hseparator := not_containsSeparator upstream
        rw [hname] at hseparator
        obtain ⟨rfl, htool⟩ := overlap_of_append_eq hne hseparator (by simpa using hrest)
        exact .inr (.inr ⟨String.toList_inj.mp (by simpa using hname),
          String.toList_inj.mp (by simpa using htool)⟩)
  · rintro (⟨hname, rfl⟩ | ⟨hname, rfl⟩ | ⟨hname, rfl⟩)
    · rw [hname]
    · rw [hname]
      simp [namespaced, namespaceSeparator, ← String.toList_inj]
    · rw [hname]
      simp [namespaced, namespaceSeparator, ← String.toList_inj]

/-- The entry of a tool, as `build` makes it. -/
def advertised (upstream : String) (tool : Tool) : NamespacedTool where
  upstream := upstream
  remoteName := tool.name
  tool := rename tool (namespaced upstream tool.name)

def pairs (upstreamTools : List (String × List Tool)) : List (String × Tool) :=
  upstreamTools.flatMap fun listed => listed.2.map fun tool => (listed.1, tool)

def collectAll (registry : ToolRegistry) (tools : List (String × Tool)) : ToolRegistry :=
  tools.foldl (fun registry pair => registry.collect pair.1 pair.2) registry

theorem build_eq_collectAll (upstreamTools : List (String × List Tool)) :
    ToolRegistry.build upstreamTools = collectAll .empty (pairs upstreamTools) := by
  simp only [ToolRegistry.build, collectAll, pairs, List.foldl_flatMap, List.foldl_map]

theorem get_collect (registry : ToolRegistry) (upstream : String) (tool : Tool)
    (name : String) :
    (registry.collect upstream tool).get name =
      if name = namespaced upstream tool.name then some (advertised upstream tool)
      else registry.get name := by
  rcases eq_or_ne name (namespaced upstream tool.name) with rfl | hne
  · rw [if_pos rfl]
    exact AList.lookup_insert _
  · rw [if_neg hne]
    exact AList.lookup_insert_ne hne

def size (registry : ToolRegistry) : Nat := registry.tools.keys.length

theorem size_collect {registry : ToolRegistry} {upstream : String} {tool : Tool}
    (h : namespaced upstream tool.name ∉ registry.tools.keys) :
    size (registry.collect upstream tool) = size registry + 1 := by
  simp only [size, ToolRegistry.collect, AList.keys_insert, List.length_cons,
    List.erase_of_not_mem h]

theorem mem_keys_collect {registry : ToolRegistry} {upstream : String} {tool : Tool}
    {name : String} (h : name ∈ (registry.collect upstream tool).tools.keys) :
    name = namespaced upstream tool.name ∨ name ∈ registry.tools.keys := by
  rw [← AList.mem_keys, ToolRegistry.collect, AList.mem_insert] at h
  exact h

theorem collectAll_of_nodup {tools : List (String × Tool)} {registry : ToolRegistry}
    (hnodup : (tools.map fun pair => namespaced pair.1 pair.2.name).Nodup)
    (hfresh : ∀ pair ∈ tools, namespaced pair.1 pair.2.name ∉ registry.tools.keys) :
    size (collectAll registry tools) = size registry + tools.length ∧
      (∀ pair ∈ tools, (collectAll registry tools).get (namespaced pair.1 pair.2.name) =
        some (advertised pair.1 pair.2)) ∧
      ∀ name, (∀ pair ∈ tools, name ≠ namespaced pair.1 pair.2.name) →
        (collectAll registry tools).get name = registry.get name := by
  induction tools generalizing registry with
  | nil => exact ⟨rfl, by simp, fun _ _ => rfl⟩
  | cons first tools ih =>
      rw [List.map_cons, List.nodup_cons] at hnodup
      have hfirst : ∀ pair ∈ tools,
          namespaced first.1 first.2.name ≠ namespaced pair.1 pair.2.name :=
        fun pair hpair heq => hnodup.1 (List.mem_map.mpr ⟨pair, hpair, heq.symm⟩)
      have hfresh' : ∀ pair ∈ tools, namespaced pair.1 pair.2.name ∉
          (registry.collect first.1 first.2).tools.keys := by
        intro pair hpair hmem
        rcases mem_keys_collect hmem with heq | hmem
        · exact hfirst pair hpair heq.symm
        · exact hfresh pair (List.mem_cons_of_mem _ hpair) hmem
      obtain ⟨hsize, hget, hother⟩ := ih hnodup.2 hfresh'
      change size (collectAll (registry.collect first.1 first.2) tools) = _ ∧
        (∀ pair ∈ first :: tools, (collectAll (registry.collect first.1 first.2) tools).get _ =
          _) ∧ ∀ name, _ → (collectAll (registry.collect first.1 first.2) tools).get name = _
      refine ⟨?_, ?_, ?_⟩
      · rw [hsize, size_collect (hfresh first List.mem_cons_self), List.length_cons]
        omega
      · intro pair hpair
        rcases List.mem_cons.mp hpair with rfl | hmem
        · rw [hother _ hfirst, get_collect, if_pos rfl]
        · exact hget pair hmem
      · intro name hname
        rw [hother name fun pair hpair => hname pair (List.mem_cons_of_mem _ hpair),
          get_collect, if_neg (hname first List.mem_cons_self)]

/-- What the upstreams of an accepted file list. -/
structure Listing (isalnum : Char → Bool) where
  upstreams : List (UpstreamBase isalnum × List Tool)
  distinct : (upstreams.map (·.1.name)).Nodup
  named : ∀ listed ∈ upstreams, ∀ tool ∈ listed.2, tool.name ≠ ""
  toolsDistinct : ∀ listed ∈ upstreams, (listed.2.map (·.name)).Nodup

namespace Listing

variable {isalnum : Char → Bool} (listing : Listing isalnum)

def collected : List (String × List Tool) :=
  listing.upstreams.map fun listed => (listed.1.name, listed.2)

/-- Every tool has an entry of its own, under which it is found. -/
def Faithful : Prop :=
  size (ToolRegistry.build listing.collected) =
    (listing.upstreams.map (·.2.length)).sum ∧
  ∀ listed ∈ listing.upstreams, ∀ tool ∈ listed.2,
    (ToolRegistry.build listing.collected).get (namespaced listed.1.name tool.name) =
      some (advertised listed.1.name tool)

/-- One upstream is called like another with an underscore at the end, and lists a tool
that the other lists with an underscore in front. -/
def Overlapping : Prop :=
  ∃ listed ∈ listing.upstreams, ∃ longer ∈ listing.upstreams,
    ∃ tool ∈ listed.2, ∃ tool' ∈ longer.2,
      Overlap listed.1.name tool.name longer.1.name tool'.name

theorem mem_pairs {pair : String × Tool} (h : pair ∈ pairs listing.collected) :
    ∃ listed ∈ listing.upstreams, listed.1.name = pair.1 ∧ pair.2 ∈ listed.2 := by
  simp only [pairs, collected, List.mem_flatMap, List.mem_map] at h
  obtain ⟨_, ⟨listed, hlisted, rfl⟩, tool, htool, rfl⟩ := h
  exact ⟨listed, hlisted, rfl, htool⟩

theorem length_pairs :
    (pairs listing.collected).length = (listing.upstreams.map (·.2.length)).sum := by
  simp [pairs, collected, List.length_flatMap, Function.comp_def]

theorem keys_nodup :
    ((pairs listing.collected).map fun pair => (pair.1, pair.2.name)).Nodup := by
  simp only [pairs, collected, List.map_flatMap, List.flatMap_map, List.map_map]
  rw [List.nodup_flatMap]
  refine ⟨fun listed hlisted => ?_, ?_⟩
  · have hnodup := (listing.toolsDistinct listed hlisted).map
      (f := fun name => (listed.1.name, name)) fun _ _ h => (Prod.mk.inj h).2
    simpa [Function.comp_def] using hnodup
  · refine (List.pairwise_map.mp listing.distinct).imp ?_
    rintro listed other hne key hkey hkey'
    obtain ⟨tool, -, rfl⟩ := List.mem_map.mp hkey
    obtain ⟨tool', -, heq⟩ := List.mem_map.mp hkey'
    exact hne (Prod.mk.inj heq).1.symm

theorem names_nodup (h : ¬listing.Overlapping) :
    ((pairs listing.collected).map fun pair => namespaced pair.1 pair.2.name).Nodup := by
  have hmap : ((pairs listing.collected).map fun pair => (pair.1, pair.2.name)).map
      (fun key => namespaced key.1 key.2) =
        (pairs listing.collected).map fun pair => namespaced pair.1 pair.2.name := by
    simp [Function.comp_def]
  rw [← hmap]
  refine List.Nodup.map_on ?_ listing.keys_nodup
  rintro key hkey key' hkey' heq
  obtain ⟨pair, hpair, rfl⟩ := List.mem_map.mp hkey
  obtain ⟨pair', hpair', rfl⟩ := List.mem_map.mp hkey'
  obtain ⟨listed, hlisted, hname, htool⟩ := listing.mem_pairs hpair
  obtain ⟨listed', hlisted', hname', htool'⟩ := listing.mem_pairs hpair'
  rw [← hname, ← hname'] at heq ⊢
  rcases (namespaced_eq_iff _ _ _ _).mp heq with ⟨hupstream, hsame⟩ | hoverlap | hoverlap
  · exact Prod.ext hupstream hsame
  · exact absurd ⟨listed, hlisted, listed', hlisted', _, htool, _, htool', hoverlap⟩ h
  · exact absurd ⟨listed', hlisted', listed, hlisted, _, htool', _, htool, hoverlap⟩ h

end Listing

/-- Aggregation loses and misroutes nothing, unless two upstreams share the separator out
between a name and a tool. -/
theorem faithful_iff {isalnum : Char → Bool} (listing : Listing isalnum) :
    listing.Faithful ↔ ¬listing.Overlapping := by
  constructor
  · rintro ⟨-, hget⟩ ⟨listed, hlisted, longer, hlonger, tool, htool, tool', htool', hoverlap⟩
    have heq : namespaced listed.1.name tool.name = namespaced longer.1.name tool'.name :=
      (namespaced_eq_iff _ _ _ _).mpr (.inr (.inl hoverlap))
    have hentry := hget listed hlisted tool htool
    rw [heq, hget longer hlonger tool' htool'] at hentry
    have hname : longer.1.name = listed.1.name :=
      congrArg NamespacedTool.upstream (Option.some.inj hentry)
    have hlength := congrArg (·.toList.length) (hname.symm.trans hoverlap.1)
    simp at hlength
  · intro h
    have hfresh : ∀ pair ∈ pairs listing.collected,
        namespaced pair.1 pair.2.name ∉ ToolRegistry.empty.tools.keys := by
      intro pair _ hmem
      cases hmem
    obtain ⟨hsize, hget, -⟩ := collectAll_of_nodup (listing.names_nodup h) hfresh
    rw [← build_eq_collectAll] at hsize hget
    refine ⟨?_, fun listed hlisted tool htool => hget (listed.1.name, tool) ?_⟩
    · rw [hsize, listing.length_pairs]
      exact Nat.zero_add _
    · exact List.mem_flatMap.mpr ⟨(listed.1.name, listed.2),
        List.mem_map.mpr ⟨listed, hlisted, rfl⟩, List.mem_map.mpr ⟨tool, htool, rfl⟩⟩

/-- Two upstreams whose names the validator accepts: `a` lists `_x`, and `a_` lists `x`. -/
def clashing : Listing Char.isAlphanum where
  upstreams := [(⟨"a", by decide⟩, [{ name := "_x" }]), (⟨"a_", by decide⟩, [{ name := "x" }])]
  distinct := by decide
  named := by decide
  toolsDistinct := by decide

/-- The second tool replaces the first, and a call meant for `a` goes to `a_`. -/
theorem tool_replaced :
    size (ToolRegistry.build clashing.collected) = 1 ∧
      ((ToolRegistry.build clashing.collected).get (namespaced "a" "_x")).map
        (fun entry => (entry.upstream, entry.remoteName)) = some ("a_", "x") ∧
      ¬clashing.Faithful := by
  refine ⟨by decide, by decide, ?_⟩
  rintro ⟨hsize, -⟩
  revert hsize
  decide

end McpGatekeeper.Aggregation
