import Mathlib.Data.List.AList
import McpGatekeeper.PolicyEngine

namespace McpGatekeeper.Registry

open McpGatekeeper.JsonValues
open McpGatekeeper.PolicyEngine

def namespaceSeparator : String := "__"

/-- `namespace`, the client-visible name of an upstream tool. -/
def namespaced (upstream tool : String) : String :=
  upstream ++ namespaceSeparator ++ tool

def splitNamespace (name : String) : Option (String × String) :=
  match PythonText.partition namespaceSeparator.toList name.toList with
  | none => none
  | some (upstream, tool) =>
      if upstream = [] ∨ tool = [] then none
      else some (String.ofList upstream, String.ofList tool)

/-- The hints of `types.ToolAnnotations`. -/
structure ToolAnnotations where
  readOnlyHint : Option Bool := none
  destructiveHint : Option Bool := none
  idempotentHint : Option Bool := none
  openWorldHint : Option Bool := none

/-- `types.Tool`: the fields the gateway reads, and everything else unopened. -/
structure Tool where
  name : String
  annotations : Option ToolAnnotations := none
  rest : JsonObject := []

def annotationView (tool : Tool) : AnnotationView :=
  match tool.annotations with
  | none => {}
  | some annotations =>
      { readOnly := annotations.readOnlyHint
        destructive := annotations.destructiveHint
        idempotent := annotations.idempotentHint
        openWorld := annotations.openWorldHint }

structure NamespacedTool where
  upstream : String
  remoteName : String
  tool : Tool

def NamespacedTool.name (entry : NamespacedTool) : String :=
  entry.tool.name

def NamespacedTool.annotations (entry : NamespacedTool) : AnnotationView :=
  annotationView entry.tool

def rename (tool : Tool) (newName : String) : Tool :=
  { tool with name := newName }

/-- A snapshot of every tool, under the name a client calls it by.  The gateway
starts from the empty one and installs only those made by `build`, so the name
always is the namespaced one. -/
structure ToolRegistry where
  tools : AList fun _ : String => NamespacedTool
  named : ∀ name entry, tools.lookup name = some entry →
    entry.name = name ∧ namespaced entry.upstream entry.remoteName = name

namespace ToolRegistry

def empty : ToolRegistry where
  tools := ∅
  named := by simp

/-- One round of the inner loop of `build`. -/
def collect (registry : ToolRegistry) (upstream : String) (tool : Tool) :
    ToolRegistry where
  tools := registry.tools.insert (namespaced upstream tool.name)
    { upstream := upstream
      remoteName := tool.name
      tool := rename tool (namespaced upstream tool.name) }
  named name entry h := by
    rcases eq_or_ne name (namespaced upstream tool.name) with rfl | hne
    · rw [AList.lookup_insert] at h
      obtain rfl := Option.some.inj h
      exact ⟨rfl, rfl⟩
    · rw [AList.lookup_insert_ne hne] at h
      exact registry.named name entry h

/-- `ToolRegistry.build`, the upstreams in the order of the mapping. -/
def build (upstreamTools : List (String × List Tool)) : ToolRegistry :=
  upstreamTools.foldl (fun registry (upstream, tools) =>
    tools.foldl (fun registry tool => registry.collect upstream tool) registry) empty

def get (registry : ToolRegistry) (name : String) : Option NamespacedTool :=
  registry.tools.lookup name

def insertName (name : String) : List String → List String
  | [] => [name]
  | other :: names =>
      if name ≤ other then name :: other :: names else other :: insertName name names

def names (registry : ToolRegistry) : List String :=
  registry.tools.keys.foldr insertName []

def listing (registry : ToolRegistry) : List Tool :=
  registry.names.filterMap fun name => (registry.get name).map (·.tool)

end ToolRegistry

end McpGatekeeper.Registry
