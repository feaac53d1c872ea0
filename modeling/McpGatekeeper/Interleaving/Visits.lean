import McpGatekeeper.Interleaving.Machine

namespace Interleaving

variable {World Choice Env Entry Op : Type} {Res : Op → Type} {Err Out : Type}

/-- A configuration a run goes through, with the label taken there. -/
abbrev Visit (World Choice Env Entry : Type) {Op : Type} (Res : Op → Type)
    (Err Out : Type) :=
  Config World Entry Res Err Out × Label Choice Env Entry

namespace Machine

variable (M : Machine World Choice Env Entry Res Err Out)

/-- A run with its visits, latest first. -/
inductive Runs (c₀ : Config World Entry Res Err Out) :
    List (Visit World Choice Env Entry Res Err Out) → Config World Entry Res Err Out → Prop
  | refl : Runs c₀ [] c₀
  | tail {visits : List (Visit World Choice Env Entry Res Err Out)}
      {c c' : Config World Entry Res Err Out} {label : Label Choice Env Entry}
      (hruns : Runs c₀ visits c) (hstep : M.step c label = some c') :
      Runs c₀ ((c, label) :: visits) c'

def visits (c : Config World Entry Res Err Out) :
    List (Label Choice Env Entry) → List (Visit World Choice Env Entry Res Err Out)
  | [] => []
  | label :: labels =>
      (M.step c label).elim [] (fun c' => visits c' labels) ++ [(c, label)]

variable {M} {c₀ c c' : Config World Entry Res Err Out}
  {visits : List (Visit World Choice Env Entry Res Err Out)}

theorem Runs.reaches (h : M.Runs c₀ visits c) : M.Reaches .none c₀ c := by
  induction h with
  | refl => exact Relation.ReflTransGen.refl
  | tail _ hstep ih => exact ih.tail ⟨_, Assumption.permits_none _ _, hstep⟩

theorem Reaches.runs {A : Assumption World Env Entry Res} (h : M.Reaches A c₀ c) :
    ∃ visits, M.Runs c₀ visits c := by
  induction h with
  | refl => exact ⟨[], .refl⟩
  | tail _ hstep ih =>
      obtain ⟨visits, hruns⟩ := ih
      obtain ⟨label, -, hstep⟩ := hstep
      exact ⟨_, hruns.tail hstep⟩

theorem Runs.visited (h : M.Runs c₀ visits c) {c₁ : Config World Entry Res Err Out}
    {label : Label Choice Env Entry} (hvisit : (c₁, label) ∈ visits) :
    M.Reaches .none c₀ c₁ := by
  induction h with
  | refl => cases hvisit
  | tail hruns _ ih =>
      rcases List.mem_cons.mp hvisit with heq | hmem
      · cases heq
        exact hruns.reaches
      · exact ih hmem

theorem Runs.head {label : Label Choice Env Entry} (hstep : M.step c₀ label = some c)
    (h : M.Runs c visits c') : M.Runs c₀ (visits ++ [(c₀, label)]) c' := by
  induction h with
  | refl => exact Runs.refl.tail hstep
  | tail _ hnext ih => exact ih.tail hnext

theorem runs_of_run {A : Assumption World Env Entry Res} {labels : List (Label Choice Env Entry)}
    (h : M.run A c labels = some c') : M.Runs c (M.visits c labels) c' := by
  induction labels generalizing c with
  | nil =>
      obtain rfl : c = c' := by simpa [run] using h
      exact .refl
  | cons label labels ih =>
      rw [run] at h
      split at h
      · obtain ⟨next, hstep, hrun⟩ := Option.bind_eq_some_iff.mp h
        rw [Machine.visits, hstep]
        exact (ih hrun).head hstep
      · cases h

end Machine

end Interleaving
