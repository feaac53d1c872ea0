import McpGatekeeper.Interleaving.Machine

namespace Interleaving

variable {World World' Choice Env Entry Op : Type} {Res : Op → Type} {Err Out : Type}

def Event.map (view : World → World') (event : Event World Entry Res) :
    Event World' Entry Res :=
  { event with before := view event.before }

def Config.map (view : World → World') (c : Config World Entry Res Err Out) :
    Config World' Entry Res Err Out where
  state := { world := view c.state.world, history := c.state.history.map (·.map view) }
  tasks := c.tasks

/-- `N` does to the view of a world what `M` does to the world, as long as the world is
good and the operation fits. -/
structure View (M : Machine World Choice Env Entry Res Err Out)
    (N : Machine World' Choice Env Entry Res Err Out) where
  view : World → World'
  Good : World → Prop
  Fits : Op → Prop
  code : ∀ entry, N.code entry = M.code entry
  cancelled : N.cancelled = M.cancelled
  exec : ∀ {op w} choice, Good w → Fits op →
    N.exec op choice (view w) = (M.exec op choice w).map fun answer => (answer.1, view answer.2)
  env : ∀ {w} change, Good w → N.env change (view w) = (M.env change w).map view
  exec_good : ∀ {op choice answer w w'}, Good w → Fits op →
    M.exec op choice w = some (answer, w') → Good w'
  env_good : ∀ {change w w'}, Good w → M.env change w = some w' → Good w'

namespace View

variable {M : Machine World Choice Env Entry Res Err Out}
  {N : Machine World' Choice Env Entry Res Err Out} (V : View M N)
  {c c' : Config World Entry Res Err Out}

/-- The world is good, and so will be whatever the tasks make of it. -/
structure Ready (c : Config World Entry Res Err Out) : Prop where
  world : V.Good c.state.world
  tasks : ∀ task ∈ c.tasks, task.rest.Only V.Fits

/-- What arrives fits. -/
def Welcome (label : Label Choice Env Entry) : Prop :=
  ∀ entry, label = .start entry → (M.code entry).Only V.Fits

variable {V}

theorem Ready.of_set (h : V.Ready c) {i : Nat} {entry : Entry} {rest : Program Op Res Err Out}
    {state : State World Entry Res} (hworld : V.Good state.world) (hrest : rest.Only V.Fits) :
    V.Ready ⟨state, c.tasks.set i ⟨entry, rest⟩⟩ := by
  refine ⟨hworld, fun task htask => ?_⟩
  rcases List.mem_or_eq_of_mem_set htask with hmem | rfl
  · exact h.tasks task hmem
  · exact hrest

theorem Ready.step (h : V.Ready c) {label : Label Choice Env Entry} (hlabel : V.Welcome label)
    (hstep : M.step c label = some c') : V.Ready c' := by
  obtain ⟨entry, rfl, rfl⟩ |
    ⟨i, choice, entry, op, next, answer, world, rfl, htask, hexec, rfl⟩ |
    ⟨change, world, rfl, henv, rfl⟩ | ⟨i, entry, op, next, rfl, htask, rfl⟩ :=
      Machine.step_cases hstep
  · refine ⟨h.world, fun task htask => ?_⟩
    rcases List.mem_append.mp htask with hold | hnew
    · exact h.tasks task hold
    · obtain rfl := List.mem_singleton.mp hnew
      exact hlabel entry rfl
  · obtain ⟨hop, hnext⟩ := h.tasks _ (List.mem_of_getElem? htask)
    exact h.of_set (V.exec_good h.world hop hexec) (hnext answer)
  · exact ⟨V.env_good h.world henv, h.tasks⟩
  · exact h.of_set h.world trivial

theorem step_map (h : V.Ready c) (label : Label Choice Env Entry) :
    N.step (c.map V.view) label = (M.step c label).map (·.map V.view) := by
  cases label with
  | start entry =>
      simp only [Machine.step, Option.map_some, V.code]
      rfl
  | act i choice =>
      simp only [Machine.step, Config.map]
      cases htask : c.tasks[i]? with
      | none => rfl
      | some task =>
          obtain ⟨entry, rest⟩ := task
          cases rest with
          | ret | fail => rfl
          | perform op next =>
              have hop := (h.tasks _ (List.mem_of_getElem? htask)).1
              simp only [V.exec choice h.world hop, Option.map_map]
              rfl
  | env change =>
      simp only [Machine.step, Config.map, V.env change h.world, Option.map_map]
      rfl
  | cancel i =>
      simp only [Machine.step, Config.map, V.cancelled]
      cases htask : c.tasks[i]? with
      | none => rfl
      | some task =>
          obtain ⟨entry, rest⟩ := task
          cases rest <;> rfl

/-- Label for label, the runs of `N` are the runs of `M`: the tasks are given the same
answers, and every world is the view of the world there. -/
theorem run_map (h : V.Ready c) {labels : List (Label Choice Env Entry)}
    (hlabels : ∀ label ∈ labels, V.Welcome label) :
    N.run .none (c.map V.view) labels = (M.run .none c labels).map (·.map V.view) := by
  induction labels generalizing c with
  | nil => rfl
  | cons label labels ih =>
      obtain ⟨hlabel, hrest⟩ := List.forall_mem_cons.mp hlabels
      rw [Machine.run, Machine.run, Assumption.permits_none, Assumption.permits_none, if_pos rfl,
        if_pos rfl, step_map h]
      cases hstep : M.step c label with
      | none => rfl
      | some c' => exact ih (h.step hlabel hstep) hrest

theorem Ready.run (h : V.Ready c) {labels : List (Label Choice Env Entry)}
    (hlabels : ∀ label ∈ labels, V.Welcome label) (hrun : M.run .none c labels = some c') :
    V.Ready c' := by
  induction labels generalizing c with
  | nil =>
      cases hrun
      exact h
  | cons label labels ih =>
      obtain ⟨hlabel, hrest⟩ := List.forall_mem_cons.mp hlabels
      rw [Machine.run, Assumption.permits_none, if_pos rfl] at hrun
      obtain ⟨next, hstep, hrun⟩ := Option.bind_eq_some_iff.mp hrun
      exact ih (h.step hlabel hstep) hrest hrun

theorem ready_initial {world : World} (h : V.Good world) :
    V.Ready (Config.initial world : Config World Entry Res Err Out) :=
  ⟨h, fun _ htask => by cases htask⟩

end View

def State.map (view : World → World') (s : State World Entry Res) : State World' Entry Res where
  world := view s.world
  history := s.history.map (·.map view)

/-- What is assumed of the view of a state, assumed of the state. -/
def Assumption.comap (B : Assumption World' Env Entry Res) (view : World → World') :
    Assumption World Env Entry Res where
  act i entry op s := B.act i entry op (s.map view)
  env change s := B.env change (s.map view)

theorem Assumption.permits_comap (B : Assumption World' Env Entry Res) (view : World → World')
    (c : Config World Entry Res Err Out) (label : Label Choice Env Entry) :
    (B.comap view).permits c label = B.permits (c.map view) label := by
  cases label <;> rfl

theorem Machine.run_none {M : Machine World Choice Env Entry Res Err Out}
    {A : Assumption World Env Entry Res} {labels : List (Label Choice Env Entry)}
    {c c' : Config World Entry Res Err Out} (h : M.run A c labels = some c') :
    M.run .none c labels = some c' := by
  induction labels generalizing c with
  | nil => exact h
  | cons label labels ih =>
      rw [run] at h ⊢
      split at h
      · rw [Assumption.permits_none, if_pos rfl]
        obtain ⟨next, hstep, hrun⟩ := Option.bind_eq_some_iff.mp h
        rw [hstep]
        exact ih hrun
      · cases h

/-- As long as the assumption holds, `N` does to the view of a world what `M` does to the
world. -/
structure Simulation (B : Assumption World' Env Entry Res)
    (M : Machine World Choice Env Entry Res Err Out)
    (N : Machine World' Choice Env Entry Res Err Out) where
  view : World → World'
  code : ∀ entry, N.code entry = M.code entry
  cancelled : N.cancelled = M.cancelled
  exec : ∀ {i entry op} {s : State World Entry Res} choice,
    B.act i entry op (s.map view) = true →
      N.exec op choice (view s.world) =
        (M.exec op choice s.world).map fun answer => (answer.1, view answer.2)
  env : ∀ change w, N.env change (view w) = (M.env change w).map view

namespace Simulation

variable {B : Assumption World' Env Entry Res} {M : Machine World Choice Env Entry Res Err Out}
  {N : Machine World' Choice Env Entry Res Err Out} (V : Simulation B M N)

theorem step_map {c : Config World Entry Res Err Out} {label : Label Choice Env Entry}
    (hpermits : B.permits (c.map V.view) label = true) :
    N.step (c.map V.view) label = (M.step c label).map (·.map V.view) := by
  cases label with
  | start entry =>
      simp only [Machine.step, Option.map_some, V.code]
      rfl
  | act i choice =>
      simp only [Machine.step, Config.map]
      cases htask : c.tasks[i]? with
      | none => rfl
      | some task =>
          obtain ⟨entry, rest⟩ := task
          cases rest with
          | ret | fail => rfl
          | perform op next =>
              have hact : B.act i entry op (c.state.map V.view) = true :=
                Assumption.act_of_permits hpermits htask
              simp only [V.exec choice hact, Option.map_map]
              rfl
  | env change =>
      simp only [Machine.step, Config.map, V.env change, Option.map_map]
      rfl
  | cancel i =>
      simp only [Machine.step, Config.map, V.cancelled]
      cases htask : c.tasks[i]? with
      | none => rfl
      | some task =>
          obtain ⟨entry, rest⟩ := task
          cases rest <;> rfl

theorem run_map (c : Config World Entry Res Err Out) (labels : List (Label Choice Env Entry)) :
    N.run B (c.map V.view) labels =
      (M.run (B.comap V.view) c labels).map (·.map V.view) := by
  induction labels generalizing c with
  | nil => rfl
  | cons label labels ih =>
      rw [Machine.run, Machine.run, Assumption.permits_comap]
      split
      · rename_i hpermits
        rw [V.step_map hpermits]
        cases M.step c label with
        | none => rfl
        | some c' => exact ih c'
      · rfl

theorem of_run {c : Config World Entry Res Err Out} {labels : List (Label Choice Env Entry)}
    {d : Config World' Entry Res Err Out} (h : N.run B (c.map V.view) labels = some d) :
    ∃ c', M.run .none c labels = some c' ∧ d = c'.map V.view := by
  rw [V.run_map] at h
  obtain ⟨c', hrun, rfl⟩ := Option.map_eq_some_iff.mp h
  exact ⟨c', Machine.run_none hrun, rfl⟩

end Simulation

end Interleaving
