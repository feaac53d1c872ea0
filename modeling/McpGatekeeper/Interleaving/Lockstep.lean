import McpGatekeeper.Interleaving.Machine

/-!
Two runs that are given the same surroundings, compared step by step.

The runs go abreast as long as corresponding tasks do the same to the world.  A
comparison says at which steps of the first run they may part, and what then
separates their worlds.
-/

namespace Interleaving

/-- What is assumed of the steps of the first run, where it may part from the
second, and how. -/
structure Comparison (World Op : Type) where
  assume : Nat → Op → World → Bool
  parts : Nat → Op → World → Bool
  Apart : World → World → Prop

variable {World Choice Env Entry Op : Type} {Res : Op → Type} {Err Out α β γ δ : Type}

namespace Comparison

variable (C : Comparison World Op) (M : Machine World Choice Env Entry Res Err Out)

def assumption : Assumption World Env Entry Res where
  act i _ op s := C.assume i op s.world
  env _ _ := true

def parted (history : List (Event World Entry Res)) : Bool :=
  history.any fun event => C.parts event.task event.op event.before

/-- Whatever the programs are answered, they do the same until they part. -/
def Lockstep (i : Nat) (R : α → β → Prop) :
    Program Op Res Err α → Program Op Res Err β → Prop
  | .ret x, .ret y => R x y
  | .fail _, .fail _ => True
  | .perform op next, .perform op' next' =>
      ∀ choice world answer after, C.assume i op world = true →
        M.exec op choice world = some (answer, after) →
        ∃ answer' after', M.exec op' choice world = some (answer', after') ∧
          if C.parts i op world = true then C.Apart after after'
          else after' = after ∧ Lockstep i R (next answer) (next' answer')
  | _, _ => False

structure Abreast (c c' : Config World Entry Res Err Out) : Prop where
  world : c'.state.world = c.state.world
  length : c'.tasks.length = c.tasks.length
  tasks : ∀ (i : Nat) task, c.tasks[i]? = some task →
    ∃ task', c'.tasks[i]? = some task' ∧ C.Lockstep M i Eq task.rest task'.rest

variable {C M} {i : Nat}

theorem lockstep_bind {R : α → β → Prop} {S : γ → δ → Prop} {p : Program Op Res Err α}
    {q : Program Op Res Err β} {f : α → Program Op Res Err γ} {g : β → Program Op Res Err δ}
    (h : C.Lockstep M i R p q) (hnext : ∀ x y, R x y → C.Lockstep M i S (f x) (g y)) :
    C.Lockstep M i S (p >>= f) (q >>= g) := by
  induction p generalizing q with
  | ret x =>
      cases q with
      | ret y => exact hnext x y h
      | fail | perform => exact h.elim
  | fail error =>
      cases q with
      | fail => exact trivial
      | ret | perform => exact h.elim
  | perform op next ih =>
      cases q with
      | ret | fail => exact h.elim
      | perform op' next' =>
          intro choice world answer after hassume hexec
          obtain ⟨answer', after', hexec', hmeets⟩ := h choice world answer after hassume hexec
          refine ⟨answer', after', hexec', ?_⟩
          split at hmeets
          · rw [if_pos ‹_›]
            exact hmeets
          · rw [if_neg ‹_›]
            exact ⟨hmeets.1, ih answer hmeets.2⟩

theorem lockstep_perform {R : α → β → Prop} {op : Op}
    {next : Res op → Program Op Res Err α} {next' : Res op → Program Op Res Err β}
    (hparts : ∀ world, C.parts i op world = false)
    (hnext : ∀ answer, C.Lockstep M i R (next answer) (next' answer)) :
    C.Lockstep M i R (.perform op next) (.perform op next') := by
  intro choice world answer after _ hexec
  refine ⟨answer, after, hexec, ?_⟩
  rw [if_neg (by simp [hparts])]
  exact ⟨rfl, hnext answer⟩

theorem lockstep_refl {R : α → α → Prop} (hrefl : ∀ x, R x x) {p : Program Op Res Err α}
    (hp : p.Only fun op => ∀ world, C.parts i op world = false) : C.Lockstep M i R p p := by
  induction p with
  | ret x => exact hrefl x
  | fail error => exact trivial
  | perform op next ih => exact lockstep_perform hp.1 fun answer => ih answer (hp.2 answer)

theorem parted_of_suffix {older newer : List (Event World Entry Res)} (h : older <:+ newer)
    (hparted : C.parted older = true) : C.parted newer = true := by
  obtain ⟨front, rfl⟩ := h
  simp only [parted, List.any_append, Bool.or_eq_true]
  exact .inr hparted

variable {c c' d : Config World Entry Res Err Out}

theorem Abreast.set (h : C.Abreast M c c') {entry entry' : Entry}
    {rest rest' : Program Op Res Err Out} {state state' : State World Entry Res}
    (hworld : state'.world = state.world) (hrest : C.Lockstep M i Eq rest rest') :
    C.Abreast M ⟨state, c.tasks.set i ⟨entry, rest⟩⟩
      ⟨state', c'.tasks.set i ⟨entry', rest'⟩⟩ where
  world := hworld
  length := by simp [h.length]
  tasks j task hj := by
    rcases eq_or_ne i j with rfl | hne
    · have hlt : i < c.tasks.length := by simpa using (List.getElem?_eq_some_iff.mp hj).1
      have hlt' : i < c'.tasks.length := h.length ▸ hlt
      simp only [List.getElem?_set_self hlt, Option.some.injEq] at hj
      exact ⟨⟨entry', rest'⟩, List.getElem?_set_self hlt', hj ▸ hrest⟩
    · rw [List.getElem?_set_ne hne] at hj
      obtain ⟨task', hj', hlockstep⟩ := h.tasks j task hj
      exact ⟨task', by rwa [List.getElem?_set_ne hne], hlockstep⟩

theorem Abreast.start (h : C.Abreast M c c') {entry entry' : Entry}
    (hcode : C.Lockstep M c.tasks.length Eq (M.code entry) (M.code entry')) :
    C.Abreast M { c with tasks := c.tasks ++ [⟨entry, M.code entry⟩] }
      { c' with tasks := c'.tasks ++ [⟨entry', M.code entry'⟩] } where
  world := h.world
  length := by simp [h.length]
  tasks j task hj := by
    rcases Nat.lt_trichotomy j c.tasks.length with hlt | rfl | hgt
    · rw [List.getElem?_append_left hlt] at hj
      obtain ⟨task', hj', hlockstep⟩ := h.tasks j task hj
      exact ⟨task', by rwa [List.getElem?_append_left (h.length ▸ hlt)], hlockstep⟩
    · simp only [List.getElem?_concat_length, Option.some.injEq] at hj
      refine ⟨⟨entry', M.code entry'⟩, ?_, hj ▸ hcode⟩
      rw [← h.length]
      exact List.getElem?_concat_length
    · rw [List.getElem?_eq_none (by simp; omega)] at hj
      cases hj

theorem Abreast.step (h : C.Abreast M c c') {label : Label Choice Env Entry}
    (hcode : ∀ entry, C.Lockstep M c.tasks.length Eq (M.code entry) (M.code entry))
    (hpermits : C.assumption.permits c label = true) (hstep : M.step c label = some d) :
    ∃ d', M.step c' label = some d' ∧
      ((C.Abreast M d d' ∧ C.parted d.state.history = C.parted c.state.history) ∨
        (C.parted d.state.history = true ∧ C.Apart d.state.world d'.state.world)) := by
  obtain ⟨entry, rfl, rfl⟩ |
    ⟨i, choice, entry, op, next, answer, world, rfl, htask, hexec, rfl⟩ |
    ⟨change, world, rfl, henv, rfl⟩ | ⟨i, entry, op, next, rfl, htask, rfl⟩ :=
      Machine.step_cases hstep
  · exact ⟨_, rfl, .inl ⟨h.start (hcode entry), rfl⟩⟩
  · obtain ⟨⟨entry', rest'⟩, htask', hrest⟩ := h.tasks i _ htask
    cases rest' with
    | ret | fail => exact hrest.elim
    | perform op' next' =>
        have hassume : C.assume i op c.state.world = true :=
          Assumption.act_of_permits hpermits htask
        obtain ⟨answer', world', hexec', hmeets⟩ :=
          hrest choice c.state.world answer world hassume hexec
        refine ⟨_, Machine.step_act htask' (h.world.symm ▸ hexec'), ?_⟩
        rcases hparts : C.parts i op c.state.world with _ | _
        · rw [if_neg (by simp [hparts])] at hmeets
          exact .inl ⟨h.set hmeets.1 hmeets.2, by simp [parted, hparts]⟩
        · rw [if_pos hparts] at hmeets
          exact .inr ⟨by simp [parted, hparts], hmeets⟩
  · refine ⟨_, Machine.step_env (h.world.symm ▸ henv), .inl ⟨?_, rfl⟩⟩
    exact ⟨rfl, h.length, h.tasks⟩
  · obtain ⟨⟨entry', rest'⟩, htask', hrest⟩ := h.tasks i _ htask
    cases rest' with
    | ret | fail => exact hrest.elim
    | perform op' next' =>
        refine ⟨_, Machine.step_cancel htask', .inl ⟨?_, rfl⟩⟩
        exact h.set h.world trivial

/-- Two runs given the same labels stay abreast, unless the first has reached a step
at which it parts from the second. -/
theorem Abreast.run (h : C.Abreast M c c') {labels : List (Label Choice Env Entry)}
    (hcode : ∀ i ≥ c.tasks.length, ∀ entry,
      C.Lockstep M i Eq (M.code entry) (M.code entry))
    (hrun : M.run C.assumption c labels = some d) :
    (∃ d', M.run .none c' labels = some d' ∧ C.Abreast M d d' ∧
      C.parted d.state.history = C.parted c.state.history) ∨
    (C.parted d.state.history = true ∧ ∃ m m' rest, C.Apart m.state.world m'.state.world ∧
      M.run C.assumption m rest = some d ∧ M.run .none c' labels = M.run .none m' rest) := by
  induction labels generalizing c c' with
  | nil =>
      obtain rfl : c = d := by simpa [Machine.run] using hrun
      exact .inl ⟨c', rfl, h, rfl⟩
  | cons label labels ih =>
      rw [Machine.run] at hrun
      split at hrun
      · rename_i hpermits
        obtain ⟨next, hstep, hrest⟩ := Option.bind_eq_some_iff.mp hrun
        obtain ⟨next', hstep', hmeets⟩ := h.step (hcode _ (Nat.le_refl _)) hpermits hstep
        have hfirst : M.run .none c' (label :: labels) = M.run .none next' labels := by
          simp [Machine.run, Assumption.permits_none, hstep']
        rw [hfirst]
        rcases hmeets with ⟨hnext, hparted⟩ | ⟨hparted, hapart⟩
        · rw [← hparted]
          exact ih hnext (fun i hi => hcode i (Nat.le_trans (Machine.tasks_length hstep) hi)) hrest
        · refine .inr ⟨?_, next, next', labels, hapart, hrest, rfl⟩
          exact parted_of_suffix (Machine.reaches_of_run hrest).history hparted
      · cases hrun

end Comparison

end Interleaving
