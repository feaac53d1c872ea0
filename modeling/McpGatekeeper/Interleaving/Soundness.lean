import McpGatekeeper.Interleaving.Contract

/-!
If every entry point keeps a contract, every run does: the invariant holds in
every state reached, every operation in the history was owed and paid, and every
task that has returned satisfies its postcondition.
-/

namespace Interleaving

variable {World Choice Env Entry Op : Type} {Res : Op → Type} {Err Out : Type}
variable {M : Machine World Choice Env Entry Res Err Out}

namespace Contract

variable (K : Contract M)

/-- What is known of an operation of the history in a later configuration:
`older` is the history it was performed on. -/
structure Honoured (event : Event World Entry Res) (older : List (Event World Entry Res))
    (c : Config World Entry Res Err Out) : Prop where
  inv : K.inv ⟨event.before, older⟩
  assume : K.assume.act event.task event.entry event.op ⟨event.before, older⟩
  pre : K.pre event.task event.entry event.op ⟨event.before, older⟩
  evo : K.evo event.before c.state.world
  exec : ∃ choice world, M.exec event.op choice event.before = some (event.res, world) ∧
    K.evo world c.state.world
  owner : ∃ task, c.tasks[event.task]? = some task ∧ task.entry = event.entry

structure Good (post : Nat → Entry → Out → State World Entry Res → Prop)
    (c : Config World Entry Res Err Out) : Prop where
  inv : K.inv c.state
  tasks : ∀ i task, c.tasks[i]? = some task →
    ∃ s, K.Rely i s c.state ∧ K.Keeps i task.entry task.rest (post i task.entry) s
  past : ∀ newer event older, c.state.history = newer ++ event :: older →
    K.Honoured event older c

variable {K} {post : Nat → Entry → Out → State World Entry Res → Prop}
variable {c c' : Config World Entry Res Err Out}

def KeepsOwners (c c' : Config World Entry Res Err Out) : Prop :=
  ∀ (i : Nat) (task : Task Entry Res Err Out), c.tasks[i]? = some task →
    ∃ task' : Task Entry Res Err Out, c'.tasks[i]? = some task' ∧ task'.entry = task.entry

theorem keepsOwners_set {i : Nat} {entry : Entry} {rest rest' : Program Op Res Err Out}
    {state : State World Entry Res} (htask : c.tasks[i]? = some ⟨entry, rest⟩) :
    KeepsOwners c ⟨state, c.tasks.set i ⟨entry, rest'⟩⟩ := by
  intro j task hj
  by_cases hij : i = j
  · subst hij
    rw [htask] at hj
    obtain rfl := Option.some.inj hj
    have hlt : i < c.tasks.length := (List.getElem?_eq_some_iff.mp htask).1
    exact ⟨⟨entry, rest'⟩, by simp [hlt], rfl⟩
  · exact ⟨task, by simp [List.getElem?_set_ne hij, hj], rfl⟩

theorem Honoured.later {event : Event World Entry Res}
    {older : List (Event World Entry Res)} (h : K.Honoured event older c)
    (hevo : K.evo c.state.world c'.state.world) (howners : KeepsOwners c c') :
    K.Honoured event older c' := by
  obtain ⟨choice, world, hexec, hworld⟩ := h.exec
  obtain ⟨task, htask, hentry⟩ := h.owner
  obtain ⟨task', htask', hentry'⟩ := howners event.task task htask
  exact
    { inv := h.inv
      assume := h.assume
      pre := h.pre
      evo := K.evo_trans h.evo hevo
      exec := ⟨choice, world, hexec, K.evo_trans hworld hevo⟩
      owner := ⟨task', htask', hentry'.trans hentry⟩ }

theorem Good.initial {world : World} (hinv : K.inv ⟨world, []⟩) :
    K.Good post (Config.initial world : Config World Entry Res Err Out) where
  inv := hinv
  tasks i task h := by simp [Config.initial] at h
  past newer event older h := by simp [Config.initial] at h

theorem Good.fresh (h : K.Good post c) :
    ∀ event ∈ c.state.history, event.task ≠ c.tasks.length := by
  intro event hevent
  obtain ⟨newer, older, hsplit⟩ := List.append_of_mem hevent
  obtain ⟨task, htask, -⟩ := (h.past newer event older hsplit).owner
  exact Nat.ne_of_lt (List.getElem?_eq_some_iff.mp htask).1

theorem Good.start (h : K.Good post c) (entry : Entry)
    (hcode : K.Keeps c.tasks.length entry (M.code entry) (post c.tasks.length entry)
      c.state) :
    K.Good post { c with tasks := c.tasks ++ [⟨entry, M.code entry⟩] } where
  inv := h.inv
  tasks i task hi := by
    by_cases hlt : i < c.tasks.length
    · exact h.tasks i task (by simpa [List.getElem?_append_left hlt] using hi)
    · have hsome := List.getElem?_eq_some_iff.mp hi
      have hlen : i < c.tasks.length + 1 := by simpa using hsome.1
      obtain rfl : i = c.tasks.length := by omega
      obtain rfl : (⟨entry, M.code entry⟩ : Task Entry Res Err Out) = task := by
        simpa using hi
      exact ⟨c.state, Rely.refl _ _, hcode⟩
  past newer event older hsplit := by
    refine (h.past newer event older hsplit).later (K.evo_refl _) ?_
    intro i task hi
    have hlt : i < c.tasks.length := (List.getElem?_eq_some_iff.mp hi).1
    exact ⟨task, by simp [List.getElem?_append_left hlt, hi], rfl⟩

theorem Good.pre (h : K.Good post c) {i : Nat} {entry : Entry} {op : Op}
    {next : Res op → Program Op Res Err Out}
    (htask : c.tasks[i]? = some ⟨entry, .perform op next⟩)
    (hassume : K.assume.act i entry op c.state) : K.pre i entry op c.state := by
  obtain ⟨s, hrely, hkeeps⟩ := h.tasks i _ htask
  exact (hkeeps c.state hrely h.inv hassume).1

theorem Good.act (h : K.Good post c) {i : Nat} {choice : Choice} {entry : Entry} {op : Op}
    {next : Res op → Program Op Res Err Out} {answer : Res op} {world : World}
    (htask : c.tasks[i]? = some ⟨entry, .perform op next⟩)
    (hassume : K.assume.act i entry op c.state)
    (hexec : M.exec op choice c.state.world = some (answer, world)) :
    K.Good post
      { state := c.state.push ⟨i, entry, op, answer, c.state.world⟩ world
        tasks := c.tasks.set i ⟨entry, next answer⟩ } := by
  have hpre := h.pre htask hassume
  have hevo := K.exec_evo h.inv hassume hpre hexec
  have howners : KeepsOwners c
      { state := c.state.push ⟨i, entry, op, answer, c.state.world⟩ world
        tasks := c.tasks.set i ⟨entry, next answer⟩ } := keepsOwners_set htask
  refine
    { inv := K.exec_inv h.inv hassume hpre hexec
      tasks := ?_
      past := ?_ }
  · intro j task hj
    by_cases hij : i = j
    · -- The code has promised how it goes on, whatever the others have done since.
      subst hij
      obtain ⟨s, hrely, hkeeps⟩ := h.tasks i _ htask
      have hlt : i < c.tasks.length := (List.getElem?_eq_some_iff.mp htask).1
      obtain rfl : (⟨entry, next answer⟩ : Task Entry Res Err Out) = task := by
        simpa [hlt] using hj
      exact ⟨_, Rely.refl _ _,
        (hkeeps c.state hrely h.inv hassume).2 choice answer world hexec⟩
    · rw [List.getElem?_set_ne hij] at hj
      obtain ⟨s, hrely, hkeeps⟩ := h.tasks j task hj
      refine ⟨s, hrely.trans ⟨hevo, [_], rfl, ?_⟩, hkeeps⟩
      simpa using hij
  · intro newer event older hsplit
    cases newer with
    | nil =>
        obtain ⟨rfl, rfl⟩ := List.cons.inj hsplit
        obtain ⟨task', htask', hentry'⟩ := howners i _ htask
        exact
          { inv := h.inv
            assume := hassume
            pre := hpre
            evo := hevo
            exec := ⟨choice, world, hexec, K.evo_refl _⟩
            owner := ⟨task', htask', hentry'⟩ }
    | cons first newer =>
        exact (h.past newer event older (List.cons.inj hsplit).2).later hevo howners

theorem Good.env (h : K.Good post c) {change : Env} {world : World}
    (hassume : K.assume.env change c.state)
    (henv : M.env change c.state.world = some world) :
    K.Good post { c with state := { c.state with world := world } } where
  inv := K.env_inv h.inv hassume henv
  tasks i task hi := by
    obtain ⟨s, hrely, hkeeps⟩ := h.tasks i task hi
    exact ⟨s, hrely.trans ⟨K.env_evo h.inv hassume henv, [], rfl, by simp⟩, hkeeps⟩
  past newer event older hsplit :=
    (h.past newer event older hsplit).later (K.env_evo h.inv hassume henv)
      fun _ task hi => ⟨task, hi, rfl⟩

theorem Good.cancel (h : K.Good post c) {i : Nat} {entry : Entry}
    {rest : Program Op Res Err Out} (htask : c.tasks[i]? = some ⟨entry, rest⟩) :
    K.Good post { c with tasks := c.tasks.set i ⟨entry, .fail M.cancelled⟩ } where
  inv := h.inv
  tasks j task hj := by
    by_cases hij : i = j
    · subst hij
      have hlt : i < c.tasks.length := (List.getElem?_eq_some_iff.mp htask).1
      obtain rfl : (⟨entry, .fail M.cancelled⟩ : Task Entry Res Err Out) = task := by
        simpa [hlt] using hj
      exact ⟨c.state, Rely.refl _ _, trivial⟩
    · exact h.tasks j task (by simpa [List.getElem?_set_ne hij] using hj)
  past newer event older hsplit :=
    (h.past newer event older hsplit).later (K.evo_refl _) (keepsOwners_set htask)

def KeptByCode (K : Contract M)
    (post : Nat → Entry → Out → State World Entry Res → Prop) : Prop :=
  ∀ i entry s, K.inv s → (∀ event ∈ s.history, event.task ≠ i) →
    K.Keeps i entry (M.code entry) (post i entry) s

theorem Good.step (hcode : K.KeptByCode post) (h : K.Good post c)
    (hstep : M.Steps K.assume c c') :
    K.Good post c' ∧ K.evo c.state.world c'.state.world := by
  obtain ⟨label, hpermits, hstep⟩ := hstep
  obtain ⟨entry, rfl, rfl⟩ |
    ⟨i, choice, entry, op, next, answer, world, rfl, htask, hexec, rfl⟩ |
    ⟨change, world, rfl, henv, rfl⟩ | ⟨i, entry, op, next, rfl, htask, rfl⟩ :=
      Machine.step_cases hstep
  · exact ⟨h.start entry (hcode _ entry c.state h.inv h.fresh), K.evo_refl _⟩
  · have hassume := Assumption.act_of_permits hpermits htask
    exact ⟨h.act htask hassume hexec,
      K.exec_evo h.inv hassume (h.pre htask hassume) hexec⟩
  · exact ⟨h.env hpermits henv, K.env_evo h.inv hpermits henv⟩
  · exact ⟨h.cancel htask, K.evo_refl _⟩

theorem Good.reaches (hcode : K.KeptByCode post) (h : K.Good post c)
    (hreach : M.Reaches K.assume c c') :
    K.Good post c' ∧ K.evo c.state.world c'.state.world := by
  induction hreach with
  | refl => exact ⟨h, K.evo_refl _⟩
  | tail _ hstep ih =>
      obtain ⟨hgood, hevo⟩ := ih.1.step hcode hstep
      exact ⟨hgood, K.evo_trans ih.2 hevo⟩

theorem sound (hcode : K.KeptByCode post) {world : World} (hinv : K.inv ⟨world, []⟩)
    (hreach : M.Reaches K.assume (Config.initial world) c) : K.Good post c :=
  ((Good.initial hinv).reaches hcode hreach).1

/-- What a returned task guarantees: its postcondition held when it returned, and
only other tasks have moved since. -/
theorem Good.returned (h : K.Good post c) {i : Nat} {entry : Entry} {out : Out}
    (htask : c.tasks[i]? = some ⟨entry, .ret out⟩) :
    ∃ s, K.Rely i s c.state ∧ post i entry out s :=
  h.tasks i _ htask

end Contract

end Interleaving
