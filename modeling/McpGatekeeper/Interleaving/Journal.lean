import McpGatekeeper.Interleaving.Visits

/-!
What one task has done and been answered, told by its code alone.

The journal of a task is its own part of the history without the worlds it met.  A
program narrates its journal when every operation it performs, and every way it ends,
is as described, whatever it is answered; so does then every task that runs it, however
its operations are interleaved with others.
-/

namespace Interleaving

variable {World Choice Env Entry Op : Type} {Res : Op → Type} {Err Out α β : Type}

/-- Operations with their answers, latest first. -/
abbrev Journal (Res : Op → Type) := List ((op : Op) × Res op)

def journal (i : Nat) (history : List (Event World Entry Res)) : Journal Res :=
  (history.filter fun event => event.task == i).map fun event => ⟨event.op, event.res⟩

/-- Something has been taken up and not given back since. -/
def held (takes gives : Op → Bool) : Journal Res → Bool
  | [] => false
  | item :: items => takes item.1 || (!gives item.1 && held takes gives items)

section Journal

variable {i : Nat} {history : List (Event World Entry Res)}

theorem journal_cons_self (entry : Entry) (op : Op) (answer : Res op) (before : World) :
    journal i (⟨i, entry, op, answer, before⟩ :: history) =
      ⟨op, answer⟩ :: journal i history := by
  simp [journal]

theorem journal_cons_other {event : Event World Entry Res} (h : event.task ≠ i) :
    journal i (event :: history) = journal i history := by
  simp [journal, h]

theorem journal_append (newer older : List (Event World Entry Res)) :
    journal i (newer ++ older) = journal i newer ++ journal i older := by
  simp [journal]

theorem journal_eq_nil_of_others (h : ∀ event ∈ history, event.task ≠ i) :
    journal i history = [] := by
  have hnone : history.filter (fun event => event.task == i) = [] :=
    List.filter_eq_nil_iff.mpr fun event hevent => by simpa using h event hevent
  rw [journal, hnone, List.map_nil]

theorem mem_journal {item : (op : Op) × Res op} :
    item ∈ journal i history ↔
      ∃ event ∈ history, event.task = i ∧ (⟨event.op, event.res⟩ : (op : Op) × Res op) = item := by
  simp [journal, and_assoc]

theorem split_of_suffix {item : (op : Op) × Res op} {items : Journal Res}
    (h : item :: items <:+ journal i history) :
    ∃ newer event older, history = newer ++ event :: older ∧ event.task = i ∧
      (⟨event.op, event.res⟩ : (op : Op) × Res op) = item ∧ journal i older = items := by
  induction history with
  | nil =>
      have hnil := List.suffix_nil.mp h
      cases hnil
  | cons event history ih =>
      rcases eq_or_ne event.task i with rfl | hne
      · obtain ⟨i, entry, op, answer, before⟩ := event
        rw [journal_cons_self] at h
        rcases List.suffix_cons_iff.mp h with heq | hsuffix
        · obtain ⟨rfl, rfl⟩ := List.cons.inj heq
          exact ⟨[], _, history, rfl, rfl, rfl, rfl⟩
        · obtain ⟨newer, event, older, rfl, hevent⟩ := ih hsuffix
          exact ⟨_ :: newer, event, older, rfl, hevent⟩
      · rw [journal_cons_other hne] at h
        obtain ⟨newer, event', older, rfl, hevent⟩ := ih h
        exact ⟨event :: newer, event', older, rfl, hevent⟩

end Journal

namespace Program

section Narrates

variable (before : Journal Res → Op → Prop) (failed : Err → Journal Res → Prop)

/-- The program, begun after the items of a journal, performs only operations that
`before` allows and ends only as `failed` and `returned` say. -/
def Narrates (returned : α → Journal Res → Prop) :
    Program Op Res Err α → Journal Res → Prop
  | .ret value, items => returned value items
  | .fail error, items => failed error items
  | .perform op next, items =>
      before items op ∧ ∀ answer, (next answer).Narrates returned (⟨op, answer⟩ :: items)

variable {before failed}

theorem Narrates.bind {middle : α → Journal Res → Prop} {returned : β → Journal Res → Prop}
    {p : Program Op Res Err α} {f : α → Program Op Res Err β} {items : Journal Res}
    (hp : p.Narrates before failed middle items)
    (hf : ∀ value items', middle value items' → (f value).Narrates before failed returned items') :
    (p >>= f).Narrates before failed returned items := by
  induction p generalizing items with
  | ret value => exact hf value items hp
  | fail error => exact hp
  | perform op next ih =>
      obtain ⟨hbefore, hnext⟩ := hp
      exact ⟨hbefore, fun answer => ih answer (hnext answer)⟩

theorem Narrates.mono {returned returned' : α → Journal Res → Prop}
    (h : ∀ value items, returned value items → returned' value items)
    {p : Program Op Res Err α} {items : Journal Res}
    (hp : p.Narrates before failed returned items) :
    p.Narrates before failed returned' items := by
  induction p generalizing items with
  | ret value => exact h value items hp
  | fail error => exact hp
  | perform op next ih =>
      obtain ⟨hbefore, hnext⟩ := hp
      exact ⟨hbefore, fun answer => ih answer (hnext answer)⟩

theorem Only.narrates {P : Op → Prop} {kept : Journal Res → Prop}
    (hbefore : ∀ items op, P op → before items op)
    (hfailed : ∀ error items, kept items → failed error items)
    (hkept : ∀ items op answer, P op → kept items → kept (⟨op, answer⟩ :: items))
    {p : Program Op Res Err α} (hp : p.Only P) {items : Journal Res} (hitems : kept items) :
    p.Narrates before failed (fun _ items' => kept items') items := by
  induction p generalizing items with
  | ret value => exact hitems
  | fail error => exact hfailed error items hitems
  | perform op next ih =>
      obtain ⟨hop, hnext⟩ := hp
      refine ⟨hbefore items op hop, fun answer => ?_⟩
      exact ih answer (hnext answer) (hkept items op answer hop hitems)

theorem Narrates.only {P : Op → Prop} (h : ∀ items op, before items op → P op)
    {returned : α → Journal Res → Prop} {p : Program Op Res Err α} {items : Journal Res}
    (hp : p.Narrates before failed returned items) : p.Only P := by
  induction p generalizing items with
  | ret value => exact trivial
  | fail error => exact trivial
  | perform op next ih =>
      obtain ⟨hbefore, hnext⟩ := hp
      exact ⟨h items op hbefore, fun answer => ih answer (hnext answer)⟩

theorem narrates_of_forall (hbefore : ∀ items op, before items op)
    (hfailed : ∀ error items, failed error items) (p : Program Op Res Err α)
    (items : Journal Res) : p.Narrates before failed (fun _ _ => True) items :=
  Only.narrates (fun items op _ => hbefore items op) (fun error items _ => hfailed error items)
    (fun _ _ _ _ _ => trivial) (only_of_forall (fun _ => trivial) p) trivial

end Narrates

end Program

section Performed

variable {M : Machine World Choice Env Entry Res Err Out} {A : Assumption World Env Entry Res}

/-- An operation of the history was performed by its task in a configuration of the run,
and the run went on from there. -/
structure Performed (M : Machine World Choice Env Entry Res Err Out)
    (A : Assumption World Env Entry Res) (c₀ c : Config World Entry Res Err Out)
    (event : Event World Entry Res) (older : List (Event World Entry Res))
    (c₁ : Config World Entry Res Err Out) (next : Res event.op → Program Op Res Err Out)
    (after : World) : Prop where
  reached : M.Reaches A c₀ c₁
  state : c₁.state = ⟨event.before, older⟩
  task : c₁.tasks[event.task]? =
    some (⟨event.entry, .perform event.op next⟩ : Task Entry Res Err Out)
  assumed : A.act event.task event.entry event.op c₁.state = true
  exec : ∃ choice, M.exec event.op choice event.before = some (event.res, after)
  later : M.Reaches A
    { state := c₁.state.push event after
      tasks := c₁.tasks.set event.task ⟨event.entry, next event.res⟩ } c

theorem Performed.trans {c₀ c c' c₁ : Config World Entry Res Err Out}
    {event : Event World Entry Res} {older : List (Event World Entry Res)}
    {next : Res event.op → Program Op Res Err Out} {after : World}
    (h : Performed M A c₀ c event older c₁ next after) (hlater : M.Reaches A c c') :
    Performed M A c₀ c' event older c₁ next after :=
  { h with later := h.later.trans hlater }

theorem Machine.Reaches.performed {c₀ c : Config World Entry Res Err Out}
    (hreach : M.Reaches A c₀ c) (hnew : c₀.state.history = [])
    {newer older : List (Event World Entry Res)} {event : Event World Entry Res}
    (hsplit : c.state.history = newer ++ event :: older) :
    ∃ c₁ next after, Performed M A c₀ c event older c₁ next after := by
  induction hreach generalizing newer with
  | refl =>
      rw [hnew] at hsplit
      simp at hsplit
  | @tail c c' hreach hstep ih =>
      have hlast : M.Reaches A c c' := Relation.ReflTransGen.single hstep
      obtain ⟨label, hpermits, hlabel⟩ := hstep
      obtain ⟨entry, -, rfl⟩ | ⟨i, choice, entry, op, next, answer, world, rfl, htask, hexec,
        rfl⟩ | ⟨change, world, -, -, rfl⟩ | ⟨i, entry, op, next, -, -, rfl⟩ :=
          Machine.step_cases hlabel
      · obtain ⟨c₁, next, after, h⟩ := ih hsplit
        exact ⟨c₁, next, after, h.trans hlast⟩
      · rcases newer with _ | ⟨first, newer⟩
        · obtain ⟨rfl, rfl⟩ := List.cons.inj hsplit
          exact ⟨_, next, world,
            { reached := hreach
              state := rfl
              task := htask
              assumed := Assumption.act_of_permits hpermits htask
              exec := ⟨choice, hexec⟩
              later := Relation.ReflTransGen.refl }⟩
        · obtain ⟨c₁, next, after, h⟩ := ih (List.cons.inj hsplit).2
          exact ⟨c₁, next, after, h.trans hlast⟩
      · obtain ⟨c₁, next, after, h⟩ := ih hsplit
        exact ⟨c₁, next, after, h.trans hlast⟩
      · obtain ⟨c₁, next, after, h⟩ := ih hsplit
        exact ⟨c₁, next, after, h.trans hlast⟩

theorem Machine.Reaches.performed_item {c₀ c : Config World Entry Res Err Out}
    (hreach : M.Reaches A c₀ c) (hnew : c₀.state.history = []) {i : Nat} {op : Op}
    {answer : Res op} {items : Journal Res}
    (h : ⟨op, answer⟩ :: items <:+ journal i c.state.history) :
    ∃ newer entry before older c₁ next after,
      c.state.history = newer ++ ⟨i, entry, op, answer, before⟩ :: older ∧
      journal i older = items ∧
      Performed M A c₀ c ⟨i, entry, op, answer, before⟩ older c₁ next after := by
  obtain ⟨newer, event, older, hsplit, htask, hitem, hjournal⟩ := split_of_suffix h
  obtain ⟨c₁, next, after, hperformed⟩ := hreach.performed hnew hsplit
  obtain ⟨task, entry, op', answer', before⟩ := event
  obtain rfl : task = i := htask
  cases hitem
  exact ⟨newer, entry, before, older, c₁, next, after, hsplit, hjournal, hperformed⟩

end Performed

/-- The operation performed at a moment of a run, counted from its start. -/
def performedAt (history : List (Event World Entry Res)) (t : Nat) :
    Option (Event World Entry Res) :=
  history.reverse[t]?

section Moments

variable {history newer older : List (Event World Entry Res)} {event : Event World Entry Res}
  {t : Nat}

theorem split_of_performedAt (h : performedAt history t = some event) :
    ∃ newer older, history = newer ++ event :: older ∧ older.length = t := by
  obtain ⟨hlt, hevent⟩ := List.getElem?_eq_some_iff.mp h
  have hsplit := List.take_append_drop t history.reverse
  rw [List.drop_eq_getElem_cons hlt, hevent] at hsplit
  refine ⟨(history.reverse.drop (t + 1)).reverse, (history.reverse.take t).reverse, ?_, ?_⟩
  · have hreverse := congrArg List.reverse hsplit
    rw [List.reverse_reverse] at hreverse
    refine hreverse.symm.trans ?_
    simp
  · rw [List.length_reverse, List.length_take]
    omega

theorem performedAt_of_split (hsplit : history = newer ++ event :: older) :
    performedAt history older.length = some event := by
  rw [performedAt, hsplit, List.reverse_append, List.reverse_cons, List.append_assoc,
    List.getElem?_append_right (by simp)]
  simp

theorem mem_older_iff (hsplit : history = newer ++ event :: older)
    {earlier : Event World Entry Res} :
    earlier ∈ older ↔ ∃ t < older.length, performedAt history t = some earlier := by
  constructor
  · intro hmem
    obtain ⟨between, oldest, rfl⟩ := List.append_of_mem hmem
    refine ⟨oldest.length, by rw [List.length_append, List.length_cons]; omega, ?_⟩
    rw [← List.cons_append, ← List.append_assoc] at hsplit
    exact performedAt_of_split hsplit
  · rintro ⟨t, hlt, hearlier⟩
    rw [performedAt, hsplit, List.reverse_append, List.reverse_cons, List.append_assoc,
      List.getElem?_append_left (by simpa using hlt)] at hearlier
    exact List.mem_reverse.mp (List.mem_of_getElem? hearlier)

end Moments

section Runs

variable (M : Machine World Choice Env Entry Res Err Out)
  (before : Entry → Journal Res → Op → Prop) (failed : Entry → Err → Journal Res → Prop)
  (returned : Entry → Out → Journal Res → Prop)

/-- Every task of the configuration has kept to the narrative of its entry point, and
still does unless it was cancelled on the way. -/
structure Narrated (visits : List (Visit World Choice Env Entry Res Err Out))
    (c : Config World Entry Res Err Out) : Prop where
  tasks : ∀ (i : Nat) (entry : Entry) (rest : Program Op Res Err Out),
    c.tasks[i]? = some ⟨entry, rest⟩ →
      (rest = .fail M.cancelled ∧ ∃ c₁, (c₁, .cancel i) ∈ visits) ∨
      rest.Narrates (before entry) (failed entry) (returned entry)
        (journal i c.state.history)
  owners : ∀ event ∈ c.state.history, ∃ rest : Program Op Res Err Out,
    c.tasks[event.task]? = some ⟨event.entry, rest⟩

variable {M before failed returned} {c c' : Config World Entry Res Err Out}
  {visits : List (Visit World Choice Env Entry Res Err Out)}

theorem Narrated.fresh (h : Narrated M before failed returned visits c) :
    journal c.tasks.length c.state.history = [] := by
  apply journal_eq_nil_of_others
  intro event hevent hlength
  obtain ⟨rest, htask⟩ := h.owners event hevent
  rw [hlength, List.getElem?_eq_none (Nat.le_refl _)] at htask
  cases htask

theorem Narrated.initial (world : World) :
    Narrated M before failed returned [] (Config.initial world) where
  tasks i entry rest h := by simp [Config.initial] at h
  owners event h := by cases h

theorem Narrated.kept (h : Narrated M before failed returned visits c)
    {visit : Visit World Choice Env Entry Res Err Out} {i : Nat} {entry : Entry}
    {rest : Program Op Res Err Out} (htask : c.tasks[i]? = some ⟨entry, rest⟩) :
    (rest = .fail M.cancelled ∧ ∃ c₁, (c₁, .cancel i) ∈ visit :: visits) ∨
      rest.Narrates (before entry) (failed entry) (returned entry)
        (journal i c.state.history) := by
  rcases h.tasks i entry rest htask with ⟨hcancelled, c₁, hvisit⟩ | hnarrates
  · exact .inl ⟨hcancelled, c₁, List.mem_cons_of_mem _ hvisit⟩
  · exact .inr hnarrates

theorem Narrated.owners_set (h : Narrated M before failed returned visits c) {i : Nat}
    {entry : Entry} {rest rest' : Program Op Res Err Out}
    (htask : c.tasks[i]? = some ⟨entry, rest⟩) {event : Event World Entry Res}
    (hevent : event ∈ c.state.history) :
    ∃ rest'', (c.tasks.set i ⟨entry, rest'⟩)[event.task]? = some ⟨event.entry, rest''⟩ := by
  have hlt := (List.getElem?_eq_some_iff.mp htask).1
  obtain ⟨owned, howned⟩ := h.owners event hevent
  rcases eq_or_ne i event.task with heq | hne
  · rw [← heq, htask] at howned
    cases howned
    exact ⟨rest', by rw [← heq]; exact List.getElem?_set_self hlt⟩
  · exact ⟨owned, by rw [List.getElem?_set_ne hne]; exact howned⟩

theorem Narrated.step
    (hcode : ∀ entry, (M.code entry).Narrates (before entry) (failed entry) (returned entry) [])
    (h : Narrated M before failed returned visits c) {label : Label Choice Env Entry}
    (hstep : M.step c label = some c') :
    Narrated M before failed returned ((c, label) :: visits) c' := by
  obtain ⟨entry, rfl, rfl⟩ | ⟨i, choice, entry, op, next, answer, world, rfl, htask, -, rfl⟩ |
    ⟨change, world, rfl, -, rfl⟩ | ⟨i, entry, op, next, rfl, htask, rfl⟩ :=
      Machine.step_cases hstep
  · refine ⟨fun i entry' rest hi => ?_, fun event hevent => ?_⟩
    · rcases Nat.lt_or_ge i c.tasks.length with hlt | hge
      · rw [List.getElem?_append_left hlt] at hi
        exact h.kept hi
      · rw [List.getElem?_append_right hge, List.getElem?_singleton] at hi
        split at hi
        · -- A task that has just been started has done nothing yet.
          obtain rfl : i = c.tasks.length := by omega
          cases hi
          right
          rw [h.fresh]
          exact hcode entry
        · cases hi
    · obtain ⟨rest, hrest⟩ := h.owners event hevent
      have hlt := (List.getElem?_eq_some_iff.mp hrest).1
      exact ⟨rest, by rw [List.getElem?_append_left hlt]; exact hrest⟩
  · have hperformed : before entry (journal i c.state.history) op ∧ ∀ answer,
        (next answer).Narrates (before entry) (failed entry) (returned entry)
          (⟨op, answer⟩ :: journal i c.state.history) := by
      rcases h.tasks i entry _ htask with ⟨hcancelled, -⟩ | hnarrates
      · cases hcancelled
      · exact hnarrates
    have hlt := (List.getElem?_eq_some_iff.mp htask).1
    refine ⟨fun j entry' rest hj => ?_, ?_⟩
    · rcases eq_or_ne i j with rfl | hne
      · rw [List.getElem?_set_self hlt] at hj
        cases hj
        right
        rw [State.push_history, journal_cons_self]
        exact hperformed.2 answer
      · rw [List.getElem?_set_ne hne] at hj
        rw [State.push_history, journal_cons_other hne]
        exact h.kept hj
    · intro event hevent
      rcases List.mem_cons.mp hevent with rfl | hmem
      · exact ⟨next answer, List.getElem?_set_self hlt⟩
      · exact h.owners_set htask hmem
  · exact ⟨fun j entry' rest hj => h.kept hj, h.owners⟩
  · have hlt := (List.getElem?_eq_some_iff.mp htask).1
    refine ⟨fun j entry' rest hj => ?_, fun event hevent => h.owners_set htask hevent⟩
    rcases eq_or_ne i j with rfl | hne
    · rw [List.getElem?_set_self hlt] at hj
      cases hj
      exact .inl ⟨rfl, c, List.mem_cons_self⟩
    · rw [List.getElem?_set_ne hne] at hj
      exact h.kept hj

theorem Machine.Runs.narrated
    (hcode : ∀ entry, (M.code entry).Narrates (before entry) (failed entry) (returned entry) [])
    {world : World} (hruns : M.Runs (Config.initial world) visits c) :
    Narrated M before failed returned visits c := by
  induction hruns with
  | refl => exact .initial world
  | tail _ hstep ih => exact ih.step hcode hstep

theorem Narrated.next (h : Narrated M before failed returned visits c) {i : Nat}
    {entry : Entry} {op : Op} {next : Res op → Program Op Res Err Out}
    (htask : c.tasks[i]? = some ⟨entry, .perform op next⟩) :
    before entry (journal i c.state.history) op := by
  rcases h.tasks i entry _ htask with ⟨hcancelled, -⟩ | hnarrates
  · cases hcancelled
  · exact hnarrates.1

theorem Machine.Reaches.before_event
    (hcode : ∀ entry, (M.code entry).Narrates (before entry) (failed entry) (returned entry) [])
    {A : Assumption World Env Entry Res} {world : World}
    (hreach : M.Reaches A (Config.initial world) c)
    {newer older : List (Event World Entry Res)} {event : Event World Entry Res}
    (hsplit : c.state.history = newer ++ event :: older) :
    before event.entry (journal event.task older) event.op := by
  obtain ⟨c₁, next, after, hperformed⟩ := hreach.performed rfl hsplit
  obtain ⟨visits, hruns⟩ := hperformed.reached.runs
  have hbefore := (hruns.narrated hcode).next hperformed.task
  rwa [hperformed.state] at hbefore

/-- What the narrative says of a return is true of a task that has returned. -/
theorem Machine.Reaches.of_return
    (hcode : ∀ entry, (M.code entry).Narrates (before entry) (failed entry) (returned entry) [])
    {A : Assumption World Env Entry Res} {world : World}
    (hreach : M.Reaches A (Config.initial world) c) {i : Nat} {entry : Entry} {out : Out}
    (htask : c.tasks[i]? = some ⟨entry, .ret out⟩) :
    returned entry out (journal i c.state.history) := by
  obtain ⟨visits, hruns⟩ := hreach.runs
  rcases (hruns.narrated hcode).tasks i entry _ htask with ⟨hcancelled, -⟩ | hreturned
  · cases hcancelled
  · exact hreturned

theorem Machine.Reaches.entry_unique {A : Assumption World Env Entry Res} {world : World}
    (hreach : M.Reaches A (Config.initial world) c) {event event' : Event World Entry Res}
    (hevent : event ∈ c.state.history) (hevent' : event' ∈ c.state.history)
    (htask : event.task = event'.task) : event.entry = event'.entry := by
  obtain ⟨visits, hruns⟩ := hreach.runs
  have hcode : ∀ entry, (M.code entry).Narrates (fun _ _ => True) (fun _ _ => True)
      (fun _ _ => True) [] := fun entry =>
    Program.narrates_of_forall (fun _ _ => trivial) (fun _ _ => trivial) _ _
  have hnarrated := hruns.narrated hcode
  obtain ⟨rest, hrest⟩ := hnarrated.owners event hevent
  obtain ⟨rest', hrest'⟩ := hnarrated.owners event' hevent'
  rw [htask, hrest'] at hrest
  exact (congrArg Task.entry (Option.some.inj hrest)).symm

theorem Machine.Runs.cancelled {c₀ c₁ : Config World Entry Res Err Out}
    (hruns : M.Runs c₀ visits c) {i : Nat} (hvisit : (c₁, .cancel i) ∈ visits) :
    ∃ entry op next, c₁.tasks[i]? = some ⟨entry, .perform op next⟩ ∧
      c.tasks[i]? = some ⟨entry, .fail M.cancelled⟩ ∧
      journal i c.state.history = journal i c₁.state.history := by
  induction hruns with
  | refl => cases hvisit
  | @tail visits c c' label hruns hstep ih =>
      rcases List.mem_cons.mp hvisit with heq | hmem
      · obtain ⟨rfl, rfl⟩ := Prod.mk.inj heq
        obtain ⟨entry, op, next, htask, rfl⟩ := Machine.cancel_cases hstep
        have hlt := (List.getElem?_eq_some_iff.mp htask).1
        exact ⟨entry, op, next, htask, List.getElem?_set_self hlt, rfl⟩
      · obtain ⟨entry, op, next, hbefore, htask, hjournal⟩ := ih hmem
        refine ⟨entry, op, next, hbefore, ?_⟩
        have hlt := (List.getElem?_eq_some_iff.mp htask).1
        obtain ⟨entry', -, rfl⟩ | ⟨j, choice, entry', op', next', answer, world, -, hother, -,
          rfl⟩ | ⟨change, world, -, -, rfl⟩ | ⟨j, entry', op', next', -, hother, rfl⟩ :=
            Machine.step_cases hstep
        · exact ⟨by rw [List.getElem?_append_left hlt]; exact htask, hjournal⟩
        · have hne : j ≠ i := by
            rintro rfl
            rw [htask] at hother
            cases hother
          refine ⟨by rw [List.getElem?_set_ne hne]; exact htask, ?_⟩
          rw [State.push_history, journal_cons_other hne]
          exact hjournal
        · exact ⟨htask, hjournal⟩
        · have hne : j ≠ i := by
            rintro rfl
            rw [htask] at hother
            cases hother
          exact ⟨by rw [List.getElem?_set_ne hne]; exact htask, hjournal⟩

theorem Machine.Reaches.follows {shape : Entry → Program Op Res Err Out → Journal Res → Prop}
    (hcode : ∀ entry, (M.code entry).Narrates
      (fun items op => ∀ next, shape entry (.perform op next) items)
      (fun error items => shape entry (.fail error) items)
      (fun out items => shape entry (.ret out) items) [])
    (hcancelled : ∀ entry op next items, shape entry (.perform op next) items →
      shape entry (.fail M.cancelled) items)
    {A : Assumption World Env Entry Res} {world : World}
    (hreach : M.Reaches A (Config.initial world) c) {i : Nat} {entry : Entry}
    {rest : Program Op Res Err Out} (htask : c.tasks[i]? = some ⟨entry, rest⟩) :
    shape entry rest (journal i c.state.history) := by
  obtain ⟨visits, hruns⟩ := hreach.runs
  rcases (hruns.narrated hcode).tasks i entry rest htask with
    ⟨rfl, c₁, hvisit⟩ | hnarrates
  · obtain ⟨entry', op, next, hbefore, hafter, hjournal⟩ := hruns.cancelled hvisit
    rw [htask] at hafter
    cases hafter
    obtain ⟨visits₁, hruns₁⟩ := (hruns.visited hvisit).runs
    rw [hjournal]
    exact hcancelled entry op next _ ((hruns₁.narrated hcode).next hbefore next)
  · cases rest with
    | ret out => exact hnarrates
    | fail error => exact hnarrates
    | perform op next => exact hnarrates.1 next

end Runs

end Interleaving
