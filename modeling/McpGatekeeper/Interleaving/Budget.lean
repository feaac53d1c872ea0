import McpGatekeeper.Interleaving.Journal

namespace Interleaving

variable {World Choice Env Entry Op : Type} {Res : Op → Type} {Err Out α β : Type}

namespace Program

section Budget

variable (allowed holds : (op : Op) → Res op → Prop)

/-- On every path on which the answers are as `holds` says, the program performs at most so
many operations. -/
def Within : Program Op Res Err α → Nat → Prop
  | .ret _, _ => True
  | .fail _, _ => True
  | .perform _ _, 0 => False
  | .perform op next, n + 1 => ∀ answer, holds op answer → (next answer).Within n

/-- Wherever the program has got to on answers that are `allowed`, it is within the budget
from there on. -/
def Steady : Program Op Res Err α → Nat → Prop
  | .ret _, _ => True
  | .fail _, _ => True
  | .perform op next, n =>
      (Program.perform op next).Within holds n ∧
        ∀ answer, allowed op answer → (next answer).Steady n

variable {allowed holds}

theorem Within.mono {holds' : (op : Op) → Res op → Prop}
    (hholds : ∀ op answer, holds' op answer → holds op answer) {p : Program Op Res Err α}
    {m n : Nat} (h : p.Within holds m) (hmn : m ≤ n) : p.Within holds' n := by
  induction p generalizing m n with
  | ret value => exact trivial
  | fail error => exact trivial
  | perform op next ih =>
      cases m with
      | zero => exact h.elim
      | succ m =>
          obtain ⟨n, rfl⟩ := Nat.exists_eq_add_of_le' (Nat.one_le_of_lt hmn)
          intro answer hanswer
          exact ih answer (h answer (hholds op answer hanswer)) (Nat.le_of_succ_le_succ hmn)

theorem Within.bind {p : Program Op Res Err α} {f : α → Program Op Res Err β} {m n : Nat}
    (hp : p.Within holds m) (hf : ∀ value, (f value).Within holds n) :
    (p >>= f).Within holds (m + n) := by
  induction p generalizing m with
  | ret value => exact (hf value).mono (fun _ _ h => h) (Nat.le_add_left n m)
  | fail error => exact trivial
  | perform op next ih =>
      cases m with
      | zero => exact hp.elim
      | succ m =>
          rw [Nat.add_right_comm]
          exact fun answer hanswer => ih answer (hp answer hanswer)

theorem Within.bind_le {p : Program Op Res Err α} {f : α → Program Op Res Err β} {m n k : Nat}
    (hp : p.Within holds m) (h : m + n ≤ k) (hf : ∀ value, (f value).Within holds n) :
    (p >>= f).Within holds k :=
  (hp.bind hf).mono (fun _ _ h => h) h

theorem Steady.within {p : Program Op Res Err α} {n : Nat} (h : p.Steady allowed holds n) :
    p.Within holds n := by
  cases p with
  | ret value => exact trivial
  | fail error => exact trivial
  | perform op next => exact h.1

theorem Steady.mono {p : Program Op Res Err α} {m n : Nat} (h : p.Steady allowed holds m)
    (hmn : m ≤ n) : p.Steady allowed holds n := by
  induction p with
  | ret value => exact trivial
  | fail error => exact trivial
  | perform op next ih =>
      exact ⟨h.1.mono (fun _ _ h => h) hmn, fun answer hanswer => ih answer (h.2 answer hanswer)⟩

theorem Within.steady {p : Program Op Res Err α} {n : Nat} (h : p.Within (fun _ _ => True) n) :
    p.Steady allowed holds n := by
  induction p generalizing n with
  | ret value => exact trivial
  | fail error => exact trivial
  | perform op next ih =>
      cases n with
      | zero => exact h.elim
      | succ n =>
          refine ⟨h.mono (fun _ _ _ => trivial) (Nat.le_refl _), fun answer _ => ?_⟩
          exact (ih answer (h answer trivial)).mono (Nat.le_succ n)

theorem Steady.perform {op : Op} {next : Res op → Program Op Res Err α} {n : Nat}
    (h : ∀ answer, (next answer).Steady allowed holds n) :
    (Program.perform op next).Steady allowed holds (n + 1) :=
  ⟨fun answer _ => (h answer).within, fun answer _ => (h answer).mono (Nat.le_succ n)⟩

theorem Steady.bind {p : Program Op Res Err α} {f : α → Program Op Res Err β} {m n : Nat}
    (hp : p.Steady allowed holds m) (hf : ∀ value, (f value).Steady allowed holds n) :
    (p >>= f).Steady allowed holds (m + n) := by
  induction p with
  | ret value => exact (hf value).mono (Nat.le_add_left n m)
  | fail error => exact trivial
  | perform op next ih =>
      obtain ⟨hwithin, hnext⟩ := hp
      exact ⟨hwithin.bind fun value => (hf value).within,
        fun answer hanswer => ih answer (hnext answer hanswer)⟩

theorem Steady.bind_le {p : Program Op Res Err α} {f : α → Program Op Res Err β} {m n k : Nat}
    (hp : p.Steady allowed holds m) (h : m + n ≤ k)
    (hf : ∀ value, (f value).Steady allowed holds n) : (p >>= f).Steady allowed holds k :=
  (hp.bind hf).mono h

end Budget

end Program

section Runs

variable {M : Machine World Choice Env Entry Res Err Out} {A : Assumption World Env Entry Res}
  {allowed holds : (op : Op) → Res op → Prop}

theorem Machine.Reaches.steady {entry : Entry} {n : Nat}
    (hcode : (M.code entry).Steady allowed holds n) {c₀ c : Config World Entry Res Err Out}
    (hreach : M.Reaches A c₀ c) (hnew : c₀.tasks = []) {i : Nat} {rest : Program Op Res Err Out}
    (htask : c.tasks[i]? = some ⟨entry, rest⟩)
    (hallowed : ∀ item ∈ journal i c.state.history, allowed item.1 item.2) :
    rest.Steady allowed holds n := by
  induction hreach generalizing i rest with
  | refl => simp [hnew] at htask
  | @tail c c' _ hstep ih =>
      obtain ⟨label, -, hlabel⟩ := hstep
      obtain ⟨started, -, rfl⟩ | ⟨j, choice, acting, op, next, answer, world, -, hacting, -, rfl⟩ |
        ⟨change, world, -, -, rfl⟩ | ⟨j, cancelled, op, next, -, hcancelled, rfl⟩ :=
          Machine.step_cases hlabel
      · rw [List.getElem?_append] at htask
        split at htask
        · exact ih htask hallowed
        · rw [List.getElem?_singleton] at htask
          split at htask
          · cases htask
            exact hcode
          · cases htask
      · rw [State.push_history] at hallowed
        rcases eq_or_ne j i with rfl | hne
        · rw [List.getElem?_set_self (List.getElem?_eq_some_iff.mp hacting).1] at htask
          cases htask
          rw [journal_cons_self, List.forall_mem_cons] at hallowed
          exact (ih hacting hallowed.2).2 answer hallowed.1
        · rw [List.getElem?_set_ne hne] at htask
          rw [journal_cons_other hne] at hallowed
          exact ih htask hallowed
      · exact ih htask hallowed
      · rcases eq_or_ne j i with rfl | hne
        · rw [List.getElem?_set_self (List.getElem?_eq_some_iff.mp hcancelled).1] at htask
          cases htask
          exact trivial
        · rw [List.getElem?_set_ne hne] at htask
          exact ih htask hallowed

theorem Machine.Reaches.task {c₁ c : Config World Entry Res Err Out} (hreach : M.Reaches A c₁ c)
    {i : Nat} {entry : Entry} {rest : Program Op Res Err Out}
    (htask : c₁.tasks[i]? = some ⟨entry, rest⟩) :
    ∃ rest', c.tasks[i]? = some (⟨entry, rest'⟩ : Task Entry Res Err Out) := by
  induction hreach with
  | refl => exact ⟨rest, htask⟩
  | @tail c c' _ hstep ih =>
      obtain ⟨rest', htask'⟩ := ih
      obtain ⟨label, -, hlabel⟩ := hstep
      obtain ⟨started, -, rfl⟩ | ⟨j, choice, acting, op, next, answer, world, -, hacting, -, rfl⟩ |
        ⟨change, world, -, -, rfl⟩ | ⟨j, cancelled, op, next, -, hcancelled, rfl⟩ :=
          Machine.step_cases hlabel
      · exact ⟨rest', List.getElem?_append_left
          (List.getElem?_eq_some_iff.mp htask').1 |>.trans htask'⟩
      · rcases eq_or_ne j i with rfl | hne
        · obtain rfl := (Task.mk.inj (Option.some.inj (hacting.symm.trans htask'))).1
          exact ⟨_, List.getElem?_set_self (List.getElem?_eq_some_iff.mp hacting).1⟩
        · exact ⟨rest', by rw [List.getElem?_set_ne hne]; exact htask'⟩
      · exact ⟨rest', htask'⟩
      · rcases eq_or_ne j i with rfl | hne
        · obtain rfl := (Task.mk.inj (Option.some.inj (hcancelled.symm.trans htask'))).1
          exact ⟨_, List.getElem?_set_self (List.getElem?_eq_some_iff.mp hcancelled).1⟩
        · exact ⟨rest', by rw [List.getElem?_set_ne hne]; exact htask'⟩

theorem Machine.Reaches.within {c₁ c : Config World Entry Res Err Out}
    (hreach : M.Reaches A c₁ c) {i : Nat} {entry : Entry} {rest : Program Op Res Err Out}
    (htask : c₁.tasks[i]? = some ⟨entry, rest⟩) {n : Nat} (hwithin : rest.Within holds n)
    {newer : List (Event World Entry Res)}
    (hnewer : c.state.history = newer ++ c₁.state.history)
    (hholds : ∀ event ∈ newer, event.task = i → holds event.op event.res) :
    ∃ rest' m, c.tasks[i]? = some ⟨entry, rest'⟩ ∧ rest'.Within holds m ∧
      (journal i newer).length + m ≤ n := by
  induction hreach generalizing newer with
  | refl =>
      obtain rfl : newer = [] := by simpa using hnewer
      exact ⟨rest, n, htask, hwithin, by simp [journal]⟩
  | @tail c c' hreach hstep ih =>
      obtain ⟨label, -, hlabel⟩ := hstep
      obtain ⟨between, hbetween⟩ := Machine.Reaches.history hreach
      obtain ⟨started, -, rfl⟩ | ⟨j, choice, acting, op, next, answer, world, -, hacting, -, rfl⟩ |
        ⟨change, world, -, -, rfl⟩ | ⟨j, cancelled, op, next, -, hcancelled, rfl⟩ :=
          Machine.step_cases hlabel
      · obtain ⟨rest', m, htask', h⟩ := ih hnewer hholds
        exact ⟨rest', m, by rw [List.getElem?_append_left
          (List.getElem?_eq_some_iff.mp htask').1]; exact htask', h⟩
      · rw [State.push_history, ← hbetween, ← List.cons_append] at hnewer
        obtain rfl := List.append_cancel_right hnewer
        rw [List.forall_mem_cons] at hholds
        obtain ⟨rest', m, htask', hrest, hlength⟩ := ih hbetween.symm hholds.2
        -- Its own step takes one operation from the budget, a step of another task none.
        rcases eq_or_ne j i with rfl | hne
        · rw [hacting] at htask'
          cases htask'
          rw [List.getElem?_set_self (List.getElem?_eq_some_iff.mp hacting).1, journal_cons_self]
          cases m with
          | zero => exact hrest.elim
          | succ m =>
              exact ⟨next answer, m, rfl, hrest answer (hholds.1 rfl), by
                rw [List.length_cons]; omega⟩
        · rw [List.getElem?_set_ne hne, journal_cons_other hne]
          exact ⟨rest', m, htask', hrest, hlength⟩
      · exact ih hnewer hholds
      · obtain ⟨rest', m, htask', h⟩ := ih hnewer hholds
        rcases eq_or_ne j i with rfl | hne
        · rw [hcancelled] at htask'
          cases htask'
          refine ⟨_, m, List.getElem?_set_self (List.getElem?_eq_some_iff.mp hcancelled).1,
            trivial, h.2⟩
        · exact ⟨rest', m, by rw [List.getElem?_set_ne hne]; exact htask', h⟩

/-- A task performs no more than its budget from a moment on, if it has been answered as is
allowed until then, and as the budget supposes since. -/
theorem Machine.Reaches.spends {entry : Entry} {n : Nat}
    (hcode : (M.code entry).Steady allowed holds n) {c₀ c₁ c : Config World Entry Res Err Out}
    (hreach : M.Reaches A c₀ c₁) (hnew : c₀.tasks = []) (hlater : M.Reaches A c₁ c) {i : Nat}
    {rest : Program Op Res Err Out} (htask : c₁.tasks[i]? = some ⟨entry, rest⟩)
    (hallowed : ∀ item ∈ journal i c₁.state.history, allowed item.1 item.2)
    (hholds : ∀ newer, c.state.history = newer ++ c₁.state.history →
      ∀ event ∈ newer, event.task = i → holds event.op event.res) :
    (journal i c.state.history).length ≤ (journal i c₁.state.history).length + n := by
  obtain ⟨newer, hnewer⟩ := Machine.Reaches.history hlater
  have hsteady := hreach.steady hcode hnew htask hallowed
  obtain ⟨-, m, -, -, hlength⟩ :=
    hlater.within htask hsteady.within hnewer.symm (hholds newer hnewer.symm)
  rw [← hnewer, journal_append, List.length_append]
  omega

theorem Machine.Reaches.since {c₁ c : Config World Entry Res Err Out} (hreach : M.Reaches A c₁ c)
    {newer : List (Event World Entry Res)}
    (hnewer : c.state.history = newer ++ c₁.state.history) {event : Event World Entry Res}
    (hevent : event ∈ newer) :
    ∃ c₂, M.Reaches A c₁ c₂ ∧ c₂.state.world = event.before ∧
      ∃ choice after, M.exec event.op choice event.before = some (event.res, after) := by
  induction hreach generalizing newer with
  | refl =>
      obtain rfl : newer = [] := by simpa using hnewer
      cases hevent
  | @tail c c' hreach hstep ih =>
      obtain ⟨label, -, hlabel⟩ := hstep
      obtain ⟨between, hbetween⟩ := Machine.Reaches.history hreach
      obtain ⟨started, -, rfl⟩ | ⟨j, choice, acting, op, next, answer, world, -, -, hexec, rfl⟩ |
        ⟨change, world, -, -, rfl⟩ | ⟨j, cancelled, op, next, -, -, rfl⟩ :=
          Machine.step_cases hlabel
      · exact ih hnewer hevent
      · rw [State.push_history, ← hbetween, ← List.cons_append] at hnewer
        obtain rfl := List.append_cancel_right hnewer
        rcases List.mem_cons.mp hevent with rfl | hevent
        · exact ⟨c, hreach, rfl, choice, world, hexec⟩
        · exact ih hbetween.symm hevent
      · exact ih hnewer hevent
      · exact ih hnewer hevent

end Runs

end Interleaving
