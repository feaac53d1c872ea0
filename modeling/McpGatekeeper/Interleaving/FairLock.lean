import Mathlib.Data.List.Nodup
import McpGatekeeper.Interleaving.Machine

/-!
A lock that is granted in the order it is asked for.

Some operations of a pool need the lock.  A task asks for it as soon as it comes to such an
operation, waits in line, and performs the operation when it is the first there; a task
that is abandoned leaves the line.  Every run under the lock is a run of the pool.
-/

namespace Interleaving

section Definitions

variable (World Entry : Type) {Op : Type} (Res : Op → Type) (Err Out : Type)

structure Line where
  config : Config World Entry Res Err Out
  waiting : List Nat

end Definitions

variable {World Choice Env Entry Op : Type} {Res : Op → Type} {Err Out : Type}

def Line.initial (world : World) : Line World Entry Res Err Out :=
  { config := .initial world, waiting := [] }

def Program.head : Program Op Res Err Out → Option Op
  | .perform op _ => some op
  | _ => none

/-- The operation a task is about to perform. -/
def Config.upcoming (c : Config World Entry Res Err Out) (i : Nat) : Option Op :=
  c.tasks[i]?.bind fun task => task.rest.head

def Config.moved (c : Config World Entry Res Err Out) :
    Label Choice Env Entry → Option Nat
  | .start _ => some c.tasks.length
  | .act i _ => some i
  | .env _ => none
  | .cancel i => some i

/-- The operations that wait for the lock, first come first. -/
def Line.ops (q : Line World Entry Res Err Out) : List Op :=
  q.waiting.filterMap q.config.upcoming

theorem upcoming_of_task {c : Config World Entry Res Err Out} {i : Nat}
    {task : Task Entry Res Err Out} (h : c.tasks[i]? = some task) :
    c.upcoming i = task.rest.head := by
  rw [Config.upcoming, h]
  rfl

theorem lt_of_upcoming {c : Config World Entry Res Err Out} {i : Nat} {op : Op}
    (h : c.upcoming i = some op) : i < c.tasks.length := by
  obtain ⟨task, htask, -⟩ := Option.bind_eq_some_iff.mp h
  exact (List.getElem?_eq_some_iff.mp htask).1

theorem step_task {M : Machine World Choice Env Entry Res Err Out}
    {c c' : Config World Entry Res Err Out} {label : Label Choice Env Entry}
    (h : M.step c label = some c') {j : Nat} (hj : c.moved label ≠ some j) :
    c'.tasks[j]? = c.tasks[j]? := by
  obtain ⟨entry, rfl, rfl⟩ | ⟨i, choice, entry, op, next, answer, world, rfl, -, -, rfl⟩ |
    ⟨change, world, rfl, -, rfl⟩ | ⟨i, entry, op, next, rfl, -, rfl⟩ := Machine.step_cases h
  · have hne : c.tasks.length ≠ j := fun heq => hj (congrArg some heq)
    rcases Nat.lt_or_ge j c.tasks.length with hlt | hge
    · rw [List.getElem?_append_left hlt]
    · rw [List.getElem?_eq_none hge, List.getElem?_eq_none (by simp; omega)]
  · exact List.getElem?_set_ne fun heq => hj (congrArg some heq)
  · rfl
  · exact List.getElem?_set_ne fun heq => hj (congrArg some heq)

theorem step_upcoming {M : Machine World Choice Env Entry Res Err Out}
    {c c' : Config World Entry Res Err Out} {label : Label Choice Env Entry}
    (h : M.step c label = some c') {j : Nat} (hj : c.moved label ≠ some j) :
    c'.upcoming j = c.upcoming j := by
  rw [Config.upcoming, step_task h hj, Config.upcoming]

section Lock

variable (guarded : Op → Bool)

/-- The task has come to an operation that needs the lock. -/
def Config.asks (c : Config World Entry Res Err Out) (i : Nat) : Bool :=
  (c.upcoming i).any guarded

/-- Who still waits when a label is taken; `none` when it has to wait itself. -/
def Line.grant (q : Line World Entry Res Err Out) : Label Choice Env Entry → Option (List Nat)
  | .start _ => some q.waiting
  | .act i _ =>
      if q.config.asks guarded i then
        match q.waiting with
        | [] => none
        | first :: waiting => if first = i then some waiting else none
      else some q.waiting
  | .env _ => some q.waiting
  | .cancel i => some (q.waiting.filter (· != i))

/-- A step of the pool; a task that comes to an operation under the lock joins the line. -/
def Machine.stepInLine (M : Machine World Choice Env Entry Res Err Out)
    (q : Line World Entry Res Err Out) (label : Label Choice Env Entry) :
    Option (Line World Entry Res Err Out) :=
  (q.grant guarded label).bind fun waiting =>
    (M.step q.config label).map fun c =>
      { config := c
        waiting := waiting ++ ((q.config.moved label).filter (c.asks guarded)).toList }

def Machine.runInLine (M : Machine World Choice Env Entry Res Err Out)
    (A : Assumption World Env Entry Res) (q : Line World Entry Res Err Out) :
    List (Label Choice Env Entry) → Option (Line World Entry Res Err Out)
  | [] => some q
  | label :: labels =>
      if A.permits q.config label then
        (M.stepInLine guarded q label).bind fun q' => runInLine M A q' labels
      else none

def Machine.StepsInLine (M : Machine World Choice Env Entry Res Err Out)
    (A : Assumption World Env Entry Res) (q q' : Line World Entry Res Err Out) : Prop :=
  ∃ label, A.permits q.config label = true ∧ M.stepInLine guarded q label = some q'

def Machine.ReachesInLine (M : Machine World Choice Env Entry Res Err Out)
    (A : Assumption World Env Entry Res) :
    Line World Entry Res Err Out → Line World Entry Res Err Out → Prop :=
  Relation.ReflTransGen (M.StepsInLine guarded A)

/-- Exactly the tasks that ask for the lock wait for it, each at one place. -/
structure Line.Orderly (q : Line World Entry Res Err Out) : Prop where
  nodup : q.waiting.Nodup
  mem_iff : ∀ i, i ∈ q.waiting ↔ q.config.asks guarded i = true

variable {guarded} {M : Machine World Choice Env Entry Res Err Out}
  {A : Assumption World Env Entry Res} {q q' : Line World Entry Res Err Out}
  {label : Label Choice Env Entry}

theorem Machine.stepInLine_eq_some (h : M.stepInLine guarded q label = some q') :
    ∃ waiting, q.grant guarded label = some waiting ∧
      M.step q.config label = some q'.config ∧
      q'.waiting = waiting ++ ((q.config.moved label).filter (q'.config.asks guarded)).toList := by
  obtain ⟨waiting, hgrant, hmap⟩ := Option.bind_eq_some_iff.mp h
  obtain ⟨c, hstep, rfl⟩ := Option.map_eq_some_iff.mp hmap
  exact ⟨waiting, hgrant, hstep, rfl⟩

/-- Waiting in line only delays: what happens under the lock happens in the pool. -/
theorem Machine.ReachesInLine.reaches (h : M.ReachesInLine guarded A q q') :
    M.Reaches A q.config q'.config := by
  induction h with
  | refl => exact Relation.ReflTransGen.refl
  | tail _ hstep ih =>
      obtain ⟨label, hpermits, hstep⟩ := hstep
      obtain ⟨-, -, hstep, -⟩ := Machine.stepInLine_eq_some hstep
      exact ih.tail ⟨label, hpermits, hstep⟩

theorem Machine.reachesInLine_of_run {labels : List (Label Choice Env Entry)}
    (h : M.runInLine guarded A q labels = some q') : M.ReachesInLine guarded A q q' := by
  induction labels generalizing q with
  | nil =>
      obtain rfl : q = q' := by simpa [runInLine] using h
      exact Relation.ReflTransGen.refl
  | cons label labels ih =>
      rw [runInLine] at h
      split at h
      · rename_i hpermits
        obtain ⟨next, hstep, hrun⟩ := Option.bind_eq_some_iff.mp h
        exact Relation.ReflTransGen.head ⟨label, hpermits, hstep⟩ (ih hrun)
      · cases h

theorem Machine.reachesInLine_get {labels : List (Label Choice Env Entry)}
    (h : (M.runInLine guarded A q labels).isSome = true) :
    M.ReachesInLine guarded A q ((M.runInLine guarded A q labels).get h) :=
  Machine.reachesInLine_of_run (Option.some_get h).symm

theorem Line.Orderly.initial (world : World) :
    (Line.initial world : Line World Entry Res Err Out).Orderly guarded where
  nodup := List.nodup_nil
  mem_iff i := by simp [Line.initial, Config.initial, Config.asks, Config.upcoming]

theorem Line.Orderly.grant_eq (h : q.Orderly guarded) {waiting : List Nat}
    (hgrant : q.grant guarded label = some waiting) :
    waiting = q.waiting.filter fun j => q.config.moved label != some j := by
  cases label with
  | start entry =>
      -- Whoever waits has been there before.
      cases hgrant
      refine (List.filter_eq_self.mpr fun j hj => ?_).symm
      obtain ⟨op, hop, -⟩ := (Option.any_eq_true _ _).mp ((h.mem_iff j).mp hj)
      have hlt := lt_of_upcoming hop
      simp only [Config.moved, bne_iff_ne, ne_eq, Option.some.injEq]
      omega
  | act i choice =>
      simp only [Line.grant] at hgrant
      split at hgrant
      · split at hgrant
        · cases hgrant
        · rename_i first rest hwaiting
          split at hgrant
          · rename_i hfirst
            cases hgrant
            subst hfirst
            have hnodup := h.nodup
            rw [hwaiting, List.nodup_cons] at hnodup
            rw [hwaiting, List.filter_cons_of_neg (by simp [Config.moved])]
            refine (List.filter_eq_self.mpr fun j hj => ?_).symm
            have hne : first ≠ j := fun heq => hnodup.1 (heq ▸ hj)
            simpa [Config.moved] using hne
          · cases hgrant
      · rename_i hasks
        cases hgrant
        refine (List.filter_eq_self.mpr fun j hj => ?_).symm
        have hne : i ≠ j := fun heq => hasks ((h.mem_iff i).mp (heq ▸ hj))
        simpa [Config.moved] using hne
  | env change =>
      cases hgrant
      exact (List.filter_eq_self.mpr fun j hj => rfl).symm
  | cancel i =>
      cases hgrant
      congr 1
      funext j
      simp [Config.moved, bne, Bool.beq_comm]

theorem Line.Orderly.step (h : q.Orderly guarded)
    (hstep : M.stepInLine guarded q label = some q') : q'.Orderly guarded := by
  obtain ⟨waiting, hgrant, hconfig, hwaiting⟩ := Machine.stepInLine_eq_some hstep
  rw [h.grant_eq hgrant] at hwaiting
  have hmem : ∀ j, j ∈ q'.waiting ↔ q'.config.asks guarded j = true := by
    intro j
    rw [hwaiting, List.mem_append, List.mem_filter, Option.mem_toList,
      Option.filter_eq_some_iff]
    rcases eq_or_ne (q.config.moved label) (some j) with heq | hne
    · simp [heq]
    · have hkept : q'.config.asks guarded j = q.config.asks guarded j := by
        rw [Config.asks, step_upcoming hconfig hne, Config.asks]
      simp [hne, hkept, h.mem_iff j]
  refine ⟨?_, hmem⟩
  rw [hwaiting, List.nodup_append]
  refine ⟨h.nodup.filter _, ?_, ?_⟩
  · cases (q.config.moved label).filter (q'.config.asks guarded) <;> simp
  · intro j hj j' hj'
    rw [Option.mem_toList, Option.filter_eq_some_iff] at hj'
    rintro rfl
    simp [hj'.1] at hj

theorem Line.ops_of_step (h : q.Orderly guarded)
    (hstep : M.stepInLine guarded q label = some q') :
    q'.ops = ((q.waiting.filter fun j => q.config.moved label != some j).filterMap
      q.config.upcoming) ++
        (((q.config.moved label).bind q'.config.upcoming).filter guarded).toList := by
  obtain ⟨waiting, hgrant, hconfig, hwaiting⟩ := Machine.stepInLine_eq_some hstep
  rw [Line.ops, hwaiting, h.grant_eq hgrant, List.filterMap_append]
  congr 1
  · apply List.filterMap_congr
    intro j hj
    exact step_upcoming hconfig (by simpa using (List.mem_filter.mp hj).2)
  · rcases q.config.moved label with _ | i
    · rfl
    · rw [Option.bind_some]
      rcases hop : q'.config.upcoming i with _ | op
      · simp [Option.filter, Config.asks, hop]
      · cases hguarded : guarded op <;> simp [Option.filter, Config.asks, hop, hguarded]

theorem Machine.stepInLine_cases (h : q.Orderly guarded)
    (hstep : M.stepInLine guarded q label = some q') :
    (∃ entry, label = .start entry ∧ q'.config.state = q.config.state ∧
      q'.ops = q.ops ++ ((M.code entry).head.filter guarded).toList) ∨
    (∃ i choice entry op next answer world older, label = .act i choice ∧
      q.config.tasks[i]? = some ⟨entry, .perform op next⟩ ∧
      M.exec op choice q.config.state.world = some (answer, world) ∧
      q'.config.state = q.config.state.push ⟨i, entry, op, answer, q.config.state.world⟩ world ∧
      q'.config.tasks[i]? = some ⟨entry, next answer⟩ ∧
      q.ops = ((some op).filter guarded).toList ++ older ∧
      q'.ops = older ++ ((next answer).head.filter guarded).toList) ∨
    (∃ change world, label = .env change ∧ M.env change q.config.state.world = some world ∧
      q'.config.state = { q.config.state with world := world } ∧ q'.ops = q.ops) ∨
    (∃ i, label = .cancel i ∧ q'.config.state = q.config.state ∧ q'.ops.Sublist q.ops) := by
  have hops := Line.ops_of_step h hstep
  obtain ⟨waiting, hgrant, hconfig, -⟩ := Machine.stepInLine_eq_some hstep
  have hwaiting := h.grant_eq hgrant
  rw [← hwaiting] at hops
  obtain ⟨entry, rfl, hc⟩ | ⟨i, choice, entry, op, next, answer, world, rfl, htask, hexec, hc⟩ |
    ⟨change, world, rfl, henv, hc⟩ | ⟨i, entry, op, next, rfl, htask, hc⟩ :=
      Machine.step_cases hconfig
  · cases hgrant
    refine .inl ⟨entry, rfl, by rw [hc], ?_⟩
    rw [hops]
    simp [Config.moved, hc, Config.upcoming, Line.ops]
  · have hlt := (List.getElem?_eq_some_iff.mp htask).1
    have hafter : q'.config.tasks[i]? = some ⟨entry, next answer⟩ := by
      rw [hc]
      exact List.getElem?_set_self hlt
    refine .inr (.inl ⟨i, choice, entry, op, next, answer, world,
      waiting.filterMap q.config.upcoming, rfl, htask, hexec, by rw [hc], hafter, ?_, ?_⟩)
    · have hupcoming : q.config.upcoming i = some op := upcoming_of_task htask
      simp only [Line.grant, Config.asks, hupcoming, Option.any_some] at hgrant
      split at hgrant
      · rename_i hguarded
        split at hgrant
        · cases hgrant
        · rename_i first rest hline
          split at hgrant
          · rename_i hfirst
            cases hgrant
            rw [Line.ops, hline, hfirst, List.filterMap_cons, hupcoming]
            simp [Option.filter, hguarded]
          · cases hgrant
      · rename_i hguarded
        cases hgrant
        simp [Option.filter, hguarded, Line.ops]
    · rw [hops]
      simp only [Config.moved, Option.bind_some, upcoming_of_task hafter]
  · cases hgrant
    refine .inr (.inr (.inl ⟨change, world, rfl, henv, by rw [hc], ?_⟩))
    rw [hops]
    simp [Config.moved, Line.ops]
  · refine .inr (.inr (.inr ⟨i, rfl, by rw [hc], ?_⟩))
    have hlt := (List.getElem?_eq_some_iff.mp htask).1
    have hafter : q'.config.tasks[i]? = some ⟨entry, .fail M.cancelled⟩ := by
      rw [hc]
      exact List.getElem?_set_self hlt
    rw [hops, hwaiting]
    simp only [Config.moved, Option.bind_some, upcoming_of_task hafter, Program.head]
    simpa [Line.ops] using List.Sublist.filterMap _ List.filter_sublist

end Lock

end Interleaving
