import Mathlib.Logic.Relation
import McpGatekeeper.Interleaving.Program

/-!
A pool of programs whose operations interleave over one shared world.

The scheduler and the surroundings are labels: which task moves next, what the
outside world answers it, when a new task arrives or one is abandoned, and what
the surroundings do to the world by themselves.  A run is a list of labels, so a
concrete run can be evaluated and two runs can be given the same surroundings.
-/

namespace Interleaving

section Definitions

variable (World Choice Env Entry : Type) {Op : Type} (Res : Op → Type) (Err Out : Type)

/-- One executed operation, as the history keeps it: who performed it, what it
was answered, and the world it found. -/
structure Event where
  task : Nat
  entry : Entry
  op : Op
  res : Res op
  before : World

structure State where
  world : World
  history : List (Event World Entry Res)

structure Task where
  entry : Entry
  rest : Program Op Res Err Out

structure Config where
  state : State World Entry Res
  tasks : List (Task Entry Res Err Out)

inductive Label
  | start (entry : Entry)
  | act (task : Nat) (choice : Choice)
  | env (change : Env)
  | cancel (task : Nat)

/-- The code behind every entry point and the meaning of every operation.  An
operation may need a `choice` from the surroundings, and is refused with
`none` when the choice does not fit. -/
structure Machine where
  code : Entry → Program Op Res Err Out
  exec : (op : Op) → Choice → World → Option (Res op × World)
  env : Env → World → Option World
  cancelled : Err

end Definitions

variable {World Choice Env Entry Op : Type} {Res : Op → Type} {Err Out : Type}

def State.push (s : State World Entry Res) (event : Event World Entry Res)
    (world : World) : State World Entry Res :=
  { world := world, history := event :: s.history }

@[simp] theorem State.push_world (s : State World Entry Res)
    (event : Event World Entry Res) (world : World) :
    (s.push event world).world = world := rfl

@[simp] theorem State.push_history (s : State World Entry Res)
    (event : Event World Entry Res) (world : World) :
    (s.push event world).history = event :: s.history := rfl

def Config.initial (world : World) : Config World Entry Res Err Out :=
  { state := { world := world, history := [] }, tasks := [] }

namespace Machine

variable (M : Machine World Choice Env Entry Res Err Out)

/-- The effect of one label; `none` when the label is not possible here. -/
def step (c : Config World Entry Res Err Out) :
    Label Choice Env Entry → Option (Config World Entry Res Err Out)
  | .start entry =>
      some { c with tasks := c.tasks ++ [{ entry := entry, rest := M.code entry }] }
  | .act i choice =>
      match c.tasks[i]? with
      | some ⟨entry, .perform op next⟩ =>
          (M.exec op choice c.state.world).map fun answer =>
            { state := c.state.push ⟨i, entry, op, answer.1, c.state.world⟩ answer.2
              tasks := c.tasks.set i ⟨entry, next answer.1⟩ }
      | _ => none
  | .env change =>
      (M.env change c.state.world).map fun world =>
        { c with state := { c.state with world := world } }
  | .cancel i =>
      match c.tasks[i]? with
      | some ⟨entry, .perform _ _⟩ =>
          some { c with tasks := c.tasks.set i ⟨entry, .fail M.cancelled⟩ }
      | _ => none

end Machine

/-- What is assumed of the steps of a run: a test of every operation about to be
performed, and of every change the surroundings are about to make. -/
structure Assumption (World Env Entry : Type) {Op : Type} (Res : Op → Type) where
  act : Nat → Entry → Op → State World Entry Res → Bool
  env : Env → State World Entry Res → Bool

def Assumption.none : Assumption World Env Entry Res where
  act _ _ _ _ := true
  env _ _ := true

def Assumption.permits (A : Assumption World Env Entry Res)
    (c : Config World Entry Res Err Out) : Label Choice Env Entry → Bool
  | .start _ => true
  | .act i _ =>
      match c.tasks[i]? with
      | some ⟨entry, .perform op _⟩ => A.act i entry op c.state
      | _ => true
  | .env change => A.env change c.state
  | .cancel _ => true

theorem Assumption.permits_none (c : Config World Entry Res Err Out)
    (label : Label Choice Env Entry) :
    (Assumption.none : Assumption World Env Entry Res).permits c label = true := by
  cases label with
  | act i choice =>
      simp only [permits]
      split <;> rfl
  | start | env | cancel => rfl

theorem Assumption.act_of_permits {A : Assumption World Env Entry Res}
    {c : Config World Entry Res Err Out} {i : Nat} {choice : Choice} {entry : Entry}
    {op : Op} {next : Res op → Program Op Res Err Out}
    (h : A.permits c (.act i choice : Label Choice Env Entry) = true)
    (htask : c.tasks[i]? = some ⟨entry, .perform op next⟩) :
    A.act i entry op c.state = true := by
  simpa [permits, htask] using h

namespace Machine

variable (M : Machine World Choice Env Entry Res Err Out)

/-- Run the labels one after another; `none` as soon as one is not possible or not
permitted. -/
def run (A : Assumption World Env Entry Res) (c : Config World Entry Res Err Out) :
    List (Label Choice Env Entry) → Option (Config World Entry Res Err Out)
  | [] => some c
  | label :: labels =>
      if A.permits c label then (M.step c label).bind fun c' => run A c' labels else none

def Steps (A : Assumption World Env Entry Res)
    (c c' : Config World Entry Res Err Out) : Prop :=
  ∃ label, A.permits c label = true ∧ M.step c label = some c'

def Reaches (A : Assumption World Env Entry Res) :
    Config World Entry Res Err Out → Config World Entry Res Err Out → Prop :=
  Relation.ReflTransGen (M.Steps A)

variable {M}

theorem reaches_of_run {A : Assumption World Env Entry Res}
    {labels : List (Label Choice Env Entry)} {c c' : Config World Entry Res Err Out}
    (h : M.run A c labels = some c') : M.Reaches A c c' := by
  induction labels generalizing c with
  | nil =>
      obtain rfl : c = c' := by simpa [run] using h
      exact Relation.ReflTransGen.refl
  | cons label labels ih =>
      rw [run] at h
      split at h
      · rename_i hpermits
        obtain ⟨next, hstep, hrun⟩ := Option.bind_eq_some_iff.mp h
        exact Relation.ReflTransGen.head ⟨label, hpermits, hstep⟩ (ih hrun)
      · cases h

theorem reaches_get {A : Assumption World Env Entry Res}
    {labels : List (Label Choice Env Entry)} {c : Config World Entry Res Err Out}
    (h : (M.run A c labels).isSome = true) :
    M.Reaches A c ((M.run A c labels).get h) :=
  reaches_of_run (Option.some_get h).symm

theorem step_act {i : Nat} {choice : Choice} {entry : Entry} {op : Op}
    {next : Res op → Program Op Res Err Out} {answer : Res op} {world : World}
    {c : Config World Entry Res Err Out}
    (htask : c.tasks[i]? = some ⟨entry, .perform op next⟩)
    (hexec : M.exec op choice c.state.world = some (answer, world)) :
    M.step c (.act i choice) =
      some { state := c.state.push ⟨i, entry, op, answer, c.state.world⟩ world
             tasks := c.tasks.set i ⟨entry, next answer⟩ } := by
  simp [step, htask, hexec]

theorem step_env {change : Env} {world : World} {c : Config World Entry Res Err Out}
    (henv : M.env change c.state.world = some world) :
    M.step c (.env change) = some { c with state := { c.state with world := world } } := by
  simp [step, henv]

theorem step_cancel {i : Nat} {entry : Entry} {op : Op}
    {next : Res op → Program Op Res Err Out} {c : Config World Entry Res Err Out}
    (htask : c.tasks[i]? = some ⟨entry, .perform op next⟩) :
    M.step c (.cancel i) = some { c with tasks := c.tasks.set i ⟨entry, .fail M.cancelled⟩ } := by
  simp [step, htask]

theorem act_cases {i : Nat} {choice : Choice} {c c' : Config World Entry Res Err Out}
    (h : M.step c (.act i choice) = some c') :
    ∃ entry op next answer world,
      c.tasks[i]? = some ⟨entry, .perform op next⟩ ∧
      M.exec op choice c.state.world = some (answer, world) ∧
      c' = { state := c.state.push ⟨i, entry, op, answer, c.state.world⟩ world
             tasks := c.tasks.set i ⟨entry, next answer⟩ } := by
  simp only [step] at h
  split at h
  · rename_i entry op next htask
    obtain ⟨⟨answer, world⟩, hexec, hc'⟩ := Option.map_eq_some_iff.mp h
    exact ⟨entry, op, next, answer, world, htask, hexec, hc'.symm⟩
  · cases h

theorem cancel_cases {i : Nat} {c c' : Config World Entry Res Err Out}
    (h : M.step c (.cancel i) = some c') :
    ∃ entry op next, c.tasks[i]? = some ⟨entry, .perform op next⟩ ∧
      c' = { c with tasks := c.tasks.set i ⟨entry, .fail M.cancelled⟩ } := by
  simp only [step] at h
  split at h
  · rename_i entry op next htask
    exact ⟨entry, op, next, htask, (Option.some.inj h).symm⟩
  · cases h

theorem step_cases {label : Label Choice Env Entry}
    {c c' : Config World Entry Res Err Out} (h : M.step c label = some c') :
    (∃ entry, label = .start entry ∧
      c' = { c with tasks := c.tasks ++ [⟨entry, M.code entry⟩] }) ∨
    (∃ i choice entry op next answer world, label = .act i choice ∧
      c.tasks[i]? = some ⟨entry, .perform op next⟩ ∧
      M.exec op choice c.state.world = some (answer, world) ∧
      c' = { state := c.state.push ⟨i, entry, op, answer, c.state.world⟩ world
             tasks := c.tasks.set i ⟨entry, next answer⟩ }) ∨
    (∃ change world, label = .env change ∧
      M.env change c.state.world = some world ∧
      c' = { c with state := { c.state with world := world } }) ∨
    (∃ i entry op next, label = .cancel i ∧
      c.tasks[i]? = some ⟨entry, .perform op next⟩ ∧
      c' = { c with tasks := c.tasks.set i ⟨entry, .fail M.cancelled⟩ }) := by
  cases label with
  | start entry =>
      exact .inl ⟨entry, rfl, (Option.some.inj h).symm⟩
  | act i choice =>
      obtain ⟨entry, op, next, answer, world, hact⟩ := act_cases h
      exact .inr (.inl ⟨i, choice, entry, op, next, answer, world, rfl, hact⟩)
  | env change =>
      obtain ⟨world, henv, hc'⟩ := Option.map_eq_some_iff.mp h
      exact .inr (.inr (.inl ⟨change, world, rfl, henv, hc'.symm⟩))
  | cancel i =>
      obtain ⟨entry, op, next, hcancel⟩ := cancel_cases h
      exact .inr (.inr (.inr ⟨i, entry, op, next, rfl, hcancel⟩))

theorem tasks_length {label : Label Choice Env Entry}
    {c c' : Config World Entry Res Err Out} (h : M.step c label = some c') :
    c.tasks.length ≤ c'.tasks.length := by
  obtain ⟨entry, -, rfl⟩ | ⟨i, choice, entry, op, next, answer, world, -, -, -, rfl⟩ |
    ⟨change, world, -, -, rfl⟩ | ⟨i, entry, op, next, -, -, rfl⟩ := step_cases h
  · simp
  · simp
  · exact Nat.le_refl _
  · simp

theorem Reaches.history {A : Assumption World Env Entry Res}
    {c c' : Config World Entry Res Err Out} (h : M.Reaches A c c') :
    c.state.history <:+ c'.state.history := by
  induction h with
  | refl => exact List.suffix_refl _
  | tail _ hstep ih =>
      obtain ⟨label, -, hstep⟩ := hstep
      refine ih.trans ?_
      obtain ⟨entry, -, rfl⟩ | ⟨i, choice, entry, op, next, answer, world, -, -, -, rfl⟩ |
        ⟨change, world, -, -, rfl⟩ | ⟨i, entry, op, next, -, -, rfl⟩ := step_cases hstep
      · exact List.suffix_refl _
      · exact List.suffix_cons _ _
      · exact List.suffix_refl _
      · exact List.suffix_refl _

/-- The world only moves as single operations and changes of the surroundings do. -/
theorem Reaches.evolves {A : Assumption World Env Entry Res} {evo : World → World → Prop}
    (hrefl : ∀ w, evo w w) (htrans : ∀ {u v w}, evo u v → evo v w → evo u w)
    (hexec : ∀ {op choice answer w w'}, M.exec op choice w = some (answer, w') → evo w w')
    (henv : ∀ {change w w'}, M.env change w = some w' → evo w w')
    {c c' : Config World Entry Res Err Out} (h : M.Reaches A c c') :
    evo c.state.world c'.state.world := by
  induction h with
  | refl => exact hrefl _
  | tail _ hstep ih =>
      obtain ⟨label, -, hstep⟩ := hstep
      refine htrans ih ?_
      obtain ⟨entry, -, rfl⟩ | ⟨i, choice, entry, op, next, answer, world, -, -, h, rfl⟩ |
        ⟨change, world, -, h, rfl⟩ | ⟨i, entry, op, next, -, -, rfl⟩ := step_cases hstep
      · exact hrefl _
      · exact hexec h
      · exact henv h
      · exact hrefl _

end Machine

end Interleaving
