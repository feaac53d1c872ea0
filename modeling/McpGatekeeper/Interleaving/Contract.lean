import McpGatekeeper.Interleaving.Machine

/-!
Rely-guarantee reasoning for interleaved programs.

A contract fixes an invariant, the ways the world may evolve, and what a task
owes before each operation.  A program keeps the contract when it does so
against every interference the contract allows; if all entry points keep it,
then so does every run.
-/

namespace Interleaving

variable {World Choice Env Entry Op : Type} {Res : Op → Type} {Err Out : Type}

/-- What tasks may assume and what they owe.  The proofs say that operations
performed as owed, and changes of the surroundings, keep the invariant and only
move the world along `evo`. -/
structure Contract (M : Machine World Choice Env Entry Res Err Out) where
  assume : Assumption World Env Entry Res
  inv : State World Entry Res → Prop
  evo : World → World → Prop
  pre : Nat → Entry → Op → State World Entry Res → Prop
  evo_refl : ∀ world, evo world world
  evo_trans : ∀ {a b c}, evo a b → evo b c → evo a c
  exec_evo : ∀ {i entry op choice s answer world}, inv s → assume.act i entry op s →
    pre i entry op s → M.exec op choice s.world = some (answer, world) →
      evo s.world world
  exec_inv : ∀ {i entry op choice s answer world}, inv s → assume.act i entry op s →
    pre i entry op s → M.exec op choice s.world = some (answer, world) →
      inv (s.push ⟨i, entry, op, answer, s.world⟩ world)
  env_evo : ∀ {change s world}, inv s → assume.env change s →
    M.env change s.world = some world → evo s.world world
  env_inv : ∀ {change s world}, inv s → assume.env change s →
    M.env change s.world = some world → inv { s with world := world }

namespace Contract

variable {M : Machine World Choice Env Entry Res Err Out} (K : Contract M)

def Rely (i : Nat) (s s' : State World Entry Res) : Prop :=
  K.evo s.world s'.world ∧
    ∃ others, s'.history = others ++ s.history ∧ ∀ event ∈ others, event.task ≠ i

def Grows (s s' : State World Entry Res) : Prop :=
  K.evo s.world s'.world ∧ s.history <:+ s'.history

/-- Task `i` keeps the contract while running the program from `s`, and returns
only where `Q` holds. -/
def Keeps {α : Type} (i : Nat) (entry : Entry) :
    Program Op Res Err α → (α → State World Entry Res → Prop) →
      State World Entry Res → Prop
  | .ret value, Q, s => Q value s
  | .fail _, _, _ => True
  | .perform op next, Q, s =>
      ∀ s', K.Rely i s s' → K.inv s' → K.assume.act i entry op s' →
        K.pre i entry op s' ∧
        ∀ choice answer world, M.exec op choice s'.world = some (answer, world) →
          Keeps i entry (next answer) Q (s'.push ⟨i, entry, op, answer, s'.world⟩ world)

variable {K}

theorem Rely.refl (i : Nat) (s : State World Entry Res) : K.Rely i s s :=
  ⟨K.evo_refl _, [], rfl, by simp⟩

theorem Rely.trans {i : Nat} {a b c : State World Entry Res}
    (hab : K.Rely i a b) (hbc : K.Rely i b c) : K.Rely i a c := by
  obtain ⟨hevo, others, hhistory, hothers⟩ := hab
  obtain ⟨hevo', others', hhistory', hothers'⟩ := hbc
  refine ⟨K.evo_trans hevo hevo', others' ++ others, by simp [hhistory, hhistory'], ?_⟩
  intro event hevent
  rcases List.mem_append.mp hevent with h | h
  · exact hothers' event h
  · exact hothers event h

theorem Rely.grows {i : Nat} {s s' : State World Entry Res} (h : K.Rely i s s') :
    K.Grows s s' := by
  obtain ⟨hevo, others, hhistory, -⟩ := h
  exact ⟨hevo, ⟨others, hhistory.symm⟩⟩

theorem Grows.refl (s : State World Entry Res) : K.Grows s s :=
  ⟨K.evo_refl _, List.suffix_refl _⟩

theorem Grows.trans {a b c : State World Entry Res} (hab : K.Grows a b)
    (hbc : K.Grows b c) : K.Grows a c :=
  ⟨K.evo_trans hab.1 hbc.1, hab.2.trans hbc.2⟩

theorem Grows.push {i : Nat} {entry : Entry} {op : Op} {choice : Choice}
    {s : State World Entry Res} {answer : Res op} {world : World}
    (hinv : K.inv s) (hassume : K.assume.act i entry op s) (hpre : K.pre i entry op s)
    (hexec : M.exec op choice s.world = some (answer, world)) :
    K.Grows s (s.push ⟨i, entry, op, answer, s.world⟩ world) :=
  ⟨K.exec_evo hinv hassume hpre hexec, List.suffix_cons _ _⟩

section Rules

variable {α β : Type} {i : Nat} {entry : Entry} {s : State World Entry Res}

theorem Keeps.mono {p : Program Op Res Err α} {Q Q' : α → State World Entry Res → Prop}
    (hQ : ∀ value s', Q value s' → Q' value s') (h : K.Keeps i entry p Q s) :
    K.Keeps i entry p Q' s := by
  induction p generalizing s with
  | ret value => exact hQ value s h
  | fail error => exact trivial
  | perform op next ih =>
      intro s' hrely hinv hassume
      obtain ⟨hpre, hnext⟩ := h s' hrely hinv hassume
      exact ⟨hpre, fun choice answer world hexec =>
        ih answer (hnext choice answer world hexec)⟩

theorem keeps_bind {p : Program Op Res Err α} {f : α → Program Op Res Err β}
    {Q : β → State World Entry Res → Prop} :
    K.Keeps i entry (p >>= f) Q s ↔
      K.Keeps i entry p (fun value s' => K.Keeps i entry (f value) Q s') s := by
  induction p generalizing s with
  | ret value => rfl
  | fail error => rfl
  | perform op next ih =>
      constructor
      · intro h s' hrely hinv hassume
        obtain ⟨hpre, hnext⟩ := h s' hrely hinv hassume
        exact ⟨hpre, fun choice answer world hexec =>
          (ih answer).mp (hnext choice answer world hexec)⟩
      · intro h s' hrely hinv hassume
        obtain ⟨hpre, hnext⟩ := h s' hrely hinv hassume
        exact ⟨hpre, fun choice answer world hexec =>
          (ih answer).mpr (hnext choice answer world hexec)⟩

theorem Keeps.grows {p : Program Op Res Err α} {Q : α → State World Entry Res → Prop}
    (h : K.Keeps i entry p Q s) :
    K.Keeps i entry p (fun value s' => K.Grows s s' ∧ Q value s') s := by
  suffices hfrom : ∀ s₀, K.Grows s₀ s →
      K.Keeps i entry p (fun value s' => K.Grows s₀ s' ∧ Q value s') s from
    hfrom s (Grows.refl s)
  induction p generalizing s with
  | ret value => exact fun s₀ hgrows => ⟨hgrows, h⟩
  | fail error => exact fun s₀ _ => trivial
  | perform op next ih =>
      intro s₀ hgrows s' hrely hinv hassume
      obtain ⟨hpre, hnext⟩ := h s' hrely hinv hassume
      refine ⟨hpre, fun choice answer world hexec => ?_⟩
      exact ih answer (hnext choice answer world hexec) s₀
        ((hgrows.trans hrely.grows).trans (Grows.push hinv hassume hpre hexec))

theorem keeps_seq {p : Program Op Res Err α} {f : α → Program Op Res Err β}
    {P : α → State World Entry Res → Prop} {Q : β → State World Entry Res → Prop}
    (hp : K.Keeps i entry p P s)
    (hf : ∀ value s', K.Grows s s' → P value s' → K.Keeps i entry (f value) Q s') :
    K.Keeps i entry (p >>= f) Q s :=
  keeps_bind.mpr (hp.grows.mono fun value s' h => hf value s' h.1 h.2)

end Rules

end Contract

end Interleaving
