import McpGatekeeper.Interleaving.Soundness

namespace Interleaving

variable {World Choice Env Entry Op : Type} {Res : Op → Type} {Err Out : Type}
variable {M : Machine World Choice Env Entry Res Err Out}

namespace Contract

variable (K : Contract M)

/-- Tasks owe something more before each operation. -/
def owing (P : Nat → Entry → Op → State World Entry Res → Prop) : Contract M :=
  { K with
    pre := fun i entry op s => K.pre i entry op s ∧ P i entry op s
    exec_evo := fun hinv hassume hpre hexec => K.exec_evo hinv hassume hpre.1 hexec
    exec_inv := fun hinv hassume hpre hexec => K.exec_inv hinv hassume hpre.1 hexec }

/-- Tasks also owe to perform only the operations their entry point allows. -/
def allowing (P : Entry → Op → Prop) : Contract M :=
  K.owing fun _ entry op _ => P entry op

/-- Owed operations and changes of the surroundings keep `I` true. -/
structure Preserves (I : State World Entry Res → Prop) : Prop where
  exec : ∀ {i entry op choice s answer world}, K.inv s → I s →
    K.assume.act i entry op s = true → K.pre i entry op s →
    M.exec op choice s.world = some (answer, world) →
      I (s.push ⟨i, entry, op, answer, s.world⟩ world)
  env : ∀ {change s world}, K.inv s → I s → K.assume.env change s = true →
    M.env change s.world = some world → I { s with world := world }

/-- The invariant is extended by one that the contract preserves. -/
def withInv {I : State World Entry Res → Prop} (hI : K.Preserves I) : Contract M :=
  { K with
    inv := fun s => K.inv s ∧ I s
    exec_evo := fun hinv hassume hpre hexec => K.exec_evo hinv.1 hassume hpre hexec
    exec_inv := fun hinv hassume hpre hexec =>
      ⟨K.exec_inv hinv.1 hassume hpre hexec, hI.exec hinv.1 hinv.2 hassume hpre hexec⟩
    env_evo := fun hinv hassume henv => K.env_evo hinv.1 hassume henv
    env_inv := fun hinv hassume henv =>
      ⟨K.env_inv hinv.1 hassume henv, hI.env hinv.1 hinv.2 hassume henv⟩ }

variable {K} {i : Nat} {entry : Entry} {s : State World Entry Res}
variable {post : Nat → Entry → Out → State World Entry Res → Prop}

theorem Keeps.allowing {P : Entry → Op → Prop} {α : Type} {p : Program Op Res Err α}
    {Q : α → State World Entry Res → Prop} (h : K.Keeps i entry p Q s)
    (hp : p.Only (P entry)) : (K.allowing P).Keeps i entry p Q s := by
  induction p generalizing s with
  | ret value => exact h
  | fail error => exact trivial
  | perform op next ih =>
      obtain ⟨hop, hnext⟩ := hp
      intro s' hrely hinv hassume
      obtain ⟨hpre, hkeeps⟩ := h s' hrely hinv hassume
      exact ⟨⟨hpre, hop⟩, fun choice answer world hexec =>
        ih answer (hkeeps choice answer world hexec) (hnext answer)⟩

theorem KeptByCode.allowing {P : Entry → Op → Prop} (h : K.KeptByCode post)
    (hP : ∀ entry, (M.code entry).Only (P entry)) : (K.allowing P).KeptByCode post :=
  fun i entry s hinv hfresh => (h i entry s hinv hfresh).allowing (hP entry)

theorem Keeps.withInv {I : State World Entry Res → Prop} (hI : K.Preserves I) {α : Type}
    {p : Program Op Res Err α} {Q : α → State World Entry Res → Prop}
    (h : K.Keeps i entry p Q s) : (K.withInv hI).Keeps i entry p Q s := by
  induction p generalizing s with
  | ret value => exact h
  | fail error => exact trivial
  | perform op next ih =>
      intro s' hrely hinv hassume
      obtain ⟨hpre, hkeeps⟩ := h s' hrely hinv.1 hassume
      exact ⟨hpre, fun choice answer world hexec =>
        ih answer (hkeeps choice answer world hexec)⟩

theorem KeptByCode.withInv {I : State World Entry Res → Prop} (hI : K.Preserves I)
    (h : K.KeptByCode post) : (K.withInv hI).KeptByCode post :=
  fun i entry s hinv hfresh => (h i entry s hinv.1 hfresh).withInv hI

theorem keeps_of_unowed (hpre : ∀ i entry op s, K.pre i entry op s) {α : Type}
    (p : Program Op Res Err α) : K.Keeps i entry p (fun _ _ => True) s := by
  induction p generalizing s with
  | ret value => exact trivial
  | fail error => exact trivial
  | perform op next ih =>
      exact fun s' _ _ _ => ⟨hpre i entry op s', fun _ answer _ _ => ih answer⟩

theorem Good.invariant {c c' : Config World Entry Res Err Out} (hcode : K.KeptByCode post)
    {I : State World Entry Res → Prop} (hpreserves : K.Preserves I)
    (h : K.Good post c) (hI : I c.state) (hreach : M.Reaches K.assume c c') :
    I c'.state := by
  induction hreach with
  | refl => exact hI
  | tail hreach hstep ih =>
      have hgood := (h.reaches hcode hreach).1
      obtain ⟨label, hpermits, hstep⟩ := hstep
      obtain ⟨entry, rfl, rfl⟩ |
        ⟨i, choice, entry, op, next, answer, world, rfl, htask, hexec', rfl⟩ |
        ⟨change, world, rfl, henv', rfl⟩ | ⟨i, entry, op, next, rfl, htask, rfl⟩ :=
          Machine.step_cases hstep
      · exact ih
      · have hassume := Assumption.act_of_permits hpermits htask
        exact hpreserves.exec hgood.inv ih hassume (hgood.pre htask hassume) hexec'
      · exact hpreserves.env hgood.inv ih hpermits henv'
      · exact ih

end Contract

end Interleaving
