import Mathlib.Logic.Basic

/-!
Sequential programs over shared operations.

A program is a finite-depth tree: it returns, fails, or performs one operation
and continues with that operation's answer.  What an operation does to the
state it shares with other programs is left to the machine that schedules them.
-/

namespace Interleaving

/-- A sequential program whose steps are operations of `Op`, the operation `op`
being answered by a value of `Res op`. -/
inductive Program (Op : Type) (Res : Op → Type) (Err : Type) (α : Type) : Type
  | ret (value : α)
  | fail (error : Err)
  | perform (op : Op) (next : Res op → Program Op Res Err α)

namespace Program

variable {Op : Type} {Res : Op → Type} {Err α β γ : Type}

protected def bind : Program Op Res Err α → (α → Program Op Res Err β) →
    Program Op Res Err β
  | .ret value, f => f value
  | .fail error, _ => .fail error
  | .perform op next, f => .perform op fun answer => (next answer).bind f

instance : Monad (Program Op Res Err) where
  pure := .ret
  bind := .bind

def call (op : Op) : Program Op Res Err (Res op) :=
  .perform op .ret

/-- Every operation the program can perform satisfies `P`. -/
def Only (P : Op → Prop) : Program Op Res Err α → Prop
  | .ret _ => True
  | .fail _ => True
  | .perform op next => P op ∧ ∀ answer, (next answer).Only P

theorem only_call (P : Op → Prop) (op : Op) :
    (call op : Program Op Res Err (Res op)).Only P ↔ P op :=
  ⟨fun h => h.1, fun h => ⟨h, fun _ => trivial⟩⟩

theorem only_of_forall {P : Op → Prop} (hP : ∀ op, P op) (p : Program Op Res Err α) :
    p.Only P := by
  induction p with
  | ret value => exact trivial
  | fail error => exact trivial
  | perform op next ih => exact ⟨hP op, ih⟩

theorem Only.bind {P : Op → Prop} {p : Program Op Res Err α}
    {f : α → Program Op Res Err β} (hp : p.Only P) (hf : ∀ value, (f value).Only P) :
    (p >>= f).Only P := by
  induction p with
  | ret value => exact hf value
  | fail error => exact trivial
  | perform op next ih =>
      obtain ⟨hop, hnext⟩ := hp
      exact ⟨hop, fun answer => ih answer (hnext answer)⟩

theorem Only.and {P Q : Op → Prop} {p : Program Op Res Err α} (hp : p.Only P)
    (hq : p.Only Q) : p.Only fun op => P op ∧ Q op := by
  induction p with
  | ret value => exact trivial
  | fail error => exact trivial
  | perform op next ih =>
      exact ⟨⟨hp.1, hq.1⟩, fun answer => ih answer (hp.2 answer) (hq.2 answer)⟩

theorem Only.mono {P Q : Op → Prop} (hPQ : ∀ op, P op → Q op)
    {p : Program Op Res Err α} (hp : p.Only P) : p.Only Q := by
  induction p with
  | ret value => exact trivial
  | fail error => exact trivial
  | perform op next ih =>
      obtain ⟨hop, hnext⟩ := hp
      exact ⟨hPQ op hop, fun answer => ih answer (hnext answer)⟩

end Program

end Interleaving
