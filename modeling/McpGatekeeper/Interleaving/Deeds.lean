import McpGatekeeper.Interleaving.Soundness

/-!
What one task has done so far, of the operations that matter.

The deeds of a task are its own part of the history.  Other tasks cannot change
them, and a program that performs none of the operations counted leaves them as
they were.
-/

namespace Interleaving

variable {World Choice Env Entry Op : Type} {Res : Op → Type} {Err Out : Type}

def deeds (counts : Op → Bool) (i : Nat) (history : List (Event World Entry Res)) :
    List (Event World Entry Res) :=
  history.filter fun event => event.task == i && counts event.op

section Deeds

variable {counts : Op → Bool} {i : Nat} {history : List (Event World Entry Res)}

theorem deeds_append (newer older : List (Event World Entry Res)) :
    deeds counts i (newer ++ older) = deeds counts i newer ++ deeds counts i older :=
  List.filter_append ..

theorem deeds_cons_of_counts {entry : Entry} {op : Op} {answer : Res op} {world : World}
    (h : counts op = true) :
    deeds counts i (⟨i, entry, op, answer, world⟩ :: history) =
      ⟨i, entry, op, answer, world⟩ :: deeds counts i history := by
  simp [deeds, h]

theorem deeds_cons_of_quiet {entry : Entry} {op : Op} {answer : Res op} {world : World}
    (h : counts op = false) :
    deeds counts i (⟨i, entry, op, answer, world⟩ :: history) =
      deeds counts i history := by
  simp [deeds, h]

theorem deeds_eq_nil_of_others (h : ∀ event ∈ history, event.task ≠ i) :
    deeds counts i history = [] := by
  apply List.filter_eq_nil_iff.mpr
  intro event hevent
  simp [h event hevent]

theorem mem_deeds {event : Event World Entry Res} :
    event ∈ deeds counts i history ↔
      event ∈ history ∧ event.task = i ∧ counts event.op = true := by
  simp [deeds]

end Deeds

namespace Contract

variable {M : Machine World Choice Env Entry Res Err Out} {K : Contract M}
variable {counts : Op → Bool} {i : Nat} {entry : Entry} {s s' : State World Entry Res}

theorem Rely.deeds_eq (h : K.Rely i s s') :
    deeds counts i s'.history = deeds counts i s.history := by
  obtain ⟨-, others, hhistory, hothers⟩ := h
  rw [hhistory, deeds_append, deeds_eq_nil_of_others hothers, List.nil_append]

/-- An operation owed to be the first of its kind is performed at most once. -/
theorem Good.deeds_le_one {post : Nat → Entry → Out → State World Entry Res → Prop}
    {c : Config World Entry Res Err Out} (h : K.Good post c)
    (hpre : ∀ entry op s, counts op = true → K.pre i entry op s →
      deeds counts i s.history = []) :
    (deeds counts i c.state.history).length ≤ 1 := by
  rcases hdeeds : deeds counts i c.state.history with _ | ⟨event, rest⟩
  · exact Nat.zero_le 1
  · obtain ⟨newer, older, hsplit, -, hevent, hrest⟩ := List.filter_eq_cons_iff.mp hdeeds
    simp only [Bool.and_eq_true, beq_iff_eq] at hevent
    obtain ⟨rfl, hcounts⟩ := hevent
    have hnone := hpre event.entry event.op _ hcounts (h.past newer event older hsplit).pre
    have hrest' : deeds counts event.task older = rest := hrest
    rw [← hrest', hnone]
    exact Nat.le_refl 1

end Contract

end Interleaving
