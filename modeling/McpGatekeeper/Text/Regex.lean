import Mathlib.Data.List.Basic

/-!
Regular expressions that are sequences of simple atoms, matched the way Python's
`re` matches `^...$`: from the start of the text, up to its end or up to a newline
that ends it.
-/

namespace Regex

/-- One character; any run of characters; or an optional group made of one
character and a run. -/
inductive Atom
  | one (p : Char → Bool)
  | many (p : Char → Bool)
  | option (first : Char → Bool) (p : Char → Bool)

/-- `$` without `MULTILINE`. -/
def dollar : List Char → Bool
  | [] => true
  | [c] => c == '\n'
  | _ => false

/-- Some run of `p` characters, possibly empty, followed by what `next` accepts. -/
def manyThen (p : Char → Bool) (next : List Char → Bool) : List Char → Bool
  | [] => next []
  | c :: rest => next (c :: rest) || (p c && manyThen p next rest)

/-- `re.compile("^atoms$").match(text) is not None`. -/
def matchAtoms : List Atom → List Char → Bool
  | [], text => dollar text
  | .one _ :: _, [] => false
  | .one p :: atoms, c :: rest => p c && matchAtoms atoms rest
  | .many p :: atoms, text => manyThen p (matchAtoms atoms) text
  | .option _ _ :: atoms, [] => matchAtoms atoms []
  | .option first p :: atoms, c :: rest =>
      matchAtoms atoms (c :: rest) || (first c && manyThen p (matchAtoms atoms) rest)

/-- The texts an atom stands for. -/
def Atom.Takes : Atom → List Char → Prop
  | .one p, text => ∃ c, text = [c] ∧ p c = true
  | .many p, text => ∀ c ∈ text, p c = true
  | .option first p, text =>
      text = [] ∨ ∃ c run, text = c :: run ∧ first c = true ∧ ∀ c ∈ run, p c = true

/-- The texts that split into one piece for each atom. -/
def Describes : List Atom → List Char → Prop
  | [], text => text = []
  | atom :: atoms, text => ∃ piece rest, text = piece ++ rest ∧ atom.Takes piece ∧
      Describes atoms rest

theorem describes_singleton {atom : Atom} {text : List Char} :
    Describes [atom] text ↔ atom.Takes text := by
  constructor
  · rintro ⟨piece, rest, rfl, hpiece, rfl⟩
    rwa [List.append_nil]
  · intro h
    exact ⟨text, [], (List.append_nil text).symm, h, rfl⟩

theorem describes_iff_pieces {atoms : List Atom} {text : List Char} :
    Describes atoms text ↔
      ∃ pieces : List (List Char), text = pieces.flatten ∧
        List.Forall₂ Atom.Takes atoms pieces := by
  induction atoms generalizing text with
  | nil =>
      constructor
      · rintro rfl
        exact ⟨[], rfl, .nil⟩
      · rintro ⟨_, rfl, _ | _⟩
        rfl
  | cons atom atoms ih =>
      constructor
      · rintro ⟨piece, rest, rfl, hpiece, hrest⟩
        obtain ⟨pieces, rfl, hpieces⟩ := ih.mp hrest
        exact ⟨piece :: pieces, rfl, .cons hpiece hpieces⟩
      · rintro ⟨_, rfl, _ | ⟨hpiece, hpieces⟩⟩
        exact ⟨_, _, rfl, hpiece, ih.mpr ⟨_, rfl, hpieces⟩⟩

theorem dollar_iff {text : List Char} : dollar text = true ↔ text = [] ∨ text = ['\n'] := by
  rcases text with _ | ⟨c, _ | ⟨d, text⟩⟩ <;> simp [dollar]

theorem manyThen_iff {p : Char → Bool} {next : List Char → Bool} {text : List Char} :
    manyThen p next text = true ↔
      ∃ run rest, text = run ++ rest ∧ (∀ c ∈ run, p c = true) ∧ next rest = true := by
  induction text with
  | nil =>
      constructor
      · intro h
        exact ⟨[], [], rfl, by simp, h⟩
      · rintro ⟨run, rest, heq, -, hrest⟩
        obtain ⟨rfl, rfl⟩ := List.append_eq_nil_iff.mp heq.symm
        exact hrest
  | cons c text ih =>
      simp only [manyThen, Bool.or_eq_true, Bool.and_eq_true, ih]
      constructor
      · rintro (h | ⟨hc, run, rest, rfl, hrun, hrest⟩)
        · exact ⟨[], c :: text, rfl, by simp, h⟩
        · refine ⟨c :: run, rest, rfl, ?_, hrest⟩
          rintro d (_ | ⟨_, hd⟩)
          · exact hc
          · exact hrun d hd
      · rintro ⟨_ | ⟨d, run⟩, rest, heq, hrun, hrest⟩
        · exact .inl (heq ▸ hrest)
        · obtain ⟨rfl, rfl⟩ := List.cons_eq_cons.mp heq
          exact .inr ⟨hrun c List.mem_cons_self, run, rest, rfl,
            fun d hd => hrun d (List.mem_cons_of_mem c hd), hrest⟩

/-- A match takes a text of the language, and leaves what `$` lets stand. -/
theorem matchAtoms_iff {atoms : List Atom} {text : List Char} :
    matchAtoms atoms text = true ↔
      ∃ front back, text = front ++ back ∧ Describes atoms front ∧ dollar back = true := by
  induction atoms generalizing text with
  | nil =>
      constructor
      · intro h
        exact ⟨[], text, rfl, rfl, h⟩
      · rintro ⟨_, back, rfl, rfl, h⟩
        exact h
  | cons atom atoms ih =>
      -- The first atom takes a piece and leaves the rest to the others.
      have hsplit : (∃ front back, text = front ++ back ∧ Describes (atom :: atoms) front ∧
          dollar back = true) ↔
          ∃ piece rest, text = piece ++ rest ∧ atom.Takes piece ∧
            matchAtoms atoms rest = true := by
        constructor
        · rintro ⟨_, back, rfl, ⟨piece, rest, rfl, hpiece, hrest⟩, hback⟩
          exact ⟨piece, rest ++ back, List.append_assoc .., hpiece,
            ih.mpr ⟨rest, back, rfl, hrest, hback⟩⟩
        · rintro ⟨piece, rest, rfl, hpiece, hrest⟩
          obtain ⟨front, back, rfl, hfront, hback⟩ := ih.mp hrest
          exact ⟨piece ++ front, back, (List.append_assoc ..).symm,
            ⟨piece, front, rfl, hpiece, hfront⟩, hback⟩
      rw [hsplit]
      cases atom with
      | one p => rcases text with _ | ⟨c, text⟩ <;> simp [matchAtoms, Atom.Takes]
      | many p => exact manyThen_iff
      | option first p =>
          rcases text with _ | ⟨c, text⟩
          · simp [matchAtoms, Atom.Takes]
          · simp only [matchAtoms, Bool.or_eq_true, Bool.and_eq_true, manyThen_iff]
            constructor
            · rintro (h | ⟨hc, run, rest, rfl, hrun, hrest⟩)
              · exact ⟨[], c :: text, rfl, .inl rfl, h⟩
              · exact ⟨c :: run, rest, rfl, .inr ⟨c, run, rfl, hc, hrun⟩, hrest⟩
            · rintro ⟨piece, rest, heq, rfl | ⟨d, run, rfl, hd, hrun⟩, hrest⟩
              · exact .inl (heq ▸ hrest)
              · obtain ⟨rfl, rfl⟩ := List.cons_eq_cons.mp heq
                exact .inr ⟨hd, run, rest, rfl, hrun, hrest⟩

theorem matchAtoms_iff_describes {atoms : List Atom} {text : List Char} :
    matchAtoms atoms text = true ↔
      Describes atoms text ∨ ∃ line, text = line ++ ['\n'] ∧ Describes atoms line := by
  rw [matchAtoms_iff]
  constructor
  · rintro ⟨front, back, rfl, hfront, hback⟩
    rcases dollar_iff.mp hback with rfl | rfl
    · rw [List.append_nil]
      exact .inl hfront
    · exact .inr ⟨front, rfl, hfront⟩
  · rintro (h | ⟨line, rfl, hline⟩)
    · exact ⟨text, [], (List.append_nil text).symm, h, rfl⟩
    · exact ⟨line, ['\n'], rfl, hline, rfl⟩

end Regex
