import Mathlib.Data.List.TakeWhile

namespace Numeral

def readDigits (text : List Char) : List Char × List Char :=
  (text.takeWhile Char.isDigit, text.dropWhile Char.isDigit)

def readSign (signs text : List Char) : List Char × List Char :=
  if text.head?.any fun c => decide (c ∈ signs) then (text.take 1, text.drop 1) else ([], text)

/-- `-?(?:0|[1-9][0-9]*)` -/
def readWhole (text : List Char) : Option (List Char × List Char) :=
  let signed := readSign ['-'] text
  let digits := readDigits signed.2
  if signed.2.head? = some '0' then some (signed.1 ++ ['0'], signed.2.drop 1)
  else if digits.1 = [] then none
  else some (signed.1 ++ digits.1, digits.2)

/-- `(\.[0-9]+)?` -/
def readFraction (text : List Char) : List Char × List Char :=
  let digits := readDigits (text.drop 1)
  if text.head? = some '.' ∧ digits.1 ≠ [] then ('.' :: digits.1, digits.2) else ([], text)

/-- `([eE][-+]?[0-9]+)?` -/
def readExponent (text : List Char) : List Char × List Char :=
  let signed := readSign ['-', '+'] (text.drop 1)
  let digits := readDigits signed.2
  if (text.head? = some 'e' ∨ text.head? = some 'E') ∧ digits.1 ≠ [] then
    (text.take 1 ++ signed.1 ++ digits.1, digits.2)
  else ([], text)

/-- A numeral: its whole part, what makes it a float (empty for an integer), and the rest
of the text. -/
def read (text : List Char) : Option (List Char × List Char × List Char) :=
  (readWhole text).map fun whole =>
    let fraction := readFraction whole.2
    let exponent := readExponent fraction.2
    (whole.1, fraction.1 ++ exponent.1, exponent.2)

theorem append_of_head? {text : List Char} {c : Char} (h : text.head? = some c) :
    c :: text.drop 1 = text := by
  obtain ⟨tail, rfl⟩ := List.head?_eq_some_iff.mp h
  rfl

theorem append_of_readDigits (text : List Char) :
    (readDigits text).1 ++ (readDigits text).2 = text :=
  List.takeWhile_append_dropWhile

theorem append_of_readSign (signs text : List Char) :
    (readSign signs text).1 ++ (readSign signs text).2 = text := by
  rw [readSign]
  split
  · exact List.take_append_drop 1 text
  · rfl

theorem append_of_readWhole {text : List Char} {whole : List Char × List Char}
    (h : readWhole text = some whole) : whole.1 ++ whole.2 = text := by
  have hsign := append_of_readSign ['-'] text
  simp only [readWhole] at h
  split at h
  · rename_i hzero
    cases h
    rw [List.append_assoc, List.cons_append, List.nil_append, append_of_head? hzero, hsign]
  · split at h
    · cases h
    · cases h
      rw [List.append_assoc, append_of_readDigits, hsign]

theorem append_of_readFraction (text : List Char) :
    (readFraction text).1 ++ (readFraction text).2 = text := by
  simp only [readFraction]
  split
  · rename_i h
    rw [List.cons_append, append_of_readDigits, append_of_head? h.1]
  · rfl

theorem append_of_readExponent (text : List Char) :
    (readExponent text).1 ++ (readExponent text).2 = text := by
  simp only [readExponent]
  split
  · rw [List.append_assoc, append_of_readDigits, List.append_assoc, append_of_readSign,
      List.take_append_drop]
  · rfl

theorem append_of_read {text : List Char} {parts : List Char × List Char × List Char}
    (h : read text = some parts) : parts.1 ++ parts.2.1 ++ parts.2.2 = text := by
  obtain ⟨whole, hwhole, rfl⟩ := Option.map_eq_some_iff.mp h
  simp only [List.append_assoc]
  rw [append_of_readExponent, append_of_readFraction, append_of_readWhole hwhole]

def numeric (c : Char) : Bool :=
  c.isDigit || decide (c ∈ ['.', 'e', 'E', '-', '+'])

theorem numeric_minus : ∀ c ∈ ['-'], numeric c = true := by
  simp [numeric]

theorem numeric_signs : ∀ c ∈ ['-', '+'], numeric c = true := by
  simp [numeric]

theorem numeric_readDigits (text : List Char) : (readDigits text).1.all numeric = true := by
  refine List.all_eq_true.mpr fun c hc => ?_
  rw [numeric, List.mem_takeWhile_imp hc, Bool.true_or]

theorem numeric_readSign {signs : List Char} (hsigns : ∀ c ∈ signs, numeric c = true)
    (text : List Char) : (readSign signs text).1.all numeric = true := by
  rw [readSign]
  split
  · rename_i h
    rw [Option.any_eq_true] at h
    obtain ⟨c, hhead, hc⟩ := h
    obtain ⟨tail, rfl⟩ := List.head?_eq_some_iff.mp hhead
    simpa using hsigns c (of_decide_eq_true hc)
  · rfl

theorem numeric_readWhole {text : List Char} {whole : List Char × List Char}
    (h : readWhole text = some whole) : whole.1.all numeric = true := by
  have hsign : (readSign ['-'] text).1.all numeric = true := numeric_readSign numeric_minus text
  simp only [readWhole] at h
  split at h
  · cases h
    rw [List.all_append, hsign]
    rfl
  · split at h
    · cases h
    · cases h
      rw [List.all_append, hsign, numeric_readDigits]
      rfl

theorem numeric_readFraction (text : List Char) : (readFraction text).1.all numeric = true := by
  simp only [readFraction]
  split
  · rw [List.all_cons, numeric_readDigits]
    rfl
  · rfl

theorem numeric_readExponent (text : List Char) : (readExponent text).1.all numeric = true := by
  simp only [readExponent]
  split
  · rename_i h
    have hletter : (text.take 1).all numeric = true := by
      rcases h.1 with h | h
      · obtain ⟨tail, rfl⟩ := List.head?_eq_some_iff.mp h
        rfl
      · obtain ⟨tail, rfl⟩ := List.head?_eq_some_iff.mp h
        rfl
    rw [List.all_append, List.all_append, hletter, numeric_readSign numeric_signs,
      numeric_readDigits]
    rfl
  · rfl

theorem numeric_read {text : List Char} {parts : List Char × List Char × List Char}
    (h : read text = some parts) : (parts.1 ++ parts.2.1).all numeric = true := by
  obtain ⟨whole, hwhole, rfl⟩ := Option.map_eq_some_iff.mp h
  rw [List.all_append, List.all_append, numeric_readWhole hwhole, numeric_readFraction,
    numeric_readExponent]
  rfl

/-- The text does not go on with a numeral. -/
def Stops (rest : List Char) : Prop :=
  ∀ c, rest.head? = some c → numeric c = false

variable {text rest : List Char}

theorem stops_nil : Stops [] := by
  rintro c ⟨⟩

theorem stops_cons {c : Char} (h : numeric c = false) : Stops (c :: rest) := by
  rintro d ⟨⟩
  exact h

theorem head?_append (hrest : Stops rest) {c : Char} (hc : numeric c = true) :
    (text ++ rest).head? = some c ↔ text.head? = some c := by
  cases text with
  | nil =>
      refine ⟨fun h => ?_, fun h => by cases h⟩
      rw [hrest c h] at hc
      cases hc
  | cons d text => exact Iff.rfl

theorem take_append_of_head? {c : Char} (h : text.head? = some c) :
    (text ++ rest).take 1 = text.take 1 ∧ (text ++ rest).drop 1 = text.drop 1 ++ rest := by
  cases text with
  | nil => cases h
  | cons d text => exact ⟨rfl, rfl⟩

theorem readDigits_append (hrest : Stops rest) :
    readDigits (text ++ rest) = ((readDigits text).1, (readDigits text).2 ++ rest) := by
  induction text with
  | nil =>
      cases rest with
      | nil => rfl
      | cons c rest =>
          have hc : c.isDigit = false := (Bool.or_eq_false_iff.mp (hrest c rfl)).1
          simp [readDigits, hc]
  | cons c text ih =>
      simp only [readDigits, List.cons_append, List.takeWhile_cons, List.dropWhile_cons,
        Prod.mk.injEq] at ih ⊢
      split
      · exact ⟨congrArg _ ih.1, ih.2⟩
      · exact ⟨rfl, rfl⟩

theorem readSign_append (hrest : Stops rest) (signs : List Char)
    (hsigns : ∀ c ∈ signs, numeric c = true) :
    readSign signs (text ++ rest) = ((readSign signs text).1, (readSign signs text).2 ++ rest) := by
  cases text with
  | nil =>
      have hnone : (rest.head?.any fun c => decide (c ∈ signs)) = false := by
        rw [Option.any_eq_false]
        intro c hc
        refine decide_eq_false fun hmem => ?_
        have hnumeric := hsigns c hmem
        rw [hrest c hc] at hnumeric
        cases hnumeric
      simp [readSign, hnone]
  | cons c text =>
      simp only [readSign, List.cons_append, List.head?_cons, List.take_succ_cons,
        List.take_zero, List.drop_succ_cons, List.drop_zero]
      split <;> rfl

theorem readWhole_append (hrest : Stops rest) :
    readWhole (text ++ rest) = (readWhole text).map fun whole => (whole.1, whole.2 ++ rest) := by
  have hzero : ∀ text : List Char, (text ++ rest).head? = some '0' ↔ text.head? = some '0' :=
    fun text => head?_append hrest (by decide)
  simp only [readWhole, readSign_append hrest ['-'] numeric_minus,
    readDigits_append hrest, hzero]
  split
  · rename_i hzero
    rw [(take_append_of_head? hzero).2]
    rfl
  · split <;> rfl

theorem readFraction_append (hrest : Stops rest) :
    readFraction (text ++ rest) = ((readFraction text).1, (readFraction text).2 ++ rest) := by
  have hiff : (text ++ rest).head? = some '.' ↔ text.head? = some '.' :=
    head?_append hrest (by decide)
  simp only [readFraction, hiff]
  by_cases hpoint : text.head? = some '.'
  · simp only [(take_append_of_head? hpoint).2, readDigits_append hrest]
    split <;> rfl
  · rw [if_neg fun h => hpoint h.1, if_neg fun h => hpoint h.1]

theorem readExponent_append (hrest : Stops rest) :
    readExponent (text ++ rest) = ((readExponent text).1, (readExponent text).2 ++ rest) := by
  have hlower : (text ++ rest).head? = some 'e' ↔ text.head? = some 'e' :=
    head?_append hrest (by decide)
  have hupper : (text ++ rest).head? = some 'E' ↔ text.head? = some 'E' :=
    head?_append hrest (by decide)
  simp only [readExponent, hlower, hupper]
  by_cases hletter : text.head? = some 'e' ∨ text.head? = some 'E'
  · obtain ⟨c, hhead⟩ : ∃ c, text.head? = some c := by
      rcases hletter with h | h
      · exact ⟨_, h⟩
      · exact ⟨_, h⟩
    simp only [(take_append_of_head? hhead).1, (take_append_of_head? hhead).2,
      readSign_append hrest ['-', '+'] numeric_signs, readDigits_append hrest]
    split <;> rfl
  · rw [if_neg fun h => hletter h.1, if_neg fun h => hletter h.1]

theorem read_append (hrest : Stops rest) :
    read (text ++ rest) = (read text).map fun parts => (parts.1, parts.2.1, parts.2.2 ++ rest) := by
  rw [read, read, readWhole_append hrest]
  cases readWhole text with
  | none => rfl
  | some whole =>
      simp only [Option.map_some]
      rw [readFraction_append hrest, readExponent_append hrest]

theorem head_of_readWhole {whole : List Char × List Char} (h : readWhole text = some whole) :
    ∃ c tail, text = c :: tail ∧
      (c.isDigit = true ∨ c = '-' ∧ ∃ d, tail.head? = some d ∧ d.isDigit = true) := by
  have hdigit : ∀ text : List Char, text.head? = some '0' ∨ (readDigits text).1 ≠ [] →
      ∃ d, text.head? = some d ∧ d.isDigit = true := by
    rintro text (hzero | hdigits)
    · exact ⟨'0', hzero, rfl⟩
    · cases text with
      | nil => exact absurd rfl hdigits
      | cons d text =>
          refine ⟨d, rfl, ?_⟩
          by_contra hd
          exact hdigits (by simp [readDigits, hd])
  have hstart : (readSign ['-'] text).2.head? = some '0' ∨
      (readDigits (readSign ['-'] text).2).1 ≠ [] := by
    simp only [readWhole] at h
    split at h
    · exact .inl ‹_›
    · split at h
      · cases h
      · exact .inr ‹_›
  obtain ⟨d, hhead, hd⟩ := hdigit _ hstart
  cases text with
  | nil => cases hhead
  | cons c tail =>
      refine ⟨c, tail, rfl, ?_⟩
      by_cases hc : c = '-'
      · subst c
        exact .inr ⟨rfl, d, hhead, hd⟩
      · simp only [readSign, List.head?_cons, Option.any_some, List.mem_singleton, hc,
          decide_false, Bool.false_eq_true, if_false, Option.some.injEq] at hhead
        subst d
        exact .inl hd

def writeInt (n : Int) : List Char :=
  if 0 ≤ n then Nat.toDigits 10 n.natAbs else '-' :: Nat.toDigits 10 n.natAbs

def toInt (whole : List Char) : Int :=
  if whole.head? = some '-' then -(Nat.ofDigitChars 10 (whole.drop 1) 0 : Nat)
  else (Nat.ofDigitChars 10 whole 0 : Nat)

theorem toDigits_head (n : Nat) :
    ∃ c tail, Nat.toDigits 10 n = c :: tail ∧ c.isDigit = true ∧ (c = '0' → tail = []) := by
  induction n using Nat.strongRecOn with
  | ind n ih =>
      by_cases hn : n < 10
      · refine ⟨n.digitChar, [], Nat.toDigits_of_lt_base hn, ?_, fun _ => rfl⟩
        rw [Nat.isDigit_digitChar]
        exact decide_eq_true hn
      · obtain ⟨c, tail, heq, hdigit, hzero⟩ := ih (n / 10) (by omega)
        refine ⟨c, tail ++ [(n % 10).digitChar], ?_, hdigit, ?_⟩
        · rw [Nat.toDigits_of_base_le (by decide) (by omega), heq, List.cons_append]
        · rintro rfl
          have hvalue := Nat.ofDigitChars_ten_toDigits (n := n / 10)
          rw [heq, hzero rfl] at hvalue
          change 0 = n / 10 at hvalue
          omega

theorem readWhole_writeInt (n : Int) : readWhole (writeInt n) = some (writeInt n, []) := by
  obtain ⟨c, tail, heq, hdigit, hzero⟩ := toDigits_head n.natAbs
  have hall : ∀ d ∈ c :: tail, d.isDigit = true := by
    rw [← heq]
    exact fun d hd => Nat.isDigit_of_mem_toDigits (by decide) (by decide) hd
  have hdigits : readDigits (c :: tail) = (c :: tail, []) := by
    rw [readDigits, List.takeWhile_eq_self_iff.mpr hall, List.dropWhile_eq_nil_iff.mpr hall]
  have hminus : c ≠ '-' := by
    rintro rfl
    cases hdigit
  have hbody : ∀ sign, (if (c :: tail).head? = some '0' then
      some (sign ++ ['0'], (c :: tail).drop 1)
    else if (readDigits (c :: tail)).1 = [] then none
    else some (sign ++ (readDigits (c :: tail)).1, (readDigits (c :: tail)).2)) =
      some (sign ++ c :: tail, []) := by
    intro sign
    rw [hdigits]
    split
    · rename_i hhead
      obtain rfl : c = '0' := Option.some.inj hhead
      rw [hzero rfl]
      rfl
    · rfl
  rw [writeInt, heq]
  split
  · have hsign : readSign ['-'] (c :: tail) = ([], c :: tail) := by
      simp [readSign, hminus]
    simp only [readWhole, hsign]
    exact hbody []
  · exact hbody ['-']

theorem read_writeInt (n : Int) : read (writeInt n) = some (writeInt n, [], []) := by
  rw [read, readWhole_writeInt]
  rfl

theorem toInt_writeInt (n : Int) : toInt (writeInt n) = n := by
  obtain ⟨c, tail, heq, hdigit, -⟩ := toDigits_head n.natAbs
  have hminus : c ≠ '-' := by
    rintro rfl
    cases hdigit
  have hvalue : Nat.ofDigitChars 10 (c :: tail) 0 = n.natAbs := by
    rw [← heq, Nat.ofDigitChars_ten_toDigits]
  rw [writeInt, heq]
  split
  · rw [toInt, if_neg (by simpa using hminus), hvalue]
    omega
  · change -(Nat.ofDigitChars 10 (c :: tail) 0 : Int) = n
    rw [hvalue]
    omega

end Numeral
