import Mathlib.Algebra.Group.Nat.Defs
import Mathlib.Data.Char
import Mathlib.Data.List.Lex

/-!
Decimal numerals of a fixed width, and the dictionary order of texts built from
them: as long as every field has the same width in both texts, comparing the
texts compares the fields, leftmost first.
-/

namespace FixedWidth

/-- The character of a decimal digit. -/
def digit (n : Nat) : Char :=
  Char.ofNat (48 + n)

/-- The last `width` decimal digits of a number, most significant first and
padded with zeros. -/
def digits : Nat → Nat → List Char
  | 0, _ => []
  | width + 1, n => digit (n / 10 ^ width) :: digits width (n % 10 ^ width)

theorem digit_lt_digit {a b : Nat} (ha : a < 10) (hb : b < 10) :
    digit a < digit b ↔ a < b := by
  have hall : ∀ a < 10, ∀ b < 10, (digit a < digit b ↔ a < b) := by decide
  exact hall a ha b hb

theorem digit_eq_digit {a b : Nat} (ha : a < 10) (hb : b < 10) :
    digit a = digit b ↔ a = b := by
  have hall : ∀ a < 10, ∀ b < 10, (digit a = digit b ↔ a = b) := by decide
  exact hall a ha b hb

theorem lt_iff_div_mod {a b p : Nat} :
    a < b ↔ a / p < b / p ∨ a / p = b / p ∧ a % p < b % p := by
  have ha := Nat.div_add_mod a p
  have hb := Nat.div_add_mod b p
  constructor
  · intro h
    rcases Nat.lt_or_eq_of_le (Nat.div_le_div_right (c := p) h.le) with hlt | heq
    · exact .inl hlt
    · refine .inr ⟨heq, ?_⟩
      rw [heq] at ha
      omega
  · rintro (hlt | ⟨heq, hmod⟩)
    · exact Nat.lt_of_div_lt_div hlt
    · rw [heq] at ha
      omega

theorem digits_append_lt {width a b : Nat} (ha : a < 10 ^ width) (hb : b < 10 ^ width)
    (x y : List Char) :
    digits width a ++ x < digits width b ++ y ↔ a < b ∨ a = b ∧ x < y := by
  induction width generalizing a b with
  | zero =>
      obtain rfl : a = 0 := by simpa using ha
      obtain rfl : b = 0 := by simpa using hb
      simp [digits]
  | succ width ih =>
      have hpos : 0 < 10 ^ width := Nat.pow_pos (by decide)
      have hdiv : ∀ n, n < 10 ^ (width + 1) → n / 10 ^ width < 10 := fun n hn =>
        Nat.div_lt_of_lt_mul (by rwa [Nat.pow_succ] at hn)
      have hmod : ∀ n, n % 10 ^ width < 10 ^ width := fun n => Nat.mod_lt n hpos
      have hext : a = b ↔
          a / 10 ^ width = b / 10 ^ width ∧ a % 10 ^ width = b % 10 ^ width := by
        constructor
        · rintro rfl
          exact ⟨rfl, rfl⟩
        · rintro ⟨hq, hr⟩
          rw [← Nat.div_add_mod a (10 ^ width), hq, hr, Nat.div_add_mod]
      simp only [digits, List.cons_append]
      rw [List.cons_lt_cons_iff, digit_lt_digit (hdiv a ha) (hdiv b hb),
        digit_eq_digit (hdiv a ha) (hdiv b hb), ih (hmod a) (hmod b),
        lt_iff_div_mod (a := a) (b := b) (p := 10 ^ width), hext]
      tauto

def digitValue (c : Char) : Option Nat :=
  if 48 ≤ c.toNat ∧ c.toNat ≤ 57 then some (c.toNat - 48) else none

/-- The number that `width` digits stand for, and the rest of the text. -/
def readDigits : Nat → List Char → Option (Nat × List Char)
  | 0, text => some (0, text)
  | _ + 1, [] => none
  | width + 1, c :: text =>
      (digitValue c).bind fun leading =>
        (readDigits width text).map fun number =>
          (leading * 10 ^ width + number.1, number.2)

theorem digitValue_digit {n : Nat} (h : n < 10) : digitValue (digit n) = some n := by
  have hall : ∀ n < 10, digitValue (digit n) = some n := by decide
  exact hall n h

theorem readDigits_digits {width n : Nat} (h : n < 10 ^ width) (rest : List Char) :
    readDigits width (digits width n ++ rest) = some (n, rest) := by
  induction width generalizing n with
  | zero =>
      obtain rfl : n = 0 := by simpa using h
      rfl
  | succ width ih =>
      have hpos : 0 < 10 ^ width := Nat.pow_pos (by decide)
      have hleading : n / 10 ^ width < 10 :=
        Nat.div_lt_of_lt_mul (by rwa [Nat.pow_succ] at h)
      rw [digits, List.cons_append, readDigits, digitValue_digit hleading, Option.bind_some,
        ih (Nat.mod_lt n hpos), Option.map_some, Nat.div_add_mod']

end FixedWidth
