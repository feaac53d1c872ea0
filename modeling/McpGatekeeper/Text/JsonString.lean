import Mathlib.Data.Char
import McpGatekeeper.Text.PythonText

/-!
JSON strings in which every character outside printable ASCII is escaped, and reading
them back.  A character above U+FFFF is written as a pair of surrogates.
-/

namespace JsonString

open PythonText

/-- An escape of four hexadecimal digits. -/
def escapeUnit (n : Nat) : List Char :=
  ['\\', 'u', hexDigit (n / 4096), hexDigit (n / 256 % 16), hexDigit (n / 16 % 16),
    hexDigit (n % 16)]

/-- The letters of the short escapes, beside the quote and the backslash themselves. -/
def shortEscapes : List (Char × Char) :=
  [('"', '"'), ('\\', '\\'), ('n', '\n'), ('r', '\r'), ('t', '\t'), ('b', Char.ofNat 8),
    ('f', Char.ofNat 12)]

def escapeChar (c : Char) : List Char :=
  match shortEscapes.find? fun escape => escape.2 == c with
  | some escape => ['\\', escape.1]
  | none =>
      if 32 ≤ c.toNat ∧ c.toNat ≤ 126 then [c]
      else if c.toNat < 65536 then escapeUnit c.toNat
      else escapeUnit (55296 + (c.toNat - 65536) / 1024) ++
        escapeUnit (56320 + (c.toNat - 65536) % 1024)

def write (text : List Char) : List Char :=
  '"' :: text.flatMap escapeChar ++ ['"']

def hexValue (c : Char) : Option Nat :=
  if 48 ≤ c.toNat ∧ c.toNat ≤ 57 then some (c.toNat - 48)
  else if 97 ≤ c.toNat ∧ c.toNat ≤ 102 then some (c.toNat - 87)
  else if 65 ≤ c.toNat ∧ c.toNat ≤ 70 then some (c.toNat - 55)
  else none

/-- The number of four hexadecimal digits, and the rest of the text. -/
def readUnit : List Char → Option (Nat × List Char)
  | a :: b :: c :: d :: rest => do
      let a ← hexValue a
      let b ← hexValue b
      let c ← hexValue c
      let d ← hexValue d
      some (a * 4096 + b * 256 + c * 16 + d, rest)
  | _ => none

def joinSurrogates (high : Nat) (low : Nat × List Char) : Option (Char × List Char) :=
  if 56320 ≤ low.1 ∧ low.1 ≤ 57343 then
    some (Char.ofNat (65536 + (high - 55296) * 1024 + (low.1 - 56320)), low.2)
  else none

/-- The character of a code unit, which for a high surrogate takes the unit after it.  A
surrogate on its own is no character. -/
def readCode (n : Nat) (rest : List Char) : Option (Char × List Char) :=
  if 55296 ≤ n ∧ n ≤ 56319 then
    ((rest.dropPrefix? ['\\', 'u']).bind readUnit).bind (joinSurrogates n)
  else if 56320 ≤ n ∧ n ≤ 57343 then none
  else some (Char.ofNat n, rest)

/-- What follows a backslash.  A solidus may be escaped, though it never is. -/
def readEscape : List Char → Option (Char × List Char)
  | [] => none
  | c :: rest =>
      if c = 'u' then (readUnit rest).bind fun unit => readCode unit.1 unit.2
      else if c = '/' then some ('/', rest)
      else (shortEscapes.find? fun escape => escape.1 == c).map fun escape => (escape.2, rest)

/-- A character other than the quote; a control character must be escaped. -/
def readChar (c : Char) (rest : List Char) : Option (Char × List Char) :=
  if c = '\\' then readEscape rest
  else if c.toNat < 32 then none
  else some (c, rest)

/-- The characters up to the closing quote. -/
def readChars : Nat → List Char → Option (List Char × List Char)
  | 0, _ => none
  | _ + 1, [] => none
  | fuel + 1, c :: rest =>
      if c = '"' then some ([], rest)
      else
        (readChar c rest).bind fun read =>
          (readChars fuel read.2).map fun chars => (read.1 :: chars.1, chars.2)

/-- A string from its opening quote on. -/
def read : List Char → Option (List Char × List Char)
  | '"' :: rest => readChars rest.length rest
  | _ => none

theorem hexValue_hexDigit {n : Nat} (h : n < 16) : hexValue (hexDigit n) = some n := by
  have hall : ∀ n < 16, hexValue (hexDigit n) = some n := by decide
  exact hall n h

theorem readUnit_escapeUnit {n : Nat} (h : n < 65536) (rest : List Char) :
    readUnit ((escapeUnit n).drop 2 ++ rest) = some (n, rest) := by
  have hdigits : n / 4096 * 4096 + n / 256 % 16 * 256 + n / 16 % 16 * 16 + n % 16 = n := by
    omega
  simp only [escapeUnit, List.drop_succ_cons, List.drop_zero, List.cons_append,
    List.nil_append, readUnit]
  rw [hexValue_hexDigit (n := n / 4096) (by omega), hexValue_hexDigit (n := n / 256 % 16) (by omega),
    hexValue_hexDigit (n := n / 16 % 16) (by omega), hexValue_hexDigit (n := n % 16) (by omega)]
  simp [hdigits]

theorem toNat_range (c : Char) : c.toNat < 55296 ∨ 57343 < c.toNat ∧ c.toNat < 1114112 :=
  c.valid

theorem readEscape_unit {c : Char} (h : c.toNat < 65536) (rest : List Char) :
    readEscape ((escapeUnit c.toNat).tail ++ rest) = some (c, rest) := by
  have hrange := toNat_range c
  change (readUnit ((escapeUnit c.toNat).drop 2 ++ rest)).bind _ = _
  rw [readUnit_escapeUnit h, Option.bind_some, readCode, if_neg (by omega), if_neg (by omega),
    Char.ofNat_toNat]

theorem readEscape_pair {c : Char} (h : 65536 ≤ c.toNat) (rest : List Char) :
    readEscape ((escapeUnit (55296 + (c.toNat - 65536) / 1024)).tail ++
      (escapeUnit (56320 + (c.toNat - 65536) % 1024) ++ rest)) = some (c, rest) := by
  have hrange := toNat_range c
  have hmark : ((escapeUnit (56320 + (c.toNat - 65536) % 1024)) ++ rest).dropPrefix? ['\\', 'u'] =
      some ((escapeUnit (56320 + (c.toNat - 65536) % 1024)).drop 2 ++ rest) := rfl
  change (readUnit ((escapeUnit (55296 + (c.toNat - 65536) / 1024)).drop 2 ++ _)).bind _ = _
  rw [readUnit_escapeUnit (by omega), Option.bind_some, readCode, if_pos (by omega), hmark,
    Option.bind_some, readUnit_escapeUnit (by omega), Option.bind_some, joinSurrogates,
    if_pos (by omega)]
  have hcode : 65536 + (55296 + (c.toNat - 65536) / 1024 - 55296) * 1024 +
      (56320 + (c.toNat - 65536) % 1024 - 56320) = c.toNat := by
    omega
  rw [hcode, Char.ofNat_toNat]

theorem escapeChar_cases (c : Char) :
    (escapeChar c = [c] ∧ c ≠ '"' ∧ c ≠ '\\' ∧ 32 ≤ c.toNat) ∨
      ∃ tail, escapeChar c = '\\' :: tail ∧
        ∀ rest, readEscape (tail ++ rest) = some (c, rest) := by
  rw [escapeChar]
  split
  · rename_i escape hfind
    obtain rfl : escape.2 = c := by simpa using List.find?_some hfind
    refine .inr ⟨[escape.1], rfl, ?_⟩
    have hall : ∀ escape ∈ shortEscapes, escape.1 ≠ 'u' ∧ escape.1 ≠ '/' ∧
        (shortEscapes.find? fun other => other.1 == escape.1) = some escape := by
      decide
    obtain ⟨hu, hsolidus, hshort⟩ := hall escape (List.mem_of_find?_eq_some hfind)
    intro rest
    rw [List.cons_append, readEscape, if_neg hu, if_neg hsolidus, hshort]
    rfl
  · rename_i hfind
    have hplain : ∀ escape ∈ shortEscapes, escape.2 ≠ c := by simpa using hfind
    split
    · rename_i hprintable
      refine .inl ⟨rfl, ?_, ?_, hprintable.1⟩
      · exact (hplain ('"', '"') (by decide)).symm
      · exact (hplain ('\\', '\\') (by decide)).symm
    · split
      · rename_i hunit
        exact .inr ⟨_, rfl, readEscape_unit hunit⟩
      · rename_i hpair
        exact .inr ⟨_, rfl, readEscape_pair (by omega)⟩

theorem readChars_escapeChar {c : Char} (fuel : Nat) (rest : List Char) :
    readChars (fuel + 1) (escapeChar c ++ rest) =
      (readChars fuel rest).map fun chars => (c :: chars.1, chars.2) := by
  rcases escapeChar_cases c with ⟨heq, hquote, hbackslash, hcontrol⟩ | ⟨tail, heq, hread⟩
  · rw [heq, List.cons_append, List.nil_append, readChars, if_neg hquote, readChar,
      if_neg hbackslash, if_neg (by omega), Option.bind_some]
  · rw [heq, List.cons_append, readChars, if_neg (by decide), readChar, if_pos rfl, hread rest,
      Option.bind_some]

theorem readChars_write {text : List Char} {fuel : Nat} (h : text.length < fuel)
    (rest : List Char) :
    readChars fuel (text.flatMap escapeChar ++ '"' :: rest) = some (text, rest) := by
  induction text generalizing fuel with
  | nil =>
      cases fuel with
      | zero => cases h
      | succ fuel => rfl
  | cons c text ih =>
      cases fuel with
      | zero => cases h
      | succ fuel =>
          rw [List.flatMap_cons, List.append_assoc, readChars_escapeChar,
            ih (Nat.lt_of_succ_lt_succ h)]
          rfl

theorem length_le_flatMap_escapeChar (text : List Char) :
    text.length ≤ (text.flatMap escapeChar).length := by
  induction text with
  | nil => exact Nat.le_refl _
  | cons c text ih =>
      have hpos : 0 < (escapeChar c).length := by
        rcases escapeChar_cases c with ⟨heq, -⟩ | ⟨tail, heq, -⟩ <;> simp [heq]
      rw [List.flatMap_cons, List.length_append, List.length_cons]
      omega

theorem read_write (text rest : List Char) : read (write text ++ rest) = some (text, rest) := by
  rw [write, List.cons_append, List.cons_append, List.append_assoc, read]
  refine readChars_write ?_ rest
  have := length_le_flatMap_escapeChar text
  simp only [List.length_append, List.length_cons]
  omega

def printable (c : Char) : Bool :=
  32 ≤ c.toNat && c.toNat ≤ 126

theorem printable_hexDigit {n : Nat} (h : n < 16) : printable (hexDigit n) = true := by
  have hall : ∀ n < 16, printable (hexDigit n) = true := by decide
  exact hall n h

theorem printable_escapeUnit {n : Nat} (h : n < 65536) :
    (escapeUnit n).all printable = true := by
  have hbackslash : printable '\\' = true := by decide
  have hletter : printable 'u' = true := by decide
  simp only [escapeUnit, List.all_cons, hbackslash, hletter, Bool.true_and, List.all_nil,
    Bool.and_true, Bool.and_eq_true]
  exact ⟨printable_hexDigit (by omega), printable_hexDigit (by omega),
    printable_hexDigit (by omega), printable_hexDigit (by omega)⟩

theorem printable_escapeChar (c : Char) : (escapeChar c).all printable = true := by
  rw [escapeChar]
  split
  · rename_i escape hfind
    have hall : ∀ escape ∈ shortEscapes, ['\\', escape.1].all printable = true := by decide
    exact hall escape (List.mem_of_find?_eq_some hfind)
  · split
    · rename_i hprintable
      simpa [printable] using hprintable
    · split
      · rename_i hunit
        exact printable_escapeUnit hunit
      · rename_i hpair
        have hrange := toNat_range c
        rw [List.all_append, printable_escapeUnit (by omega), printable_escapeUnit (by omega)]
        rfl

theorem printable_write (text : List Char) : (write text).all printable = true := by
  have hquote : printable '"' = true := by decide
  have htext : (text.flatMap escapeChar).all printable = true := by
    rw [List.all_flatMap, List.all_eq_true]
    exact fun c _ => printable_escapeChar c
  simp [write, hquote, htext]

end JsonString
