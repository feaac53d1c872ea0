import Mathlib.Data.String.Basic
import McpGatekeeper.Text.FixedWidth

namespace McpGatekeeper.Clock

open FixedWidth

def isLeap (year : Nat) : Bool :=
  year % 4 == 0 && (year % 100 != 0 || year % 400 == 0)

def daysInMonth (year month : Nat) : Nat :=
  if month = 2 then (if isLeap year then 29 else 28)
  else if month = 4 ∨ month = 6 ∨ month = 9 ∨ month = 11 then 30
  else 31

/-- An aware `datetime` in UTC; the fields have passed the constructor's range
checks. -/
structure DateTime where
  year : Nat
  month : Nat
  day : Nat
  hour : Nat
  minute : Nat
  second : Nat
  microsecond : Nat
  year_range : 1 ≤ year ∧ year ≤ 9999
  month_range : 1 ≤ month ∧ month ≤ 12
  day_range : 1 ≤ day ∧ day ≤ daysInMonth year month
  hour_range : hour < 24
  minute_range : minute < 60
  second_range : second < 60
  microsecond_range : microsecond < 1000000
  deriving DecidableEq

def DateTime.fields (t : DateTime) : List Nat :=
  [t.year, t.month, t.day, t.hour, t.minute, t.second, t.microsecond]

theorem fields_injective : Function.Injective DateTime.fields := by
  rintro ⟨⟩ ⟨⟩ h
  simp only [DateTime.fields, List.cons.injEq, and_true] at h
  obtain ⟨rfl, rfl, rfl, rfl, rfl, rfl, rfl⟩ := h
  rfl

instance : LinearOrder DateTime :=
  LinearOrder.lift' DateTime.fields fields_injective

/-- `datetime.isoformat()` of a UTC datetime, which leaves a zero fraction out. -/
def DateTime.isoformat (t : DateTime) : String :=
  String.ofList <|
    digits 4 t.year ++ '-' :: digits 2 t.month ++ '-' :: digits 2 t.day ++ 'T' ::
    digits 2 t.hour ++ ':' :: digits 2 t.minute ++ ':' :: digits 2 t.second ++
    (if t.microsecond = 0 then [] else '.' :: digits 6 t.microsecond) ++
    ['+', '0', '0', ':', '0', '0']

theorem fraction_lt {a b : Nat} (ha : a < 1000000) (hb : b < 1000000) :
    (if a = 0 then [] else '.' :: digits 6 a) ++ ['+', '0', '0', ':', '0', '0'] <
      (if b = 0 then [] else '.' :: digits 6 b) ++ ['+', '0', '0', ':', '0', '0'] ↔
    a < b := by
  by_cases ha0 : a = 0 <;> by_cases hb0 : b = 0
  · simp [ha0, hb0]
  · have hb' : 0 < b := Nat.pos_of_ne_zero hb0
    simp only [ha0, hb0, if_true, if_false, List.nil_append, List.cons_append,
      List.cons_lt_cons_iff, hb', iff_true]
    exact .inl (by decide)
  · simp only [ha0, hb0, if_true, if_false, List.nil_append, List.cons_append,
      List.cons_lt_cons_iff, Nat.not_lt_zero, iff_false]
    rintro (h | ⟨h, -⟩)
    · exact absurd h (by decide)
    · exact absurd h (by decide)
  · simp only [ha0, hb0, if_false, List.cons_append, List.cons_lt_cons_self]
    rw [@digits_append_lt 6 a b (by simpa using ha) (by simpa using hb)]
    simp

/-- The database compares the texts, the program the datetimes: same answer. -/
theorem isoformat_lt (a b : DateTime) : a.isoformat < b.isoformat ↔ a < b := by
  have hmonth : ∀ t : DateTime, t.month < 10 ^ 2 := fun t => by
    have := t.month_range; omega
  have hday : ∀ t : DateTime, t.day < 10 ^ 2 := fun t => by
    have := t.day_range
    have : daysInMonth t.year t.month ≤ 31 := by
      unfold daysInMonth; split_ifs <;> omega
    omega
  have hyear : ∀ t : DateTime, t.year < 10 ^ 4 := fun t => by
    have := t.year_range; omega
  have hhour : ∀ t : DateTime, t.hour < 10 ^ 2 := fun t => by
    have := t.hour_range; omega
  have hminute : ∀ t : DateTime, t.minute < 10 ^ 2 := fun t => by
    have := t.minute_range; omega
  have hsecond : ∀ t : DateTime, t.second < 10 ^ 2 := fun t => by
    have := t.second_range; omega
  change a.isoformat.toList < b.isoformat.toList ↔ a.fields < b.fields
  simp only [DateTime.isoformat, String.toList_ofList, DateTime.fields, List.append_assoc,
    List.cons_append]
  rw [digits_append_lt (hyear a) (hyear b), List.cons_lt_cons_self,
    digits_append_lt (hmonth a) (hmonth b), List.cons_lt_cons_self,
    digits_append_lt (hday a) (hday b), List.cons_lt_cons_self,
    digits_append_lt (hhour a) (hhour b), List.cons_lt_cons_self,
    digits_append_lt (hminute a) (hminute b), List.cons_lt_cons_self,
    digits_append_lt (hsecond a) (hsecond b),
    fraction_lt a.microsecond_range b.microsecond_range]
  simp only [List.cons_lt_cons_iff, List.not_lt_nil, and_false, or_false]

theorem isoformat_le (a b : DateTime) : a.isoformat ≤ b.isoformat ↔ a ≤ b := by
  change ¬ b.isoformat < a.isoformat ↔ a ≤ b
  rw [isoformat_lt, not_lt]

/-- `timeout_seconds` as configured: a float, hence a dyadic rational or
infinity. -/
inductive Seconds
  | finite (value : Rat)
  | infinity
  deriving DecidableEq

/-- `num / den` rounded to the nearest integer, ties to the even one. -/
def roundHalfEven (num : Int) (den : Nat) : Int :=
  let below := num / den
  let rest := num % den
  if 2 * rest < den then below
  else if den < 2 * rest then below + 1
  else if below % 2 = 0 then below
  else below + 1

def microsecondsPerDay : Int := 24 * 3600 * 1000000

/-- `timedelta(seconds=...)` in microseconds; `none` where it raises `OverflowError`. The
rounding is exact here, where CPython's product of floats can be a microsecond off. -/
def timedelta : Seconds → Option Int
  | .infinity => none
  | .finite value =>
      let microseconds := roundHalfEven (value.num * 1000000) value.den
      if (microseconds / microsecondsPerDay).natAbs ≤ 999999999 then some microseconds
      else none

def daysBeforeYear (year : Nat) : Nat :=
  let y := year - 1
  y * 365 + y / 4 - y / 100 + y / 400

def daysBeforeMonth (year month : Nat) : Nat :=
  [0, 0, 31, 59, 90, 120, 151, 181, 212, 243, 273, 304, 334].getD month 0 +
    (if 2 < month ∧ isLeap year then 1 else 0)

def DateTime.toordinal (t : DateTime) : Nat :=
  daysBeforeYear t.year + daysBeforeMonth t.year t.month + t.day

/-- `_ord2ymd`, the inverse of `toordinal` on the proleptic Gregorian calendar. -/
def ord2ymd (ordinal : Nat) : Nat × Nat × Nat :=
  let n := ordinal - 1
  let n400 := n / 146097
  let n := n % 146097
  let n100 := n / 36524
  let n := n % 36524
  let n4 := n / 1461
  let n := n % 1461
  let n1 := n / 365
  let n := n % 365
  let year := n400 * 400 + 1 + n100 * 100 + n4 * 4 + n1
  if n1 = 4 ∨ n100 = 4 then (year - 1, 12, 31)
  else
    let month := (n + 50) / 32
    if daysBeforeMonth year month > n then
      (year, month - 1, n - daysBeforeMonth year (month - 1) + 1)
    else (year, month, n - daysBeforeMonth year month + 1)

/-- The `datetime` constructor: `none` where it raises `ValueError`. -/
def DateTime.ofFields (year month day hour minute second microsecond : Nat) :
    Option DateTime :=
  if h : (1 ≤ year ∧ year ≤ 9999) ∧ (1 ≤ month ∧ month ≤ 12) ∧
      (1 ≤ day ∧ day ≤ daysInMonth year month) ∧
      hour < 24 ∧ minute < 60 ∧ second < 60 ∧ microsecond < 1000000 then
    some ⟨year, month, day, hour, minute, second, microsecond,
      h.1, h.2.1, h.2.2.1, h.2.2.2.1, h.2.2.2.2.1, h.2.2.2.2.2.1, h.2.2.2.2.2.2⟩
  else none

def DateTime.toMicroseconds (t : DateTime) : Int :=
  (((t.toordinal * 24 + t.hour) * 60 + t.minute) * 60 + t.second : Nat) * 1000000 +
    t.microsecond

/-- `datetime + timedelta`, the latter in microseconds; `none` where the sum is
outside the years 1 to 9999 and Python raises `OverflowError`. -/
def DateTime.add (t : DateTime) (delta : Int) : Option DateTime :=
  let total := t.toMicroseconds + delta
  let days := total / microsecondsPerDay
  if 0 < days ∧ days ≤ 3652059 then
    let (year, month, day) := ord2ymd days.toNat
    let rest := (total % microsecondsPerDay).toNat
    DateTime.ofFields year month day (rest / 3600000000) (rest / 60000000 % 60)
      (rest / 1000000 % 60) (rest % 1000000)
  else none

example :
    ((DateTime.ofFields 2026 12 31 23 59 59 999999).bind (·.add 60000001)).map
      (·.isoformat) = some "2027-01-01T00:01:00+00:00" := by decide

end McpGatekeeper.Clock
