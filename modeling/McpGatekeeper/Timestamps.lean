import McpGatekeeper.Clock

namespace McpGatekeeper.Timestamps

open FixedWidth
open McpGatekeeper.Clock

def readField (mark : Char) (width : Nat) (text : List Char) : Option (Nat × List Char) :=
  if text.head? = some mark then readDigits width (text.drop 1) else none

/-- The microseconds of a text that may leave them out. -/
def readFraction (text : List Char) : Option (Nat × List Char) :=
  if text.head? = some '.' then readField '.' 6 text else some (0, text)

/-- `datetime.fromisoformat` on the texts that `isoformat` writes of a UTC datetime, the
only ones in the database; `none` where a field is out of its range.  The other spellings
of ISO 8601 that Python takes are not read here. -/
def fromisoformat (text : String) : Option DateTime := do
  let year ← readDigits 4 text.toList
  let month ← readField '-' 2 year.2
  let day ← readField '-' 2 month.2
  let hour ← readField 'T' 2 day.2
  let minute ← readField ':' 2 hour.2
  let second ← readField ':' 2 minute.2
  let microsecond ← readFraction second.2
  if microsecond.2 = ['+', '0', '0', ':', '0', '0'] then
    DateTime.ofFields year.1 month.1 day.1 hour.1 minute.1 second.1 microsecond.1
  else none

theorem readField_digits {mark : Char} {width n : Nat} (h : n < 10 ^ width)
    (rest : List Char) :
    readField mark width (mark :: (digits width n ++ rest)) = some (n, rest) := by
  rw [readField, List.head?_cons, if_pos rfl, List.drop_succ_cons, List.drop_zero,
    readDigits_digits h]

theorem ofFields_fields (t : DateTime) :
    DateTime.ofFields t.year t.month t.day t.hour t.minute t.second t.microsecond = some t :=
  dif_pos ⟨t.year_range, t.month_range, t.day_range, t.hour_range, t.minute_range,
    t.second_range, t.microsecond_range⟩

theorem readFraction_append {microsecond : Nat} (h : microsecond < 1000000)
    {rest : List Char} (hrest : rest.head? ≠ some '.') :
    readFraction ((if microsecond = 0 then [] else '.' :: digits 6 microsecond) ++ rest) =
      some (microsecond, rest) := by
  rcases Nat.eq_zero_or_pos microsecond with rfl | hpos
  · exact if_neg hrest
  · rw [if_neg (Nat.ne_of_gt hpos), readFraction, List.cons_append, List.head?_cons, if_pos rfl]
    exact readField_digits h rest

theorem fromisoformat_isoformat (t : DateTime) : fromisoformat t.isoformat = some t := by
  have hday : t.day < 10 ^ 2 := by
    have := t.day_range
    have : daysInMonth t.year t.month ≤ 31 := by
      unfold daysInMonth
      split_ifs <;> omega
    omega
  have hyear : t.year < 10 ^ 4 := Nat.lt_succ_of_le t.year_range.2
  have hmonth : t.month < 10 ^ 2 := Nat.lt_of_le_of_lt t.month_range.2 (by decide)
  have hhour : t.hour < 10 ^ 2 := Nat.lt_trans t.hour_range (by decide)
  have hminute : t.minute < 10 ^ 2 := Nat.lt_trans t.minute_range (by decide)
  have hsecond : t.second < 10 ^ 2 := Nat.lt_trans t.second_range (by decide)
  have hoffset : (['+', '0', '0', ':', '0', '0'] : List Char).head? ≠ some '.' := by decide
  simp only [fromisoformat, DateTime.isoformat, String.toList_ofList, List.append_assoc,
    List.cons_append, readDigits_digits hyear, readField_digits hmonth, readField_digits hday,
    readField_digits hhour, readField_digits hminute, readField_digits hsecond,
    readFraction_append t.microsecond_range hoffset, Option.bind_eq_bind, Option.bind_some,
    if_true, ofFields_fields]

end McpGatekeeper.Timestamps
