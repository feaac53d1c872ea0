import Mathlib.Algebra.Order.Field.Rat
import Mathlib.Data.Int.ConditionallyCompleteOrder
import Mathlib.Data.Rat.Cast.Order
import Mathlib.Order.Monotone.Basic
import Mathlib.Tactic.IntervalCases
import Mathlib.Tactic.Linarith
import Mathlib.Tactic.Ring
import McpGatekeeper.Clock

namespace McpGatekeeper.Calendar

open McpGatekeeper.Clock

def daysInYear (year : Nat) : Nat :=
  if isLeap year then 366 else 365

theorem isLeap_iff (year : Nat) :
    isLeap year = true ↔ 4 ∣ year ∧ (¬100 ∣ year ∨ 400 ∣ year) := by
  simp [isLeap, Nat.dvd_iff_mod_eq_zero]

theorem daysBeforeYear_succ {year : Nat} (hyear : 1 ≤ year) :
    daysBeforeYear (year + 1) = daysBeforeYear year + daysInYear year := by
  obtain ⟨y, rfl⟩ := Nat.exists_eq_add_of_le' hyear
  have hless : y / 100 ≤ y / 4 := Nat.div_le_div_left (by decide) (by decide)
  have hfour : 100 ∣ y + 1 → 4 ∣ y + 1 := Nat.dvd_trans (by decide)
  have hhundred : 400 ∣ y + 1 → 100 ∣ y + 1 := Nat.dvd_trans (by decide)
  simp only [daysBeforeYear, daysInYear, isLeap_iff, Nat.add_sub_cancel, Nat.succ_div]
  -- A year divisible by 400 is so by 100, and one by 100 is so by 4.
  by_cases h400 : 400 ∣ y + 1
  · have h100 := hhundred h400
    have h4 := hfour h100
    simp only [h400, h100, h4, if_true, or_true, and_true]
    omega
  · by_cases h100 : 100 ∣ y + 1
    · have h4 := hfour h100
      simp only [h400, h100, h4, if_true, if_false, not_true, or_false, and_false]
      omega
    · by_cases h4 : 4 ∣ y + 1
      · simp only [h400, h100, h4, if_true, if_false, not_false_iff, or_false, and_true]
        omega
      · simp only [h400, h100, h4, if_false, false_and]
        omega

theorem daysBeforeYear_mono : Monotone daysBeforeYear := by
  apply monotone_nat_of_le_succ
  rintro (_ | year)
  · exact Nat.le_refl _
  · rw [daysBeforeYear_succ (Nat.succ_pos year)]
    exact Nat.le_add_right _ _

theorem daysBeforeMonth_succ (year : Nat) {month : Nat} (hmonth : 1 ≤ month ∧ month < 12) :
    daysBeforeMonth year (month + 1) = daysBeforeMonth year month + daysInMonth year month := by
  obtain ⟨hone, htwelve⟩ := hmonth
  interval_cases month <;> cases h : isLeap year <;> simp [daysBeforeMonth, daysInMonth, h]

theorem daysBeforeMonth_december (year : Nat) :
    daysBeforeMonth year 12 + daysInMonth year 12 = daysInYear year := by
  cases h : isLeap year <;> simp [daysBeforeMonth, daysInMonth, daysInYear, h]

theorem daysBeforeMonth_lt (year : Nat) {month month' : Nat} (hpos : 1 ≤ month)
    (hlt : month < month') (hle : month' ≤ 12) :
    daysBeforeMonth year month + daysInMonth year month ≤ daysBeforeMonth year month' := by
  induction month', hlt using Nat.le_induction with
  | base =>
      rw [daysBeforeMonth_succ year ⟨hpos, hle⟩]
  | succ later hlater ih =>
      rw [daysBeforeMonth_succ year ⟨by omega, by omega⟩]
      exact le_trans (ih (by omega)) (Nat.le_add_right _ _)

theorem daysBeforeMonth_le (year : Nat) {month : Nat} (hmonth : 1 ≤ month ∧ month ≤ 12) :
    daysBeforeMonth year month + daysInMonth year month ≤ daysInYear year := by
  rcases Nat.lt_or_ge month 12 with hlt | hge
  · have hbefore := daysBeforeMonth_lt year hmonth.1 hlt (Nat.le_refl 12)
    have hdecember := daysBeforeMonth_december year
    omega
  · obtain rfl : month = 12 := Nat.le_antisymm hmonth.2 hge
    rw [daysBeforeMonth_december]

/-- A day of the calendar, by its number. -/
structure Denotes (ordinal year month day : Nat) : Prop where
  year_range : 1 ≤ year ∧ year ≤ 9999
  month_range : 1 ≤ month ∧ month ≤ 12
  day_range : 1 ≤ day ∧ day ≤ daysInMonth year month
  ordinal_eq : daysBeforeYear year + daysBeforeMonth year month + day = ordinal

theorem denotes_toordinal (t : DateTime) : Denotes t.toordinal t.year t.month t.day :=
  ⟨t.year_range, t.month_range, t.day_range, rfl⟩

theorem Denotes.within {ordinal year month day : Nat} (h : Denotes ordinal year month day) :
    daysBeforeYear year < ordinal ∧ ordinal ≤ daysBeforeYear (year + 1) := by
  have hsucc := daysBeforeYear_succ h.year_range.1
  have hmonth := daysBeforeMonth_le year h.month_range
  have hday := h.day_range
  have hordinal := h.ordinal_eq
  omega

theorem Denotes.range {ordinal year month day : Nat} (h : Denotes ordinal year month day) :
    0 < ordinal ∧ ordinal ≤ 3652059 := by
  obtain ⟨hlower, hupper⟩ := h.within
  have hlast : daysBeforeYear (year + 1) ≤ daysBeforeYear 10000 :=
    daysBeforeYear_mono (Nat.succ_le_succ h.year_range.2)
  have hdays : daysBeforeYear 10000 = 3652059 := by decide
  omega

theorem daysBeforeMonth_close (year : Nat) {month : Nat} (hmonth : 1 ≤ month ∧ month ≤ 12) :
    daysBeforeMonth year (month - 1) ≤ 32 * month - 50 ∧
      min 365 (32 * month - 18) ≤ daysBeforeMonth year month + daysInMonth year month := by
  obtain ⟨hone, htwelve⟩ := hmonth
  interval_cases month <;> cases h : isLeap year <;> simp [daysBeforeMonth, daysInMonth, h]

theorem month_guess (year : Nat) {n : Nat} (hn : n < 365) :
    ∃ month day,
      (if daysBeforeMonth year ((n + 50) / 32) > n then
        (year, (n + 50) / 32 - 1, n - daysBeforeMonth year ((n + 50) / 32 - 1) + 1)
      else (year, (n + 50) / 32, n - daysBeforeMonth year ((n + 50) / 32) + 1)) =
        (year, month, day) ∧
      (1 ≤ month ∧ month ≤ 12) ∧ (1 ≤ day ∧ day ≤ daysInMonth year month) ∧
      daysBeforeMonth year month + day = n + 1 := by
  obtain ⟨month, hmonth⟩ : ∃ month, month = (n + 50) / 32 := ⟨_, rfl⟩
  rw [← hmonth]
  have hrange : 1 ≤ month ∧ month ≤ 12 := by omega
  obtain ⟨hbefore, hend⟩ := daysBeforeMonth_close year hrange
  split
  · -- The guess is one too late.
    rename_i hlate
    have htwo : 2 ≤ month := by
      by_contra hfirst
      obtain rfl : month = 1 := by omega
      exact absurd hlate (Nat.not_lt_zero n)
    have hsucc := daysBeforeMonth_succ year (show 1 ≤ month - 1 ∧ month - 1 < 12 by omega)
    rw [Nat.sub_add_cancel hrange.1] at hsucc
    exact ⟨_, _, rfl, by omega, by omega, by omega⟩
  · exact ⟨_, _, rfl, hrange, by omega, by omega⟩

theorem daysBeforeYear_groups {n400 n100 n4 n1 : Nat} (h100 : n100 < 4) (h4 : n4 < 25)
    (h1 : n1 < 4) :
    daysBeforeYear (n400 * 400 + 1 + n100 * 100 + n4 * 4 + n1) =
      n400 * 146097 + n100 * 36524 + n4 * 1461 + n1 * 365 := by
  have hyears : n400 * 400 + 1 + n100 * 100 + n4 * 4 + n1 - 1 =
      n400 * 400 + n100 * 100 + n4 * 4 + n1 := by omega
  have hfour : (n400 * 400 + n100 * 100 + n4 * 4 + n1) / 4 =
      n400 * 100 + n100 * 25 + n4 := by omega
  have hhundred : (n400 * 400 + n100 * 100 + n4 * 4 + n1) / 100 = n400 * 4 + n100 := by omega
  have hfourHundred : (n400 * 400 + n100 * 100 + n4 * 4 + n1) / 400 = n400 := by omega
  simp only [daysBeforeYear, hyears, hfour, hhundred, hfourHundred]
  omega

theorem year_of_lt {ordinal year : Nat} (hrange : ordinal ≤ 3652059)
    (hyear : daysBeforeYear year < ordinal) : year ≤ 9999 := by
  have hdays : daysBeforeYear 10000 = 3652059 := by decide
  have hlt : daysBeforeYear year < daysBeforeYear 10000 := by omega
  have := daysBeforeYear_mono.reflect_lt hlt
  omega

theorem denotes_new_years_eve {ordinal year : Nat} (hrange : ordinal ≤ 3652059)
    (hyear : 1 ≤ year) (h : ordinal = daysBeforeYear (year + 1)) :
    Denotes ordinal year 12 31 := by
  have hsucc := daysBeforeYear_succ hyear
  have hdecember := daysBeforeMonth_december year
  have hdays : daysInMonth year 12 = 31 := rfl
  have hpos : 0 < daysInYear year := by omega
  refine ⟨⟨hyear, ?_⟩, ⟨by omega, by omega⟩, ⟨by omega, by omega⟩, by omega⟩
  exact year_of_lt hrange (by omega)

/-- `_ord2ymd` answers the date of every day up to the end of the year 9999. -/
theorem ord2ymd_denotes {ordinal : Nat} (h : 0 < ordinal ∧ ordinal ≤ 3652059) :
    ∃ year month day, ord2ymd ordinal = (year, month, day) ∧
      Denotes ordinal year month day := by
  obtain ⟨n400, h400⟩ : ∃ n, n = (ordinal - 1) / 146097 := ⟨_, rfl⟩
  obtain ⟨r400, hr400⟩ : ∃ n, n = (ordinal - 1) % 146097 := ⟨_, rfl⟩
  obtain ⟨n100, h100⟩ : ∃ n, n = r400 / 36524 := ⟨_, rfl⟩
  obtain ⟨r100, hr100⟩ : ∃ n, n = r400 % 36524 := ⟨_, rfl⟩
  obtain ⟨n4, h4⟩ : ∃ n, n = r100 / 1461 := ⟨_, rfl⟩
  obtain ⟨r4, hr4⟩ : ∃ n, n = r100 % 1461 := ⟨_, rfl⟩
  obtain ⟨n1, h1⟩ : ∃ n, n = r4 / 365 := ⟨_, rfl⟩
  obtain ⟨r1, hr1⟩ : ∃ n, n = r4 % 365 := ⟨_, rfl⟩
  have hordinal : ordinal = n400 * 146097 + n100 * 36524 + n4 * 1461 + n1 * 365 + r1 + 1 := by
    omega
  simp only [ord2ymd, ← h400, ← hr400, ← h100, ← hr100, ← h4, ← hr4, ← h1, ← hr1]
  split
  · -- The day is the 366th of its year, which ends a group of 4 or of 400 years.
    rename_i hlast
    refine ⟨_, _, _, rfl, denotes_new_years_eve h.2 (by omega) ?_⟩
    rcases hlast with rfl | rfl
    · have hyear : n400 * 400 + 1 + n100 * 100 + n4 * 4 + 4 - 1 + 1 =
          n400 * 400 + 1 + n100 * 100 + (n4 + 1) * 4 + 0 := by omega
      have hgroups := @daysBeforeYear_groups n400 n100 (n4 + 1) 0 (by omega) (by omega) (by omega)
      rw [← hyear] at hgroups
      omega
    · have hyear : n400 * 400 + 1 + 4 * 100 + n4 * 4 + n1 - 1 + 1 =
          (n400 + 1) * 400 + 1 + 0 * 100 + 0 * 4 + 0 := by omega
      have hgroups := @daysBeforeYear_groups (n400 + 1) 0 0 0 (by omega) (by omega) (by omega)
      rw [← hyear] at hgroups
      omega
  · have hyear := @daysBeforeYear_groups n400 n100 n4 n1 (by omega) (by omega) (by omega)
    obtain ⟨month, day, hguess, hmonth, hday, hsum⟩ :=
      month_guess (n400 * 400 + 1 + n100 * 100 + n4 * 4 + n1) (show r1 < 365 by omega)
    refine ⟨_, month, day, hguess, ⟨by omega, ?_⟩, hmonth, hday, by omega⟩
    exact year_of_lt h.2 (by omega)

/-- The microseconds since midnight. -/
def timeOfDay (t : DateTime) : Nat :=
  ((t.hour * 60 + t.minute) * 60 + t.second) * 1000000 + t.microsecond

theorem toMicroseconds_eq (t : DateTime) :
    t.toMicroseconds = t.toordinal * microsecondsPerDay + timeOfDay t := by
  simp only [DateTime.toMicroseconds, timeOfDay, microsecondsPerDay]
  omega

theorem timeOfDay_lt (t : DateTime) : (timeOfDay t : Int) < microsecondsPerDay := by
  have hhour := t.hour_range
  have hminute := t.minute_range
  have hsecond := t.second_range
  have hmicrosecond := t.microsecond_range
  simp only [timeOfDay, microsecondsPerDay]
  omega

theorem toMicroseconds_lt_of_toordinal {t u : DateTime} (h : t.toordinal < u.toordinal) :
    t.toMicroseconds < u.toMicroseconds := by
  have htime := timeOfDay_lt t
  rw [toMicroseconds_eq, toMicroseconds_eq]
  simp only [microsecondsPerDay] at htime ⊢
  omega

/-- The order of the fields is the order of the microseconds. -/
theorem toMicroseconds_strictMono : StrictMono DateTime.toMicroseconds := by
  intro t u h
  change t.fields < u.fields at h
  simp only [DateTime.fields, List.cons_lt_cons_iff, List.not_lt_nil, and_false, or_false] at h
  rcases h with hyear | ⟨hyear, hmonth | ⟨hmonth, hday | ⟨hday, htime⟩⟩⟩
  · apply toMicroseconds_lt_of_toordinal
    calc t.toordinal
      _ ≤ daysBeforeYear (t.year + 1) := (denotes_toordinal t).within.2
      _ ≤ daysBeforeYear u.year := daysBeforeYear_mono hyear
      _ < u.toordinal := (denotes_toordinal u).within.1
  · apply toMicroseconds_lt_of_toordinal
    have hbefore := daysBeforeMonth_lt t.year t.month_range.1 hmonth u.month_range.2
    have hlast := t.day_range.2
    have hfirst := u.day_range.1
    simp only [DateTime.toordinal, ← hyear]
    omega
  · apply toMicroseconds_lt_of_toordinal
    simp only [DateTime.toordinal, ← hyear, ← hmonth]
    omega
  · have hsame : t.toordinal = u.toordinal := by
      simp only [DateTime.toordinal, hyear, hmonth, hday]
    have hlt : timeOfDay t < timeOfDay u := by
      have hminute := t.minute_range
      have hsecond := t.second_range
      have hmicrosecond := t.microsecond_range
      simp only [timeOfDay]
      omega
    rw [toMicroseconds_eq, toMicroseconds_eq, hsame]
    omega

/-- `datetime.max` -/
def latest : DateTime where
  year := 9999
  month := 12
  day := 31
  hour := 23
  minute := 59
  second := 59
  microsecond := 999999
  year_range := by decide
  month_range := by decide
  day_range := by decide
  hour_range := by decide
  minute_range := by decide
  second_range := by decide
  microsecond_range := by decide

theorem latest_toMicroseconds : latest.toMicroseconds = 3652060 * microsecondsPerDay - 1 := by
  decide

theorem toMicroseconds_range (t : DateTime) :
    microsecondsPerDay ≤ t.toMicroseconds ∧ t.toMicroseconds ≤ latest.toMicroseconds := by
  obtain ⟨hfirst, hlast⟩ := (denotes_toordinal t).range
  have htime := timeOfDay_lt t
  rw [latest_toMicroseconds, toMicroseconds_eq]
  simp only [microsecondsPerDay] at htime ⊢
  omega

theorem ofFields_eq_some {year month day hour minute second microsecond : Nat}
    (hdate : (1 ≤ year ∧ year ≤ 9999) ∧ (1 ≤ month ∧ month ≤ 12) ∧
      (1 ≤ day ∧ day ≤ daysInMonth year month))
    (htime : hour < 24 ∧ minute < 60 ∧ second < 60 ∧ microsecond < 1000000) :
    ∃ r, DateTime.ofFields year month day hour minute second microsecond = some r ∧
      r.toordinal = daysBeforeYear year + daysBeforeMonth year month + day ∧
      timeOfDay r = ((hour * 60 + minute) * 60 + second) * 1000000 + microsecond := by
  obtain ⟨hyear, hmonth, hday⟩ := hdate
  rw [DateTime.ofFields, dif_pos ⟨hyear, hmonth, hday, htime⟩]
  exact ⟨_, rfl, rfl, rfl⟩

theorem add_of_range {t : DateTime} {delta : Int}
    (h : microsecondsPerDay ≤ t.toMicroseconds + delta ∧
      t.toMicroseconds + delta ≤ latest.toMicroseconds) :
    ∃ r, t.add delta = some r ∧ r.toMicroseconds = t.toMicroseconds + delta := by
  obtain ⟨total, htotal⟩ : ∃ total, total = t.toMicroseconds + delta := ⟨_, rfl⟩
  obtain ⟨ordinal, hordinal⟩ : ∃ n, n = (total / microsecondsPerDay).toNat := ⟨_, rfl⟩
  obtain ⟨rest, hrest⟩ : ∃ n, n = (total % microsecondsPerDay).toNat := ⟨_, rfl⟩
  rw [← htotal, latest_toMicroseconds] at h
  have hdays : 0 < total / microsecondsPerDay ∧ total / microsecondsPerDay ≤ 3652059 := by
    simp only [microsecondsPerDay] at h ⊢
    omega
  have hsplit : total = ordinal * microsecondsPerDay + rest ∧ rest < 86400000000 := by
    simp only [microsecondsPerDay] at h hordinal hrest ⊢
    omega
  obtain ⟨year, month, day, hdate, hdenotes⟩ := ord2ymd_denotes (show
    0 < ordinal ∧ ordinal ≤ 3652059 by omega)
  simp only [DateTime.add, ← htotal, ← hordinal, ← hrest, if_pos hdays, hdate]
  obtain ⟨r, hfields, htoordinal, htime⟩ := ofFields_eq_some
    ⟨hdenotes.year_range, hdenotes.month_range, hdenotes.day_range⟩
    (show rest / 3600000000 < 24 ∧ rest / 60000000 % 60 < 60 ∧ rest / 1000000 % 60 < 60 ∧
      rest % 1000000 < 1000000 by omega)
  refine ⟨r, hfields, ?_⟩
  have hclock : timeOfDay r = rest := by omega
  rw [toMicroseconds_eq, htoordinal, hdenotes.ordinal_eq, hclock, hsplit.1]

theorem range_of_add {t r : DateTime} {delta : Int} (h : t.add delta = some r) :
    microsecondsPerDay ≤ t.toMicroseconds + delta ∧
      t.toMicroseconds + delta ≤ latest.toMicroseconds := by
  rw [latest_toMicroseconds]
  simp only [DateTime.add] at h
  split at h
  · rename_i hdays
    simp only [microsecondsPerDay] at hdays ⊢
    omega
  · cases h

theorem add_eq_some_iff {t r : DateTime} {delta : Int} :
    t.add delta = some r ↔ r.toMicroseconds = t.toMicroseconds + delta := by
  constructor
  · intro h
    obtain ⟨r', hadd, hsum⟩ := add_of_range (range_of_add h)
    rw [h] at hadd
    obtain rfl := Option.some.inj hadd
    exact hsum
  · intro h
    have hrange := toMicroseconds_range r
    rw [h] at hrange
    obtain ⟨r', hadd, hsum⟩ := add_of_range hrange
    rw [toMicroseconds_strictMono.injective (h.trans hsum.symm)]
    exact hadd

theorem roundHalfEven_le {num : Int} {den : Nat} (hden : 0 < den) (k : Int) :
    roundHalfEven num den ≤ k ↔
      2 * num < (2 * k + 1) * den ∨ (2 * num = (2 * k + 1) * den ∧ k % 2 = 0) := by
  obtain ⟨below, hbelow⟩ : ∃ n, n = num / (den : Int) := ⟨_, rfl⟩
  obtain ⟨rest, hrest⟩ : ∃ n, n = num % (den : Int) := ⟨_, rfl⟩
  have hpos : (0 : Int) < den := Int.natCast_pos.mpr hden
  have hnonneg : 0 ≤ rest := hrest ▸ Int.emod_nonneg num hpos.ne'
  have hlt : rest < den := hrest ▸ Int.emod_lt_of_pos num hpos
  have hnum : num = den * below + rest := by
    rw [hbelow, hrest, Int.mul_ediv_add_emod]
  simp only [roundHalfEven, ← hbelow, ← hrest]
  rcases lt_trichotomy below k with hless | rfl | hmore
  · have hbound : (den : Int) * (below + 1) ≤ den * k :=
      Int.mul_le_mul_of_nonneg_left hless hpos.le
    have hhalf : 2 * num < (2 * k + 1) * den := by linarith
    constructor
    · exact fun _ => .inl hhalf
    · intro _
      split_ifs <;> omega
  · have hhalf : (2 * below + 1) * den - 2 * num = den - 2 * rest := by
      rw [hnum]
      ring
    split_ifs <;> omega
  · have hbound : (den : Int) * (k + 1) ≤ den * below :=
      Int.mul_le_mul_of_nonneg_left hmore hpos.le
    have hhalf : (2 * k + 1) * den < 2 * num := by linarith
    constructor
    · intro hle
      split_ifs at hle <;> omega
    · rintro (hlow | ⟨hlow, -⟩)
      · exact absurd hlow (not_lt.mpr hhalf.le)
      · exact absurd hlow hhalf.ne'

theorem microseconds_le (value : Rat) (k : Int) :
    roundHalfEven (value.num * 1000000) value.den ≤ k ↔
      value * 1000000 < k + 1 / 2 ∨ (value * 1000000 = k + 1 / 2 ∧ k % 2 = 0) := by
  have hden : (0 : Rat) < value.den := Nat.cast_pos.mpr value.den_pos
  have hvalue : value * value.den = value.num := Rat.mul_den_eq_num value
  have hscaled : (2 * (value.num * 1000000) : Rat) = 2 * (value * 1000000) * value.den := by
    rw [← hvalue]
    ring
  rw [roundHalfEven_le value.den_pos]
  have hlt : 2 * (value.num * 1000000) < (2 * k + 1) * (value.den : Int) ↔
      value * 1000000 < k + 1 / 2 := by
    rw [← @Int.cast_lt Rat]
    push_cast
    rw [hscaled, mul_lt_mul_iff_left₀ hden]
    constructor <;> intro h <;> linarith
  have heq : 2 * (value.num * 1000000) = (2 * k + 1) * (value.den : Int) ↔
      value * 1000000 = k + 1 / 2 := by
    rw [← @Int.cast_inj Rat]
    push_cast
    rw [hscaled, mul_left_inj' hden.ne']
    constructor <;> intro h <;> linarith
  rw [hlt, heq]

theorem microseconds_pos (value : Rat) :
    0 < roundHalfEven (value.num * 1000000) value.den ↔ 1 / 2 < value * 1000000 := by
  have hzero := microseconds_le value 0
  rw [Int.cast_zero, zero_add, Int.zero_emod, eq_self, and_true, ← le_iff_lt_or_eq] at hzero
  rw [← not_le, hzero, not_le]

end McpGatekeeper.Calendar
