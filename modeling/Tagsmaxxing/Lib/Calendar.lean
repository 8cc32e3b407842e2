import Mathlib.Data.Int.ConditionallyCompleteOrder

/-! # Calendar months

Years are taken from March to February, so that a leap day is the last day of its year. The Gregorian
calendar then repeats every 146097 days, which are four centuries of 36524 days and a leap day; a century
is 25 times four years of 1461 days, less the last of these. `utcMonth` numbers the months from March
2000; later times have later months (`utcMonth_mono`). -/

namespace Calendar

/-- Microseconds since 1970-01-01 00:00 UTC. -/
abbrev Timestamp := Int

/-- The number of a time's day, from 2000-03-01. -/
def utcDay (t : Timestamp) : Int := t / 86400000000 - 11017

/-- Quotient and rest, where the quotient is at most `cap`. -/
def divCapped (cap k d : Int) : Int × Int := (min (d / k) cap, d - k * min (d / k) cap)

/-- The century of a day of a cycle, and the day of the century; the last century has a leap day more. -/
def centuryAndDay (d : Int) : Int × Int := divCapped 3 36524 d

/-- The year of a day of four years, and the day of the year; the last year has the leap day. -/
def yearOfFour (d : Int) : Int × Int := divCapped 3 365 d

/-- The year of a day, from March 2000, and the number of the day in it. -/
def yearAndDay (day : Int) : Int × Int :=
  let century := centuryAndDay (day % 146097)
  let year := yearOfFour (century.2 % 1461)
  (400 * (day / 146097) + 100 * century.1 + 4 * (century.2 / 1461) + year.1, year.2)

/-- The month of a day of a year, from March. -/
def monthOfYear (dayOfYear : Int) : Int := (5 * dayOfYear + 2) / 153

-- March, April, … January, and February with its leap day
example : (List.range 366).map (fun d : ℕ => monthOfYear d) =
    ([31, 30, 31, 30, 31, 31, 30, 31, 30, 31, 31, 29].zipIdx).flatMap fun m =>
      List.replicate m.1 (m.2 : Int) := by
  decide +kernel

/-- The number of a time's month, from March 2000. -/
def utcMonth (t : Timestamp) : Int :=
  12 * (yearAndDay (utcDay t)).1 + monthOfYear (yearAndDay (utcDay t)).2

-- the last microsecond of January 2026 and the first of February
example : (utcMonth 1769903999999999, utcMonth 1769904000000000) = (310, 311) := by decide +kernel

/-! ## Order -/

theorem utcDay_mono {t u : Timestamp} (h : t ≤ u) : utcDay t ≤ utcDay u :=
  Int.sub_le_sub_right (Int.ediv_le_ediv (by decide) h) 11017

variable {d : Int}

theorem centuryAndDay_bounds (h0 : 0 ≤ d) (h : d < 146097) :
    0 ≤ (centuryAndDay d).1 ∧ (centuryAndDay d).1 ≤ 3 ∧ 0 ≤ (centuryAndDay d).2 ∧
      (centuryAndDay d).2 ≤ 36524 := by
  simp only [centuryAndDay, divCapped]
  omega

theorem yearOfFour_bounds (h0 : 0 ≤ d) (h : d < 1461) :
    0 ≤ (yearOfFour d).1 ∧ (yearOfFour d).1 ≤ 3 ∧ 0 ≤ (yearOfFour d).2 ∧ (yearOfFour d).2 ≤ 365 := by
  simp only [yearOfFour, divCapped]
  omega

/-- A later day has a later quotient, or the same one and a later rest. -/
theorem div_lex {k d' : Int} (hk : 0 < k) (h : d ≤ d') : d / k < d' / k ∨ d / k = d' / k ∧ d % k ≤ d' % k := by
  have hq : d / k ≤ d' / k := Int.ediv_le_ediv hk h
  rcases Int.lt_or_eq_of_le hq with hlt | heq
  · exact .inl hlt
  · refine .inr ⟨heq, ?_⟩
    rw [Int.emod_def, Int.emod_def, heq]
    omega

theorem divCapped_lex {cap k d' : Int} (hk : 0 < k) (h : d ≤ d') : (divCapped cap k d).1 < (divCapped cap k d').1 ∨
      (divCapped cap k d).1 = (divCapped cap k d').1 ∧ (divCapped cap k d).2 ≤ (divCapped cap k d').2 := by
  have hq : d / k ≤ d' / k := Int.ediv_le_ediv hk h
  have hmin : min (d / k) cap ≤ min (d' / k) cap := min_le_min_right cap hq
  rcases Int.lt_or_eq_of_le hmin with hlt | heq
  · exact .inl hlt
  · refine .inr ⟨heq, ?_⟩
    simp only [divCapped]
    rw [heq]
    omega

/-- Days are ordered by year, and within a year by the number of the day. -/
theorem yearAndDay_lex {day day' : Int} (h : day ≤ day') :
    (yearAndDay day).1 < (yearAndDay day').1 ∨
      (yearAndDay day).1 = (yearAndDay day').1 ∧ (yearAndDay day).2 ≤ (yearAndDay day').2 := by
  have hc := centuryAndDay_bounds (Int.emod_nonneg day (by decide)) (Int.emod_lt_of_pos day (by decide))
  have hc' := centuryAndDay_bounds (Int.emod_nonneg day' (by decide)) (Int.emod_lt_of_pos day' (by decide))
  simp only [yearAndDay]
  generalize hcentury : centuryAndDay (day % 146097) = century at hc ⊢
  generalize hcentury' : centuryAndDay (day' % 146097) = century' at hc' ⊢
  have hy := yearOfFour_bounds (Int.emod_nonneg century.2 (by decide)) (Int.emod_lt_of_pos century.2 (by decide))
  have hy' := yearOfFour_bounds (Int.emod_nonneg century'.2 (by decide)) (Int.emod_lt_of_pos century'.2 (by decide))
  -- the first of cycle, century, four years and year in which the two days differ decides
  rcases div_lex (by decide : (0 : Int) < 146097) h with hlt | ⟨heq, hle⟩
  · omega
  have hcenturies : century.1 < century'.1 ∨ century.1 = century'.1 ∧ century.2 ≤ century'.2 := by
    rw [← hcentury, ← hcentury']
    exact divCapped_lex (by decide) hle
  rcases hcenturies with hlt | ⟨heq₂, hle₂⟩
  · omega
  rcases div_lex (by decide : (0 : Int) < 1461) hle₂ with hlt | ⟨heq₃, hle₃⟩
  · omega
  have hyears : (yearOfFour (century.2 % 1461)).1 < (yearOfFour (century'.2 % 1461)).1 ∨
      (yearOfFour (century.2 % 1461)).1 = (yearOfFour (century'.2 % 1461)).1 ∧
        (yearOfFour (century.2 % 1461)).2 ≤ (yearOfFour (century'.2 % 1461)).2 :=
    divCapped_lex (by decide) hle₃
  rcases hyears with hlt | ⟨heq₄, hle₄⟩
  · omega
  · exact .inr ⟨by omega, hle₄⟩

theorem dayOfYear_bounds (day : Int) : 0 ≤ (yearAndDay day).2 ∧ (yearAndDay day).2 ≤ 365 :=
  (yearOfFour_bounds (Int.emod_nonneg _ (by decide)) (Int.emod_lt_of_pos _ (by decide))).2.2

theorem utcMonth_mono {t u : Timestamp} (h : t ≤ u) : utcMonth t ≤ utcMonth u := by
  have hbounds := dayOfYear_bounds (utcDay t)
  have hbounds' := dayOfYear_bounds (utcDay u)
  unfold utcMonth monthOfYear
  rcases yearAndDay_lex (utcDay_mono h) with hlt | ⟨heq, hle⟩
  · omega
  · omega

end Calendar
