import Mathlib.Tactic

-- The Gregorian calendar. A year begins with March here, so that a leap day is the last of its year.

namespace Civil

-- A day by its year and the days of that year before it.
structure Ordinal where
  year : Int
  day  : Int

structure Date where
  year  : Int
  month : Int
  day   : Int

-- The days from the year zero to a year of the first 400.
def daysBefore (yoe : Int) : Int :=
  365 * yoe + yoe / 4 - yoe / 100

-- Days are counted from the Unix epoch.
def Ordinal.toDays (o : Ordinal) : Int :=
  o.year / 400 * 146097 + daysBefore (o.year % 400) + o.day - 719468

-- The centuries of 400 years but the last are a day short, and so are the years of four years.
def Ordinal.ofDays (z : Int) : Ordinal :=
  let doe := (z + 719468) % 146097
  let century := min 3 (doe / 36524)
  let doc := doe - century * 36524
  let year := min 3 (doc % 1461 / 365)
  { year := (z + 719468) / 146097 * 400 + (century * 100 + doc / 1461 * 4 + year)
    day  := doc % 1461 - year * 365 }

def Ordinal.toDate (o : Ordinal) : Date :=
  let month := (5 * o.day + 2) / 153
  { year  := if month < 10 then o.year else o.year + 1
    month := if month < 10 then month + 3 else month - 9
    day   := o.day - (153 * month + 2) / 5 + 1 }

def Date.toOrdinal (d : Date) : Ordinal :=
  let month := if d.month ≤ 2 then d.month + 9 else d.month - 3
  { year := if d.month ≤ 2 then d.year - 1 else d.year
    day  := (153 * month + 2) / 5 + d.day - 1 }

theorem daysBefore_eq {a b c : Int} (hb : 0 ≤ b ∧ b ≤ 24) (hc : 0 ≤ c ∧ c ≤ 3) :
    daysBefore (a * 100 + b * 4 + c) = 36524 * a + 1461 * b + 365 * c := by
  rw [daysBefore]
  omega

theorem ofDays_day (z : Int) : 0 ≤ (Ordinal.ofDays z).day ∧ (Ordinal.ofDays z).day < 366 := by
  simp only [Ordinal.ofDays]
  omega

theorem ofDays_year (z : Int) : (Ordinal.ofDays z).year / 400 = (z + 719468) / 146097 := by
  simp only [Ordinal.ofDays]
  omega

theorem toDays_ofDays (z : Int) : (Ordinal.ofDays z).toDays = z := by
  rw [Ordinal.toDays, ofDays_year]
  simp only [Ordinal.ofDays]
  generalize hdoe : (z + 719468) % 146097 = doe
  generalize hcen : min 3 (doe / 36524) = century
  generalize hdoc : doe - century * 36524 = doc
  generalize hyear : min 3 (doc % 1461 / 365) = year
  have hmod : ((z + 719468) / 146097 * 400 + (century * 100 + doc / 1461 * 4 + year)) % 400 =
      century * 100 + doc / 1461 * 4 + year := by omega
  rw [hmod, daysBefore_eq (by omega) (by omega)]
  omega

variable {o : Ordinal}

theorem toDate_range (h : 0 ≤ o.day ∧ o.day < 366) :
    0 < o.toDate.month ∧ o.toDate.month ≤ 12 ∧ 0 < o.toDate.day ∧ o.toDate.day ≤ 31 ∧
      o.year ≤ o.toDate.year ∧ o.toDate.year ≤ o.year + 1 := by
  simp only [Ordinal.toDate]
  omega

theorem toOrdinal_toDate (h : 0 ≤ o.day ∧ o.day < 366) : o.toDate.toOrdinal = o := by
  rcases o with ⟨year, day⟩
  simp only [Ordinal.toDate, Date.toOrdinal, Ordinal.mk.injEq]
  simp only at h
  omega

end Civil
