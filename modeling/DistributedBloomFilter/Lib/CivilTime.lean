import DistributedBloomFilter.Lib.DecimalOrder
import Mathlib.Data.String.Basic

/-!
# Dates

The date and the time of day of an instant in UTC, and their text with the fixed width of the layout
`20060102_150405`.  Days are counted in eras of 400 years that begin on the first of March.  In the years of four
digits the order of the texts is that of the seconds (`stamp_append_lt`).
-/

namespace CivilTime

/-- Year, month and day of a number of days since the first of January 1970. -/
def date (days : Int) : Int × Int × Int :=
  let z := days + 719468
  let era := z / 146097
  let dayOfEra := z % 146097
  let yearOfEra := (dayOfEra - dayOfEra / 1460 + dayOfEra / 36524 - dayOfEra / 146096) / 365
  let dayOfYear := dayOfEra - (365 * yearOfEra + yearOfEra / 4 - yearOfEra / 100)
  let m := (5 * dayOfYear + 2) / 153
  let month := if m < 10 then m + 3 else m - 9
  let year := yearOfEra + era * 400 + (if month ≤ 2 then 1 else 0)
  (year, month, dayOfYear - (153 * m + 2) / 5 + 1)

private def field (width : Nat) (n : Int) : String := String.ofList (Decimal.pad width n.toNat)

/-- The layout `20060102_150405` of an instant in nanoseconds since 1970. -/
def stamp (nanos : Int) : String :=
  let seconds := nanos / 1000000000
  let (year, month, day) := date (seconds / 86400)
  let s := seconds % 86400
  field 4 year ++ field 2 month ++ field 2 day ++ "_" ++ field 2 (s / 3600) ++ field 2 (s / 60 % 60) ++
    field 2 (s % 60)

example : stamp 1772323199999999999 = "20260228_235959" := by decide +kernel

/-! ### The days of an era -/

/-- Centuries `d`, blocks `q` of four years, years `k` and days `s`.  Only the last year of a block has 366 days, and
the last one of a century only at the end of the era. -/
structure InEra (d q k s : Int) : Prop where
  century : 0 ≤ d ∧ d ≤ 3
  block : 0 ≤ q ∧ q ≤ 24
  year : 0 ≤ k ∧ k ≤ 3
  day : 0 ≤ s ∧ s ≤ 365
  common : k < 3 → s < 365
  last : q = 24 → d < 3 → s < 365

theorem exists_inEra {n : Int} (hpos : 0 ≤ n) (hlt : n < 146097) :
    ∃ d q k s, InEra d q k s ∧ n = 36524 * d + 1461 * q + 365 * k + s := by
  by_cases hlast : n = 146096
  · exact ⟨3, 24, 3, 365, ⟨by decide, by decide, by decide, by decide, by decide, by decide⟩, hlast⟩
  obtain ⟨d, r, hd, hr, hn⟩ : ∃ d r : Int, (0 ≤ d ∧ d ≤ 3) ∧ (0 ≤ r ∧ r < 36524) ∧ n = 36524 * d + r :=
    ⟨n / 36524, n % 36524, by omega, by omega, by omega⟩
  obtain ⟨q, t, hq, ht, hr'⟩ : ∃ q t : Int, (0 ≤ q ∧ q ≤ 24) ∧ (0 ≤ t ∧ t < 1461) ∧ r = 1461 * q + t :=
    ⟨r / 1461, r % 1461, by omega, by omega, by omega⟩
  by_cases hk : t < 1095
  · exact ⟨d, q, t / 365, t % 365, ⟨hd, hq, by omega, by omega, by omega, by omega⟩, by omega⟩
  · exact ⟨d, q, 3, t - 1095, ⟨hd, hq, by omega, by omega, by omega, by omega⟩, by omega⟩

namespace InEra

variable {d q k s n : Int}

theorem yearOfEra (h : InEra d q k s) (hn : n = 36524 * d + 1461 * q + 365 * k + s) :
    (n - n / 1460 + n / 36524 - n / 146096) / 365 = 100 * d + 4 * q + k := by
  obtain ⟨hd, hq, hk, hs, hcommon, hlast⟩ := h
  by_cases hend : n = 146096
  · rw [hend]
    omega
  have hcentury : n / 36524 = d := by omega
  have hera : n / 146096 = 0 := by omega
  -- 24 days of a century and one of a block are left over
  have hfour : n / 1460 = 25 * d + q + (24 * d + q + 365 * k + s) / 1460 := by omega
  rw [hcentury, hera, hfour, hn]
  have hyears : k = 0 ∨ k = 1 ∨ k = 2 ∨ k = 3 := by omega
  rcases hyears with rfl | rfl | rfl | rfl
  · omega
  · omega
  · omega
  · omega

theorem dayOfYear (h : InEra d q k s) (hn : n = 36524 * d + 1461 * q + 365 * k + s) {y : Int}
    (hy : y = 100 * d + 4 * q + k) : n - (365 * y + y / 4 - y / 100) = s := by
  obtain ⟨hd, hq, hk, hs, hcommon, hlast⟩ := h
  have hfour : y / 4 = 25 * d + q := by omega
  have hcentury : y / 100 = d := by omega
  rw [hfour, hcentury]
  omega

/-- A later day of an era is in a later year, or later in the same one. -/
theorem lt {d' q' k' s' : Int} (h : InEra d q k s) (h' : InEra d' q' k' s')
    (hlt : 36524 * d + 1461 * q + 365 * k + s < 36524 * d' + 1461 * q' + 365 * k' + s') :
    100 * d + 4 * q + k < 100 * d' + 4 * q' + k' ∨ 100 * d + 4 * q + k = 100 * d' + 4 * q' + k' ∧ s < s' := by
  obtain ⟨hd, hq, hk, hs, hcommon, hlast⟩ := h
  obtain ⟨hd', hq', hk', hs', hcommon', hlast'⟩ := h'
  have hcentury : d ≤ d' := by omega
  omega

end InEra

/-! ### The order of dates -/

/-- The date of the day number `s` of a year that begins on the first of March. -/
def ofMarch (y s : Int) : Int × Int × Int :=
  let m := (5 * s + 2) / 153
  let month := if m < 10 then m + 3 else m - 9
  (y + (if month ≤ 2 then 1 else 0), month, s - (153 * m + 2) / 5 + 1)

/-- The year that begins in March, and the day in it. -/
theorem exists_date_eq_ofMarch (days : Int) :
    ∃ d q k s, InEra d q k s ∧ (days + 719468) % 146097 = 36524 * d + 1461 * q + 365 * k + s ∧
      date days = ofMarch ((days + 719468) / 146097 * 400 + (100 * d + 4 * q + k)) s := by
  obtain ⟨d, q, k, s, h, hn⟩ := exists_inEra (n := (days + 719468) % 146097) (by omega) (by omega)
  refine ⟨d, q, k, s, h, hn, ?_⟩
  unfold date
  dsimp only
  rw [h.yearOfEra hn, h.dayOfYear hn rfl, Int.add_comm (100 * d + 4 * q + k)]
  rfl

/-- Year, month and day decide in this order. -/
def DateLt (a b : Int × Int × Int) : Prop :=
  a.1 < b.1 ∨ a.1 = b.1 ∧ (a.2.1 < b.2.1 ∨ a.2.1 = b.2.1 ∧ a.2.2 < b.2.2)

/-- Months are counted on through the years, in March as in January. -/
theorem ofMarch_spec (y : Int) {s : Int} (hs : 0 ≤ s ∧ s ≤ 365) :
    12 * (ofMarch y s).1 + (ofMarch y s).2.1 = 12 * y + (5 * s + 2) / 153 + 3 ∧
      (1 ≤ (ofMarch y s).2.1 ∧ (ofMarch y s).2.1 ≤ 12) ∧ (1 ≤ (ofMarch y s).2.2 ∧ (ofMarch y s).2.2 ≤ 31) := by
  have hm : 0 ≤ (5 * s + 2) / 153 ∧ (5 * s + 2) / 153 ≤ 11 := by omega
  have hday : 1 ≤ s - (153 * ((5 * s + 2) / 153) + 2) / 5 + 1 ∧ s - (153 * ((5 * s + 2) / 153) + 2) / 5 + 1 ≤ 31 := by
    omega
  unfold ofMarch
  dsimp only
  refine ⟨?_, ?_, hday⟩
  · split <;> split <;> omega
  · split <;> omega

theorem ofMarch_lt {y s y' s' : Int} (hs : 0 ≤ s ∧ s ≤ 365) (hs' : 0 ≤ s' ∧ s' ≤ 365)
    (hlt : y < y' ∨ y = y' ∧ s < s') : DateLt (ofMarch y s) (ofMarch y' s') := by
  obtain ⟨hcount, hmonth, -⟩ := ofMarch_spec y hs
  obtain ⟨hcount', hmonth', -⟩ := ofMarch_spec y' hs'
  have hm : 0 ≤ (5 * s + 2) / 153 ∧ (5 * s + 2) / 153 ≤ 11 := by omega
  have hm' : 0 ≤ (5 * s' + 2) / 153 ∧ (5 * s' + 2) / 153 ≤ 11 := by omega
  have hday : (ofMarch y s).2.2 = s - (153 * ((5 * s + 2) / 153) + 2) / 5 + 1 := rfl
  have hday' : (ofMarch y' s').2.2 = s' - (153 * ((5 * s' + 2) / 153) + 2) / 5 + 1 := rfl
  unfold DateLt
  rcases hlt with hlt | ⟨rfl, hlt⟩
  · omega
  · have hle : (5 * s + 2) / 153 ≤ (5 * s' + 2) / 153 := Int.ediv_le_ediv (by decide) (by omega)
    rcases Int.lt_or_eq_of_le hle with hmlt | hmeq
    · omega
    · rw [hmeq] at hcount hday
      omega

theorem date_lt {a b : Int} (h : a < b) : DateLt (date a) (date b) := by
  obtain ⟨d, q, k, s, hera, hn, hdate⟩ := exists_date_eq_ofMarch a
  obtain ⟨d', q', k', s', hera', hn', hdate'⟩ := exists_date_eq_ofMarch b
  rw [hdate, hdate']
  refine ofMarch_lt hera.day hera'.day ?_
  rcases Int.lt_or_eq_of_le (show (a + 719468) / 146097 ≤ (b + 719468) / 146097 by omega) with hlt | heq
  · have hyear := hera.year
    have hblock := hera.block
    have hcentury := hera.century
    have hyear' := hera'.year
    have hblock' := hera'.block
    have hcentury' := hera'.century
    left
    omega
  · have hday : 36524 * d + 1461 * q + 365 * k + s < 36524 * d' + 1461 * q' + 365 * k' + s' := by
      rw [← hn, ← hn']
      omega
    rw [heq]
    refine (hera.lt hera' hday).imp (fun hlt => Int.add_lt_add_left hlt _) fun ⟨hyear, hlt⟩ => ?_
    exact ⟨by rw [hyear], hlt⟩

theorem date_range (days : Int) :
    (1 ≤ (date days).2.1 ∧ (date days).2.1 ≤ 12) ∧ (1 ≤ (date days).2.2 ∧ (date days).2.2 ≤ 31) := by
  obtain ⟨d, q, k, s, hera, -, hdate⟩ := exists_date_eq_ofMarch days
  rw [hdate]
  exact (ofMarch_spec _ hera.day).2

/-! ### The day of a date -/

/-- The number of days since the first of January 1970. -/
def dayNumber (year month day : Int) : Int :=
  let y := if month ≤ 2 then year - 1 else year
  let m := if month ≤ 2 then month + 9 else month - 3
  let yearOfEra := y % 400
  y / 400 * 146097 + (yearOfEra * 365 + yearOfEra / 4 - yearOfEra / 100 + ((153 * m + 2) / 5 + day - 1)) - 719468

def isLeap (year : Int) : Bool := year % 4 = 0 && (year % 100 ≠ 0 || year % 400 = 0)

/-- The number of days of a month. -/
def daysIn (month year : Int) : Int :=
  if month = 2 then (if isLeap year then 29 else 28)
  else if month = 4 ∨ month = 6 ∨ month = 9 ∨ month = 11 then 30
  else 31

theorem dayNumber_date (days : Int) : dayNumber (date days).1 (date days).2.1 (date days).2.2 = days := by
  obtain ⟨d, q, k, s, hera, hn, hdate⟩ := exists_date_eq_ofMarch days
  obtain ⟨hd, hq, hk, hs, -, -⟩ := hera
  rw [hdate]
  have hm : 0 ≤ (5 * s + 2) / 153 ∧ (5 * s + 2) / 153 ≤ 11 := by omega
  have hsplit := Int.emod_add_mul_ediv (days + 719468) 146097
  generalize (days + 719468) / 146097 = era at hsplit ⊢
  -- the year that begins in March, and the month in it
  have hyear : (if (ofMarch (era * 400 + (100 * d + 4 * q + k)) s).2.1 ≤ 2
      then (ofMarch (era * 400 + (100 * d + 4 * q + k)) s).1 - 1
      else (ofMarch (era * 400 + (100 * d + 4 * q + k)) s).1) = era * 400 + (100 * d + 4 * q + k) := by
    unfold ofMarch
    dsimp only
    split <;> omega
  have hmonth : (if (ofMarch (era * 400 + (100 * d + 4 * q + k)) s).2.1 ≤ 2
      then (ofMarch (era * 400 + (100 * d + 4 * q + k)) s).2.1 + 9
      else (ofMarch (era * 400 + (100 * d + 4 * q + k)) s).2.1 - 3) = (5 * s + 2) / 153 := by
    unfold ofMarch
    dsimp only
    split <;> split <;> omega
  have hday : (ofMarch (era * 400 + (100 * d + 4 * q + k)) s).2.2 = s - (153 * ((5 * s + 2) / 153) + 2) / 5 + 1 := rfl
  unfold dayNumber
  dsimp only
  rw [hyear, hmonth, hday]
  have hmod : (era * 400 + (100 * d + 4 * q + k)) % 400 = 100 * d + 4 * q + k := by omega
  have hdiv : (era * 400 + (100 * d + 4 * q + k)) / 400 = era := by omega
  have hfour : (100 * d + 4 * q + k) / 4 = 25 * d + q := by omega
  have hcentury : (100 * d + 4 * q + k) / 100 = d := by omega
  rw [hmod, hdiv, hfour, hcentury]
  omega

/-- No month has more days than it has. -/
theorem day_le_daysIn (days : Int) : (date days).2.2 ≤ daysIn (date days).2.1 (date days).1 := by
  obtain ⟨d, q, k, s, hera, hn, hdate⟩ := exists_date_eq_ofMarch days
  obtain ⟨hd, hq, hk, hs, hcommon, hlast⟩ := hera
  rw [hdate]
  generalize (days + 719468) / 146097 = era
  unfold ofMarch daysIn
  dsimp only
  have hm : 0 ≤ (5 * s + 2) / 153 ∧ (5 * s + 2) / 153 ≤ 11 := by omega
  generalize hmonth : (5 * s + 2) / 153 = m at hm
  by_cases hfeb : m = 11
  · -- February of the next year: only the last day of a leap year is its 29th
    subst hfeb
    have hday : s - (153 * 11 + 2) / 5 + 1 ≤ 28 ∨ s = 365 := by omega
    show s - (153 * 11 + 2) / 5 + 1 ≤ if isLeap (era * 400 + (100 * d + 4 * q + k) + 1) = true then 29 else 28
    rcases hday with hday | rfl
    · split <;> omega
    · have hleap : isLeap (era * 400 + (100 * d + 4 * q + k) + 1) = true := by
        simp only [isLeap, Bool.and_eq_true, Bool.or_eq_true, decide_eq_true_eq]
        omega
      rw [if_pos hleap]
      decide
  · have hcases : m = 0 ∨ m = 1 ∨ m = 2 ∨ m = 3 ∨ m = 4 ∨ m = 5 ∨ m = 6 ∨ m = 7 ∨ m = 8 ∨ m = 9 ∨ m = 10 := by omega
    rcases hcases with rfl | rfl | rfl | rfl | rfl | rfl | rfl | rfl | rfl | rfl | rfl
    all_goals
      simp
      omega

/-! ### The order of the texts -/

/-- The year of an instant, in nanoseconds, has four digits. -/
def FourDigits (nanos : Int) : Prop :=
  0 ≤ (date (nanos / 1000000000 / 86400)).1 ∧ (date (nanos / 1000000000 / 86400)).1 ≤ 9999

instance (nanos : Int) : Decidable (FourDigits nanos) := inferInstanceAs (Decidable (_ ∧ _))

/-- Fields of one width are compared as numbers, and then what comes after them. -/
private theorem field_append_lt_iff {width : Nat} (hwidth : 0 < width) {a b : Int} (ha : 0 ≤ a ∧ a.toNat < 10 ^ width)
    (hb : 0 ≤ b ∧ b.toNat < 10 ^ width) (u v : String) :
    field width a ++ u < field width b ++ v ↔ a < b ∨ a = b ∧ u < v := by
  have hlen := (Decimal.length_pad hwidth ha.2).trans (Decimal.length_pad hwidth hb.2).symm
  have h := Decimal.append_lt_append_iff (Decimal.isDigit_pad width a.toNat)
    (Decimal.isDigit_pad width b.toNat) hlen u.toList v.toList
  have hnum : (a < b ↔ a.toNat < b.toNat) ∧ (a = b ↔ a.toNat = b.toNat) := by omega
  rw [Decimal.ofDigitChars_pad, Decimal.ofDigitChars_pad, ← hnum.1, ← hnum.2] at h
  rw [String.lt_iff_toList_lt, String.toList_append, String.toList_append, field, field, String.toList_ofList,
    String.toList_ofList, h, String.lt_iff_toList_lt]

private theorem mark_append_lt_iff (u v : String) : "_" ++ u < "_" ++ v ↔ u < v := by
  rw [String.lt_iff_toList_lt, String.lt_iff_toList_lt, String.toList_append, String.toList_append]
  show '_' :: u.toList < '_' :: v.toList ↔ _
  rw [List.cons_lt_cons_iff]
  simp

private theorem stamp_append (nanos : Int) (u : String) : stamp nanos ++ u =
    field 4 (date (nanos / 1000000000 / 86400)).1 ++ (field 2 (date (nanos / 1000000000 / 86400)).2.1 ++
      (field 2 (date (nanos / 1000000000 / 86400)).2.2 ++ ("_" ++ (field 2 (nanos / 1000000000 % 86400 / 3600) ++
        (field 2 (nanos / 1000000000 % 86400 / 60 % 60) ++ (field 2 (nanos / 1000000000 % 86400 % 60) ++ u)))))) := by
  simp only [stamp, String.append_assoc]

/-- A later second comes later in the order of the texts, whatever follows. -/
theorem stamp_append_lt {a b : Int} (ha : FourDigits a) (hb : FourDigits b)
    (h : a / 1000000000 < b / 1000000000) (u v : String) : stamp a ++ u < stamp b ++ v := by
  rw [stamp_append, stamp_append]
  unfold FourDigits at ha hb
  generalize a / 1000000000 = s at h ha ⊢
  generalize b / 1000000000 = t at h hb ⊢
  obtain ⟨hmonth, hday⟩ := date_range (s / 86400)
  obtain ⟨hmonth', hday'⟩ := date_range (t / 86400)
  rw [field_append_lt_iff (by decide) (by omega) (by omega), field_append_lt_iff (by decide) (by omega) (by omega),
    field_append_lt_iff (by decide) (by omega) (by omega), mark_append_lt_iff,
    field_append_lt_iff (by decide) (by omega) (by omega), field_append_lt_iff (by decide) (by omega) (by omega),
    field_append_lt_iff (by decide) (by omega) (by omega)]
  rcases Int.lt_or_eq_of_le (show s / 86400 ≤ t / 86400 by omega) with hlt | heq
  · have hdate := date_lt hlt
    unfold DateLt at hdate
    omega
  · -- the same day
    rw [heq]
    omega

end CivilTime
