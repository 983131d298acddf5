import DistributedBloomFilter.Lib.CivilTime
import Mathlib.Data.List.DropRight

/-!
# Times as texts

The layout `2006-01-02T15:04:05.999999999Z07:00` of an instant, in a zone that is some seconds ahead of UTC.  The zone
is written in whole minutes, so that an instant is read back where the zone is a number of minutes
(`parse_format`).
-/

namespace Rfc3339

open Decimal (pad)

/-- The fraction of a second, without the zeros at its end. -/
def fraction (nanos : Int) : List Char := if nanos = 0 then [] else '.' :: (pad 9 nanos.toNat).rdropWhile (· = '0')

def zone (offset : Int) : List Char :=
  let minutes := (offset.tdiv 60).natAbs
  if offset = 0 then ['Z']
  else (if offset.tdiv 60 < 0 then '-' else '+') :: (pad 2 (minutes / 60) ++ ':' :: pad 2 (minutes % 60))

/-- The date and the time of day that clocks show, in nanoseconds as if they were in UTC. -/
def clock (nanos : Int) : List Char :=
  let seconds := nanos / 1000000000
  let date := CivilTime.date (seconds / 86400)
  let s := seconds % 86400
  pad 4 date.1.toNat ++ '-' :: (pad 2 date.2.1.toNat ++ '-' :: (pad 2 date.2.2.toNat ++ 'T' ::
    (pad 2 (s / 3600).toNat ++ ':' :: (pad 2 (s / 60 % 60).toNat ++ ':' :: (pad 2 (s % 60).toNat ++
      fraction (nanos % 1000000000))))))

/-- An instant in a zone that is `offset` seconds ahead. -/
def format (offset nanos : Int) : List Char := clock (nanos + offset * 1000000000) ++ zone offset

/-- The text, if the year has four digits and the zone is less than a day away. -/
def marshal (offset nanos : Int) : Except String (List Char) :=
  if ¬ CivilTime.FourDigits (nanos + offset * 1000000000) then .error "year outside of range [0,9999]"
  else if 24 ≤ (offset.tdiv 60).natAbs / 60 then .error "timezone hour outside of range [0,23]"
  else .ok (format offset nanos)

/-- Digits alone, with a value in a range. -/
def parseUint (digits : List Char) (min max : Nat) : Option Nat :=
  let n := Nat.ofDigitChars 10 digits 0
  if digits.all Char.isDigit ∧ min ≤ n ∧ n ≤ max then some n else none

/-- The nanoseconds of a fraction, and what follows it; digits after the ninth are ignored. -/
def parseFraction (text : List Char) : Nat × List Char :=
  match text with
  | '.' :: rest =>
    let digits := rest.takeWhile Char.isDigit
    if digits = [] then (0, text)
    else (Nat.ofDigitChars 10 (digits.take 9) 0 * 10 ^ (9 - digits.length), rest.dropWhile Char.isDigit)
  | _ => (0, text)

/-- The seconds a zone is ahead. -/
def parseZone (text : List Char) : Option Int :=
  match text with
  | ['Z'] => some 0
  | [sign, h₀, h₁, colon, m₀, m₁] =>
    match parseUint [h₀, h₁] 0 23, parseUint [m₀, m₁] 0 59 with
    | some h, some m =>
      if (sign = '-' ∨ sign = '+') ∧ colon = ':' then
        some (if sign = '-' then -((h * 60 + m) * 60 : Nat) else ((h * 60 + m) * 60 : Nat))
      else none
    | _, _ => none
  | _ => none

/-- The instant of a text in the layout. -/
def parse (text : List Char) : Option Int :=
  match text with
  | y₀ :: y₁ :: y₂ :: y₃ :: p₄ :: o₀ :: o₁ :: p₇ :: d₀ :: d₁ :: p₁₀ :: h₀ :: h₁ :: p₁₃ :: n₀ :: n₁ :: p₁₆ ::
      s₀ :: s₁ :: rest =>
    match parseUint [y₀, y₁, y₂, y₃] 0 9999, parseUint [o₀, o₁] 1 12 with
    | some year, some month =>
      match parseUint [d₀, d₁] 1 (CivilTime.daysIn month year).toNat, parseUint [h₀, h₁] 0 23,
        parseUint [n₀, n₁] 0 59, parseUint [s₀, s₁] 0 59 with
      | some day, some hour, some min, some sec =>
        if p₄ = '-' ∧ p₇ = '-' ∧ p₁₀ = 'T' ∧ p₁₃ = ':' ∧ p₁₆ = ':' then
          let (nsec, rest) := parseFraction rest
          match parseZone rest with
          | some offset =>
            some ((CivilTime.dayNumber year month day * 86400 +
              (hour * 3600 + min * 60 + sec) - offset) * 1000000000 + nsec)
          | none => none
        else none
      | _, _, _, _ => none
    | _, _ => none
  | _ => none

example : format 0 1773446400000000000 = "2026-03-14T00:00:00Z".toList := by decide +kernel

example : format 28800 1773446400120000000 = "2026-03-14T08:00:00.12+08:00".toList := by decide +kernel

example : parse "2026-03-14T08:00:00.12+08:00".toList = some 1773446400120000000 := by decide +kernel

example : parse "2026-02-29T08:00:00Z".toList = none := by decide +kernel

/-! ### A text is read back -/

private theorem parseUint_pad (width n min max : Nat) (hmin : min ≤ n) (hmax : n ≤ max) :
    parseUint (pad width n) min max = some n := by
  have hdigits : (pad width n).all Char.isDigit = true := List.all_eq_true.2 (Decimal.isDigit_pad width n)
  simp only [parseUint, Decimal.ofDigitChars_pad, hdigits]
  exact if_pos ⟨trivial, hmin, hmax⟩

private theorem exists_pad_two (n : Nat) (hn : n < 100) : ∃ a b, pad 2 n = [a, b] := by
  have hlen : (pad 2 n).length = 2 := Decimal.length_pad (by decide) hn
  match pad 2 n, hlen with
  | [a, b], _ => exact ⟨a, b, rfl⟩

private theorem exists_pad_four (n : Nat) (hn : n < 10000) : ∃ a b c d, pad 4 n = [a, b, c, d] := by
  have hlen : (pad 4 n).length = 4 := Decimal.length_pad (by decide) hn
  match pad 4 n, hlen with
  | [a, b, c, d], _ => exact ⟨a, b, c, d, rfl⟩

/-- What follows the seconds: not a digit of a fraction. -/
def Follows (rest : List Char) : Prop := ∃ c cs, rest = c :: cs ∧ c.isDigit = false ∧ c ≠ '.'

private theorem follows_zone (offset : Int) : Follows (zone offset) := by
  unfold zone
  dsimp only
  split
  · exact ⟨_, _, rfl, by decide, by decide⟩
  · split <;> exact ⟨_, _, rfl, by decide, by decide⟩

private theorem parseFraction_of_follows {rest : List Char} (h : Follows rest) : parseFraction rest = (0, rest) := by
  obtain ⟨c, cs, rfl, -, hdot⟩ := h
  unfold parseFraction
  split
  · rename_i hcons
    exact absurd (List.cons.inj hcons).1 hdot
  · rfl

/-- Digits without the zeros at their end, and how many zeros these are. -/
private theorem rdropWhile_zeros (ds : List Char) :
    ∃ k, ds = ds.rdropWhile (· = '0') ++ List.replicate k '0' := by
  refine ⟨(ds.rtakeWhile (· = '0')).length, ?_⟩
  have hzeros : ds.rtakeWhile (· = '0') = List.replicate (ds.rtakeWhile (· = '0')).length '0' := by
    rw [List.eq_replicate_iff]
    exact ⟨rfl, fun c hc => by simpa using List.mem_rtakeWhile_imp hc⟩
  rw [← hzeros, List.rdropWhile_append_rtakeWhile]

private theorem parseFraction_fraction (nanos : Int) (hpos : 0 ≤ nanos) (hlt : nanos < 1000000000) {rest : List Char}
    (hrest : Follows rest) : parseFraction (fraction nanos ++ rest) = (nanos.toNat, rest) := by
  by_cases hzero : nanos = 0
  · subst hzero
    exact parseFraction_of_follows hrest
  obtain ⟨k, hk⟩ := rdropWhile_zeros (pad 9 nanos.toNat)
  have hlen : (pad 9 nanos.toNat).length = 9 := Decimal.length_pad (by decide) (by omega)
  have hvalue := Decimal.ofDigitChars_pad 9 nanos.toNat
  have hdigits := Decimal.isDigit_pad 9 nanos.toNat
  rw [fraction, if_neg hzero]
  generalize (pad 9 nanos.toNat).rdropWhile (· = '0') = ds at hk ⊢
  rw [hk] at hlen hvalue hdigits
  rw [List.length_append, List.length_replicate] at hlen
  rw [Nat.ofDigitChars_append, Nat.ofDigitChars_replicate_zero] at hvalue
  have hds : ∀ c ∈ ds, c.isDigit = true := fun c hc => hdigits c (List.mem_append_left _ hc)
  have hne : ds ≠ [] := by
    rintro rfl
    simp at hvalue
    omega
  obtain ⟨c, cs, rfl, hdigit, -⟩ := hrest
  have htake : (ds ++ c :: cs).takeWhile Char.isDigit = ds := by
    rw [List.takeWhile_append_of_pos hds, List.takeWhile_cons_of_neg (by simp [hdigit]), List.append_nil]
  have hdrop : (ds ++ c :: cs).dropWhile Char.isDigit = c :: cs := by
    rw [List.dropWhile_append_of_pos hds, List.dropWhile_cons_of_neg (by simp [hdigit])]
  simp only [List.cons_append, parseFraction, htake, hdrop, if_neg hne]
  rw [List.take_of_length_le (by omega), show 9 - ds.length = k by omega, Nat.mul_comm, hvalue]

private theorem parseZone_zone {offset : Int} (hminutes : offset % 60 = 0) (hlow : -86400 < offset)
    (hhigh : offset < 86400) : parseZone (zone offset) = some offset := by
  by_cases hzero : offset = 0
  · subst hzero
    rfl
  obtain ⟨m, rfl⟩ : ∃ m, offset = m * 60 := ⟨offset / 60, by omega⟩
  have hdiv : (m * 60).tdiv 60 = m := Int.mul_tdiv_cancel m (by decide)
  obtain ⟨a, b, hhour⟩ := exists_pad_two (m.natAbs / 60) (by omega)
  obtain ⟨c, d, hmin⟩ := exists_pad_two (m.natAbs % 60) (by omega)
  have hhour' := parseUint_pad 2 (m.natAbs / 60) 0 23 (by omega) (by omega)
  have hmin' := parseUint_pad 2 (m.natAbs % 60) 0 59 (by omega) (by omega)
  rw [hhour] at hhour'
  rw [hmin] at hmin'
  unfold zone
  dsimp only
  rw [if_neg hzero, hdiv, hhour, hmin]
  by_cases hneg : m < 0
  · rw [if_pos hneg]
    simp only [List.cons_append, List.nil_append, parseZone, hhour', hmin']
    rw [if_pos (by decide), if_pos trivial]
    congr 1
    omega
  · rw [if_neg hneg]
    simp only [List.cons_append, List.nil_append, parseZone, hhour', hmin']
    rw [if_pos (by decide), if_neg (by decide)]
    congr 1
    omega

/-- The instant is read back in every zone of whole minutes. -/
theorem parse_format {offset nanos : Int} (hyear : CivilTime.FourDigits (nanos + offset * 1000000000))
    (hminutes : offset % 60 = 0) (hlow : -86400 < offset) (hhigh : offset < 86400) :
    parse (format offset nanos) = some nanos := by
  have hzone := parseZone_zone hminutes hlow hhigh
  unfold format clock
  dsimp only
  unfold CivilTime.FourDigits at hyear
  generalize hlocal : nanos + offset * 1000000000 = local' at hyear ⊢
  obtain ⟨hmonth, hday⟩ := CivilTime.date_range (local' / 1000000000 / 86400)
  have hdays := CivilTime.day_le_daysIn (local' / 1000000000 / 86400)
  have hnumber := CivilTime.dayNumber_date (local' / 1000000000 / 86400)
  generalize CivilTime.date (local' / 1000000000 / 86400) = date at hyear hmonth hday hdays hnumber ⊢
  obtain ⟨year, month, day⟩ := date
  dsimp only at hyear hmonth hday hdays hnumber ⊢
  obtain ⟨y₀, y₁, y₂, y₃, hy⟩ := exists_pad_four year.toNat (by omega)
  obtain ⟨o₀, o₁, ho⟩ := exists_pad_two month.toNat (by omega)
  obtain ⟨d₀, d₁, hd⟩ := exists_pad_two day.toNat (by omega)
  obtain ⟨h₀, h₁, hh⟩ := exists_pad_two (local' / 1000000000 % 86400 / 3600).toNat (by omega)
  obtain ⟨n₀, n₁, hn⟩ := exists_pad_two (local' / 1000000000 % 86400 / 60 % 60).toNat (by omega)
  obtain ⟨s₀, s₁, hs⟩ := exists_pad_two (local' / 1000000000 % 86400 % 60).toNat (by omega)
  have hy' := parseUint_pad 4 year.toNat 0 9999 (by omega) (by omega)
  have ho' := parseUint_pad 2 month.toNat 1 12 (by omega) (by omega)
  have hd' := parseUint_pad 2 day.toNat 1 (CivilTime.daysIn month.toNat year.toNat).toNat (by omega)
    (by rw [Int.toNat_of_nonneg (by omega), Int.toNat_of_nonneg hyear.1]; omega)
  have hh' := parseUint_pad 2 (local' / 1000000000 % 86400 / 3600).toNat 0 23 (by omega) (by omega)
  have hn' := parseUint_pad 2 (local' / 1000000000 % 86400 / 60 % 60).toNat 0 59 (by omega) (by omega)
  have hs' := parseUint_pad 2 (local' / 1000000000 % 86400 % 60).toNat 0 59 (by omega) (by omega)
  rw [hy] at hy' ⊢
  rw [ho] at ho' ⊢
  rw [hd] at hd' ⊢
  rw [hh] at hh' ⊢
  rw [hn] at hn' ⊢
  rw [hs] at hs' ⊢
  have hfraction := parseFraction_fraction (local' % 1000000000) (by omega) (by omega) (follows_zone offset)
  simp only [List.cons_append, List.nil_append, parse, hy', ho', hd', hh', hn', hs', hfraction, hzone]
  rw [if_pos (by decide), Int.toNat_of_nonneg hyear.1, Int.toNat_of_nonneg (a := month) (by omega),
    Int.toNat_of_nonneg (a := day) (by omega), hnumber]
  congr 1
  omega

end Rfc3339
