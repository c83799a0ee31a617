import C2Engine.Python.Datetime
import C2Engine.Python.IpAddress
import C2Engine.Python.Join

/-!
# Dates

A date counts days: `civilDate` of a day number can be read back, and so can the text
`strftime('%Y-%m-%d')` of a time whose year is not negative. Two times show the same text exactly
when their clocks show the same day.

## Main definitions

* `Datetime.day`: the day the clock of a time shows.
* `Datetime.utc`: `dt.astimezone(UTC)`.
* `Datetime.InRange`: what every `datetime` has.

## Main results

* `dayOfCivil_civilDate`: the day of a date.
* `strftimeDate_inj`: the text of a date determines the day.
-/

namespace C2Engine.Python

/-! ### The day of a date -/

/-- The number of a date. -/
def dayOfCivil (date : ℤ × ℤ × ℤ) : ℤ :=
  let y := date.1 - (if date.2.1 ≤ 2 then 1 else 0)
  let mp := if date.2.1 ≤ 2 then date.2.1 + 9 else date.2.1 - 3
  let yoe := y % 400
  let doe := 365 * yoe + yoe / 4 - yoe / 100 + ((153 * mp + 2) / 5 + date.2.2 - 1)
  y / 400 * 146097 + doe - 719468

/-- The year of a day in its era, and the day in its year. -/
theorem yearOfEra_bounds {doe yoe c d e f g : ℤ} (h₀ : 0 ≤ doe) (h₁ : doe < 146097)
    (hc : c = doe / 1460) (hf : f = doe / 36524) (hg : g = doe / 146096)
    (hy : yoe = (doe - c + f - g) / 365) (hd : d = yoe / 4) (he : e = yoe / 100) :
    (0 ≤ yoe ∧ yoe ≤ 399) ∧
      0 ≤ doe - (365 * yoe + d - e) ∧ doe - (365 * yoe + d - e) ≤ 365 := by
  have hyoe : 0 ≤ yoe ∧ yoe ≤ 399 := by omega
  refine ⟨hyoe, ?_⟩
  -- the leap days before the day and before its year differ by one at most
  rcases lt_trichotomy c d with hcd | hcd | hcd <;>
    rcases lt_trichotomy e f with hef | hef | hef <;> omega

/-- The date of a day, with the year of the era and the day of the year named. -/
theorem civilDate_eq (days : ℤ) : ∃ era yoe doy : ℤ,
    (0 ≤ yoe ∧ yoe ≤ 399) ∧ (0 ≤ doy ∧ doy ≤ 365) ∧
    days + 719468 = era * 146097 + (365 * yoe + yoe / 4 - yoe / 100 + doy) ∧
    civilDate days =
      (yoe + era * 400 +
        (if (if (5 * doy + 2) / 153 < 10 then (5 * doy + 2) / 153 + 3
          else (5 * doy + 2) / 153 - 9) ≤ 2 then 1 else 0),
        (if (5 * doy + 2) / 153 < 10 then (5 * doy + 2) / 153 + 3 else (5 * doy + 2) / 153 - 9),
        doy - (153 * ((5 * doy + 2) / 153) + 2) / 5 + 1) := by
  have hdoe : 0 ≤ (days + 719468) % 146097 ∧ (days + 719468) % 146097 < 146097 := by omega
  obtain ⟨hyoe, hdoy⟩ := yearOfEra_bounds hdoe.1 hdoe.2 rfl rfl rfl rfl rfl rfl
  refine ⟨(days + 719468) / 146097, _, _, hyoe, hdoy, ?_, rfl⟩
  omega

/-- A date can be read back. -/
theorem dayOfCivil_civilDate (days : ℤ) : dayOfCivil (civilDate days) = days := by
  obtain ⟨era, yoe, doy, hyoe, hdoy, hdays, heq⟩ := civilDate_eq days
  rw [heq]
  generalize hmp : (5 * doy + 2) / 153 = mp
  have hbound : 0 ≤ mp ∧ mp ≤ 11 := by omega
  dsimp only [dayOfCivil]
  by_cases hten : mp < 10
  · have hmonth : ¬ mp + 3 ≤ 2 := by omega
    simp only [if_pos hten, if_neg hmonth]
    have hera : (yoe + era * 400 + 0 - 0) / 400 = era := by omega
    have hmod : (yoe + era * 400 + 0 - 0) % 400 = yoe := by omega
    rw [hera, hmod]
    omega
  · have hmonth : mp - 9 ≤ 2 := by omega
    simp only [if_neg hten, if_pos hmonth]
    have hera : (yoe + era * 400 + 1 - 1) / 400 = era := by omega
    have hmod : (yoe + era * 400 + 1 - 1) % 400 = yoe := by omega
    rw [hera, hmod]
    omega

/-- Different days have different dates. -/
theorem civilDate_injective : Function.Injective civilDate :=
  Function.LeftInverse.injective dayOfCivil_civilDate

/-- From the first day of year 0 on the year is no less, and month and day count from one. -/
theorem civilDate_nonneg {days : ℤ} (h : -719528 ≤ days) :
    0 ≤ (civilDate days).1 ∧ 0 ≤ (civilDate days).2.1 ∧ 0 ≤ (civilDate days).2.2 := by
  obtain ⟨era, yoe, doy, hyoe, hdoy, hdays, heq⟩ := civilDate_eq days
  rw [heq]
  dsimp only
  split_ifs <;> omega

/-! ### The text of a date -/

/-- The digits of a number can be read back. -/
theorem digitsValue_ofNat (n : ℕ) : digitsValue 10 decValue (PyStr.ofNat n) = n := by
  have hfold (cs : List Char) (acc : ℕ) :
      (cs.map cp).foldl (fun n c => n * 10 + decValue c) acc = Nat.ofDigitChars 10 cs acc := by
    induction cs generalizing acc with
    | nil => rfl
    | cons c cs ih =>
      rw [List.map_cons, List.foldl_cons, ih, Nat.ofDigitChars_cons, Nat.mul_comm]
      rfl
  rw [digitsValue, PyStr.ofNat, str_eq, hfold, Nat.toString_eq_ofList_toDigits,
    String.toList_ofList, Nat.ofDigitChars_ten_toDigits]

/-- So can a number with at least two digits. -/
theorem digitsValue_twoDigits (n : ℕ) : digitsValue 10 decValue (twoDigits n) = n := by
  rw [twoDigits]
  split_ifs
  · exact digitsValue_ofNat n
  · exact digitsValue_ofNat n

/-- A number has no dash in it. -/
theorem dash_notMem_ofNat (n : ℕ) : cp '-' ∉ PyStr.ofNat n := fun h =>
  absurd (List.all_eq_true.mp (PyStr.isAsciiDigit_ofNat n) _ h) (by decide)

theorem dash_notMem_twoDigits (n : ℕ) : cp '-' ∉ twoDigits n := by
  rw [twoDigits]
  split_ifs
  · exact List.not_mem_cons_of_ne_of_not_mem (by decide) (dash_notMem_ofNat n)
  · exact dash_notMem_ofNat n

/-- The day the clock shows. -/
def Datetime.day (dt : Datetime) : ℤ := dt.wall / usPerDay

/-- The three numbers of a date, joined by dashes. -/
theorem strftimeDate_eq (dt : Datetime) : dt.strftimeDate = PyStr.join [cp '-']
    [PyStr.ofNat (civilDate dt.day).1.toNat, twoDigits (civilDate dt.day).2.1.toNat,
      twoDigits (civilDate dt.day).2.2.toNat] := by
  simp only [Datetime.strftimeDate, PyStr.join, Datetime.day, List.append_assoc]
  rfl

/-- **The text of a date determines the day.** -/
theorem strftimeDate_inj {dt dt' : Datetime} (h : -719528 ≤ dt.day) (h' : -719528 ≤ dt'.day) :
    dt.strftimeDate = dt'.strftimeDate ↔ dt.day = dt'.day := by
  constructor
  · intro heq
    rw [strftimeDate_eq, strftimeDate_eq] at heq
    have hparts := PyStr.join_inj_of_length (by simp [dash_notMem_ofNat, dash_notMem_twoDigits])
      (by simp [dash_notMem_ofNat, dash_notMem_twoDigits]) heq rfl
    simp only [List.cons.injEq, and_true] at hparts
    obtain ⟨hyear, hmonth, hday⟩ := hparts
    replace hyear := congrArg (digitsValue 10 decValue) hyear
    replace hmonth := congrArg (digitsValue 10 decValue) hmonth
    replace hday := congrArg (digitsValue 10 decValue) hday
    simp only [digitsValue_ofNat, digitsValue_twoDigits] at hyear hmonth hday
    obtain ⟨hy, hm, hd⟩ := civilDate_nonneg h
    obtain ⟨hy', hm', hd'⟩ := civilDate_nonneg h'
    exact civilDate_injective (Prod.ext (by omega) (Prod.ext (by omega) (by omega)))
  · intro heq
    rw [strftimeDate_eq, strftimeDate_eq, heq]

/-! ### Times and offsets -/

/-- `dt.astimezone(UTC)`; a time without an offset is taken as UTC. -/
def Datetime.utc (dt : Datetime) : Datetime := ⟨dt.wall - dt.offset.getD 0, some 0⟩

/-- What every `datetime` has: a year from 1 to 9999, and an offset of less than a day. -/
structure Datetime.InRange (dt : Datetime) : Prop where
  wall : minSecond * usPerSecond ≤ dt.wall ∧ dt.wall < endSecond * usPerSecond
  offset : -usPerDay < dt.offset.getD 0 ∧ dt.offset.getD 0 < usPerDay

theorem Datetime.InRange.day {dt : Datetime} (h : dt.InRange) :
    -719528 ≤ dt.day ∧ -719528 ≤ dt.utc.day := by
  obtain ⟨hwall, hoffset⟩ := h
  simp only [Datetime.day, Datetime.utc, minSecond, usPerDay, usPerSecond] at *
  omega

end C2Engine.Python
