import ReplicatedStore.Timestamp.Calendar

/-!
Days and their numbers: every number is that of the day that it stands for, and that day is in the calendar.
-/

namespace ReplicatedStore

namespace CalendarDate

def daysBeforeYear (y : Nat) : Nat :=
  365 * y + y / 4 - y / 100 + y / 400

def yearOfDay (d : Nat) : Nat :=
  (d - d / 1460 + d / 36524 - d / 146096) / 365

theorem yearOfDay_mono {d d' : Nat} (h : d ≤ d') : yearOfDay d ≤ yearOfDay d' := by
  have hleap : d - d / 1460 ≤ d' - d' / 1460 := by omega
  have hcentury : d / 36524 - d / 146096 ≤ d' / 36524 - d' / 146096 := by omega
  have hle : d / 146096 ≤ d / 36524 := by omega
  have hle' : d' / 146096 ≤ d' / 36524 := by omega
  unfold yearOfDay
  apply Nat.div_le_div_right
  omega

theorem yearOfDay_bounds
    : ∀ y < 400, yearOfDay (daysBeforeYear y) = y ∧ yearOfDay (daysBeforeYear (y + 1) - 1) = y ∧
        daysBeforeYear (y + 1) ≤ daysBeforeYear y + (if isLeap ((y : Int) + 1) then 366 else 365) := by
  decide +kernel

theorem exists_year {n d : Nat} (h : d < daysBeforeYear n)
    : ∃ y < n, daysBeforeYear y ≤ d ∧ d < daysBeforeYear (y + 1) := by
  induction n with
  | zero => cases h
  | succ n ih =>
    rcases Nat.lt_or_ge d (daysBeforeYear n) with hlt | hge
    . obtain ⟨y, hy, hd⟩ := ih hlt
      exact ⟨y, Nat.lt_succ_of_lt hy, hd⟩
    . exact ⟨n, Nat.lt_succ_self n, hge, h⟩

theorem yearOfDay_spec {d : Nat} (h : d < 146097)
    : yearOfDay d < 400 ∧ daysBeforeYear (yearOfDay d) ≤ d ∧ d < daysBeforeYear (yearOfDay d + 1) := by
  obtain ⟨y, hy, hfrom, hto⟩ := exists_year (n := 400) h
  obtain ⟨hfirst, hlast, -⟩ := yearOfDay_bounds y hy
  have hyear : yearOfDay d = y := by
    apply Nat.le_antisymm
    . rw [← hlast]
      exact yearOfDay_mono (Nat.le_sub_one_of_lt hto)
    . rw [← hfirst]
      exact yearOfDay_mono hfrom
  rw [hyear]
  exact ⟨hy, hfrom, hto⟩

def monthOfDay (dayOfYear : Nat) : Nat :=
  (5 * dayOfYear + 2) / 153

def monthNumber (m : Nat) : Nat :=
  if m < 10 then m + 3 else m - 9

theorem monthOfDay_spec
    : ∀ d < 366, 1 ≤ monthNumber (monthOfDay d) ∧ monthNumber (monthOfDay d) ≤ 12 ∧
        (monthNumber (monthOfDay d) + 9) % 12 = monthOfDay d ∧
        daysBeforeMonth (monthOfDay d) ≤ d ∧
        (d - daysBeforeMonth (monthOfDay d) + 1 ≤ daysInMonth 1 (monthNumber (monthOfDay d)) ∨
          d = 365 ∧ monthNumber (monthOfDay d) = 2 ∧ d - daysBeforeMonth (monthOfDay d) + 1 = 29) := by
  decide +kernel

theorem isLeap_add_span (span year : Int) : isLeap (span * 400 + year) = isLeap year := by
  unfold isLeap
  rw [show (span * 400 + year) % 4 = year % 4 by omega, show (span * 400 + year) % 100 = year % 100 by omega,
    show (span * 400 + year) % 400 = year % 400 by omega]

theorem daysInMonth_le (year : Int) (month : Nat) : daysInMonth 1 month ≤ daysInMonth year month := by
  unfold daysInMonth
  split
  . cases isLeap year <;> decide
  . exact Nat.le_refl _
  . exact Nat.le_refl _
  . exact Nat.le_refl _
  . exact Nat.le_refl _
  . exact Nat.le_refl _

section OfDays

variable (days : Int)

def dayOfSpan : Nat :=
  ((days + 719468) % 146097).toNat

def dayOfYear : Nat :=
  dayOfSpan days - daysBeforeYear (yearOfDay (dayOfSpan days))

theorem dayOfSpan_spec
    : dayOfSpan days < 146097 ∧ (dayOfSpan days : Int) = (days + 719468) % 146097 := by
  unfold dayOfSpan
  omega

theorem dayOfYear_spec
    : dayOfYear days < 366 ∧
        (dayOfYear days = 365 → isLeap ((days + 719468) / 146097 * 400 + yearOfDay (dayOfSpan days) + 1) = true) ∧
        dayOfSpan days = daysBeforeYear (yearOfDay (dayOfSpan days)) + dayOfYear days := by
  obtain ⟨hyear, hfrom, hto⟩ := yearOfDay_spec (dayOfSpan_spec days).1
  obtain ⟨-, -, hlength⟩ := yearOfDay_bounds _ hyear
  have hsplit : dayOfSpan days = daysBeforeYear (yearOfDay (dayOfSpan days)) + dayOfYear days :=
    (Nat.add_sub_cancel' hfrom).symm
  rw [Int.add_assoc, isLeap_add_span]
  refine ⟨?_, ?_, hsplit⟩
  . split at hlength <;> omega
  . intro hlast
    rw [← Bool.not_eq_false]
    intro hcommon
    rw [hcommon] at hlength
    simp only [Bool.false_eq_true, if_false] at hlength
    omega

theorem ofDays_eq
    : ofDays days
        =
      { year := if monthNumber (monthOfDay (dayOfYear days)) ≤ 2
          then (days + 719468) / 146097 * 400 + yearOfDay (dayOfSpan days) + 1
          else (days + 719468) / 146097 * 400 + yearOfDay (dayOfSpan days)
        month := monthNumber (monthOfDay (dayOfYear days))
        day := dayOfYear days - daysBeforeMonth (monthOfDay (dayOfYear days)) + 1 } := by
  obtain ⟨hyear, -⟩ := yearOfDay_spec (dayOfSpan_spec days).1
  have hday : dayOfYear days = dayOfSpan days - (365 * yearOfDay (dayOfSpan days) +
      yearOfDay (dayOfSpan days) / 4 - yearOfDay (dayOfSpan days) / 100) := by
    unfold dayOfYear daysBeforeYear
    omega
  rw [hday]
  rfl

theorem isValid_ofDays : (ofDays days).isValid = true := by
  obtain ⟨hday, hleap, -⟩ := dayOfYear_spec days
  obtain ⟨hpos, hle, -, hfirst, hlast⟩ := monthOfDay_spec _ hday
  rw [ofDays_eq]
  unfold isValid
  simp only [Bool.and_eq_true, decide_eq_true_eq]
  refine ⟨⟨⟨hpos, hle⟩, Nat.le_add_left 1 _⟩, ?_⟩
  rcases hlast with hlast | ⟨hlast, hmonth, hday⟩
  . exact Nat.le_trans hlast (daysInMonth_le _ _)
  . rw [hday, hmonth]
    unfold daysInMonth
    simp [hleap hlast]

theorem toDays_march (span : Int) {y month : Nat} (day : Nat) (hy : y < 400)
    : toDays {
        year := if month ≤ 2 then span * 400 + y + 1 else span * 400 + y
        month
        day }
        =
      span * 146097 +
        (daysBeforeYear y + (daysBeforeMonth ((month + 9) % 12) + day - 1) : Nat) - 719468 := by
  have hmarch : (if month ≤ 2 then (if month ≤ 2 then span * 400 + (y : Int) + 1 else span * 400 + y) - 1
      else (if month ≤ 2 then span * 400 + (y : Int) + 1 else span * 400 + y)) = span * 400 + y := by
    split
    . exact Int.add_sub_cancel _ _
    . rfl
  have hspan : (span * 400 + (y : Int)) / 400 = span := by omega
  have hyear : ((span * 400 + (y : Int)) % 400).toNat = y := by omega
  have hnumber : daysBeforeYear y = 365 * y + y / 4 - y / 100 := by
    unfold daysBeforeYear
    omega
  unfold toDays
  dsimp only
  rw [hmarch, hspan, hyear, hnumber]

theorem toDays_ofDays : (ofDays days).toDays = days := by
  obtain ⟨hspan, hspanInt⟩ := dayOfSpan_spec days
  obtain ⟨hyear, -⟩ := yearOfDay_spec hspan
  obtain ⟨hday, -, hsplit⟩ := dayOfYear_spec days
  obtain ⟨-, -, hmonth, hfirst, -⟩ := monthOfDay_spec _ hday
  have hback : daysBeforeMonth (monthOfDay (dayOfYear days)) +
      (dayOfYear days - daysBeforeMonth (monthOfDay (dayOfYear days)) + 1) - 1 = dayOfYear days := by
    omega
  rw [ofDays_eq, toDays_march _ _ hyear, hmonth, hback, ← hsplit, hspanInt]
  omega

end OfDays

end CalendarDate

end ReplicatedStore
