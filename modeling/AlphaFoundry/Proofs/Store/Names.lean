/-
# AlphaFoundry.Proofs.Store.Names -- what the name of a file tells of its time

The name of a file is a year of any length and sign, and behind it fields of a fixed number of
digits.  So the fields can be cut off from the right, and a name tells the second it stands for, and
no more (`fileName_tells_second`).  Years of four digits are a field of fixed width as well; then
names compare like the numbers in them, which grow with time.
-/
import Mathlib
import AlphaFoundry.Store
import AlphaFoundry.Proofs.Calendar

namespace AlphaFoundry

set_option autoImplicit false

/-! ## Numbers of a fixed number of digits -/

namespace Number

/-- The last digits of a number. -/
def lastDigits : ℕ → ℕ → List Char
  | 0, _ => []
  | width + 1, n => lastDigits width (n / 10) ++ [(n % 10).digitChar]

variable {n m width : ℕ}

@[simp] theorem length_lastDigits (width n : ℕ) : (lastDigits width n).length = width := by
  induction width generalizing n with
  | zero => rfl
  | succ width ih => simp [lastDigits, ih]

/-- Digits behind digits are the digits of one number. -/
theorem lastDigits_append (small : n < 10 ^ width) (more : ℕ) :
    lastDigits more m ++ lastDigits width n = lastDigits (more + width) (m * 10 ^ width + n) := by
  induction width generalizing n with
  | zero =>
      obtain rfl : n = 0 := by omega
      simp [lastDigits]
  | succ width ih =>
      have shorter : n / 10 < 10 ^ width := by omega
      have tens : m * 10 ^ (width + 1) = m * 10 ^ width * 10 := by rw [pow_succ, mul_assoc]
      have front : (m * 10 ^ (width + 1) + n) / 10 = m * 10 ^ width + n / 10 := by omega
      have back : (m * 10 ^ (width + 1) + n) % 10 = n % 10 := by omega
      rw [lastDigits, ← List.append_assoc, ih shorter, ← add_assoc, lastDigits, front, back]

/-- A number that no zero leads is written with its last digits. -/
theorem toDigits_eq_lastDigits (width : ℕ) {n : ℕ} (large : 10 ^ width ≤ n)
    (small : n < 10 ^ (width + 1)) :
    Nat.toDigits 10 n = lastDigits (width + 1) n := by
  induction width generalizing n with
  | zero => rw [Nat.toDigits_of_lt_base (by omega), lastDigits, Nat.mod_eq_of_lt (by omega)]; rfl
  | succ width ih =>
      rw [pow_succ] at large small
      have positive : 0 < 10 ^ width := by positivity
      rw [Nat.toDigits_of_base_le (by norm_num) (by omega), ih (by omega) (by omega)]
      rfl

end Number

namespace Text

theorem units_append (cs ds : List Char) : units (cs ++ ds) = units cs ++ units ds :=
  List.flatMap_append

theorem append_lt_append_iff {as bs as' bs' : List ℕ} (same : as.length = as'.length) :
    as ++ bs < as' ++ bs' ↔ as < as' ∨ as = as' ∧ bs < bs' := by
  induction as generalizing as' with
  | nil =>
      obtain rfl := List.length_eq_zero_iff.1 same.symm
      simp
  | cons a as ih =>
      cases as' with
      | nil => cases same
      | cons a' as' =>
          rw [List.cons_append, List.cons_append, List.cons_lt_cons_iff, List.cons_lt_cons_iff,
            ih (Nat.succ.inj same), List.cons.injEq]
          tauto

theorem append_left_lt_iff {as bs bs' : List ℕ} : as ++ bs < as ++ bs' ↔ bs < bs' := by
  simp [append_lt_append_iff]

end Text

namespace Number

variable {n m width : ℕ}

theorem units_lastDigits_succ (width n : ℕ) :
    Text.units (lastDigits (width + 1) n)
      = Text.units (lastDigits width (n / 10)) ++ [48 + n % 10] := by
  have digit : ∀ d : Fin 10, Text.units [d.val.digitChar] = [48 + d.val] := by decide
  rw [lastDigits, Text.units_append, digit ⟨n % 10, Nat.mod_lt n (by norm_num)⟩]

theorem length_units_lastDigits (width n : ℕ) :
    (Text.units (lastDigits width n)).length = width := by
  induction width generalizing n with
  | zero => rfl
  | succ width ih => rw [units_lastDigits_succ, List.length_append, ih, List.length_singleton]

/-- Numbers of the same number of digits are equal if their digits are. -/
theorem units_lastDigits_eq_iff (hn : n < 10 ^ width) (hm : m < 10 ^ width) :
    Text.units (lastDigits width n) = Text.units (lastDigits width m) ↔ n = m := by
  refine ⟨fun same => ?_, fun same => by rw [same]⟩
  induction width generalizing n m with
  | zero => omega
  | succ width ih =>
      rw [units_lastDigits_succ, units_lastDigits_succ] at same
      obtain ⟨front, back⟩ := List.append_inj' same rfl
      have := ih (by omega) (by omega) front
      have := List.singleton_inj.1 back
      omega

/-- Numbers of the same number of digits compare like their digits. -/
theorem units_lastDigits_lt_iff (hn : n < 10 ^ width) (hm : m < 10 ^ width) :
    Text.units (lastDigits width n) < Text.units (lastDigits width m) ↔ n < m := by
  induction width generalizing n m with
  | zero =>
      obtain rfl : n = m := by omega
      simp
  | succ width ih =>
      have front : n / 10 < 10 ^ width := by omega
      have front' : m / 10 < 10 ^ width := by omega
      rw [units_lastDigits_succ, units_lastDigits_succ, Text.append_lt_append_iff (by
        rw [length_units_lastDigits, length_units_lastDigits]), ih front front',
        List.cons_lt_cons_iff]
      constructor
      · rintro (less | ⟨same, less | ⟨-, none⟩⟩)
        · omega
        · have := (units_lastDigits_eq_iff front front').1 same
          omega
        · exact absurd none (by simp)
      · intro less
        by_cases same : n / 10 = m / 10
        · exact .inr ⟨by rw [same], .inl (by omega)⟩
        · exact .inl (by omega)

theorem lastDigits_inj (hn : n < 10 ^ width) (hm : m < 10 ^ width)
    (same : lastDigits width n = lastDigits width m) : n = m :=
  (units_lastDigits_eq_iff hn hm).1 (congrArg Text.units same)

end Number

/-! ## Fields -/

namespace Moment

theorem toList_two {a : ℤ} (start : 0 ≤ a) (small : a < 100) :
    (two a).toList = Number.lastDigits 2 a.toNat := by
  lift a to ℕ using start
  have text : (toString (a : ℤ)).toList = Nat.toDigits 10 a := by
    show (toString a).toList = _
    rw [Nat.toString_eq_ofList_toDigits, String.toList_ofList]
  rw [Int.toNat_natCast, two, Text.padZeros, String.toList_append, String.toList_ofList,
    ← String.length_toList, text]
  by_cases short : a < 10
  · rw [Nat.toDigits_of_lt_base short]
    have quotient : a / 10 = 0 := by omega
    simp [Number.lastDigits, quotient, Nat.mod_eq_of_lt short]
  · rw [Number.toDigits_eq_lastDigits 1 (by omega) (by omega)]
    simp

/-- The year of a moment. -/
def year (t : Moment) : ℤ :=
  (Date.ofDays t.days).year

/-- The digits of month and day as a number. -/
def monthDay (t : Moment) : ℕ :=
  (100 * (Date.ofDays t.days).month + (Date.ofDays t.days).day).toNat

/-- The digits of the time of day as a number, as in 235959. -/
def clockNumber (second : ℤ) : ℤ :=
  10000 * (second / 3600) + 100 * (second / 60 % 60) + second % 60

theorem clockNumber_strictMono : StrictMono clockNumber :=
  strictMono_int_of_lt_succ fun second => by
    unfold clockNumber
    omega

variable {t u : Moment}

theorem secondOfDay_bounds (t : Moment) : 0 ≤ t.secondOfDay ∧ t.secondOfDay < 86400 := by
  unfold secondOfDay
  omega

theorem clockNumber_bounds (t : Moment) :
    0 ≤ clockNumber t.secondOfDay ∧ clockNumber t.secondOfDay < 1000000 := by
  obtain ⟨start, inside⟩ := t.secondOfDay_bounds
  exact ⟨clockNumber_strictMono.monotone start,
    (clockNumber_strictMono.monotone (Int.le_sub_one_of_lt inside)).trans_lt (by decide)⟩

theorem date_bounds (t : Moment) :
    1 ≤ (Date.ofDays t.days).month ∧ (Date.ofDays t.days).month ≤ 12 ∧
      1 ≤ (Date.ofDays t.days).day ∧ (Date.ofDays t.days).day ≤ 31 := by
  obtain ⟨⟨january, december⟩, first, last⟩ := Date.ofDays_proper t.days
  exact ⟨january, december, first, last.trans (Date.daysInMonth_le _ _)⟩

/-- The date as a number is the year, followed by the digits of month and day. -/
theorem number_eq (t : Moment) : (Date.ofDays t.days).number = 10000 * t.year + t.monthDay := by
  obtain ⟨january, -, first, -⟩ := t.date_bounds
  unfold Date.number year monthDay
  omega

theorem monthDay_lt (t : Moment) : t.monthDay < 10000 := by
  obtain ⟨-, december, -, last⟩ := t.date_bounds
  unfold monthDay
  omega

theorem toList_dateDigits (t : Moment) : t.dateDigits.toList
    = (toString t.year).toList ++ Number.lastDigits 4 t.monthDay := by
  obtain ⟨january, december, first, last⟩ := t.date_bounds
  have number : t.monthDay
      = (Date.ofDays t.days).month.toNat * 10 ^ 2 + (Date.ofDays t.days).day.toNat := by
    unfold monthDay
    omega
  rw [dateDigits, String.toList_append, String.toList_append, List.append_assoc,
    toList_two (by omega) (by omega), toList_two (by omega) (by omega),
    Number.lastDigits_append (by omega), number]
  rfl

theorem toList_clock (t : Moment) :
    (t.clock "").toList = Number.lastDigits 6 (clockNumber t.secondOfDay).toNat := by
  obtain ⟨start, inside⟩ := t.secondOfDay_bounds
  have text : (t.clock "").toList = (two (t.secondOfDay / 3600)).toList
      ++ ((two (t.secondOfDay / 60 % 60)).toList ++ (two (t.secondOfDay % 60)).toList) := by
    simp [clock]
  have number : (clockNumber t.secondOfDay).toNat = (t.secondOfDay / 3600).toNat * 10 ^ (2 + 2)
      + ((t.secondOfDay / 60 % 60).toNat * 10 ^ 2 + (t.secondOfDay % 60).toNat) := by
    unfold clockNumber
    omega
  rw [text, toList_two (by omega) (by omega), toList_two (by omega) (by omega),
    toList_two (by omega) (by omega), Number.lastDigits_append (by omega),
    Number.lastDigits_append (by omega), number]

theorem seconds_eq (t : Moment) : t.seconds = 86400 * t.days + t.secondOfDay := by
  unfold days secondOfDay
  omega

theorem seconds_eq_iff :
    t.seconds = u.seconds ↔ t.days = u.days ∧ t.secondOfDay = u.secondOfDay := by
  unfold days secondOfDay
  omega

/-- Seconds compare like their days, and on one day like the time of day. -/
theorem seconds_lt_iff : t.seconds < u.seconds ↔
    t.days < u.days ∨ t.days = u.days ∧ t.secondOfDay < u.secondOfDay := by
  have := t.seconds_eq
  have := u.seconds_eq
  have := t.secondOfDay_bounds
  have := u.secondOfDay_bounds
  omega

end Moment

namespace Store

open Moment

variable {t u : Moment}

/-- The fields of a name, in order. -/
theorem toList_fileName (t : Moment) : (fileName (some t)).toList
    = "alphas_".toList ++ ((toString t.year).toList ++ (Number.lastDigits 4 t.monthDay ++
      (['_'] ++ (Number.lastDigits 6 (clockNumber t.secondOfDay).toNat ++ ".json".toList)))) := by
  simp [fileName, stamp, toList_dateDigits, toList_clock]

theorem fileName_congr (days : t.days = u.days) (second : t.secondOfDay = u.secondOfDay) :
    fileName (some t) = fileName (some u) := by
  simp only [fileName, stamp, dateDigits, clock, days, second]

/-- A name tells its second: behind a year of any length, all fields have their width. -/
theorem fileName_eq_iff : fileName (some t) = fileName (some u) ↔ t.seconds = u.seconds := by
  rw [seconds_eq_iff]
  refine ⟨fun same => ?_, fun same => fileName_congr same.1 same.2⟩
  have same := congrArg String.toList same
  rw [toList_fileName, toList_fileName] at same
  obtain ⟨years, fields⟩ := List.append_inj' (List.append_cancel_left same) (by simp)
  obtain ⟨dates, clocks⟩ := List.append_inj fields (by simp)
  obtain ⟨clocks, -⟩ := List.append_inj (List.append_cancel_left clocks) (by simp)
  have year : t.year = u.year := Int.repr_inj.1 (String.toList_inj.1 years)
  have monthDay := Number.lastDigits_inj t.monthDay_lt u.monthDay_lt dates
  obtain ⟨start, inside⟩ := t.clockNumber_bounds
  obtain ⟨start', inside'⟩ := u.clockNumber_bounds
  have clock := Number.lastDigits_inj (by omega) (by omega) clocks
  constructor
  · refine Date.number_strictMono.injective ?_
    show (Date.ofDays t.days).number = (Date.ofDays u.days).number
    rw [number_eq, number_eq, year, monthDay]
  · refine clockNumber_strictMono.injective ?_
    omega

/-- A name with a year of four digits has a field of eight digits for the date and one of six for
the time of day. -/
theorem units_fileName (ancient : 1000 ≤ t.year) (future : t.year ≤ 9999) :
    Text.units (fileName (some t)).toList = Text.units "alphas_".toList
      ++ (Text.units (Number.lastDigits 8 (Date.ofDays t.days).number.toNat)
        ++ (Text.units ['_'] ++ (Text.units (Number.lastDigits 6 (clockNumber t.secondOfDay).toNat)
          ++ Text.units ".json".toList))) := by
  have years : (toString t.year).toList = Number.lastDigits 4 t.year.toNat := by
    generalize t.year = year at *
    lift year to ℕ using (by omega)
    show (toString year).toList = _
    rw [Nat.toString_eq_ofList_toDigits, String.toList_ofList,
      Number.toDigits_eq_lastDigits 3 (by omega) (by omega), Int.toNat_natCast]
  have number : (Date.ofDays t.days).number.toNat = t.year.toNat * 10 ^ 4 + t.monthDay := by
    rw [number_eq]
    omega
  rw [toList_fileName, years, ← List.append_assoc (Number.lastDigits 4 _),
    Number.lastDigits_append t.monthDay_lt, ← number]
  simp only [Text.units_append]

/-- Names with years of four digits compare like their seconds. -/
theorem fileName_lt_iff (ancient : 1000 ≤ t.year) (future : t.year ≤ 9999)
    (ancient' : 1000 ≤ u.year) (future' : u.year ≤ 9999) :
    Text.units (fileName (some t)).toList < Text.units (fileName (some u)).toList ↔
      t.seconds < u.seconds := by
  have number := t.number_eq
  have number' := u.number_eq
  have := t.monthDay_lt
  have := u.monthDay_lt
  obtain ⟨start, inside⟩ := t.clockNumber_bounds
  obtain ⟨start', inside'⟩ := u.clockNumber_bounds
  have sameDate : (Date.ofDays t.days).number = (Date.ofDays u.days).number ↔ t.days = u.days :=
    Date.number_strictMono.injective.eq_iff
  have earlierDate : (Date.ofDays t.days).number < (Date.ofDays u.days).number ↔ t.days < u.days :=
    Date.number_strictMono.lt_iff_lt
  have earlierClock : clockNumber t.secondOfDay < clockNumber u.secondOfDay ↔
      t.secondOfDay < u.secondOfDay := clockNumber_strictMono.lt_iff_lt
  rw [units_fileName ancient future, units_fileName ancient' future', Text.append_left_lt_iff,
    Text.append_lt_append_iff (by simp only [Number.length_units_lastDigits]),
    Text.append_left_lt_iff,
    Text.append_lt_append_iff (by simp only [Number.length_units_lastDigits]),
    Number.units_lastDigits_lt_iff (by omega) (by omega),
    Number.units_lastDigits_lt_iff (by omega) (by omega),
    Number.units_lastDigits_eq_iff (by omega) (by omega), seconds_lt_iff]
  simp only [lt_irrefl, and_false, or_false]
  omega

/-- Two files have one name exactly if their times lie in the same second, in all years.  With years
of four digits the names sort as the times do. -/
theorem fileName_tells_second (t u : Moment) :
    (fileName (some t) = fileName (some u) ↔ t.seconds = u.seconds) ∧
    (1000 ≤ t.year → t.year ≤ 9999 → 1000 ≤ u.year → u.year ≤ 9999 →
      (Text.units (fileName (some t)).toList < Text.units (fileName (some u)).toList ↔
        t.seconds < u.seconds)) :=
  ⟨fileName_eq_iff, fileName_lt_iff⟩

/-- The last millisecond of a leap day, and the next one. -/
theorem fileName_tells_second_leap :
    let t : Moment := ⟨1709251199999, by decide⟩
    let u : Moment := ⟨1709251200000, by decide⟩
    (1000 ≤ t.year ∧ t.year ≤ 9999 ∧ 1000 ≤ u.year ∧ u.year ≤ 9999) ∧
      fileName (some t) = "alphas_20240229_235959.json" ∧
      fileName (some t) ≠ fileName (some u) ∧
      Text.units (fileName (some t)).toList < Text.units (fileName (some u)).toList := by
  intro t u
  have years : 1000 ≤ t.year ∧ t.year ≤ 9999 ∧ 1000 ≤ u.year ∧ u.year ≤ 9999 := by decide
  obtain ⟨same, less⟩ := fileName_tells_second t u
  obtain ⟨ancient, future, ancient', future'⟩ := years
  exact ⟨⟨ancient, future, ancient', future'⟩, by decide +kernel,
    same.not.2 (by decide), (less ancient future ancient' future').2 (by decide)⟩

end Store

end AlphaFoundry
