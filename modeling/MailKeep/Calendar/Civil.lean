import Mathlib.Algebra.Group.Nat.Defs
import Mathlib.Data.Int.Order.Basic
import Mathlib.Data.List.Basic

/-! The proleptic Gregorian calendar over day numbers from the epoch, and its dates as text. -/
namespace Calendar

/-- Leap days before the given year; a year begins on 1 March, so that a leap day ends it. -/
def leapDays (year : Int) : Int := year / 4 - year / 100 + year / 400

/-- A day as a year that begins on 1 March and the day in it. -/
structure MarchDate where
  year : Int
  day : Int

/-- Days are counted from 1 March of the year 0; a cycle of 400 years has 146097 of them. -/
def marchDate (days : Int) : MarchDate :=
  let inCycle := days % 146097
  let century := min (inCycle / 36524) 3
  let inCentury := inCycle - century * 36524
  let quad := inCentury / 1461
  let inQuad := inCentury - quad * 1461
  let year := min (inQuad / 365) 3
  ⟨400 * (days / 146097) + 100 * century + 4 * quad + year, inQuad - year * 365⟩

theorem leapDays_cycles {cycle century quad year : Int} (centuries : 0 ≤ century ∧ century ≤ 3)
    (quads : 0 ≤ quad ∧ quad ≤ 24)
    (years : 0 ≤ year ∧ year ≤ 3) :
    leapDays (400 * cycle + 100 * century + 4 * quad + year) = 97 * cycle + 24 * century + quad := by
  have four : (400 * cycle + 100 * century + 4 * quad + year) / 4 = 100 * cycle + 25 * century + quad := by omega
  have hundred : (400 * cycle + 100 * century + 4 * quad + year) / 100 = 4 * cycle + century := by omega
  have whole : (400 * cycle + 100 * century + 4 * quad + year) / 400 = cycle := by omega
  rw [leapDays, four, hundred, whole]
  omega

theorem marchDate_days (days : Int) :
    365 * (marchDate days).year + leapDays (marchDate days).year + (marchDate days).day = days := by
  unfold marchDate
  dsimp only
  rw [leapDays_cycles (by omega) (by omega) (by omega)]
  omega

theorem marchDate_day (days : Int) : 0 ≤ (marchDate days).day ∧ (marchDate days).day ≤ 365 := by
  unfold marchDate
  dsimp only
  omega

/-- A date of the calendar. -/
structure Civil where
  year : Int
  month : Int
  day : Int
deriving DecidableEq

/-- 719468 days lie between 1 March of the year 0 and the epoch; five months from March on have 153 days. -/
def Civil.ofDay (days : Int) : Civil :=
  let march := marchDate (days + 719468)
  let month := (5 * march.day + 2) / 153
  let day := march.day - (153 * month + 2) / 5 + 1
  if month < 10 then ⟨march.year, month + 3, day⟩ else ⟨march.year + 1, month - 9, day⟩

def Civil.toDay (date : Civil) : Int :=
  let year := if date.month < 3 then date.year - 1 else date.year
  let month := if date.month < 3 then date.month + 9 else date.month - 3
  365 * year + leapDays year + ((153 * month + 2) / 5 + date.day - 1) - 719468

theorem Civil.toDay_ofDay (days : Int) : (Civil.ofDay days).toDay = days := by
  have whole := marchDate_days (days + 719468)
  have bounds := marchDate_day (days + 719468)
  unfold Civil.ofDay Civil.toDay
  dsimp only
  split
  · rw [if_neg (by dsimp only; omega), if_neg (by dsimp only; omega)]
    dsimp only
    rw [Int.add_sub_cancel]
    omega
  · rw [if_pos (by dsimp only; omega), if_pos (by dsimp only; omega)]
    dsimp only
    rw [Int.add_sub_cancel, Int.sub_add_cancel]
    omega

theorem Civil.ofDay_month (days : Int) : 1 ≤ (Civil.ofDay days).month ∧ (Civil.ofDay days).month ≤ 12 := by
  have bounds := marchDate_day (days + 719468)
  unfold Civil.ofDay
  dsimp only
  split <;> dsimp only <;> omega

theorem Civil.ofDay_day (days : Int) : 1 ≤ (Civil.ofDay days).day ∧ (Civil.ofDay days).day ≤ 31 := by
  have bounds := marchDate_day (days + 719468)
  unfold Civil.ofDay
  dsimp only
  split <;> dsimp only <;> omega

/-- 29 February 2024. -/
example : Civil.ofDay 19782 = ⟨2024, 2, 29⟩ := by decide

/-- A number in decimal with a fixed number of digits. -/
def digits : Nat → Nat → List Char
  | 0, _ => []
  | width + 1, n => digits width (n / 10) ++ [Nat.digitChar (n % 10)]

def ofDigits (text : List Char) : Nat := text.foldl (fun n c => 10 * n + (c.toNat - 48)) 0

theorem digits_length (width n : Nat) : (digits width n).length = width := by
  induction width generalizing n with
  | zero => rfl
  | succ width ih => rw [digits, List.length_append, ih, List.length_singleton]

theorem ofDigits_digits {width n : Nat} (fits : n < 10 ^ width) : ofDigits (digits width n) = n := by
  induction width generalizing n with
  | zero => exact (Nat.lt_one_iff.mp fits).symm
  | succ width ih =>
    have digit : (Nat.digitChar (n % 10)).toNat - 48 = n % 10 := by
      rw [Nat.toNat_digitChar_of_lt_ten (Nat.mod_lt _ (by decide)), Nat.add_sub_cancel_left]
    have front : ofDigits (digits width (n / 10)) = n / 10 := ih (by rw [Nat.pow_succ] at fits; omega)
    rw [ofDigits] at front ⊢
    rw [digits, List.foldl_append, front, List.foldl_cons, List.foldl_nil, digit]
    omega

/-- `YYYY-MM-DD`. -/
def ymd (days : Int) : List Char :=
  let date := Civil.ofDay days
  digits 4 date.year.toNat ++ ('-' :: digits 2 date.month.toNat ++ '-' :: digits 2 date.day.toNat)

/-- The years that four digits can write. -/
def FourDigitYear (days : Int) : Prop := 0 ≤ (Civil.ofDay days).year ∧ (Civil.ofDay days).year ≤ 9999

theorem mem_digits {width n : Nat} {c : Char} (mem : c ∈ digits width n) : c.isDigit = true := by
  induction width generalizing n with
  | zero => cases mem
  | succ width ih =>
    rcases List.mem_append.mp mem with front | last
    · exact ih front
    · rw [List.mem_singleton.mp last, Nat.isDigit_digitChar, decide_eq_true_eq]
      exact Nat.mod_lt _ (by decide)

theorem mem_ymd {days : Int} {c : Char} (mem : c ∈ ymd days) : c = '-' ∨ c.isDigit = true := by
  rcases List.mem_append.mp mem with year | mem
  · exact .inr (mem_digits year)
  rcases List.mem_append.mp mem with month | day
  · exact (List.mem_cons.mp month).imp id mem_digits
  · exact (List.mem_cons.mp day).imp id mem_digits

theorem ymd_ne_nil (days : Int) : ymd days ≠ [] := by
  simp [ymd]

/-- The day with exactly this text. -/
def readYmd (text : List Char) : Option Int :=
  let days := Civil.toDay ⟨ofDigits (text.take 4), ofDigits ((text.drop 5).take 2), ofDigits ((text.drop 8).take 2)⟩
  if ymd days = text then some days else none

theorem readYmd_ymd {days : Int} (four : FourDigitYear days) : readYmd (ymd days) = some days := by
  obtain ⟨nonneg, small⟩ := four
  have month := Civil.ofDay_month days
  have day := Civil.ofDay_day days
  have yearText : (ymd days).take 4 = digits 4 (Civil.ofDay days).year.toNat := List.take_left' (digits_length 4 _)
  have behindYear : (ymd days).drop 4 = '-' :: digits 2 (Civil.ofDay days).month.toNat ++
      '-' :: digits 2 (Civil.ofDay days).day.toNat := List.drop_left' (digits_length 4 _)
  have monthText : ((ymd days).drop 5).take 2 = digits 2 (Civil.ofDay days).month.toNat := by
    rw [← List.drop_drop (i := 1) (j := 4), behindYear]
    exact List.take_left' (digits_length 2 _)
  have dayText : ((ymd days).drop 8).take 2 = digits 2 (Civil.ofDay days).day.toNat := by
    rw [← List.drop_drop (i := 4) (j := 4), behindYear, List.append_cons,
      List.drop_left' (by rw [List.length_append, List.length_cons, digits_length]; rfl)]
    exact List.take_of_length_le (Nat.le_of_eq (digits_length 2 _))
  have read : Civil.toDay ⟨ofDigits ((ymd days).take 4), ofDigits (((ymd days).drop 5).take 2),
      ofDigits (((ymd days).drop 8).take 2)⟩ = days := by
    rw [yearText, monthText, dayText, ofDigits_digits (by omega), ofDigits_digits (by omega), ofDigits_digits (by omega),
      Int.toNat_of_nonneg nonneg, Int.toNat_of_nonneg (by omega), Int.toNat_of_nonneg (by omega)]
    exact Civil.toDay_ofDay days
  unfold readYmd
  dsimp only
  rw [read, if_pos rfl]

end Calendar
