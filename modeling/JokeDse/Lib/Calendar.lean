import Mathlib.Data.List.Basic

/-! The Gregorian calendar from a first year on, as the clock that passes from each second to the next. -/
namespace Calendar

def total (length : Nat → Nat) : Nat → Nat
  | 0 => 0
  | n + 1 => total length n + length n

section Spans
variable (length : Nat → Nat) {i j x y : Nat}

theorem totalMono (below : i ≤ j) : total length i ≤ total length j := by
  induction j with
  | zero =>
    cases Nat.le_zero.mp below
    exact Nat.le_refl _
  | succ j ih =>
    rcases Nat.eq_or_lt_of_le below with rfl | earlier
    · exact Nat.le_refl _
    · exact Nat.le_trans (ih (Nat.le_of_lt_succ earlier)) (Nat.le_add_right _ _)

theorem totalBelow (inside : x < length i) (later : i < j) : total length i + x < total length j :=
  Nat.lt_of_lt_of_le (Nat.add_lt_add_left inside _) (totalMono length later)

theorem placeUnique (inside : x < length i) (other : y < length j) (same : total length i + x = total length j + y) :
    i = j ∧ x = y := by
  rcases Nat.lt_trichotomy i j with earlier | rfl | later
  · have below := totalBelow length inside earlier
    omega
  · exact ⟨rfl,Nat.add_left_cancel same⟩
  · have below := totalBelow length other later
    omega

end Spans

def leap (year : Nat) : Bool := year % 4 == 0 && year % 100 != 0 || year % 400 == 0

theorem leapIff {year : Nat} : leap year = true ↔ year % 4 = 0 ∧ year % 100 ≠ 0 ∨ year % 400 = 0 := by
  simp [leap]

def yearDays (year : Nat) : Nat := if leap year then 366 else 365

def monthDays (year : Nat) : Nat → Nat
  | 2 => if leap year then 29 else 28
  | 4 | 6 | 9 | 11 => 30
  | _ => 31

@[ext] structure DateTime where
  year : Nat
  month : Nat
  day : Nat
  hour : Nat
  minute : Nat
  second : Nat
  deriving DecidableEq, Repr

def tick (t : DateTime) : DateTime :=
  if t.second < 59 then { t with second := t.second + 1 }
  else if t.minute < 59 then ⟨t.year,t.month,t.day,t.hour,t.minute + 1,0⟩
  else if t.hour < 23 then ⟨t.year,t.month,t.day,t.hour + 1,0,0⟩
  else if t.day < monthDays t.year t.month then ⟨t.year,t.month,t.day + 1,0,0,0⟩
  else if t.month < 12 then ⟨t.year,t.month + 1,1,0,0,0⟩
  else ⟨t.year + 1,1,1,0,0,0⟩

variable (first : Nat)

def after : Nat → DateTime
  | 0 => ⟨first,1,1,0,0,0⟩
  | n + 1 => tick (after n)

structure Valid (t : DateTime) : Prop where
  year : first ≤ t.year
  month : 1 ≤ t.month ∧ t.month ≤ 12
  day : 1 ≤ t.day ∧ t.day ≤ monthDays t.year t.month
  hour : t.hour ≤ 23
  minute : t.minute ≤ 59
  second : t.second ≤ 59

instance (t : DateTime) : Decidable (Valid first t) :=
  decidable_of_iff (first ≤ t.year ∧ (1 ≤ t.month ∧ t.month ≤ 12) ∧ (1 ≤ t.day ∧ t.day ≤ monthDays t.year t.month) ∧
      t.hour ≤ 23 ∧ t.minute ≤ 59 ∧ t.second ≤ 59)
    ⟨fun ⟨year,month,day,hour,minute,second⟩ => ⟨year,month,day,hour,minute,second⟩,
      fun ⟨year,month,day,hour,minute,second⟩ => ⟨year,month,day,hour,minute,second⟩⟩

def daysToYear : Nat → Nat := total fun n => yearDays (first + n)

def daysToMonth (year : Nat) : Nat → Nat := total fun n => monthDays year (n + 1)

def days (t : DateTime) : Nat :=
  daysToYear first (t.year - first) + (daysToMonth t.year (t.month - 1) + (t.day - 1))

def seconds (t : DateTime) : Nat := 86400 * days first t + (3600 * t.hour + 60 * t.minute + t.second)

variable {first}

theorem daysToMonthTwelve (year : Nat) : daysToMonth year 12 = yearDays year := by
  unfold yearDays
  cases same : leap year <;> simp [daysToMonth,total,monthDays,same]

theorem Valid.dayOfMonth {t : DateTime} (valid : Valid first t) : t.day - 1 < monthDays t.year (t.month - 1 + 1) := by
  obtain ⟨low,high⟩ := valid.day
  rw [Nat.sub_add_cancel valid.month.1]
  omega

theorem Valid.dayOfYear {t : DateTime} (valid : Valid first t) :
    daysToMonth t.year (t.month - 1) + (t.day - 1) < yearDays (first + (t.year - first)) := by
  have months := valid.month
  rw [Nat.add_sub_cancel' valid.year,← daysToMonthTwelve]
  exact totalBelow _ valid.dayOfMonth (by omega)

theorem tickValid {t : DateTime} (valid : Valid first t) : Valid first (tick t) := by
  obtain ⟨year,month,day,hour,minute,second⟩ := valid
  have some : ∀ y m, 1 ≤ monthDays y m := by
    intro y m
    unfold monthDays
    split <;> first | split <;> omega | omega
  unfold tick
  repeat' split
  all_goals constructor <;> simp only <;> try omega
  · exact ⟨Nat.le_refl 1,some _ _⟩
  · exact ⟨Nat.le_refl 1,some _ _⟩

theorem tickSeconds {t : DateTime} (valid : Valid first t) : seconds first (tick t) = seconds first t + 1 := by
  obtain ⟨year,month,day,hour,minute,second⟩ := valid
  unfold tick
  split
  · simp only [seconds,days]
    omega
  split
  · simp only [seconds,days]
    omega
  split
  · simp only [seconds,days]
    omega
  split
  · simp only [seconds,days]
    omega
  split
  · have monthEnds : daysToMonth t.year t.month = daysToMonth t.year (t.month - 1) + monthDays t.year t.month := by
      obtain ⟨before,same⟩ := Nat.exists_eq_add_of_le' month.1
      rw [same]
      rfl
    simp only [seconds,days,Nat.add_sub_cancel,Nat.sub_self,monthEnds]
    omega
  · have last : t.month = 12 := by omega
    have yearEnds : daysToYear first (t.year + 1 - first) = daysToYear first (t.year - first) + yearDays t.year := by
      rw [Nat.sub_add_comm year,daysToYear,total,Nat.add_sub_cancel' year]
    have monthsEnd : daysToMonth t.year (12 - 1) + monthDays t.year 12 = yearDays t.year := daysToMonthTwelve t.year
    have january : daysToMonth (t.year + 1) (1 - 1) = 0 := rfl
    rw [last] at day
    simp only [seconds,days,yearEnds,january,last]
    rename_i ends _
    rw [last] at ends
    omega

theorem afterValid (n : Nat) : Valid first (after first n) := by
  induction n with
  | zero => constructor <;> simp [after,monthDays]
  | succ n ih => exact tickValid ih

theorem afterSeconds (n : Nat) : seconds first (after first n) = n := by
  induction n with
  | zero => simp [seconds,days,after,daysToYear,daysToMonth,total]
  | succ n ih => rw [after,tickSeconds (afterValid n),ih]

theorem secondsUnique {a b : DateTime} (valid : Valid first a) (other : Valid first b)
    (same : seconds first a = seconds first b) : a = b := by
  obtain ⟨firstYear,month,day,hour,minute,second⟩ := id valid
  obtain ⟨firstYear',month',day',hour',minute',second'⟩ := id other
  simp only [seconds] at same
  have sameDays : days first a = days first b := by omega
  obtain ⟨sameYear,sameDay⟩ :=
    placeUnique (fun n => yearDays (first + n)) valid.dayOfYear other.dayOfYear sameDays
  have year : a.year = b.year := by omega
  rw [year] at sameDay
  obtain ⟨sameMonth,sameDay⟩ :=
    placeUnique (fun n => monthDays b.year (n + 1)) (year ▸ valid.dayOfMonth) other.dayOfMonth sameDay
  ext <;> omega

theorem afterUnique {t : DateTime} {n : Nat} (valid : Valid first t) : after first n = t ↔ seconds first t = n := by
  constructor
  · rintro rfl
    exact afterSeconds n
  · intro same
    exact secondsUnique (afterValid n) valid ((afterSeconds n).trans same.symm)

def leaps (year : Nat) : Nat := (year + 3) / 4 + (year + 399) / 400 - (year + 99) / 100

theorem leapsNext (year : Nat) : leaps (year + 1) = leaps year + if leap year then 1 else 0 := by
  unfold leaps
  split <;> rename_i here <;> rw [leapIff] at here <;> omega

theorem daysToYearClosed (first n : Nat) : daysToYear first n + leaps first = 365 * n + leaps (first + n) := by
  induction n with
  | zero => simp [daysToYear,total]
  | succ n ih =>
    have next := leapsNext (first + n)
    unfold daysToYear at ih ⊢
    rw [total,← Nat.add_assoc first,next,yearDays]
    split <;> omega

end Calendar
