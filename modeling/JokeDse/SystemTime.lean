import JokeDse.Basic
import JokeDse.Lib.Calendar
import Mathlib.Tactic.IntervalCases

/-! TimeUtility: the conversions between a SYSTEMTIME and the seconds since 1970. A function that returns
FALSE leaves what the second pointer names as it was. -/
namespace JokeDse

structure SystemTime where
  wYear : Word
  wMonth : Word
  wDayOfWeek : Word
  wDay : Word
  wHour : Word
  wMinute : Word
  wSecond : Word
  wMilliseconds : Word
  deriving DecidableEq, Repr

abbrev Uint64 := BitVec 64

def daySec : Nat := 86400
def longMonthSec : Nat := 2678400
def shortMonthSec : Nat := 2592000
def longFebSec : Nat := 2505600
def shortFebSec : Nat := 2419200
def leapYearSec : Nat := 31622400
def yearSec : Nat := 31536000
def t4YearSec : Nat := 126230400
def t100YearSec : Nat := 3155673600 + 86400
def t400YearSec : Nat := 12622780800

def isLeapYear (nYear : Uint) : Bool :=
  nYear.toNat % 4 == 0 && nYear.toNat % 100 != 0 || nYear.toNat % 400 == 0

def addMonth (bLeapYear : Bool) (wDay : Nat) (nLoop nMonthTime : Nat) : Option Nat :=
  match nLoop with
  | 1 | 3 | 5 | 7 | 8 | 10 | 12 => some (nMonthTime + longMonthSec)
  | 2 =>
    if bLeapYear then
      if wDay > 29 then none else some (nMonthTime + longFebSec)
    else
      if wDay > 28 then none else some (nMonthTime + shortFebSec)
  | 4 | 6 | 9 | 11 => if wDay > 30 then none else some (nMonthTime + shortMonthSec)
  | _ => some nMonthTime

def monthTime (bLeapYear : Bool) (wDay : Nat) : Nat → Option Nat
  | 0 => some 0
  | n + 1 => (monthTime bLeapYear wDay n).bind (addMonth bLeapYear wDay (n + 1))

def outOfRange (s : SystemTime) : Bool :=
  s.wYear.toNat < 1970 || (s.wMonth.toNat < 1 || s.wMonth.toNat > 31) || (s.wDay.toNat < 1 || s.wDay.toNat > 31) ||
    s.wHour.toNat > 24 || s.wMinute.toNat > 60 || s.wSecond.toNat > 60 || (s.wMilliseconds.toNat : Int) < 0

def systemTime2UTC (pSystemTime : Option SystemTime) (pTime : Option Uint64) : Bool × Option Uint64 :=
  match pSystemTime,pTime with
  | some s,some _ =>
    if outOfRange s then (false,pTime)
    else
      let wYear : Int := s.wYear.toNat
      let bLeapYear := isLeapYear (toUint wYear)
      let nYears := wYear - 1970
      let nBaseLeapYears : Int := 1970 / 400 * 97 + 1970 % 400 / 4 - 1970 % 400 / 100
      let nLeapYeas := wYear / 400 * 97 + wYear % 400 / 4 - wYear % 400 / 100 - nBaseLeapYears -
        if bLeapYear then 1 else 0
      match monthTime bLeapYear s.wDay.toNat (s.wMonth.toNat - 1) with
      | none => (false,pTime)
      | some nMonthTime =>
        let nYearTime := nYears * yearSec + nLeapYeas * daySec
        let nDayTime := ((s.wDay.toNat : Int) - 1) * daySec
        let nHourTime : Int := s.wHour.toNat * 3600
        let nMinuteTime : Int := s.wMinute.toNat * 60
        -- the unsigned sums are taken modulo 2^64 once, at the end
        (true,some (BitVec.ofInt 64
          (nYearTime + nMonthTime + nDayTime + nHourTime + nMinuteTime + s.wSecond.toNat)))
  | _,_ => (false,pTime)

def nMonthArray (bLeapYear : Bool) : List Int :=
  [0,31,if bLeapYear then 29 else 28,31,30,31,30,31,31,30,31,30,31]

def findMonth (nMonthArray : List Int) : Nat → Nat → Int → Nat × Int
  | 0, nMonth, nDay => (nMonth,nDay)
  | rounds + 1, nMonth, nDay =>
    let month := nMonthArray.getD nMonth 0
    let nDay := nDay - month
    if nDay ≥ 1 then findMonth nMonthArray rounds (nMonth + 1) nDay
    else (nMonth,if nDay ≤ 0 then nDay + month else nDay)

def splitCycle (nY nR3 : Nat) : Nat × Nat :=
  if isLeapYear (BitVec.ofNat 32 nY) then
    if nR3 ≥ leapYearSec then
      let nY4 := (nR3 - leapYearSec) / yearSec + 1
      (nY4,(nR3 - leapYearSec - (nY4 - 1) * yearSec) / daySec)
    else (0,nR3 / daySec)
  else (nR3 / yearSec,nR3 % yearSec / daySec)

def findCycle (time : Nat) : Nat × Nat :=
  let late := time ≥ yearSec + yearSec
  let T64 := if late then time - yearSec - yearSec else time
  let nYOffset := if late then 2 else 0
  let nY1 := T64 / t400YearSec * 400
  let nR1 := T64 % t400YearSec
  let nY2 := nR1 / t100YearSec * 100
  let nR2 := nR1 % t100YearSec
  let nY3 := nR2 / t4YearSec * 4
  let nR3 := nR2 % t4YearSec
  (nY1 + nY2 + nY3 + 1970 + nYOffset,nR3)

def setInYear (s : SystemTime) (nY nY4 gone nR3 : Nat) : SystemTime :=
  let nR4 := nR3 % daySec
  let nD := gone + 1
  let nH := nR4 / 3600
  let nR5 := nR4 % 3600
  let nM := nR5 / 60
  let nS := nR5 % 60
  -- the loop over the years of the cycle stops at the first leap year
  let nD := if (List.range' 1 (nY4 - 1)).any fun y => isLeapYear (BitVec.ofNat 32 (nY + y)) then nD - 1 else nD
  let nY := nY + nY4
  let found := findMonth (nMonthArray (isLeapYear (BitVec.ofNat 32 nY))) 12 1 (int nD)
  { s with
    wYear := BitVec.ofNat 16 nY
    wMonth := BitVec.ofNat 16 found.1
    wDay := BitVec.ofInt 16 found.2
    wHour := BitVec.ofNat 16 nH
    wMinute := BitVec.ofNat 16 nM
    wSecond := BitVec.ofNat 16 nS }

def utc2SystemTime (pTime : Option Uint64) (pSystemTime : Option SystemTime) : Bool × Option SystemTime :=
  match pTime,pSystemTime with
  | some time,some s =>
    let cycle := findCycle time.toNat
    let years := splitCycle cycle.1 cycle.2
    (true,some (setInYear s cycle.1 years.1 years.2 cycle.2))
  | _,_ => (false,pSystemTime)

def SystemTime.dateTime (s : SystemTime) : Calendar.DateTime :=
  ⟨s.wYear.toNat,s.wMonth.toNat,s.wDay.toNat,s.wHour.toNat,s.wMinute.toNat,s.wSecond.toNat⟩

def SystemTime.Gregorian (s : SystemTime) : Prop := Calendar.Valid 1970 s.dateTime

instance (s : SystemTime) : Decidable s.Gregorian := inferInstanceAs (Decidable (Calendar.Valid _ _))

open Calendar (leap yearDays monthDays daysToYear daysToMonth seconds)

theorem isLeapYearNat {year : Nat} (small : year < 4294967296) : isLeapYear (BitVec.ofNat 32 year) = leap year := by
  rw [isLeapYear,BitVec.toNat_ofNat,Nat.mod_eq_of_lt small,leap]

section Seconds
variable {year wDay n nMonthTime v : Nat}

theorem addMonthTaken (known : 1 ≤ n ∧ n ≤ 12) (added : addMonth (leap year) wDay n nMonthTime = some v) :
    v = nMonthTime + 86400 * monthDays year n := by
  obtain ⟨low,high⟩ := known
  cases leapYear : leap year <;> rw [leapYear] at added <;> interval_cases n <;>
    simp [addMonth,longMonthSec,shortMonthSec,longFebSec,shortFebSec] at added <;> simp [monthDays,leapYear] <;> omega

theorem februaryDays (year : Nat) : monthDays year 2 ≤ 29 := by
  simp only [monthDays]
  split <;> decide

theorem addMonthTakes : (addMonth (leap year) wDay n nMonthTime).isSome ↔
    (n = 2 → wDay ≤ monthDays year 2) ∧ (n = 4 ∨ n = 6 ∨ n = 9 ∨ n = 11 → wDay ≤ 30) := by
  unfold addMonth
  split <;> simp [monthDays] <;> cases leap year <;> simp_all

theorem monthTimeTaken (known : n ≤ 12) (added : monthTime (leap year) wDay n = some v) :
    v = 86400 * daysToMonth year n := by
  induction n generalizing v with
  | zero =>
    cases added
    rfl
  | succ n ih =>
    obtain ⟨before,earlier,here⟩ := Option.bind_eq_some_iff.mp added
    have same := addMonthTaken ⟨by omega,known⟩ here
    rw [ih (by omega) earlier] at same
    rw [same,daysToMonth,Calendar.total,Nat.mul_add]

theorem monthTimeTakes : (monthTime (leap year) wDay n).isSome ↔ (2 ≤ n → wDay ≤ monthDays year 2) := by
  have february := februaryDays year
  induction n with
  | zero => simp [monthTime]
  | succ n ih =>
    cases earlier : monthTime (leap year) wDay n with
    | none =>
      rw [earlier,Option.isSome_none] at ih
      rw [monthTime,earlier,Option.bind_none,Option.isSome_none]
      simp only [Bool.false_eq_true,false_iff] at ih ⊢
      omega
    | some before =>
      rw [earlier,Option.isSome_some] at ih
      rw [monthTime,earlier,Option.bind_some,addMonthTakes]
      simp only [true_iff] at ih
      omega

end Seconds

variable {s : SystemTime} {old stored : Uint64}

theorem leapWord (year : Word) : isLeapYear (toUint year.toNat) = leap year.toNat := by
  have bound := year.isLt
  rw [toUintNat,isLeapYearNat (by omega)]

theorem systemTime2UTCTaken (taken : systemTime2UTC (some s) (some old) = (true,some stored)) :
    ∃ nMonthTime, monthTime (leap s.wYear.toNat) s.wDay.toNat (s.wMonth.toNat - 1) = some nMonthTime ∧
      stored = BitVec.ofInt 64
        (((s.wYear.toNat : Int) - 1970) * 31536000 + (((s.wYear.toNat : Int) / 400 * 97 +
          (s.wYear.toNat : Int) % 400 / 4 - (s.wYear.toNat : Int) % 400 / 100 - 477 -
          if leap s.wYear.toNat then 1 else 0)) * 86400 + nMonthTime + ((s.wDay.toNat : Int) - 1) * 86400 +
          s.wHour.toNat * 3600 + s.wMinute.toNat * 60 + s.wSecond.toNat) := by
  simp only [systemTime2UTC,leapWord] at taken
  split at taken
  · cases taken
  split at taken
  · cases taken
  · rename_i nMonthTime months
    exact ⟨nMonthTime,months,(Option.some.inj (Prod.mk.inj taken).2).symm⟩

theorem leapYears (year : Nat) : ((year : Int) / 400 * 97 + (year : Int) % 400 / 4 - (year : Int) % 400 / 100 - 477 -
    if leap year then 1 else 0) = (Calendar.leaps year : Int) - 478 := by
  have next := Calendar.leapsNext year
  have upTo : Calendar.leaps (year + 1) + year / 100 = year / 4 + year / 400 + 1 := by
    unfold Calendar.leaps
    omega
  cases here : leap year with
  | true =>
    rw [here,if_pos rfl] at next
    rw [if_pos rfl]
    omega
  | false =>
    rw [here,if_neg Bool.false_ne_true] at next
    rw [if_neg Bool.false_ne_true]
    omega

theorem secondsSmall {t : Calendar.DateTime} (valid : Calendar.Valid 1970 t) (small : t.year < 65536) :
    seconds 1970 t < 18446744073709551616 := by
  have closed := Calendar.daysToYearClosed 1970 (t.year - 1970)
  have few : yearDays (1970 + (t.year - 1970)) ≤ 366 := by
    unfold yearDays
    split <;> decide
  have inYear := valid.dayOfYear
  obtain ⟨year,-,-,hour,minute,second⟩ := valid
  unfold Calendar.leaps at closed
  simp only [seconds,Calendar.days]
  omega

theorem secondsTaken (gregorian : s.Gregorian)
    (taken : systemTime2UTC (some s) (some old) = (true,some stored)) : seconds 1970 s.dateTime = stored.toNat := by
  obtain ⟨nMonthTime,months,total⟩ := systemTime2UTCTaken taken
  have small := secondsSmall gregorian s.wYear.isLt
  obtain ⟨year,month,day,hour,minute,second⟩ := id gregorian
  simp only [SystemTime.dateTime] at year month day hour minute second
  have monthsGone := monthTimeTaken (by omega) months
  have yearsGone := Calendar.daysToYearClosed 1970 (s.wYear.toNat - 1970)
  rw [Nat.add_sub_cancel' year,show Calendar.leaps 1970 = 478 from rfl] at yearsGone
  rw [leapYears,monthsGone] at total
  have same : stored = BitVec.ofNat 64 (seconds 1970 s.dateTime) := by
    rw [total,← BitVec.ofInt_natCast]
    congr 1
    simp only [seconds,Calendar.days,SystemTime.dateTime]
    omega
  rw [same,BitVec.toNat_ofNat,Nat.mod_eq_of_lt small]

theorem systemTime2UTCSeconds (gregorian : s.Gregorian)
    (taken : systemTime2UTC (some s) (some old) = (true,some stored)) :
    Calendar.after 1970 stored.toNat = s.dateTime :=
  (Calendar.afterUnique gregorian).mpr (secondsTaken gregorian taken)

theorem systemTime2UTCSecondsLeapDay :
    SystemTime.Gregorian ⟨2000,2,2,29,12,34,56,0⟩ ∧
      systemTime2UTC (some ⟨2000,2,2,29,12,34,56,0⟩) (some 0) = (true,some 951827696) ∧
      Calendar.after 1970 (951827696 : Uint64).toNat = ⟨2000,2,29,12,34,56⟩ :=
  ⟨by decide,by decide,@systemTime2UTCSeconds ⟨2000,2,2,29,12,34,56,0⟩ 0 951827696 (by decide) (by decide)⟩

theorem systemTime2UTCTakes : (systemTime2UTC (some s) (some old)).1 = true ↔
    outOfRange s = false ∧ (s.wMonth.toNat ≤ 2 ∨ s.wDay.toNat ≤ monthDays s.wYear.toNat 2) := by
  have months := @monthTimeTakes s.wYear.toNat s.wDay.toNat (s.wMonth.toNat - 1)
  cases range : outOfRange s with
  | true => simp [systemTime2UTC,range]
  | false =>
    cases time : monthTime (leap s.wYear.toNat) s.wDay.toNat (s.wMonth.toNat - 1) with
    | none =>
      rw [time,Option.isSome_none] at months
      simp [systemTime2UTC,range,leapWord,time] at months ⊢
      omega
    | some nMonthTime =>
      rw [time,Option.isSome_some] at months
      simp [systemTime2UTC,range,leapWord,time] at months ⊢
      omega

/-- What the limits let through: a month, hour, minute or second just past the end, or a day that February
does not have. -/
def letThrough (s : SystemTime) : Prop :=
  outOfRange s = false ∧ (s.wMonth.toNat ≤ 2 ∨ s.wDay.toNat ≤ monthDays s.wYear.toNat 2) ∧
    (s.wMonth.toNat > 12 ∨ s.wHour.toNat = 24 ∨ s.wMinute.toNat = 60 ∨ s.wSecond.toNat = 60 ∨
      s.wMonth.toNat = 2 ∧ s.wDay.toNat > monthDays s.wYear.toNat 2)

def cutShort (s : SystemTime) : Prop :=
  1970 ≤ s.wYear.toNat ∧ 3 ≤ s.wMonth.toNat ∧ s.wMonth.toNat ≤ 12 ∧ monthDays s.wYear.toNat 2 < s.wDay.toNat ∧
    s.wDay.toNat ≤ monthDays s.wYear.toNat s.wMonth.toNat ∧ s.wHour.toNat ≤ 23 ∧ s.wMinute.toNat ≤ 59 ∧
    s.wSecond.toNat ≤ 59

theorem inRange : outOfRange s = false ↔ 1970 ≤ s.wYear.toNat ∧ (1 ≤ s.wMonth.toNat ∧ s.wMonth.toNat ≤ 31) ∧
    (1 ≤ s.wDay.toNat ∧ s.wDay.toNat ≤ 31) ∧ s.wHour.toNat ≤ 24 ∧ s.wMinute.toNat ≤ 60 ∧ s.wSecond.toNat ≤ 60 := by
  simp only [outOfRange,Bool.or_eq_false_iff,decide_eq_false_iff_not]
  omega

theorem gregorianFields : s.Gregorian ↔ 1970 ≤ s.wYear.toNat ∧ (1 ≤ s.wMonth.toNat ∧ s.wMonth.toNat ≤ 12) ∧
    (1 ≤ s.wDay.toNat ∧ s.wDay.toNat ≤ monthDays s.wYear.toNat s.wMonth.toNat) ∧ s.wHour.toNat ≤ 23 ∧
    s.wMinute.toNat ≤ 59 ∧ s.wSecond.toNat ≤ 59 :=
  ⟨fun ⟨year,month,day,hour,minute,second⟩ => ⟨year,month,day,hour,minute,second⟩,
    fun ⟨year,month,day,hour,minute,second⟩ => ⟨year,month,day,hour,minute,second⟩⟩

theorem februaryShortest (year month : Nat) : monthDays year 2 ≤ monthDays year month ∧ monthDays year month ≤ 31 := by
  have short := februaryDays year
  by_cases here : month = 2
  · rw [here]
    exact ⟨Nat.le_refl _,by omega⟩
  · generalize monthDays year 2 = february at *
    unfold monthDays
    split <;> first | contradiction | omega

theorem systemTime2UTCAccepts (s : SystemTime) (old : Uint64) :
    ((systemTime2UTC (some s) (some old)).1 = true ↔ s.Gregorian) ↔ ¬ letThrough s ∧ ¬ cutShort s := by
  obtain ⟨shortest,longest⟩ := februaryShortest s.wYear.toNat s.wMonth.toNat
  have january : s.wMonth.toNat ≠ 1 ∨ monthDays s.wYear.toNat s.wMonth.toNat = 31 :=
    or_iff_not_imp_left.mpr fun same => Decidable.not_not.mp same ▸ rfl
  have february : s.wMonth.toNat ≠ 2 ∨ monthDays s.wYear.toNat s.wMonth.toNat = monthDays s.wYear.toNat 2 :=
    or_iff_not_imp_left.mpr fun same => Decidable.not_not.mp same ▸ rfl
  rw [systemTime2UTCTakes,gregorianFields,letThrough,cutShort,inRange]
  generalize monthDays s.wYear.toNat s.wMonth.toNat = inMonth at *
  generalize monthDays s.wYear.toNat 2 = inFebruary at *
  omega

theorem systemTime2UTCRefusesMarchEnd :
    ¬ ∀ (s : SystemTime) (old : Uint64), (systemTime2UTC (some s) (some old)).1 = true ↔ s.Gregorian := by
  intro always
  have refused := (always ⟨2023,3,5,31,0,0,0,0⟩ 0).mpr (by decide)
  revert refused
  decide

section Cycle
variable {nY nR3 rest : Nat}

theorem yearAfter (n : Nat) (late : 1970 ≤ n) :
    daysToYear 1970 (n - 1970) + 478 = 365 * (n - 1970) + Calendar.leaps n := by
  have closed := Calendar.daysToYearClosed 1970 (n - 1970)
  rwa [Nat.add_sub_cancel' late] at closed

theorem commonYear (fourth : nY % 4 = 0) {k : Nat} (inside : 1 ≤ k ∧ k ≤ 3) : leap (nY + k) = false := by
  rw [← Bool.not_eq_true,Calendar.leapIff]
  omega

theorem leapsCycle (fourth : nY % 4 = 0) {k : Nat} (inside : 1 ≤ k ∧ k ≤ 4) :
    Calendar.leaps (nY + k) = Calendar.leaps nY + if leap nY then 1 else 0 := by
  rw [← Calendar.leapsNext]
  unfold Calendar.leaps
  omega

theorem cycleYears (fourth : nY % 4 = 0) (inside : nR3 < 1461) (part : rest < 86400) (late : 1970 ≤ nY)
    (small : nY < 65536) :
    ∃ nY4 gone, splitCycle nY (86400 * nR3 + rest) = (nY4,gone) ∧ nY4 ≤ 4 ∧ gone < yearDays (nY + nY4) ∧
      daysToYear 1970 (nY + nY4 - 1970) + gone = daysToYear 1970 (nY - 1970) + nR3 := by
  have start := yearAfter nY late
  unfold splitCycle
  rw [isLeapYearNat (by omega)]
  simp only [leapYearSec,yearSec,daySec,ge_iff_le]
  cases year : leap nY with
  | true =>
    rw [if_pos rfl]
    split
    · have years : (86400 * nR3 + rest - 31622400) / 31536000 = (nR3 - 366) / 365 := by omega
      have gone : (86400 * nR3 + rest - 31622400 - (nR3 - 366) / 365 * 31536000) / 86400 = (nR3 - 366) % 365 := by omega
      rw [years,Nat.add_sub_cancel,gone]
      have inCycle : 1 ≤ (nR3 - 366) / 365 + 1 ∧ (nR3 - 366) / 365 + 1 ≤ 3 := by omega
      have common := commonYear fourth inCycle
      have days := yearAfter (nY + ((nR3 - 366) / 365 + 1)) (by omega)
      rw [leapsCycle fourth (by omega),year,if_pos rfl] at days
      refine ⟨_,_,rfl,by omega,?_,?_⟩
      · rw [yearDays,common,if_neg Bool.false_ne_true]
        omega
      · apply Nat.add_right_cancel (m := 478)
        rw [Nat.add_right_comm,days,Nat.add_right_comm _ nR3,start]
        omega
    · refine ⟨_,_,rfl,by omega,?_,?_⟩
      · rw [Nat.add_zero,yearDays,year,if_pos rfl]
        omega
      · rw [Nat.add_zero]
        omega
  | false =>
    rw [if_neg Bool.false_ne_true]
    have years : (86400 * nR3 + rest) / 31536000 = nR3 / 365 := by omega
    have gone : (86400 * nR3 + rest) % 31536000 / 86400 = nR3 % 365 := by omega
    rw [years,gone]
    have days := yearAfter (nY + nR3 / 365) (by omega)
    refine ⟨_,_,rfl,by omega,?_,?_⟩
    · unfold yearDays
      split <;> omega
    · have same : Calendar.leaps (nY + nR3 / 365) = Calendar.leaps nY := by
        rcases Nat.eq_zero_or_pos (nR3 / 365) with none | some
        · rw [none,Nat.add_zero]
        · rw [leapsCycle fourth (by omega),year,if_neg Bool.false_ne_true,Nat.add_zero]
      apply Nat.add_right_cancel (m := 478)
      rw [Nat.add_right_comm,days,Nat.add_right_comm _ nR3,start,same]
      omega

end Cycle

theorem monthEntry {year nMonth : Nat} (known : 1 ≤ nMonth ∧ nMonth ≤ 12) :
    (nMonthArray (leap year)).getD nMonth 0 = monthDays year nMonth := by
  obtain ⟨low,high⟩ := known
  interval_cases nMonth <;> simp [nMonthArray,monthDays]

theorem monthFound {year : Nat} (rounds nMonth nDay : Nat) (left : rounds + nMonth = 13) (known : 1 ≤ nMonth)
    (some : 1 ≤ nDay) (inside : daysToMonth year (nMonth - 1) + (nDay - 1) < yearDays year) :
    ∃ m d : Nat, findMonth (nMonthArray (leap year)) rounds nMonth nDay = (m,(d : Int)) ∧ (1 ≤ m ∧ m ≤ 12) ∧
      (1 ≤ d ∧ d ≤ monthDays year m) ∧
      daysToMonth year (m - 1) + (d - 1) = daysToMonth year (nMonth - 1) + (nDay - 1) := by
  induction rounds generalizing nMonth nDay with
  | zero =>
    have last : nMonth = 13 := by omega
    rw [last,← Calendar.daysToMonthTwelve] at inside
    exact absurd inside (Nat.not_lt.mpr (Nat.le_add_right _ _))
  | succ rounds ih =>
    have entry : (nMonthArray (leap year)).getD nMonth 0 = monthDays year nMonth := monthEntry (by omega)
    obtain ⟨before,rfl⟩ := Nat.exists_eq_add_of_le' known
    have gone : daysToMonth year (before + 1) = daysToMonth year before + monthDays year (before + 1) := rfl
    rw [findMonth,entry]
    rw [Nat.add_sub_cancel] at inside
    by_cases later : (nDay : Int) - monthDays year (before + 1) ≥ 1
    · have next : (nDay : Int) - monthDays year (before + 1) = (nDay - monthDays year (before + 1) : Nat) := by omega
      obtain ⟨m,d,found,month,day,same⟩ := ih (before + 1 + 1) (nDay - monthDays year (before + 1)) (by omega)
        (by omega) (by omega) (by rw [Nat.add_sub_cancel]; omega)
      refine ⟨m,d,?_,month,day,?_⟩
      · simp only [if_pos later]
        rw [next,found]
      · rw [same,Nat.add_sub_cancel,Nat.add_sub_cancel]
        omega
    · refine ⟨before + 1,nDay,?_,⟨known,by omega⟩,⟨some,by omega⟩,rfl⟩
      simp only [if_neg later]
      rw [if_pos (by omega)]
      congr 1
      omega

theorem wordNat {n : Nat} (small : n < 65536) : (BitVec.ofNat 16 n).toNat = n := by
  rw [BitVec.toNat_ofNat,Nat.mod_eq_of_lt small]

theorem setInYearShows {nY nR3 nY4 gone : Nat} (early : ∀ y, 1 ≤ y → y < nY4 → leap (nY + y) = false)
    (inside : gone < yearDays (nY + nY4)) (late : 1970 ≤ nY) (small : nY + nY4 < 65536) :
    Calendar.Valid 1970 (setInYear s nY nY4 gone nR3).dateTime ∧ seconds 1970 (setInYear s nY nY4 gone nR3).dateTime =
      86400 * (daysToYear 1970 (nY + nY4 - 1970) + gone) + nR3 % 86400 := by
  have few : gone < 366 := by
    unfold yearDays at inside
    split at inside <;> omega
  have common : ((List.range' 1 (nY4 - 1)).any fun y => isLeapYear (BitVec.ofNat 32 (nY + y))) = false := by
    rw [List.any_eq_false]
    intro y member
    rw [List.mem_range'_1] at member
    rw [isLeapYearNat (by omega),early y member.1 (by omega)]
    exact Bool.false_ne_true
  obtain ⟨m,d,found,month,day,same⟩ := @monthFound (nY + nY4) 12 1 (gone + 1) rfl (Nat.le_refl 1) (by omega)
    (by simpa [daysToMonth,Calendar.total] using inside)
  have longest := (februaryShortest (nY + nY4) m).2
  have shows : (setInYear s nY nY4 gone nR3).dateTime =
      ⟨nY + nY4,m,d,nR3 % 86400 / 3600,nR3 % 86400 % 3600 / 60,nR3 % 86400 % 3600 % 60⟩ := by
    have year : isLeapYear (BitVec.ofNat 32 (nY + nY4)) = leap (nY + nY4) := isLeapYearNat (by omega)
    have fits : int (gone + 1 : Nat) = (gone + 1 : Nat) := intFits (by omega) (by omega)
    simp only [setInYear,common,Bool.false_eq_true,if_false,year,fits,found,SystemTime.dateTime,daySec,
      BitVec.ofInt_natCast]
    rw [wordNat small,wordNat (by omega),wordNat (by omega),wordNat (by omega),wordNat (by omega),wordNat (by omega)]
  rw [shows]
  refine ⟨⟨Nat.le_trans late (Nat.le_add_right nY nY4),month,day,?_,?_,?_⟩,?_⟩
  · simp only
    omega
  · simp only
    omega
  · simp only
    omega
  · have first : daysToMonth (nY + nY4) (1 - 1) = 0 := rfl
    rw [first] at same
    simp only [seconds,Calendar.days,same]
    omega

theorem wholeDays {d rest k : Nat} (part : rest < 86400) : (86400 * d + rest) / (86400 * k) = d / k ∧
    (86400 * d + rest) % (86400 * k) = 86400 * (d % k) + rest := by
  have whole : (86400 * d + rest) / 86400 = d := by omega
  have left : (86400 * d + rest) % 86400 = rest := by omega
  constructor
  · rw [← Nat.div_div_eq_div_mul,whole]
  · rw [Nat.mod_mul,whole,left,Nat.add_comm]

def lag (day : Nat) : Nat := (100 * (day / 36525) + 4 * (day % 36525 / 1461) - 29) / 100

theorem lagNone {day : Nat} (inside : day < 146097) : lag day = 0 ↔ day < 48213 := by
  unfold lag
  omega

def cycleYear (day : Nat) : Nat :=
  day / 146097 * 400 + day % 146097 / 36525 * 100 + day % 146097 % 36525 / 1461 * 4

theorem daysToCycle (day : Nat) :
    daysToYear 1970 (cycleYear day + 2) + day % 146097 % 36525 % 1461 + lag (day % 146097) = day + 730 := by
  have closed := Calendar.daysToYearClosed 1970 (cycleYear day + 2)
  have years : cycleYear day = day / 146097 * 400 + day % 146097 / 36525 * 100 + day % 146097 % 36525 / 1461 * 4 := rfl
  generalize cycleYear day = n at *
  generalize daysToYear 1970 (n + 2) = gone at *
  unfold Calendar.leaps at closed
  unfold lag
  omega

def day1972 (time : Nat) : Nat := (time - 63072000) / 86400

theorem findCycleLate {time : Nat} (late : 63072000 ≤ time) : findCycle time =
    (cycleYear (day1972 time) + 1970 + 2,86400 * (day1972 time % 146097 % 36525 % 1461) + time % 86400) := by
  have part : time % 86400 < 86400 := Nat.mod_lt _ (by decide)
  have shifted : time - yearSec - yearSec = 86400 * day1972 time + time % 86400 := by
    unfold day1972 yearSec
    omega
  have isLate : time ≥ yearSec + yearSec := late
  obtain ⟨periods,period⟩ := wholeDays (d := day1972 time) (k := 146097) part
  obtain ⟨centuries,century⟩ := wholeDays (d := day1972 time % 146097) (k := 36525) part
  obtain ⟨cycles,cycle⟩ := wholeDays (d := day1972 time % 146097 % 36525) (k := 1461) part
  simp only [findCycle,if_pos isLate,shifted]
  rw [show t400YearSec = 86400 * 146097 from rfl,show t100YearSec = 86400 * 36525 from rfl,
    show t4YearSec = 86400 * 1461 from rfl,periods,period,centuries,century,cycles,cycle]
  rfl

theorem findCycleEarly {time : Nat} (early : time < 63072000) : findCycle time = (1970,time) := by
  have notLate : ¬ time ≥ yearSec + yearSec := Nat.not_le.mpr early
  simp only [findCycle,if_neg notLate,t400YearSec,t100YearSec,t4YearSec]
  rw [Nat.mod_eq_of_lt (show time < 12622780800 by omega),Nat.mod_eq_of_lt (by omega),Nat.mod_eq_of_lt (by omega),
    Nat.div_eq_of_lt (by omega),Nat.div_eq_of_lt (by omega),Nat.div_eq_of_lt (by omega)]

theorem splitEarly (time : Nat) : splitCycle 1970 time = (time / 31536000,time % 31536000 / 86400) := by
  have common : isLeapYear (BitVec.ofNat 32 1970) = false := rfl
  simp only [splitCycle,common,Bool.false_eq_true,if_false]
  rfl

def behind (time : Nat) : Nat := if time < 63072000 then 0 else lag (day1972 time % 146097)

theorem showsEarly {time : Nat} (prior : SystemTime) (early : time < 63072000) :
    Calendar.Valid 1970 (setInYear prior 1970 (time / 31536000) (time % 31536000 / 86400) time).dateTime ∧
      seconds 1970 (setInYear prior 1970 (time / 31536000) (time % 31536000 / 86400) time).dateTime = time := by
  have years : time / 31536000 ≤ 1 := by omega
  obtain ⟨valid,shows⟩ := @setInYearShows prior 1970 time (time / 31536000) (time % 31536000 / 86400) (by omega)
    (by unfold yearDays; split <;> omega) (Nat.le_refl _) (by omega)
  refine ⟨valid,?_⟩
  rw [shows,Nat.add_sub_cancel_left]
  rcases Nat.le_one_iff_eq_zero_or_eq_one.mp years with first | second
  · rw [first,show daysToYear 1970 0 = 0 from rfl]
    omega
  · rw [second,show daysToYear 1970 1 = 365 from rfl]
    omega

theorem showsLate {time : Nat} (prior : SystemTime) (late : 63072000 ≤ time) (before : time < 253402300800) :
    ∃ nY4 gone, splitCycle (findCycle time).1 (findCycle time).2 = (nY4,gone) ∧
      Calendar.Valid 1970 (setInYear prior (findCycle time).1 nY4 gone (findCycle time).2).dateTime ∧
      seconds 1970 (setInYear prior (findCycle time).1 nY4 gone (findCycle time).2).dateTime +
        86400 * lag (day1972 time % 146097) = time := by
  have part : time % 86400 < 86400 := Nat.mod_lt _ (by decide)
  have inCycle : day1972 time % 146097 % 36525 % 1461 < 1461 := Nat.mod_lt _ (by decide)
  have start := daysToCycle (day1972 time)
  have whole : time = 86400 * (day1972 time + 730) + time % 86400 := by
    unfold day1972
    omega
  have small : cycleYear (day1972 time) + 1970 + 2 < 12000 := by
    unfold cycleYear day1972
    omega
  have fourth : (cycleYear (day1972 time) + 1970 + 2) % 4 = 0 := by
    unfold cycleYear
    omega
  have since : cycleYear (day1972 time) + 1970 + 2 - 1970 = cycleYear (day1972 time) + 2 := by omega
  obtain ⟨nY4,gone,split,few,inside,days⟩ := cycleYears fourth inCycle part (by omega) (by omega)
  obtain ⟨valid,shows⟩ := @setInYearShows prior _ (86400 * (day1972 time % 146097 % 36525 % 1461) + time % 86400) _ _
    (fun y low high => commonYear fourth ⟨low,by omega⟩) inside (by omega) (by omega)
  rw [findCycleLate late]
  refine ⟨nY4,gone,split,valid,?_⟩
  rw [shows,days,since,Nat.mul_add_mod,Nat.mod_eq_of_lt part,Nat.add_right_comm,← Nat.mul_add,start,← whole]

theorem utc2SystemTimeShows {time : Uint64} (prior : SystemTime) (before : time.toNat < 253402300800) :
    ∃ s, utc2SystemTime (some time) (some prior) = (true,some s) ∧ Calendar.Valid 1970 s.dateTime ∧
      seconds 1970 s.dateTime + 86400 * behind time.toNat = time.toNat := by
  refine ⟨_,rfl,?_⟩
  by_cases early : time.toNat < 63072000
  · rw [findCycleEarly early,splitEarly,behind,if_pos early,Nat.mul_zero,Nat.add_zero]
    exact showsEarly prior early
  · obtain ⟨nY4,gone,split,shows⟩ := showsLate prior (Nat.not_lt.mp early) before
    rw [split,behind,if_neg early]
    exact shows

/-- The code keeps up with the calendar for the first 48213 of 146097 days, counted from 1972. -/
def inStep (time : Uint64) : Prop :=
  time.toNat < yearSec + yearSec ∨ (time.toNat - (yearSec + yearSec)) % t400YearSec < 48213 * daySec

instance (time : Uint64) : Decidable (inStep time) := inferInstanceAs (Decidable (_ ∨ _))

theorem behindNone (time : Uint64) : behind time.toNat = 0 ↔ inStep time := by
  have part : (time.toNat - 63072000) % 86400 < 86400 := Nat.mod_lt _ (by decide)
  have whole : time.toNat - 63072000 = 86400 * day1972 time.toNat + (time.toNat - 63072000) % 86400 := by
    unfold day1972
    omega
  have period := (wholeDays (d := day1972 time.toNat) (k := 146097) part).2
  rw [← whole] at period
  have days : (time.toNat - (yearSec + yearSec)) % t400YearSec < 48213 * daySec ↔
      day1972 time.toNat % 146097 < 48213 := by
    rw [show yearSec + yearSec = 63072000 from rfl,show t400YearSec = 86400 * 146097 from rfl,period,daySec]
    omega
  rw [inStep,days,behind]
  split
  · rename_i early
    exact ⟨fun _ => .inl early,fun _ => rfl⟩
  · rename_i late
    rw [lagNone (Nat.mod_lt _ (by decide))]
    exact ⟨.inr,fun either => either.resolve_left late⟩

structure Converts (time : Uint64) (prior : SystemTime) : Prop where
  shows : ∃ s, utc2SystemTime (some time) (some prior) = (true,some s) ∧ s.dateTime = Calendar.after 1970 time.toNat
  inverts : ∀ given old, given.Gregorian → systemTime2UTC (some given) (some old) = (true,some time) →
    ∃ s, utc2SystemTime (some time) (some prior) = (true,some s) ∧ s.dateTime = given.dateTime

theorem newYear (year : Nat) (late : 1970 ≤ year) :
    seconds 1970 ⟨year,1,1,0,0,0⟩ + 41299200 = 86400 * (365 * (year - 1970) + Calendar.leaps year) := by
  have january : daysToMonth year (1 - 1) = 0 := rfl
  simp only [seconds,Calendar.days,january]
  rw [← yearAfter year late]
  omega

theorem endOf9999 : seconds 1970 ⟨10000,1,1,0,0,0⟩ = 253402300800 :=
  Nat.add_right_cancel (newYear 10000 (by decide))

theorem utc2SystemTimeConverts (time : Uint64) (prior : SystemTime)
    (before : time.toNat < seconds 1970 ⟨10000,1,1,0,0,0⟩) : Converts time prior ↔ inStep time := by
  rw [endOf9999] at before
  obtain ⟨s,result,valid,shows⟩ := utc2SystemTimeShows prior before
  rw [← behindNone]
  constructor
  · rintro ⟨⟨s',result',right⟩,-⟩
    cases result.symm.trans result'
    rw [eq_comm,Calendar.afterUnique valid] at right
    omega
  · intro level
    have right : s.dateTime = Calendar.after 1970 time.toNat := by
      rw [eq_comm,Calendar.afterUnique valid]
      omega
    refine ⟨⟨s,result,right⟩,fun given old gregorian taken => ⟨s,result,?_⟩⟩
    rw [right,(Calendar.afterUnique gregorian).mpr (secondsTaken gregorian taken)]

theorem utc2SystemTimeConvertsToday : Converts 1709210096 ⟨0,0,0,0,0,0,0,0⟩ :=
  (utc2SystemTimeConverts 1709210096 ⟨0,0,0,0,0,0,0,0⟩ (by rw [endOf9999]; decide)).mpr (by decide)

theorem utc2SystemTimeDrifts : ¬ ∀ (time : Uint64) (prior : SystemTime),
    time.toNat < seconds 1970 ⟨10000,1,1,0,0,0⟩ → Converts time prior := by
  intro always
  obtain ⟨⟨s,result,right⟩,-⟩ := always 4228675200 ⟨0,0,0,0,0,0,0,0⟩ (by rw [endOf9999]; decide)
  have shown : utc2SystemTime (some 4228675200) (some ⟨0,0,0,0,0,0,0,0⟩) = (true,some ⟨2104,1,0,1,0,0,0,0⟩) := by decide
  have january : seconds 1970 ⟨2104,1,1,0,0,0⟩ = 4228588800 := Nat.add_right_cancel (newYear 2104 (by decide))
  cases shown.symm.trans result
  rw [eq_comm,Calendar.afterUnique (by decide)] at right
  exact absurd (january.symm.trans right) (by decide)

end JokeDse
