import Coercion.Proofs.Calendar.Readings
import Coercion.Proofs.Calendar.Years
import Coercion.Proofs.Checked.Steps

namespace Coercion

namespace Calendar

theorem era_eq_zero {n y k : Int} (hn : n = daysBefore y + k) (hk : 0 ≤ k) (hk' : k < 366)
    (h : 0 ≤ n) (h' : n < 146097) : y / 400 = 0 := by
  obtain ⟨q, r, hr, hr', rfl⟩ : ∃ q r : Int, 0 ≤ r ∧ r < 400 ∧ y = 400 * q + r :=
    ⟨y / 400, y % 400, by omega, by omega, by omega⟩
  have hn' : n = 146097 * q + (365 * r + r / 4 - r / 100 + k) := by
    rw [hn, daysBefore]
    omega
  have hrest : 0 ≤ 365 * r + r / 4 - r / 100 + k ∧ 365 * r + r / 4 - r / 100 + k < 146097 := by
    omega
  have hq : q = 0 := by omega
  omega

theorem yearOfEra_bounds {n year : Int} (h : 0 ≤ n) (h' : n < 146097)
    (hyear : year = (n - n / 1460 + n / 36524 - n / 146096) / 365) :
    0 ≤ year ∧ year < 400 ∧ 0 ≤ n - (365 * year + year / 4 - year / 100) ∧
      n - (365 * year + year / 4 - year / 100) < 366 := by
  -- The day is that of a date, whose year from March on is the one that the quotient gives.
  obtain ⟨d, hd, hnumber⟩ := Date.exists_number_eq (n - 719468)
  obtain ⟨hpos, hlast, -⟩ := marchDay_bounds hd
  obtain ⟨y, hy⟩ : ∃ y, y = marchYear d.year d.month := ⟨_, rfl⟩
  obtain ⟨k, hk⟩ : ∃ k, k = marchDay d.month d.day := ⟨_, rfl⟩
  have hn : n = daysBefore y + k := by
    rw [Date.number, dayNumber_eq, ← hy] at hnumber
    rw [hk, marchDay]
    omega
  rw [← hy, ← hk] at hlast
  rw [← hk] at hpos
  have hk' : k < 366 := by
    have := leapDay_cases (y + 1)
    omega
  clear hnumber hk hy hd
  have hera := era_eq_zero hn hpos hk' h h'
  have hy0 : 0 ≤ y ∧ y < 400 := by omega
  rw [daysBefore, hera] at hn
  have hyear' := yearOfEra_eq hy0.1 hy0.2 hpos hlast (n := n) (by omega)
  rw [hyear'] at hyear
  subst hyear
  omega

theorem natAbs_dayNumber_lt {year month day : Int} (hyear : year.natAbs < 1000000000)
    (hday : day.natAbs < 1000) :
    (dayNumber year month day).natAbs < 366 * year.natAbs + 1000000 := by
  rw [dayNumber_eq]
  unfold daysBefore marchYear
  split_ifs <;> omega

theorem Date.IsValid.carriedDay_le {d : Date} (h : d.IsValid) :
    carriedDay d.year 0 1 ≤ d.number ∧ d.number < carriedDay d.year 0 1 + 366 := by
  have hdays := h.yearStart_le
  have hlength := yearStart_bounds d.year
  rw [carriedDay_first]
  omega

theorem Date.IsValid.natAbs_year_lt {d : Date} (h : d.IsValid)
    (hnumber : d.number.natAbs < 200000000000) : d.year.natAbs < 600000000 := by
  obtain ⟨hm, hm', hd, hd'⟩ := h.bounds
  rw [Date.number, dayNumber_eq] at hnumber
  unfold daysBefore marchYear at hnumber
  split_ifs at hnumber <;> omega

end Calendar

namespace Civil

open Calendar

theorem natAbs_year_lt_of_fitsWord {millis : Int} (h : fitsWord millis = true) :
    (ofMillis millis).year.natAbs < 600000000 := by
  refine (dateOfDay_isValid (millis / millisPerDay)).natAbs_year_lt ?_
  rw [number_dateOfDay]
  rw [fitsWord_iff] at h
  unfold millisPerDay
  omega

end Civil

namespace Checked

open Calendar

def marchYear (year month : Int) : Checked Int :=
  if month ≤ 2 then sub year 1 else done year

/-- The day number of a date. -/
def dayNumber (year month day : Int) : Checked Int := do
  let year ← marchYear year month
  let era := year / 400
  let yearOfEra ← sub year (← mul era 400)
  let shifted := (← add month 9).tmod 12
  let dayOfYear ← sub (← add ((← add (← mul 153 shifted) 2).tdiv 5) day) 1
  let dayOfEra ← add
    (← sub (← add (← mul yearOfEra 365) (yearOfEra.tdiv 4)) (yearOfEra.tdiv 100)) dayOfYear
  sub (← add (← mul era 146097) dayOfEra) 719468

theorem dayNumber_eq {year month day : Int} (hyear : year.natAbs < 1000000000) (hmonth : 1 ≤ month)
    (hmonth' : month ≤ 12) (hday : day.natAbs < 1000) :
    dayNumber year month day = done (Calendar.dayNumber year month day) := by
  have hmarch : marchYear year month = done (Calendar.marchYear year month) := by
    unfold marchYear Calendar.marchYear
    split_ifs
    · exact sub_eq (by omega) (by omega)
    · rfl
  have hy : (Calendar.marchYear year month).natAbs ≤ 1000000000 := by
    unfold Calendar.marchYear
    split_ifs <;> omega
  obtain ⟨y, hexact⟩ : ∃ y, y = Calendar.marchYear year month := ⟨_, rfl⟩
  rw [← hexact] at hmarch hy
  unfold dayNumber
  rw [hmarch]
  simp (disch := omega) only [done_bind, sub_eq, add_eq, mul_eq, Int.tdiv_eq_ediv_of_nonneg,
    Int.tmod_eq_emod_of_nonneg]
  rw [hexact]
  rfl

def yearOfEra (dayOfEra : Int) : Checked Int := do
  let days ← sub
    (← add (← sub dayOfEra (dayOfEra.tdiv 1460)) (dayOfEra.tdiv 36524)) (dayOfEra.tdiv 146096)
  done (days.tdiv 365)

def dayOfYear (yearOfEra dayOfEra : Int) : Checked Int := do
  sub dayOfEra (← sub (← add (← mul 365 yearOfEra) (yearOfEra.tdiv 4)) (yearOfEra.tdiv 100))

def monthOfShifted (shifted : Int) : Checked Int :=
  if shifted < 10 then add shifted 3 else sub shifted 9

def monthAndDay (dayOfYear : Int) : Checked (Int × Int) := do
  let shifted := (← add (← mul 5 dayOfYear) 2).tdiv 153
  let day ← add (← sub dayOfYear ((← add (← mul 153 shifted) 2).tdiv 5)) 1
  done (← monthOfShifted shifted, day)

/-- The date of a day number. -/
def dateOfDay (number : Int) : Checked Date := do
  let days ← add number 719468
  let era := days / 146097
  let dayOfEra ← sub days (← mul era 146097)
  let yearOfEra ← yearOfEra dayOfEra
  let dayOfYear ← dayOfYear yearOfEra dayOfEra
  let (month, day) ← monthAndDay dayOfYear
  let year ← add (← add yearOfEra (← mul era 400)) (if month ≤ 2 then 1 else 0)
  done ⟨year, ← unsigned 256 month, ← unsigned 256 day⟩

theorem yearOfEra_eq {n : Int} (h : 0 ≤ n) (h' : n < 146097) :
    yearOfEra n = done ((n - n / 1460 + n / 36524 - n / 146096) / 365) := by
  unfold yearOfEra
  simp (disch := omega) only [done_bind, sub_eq, add_eq, Int.tdiv_eq_ediv_of_nonneg]

theorem dayOfYear_eq {year n : Int} (h : 0 ≤ n) (h' : n < 146097) (hyear : 0 ≤ year)
    (hyear' : year < 400) :
    dayOfYear year n = done (n - (365 * year + year / 4 - year / 100)) := by
  unfold dayOfYear
  simp (disch := omega) only [done_bind, sub_eq, add_eq, mul_eq, Int.tdiv_eq_ediv_of_nonneg]

theorem monthAndDay_eq {k : Int} (h : 0 ≤ k) (h' : k < 366) : ∃ m d : Int,
    m = (if (5 * k + 2) / 153 < 10 then (5 * k + 2) / 153 + 3 else (5 * k + 2) / 153 - 9) ∧
    d = k - (153 * ((5 * k + 2) / 153) + 2) / 5 + 1 ∧ monthAndDay k = done (m, d) ∧
    0 ≤ m ∧ m < 256 ∧ 0 ≤ d ∧ d < 256 := by
  have hmonth : monthOfShifted ((5 * k + 2) / 153) = done
      (if (5 * k + 2) / 153 < 10 then (5 * k + 2) / 153 + 3 else (5 * k + 2) / 153 - 9) := by
    unfold monthOfShifted
    split_ifs
    · exact add_eq (by omega) (by omega)
    · exact sub_eq (by omega) (by omega)
  refine ⟨_, _, rfl, rfl, ?_, ?_, ?_, by omega, by omega⟩
  · unfold monthAndDay
    simp (disch := omega) only [done_bind, sub_eq, add_eq, mul_eq, Int.tdiv_eq_ediv_of_nonneg,
      hmonth]
  · split_ifs <;> omega
  · split_ifs <;> omega

theorem dateOfDay_eq {number : Int} (h : number.natAbs < 200000000000) :
    dateOfDay number = done (Calendar.dateOfDay number) := by
  obtain ⟨era, hera⟩ : ∃ era, era = (number + 719468) / 146097 := ⟨_, rfl⟩
  obtain ⟨n, hn⟩ : ∃ n, n = number + 719468 - era * 146097 := ⟨_, rfl⟩
  have hn' : 0 ≤ n ∧ n < 146097 := by omega
  obtain ⟨year, hyear⟩ : ∃ year, year = (n - n / 1460 + n / 36524 - n / 146096) / 365 := ⟨_, rfl⟩
  obtain ⟨h0, h400, hpos, hlast⟩ := yearOfEra_bounds hn'.1 hn'.2 hyear
  obtain ⟨m, d, hm, hd, hmonth, hm0, hm256, hd0, hd256⟩ := monthAndDay_eq hpos hlast
  have hsum : add year (era * 400) = done (year + era * 400) := add_eq (by omega) (by omega)
  have hleap : add (year + era * 400) (if m ≤ 2 then 1 else 0) =
      done (year + era * 400 + if m ≤ 2 then 1 else 0) := by
    split_ifs <;> exact add_eq (by omega) (by omega)
  unfold dateOfDay
  rw [add_eq (by omega) (by omega), done_bind]
  dsimp only
  rw [← hera, mul_eq (by omega) (by omega), done_bind, sub_eq (by omega) (by omega), ← hn,
    done_bind, yearOfEra_eq hn'.1 hn'.2, ← hyear, done_bind, dayOfYear_eq hn'.1 hn'.2 h0 h400,
    done_bind, hmonth, done_bind, mul_eq (by omega) (by omega), done_bind, hsum, done_bind, hleap,
    done_bind, unsigned_eq hm0 hm256, done_bind, unsigned_eq hd0 hd256, done_bind, hm, hd, hyear,
    hn, hera]
  rfl

/-- The day number of a year, a month counted from zero and a day that carry over. -/
def carriedDay (year month0 day : Int) : Checked Int := do
  let first ← dayNumber (← add year (month0 / 12)) (← add (month0 % 12) 1) 1
  sub (← add first day) 1

def carriedMillis (year month0 day hour minute second : Int) : Checked Int := do
  add
    (← add
      (← add (← mul (← carriedDay year month0 day) millisPerDay) (← mul hour millisPerHour))
      (← mul minute millisPerMinute))
    (← mul second millisPerSecond)

theorem carriedDay_eq {year month0 day : Int} (hyear : year.natAbs < 900000000)
    (hmonth : month0.natAbs < 1000) (hday : day.natAbs < 1000) :
    carriedDay year month0 day = done (Calendar.carriedDay year month0 day) := by
  have hbound : (Calendar.dayNumber (year + month0 / 12) (month0 % 12 + 1) 1).natAbs < _ :=
    natAbs_dayNumber_lt (by omega) (by decide)
  unfold carriedDay Calendar.carriedDay
  rw [add_eq (by omega) (by omega), done_bind, add_eq (by omega) (by omega), done_bind,
    dayNumber_eq (by omega) (by omega) (by omega) (by omega), done_bind,
    add_eq (by omega) (by omega), done_bind, sub_eq (by omega) (by omega)]

theorem sum_of_day_eq {day hour minute second : Int} (hday : -4000000000 < day ∧ day < 4000000000)
    (hhour : 0 ≤ hour ∧ hour < 1000) (hminute : 0 ≤ minute ∧ minute < 1000)
    (hsecond : 0 ≤ second ∧ second < 1000) :
    (do
      add
        (← add (← add (← mul day 86400000) (← mul hour 3600000)) (← mul minute 60000))
        (← mul second 1000)) =
      done (day * 86400000 + hour * 3600000 + minute * 60000 + second * 1000) := by
  simp (disch := omega) only [done_bind, add_eq, mul_eq]

theorem carriedMillis_eq {year month0 day hour minute second : Int}
    (hyear : year.natAbs < 10000000) (hmonth : month0.natAbs < 1000) (hday : day.natAbs < 1000)
    (hhour : 0 ≤ hour ∧ hour < 1000) (hminute : 0 ≤ minute ∧ minute < 1000)
    (hsecond : 0 ≤ second ∧ second < 1000) :
    carriedMillis year month0 day hour minute second =
      done (Calendar.carriedMillis year month0 day hour minute second) ∧
    (Calendar.carriedMillis year month0 day hour minute second).natAbs < 1000000000000000000 := by
  obtain ⟨k, hk⟩ : ∃ k, k = Calendar.carriedDay year month0 day := ⟨_, rfl⟩
  have hk' : -4000000000 < k ∧ k < 4000000000 := by
    have : (Calendar.dayNumber (year + month0 / 12) (month0 % 12 + 1) 1).natAbs < _ :=
      natAbs_dayNumber_lt (by omega) (by decide)
    rw [hk, Calendar.carriedDay]
    omega
  rw [Calendar.carriedMillis, carriedMillis, carriedDay_eq (by omega) hmonth hday, ← hk, done_bind]
  unfold millisPerDay millisPerHour millisPerMinute millisPerSecond
  refine ⟨sum_of_day_eq hk' hhour hminute hsecond, ?_⟩
  clear hk hyear hmonth hday
  omega

/-- The fields of a reading. -/
def ofMillis (millis : Int) : Checked Civil := do
  let days := millis / millisPerDay
  let time := millis % millisPerDay
  let date ← dateOfDay days
  let hour ← unsigned 256 (time.tdiv millisPerHour)
  let minute ← unsigned 256 ((time.tmod millisPerHour).tdiv millisPerMinute)
  let second ← unsigned 256 ((time.tmod millisPerMinute).tdiv millisPerSecond)
  let millisecond ← unsigned 65536 (time.tmod millisPerSecond)
  let weekday ← unsigned 256 ((← add days 4) % 7)
  let ordinal ← unsigned 65536 (← add (← sub days (← carriedDay date.year 0 1)) 1)
  done ⟨date.year, date.month, date.day, hour, minute, second, millisecond, weekday, ordinal⟩

theorem ofMillis_eq {millis : Int} (h : fitsWord millis = true) :
    ofMillis millis = done (Civil.ofMillis millis) := by
  obtain ⟨days, hdays⟩ : ∃ days, days = millis / millisPerDay := ⟨_, rfl⟩
  obtain ⟨time, htime⟩ : ∃ time, time = millis % millisPerDay := ⟨_, rfl⟩
  have hdays' : -106751991168 ≤ days ∧ days ≤ 106751991167 := by
    rw [fitsWord_iff] at h
    unfold millisPerDay at hdays
    omega
  have htime' : 0 ≤ time ∧ time < 86400000 := by
    unfold millisPerDay at htime
    omega
  have hvalid := Calendar.dateOfDay_isValid days
  have hnumber := Calendar.number_dateOfDay days
  obtain ⟨hlow, hhigh⟩ := hvalid.carriedDay_le
  have hyear : (Calendar.dateOfDay days).year.natAbs < 600000000 :=
    hdays ▸ Civil.natAbs_year_lt_of_fitsWord h
  rw [hnumber] at hlow hhigh
  unfold ofMillis
  dsimp only
  rw [← hdays, ← htime, dateOfDay_eq (by omega), done_bind]
  unfold millisPerHour millisPerMinute millisPerSecond
  have hfirst : carriedDay (Calendar.dateOfDay days).year 0 1 =
      done (Calendar.carriedDay (Calendar.dateOfDay days).year 0 1) :=
    carriedDay_eq (by omega) (by decide) (by decide)
  simp (disch := omega) only [done_bind, add_eq, sub_eq, unsigned_eq, Int.tdiv_eq_ediv_of_nonneg,
    Int.tmod_eq_emod_of_nonneg, hfirst]
  rw [hdays, htime]
  rfl

theorem sub_month (millis : Int) :
    sub (Civil.ofMillis millis).month 1 = done ((Civil.ofMillis millis).month - 1 : Int) := by
  obtain ⟨hm, hm', -, -⟩ := Civil.ofMillis_bounds millis
  exact sub_eq (by omega) (by omega)

section

variable {millis : Int} (h : fitsWord millis = true)

include h

theorem carriedDay_ofMillis {day : Int} (hday : day.natAbs < 1000) :
    carriedDay (Civil.ofMillis millis).year ((Civil.ofMillis millis).month - 1) day =
      done (Calendar.carriedDay (Civil.ofMillis millis).year ((Civil.ofMillis millis).month - 1)
        day) := by
  obtain ⟨hm, hm', -, -⟩ := Civil.ofMillis_bounds millis
  have hyear := Civil.natAbs_year_lt_of_fitsWord h
  exact carriedDay_eq (by omega) (by omega) hday

/-- From the midnight of a word on the sums only grow, and the last of them is not above it. -/
theorem carriedMillis_ofMillis {hour minute second : Int} (hhour : 0 ≤ hour ∧ hour < 24)
    (hminute : 0 ≤ minute ∧ minute < 60) (hsecond : 0 ≤ second ∧ second < 60)
    (hle : Calendar.carriedMillis (Civil.ofMillis millis).year ((Civil.ofMillis millis).month - 1)
      (Civil.ofMillis millis).day hour minute second ≤ millis) :
    carriedMillis (Civil.ofMillis millis).year ((Civil.ofMillis millis).month - 1)
        (Civil.ofMillis millis).day hour minute second =
      if fitsWord (Civil.ofMillis millis).midnight then
        done (Calendar.carriedMillis (Civil.ofMillis millis).year
          ((Civil.ofMillis millis).month - 1) (Civil.ofMillis millis).day hour minute second)
      else stopped := by
  obtain ⟨-, -, hd, hd'⟩ := Civil.ofMillis_bounds millis
  have hday : carriedDay (Civil.ofMillis millis).year ((Civil.ofMillis millis).month - 1)
      (Civil.ofMillis millis).day = done _ := carriedDay_ofMillis h (by omega)
  rw [Calendar.carriedMillis] at hle ⊢
  rw [Civil.carriedDay_ofMillis] at hday hle ⊢
  rw [carriedMillis, hday, done_bind, mul_eq_word, word?, Civil.midnight_ofMillis]
  split_ifs with hword
  · obtain ⟨hlow, -⟩ := fitsWord_iff.mp hword
    obtain ⟨-, hhigh⟩ := fitsWord_iff.mp h
    clear hday hword h
    generalize millis / millisPerDay * millisPerDay = midnight at *
    unfold millisPerHour millisPerMinute millisPerSecond at *
    simp (disch := omega) only [Ending.orStop_some, done_bind, mul_eq, add_eq]
  · rfl

end

end Checked

end Coercion
