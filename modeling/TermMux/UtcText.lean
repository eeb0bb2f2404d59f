import TermMux.Outcome
import TermMux.Gregorian

/-!
# Timestamps as UTC text

`fmt_utc` turns a second count into calendar fields without a date library. Its
arithmetic is on `i64`: `div_euclid` and `rem_euclid` are `/` and `%` here, and
the truncating operators of the source are `tdiv` and `tmod`.
-/

set_option autoImplicit false

namespace Term.UtcText
open Term.Outcome Term.Gregorian

/-- The result of an `i64` operation. One that does not fit is a panic. -/
def i64 (n : ℤ) : Outcome Empty ℤ := if -2^63 ≤ n ∧ n < 2^63 then .ok n else .panicked

def civilFromDays (days : ℤ) : Outcome Empty (ℤ × ℤ × ℤ) := do
  let z ← i64 (days+719468)
  let num ← (if 0 ≤ z then .ok z else i64 (z-146096))
  let era := num.tdiv 146097
  let eraDays ← i64 (era*146097)
  let doe ← i64 (z-eraDays)
  let less ← i64 (doe-doe.tdiv 1460)
  let more ← i64 (less+doe.tdiv 36524)
  let whole ← i64 (more-doe.tdiv 146096)
  let yoe := whole.tdiv 365
  let eraYears ← i64 (era*400)
  let y ← i64 (yoe+eraYears)
  let common ← i64 (365*yoe)
  let julian ← i64 (common+yoe.tdiv 4)
  let before ← i64 (julian-yoe.tdiv 100)
  let doy ← i64 (doe-before)
  let fives ← i64 (5*doy)
  let scaled ← i64 (fives+2)
  let mp := scaled.tdiv 153
  let months ← i64 (153*mp)
  let shifted ← i64 (months+2)
  let dom ← i64 (doy-shifted.tdiv 5)
  let d ← i64 (dom+1)
  let month ← (if mp < 10 then i64 (mp+3) else i64 (mp-9))
  let year ← (if month ≤ 2 then i64 (y+1) else .ok y)
  return (year,month,d)

def utcFields (t : Int64) : Outcome Empty Fields := do
  let days := t.toInt/86400
  let sod := t.toInt%86400
  let h := sod.tdiv 3600
  let m := (sod.tdiv 60).tmod 60
  let s := sod.tmod 60
  let (year,month,d) ← civilFromDays days
  return ⟨year,month,d,h,m,s⟩

/-- The format `{n:0w}`: the sign counts towards the width and the zeros follow
it. -/
def zeroPadded (w : ℕ) (n : ℤ) : String :=
  let sign := if n < 0 then "-" else ""
  let digits := toString n.natAbs
  sign ++ String.ofList (List.replicate (w-(sign.length+digits.length)) '0') ++ digits

def utcText (f : Fields) : String :=
  zeroPadded 4 f.year ++ "-" ++ zeroPadded 2 f.month ++ "-" ++ zeroPadded 2 f.day ++ "T" ++
    zeroPadded 2 f.hour ++ ":" ++ zeroPadded 2 f.minute ++ ":" ++ zeroPadded 2 f.second ++ "Z"

def fmtUtc (t : Int64) : Outcome Empty String := do
  let f ← utcFields t
  return utcText f

section Civil

def yearOfEra (doe : ℤ) : ℤ := (doe-doe/1460+doe/36524-doe/146096)/365

theorem yearOfEra_mono {a b : ℤ} (h : a ≤ b) : yearOfEra a ≤ yearOfEra b := by
  apply Int.ediv_le_ediv (by decide)
  have h1 : a-a/1460 ≤ b-b/1460 := by omega
  have h2 : a/36524-a/146096 ≤ b/36524-b/146096 := by omega
  omega

theorem yearOfEra_first {n : ℤ} (h : 0 ≤ n ∧ n < 400) : yearOfEra (365*n+leapDays n) = n := by
  have hf : 365*n+leapDays n = 365*n+n/4-n/100 := by unfold leapDays; omega
  have h4 : (365*n+n/4-n/100)/1460 = n/4 := by omega
  have h100 : (365*n+n/4-n/100)/36524 = n/100 := by omega
  have h400 : (365*n+n/4-n/100)/146096 = 0 := by omega
  unfold yearOfEra
  rw [hf, h4, h100, h400]
  omega

theorem yearOfEra_last {n : ℤ} (h : 0 < n ∧ n < 400) : yearOfEra (365*n+leapDays n-1) < n := by
  have hf : 365*n+leapDays n-1 = 365*n+n/4-n/100-1 := by unfold leapDays; omega
  have h4 : (365*n+n/4-n/100-1)/1460 = n/4 := by omega
  have h100 : (365*n+n/4-n/100-1)/36524 ≤ n/100 := by omega
  have h400 : (365*n+n/4-n/100-1)/146096 = 0 := by omega
  unfold yearOfEra
  rw [hf, h4, h400]
  omega

theorem yearOfEra_spec {doe : ℤ} (h : 0 ≤ doe ∧ doe < 146097) :
    (0 ≤ yearOfEra doe ∧ yearOfEra doe < 400) ∧
      365*yearOfEra doe+leapDays (yearOfEra doe) ≤ doe ∧
      doe < 365*(yearOfEra doe+1)+leapDays (yearOfEra doe+1) := by
  have h0 : yearOfEra 0 ≤ yearOfEra doe := yearOfEra_mono h.1
  have h1 : yearOfEra doe ≤ yearOfEra 146096 := yearOfEra_mono (by omega)
  have hr : 0 ≤ yearOfEra doe ∧ yearOfEra doe < 400 := by
    have hz : yearOfEra 0 = 0 := by decide
    have he : yearOfEra 146096 = 399 := by decide
    omega
  refine ⟨hr,?_,?_⟩
  · by_contra hlt
    by_cases hz : yearOfEra doe = 0
    · rw [hz] at hlt
      exact hlt (by simpa [leapDays] using h.1)
    · have hm : yearOfEra doe ≤ yearOfEra (365*yearOfEra doe+leapDays (yearOfEra doe)-1) :=
        yearOfEra_mono (by omega)
      have hl := yearOfEra_last (n := yearOfEra doe) ⟨by omega,hr.2⟩
      omega
  · by_contra hge
    by_cases he : yearOfEra doe = 399
    · rw [he] at hge
      exact hge (by simpa [leapDays] using h.2)
    · have hm := yearOfEra_mono (not_lt.mp hge)
      rw [yearOfEra_first (n := yearOfEra doe+1) ⟨by omega,by omega⟩] at hm
      omega

theorem march_day {y doy : ℤ} (h0 : 0 ≤ doy) (h1 : doy < 365+if IsLeap (y+1) then 1 else 0)
    {mp month year d : ℤ} (hmp : mp = (5*doy+2)/153)
    (hmonth : month = if mp < 10 then mp+3 else mp-9)
    (hyear : year = if month ≤ 2 then y+1 else y) (hd : d = doy-(153*mp+2)/5+1) :
    (1 ≤ month ∧ month ≤ 12) ∧ (1 ≤ d ∧ d ≤ monthLength year month) ∧
      yearStart year+monthStart year month+(d-1) = 365*y+leapDays y-719468+doy := by
  have hmarch := march_start y
  have hle : doy < 366 := by split_ifs at h1 <;> omega
  by_cases hlt : mp < 10
  · rw [if_pos hlt] at hmonth
    rw [if_neg (by omega)] at hyear
    have hk : 0 ≤ mp ∧ mp < 10 := ⟨by omega,hlt⟩
    have hlen := monthLength_march y hk
    have hstart := monthStart_march y hk
    rw [hmonth, hyear, hlen, hstart]
    omega
  · rw [if_neg hlt] at hmonth
    rw [if_pos (by omega)] at hyear
    have hk : 10 ≤ mp ∧ mp < 12 := by omega
    have hstart := monthStart_winter y hk
    have hlen : d ≤ monthLength (y+1) (mp-9) := by
      by_cases h10 : mp = 10
      · rw [h10]
        simp only [monthLength]
        norm_num
        omega
      · have h11 : mp = 11 := by omega
        rw [h11]
        simp only [monthLength]
        by_cases hleap : IsLeap (y+1)
        · simp only [hleap, if_true] at h1 ⊢
          norm_num
          omega
        · simp only [hleap, if_false] at h1 ⊢
          norm_num
          omega
    rw [hmonth, hyear, yearStart_succ]
    omega

end Civil

section Checked

theorem i64_eq {n : ℤ} (h : -2^63 ≤ n ∧ n < 2^63) : i64 n = .ok n := if_pos h

theorem i64_bind {α : Type} {n : ℤ} {f : ℤ → Outcome Empty α} {r : Outcome Empty α}
    (h : -2^63 ≤ n ∧ n < 2^63) (hf : f n = r) : (i64 n >>= f) = r := by
  rw [i64_eq h]
  exact hf

/-- The truncating division of the source rounds to the era before. -/
theorem era_eq (z : ℤ) : (if 0 ≤ z then z else z-146096).tdiv 146097 = z/146097 := by
  by_cases h : 0 ≤ z
  · rw [if_pos h, Int.tdiv_eq_ediv_of_nonneg h]
  · have hneg := Int.neg_tdiv (146096-z) 146097
    have hpos := Int.tdiv_eq_ediv_of_nonneg (b := 146097) (show 0 ≤ 146096-z by omega)
    rw [neg_sub] at hneg
    rw [if_neg h]
    omega

/-- The run of the source's arithmetic, with the value each name gets. No
operation leaves `i64`. -/
theorem civilFromDays_run {days era doe yoe doy mp : ℤ} (h : -2^60 ≤ days ∧ days ≤ 2^60)
    (hera : era = (days+719468)/146097) (hdoe : doe = days+719468-era*146097)
    (hyoe : yoe = yearOfEra doe) (hyr : 0 ≤ yoe ∧ yoe < 400)
    (hdoy : doy = doe-(365*yoe+yoe/4-yoe/100)) (hdr : 0 ≤ doy ∧ doy < 366)
    (hmp : mp = (5*doy+2)/153) :
    civilFromDays days = .ok
      (if (if mp < 10 then mp+3 else mp-9) ≤ 2 then yoe+era*400+1 else yoe+era*400,
        if mp < 10 then mp+3 else mp-9,doy-(153*mp+2)/5+1) := by
  have hq : doe.tdiv 1460 = doe/1460 ∧ doe.tdiv 36524 = doe/36524 ∧
      doe.tdiv 146096 = doe/146096 := by
    have hnn : 0 ≤ doe := by omega
    exact ⟨Int.tdiv_eq_ediv_of_nonneg hnn,Int.tdiv_eq_ediv_of_nonneg hnn,
      Int.tdiv_eq_ediv_of_nonneg hnn⟩
  have hy : (doe-doe/1460+doe/36524-doe/146096).tdiv 365 = yoe := by
    rw [hyoe, yearOfEra]
    exact Int.tdiv_eq_ediv_of_nonneg (by omega)
  have hyq : yoe.tdiv 4 = yoe/4 ∧ yoe.tdiv 100 = yoe/100 :=
    ⟨Int.tdiv_eq_ediv_of_nonneg hyr.1,Int.tdiv_eq_ediv_of_nonneg hyr.1⟩
  have hm : (5*doy+2).tdiv 153 = mp := by
    rw [hmp]
    exact Int.tdiv_eq_ediv_of_nonneg (by omega)
  have hd : (153*mp+2).tdiv 5 = (153*mp+2)/5 := Int.tdiv_eq_ediv_of_nonneg (by omega)
  have hnum : (if 0 ≤ days+719468 then .ok (days+719468) else i64 (days+719468-146096)) =
      .ok (if 0 ≤ days+719468 then days+719468 else days+719468-146096) := by
    split_ifs
    · rfl
    · exact i64_eq (by omega)
  unfold civilFromDays
  dsimp only
  apply i64_bind (by omega)
  rw [hnum, ok_bind, era_eq, ← hera]
  apply i64_bind (by omega)
  apply i64_bind (by omega)
  rw [← hdoe, hq.1, hq.2.1, hq.2.2]
  apply i64_bind (by omega)
  apply i64_bind (by omega)
  apply i64_bind (by omega)
  rw [hy, hyq.1, hyq.2]
  apply i64_bind (by omega)
  apply i64_bind (by omega)
  apply i64_bind (by omega)
  apply i64_bind (by omega)
  apply i64_bind (by omega)
  apply i64_bind (by omega)
  rw [← hdoy]
  apply i64_bind (by omega)
  apply i64_bind (by omega)
  rw [hm]
  apply i64_bind (by omega)
  apply i64_bind (by omega)
  rw [hd]
  apply i64_bind (by omega)
  apply i64_bind (by omega)
  rw [← apply_ite i64]
  apply i64_bind (by split_ifs <;> omega)
  rw [i64_eq (n := yoe+era*400+1) (by omega), ← apply_ite]
  rfl

end Checked

/-- Every day number a second count can have is the number of the date the
source computes for it. -/
theorem civilFromDays_eq {days : ℤ} (h : -2^60 ≤ days ∧ days ≤ 2^60) :
    ∃ year month d, civilFromDays days = .ok (year,month,d) ∧ (1 ≤ month ∧ month ≤ 12) ∧
      (1 ≤ d ∧ d ≤ monthLength year month) ∧
      yearStart year+monthStart year month+(d-1) = days := by
  obtain ⟨era,hera⟩ : ∃ era, era = (days+719468)/146097 := ⟨_,rfl⟩
  obtain ⟨doe,hdoe⟩ : ∃ doe, doe = days+719468-era*146097 := ⟨_,rfl⟩
  obtain ⟨yoe,hyoe⟩ : ∃ yoe, yoe = yearOfEra doe := ⟨_,rfl⟩
  obtain ⟨hyr,hfirst,hlast⟩ := yearOfEra_spec (show 0 ≤ doe ∧ doe < 146097 by omega)
  rw [← hyoe] at hyr hfirst hlast
  -- Eras have the same leap years, so the year of the era has the length of the year.
  have hera' : leapDays (yoe+era*400) = leapDays yoe+era*97 := by unfold leapDays; omega
  have hleap : IsLeap (yoe+era*400+1) ↔ IsLeap (yoe+1) := by unfold IsLeap; omega
  have hnext := leapDays_succ yoe
  have hlong : leapDays yoe = yoe/4-yoe/100 := by unfold leapDays; omega
  obtain ⟨doy,hdoy⟩ : ∃ doy, doy = doe-(365*yoe+yoe/4-yoe/100) := ⟨_,rfl⟩
  have h0 : 0 ≤ doy := by omega
  have h1 : doy < 365+if IsLeap (yoe+era*400+1) then 1 else 0 := by
    simp only [hleap]
    omega
  have hdr : doy < 366 := by split_ifs at h1 <;> omega
  obtain ⟨hmonth,hday,hnum⟩ := march_day (y := yoe+era*400) h0 h1 rfl rfl rfl rfl
  refine ⟨_,_,_,civilFromDays_run h hera hdoe hyoe hyr hdoy ⟨h0,hdr⟩ rfl,hmonth,hday,?_⟩
  omega

/-- The fields of a second count are those of the moment they count. -/
theorem utcFields_eq (t : Int64) :
    ∃ x : DateTime, utcFields t = .ok x.toFields ∧ x.seconds = t.toInt := by
  have hlo := t.le_toInt
  have hhi := t.toInt_lt
  have hdays : -2^60 ≤ t.toInt/86400 ∧ t.toInt/86400 ≤ 2^60 := by omega
  obtain ⟨year,month,d,hrun,hmonth,hday,hnum⟩ := civilFromDays_eq hdays
  have hh : (t.toInt%86400).tdiv 3600 = t.toInt%86400/3600 :=
    Int.tdiv_eq_ediv_of_nonneg (by omega)
  have hm : ((t.toInt%86400).tdiv 60).tmod 60 = t.toInt%86400/60%60 := by
    rw [Int.tdiv_eq_ediv_of_nonneg (by omega), Int.tmod_eq_emod_of_nonneg (by omega)]
  have hs : (t.toInt%86400).tmod 60 = t.toInt%86400%60 :=
    Int.tmod_eq_emod_of_nonneg (by omega)
  let x : DateTime :=
    { year := year, month := month, day := d
      hour := t.toInt%86400/3600, minute := t.toInt%86400/60%60, second := t.toInt%86400%60
      month_range := hmonth
      day_range := hday
      hour_range := by omega
      minute_range := by omega
      second_range := by omega }
  refine ⟨x,?_,?_⟩
  · simp only [utcFields, hrun, ok_bind, hh, hm, hs]
    rfl
  · have hnumber : x.number = t.toInt/86400 := hnum
    simp only [Fields.seconds, hnumber, x]
    omega

/-- Every timestamp is printed as the date and time it stands for, in the order
of the timestamps. -/
theorem fmtUtc_calendar :
    ∃ moment : Int64 → DateTime,
      (∀ t, utcFields t = .ok (moment t).toFields ∧ fmtUtc t = .ok (utcText (moment t).toFields) ∧
        (moment t).seconds = t.toInt) ∧
      ∀ t u, t < u ↔ (moment t).toFields < (moment u).toFields := by
  choose moment hfields hseconds using utcFields_eq
  refine ⟨moment,fun t => ⟨hfields t,?_,hseconds t⟩,fun t u => ?_⟩
  · simp only [fmtUtc, hfields t, ok_bind]
    rfl
  · rw [Int64.lt_iff_toInt_lt, ← hseconds t, ← hseconds u, DateTime.seconds_lt_iff]

/-- The last second before 1 March of a leap year that is a century. -/
example : fmtUtc 951868799 = .ok "2000-02-29T23:59:59Z" := by decide

end Term.UtcText
