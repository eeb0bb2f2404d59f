import Mathlib.Algebra.BigOperators.Intervals
import Mathlib.Algebra.Order.BigOperators.Group.Finset
import Mathlib.Data.Prod.Lex
import Mathlib.Order.Monotone.Basic
import Mathlib.Tactic.IntervalCases
import Mathlib.Tactic.Ring

/-!
# The proleptic Gregorian calendar

Dates and times of day as a structure that holds only valid ones, with the
lexicographic order of their fields, and their distance from 1 January 1970 as
a sum of year and month lengths. The closed forms a program computes with are
lemmas.
-/

set_option autoImplicit false

namespace Term.Gregorian

def IsLeap (y : ℤ) : Prop := y % 4 = 0 ∧ y % 100 ≠ 0 ∨ y % 400 = 0

instance : DecidablePred IsLeap := fun _ => inferInstanceAs (Decidable (_ ∧ _ ≠ _ ∨ _ = _))

def monthLength (y m : ℤ) : ℤ :=
  if m = 2 then if IsLeap y then 29 else 28
  else if m = 4 ∨ m = 6 ∨ m = 9 ∨ m = 11 then 30 else 31

def yearLength (y : ℤ) : ℤ := ∑ i ∈ Finset.range 12, monthLength y (i+1)

def monthStart (y m : ℤ) : ℤ := ∑ i ∈ Finset.range (m-1).toNat, monthLength y (i+1)

def yearStart (y : ℤ) : ℤ :=
  match y-1970 with
  | .ofNat n => ∑ i ∈ Finset.range n, yearLength (1970+i)
  | .negSucc n => -∑ i ∈ Finset.range (n+1), yearLength (1969-i)

@[ext] structure Fields where
  year : ℤ
  month : ℤ
  day : ℤ
  hour : ℤ
  minute : ℤ
  second : ℤ
  deriving DecidableEq, Repr

namespace Fields

def key (f : Fields) : ℤ ×ₗ ℤ ×ₗ ℤ ×ₗ ℤ ×ₗ ℤ ×ₗ ℤ :=
  toLex (f.year,toLex (f.month,toLex (f.day,toLex (f.hour,toLex (f.minute,f.second)))))

theorem key_injective : Function.Injective key := by
  intro f g h
  simp only [key, EmbeddingLike.apply_eq_iff_eq, Prod.mk.injEq] at h
  obtain ⟨h1,h2,h3,h4,h5,h6⟩ := h
  exact Fields.ext h1 h2 h3 h4 h5 h6

instance : LinearOrder Fields := LinearOrder.lift' key key_injective

theorem lt_iff {f g : Fields} : f < g ↔
    f.year < g.year ∨ f.year = g.year ∧ (f.month < g.month ∨ f.month = g.month ∧
      (f.day < g.day ∨ f.day = g.day ∧ (f.hour < g.hour ∨ f.hour = g.hour ∧
        (f.minute < g.minute ∨ f.minute = g.minute ∧ f.second < g.second)))) := by
  show f.key < g.key ↔ _
  simp only [key, Prod.Lex.toLex_lt_toLex]

def number (f : Fields) : ℤ := yearStart f.year+monthStart f.year f.month+(f.day-1)

def seconds (f : Fields) : ℤ := 86400*f.number+3600*f.hour+60*f.minute+f.second

end Fields

structure DateTime extends Fields where
  month_range : 1 ≤ month ∧ month ≤ 12
  day_range : 1 ≤ day ∧ day ≤ monthLength year month
  hour_range : 0 ≤ hour ∧ hour < 24
  minute_range : 0 ≤ minute ∧ minute < 60
  second_range : 0 ≤ second ∧ second < 60

section Lengths

/-- Leap years after the year 0 and up to `y`, negative before it. -/
def leapDays (y : ℤ) : ℤ := y/4-y/100+y/400

theorem leapDays_succ (y : ℤ) : leapDays (y+1) = leapDays y+if IsLeap (y+1) then 1 else 0 := by
  unfold leapDays
  by_cases h : IsLeap (y+1)
  · rw [if_pos h]
    unfold IsLeap at h
    omega
  · rw [if_neg h]
    unfold IsLeap at h
    omega

theorem yearLength_eq (y : ℤ) : yearLength y = 365+if IsLeap y then 1 else 0 := by
  unfold yearLength monthLength
  by_cases h : IsLeap y <;> simp [h, Finset.sum_range_succ]

theorem years_up (a : ℤ) (n : ℕ) :
    ∑ i ∈ Finset.range n, yearLength (a+1+i) = 365*n+leapDays (a+n)-leapDays a := by
  induction n with
  | zero => simp
  | succ n ih =>
    have hs := leapDays_succ (a+n)
    rw [Finset.sum_range_succ, ih, yearLength_eq]
    push_cast
    rw [show a+1+(n:ℤ) = a+n+1 by ring, show a+((n:ℤ)+1) = a+n+1 by ring, hs]
    ring

theorem years_down (a : ℤ) (n : ℕ) :
    ∑ i ∈ Finset.range n, yearLength (a-i) = 365*n+leapDays a-leapDays (a-n) := by
  induction n with
  | zero => simp
  | succ n ih =>
    have hs := leapDays_succ (a-n-1)
    rw [sub_add_cancel] at hs
    rw [Finset.sum_range_succ, ih, yearLength_eq]
    push_cast
    rw [show a-((n:ℤ)+1) = a-n-1 by ring, hs]
    ring

theorem yearStart_eq (y : ℤ) : yearStart y = 365*(y-1970)+leapDays (y-1)-leapDays 1969 := by
  unfold yearStart
  cases h : y-1970 with
  | ofNat n =>
    have hy : 1969+(n:ℤ) = y-1 := by rw [Int.ofNat_eq_natCast] at h; omega
    have hn : (n:ℤ) = Int.ofNat n := rfl
    rw [← hy, ← hn]
    exact years_up 1969 n
  | negSucc n =>
    have hy : 1969-((n+1:ℕ):ℤ) = y-1 := by rw [Int.negSucc_eq] at h; push_cast; omega
    have hsum := years_down 1969 (n+1)
    show -(∑ i ∈ Finset.range (n+1), yearLength (1969-i)) = _
    rw [hsum, hy, Int.negSucc_eq]
    push_cast
    ring

theorem yearStart_succ (y : ℤ) : yearStart (y+1) = yearStart y+yearLength y := by
  have hs := leapDays_succ (y-1)
  rw [sub_add_cancel] at hs
  rw [yearStart_eq, yearStart_eq, yearLength_eq, add_sub_cancel_right, hs]
  ring

theorem yearStart_mono {y z : ℤ} (h : y ≤ z) : yearStart y ≤ yearStart z := by
  rw [yearStart_eq, yearStart_eq]
  unfold leapDays
  omega

theorem monthLength_pos (y m : ℤ) : 0 < monthLength y m := by
  unfold monthLength
  split_ifs <;> omega

theorem monthStart_succ (y : ℤ) {m : ℤ} (h : 1 ≤ m) :
    monthStart y (m+1) = monthStart y m+monthLength y m := by
  have hm : (m+1-1).toNat = (m-1).toNat+1 := by omega
  have hc : (((m-1).toNat:ℤ)+1) = m := by omega
  rw [monthStart, hm, Finset.sum_range_succ, hc]
  rfl

theorem monthStart_mono (y : ℤ) {m n : ℤ} (h : m ≤ n) : monthStart y m ≤ monthStart y n := by
  apply Finset.sum_le_sum_of_subset_of_nonneg
  · exact Finset.range_mono (by omega)
  · intro i _ _
    exact (monthLength_pos y (i+1)).le

theorem monthStart_nonneg (y m : ℤ) : 0 ≤ monthStart y m :=
  Finset.sum_nonneg fun i _ => (monthLength_pos y (i+1)).le

end Lengths

section March

/-! Counted from 1 March the leap day is the last of the year, and the months
fall into runs of five with 153 days. -/

theorem march_start (y : ℤ) : yearStart y+monthStart y 3 = 365*y+leapDays y-719468 := by
  have hs := leapDays_succ (y-1)
  rw [sub_add_cancel] at hs
  have hm : monthStart y 3 = 59+if IsLeap y then 1 else 0 := by
    unfold monthStart monthLength
    by_cases h : IsLeap y <;> simp [h, Finset.sum_range_succ]
  have h1969 : leapDays 1969 = 477 := by decide
  rw [yearStart_eq, hm, hs, h1969]
  ring

theorem monthStart_march (y : ℤ) {k : ℤ} (h : 0 ≤ k ∧ k < 10) :
    monthStart y (k+3) = monthStart y 3+(153*k+2)/5 := by
  obtain ⟨h0,h10⟩ := h
  interval_cases k <;> simp [monthStart, monthLength, Finset.sum_range_succ, add_assoc]

theorem monthStart_winter (y : ℤ) {k : ℤ} (h : 10 ≤ k ∧ k < 12) :
    yearLength y+monthStart (y+1) (k-9) = monthStart y 3+(153*k+2)/5 := by
  obtain ⟨h10,h12⟩ := h
  interval_cases k <;>
    simp [yearLength, monthStart, monthLength, Finset.sum_range_succ, add_assoc]

theorem monthLength_march (y : ℤ) {k : ℤ} (h : 0 ≤ k ∧ k < 10) :
    monthLength y (k+3) = (153*(k+1)+2)/5-(153*k+2)/5 := by
  obtain ⟨h0,h10⟩ := h
  interval_cases k <;> simp [monthLength]

end March

namespace DateTime

variable {x y : DateTime}

theorem in_month (x : DateTime) :
    monthStart x.year x.month+(x.day-1) < monthStart x.year (x.month+1) := by
  have h := x.day_range
  rw [monthStart_succ x.year x.month_range.1]
  omega

theorem in_year (x : DateTime) :
    yearStart x.year ≤ x.number ∧ x.number < yearStart (x.year+1) := by
  have hm := x.in_month
  have h0 := monthStart_nonneg x.year x.month
  have hd := x.day_range
  have hr := x.month_range
  have h12 : monthStart x.year (x.month+1) ≤ yearLength x.year :=
    monthStart_mono x.year (show x.month+1 ≤ 13 by omega)
  rw [yearStart_succ]
  unfold Fields.number
  omega

theorem number_lt_of_year (h : x.year < y.year) : x.number < y.number := by
  have hx := x.in_year.2
  have hy := y.in_year.1
  have hs := yearStart_mono (show x.year+1 ≤ y.year by omega)
  omega

theorem number_lt_of_month (hy : x.year = y.year) (h : x.month < y.month) :
    x.number < y.number := by
  have hx := x.in_month
  have hd := y.day_range
  have hm := monthStart_mono y.year (show x.month+1 ≤ y.month by omega)
  unfold Fields.number
  rw [hy] at hx ⊢
  omega

theorem seconds_lt_of_number (h : x.number < y.number) : x.seconds < y.seconds := by
  have hx := x.hour_range
  have hm := x.minute_range
  have hs := x.second_range
  have hy := y.hour_range
  have hn := y.minute_range
  have ht := y.second_range
  unfold Fields.seconds
  omega

theorem seconds_lt_of_lt (h : x.toFields < y.toFields) : x.seconds < y.seconds := by
  rcases Fields.lt_iff.mp h with hy | ⟨hy,hm | ⟨hm,hd | ⟨hd,ht⟩⟩⟩
  · exact seconds_lt_of_number (number_lt_of_year hy)
  · exact seconds_lt_of_number (number_lt_of_month hy hm)
  · apply seconds_lt_of_number
    unfold Fields.number
    rw [hy, hm]
    omega
  · have hnum : x.number = y.number := by unfold Fields.number; rw [hy, hm, hd]
    have hxm := x.minute_range
    have hxs := x.second_range
    have hym := y.minute_range
    have hys := y.second_range
    unfold Fields.seconds
    omega

/-- The order of the fields is the order in time. -/
theorem seconds_lt_iff : x.seconds < y.seconds ↔ x.toFields < y.toFields := by
  constructor
  · intro h
    rcases lt_trichotomy x.toFields y.toFields with hlt | heq | hgt
    · exact hlt
    · rw [heq] at h
      exact absurd h (lt_irrefl _)
    · exact absurd h (seconds_lt_of_lt hgt).asymm
  · exact seconds_lt_of_lt

end DateTime

end Term.Gregorian
