import Mathlib.Data.Int.ConditionallyCompleteOrder
import Mathlib.Tactic.IntervalCases

/-!
# The calendar

Months are numbered through, twelve to a year from the year 0, and days from 1970-01-01.
A month is the days from its start to the start of the next; the starts are a formula of
the Gregorian leap rule, over years that begin in March.
-/

namespace AnchorMind.Kernel.Calendar

def monthStart (month : Int) : Int :=
  let year := (month - 2) / 12
  365 * year + year / 4 - year / 100 + year / 400 + (153 * ((month - 2) % 12) + 2) / 5 - 719468

def monthLength (month : Int) : Int := monthStart (month + 1) - monthStart month

def InMonth (month day : Int) : Prop := monthStart month ≤ day /\ day < monthStart (month + 1)

def weekday (day : Int) : Int := (day + 4) % 7

theorem monthLength_bounds (month : Int) : 28 ≤ monthLength month /\ monthLength month ≤ 31 := by
  simp only [monthLength, monthStart]
  have hyears := Int.mul_ediv_add_emod (month - 2) 12
  generalize hyear : (month - 2) / 12 = year at *
  generalize hof : (month - 2) % 12 = of at *
  have hof' : 0 ≤ of /\ of < 12 := by omega
  by_cases hlast : of = 11
  · have hnext : (month + 1 - 2) / 12 = year + 1 /\ (month + 1 - 2) % 12 = 0 := by omega
    rw [hnext.1, hnext.2, hlast]
    omega
  · have hnext : (month + 1 - 2) / 12 = year /\ (month + 1 - 2) % 12 = of + 1 := by omega
    rw [hnext.1, hnext.2]
    omega

theorem monthStart_succ (month : Int) :
    monthStart (month + 1) = monthStart month + monthLength month := by
  rw [monthLength]
  omega

theorem monthStart_add (month : Int) (count : Nat) :
    monthStart month + 28 * count ≤ monthStart (month + count) /\
      monthStart (month + count) ≤ monthStart month + 31 * count := by
  induction count with
  | zero => simp
  | succ count ih =>
    have hlength := monthLength_bounds (month + count)
    have hstart := monthStart_succ (month + count)
    rw [Nat.cast_succ, ← Int.add_assoc, hstart]
    omega

variable {month other : Int}

theorem monthStart_lt (hlt : month < other) : monthStart month < monthStart other := by
  obtain ⟨count, rfl⟩ : ∃ count : Nat, other = month + count :=
    ⟨(other - month).toNat, by omega⟩
  have hstart := (monthStart_add month count).1
  omega

theorem monthStart_strictMono : StrictMono monthStart := fun _ _ hlt => monthStart_lt hlt

theorem monthStart_le (hle : month ≤ other) :
    monthStart month ≤ monthStart other := monthStart_strictMono.monotone hle

theorem monthStart_lt_iff :
    monthStart month < monthStart other <-> month < other := monthStart_strictMono.lt_iff_lt

theorem InMonth.unique {month other day : Int} (hmonth : InMonth month day)
    (hother : InMonth other day) : month = other := by
  have hle := monthStart_lt_iff.mp (Int.lt_of_le_of_lt hmonth.1 hother.2)
  have hge := monthStart_lt_iff.mp (Int.lt_of_le_of_lt hother.1 hmonth.2)
  omega

theorem inMonth_start (month : Int) : InMonth month (monthStart month) :=
  ⟨Int.le_refl _, monthStart_lt (Int.lt_succ month)⟩

theorem inMonth_date_iff {month date : Int} (hdate : 1 ≤ date) :
    InMonth month (monthStart month + date - 1) <-> date ≤ monthLength month := by
  rw [InMonth, monthStart_succ]
  omega

theorem not_inMonth_of_lt {month later date : Int} (hlt : month < later) (hdate : 1 ≤ date) :
    ¬ InMonth month (monthStart later + date - 1) := by
  intro hin
  have hstart := monthStart_le (Int.add_one_le_of_lt hlt)
  have hend := hin.2
  omega

end AnchorMind.Kernel.Calendar
