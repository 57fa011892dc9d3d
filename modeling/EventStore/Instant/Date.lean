/-! Dates of the Gregorian calendar, extended to every year before and after its introduction. -/

namespace EventStore

def isLeapYear (y : Int) : Bool := y % 4 = 0 && (y % 100 ≠ 0 || y % 400 = 0)

def daysInMonth (y : Int) (m : Nat) : Nat :=
  if m = 2 then if isLeapYear y then 29 else 28
  else if m = 4 ∨ m = 6 ∨ m = 9 ∨ m = 11 then 30
  else 31

theorem one_le_daysInMonth (y : Int) (m : Nat) : 1 ≤ daysInMonth y m := by
  unfold daysInMonth
  repeat' split
  all_goals decide

structure Date where
  year : Int
  month : Nat
  day : Nat
  one_le_month : 1 ≤ month
  month_le : month ≤ 12
  one_le_day : 1 ≤ day
  day_le : day ≤ daysInMonth year month
deriving DecidableEq

namespace Date

def ofFields? (year : Int) (month day : Nat) : Option Date :=
  if h : (1 ≤ month ∧ month ≤ 12) ∧ 1 ≤ day ∧ day ≤ daysInMonth year month then
    some ⟨year, month, day, h.1.1, h.1.2, h.2.1, h.2.2⟩
  else none

theorem ofFields?_fields (d : Date) : ofFields? d.year d.month d.day = some d :=
  dif_pos ⟨⟨d.one_le_month, d.month_le⟩, d.one_le_day, d.day_le⟩

/-- The first day of a year. -/
def newYear (year : Int) : Date :=
  ⟨year, 1, 1, Nat.le_refl 1, by decide, Nat.le_refl 1, one_le_daysInMonth _ _⟩

/-- The day after. -/
def next (d : Date) : Date :=
  if h : d.day < daysInMonth d.year d.month then
    { d with day := d.day + 1, one_le_day := Nat.succ_pos _, day_le := h }
  else if h : d.month < 12 then
    ⟨d.year, d.month + 1, 1, Nat.succ_pos _, h, Nat.le_refl 1, one_le_daysInMonth _ _⟩
  else newYear (d.year + 1)

/-- The day before. -/
def previous (d : Date) : Date :=
  if h : 1 < d.day then
    { d with
      day := d.day - 1
      one_le_day := by omega
      day_le := Nat.le_trans (Nat.sub_le _ _) d.day_le }
  else if h : 1 < d.month then
    ⟨d.year, d.month - 1, daysInMonth d.year (d.month - 1), by omega,
      Nat.le_trans (Nat.sub_le _ _) d.month_le, one_le_daysInMonth _ _, Nat.le_refl _⟩
  else
    ⟨d.year - 1, 12, 31, by decide, Nat.le_refl 12, by decide, by simp [daysInMonth]⟩

end Date

end EventStore
