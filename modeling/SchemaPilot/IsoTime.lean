import Mathlib.Algebra.GroupWithZero.Nat
import Mathlib.Data.List.Lex
import Mathlib.Data.String.Basic
import Mathlib.Order.Monotone.Basic
import Mathlib.Tactic.Common

namespace SchemaPilot.IsoTime

section Digits

/-- A number in so many decimal digits, zeros in front. -/
def padded : Nat → Nat → List Char
  | 0, _ => []
  | w + 1, n => Nat.digitChar (n / 10 ^ w) :: padded w (n % 10 ^ w)

theorem digitChar_lt : ∀ a < 10, ∀ b < 10, a < b → Nat.digitChar a < Nat.digitChar b := by decide

/-- Among texts that begin with as many digits, the smaller number comes first. -/
theorem padded_append_lt {w n m : Nat} (hm : m < 10 ^ w) {r r' : List Char}
    (h : n < m ∨ n = m ∧ r < r') : padded w n ++ r < padded w m ++ r' := by
  obtain hlt | ⟨rfl, hr⟩ := h
  · induction w generalizing n m with
    | zero =>
      rw [Nat.lt_one_iff.mp hm] at hlt
      exact absurd hlt (Nat.not_lt_zero n)
    | succ w ih =>
      have hpos : 0 < 10 ^ w := Nat.pow_pos (by decide)
      have hdigit : m / 10 ^ w < 10 := Nat.div_lt_of_lt_mul (by rwa [Nat.pow_succ] at hm)
      rw [padded, padded, List.cons_append, List.cons_append, List.cons_lt_cons_iff]
      obtain hlow | heq := Nat.lt_or_eq_of_le (Nat.div_le_div_right (c := 10 ^ w) hlt.le)
      · exact .inl (digitChar_lt _ (hlow.trans hdigit) _ hdigit hlow)
      · refine .inr ⟨congrArg Nat.digitChar heq, ih (Nat.mod_lt m hpos) ?_⟩
        have hn := Nat.div_add_mod n (10 ^ w)
        have hm := Nat.div_add_mod m (10 ^ w)
        rw [heq] at hn
        omega
  · clear hm
    induction w generalizing n with
    | zero => exact hr
    | succ w ih => exact List.cons_lt_cons_iff.mpr (.inr ⟨rfl, ih⟩)

end Digits

section Calendar

def isLeap (year : Nat) : Bool := year % 4 = 0 && (year % 100 ≠ 0 || year % 400 = 0)

def daysInMonth (leap : Bool) : Nat → Nat
  | 2 => if leap then 29 else 28
  | 4 | 6 | 9 | 11 => 30
  | _ => 31

def daysBeforeMonth (leap : Bool) (month : Nat) : Nat :=
  ((List.range' 1 (month - 1)).map (daysInMonth leap)).sum

def daysInYear (leap : Bool) : Nat := if leap then 366 else 365

/-- The days of the years before a year, from the year 1 on. -/
def daysBeforeYear (year : Nat) : Nat :=
  let y := year - 1
  365 * y + y / 4 - y / 100 + y / 400

/-- A quotient grows at the multiples. -/
theorem succ_div_eq (n k : Nat) : (n + 1) / k = n / k + if (n + 1) % k = 0 then 1 else 0 := by
  rw [Nat.succ_div]
  simp only [Nat.dvd_iff_mod_eq_zero]

theorem daysBeforeYear_succ {year : Nat} (h : 1 ≤ year) :
    daysBeforeYear (year + 1) = daysBeforeYear year + daysInYear (isLeap year) := by
  obtain ⟨n, rfl⟩ := Nat.exists_eq_add_of_le' h
  have hle : n / 100 ≤ n / 4 := Nat.div_le_div_left (by decide) (by decide)
  have h100 : (n + 1) % 100 = 0 → (n + 1) % 4 = 0 := fun h => by omega
  have h400 : (n + 1) % 400 = 0 → (n + 1) % 100 = 0 := fun h => by omega
  simp only [daysBeforeYear, Nat.add_sub_cancel, succ_div_eq, daysInYear, isLeap, Bool.and_eq_true,
    Bool.or_eq_true, decide_eq_true_eq]
  generalize n / 4 = a at hle ⊢
  generalize n / 100 = b at hle ⊢
  generalize n / 400 = c
  by_cases h4 : (n + 1) % 4 = 0
  · by_cases hcentury : (n + 1) % 100 = 0
    · by_cases hfour : (n + 1) % 400 = 0
      · simp only [h4, hcentury, hfour, if_true, ne_eq, not_true, false_or, and_self]
        omega
      · simp only [h4, hcentury, hfour, if_true, if_false, ne_eq, not_true, or_self, and_false]
        omega
    · have hfour := mt h400 hcentury
      simp only [h4, hcentury, hfour, if_true, if_false, ne_eq, not_false_iff, true_or, and_self]
      omega
  · have hcentury := mt h100 h4
    have hfour := mt h400 hcentury
    simp only [h4, hcentury, hfour, if_false, false_and]
    omega

theorem daysBeforeYear_le {year year' : Nat} (h : 1 ≤ year) (hlt : year < year') :
    daysBeforeYear year + daysInYear (isLeap year) ≤ daysBeforeYear year' := by
  rw [← daysBeforeYear_succ h]
  have hmono : Monotone (fun n => daysBeforeYear (n + 1)) := monotone_nat_of_le_succ fun n => by
    rw [daysBeforeYear_succ (Nat.le_add_left 1 n)]
    exact Nat.le_add_right _ _
  obtain ⟨k, rfl⟩ := Nat.exists_eq_add_of_lt hlt
  exact hmono (Nat.le_add_right year k)

theorem daysBeforeMonth_le : ∀ leap : Bool, ∀ month' < 13, ∀ month < month', 1 ≤ month →
    daysBeforeMonth leap month + daysInMonth leap month ≤ daysBeforeMonth leap month' := by
  decide

theorem daysBeforeMonth_lt : ∀ leap : Bool, ∀ month < 13, 1 ≤ month →
    daysBeforeMonth leap month + daysInMonth leap month ≤ daysInYear leap := by
  decide

/-- A UTC clock time of the years 1000 to 9999. -/
structure DateTime where
  year : Nat
  month : Nat
  day : Nat
  hour : Nat
  minute : Nat
  second : Nat
  microsecond : Nat
  year_mem : 1000 ≤ year ∧ year ≤ 9999
  month_mem : 1 ≤ month ∧ month ≤ 12
  day_mem : 1 ≤ day ∧ day ≤ daysInMonth (isLeap year) month
  hour_lt : hour < 24
  minute_lt : minute < 60
  second_lt : second < 60
  microsecond_lt : microsecond < 1000000
  deriving DecidableEq

/-- The number of a day, from the first of January of the year 1 on. -/
def DateTime.ordinal (d : DateTime) : Nat :=
  daysBeforeYear d.year + daysBeforeMonth (isLeap d.year) d.month + d.day

/-- The microseconds that have passed. -/
def DateTime.timestamp (d : DateTime) : Nat :=
  (((d.ordinal * 24 + d.hour) * 60 + d.minute) * 60 + d.second) * 1000000 + d.microsecond

theorem ordinal_lt_of_year_lt {d d' : DateTime} (h : d.year < d'.year) : d.ordinal < d'.ordinal := by
  have hyear := daysBeforeYear_le (by have := d.year_mem; omega) h
  have hmonth := daysBeforeMonth_lt (isLeap d.year) d.month (Nat.lt_succ_of_le d.month_mem.2) d.month_mem.1
  have hday := d.day_mem.2
  have hday' := d'.day_mem.1
  rw [DateTime.ordinal, DateTime.ordinal]
  omega

theorem ordinal_lt_of_month_lt {d d' : DateTime} (hyear : d.year = d'.year) (h : d.month < d'.month) :
    d.ordinal < d'.ordinal := by
  have hmonth := daysBeforeMonth_le (isLeap d.year) d'.month (Nat.lt_succ_of_le d'.month_mem.2) d.month h
    d.month_mem.1
  have hday := d.day_mem.2
  have hday' := d'.day_mem.1
  rw [DateTime.ordinal, DateTime.ordinal, ← hyear]
  omega

/-- Of two days, the later one has the greater year, or month in it, or day in that. -/
theorem date_le_of_ordinal_le {d d' : DateTime} (h : d.ordinal ≤ d'.ordinal) :
    d.year < d'.year ∨ d.year = d'.year ∧ (d.month < d'.month ∨ d.month = d'.month ∧ d.day ≤ d'.day) := by
  obtain hyear | hyear | hyear := Nat.lt_trichotomy d.year d'.year
  · exact .inl hyear
  · refine .inr ⟨hyear, ?_⟩
    obtain hmonth | hmonth | hmonth := Nat.lt_trichotomy d.month d'.month
    · exact .inl hmonth
    · refine .inr ⟨hmonth, ?_⟩
      rw [DateTime.ordinal, DateTime.ordinal, ← hyear, ← hmonth] at h
      exact Nat.le_of_add_le_add_left h
    · exact absurd (ordinal_lt_of_month_lt hyear.symm hmonth) (not_lt.mpr h)
  · exact absurd (ordinal_lt_of_year_lt hyear) (not_lt.mpr h)

end Calendar

section Text

/-- The fraction of a second, left out when there is none. -/
def fraction (microsecond : Nat) : List Char :=
  if microsecond = 0 then [] else '.' :: padded 6 microsecond

/-- What `isoformat` gives for a UTC time. -/
def DateTime.isoformat (d : DateTime) : String :=
  String.ofList (padded 4 d.year ++ '-' :: (padded 2 d.month ++ '-' :: (padded 2 d.day ++ 'T' ::
    (padded 2 d.hour ++ ':' :: (padded 2 d.minute ++ ':' :: (padded 2 d.second ++
      (fraction d.microsecond ++ "+00:00".toList)))))))

/-- Without a fraction the offset follows at once, and its sign comes before the point. -/
theorem fraction_lt {n m : Nat} (hm : m < 1000000) (h : n < m) (offset : List Char) :
    fraction n ++ '+' :: offset < fraction m ++ '+' :: offset := by
  have hm0 : m ≠ 0 := Nat.ne_zero_of_lt h
  by_cases hn0 : n = 0
  · rw [fraction, if_pos hn0, fraction, if_neg hm0]
    exact List.cons_lt_cons_iff.mpr (.inl (by decide))
  · rw [fraction, if_neg hn0, fraction, if_neg hm0]
    exact List.cons_lt_cons_iff.mpr (.inr ⟨rfl, padded_append_lt hm (.inl h)⟩)

/-- One number of a time, and what follows it after a separator. -/
theorem padded_sep_lt {w n m : Nat} (hm : m < 10 ^ w) {c : Char} {r r' : List Char}
    (h : n < m ∨ n = m ∧ r < r') : padded w n ++ c :: r < padded w m ++ c :: r' :=
  padded_append_lt hm (h.imp id (And.imp id fun hr => List.cons_lt_cons_iff.mpr (.inr ⟨rfl, hr⟩)))

/-- Of two times the earlier one has the smaller number where they first differ. -/
theorem numbers_lt_of_timestamp_lt {d d' : DateTime} (h : d.timestamp < d'.timestamp) :
    d.year < d'.year ∨ d.year = d'.year ∧ (d.month < d'.month ∨ d.month = d'.month ∧
      (d.day < d'.day ∨ d.day = d'.day ∧ (d.hour < d'.hour ∨ d.hour = d'.hour ∧
        (d.minute < d'.minute ∨ d.minute = d'.minute ∧ (d.second < d'.second ∨ d.second = d'.second ∧
          d.microsecond < d'.microsecond))))) := by
  have hhour := d.hour_lt
  have hminute := d.minute_lt
  have hsecond := d.second_lt
  have hmicro := d.microsecond_lt
  have hhour' := d'.hour_lt
  have hminute' := d'.minute_lt
  have hsecond' := d'.second_lt
  have hmicro' := d'.microsecond_lt
  rw [DateTime.timestamp, DateTime.timestamp] at h
  have hordinal : d.ordinal ≤ d'.ordinal := by omega
  have htime : d.ordinal = d'.ordinal → d.hour < d'.hour ∨ d.hour = d'.hour ∧
      (d.minute < d'.minute ∨ d.minute = d'.minute ∧ (d.second < d'.second ∨ d.second = d'.second ∧
        d.microsecond < d'.microsecond)) := by
    intro heq
    omega
  obtain hyear | ⟨hyear, hmonth | ⟨hmonth, hday⟩⟩ := date_le_of_ordinal_le hordinal
  · exact .inl hyear
  · exact .inr ⟨hyear, .inl hmonth⟩
  · refine .inr ⟨hyear, .inr ⟨hmonth, ?_⟩⟩
    obtain hday | hday := Nat.lt_or_eq_of_le hday
    · exact .inl hday
    · refine .inr ⟨hday, htime ?_⟩
      rw [DateTime.ordinal, DateTime.ordinal, hyear, hmonth, hday]

/-- The texts of times are in the order of the times. -/
theorem isoformat_lt {d d' : DateTime} (h : d.timestamp < d'.timestamp) : d.isoformat < d'.isoformat := by
  have hmonth := d'.month_mem.2
  have hday : d'.day < 10 ^ 2 := by
    have hle : ∀ leap : Bool, ∀ month < 13, daysInMonth leap month ≤ 31 := by decide
    have := hle (isLeap d'.year) d'.month (Nat.lt_succ_of_le hmonth)
    have := d'.day_mem.2
    omega
  have hyear := d'.year_mem.2
  have hhour := d'.hour_lt
  have hminute := d'.minute_lt
  have hsecond := d'.second_lt
  rw [String.lt_iff_toList_lt]
  simp only [DateTime.isoformat, String.toList_ofList]
  refine padded_sep_lt (by omega) ((numbers_lt_of_timestamp_lt h).imp id (And.imp id fun h => ?_))
  refine padded_sep_lt (by omega) (h.imp id (And.imp id fun h => ?_))
  refine padded_sep_lt hday (h.imp id (And.imp id fun h => ?_))
  refine padded_sep_lt (by omega) (h.imp id (And.imp id fun h => ?_))
  refine padded_sep_lt (by omega) (h.imp id (And.imp id fun h => ?_))
  refine padded_append_lt (by omega) (h.imp id (And.imp id fun h => ?_))
  exact fraction_lt d'.microsecond_lt h _

end Text

end SchemaPilot.IsoTime
