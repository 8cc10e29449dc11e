import PowerDNS.Base.Scan
import PowerDNS.Lib.Calendar
import PowerDNS.Packet.NameText

/-!
# Signature times: `RecordTextWriter::xfrTime`, `RecordTextReader::xfrTime` and `Utility::timegm`

The times in an RRSIG record are 14 digits in a text. The writer leaves the calendar to the C library, and the reader
counts days itself: `Utility::timegm` has a table of the days in front of each month, a leap day for every four years,
and a correction for the centuries.

`Utility.timegm_eq` is about that count, for every date from 1970 on, and `signature_times` about texts.
-/

namespace PowerDNS

open Calendar List

/-! ### The code -/

namespace Utility

/-- `isleap`; `%` is that of C. -/
def isleap (year : Int) : Bool := year.tmod 4 == 0 && (year.tmod 100 != 0 || year.tmod 400 == 0)

/-- `spm`: the days in front of each month, in a year that is no leap year. -/
def spm : List Int := [0, 31, 59, 90, 120, 151, 181, 212, 243, 273, 304, 334, 365]

/-- `spm[i]`, when it is there. -/
def spmAt (i : Int) : Option Int := if 0 ≤ i then spm[i.toNat]? else none

/-- The lines of `timegm` that bring the fields into their ranges. -/
def normalize (t : Tm) : Tm :=
  let t := if t.tm_sec > 60 then { t with tm_min := t.tm_min + t.tm_sec.tdiv 60, tm_sec := t.tm_sec.tmod 60 } else t
  let t := if t.tm_min > 60 then { t with tm_hour := t.tm_hour + t.tm_min.tdiv 60, tm_min := t.tm_min.tmod 60 } else t
  let t :=
    if t.tm_hour > 60 then { t with tm_mday := t.tm_mday + t.tm_hour.tdiv 60, tm_hour := t.tm_hour.tmod 60 } else t
  if t.tm_mon > 12 then { t with tm_year := t.tm_year + t.tm_mon.tdiv 12, tm_mon := t.tm_mon.tmod 12 } else t

/-- The loop of `timegm` that moves on to the month the day is in. It comes to no end when it looks beyond the table;
else a turn of it takes at least a month away, but for the turn in January, so that the days are enough fuel. -/
def monthLoop : Nat → Tm → Option Tm
  | 0, _ => none
  | fuel + 1, t => do
    if t.tm_mday > (← spmAt (1 + t.tm_mon)) then
      let february := t.tm_mon == 1 && isleap (t.tm_year + 1900)
      if february && t.tm_mon == 31 + 29 then some t
      else
        let t := if february then { t with tm_mday := t.tm_mday - 1 } else t
        let t := { t with tm_mday := t.tm_mday - (← spmAt t.tm_mon), tm_mon := t.tm_mon + 1 }
        monthLoop fuel (if t.tm_mon > 11 then { t with tm_mon := 0, tm_year := t.tm_year + 1 } else t)
    else some t

/-- The days from 1970 to the year; `years` are those behind 1970. -/
def daysOfYears (years : Int) : Int :=
  let day := years * 365 + (years + 1).tdiv 4
  let years := years - 131
  if 0 ≤ years then
    let years := years.tdiv 100
    let day := day - (years / 4 * 3 + 1)
    let years := years % 4
    day - if years = 3 then years - 1 else years
  else day

/-- `timegm` behind its loop; `years` was counted in front of it. -/
def seconds (years : Int) (t : Tm) : Option Int :=
  if t.tm_year < 70 then some (-1)
  else
    match spmAt t.tm_mon with
    | none => none
    | some days =>
      let leap := if isleap (t.tm_year + 1900) && t.tm_mon > 1 then 1 else 0
      let day := daysOfYears years + (days + t.tm_mday - 1 + leap)
      some (((day * 24 + t.tm_hour) * 60 + t.tm_min) * 60 + t.tm_sec)

/-- `timegm`; there is no result when it looks beyond its table. -/
def timegm (t : Tm) : Option Int :=
  (monthLoop (2 * (normalize t).tm_mday.toNat + 2) (normalize t)).bind (seconds (t.tm_year - 70))

end Utility

/-- `"%04d%02d%02d" "%02d%02d%02d"`. -/
def timeFormat : List Scan := [.int 4, .int 2, .int 2, .int 2, .int 2, .int 2]

namespace RecordTextWriter

/-- `xfrTime(val)`. There is room for 14 octets. -/
def xfrTime (d_string : Octets) (val : UInt32) : Octets :=
  let tm := gmtime val.toNat
  (if d_string = [] then [] else d_string ++ [32]) ++
    (zeroPadded 4 (tm.tm_year + 1900) ++ (zeroPadded 2 (tm.tm_mon + 1) ++ (zeroPadded 2 tm.tm_mday ++
      (zeroPadded 2 tm.tm_hour ++ (zeroPadded 2 tm.tm_min ++ zeroPadded 2 tm.tm_sec))))).take 14

end RecordTextWriter

namespace RecordTextReader

/-- What `sscanf` stores; the fields it does not get to stay zero. -/
def scannedTm (fields : List Int) : Tm where
  tm_year := fields.getD 0 0 - 1900
  tm_mon := fields.getD 1 0 - 1
  tm_mday := fields.getD 2 0
  tm_hour := fields.getD 3 0
  tm_min := fields.getD 4 0
  tm_sec := fields.getD 5 0

/-- `xfrTime(val)`, with what is left of the text. -/
def xfrTime (d_zone d_string : Octets) : Except TextError (Option UInt32 × Octets) :=
  match xfrLabel d_zone d_string with
  | .error e => .error e
  | .ok (tmp, rest) => .ok ((Utility.timegm (scannedTm (sscanf timeFormat tmp))).map UInt32.ofInt, rest)

end RecordTextReader

/-! ### Counting days -/

namespace Utility

theorem isleap_iff {year : Int} (h : 0 ≤ year) : isleap year = true ↔ IsLeap year := by
  unfold isleap IsLeap
  rw [Int.tmod_eq_emod_of_nonneg h, Int.tmod_eq_emod_of_nonneg h, Int.tmod_eq_emod_of_nonneg h, Bool.and_eq_true,
    Bool.or_eq_true, beq_iff_eq, beq_iff_eq, bne_iff_ne]

/-- **The days of the years.** -/
theorem daysOfYears_eq {year : Int} (h : 1970 ≤ year) : daysOfYears (year - 1970) = yearStart year := by
  unfold daysOfYears yearStart
  dsimp only
  rw [Int.tdiv_eq_ediv_of_nonneg (by omega)]
  split
  next hcentury =>
    rw [Int.tdiv_eq_ediv_of_nonneg hcentury]
    -- One century in four has a leap year at its end.
    split <;> omega
  next => omega

/-- **The days of the months.** -/
theorem spmAt_eq (year : Int) {mon : Nat} (h : mon < 12) :
    spmAt mon = some (((((monthDays year).take mon).sum : Nat) : Int) - if IsLeap year ∧ 1 < mon then 1 else 0) := by
  unfold monthDays
  by_cases hleap : IsLeap year
  · rw [if_pos hleap]
    simp only [hleap, true_and]
    revert h
    revert mon
    decide
  · rw [if_neg hleap]
    simp only [hleap, false_and]
    revert h
    revert mon
    decide

/-- A month has no more days than there are to its end. -/
theorem le_spmAt_succ {mon : Nat} (h : mon < 12) : ∃ n, spmAt (1 + mon) = some n ∧ 31 ≤ n := by
  revert h
  revert mon
  decide

/-- **`timegm` counts as the calendar does** from 1970 on. The leap second may be there, and days that the month does
not have, up to the 31st. -/
theorem timegm_eq {tm : Tm} (hyear : 70 ≤ tm.tm_year) (hmon : 0 ≤ tm.tm_mon ∧ tm.tm_mon ≤ 11) (hday : tm.tm_mday ≤ 31)
    (hhour : tm.tm_hour ≤ 60) (hmin : tm.tm_min ≤ 60) (hsec : tm.tm_sec ≤ 60) :
    timegm tm = some (Calendar.timegm tm) := by
  obtain ⟨mon, hmonth⟩ := Int.eq_ofNat_of_zero_le hmon.1
  have hlt : mon < 12 := by omega
  have hnormal : normalize tm = tm := by
    unfold normalize
    dsimp only
    rw [if_neg (by omega : ¬ tm.tm_sec > 60), if_neg (by omega : ¬ tm.tm_min > 60),
      if_neg (by omega : ¬ tm.tm_hour > 60), if_neg (by omega : ¬ tm.tm_mon > 12)]
  have hloop (fuel : Nat) : monthLoop (fuel + 2) tm = some tm := by
    obtain ⟨n, hn, hle⟩ := le_spmAt_succ hlt
    unfold monthLoop
    rw [hmonth, hn]
    exact if_neg (by omega)
  have hyears := @daysOfYears_eq (tm.tm_year + 1900) (by omega)
  have hleap := @isleap_iff (tm.tm_year + 1900) (by omega)
  rw [show tm.tm_year + 1900 - 1970 = tm.tm_year - 70 by omega] at hyears
  have hadjust : (if (isleap (tm.tm_year + 1900) && decide (tm.tm_mon > 1)) = true then (1 : Int) else 0) =
      if IsLeap (tm.tm_year + 1900) ∧ 1 < mon then 1 else 0 := by
    refine if_congr ?_ rfl rfl
    rw [Bool.and_eq_true, decide_eq_true_eq, hleap, hmonth]
    exact and_congr_right fun _ => Int.ofNat_lt
  have hdate : dayOf tm = yearStart (tm.tm_year + 1900) +
      (((monthDays (tm.tm_year + 1900)).take mon).sum : Nat) + tm.tm_mday - 1 := by
    unfold dayOf
    rw [hmonth, show (mon : Int) / 12 = 0 by omega, Int.add_zero, show ((mon : Int) % 12).toNat = mon by omega]
  unfold timegm seconds
  rw [hnormal, hloop, Option.bind_some, if_neg (by omega), hyears]
  rw [hadjust, hmonth, spmAt_eq (tm.tm_year + 1900) hlt]
  dsimp only
  unfold Calendar.timegm
  rw [hdate]
  congr 1
  ring

end Utility

/-! ### Reading digits as a field -/

section Digits

variable {digits behind : Octets}

theorem isDigit_plain {c : UInt8} (h : isDigit c = true) :
    endsField c = false ∧ c ≠ backslash ∧ dnsIsspace c = false ∧ c ≠ dot ∧ c ≠ 32 := by
  rw [isDigit_iff] at h
  unfold endsField dnsIsspace
  grind

theorem labelField_digits (hdigits : ∀ c ∈ digits, isDigit c = true) (h : behind = [] ∨ behind.head? = some 32) :
    RecordTextReader.labelField (digits ++ behind) = (digits, behind) := by
  induction digits with
  | nil =>
    rcases h with rfl | h
    · rfl
    · cases behind with
      | nil => rfl
      | cons c behind =>
        obtain rfl : c = 32 := Option.some.inj h
        exact RecordTextReader.labelField_ends (by decide) behind
  | cons c digits ih =>
    obtain ⟨hends, hback, -⟩ := isDigit_plain (hdigits c mem_cons_self)
    have hlater := ih fun c' hc' => hdigits c' (mem_cons_of_mem c hc')
    rw [cons_append, RecordTextReader.labelField_plain hends hback, hlater]

/-- **A number is a field of its own**; no zone is added to it. -/
theorem xfrLabel_digits (hdigits : ∀ c ∈ digits, isDigit c = true) (hne : digits ≠ [])
    (h : behind = [] ∨ behind.head? = some 32) (d_zone d_string : Octets) :
    RecordTextReader.xfrLabel d_zone (((if d_string = [] then [] else d_string ++ [32]) ++ digits).drop
      d_string.length ++ behind) = .ok (digits, behind) := by
  have hblank : 32 ∉ digits := fun h32 => (isDigit_plain (hdigits 32 h32)).2.2.2.2 rfl
  have hskip := drop_xfrLabel hblank d_string behind
  unfold RecordTextWriter.xfrLabel at hskip
  rw [if_pos hblank] at hskip
  unfold RecordTextReader.xfrLabel
  rw [hskip]
  obtain ⟨c, t, rfl⟩ := exists_cons_of_ne_nil hne
  rw [cons_append, skipSpaces_of_head (isDigit_plain (hdigits c mem_cons_self)).2.2.1]
  dsimp only
  rw [← cons_append, labelField_digits hdigits h, if_neg hne]
  by_cases hzone : d_zone = []
  · rw [if_neg (not_not_intro hzone)]
  · rw [if_pos hzone]
    have hdigit := hdigits _ (getLast_mem hne)
    rw [getLast?_eq_some_getLast hne]
    dsimp only
    rw [if_neg (isDigit_plain hdigit).2.2.2.1, if_neg]
    rw [Bool.not_eq_true, Bool.not_eq_false']
    exact hdigit

end Digits

/-! ### There and back -/

/-- A time is read as it was written, with whatever is behind it. -/
theorem xfrTime_written (t : UInt32) (d_zone d_string : Octets) {behind : Octets}
    (hbehind : behind = [] ∨ behind.head? = some 32) :
    RecordTextReader.xfrTime d_zone ((RecordTextWriter.xfrTime d_string t).drop d_string.length ++ behind) =
      .ok (some t, behind) := by
  have ht : t.toNat < 2 ^ 33 := t.toNat_lt.trans (by decide)
  obtain ⟨year, mon, mday, hour, min, sec, ⟨hy, hm, hd, hh, hi, hs⟩, hfields⟩ := exists_fields ht
  obtain ⟨⟨hyear, -⟩, ⟨hmon, hmon'⟩, ⟨-, hmday⟩, ⟨-, hhour⟩, ⟨-, hmin⟩, -, hsec⟩ := gmtime_range t.toNat
  have hback : Utility.timegm (gmtime t.toNat) = some (t.toNat : Int) := by
    rw [Utility.timegm_eq hyear ⟨hmon, hmon'⟩ hmday (by omega) (by omega) (by omega), timegm_gmtime]
  have hdigits : ∀ c ∈ zeroPadded 4 year ++ (zeroPadded 2 mon ++ (zeroPadded 2 mday ++ (zeroPadded 2 hour ++
      (zeroPadded 2 min ++ zeroPadded 2 sec)))), isDigit c = true := by
    intro c hc
    simp only [mem_append] at hc
    rcases hc with hc | hc | hc | hc | hc | hc <;> exact zeroPadded_digits c hc
  have hlength : (zeroPadded 4 year ++ (zeroPadded 2 mon ++ (zeroPadded 2 mday ++ (zeroPadded 2 hour ++
      (zeroPadded 2 min ++ zeroPadded 2 sec))))).length = 14 := by
    simp only [length_append]
    rw [length_zeroPadded (by decide) hy, length_zeroPadded (by decide) hm, length_zeroPadded (by decide) hd,
      length_zeroPadded (by decide) hh, length_zeroPadded (by decide) hi, length_zeroPadded (by decide) hs]
  have hscan := sscanf_int (by decide) hs [] []
  rw [append_nil] at hscan
  have hread : RecordTextReader.scannedTm (sscanf timeFormat (zeroPadded 4 year ++ (zeroPadded 2 mon ++
      (zeroPadded 2 mday ++ (zeroPadded 2 hour ++ (zeroPadded 2 min ++ zeroPadded 2 sec)))))) = gmtime t.toNat := by
    unfold timeFormat
    rw [sscanf_int (by decide) hy, sscanf_int (by decide) hm, sscanf_int (by decide) hd,
      sscanf_int (by decide) hh, sscanf_int (by decide) hi, hscan, hfields]
    rfl
  unfold RecordTextReader.xfrTime RecordTextWriter.xfrTime
  dsimp only
  rw [hfields]
  rw [show (year : Int) - 1900 + 1900 = year by omega, show (mon : Int) - 1 + 1 = mon by omega,
    take_of_length_le hlength.le,
    xfrLabel_digits hdigits (ne_nil_of_length_pos (by rw [hlength]; decide)) hbehind]
  dsimp only
  rw [hread, hback]
  have hsame : UInt32.ofInt (t.toNat : Int) = t := by
    apply UInt32.toNat_inj.mp
    have hlt := t.toNat_lt
    unfold UInt32.ofInt
    rw [UInt32.toNat_ofNat']
    omega
  rw [Option.map_some, hsame]

/-- **Signature times.** -/
theorem signature_times :
    (∀ (t : UInt32) (d_zone d_string behind : Octets), behind = [] ∨ behind.head? = some 32 →
      RecordTextReader.xfrTime d_zone ((RecordTextWriter.xfrTime d_string t).drop d_string.length ++ behind) =
        .ok (some t, behind)) ∧
    ∀ tm : Tm, tm.Valid → 70 ≤ tm.tm_year → Utility.timegm tm = some (Calendar.timegm tm) := by
  refine ⟨fun t d_zone d_string behind hbehind => xfrTime_written t d_zone d_string hbehind, fun tm htm hyear => ?_⟩
  obtain ⟨⟨hmon, hmon'⟩, ⟨-, hmday⟩, ⟨-, hhour⟩, ⟨-, hmin⟩, -, hsec⟩ := htm
  have hlast : (monthDays (tm.tm_year + 1900)).getD tm.tm_mon.toNat 0 ≤ 31 := by
    have hlt : tm.tm_mon.toNat < (monthDays (tm.tm_year + 1900)).length := by
      rw [length_monthDays]
      omega
    rw [getD_eq_getElem?_getD, getElem?_eq_getElem hlt]
    exact monthDays_le (getElem_mem hlt)
  exact Utility.timegm_eq hyear ⟨hmon, by omega⟩ (by omega) (by omega) (by omega) (by omega)

/-- The last second of February 2000, and the 28th of February 2100. -/
theorem signature_times_leap :
    RecordTextReader.xfrTime [] ((RecordTextWriter.xfrTime (ascii "A") 951868799).drop 1 ++ ascii " 5") =
        .ok (some 951868799, ascii " 5") ∧
      Utility.timegm ⟨200, 1, 28, 23, 59, 59⟩ = some (Calendar.timegm ⟨200, 1, 28, 23, 59, 59⟩) :=
  ⟨signature_times.1 951868799 [] (ascii "A") (ascii " 5") (.inr rfl),
    signature_times.2 ⟨200, 1, 28, 23, 59, 59⟩ ⟨by decide, by decide, by decide, by decide, by decide⟩ (by decide)⟩

end PowerDNS
