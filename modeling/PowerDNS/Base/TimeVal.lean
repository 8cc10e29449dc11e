import Mathlib.Data.Prod.Lex
import Mathlib.Order.Lattice
import Mathlib.Tactic.Common

/-!
# Times of day: `struct timeval`

A time is a number of seconds and one of microseconds, and the order is the lexical one (`lt_iff`).
`Interval` is the same with signs, and says when the results are right (`Interval.arithmetic_iff`).
-/

namespace PowerDNS

/-- `struct timeval`, as a clock gives it, or `operator+`. -/
@[ext]
structure TimeVal where
  tv_sec : Nat
  tv_usec : Nat
  tv_usec_le : tv_usec ≤ 1000000

namespace TimeVal

/-- `operator<`. -/
instance : LinearOrder TimeVal :=
  LinearOrder.lift' (fun t => toLex (t.tv_sec, t.tv_usec)) fun s t h => by
    have h' := Prod.mk.inj (toLex.injective h)
    exact TimeVal.ext h'.1 h'.2

theorem lt_iff {s t : TimeVal} :
    s < t ↔ s.tv_sec < t.tv_sec ∨ s.tv_sec = t.tv_sec ∧ s.tv_usec < t.tv_usec :=
  Prod.Lex.toLex_lt_toLex

/-- `normalizeTV`, for a sum. -/
def normalizeTV (tv_sec tv_usec : Nat) (h : tv_usec ≤ 2000000) : TimeVal :=
  if hmore : 1000000 < tv_usec then ⟨tv_sec + 1, tv_usec - 1000000, by omega⟩
  else ⟨tv_sec, tv_usec, Nat.le_of_not_lt hmore⟩

/-- `operator+`. -/
instance : Add TimeVal where
  add lhs rhs :=
    normalizeTV (lhs.tv_sec + rhs.tv_sec) (lhs.tv_usec + rhs.tv_usec)
      (Nat.add_le_add lhs.tv_usec_le rhs.tv_usec_le)

/-- The `increment` of so many milliseconds. -/
def ofMsec (timeoutMsec : UInt32) : TimeVal :=
  ⟨timeoutMsec.toNat / 1000, 1000 * (timeoutMsec.toNat % 1000), by omega⟩

theorem usec_zero_le : 0 ≤ 1000000 := Nat.zero_le _

/-- So many seconds. -/
def ofSec (tv_sec : Nat) : TimeVal := ⟨tv_sec, 0, usec_zero_le⟩

/-- Microseconds. -/
def micros (t : TimeVal) : Nat := t.tv_sec * 1000000 + t.tv_usec

theorem micros_add (s t : TimeVal) : (s + t).micros = s.micros + t.micros := by
  change (normalizeTV _ _ _).micros = _
  unfold normalizeTV micros
  split <;> dsimp only <;> omega

theorem micros_ofMsec (timeoutMsec : UInt32) :
    (ofMsec timeoutMsec).micros = 1000 * timeoutMsec.toNat := by
  unfold micros ofMsec
  dsimp only
  omega

/-- What is before a time is not later. -/
theorem micros_le_of_lt {s t : TimeVal} (h : s < t) : s.micros ≤ t.micros := by
  have hs := s.tv_usec_le
  rw [lt_iff] at h
  unfold micros
  omega

/-- A sum is not before its parts. -/
theorem le_add (s t : TimeVal) : t ≤ s + t := by
  rw [← not_lt, lt_iff]
  change ¬ ((normalizeTV _ _ _).tv_sec < _ ∨ (normalizeTV _ _ _).tv_sec = _ ∧
    (normalizeTV _ _ _).tv_usec < _)
  unfold normalizeTV
  split <;> dsimp only <;> omega

theorem zero_le (t : TimeVal) : ⟨0, 0, Nat.zero_le _⟩ ≤ t := by
  rw [← not_lt, lt_iff]
  dsimp only
  omega

theorem tv_sec_le_of_le {s t : TimeVal} (h : s ≤ t) : s.tv_sec ≤ t.tv_sec := by
  rw [← not_lt, lt_iff] at h
  omega

end TimeVal

/-- A `struct timeval` with its signs, as `operator-` may give it. -/
structure Interval where
  tv_sec : Int
  tv_usec : Int
  deriving DecidableEq

namespace Interval

/-- The range of a `time_t`. -/
def InTime (sec : Int) : Prop := -9223372036854775808 ≤ sec ∧ sec < 9223372036854775808

instance (sec : Int) : Decidable (InTime sec) := inferInstanceAs (Decidable (_ ∧ _))

/-- What is computed as a `time_t`: over its range the behaviour is undefined. -/
def timeT (sec : Int) : Option Int := if InTime sec then some sec else none

/-- `normalizeTV`. -/
def normalizeTV (tv : Interval) : Option Interval :=
  if 1000000 < tv.tv_usec then (timeT (tv.tv_sec + 1)).map (⟨·, tv.tv_usec - 1000000⟩)
  else if tv.tv_usec < 0 then (timeT (tv.tv_sec - 1)).map (⟨·, tv.tv_usec + 1000000⟩)
  else some tv

/-- `operator+`. -/
def add (lhs rhs : Interval) : Option Interval :=
  (timeT (lhs.tv_sec + rhs.tv_sec)).bind (normalizeTV ⟨·, lhs.tv_usec + rhs.tv_usec⟩)

/-- `operator-`. -/
def sub (lhs rhs : Interval) : Option Interval :=
  (timeT (lhs.tv_sec - rhs.tv_sec)).bind (normalizeTV ⟨·, lhs.tv_usec - rhs.tv_usec⟩)

/-- `operator<`. -/
def less (lhs rhs : Interval) : Prop :=
  lhs.tv_sec < rhs.tv_sec ∨ ¬rhs.tv_sec < lhs.tv_sec ∧ lhs.tv_usec < rhs.tv_usec

/-- All of it in microseconds. -/
def micros (t : Interval) : Int := t.tv_sec * 1000000 + t.tv_usec

/-- What a clock gives: a `time_t`, and the microseconds of less than a second. -/
structure Normal (t : Interval) : Prop where
  inTime : InTime t.tv_sec
  usec : 0 ≤ t.tv_usec ∧ t.tv_usec ≤ 999999

variable {lhs rhs : Interval}

theorem less_iff_micros (hl : lhs.Normal) (hr : rhs.Normal) :
    lhs.less rhs ↔ lhs.micros < rhs.micros := by
  have hul := hl.usec
  have hur := hr.usec
  unfold less micros
  omega

/-- A normal result with given microseconds there is, when `normalizeTV` has some to carry right. -/
theorem normalized_iff {sec usec : Int} (hlow : -999999 ≤ usec) (hhigh : usec ≤ 1999998) :
    (∃ t, (timeT sec).bind (normalizeTV ⟨·, usec⟩) = some t ∧ t.Normal ∧
      t.micros = sec * 1000000 + usec) ↔
      usec ≠ 1000000 ∧ InTime sec ∧ InTime ((sec * 1000000 + usec) / 1000000) := by
  unfold timeT
  by_cases hsec : InTime sec
  · rw [if_pos hsec, Option.bind_some]
    unfold normalizeTV timeT
    dsimp only
    split
    · have hcarry : (sec * 1000000 + usec) / 1000000 = sec + 1 := by omega
      rw [hcarry]
      split
      next hmore =>
        refine iff_of_true ⟨_, rfl, ⟨hmore, ?_⟩, ?_⟩ ⟨by omega, hsec, hmore⟩
        · dsimp only
          omega
        · unfold micros
          dsimp only
          omega
      next hmore => exact iff_of_false (fun ⟨_, h, _⟩ => nomatch h) fun h => hmore h.2.2
    · split
      · have hborrow : (sec * 1000000 + usec) / 1000000 = sec - 1 := by omega
        rw [hborrow]
        split
        next hless =>
          refine iff_of_true ⟨_, rfl, ⟨hless, ?_⟩, ?_⟩ ⟨by omega, hsec, hless⟩
          · dsimp only
            omega
          · unfold micros
            dsimp only
            omega
        next hless => exact iff_of_false (fun ⟨_, h, _⟩ => nomatch h) fun h => hless h.2.2
      · constructor
        · rintro ⟨t, ht, hnormal, -⟩
          obtain rfl := Option.some.inj ht
          have husec := hnormal.usec
          dsimp only at husec
          have hsame : (sec * 1000000 + usec) / 1000000 = sec := by omega
          exact ⟨by omega, hsec, hsame.symm ▸ hsec⟩
        · rintro ⟨hne, -, -⟩
          refine ⟨_, rfl, ⟨hsec, ?_⟩, rfl⟩
          dsimp only
          omega
  · rw [if_neg hsec]
    exact iff_of_false (fun ⟨_, h, _⟩ => nomatch h) fun h => hsec h.2.1

/-- **`operator+`, `operator-` and `operator<` are right exactly when the microseconds of the two
are not a second together**, and the seconds are a `time_t` all the way. -/
theorem arithmetic_iff (hl : lhs.Normal) (hr : rhs.Normal) :
    ((∃ sum, lhs.add rhs = some sum ∧ sum.Normal ∧ sum.micros = lhs.micros + rhs.micros) ∧
      (∃ diff, lhs.sub rhs = some diff ∧ diff.Normal ∧ diff.micros = lhs.micros - rhs.micros) ∧
      (lhs.less rhs ↔ lhs.micros < rhs.micros)) ↔
    lhs.tv_usec + rhs.tv_usec ≠ 1000000 ∧
      (InTime (lhs.tv_sec + rhs.tv_sec) ∧ InTime ((lhs.micros + rhs.micros) / 1000000)) ∧
      InTime (lhs.tv_sec - rhs.tv_sec) ∧ InTime ((lhs.micros - rhs.micros) / 1000000) := by
  have hul := hl.usec
  have hur := hr.usec
  have hsum : lhs.micros + rhs.micros =
      (lhs.tv_sec + rhs.tv_sec) * 1000000 + (lhs.tv_usec + rhs.tv_usec) := by
    unfold micros
    omega
  have hdiff : lhs.micros - rhs.micros =
      (lhs.tv_sec - rhs.tv_sec) * 1000000 + (lhs.tv_usec - rhs.tv_usec) := by
    unfold micros
    omega
  have hdifference := @normalized_iff (lhs.tv_sec - rhs.tv_sec) (lhs.tv_usec - rhs.tv_usec)
    (by omega) (by omega)
  rw [hsum, hdiff, iff_true_intro (less_iff_micros hl hr), and_true]
  unfold add sub
  rw [normalized_iff (by omega) (by omega), hdifference, and_assoc]
  exact and_congr_right fun _ => and_congr_right fun _ => and_iff_right (by omega)

theorem a_carried_second :
    (⟨7, 750000⟩ : Interval).Normal ∧ (⟨3, 500000⟩ : Interval).Normal ∧
      ∃ sum, (⟨7, 750000⟩ : Interval).add ⟨3, 500000⟩ = some sum ∧ sum.Normal := by
  have hl : (⟨7, 750000⟩ : Interval).Normal := ⟨by decide, by decide⟩
  have hr : (⟨3, 500000⟩ : Interval).Normal := ⟨by decide, by decide⟩
  obtain ⟨⟨sum, hsum, hnormal, -⟩, -⟩ := (arithmetic_iff hl hr).mpr (by decide)
  exact ⟨hl, hr, sum, hsum, hnormal⟩

/-- Twice half a second is not a second, and before it. -/
theorem half_seconds_not_carried :
    (⟨0, 500000⟩ : Interval).Normal ∧
      (⟨0, 500000⟩ : Interval).add ⟨0, 500000⟩ = some ⟨0, 1000000⟩ ∧
      ¬(⟨0, 1000000⟩ : Interval).Normal ∧ (⟨0, 1000000⟩ : Interval).less ⟨1, 0⟩ ∧
      (⟨0, 1000000⟩ : Interval).micros = (⟨1, 0⟩ : Interval).micros :=
  ⟨⟨by decide, by decide⟩, by decide, fun h => absurd h.usec.2 (by decide), .inl (by decide), rfl⟩

end Interval

end PowerDNS
