import Mathlib.Data.List.TakeWhile
import PowerDNS.Base.Serialize

/-!
# Numbers of fixed width

Calendar times are put into file names and zone texts with conversions such as `%04d` and taken out again
by `sscanf` with the same format. A number that has no more digits than its width is filled up with zeros,
so that the next one begins where the width ends (`sscanf_int`).
-/

namespace PowerDNS

open List

/-- `%0wd` of `printf`. -/
def zeroPadded (width : Nat) : Int → Octets
  | .ofNat n => List.replicate (width - (decimal n).length) 48 ++ decimal n
  | .negSucc n => 45 :: (List.replicate (width - 1 - (decimal (n + 1)).length) 48 ++ decimal (n + 1))

/-- A directive of a format of `sscanf`. -/
inductive Scan
  /-- `%0wd`. -/
  | int (width : Nat)
  | literal (c : UInt8)
  deriving DecidableEq

/-- Up to `width` digits, and what is behind them. -/
def scanDigits (width : Nat) (s : Octets) : Option (Nat × Octets) :=
  let run := (s.take width).takeWhile isDigit
  if run = [] then none else some (readDigits 0 run, s.drop run.length)

/-- `%0wd` of `sscanf`: white space, a sign, digits. The sign counts for the width. -/
def scanInt (width : Nat) (s : Octets) : Option (Int × Octets) :=
  let s := s.dropWhile isSpace
  if s.head? = some 45 then (scanDigits (width - 1) s.tail).map fun r => (-(r.1 : Int), r.2)
  else if s.head? = some 43 then (scanDigits (width - 1) s.tail).map fun r => ((r.1 : Int), r.2)
  else (scanDigits width s).map fun r => ((r.1 : Int), r.2)

/-- `sscanf(s, format, …)`: the numbers it stores. It stops at the first directive that fails. -/
def sscanf : List Scan → Octets → List Int
  | [], _ => []
  | .int width :: format, s =>
    match scanInt width s with
    | none => []
    | some (n, rest) => n :: sscanf format rest
  | .literal c :: format, s => if s.head? = some c then sscanf format s.tail else []

/-! ### A number that fits is read back -/

theorem length_decimal_le {n width : Nat} (hw : 1 ≤ width) (hn : n < 10 ^ width) :
    (decimal n).length ≤ width := by
  unfold decimal
  split
  next => exact hw
  next => rw [length_reverse, length_map]; exact (Nat.digits_length_le_iff (by decide) n).mpr hn

/-- Zeros in front of a number count for nothing. -/
theorem readDigits_zeros (k : Nat) (s : Octets) :
    readDigits 0 (List.replicate k 48 ++ s) = readDigits 0 s := by
  induction k with
  | zero => rfl
  | succ k ih => rw [replicate_succ, cons_append, readDigits, if_pos (by decide)]; exact ih

theorem length_zeroPadded {n width : Nat} (hw : 1 ≤ width) (hn : n < 10 ^ width) :
    (zeroPadded width n).length = width := by
  have hle := length_decimal_le hw hn
  change (List.replicate (width - (decimal n).length) 48 ++ decimal n).length = width
  rw [length_append, length_replicate]
  omega

theorem zeroPadded_digits {n width : Nat} : ∀ c ∈ zeroPadded width n, isDigit c = true := by
  intro c hc
  rcases mem_append.mp hc with hc | hc
  · rw [eq_of_mem_replicate hc]
    decide
  · exact isDigit_iff.mpr (decimal_digits n c hc)

/-- **A number of fixed width is read back**, whatever is behind it. -/
theorem scanInt_zeroPadded {n width : Nat} (hw : 1 ≤ width) (hn : n < 10 ^ width) (rest : Octets) :
    scanInt width (zeroPadded width n ++ rest) = some ((n : Int), rest) := by
  have hlength := length_zeroPadded hw hn
  have hdigits := @zeroPadded_digits n width
  have hread : readDigits 0 (zeroPadded width n) = n := by
    change readDigits 0 (List.replicate (width - (decimal n).length) 48 ++ decimal n) = n
    rw [readDigits_zeros, readDigits_decimal]
  have hne : zeroPadded width n ≠ [] := by
    intro hnil
    rw [hnil] at hlength
    exact absurd hlength.symm (Nat.ne_of_gt hw)
  generalize zeroPadded width n = padded at hlength hdigits hread hne
  obtain ⟨c, t, rfl⟩ := exists_cons_of_ne_nil hne
  have hc : 48 ≤ c ∧ c ≤ 57 := isDigit_iff.mp (hdigits c mem_cons_self)
  have hspace : isSpace c = false := by
    unfold isSpace
    grind
  have hrun : ((c :: t ++ rest).take width).takeWhile isDigit = c :: t := by
    rw [← hlength, take_left, takeWhile_eq_self_iff]
    exact hdigits
  have hscan : scanDigits width (c :: t ++ rest) = some (n, rest) := by
    unfold scanDigits
    rw [hrun, if_neg hne, hread, drop_left]
  unfold scanInt
  dsimp only
  rw [cons_append, dropWhile_cons_of_neg (by rw [hspace]; decide), head?_cons,
    if_neg fun h => ?_, if_neg fun h => ?_, ← cons_append, hscan]
  · rfl
  · rw [Option.some.inj h] at hc
    exact absurd hc (by decide)
  · rw [Option.some.inj h] at hc
    exact absurd hc (by decide)

/-- The turn of `sscanf` at such a number. -/
theorem sscanf_int {n width : Nat} (hw : 1 ≤ width) (hn : n < 10 ^ width) (format : List Scan)
    (rest : Octets) :
    sscanf (.int width :: format) (zeroPadded width n ++ rest) = (n : Int) :: sscanf format rest := by
  rw [sscanf, scanInt_zeroPadded hw hn]

theorem sscanf_literal (c : UInt8) (format : List Scan) (rest : Octets) :
    sscanf (.literal c :: format) (c :: rest) = sscanf format rest := by
  rw [sscanf, head?_cons, if_pos rfl, tail_cons]

end PowerDNS
