import Mathlib.Data.List.Basic
import Mathlib.Tactic.Ring

/-!
# Digests that work on blocks

A digest takes blocks of `n` elements into its state. `absorb` takes in the full blocks of a list; what does not
fill a block is the `remainder`. A digest that is fed piece by piece keeps the state and the remainder of what it
has been fed: `absorb_append` and `remainder_append` say that these two are all it needs to go on.
-/

namespace BlockDigest

open List

variable {α S : Type*} (n : Nat) (process : S → List α → S)

/-- The first `k` blocks of a list, taken in one after the other. -/
def absorbBlocks : Nat → S → List α → S
  | 0, s, _ => s
  | k + 1, s, l => absorbBlocks k (process s (l.take n)) (l.drop n)

/-- The full blocks of a list. -/
def absorb (s : S) (l : List α) : S := absorbBlocks n process (l.length / n) s l

/-- What comes behind the full blocks. -/
def remainder (l : List α) : List α := l.drop (l.length / n * n)

variable {n process} {s : S} {l : List α}

theorem length_remainder : (remainder n l).length = l.length % n := by
  rw [remainder, length_drop, Nat.mod_def, Nat.mul_comm]

theorem absorb_of_lt (h : l.length < n) : absorb n process s l = s := by
  rw [absorb, Nat.div_eq_of_lt h]
  rfl

theorem remainder_of_lt (h : l.length < n) : remainder n l = l := by
  rw [remainder, Nat.div_eq_of_lt h, Nat.zero_mul, drop_zero]

/-- The number of blocks, when there is one. -/
theorem length_div (hn : 0 < n) (h : n ≤ l.length) : l.length / n = (l.drop n).length / n + 1 := by
  rw [length_drop, ← Nat.div_eq_sub_div hn h]

theorem absorb_of_le (hn : 0 < n) (h : n ≤ l.length) :
    absorb n process s l = absorb n process (process s (l.take n)) (l.drop n) := by
  rw [absorb, length_div hn h]
  rfl

theorem remainder_of_le (hn : 0 < n) (h : n ≤ l.length) : remainder n l = remainder n (l.drop n) := by
  rw [remainder, length_div hn h, remainder, drop_drop, Nat.add_mul, Nat.one_mul, Nat.add_comm]

/-- **Fed in two pieces.** -/
theorem absorb_append (process : S → List α → S) (hn : 0 < n) (s : S) (l l' : List α) :
    absorb n process s (l ++ l') = absorb n process (absorb n process s l) (remainder n l ++ l') := by
  induction hlength : l.length using Nat.strong_induction_on generalizing s l with
  | _ k ih =>
    rcases Nat.lt_or_ge l.length n with hlt | hle
    · rw [absorb_of_lt hlt, remainder_of_lt hlt]
    · have hwhole : n ≤ (l ++ l').length := by
        rw [length_append]
        exact hle.trans (Nat.le_add_right _ _)
      rw [absorb_of_le hn hwhole, take_append_of_le_length hle, drop_append_of_le_length hle,
        absorb_of_le hn hle, remainder_of_le hn hle]
      exact ih _ (by rw [← hlength, length_drop]; omega) _ _ rfl

theorem remainder_append (hn : 0 < n) (l l' : List α) : remainder n (l ++ l') = remainder n (remainder n l ++ l') := by
  induction hlength : l.length using Nat.strong_induction_on generalizing l with
  | _ k ih =>
    rcases Nat.lt_or_ge l.length n with hlt | hle
    · rw [remainder_of_lt hlt]
    · have hwhole : n ≤ (l ++ l').length := by
        rw [length_append]
        exact hle.trans (Nat.le_add_right _ _)
      rw [remainder_of_le hn hwhole, drop_append_of_le_length hle, remainder_of_le hn hle]
      exact ih _ (by rw [← hlength, length_drop]; omega) _ rfl

end BlockDigest
