import Mathlib.Algebra.Group.Nat.Defs
import Mathlib.Data.Nat.Bits
import Mathlib.Tactic.Common

/-!
# Bit fields

Codecs cut octets into groups of bits with shifts and masks, and put them together again with `|`. As long as the
parts do not overlap this is arithmetic: a mask of low bits is a remainder (`Nat.and_two_pow_sub_one_eq_mod`), and
`|` is a sum (`or_eq_add`, `ofNat_or`).
-/

namespace BitFields

/-- Parts that do not overlap. -/
theorem or_eq_add {x y : Nat} (k : Nat) (hx : 2 ^ k ∣ x) (hy : y < 2 ^ k) : x ||| y = x + y := by
  obtain ⟨q, rfl⟩ := hx
  exact (Nat.two_pow_add_eq_or_of_lt hy q).symm

/-- Parts of an octet that do not overlap. -/
theorem ofNat_or {x y : Nat} (k : Nat) (hx : 2 ^ k ∣ x) (hy : y < 2 ^ k) :
    UInt8.ofNat x ||| UInt8.ofNat y = UInt8.ofNat (x + y) := by
  rw [← or_eq_add k hx hy, UInt8.ofNat_or]

/-- An octet behind another one. -/
theorem shiftLeft_or (x : Nat) {y : Nat} (hy : y < 256) : x <<< 8 ||| y = x * 256 + y := by
  rw [or_eq_add 8 (by rw [Nat.shiftLeft_eq]; exact Nat.dvd_mul_left _ _) hy, Nat.shiftLeft_eq]

/-- The lower octet. -/
theorem and_octet (x : Nat) : x &&& 0xff = x % 256 := Nat.and_two_pow_sub_one_eq_mod x 8

end BitFields
