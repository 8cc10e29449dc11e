import PowerDNS.Base.Serialize
import PowerDNS.Lib.BitFields

/-!
# Base32hex: `toBase32Hex`, `fromBase32Hex`

Five octets are eight characters of five bits each. Both directions go by such blocks, with `extract_bits` and
`set_bits`, which look at three octets at a time. A last block with fewer octets has only as many characters as it
takes to hold them, and is filled up with `=`.

The number of octets that a last block stands for is rounded up by `fromBase32Hex`, not down, and so what comes back
has an octet too many, whenever there is an `=` (`base32_iff`).
-/

namespace PowerDNS

open BitFields List

/-! ### The code -/

/-- What `input.c_str()` leads to: the string, a NUL, and whatever the memory has behind it. -/
def stringMemory (behind : Nat → UInt8) (input : Octets) (i : Nat) : UInt8 :=
  if i = input.length then 0 else input.getD i (behind i)

/-- `extract_bits`. -/
def extract_bits (s : Nat → UInt8) (start length : Nat) : Nat :=
  let cl := (s (start / 8)).toNat
  let cc := (s (start / 8 + 1)).toNat
  let cr := (s (start / 8 + 2)).toNat
  let x := (cl <<< 8 ||| cc) <<< 8 ||| cr
  x >>> (24 - (length + start % 8)) &&& 0xffff >>> (16 - length)

/-- `s[i] |= c`. -/
def orAt (s : Octets) (i c : Nat) : Octets := s.modify i (· ||| UInt8.ofNat c)

/-- `set_bits`. -/
def set_bits (s : Octets) (x start length : Nat) : Octets :=
  let shift := (8 - (start + length) % 8) % 8
  let y := x <<< shift
  let cl := y >>> 16 &&& 0xff
  let cc := y >>> 8 &&& 0xff
  let cr := y &&& 0xff
  if shift + length > 16 then orAt (orAt (orAt s (start / 8) cl) (start / 8 + 1) cc) (start / 8 + 2) cr
  else if shift + length > 8 then orAt (orAt s (start / 8) cc) (start / 8 + 1) cr
  else orAt s (start / 8) cr

/-- `unbase32hex`. -/
def unbase32hex (c : UInt8) : Int :=
  if 48 ≤ c ∧ c ≤ 57 then (c.toNat : Int) - 48
  else if 97 ≤ c ∧ c ≤ 122 then 10 + ((c.toNat : Int) - 97)
  else if 65 ≤ c ∧ c ≤ 90 then 10 + ((c.toNat : Int) - 65)
  else if c = 61 then 61
  else -1

/-- `base32hex`. -/
def base32hex : Octets := ascii "0123456789ABCDEFGHIJKLMNOPQRSTUV="

/-- How much `=` to add at the end. -/
def stuffing (todo : Int) : Nat :=
  if todo = 1 then 6 else if todo = 2 then 4 else if todo = 3 then 3 else if todo = 4 then 1 else 0

/-- The characters for the octets from `s` on, `todo` of which are in the string. -/
def base32Block (s : Nat → UInt8) (todo : Int) : Octets :=
  ((List.range (8 - stuffing todo)).map fun n => base32hex.getD (extract_bits s (n * 5) 5) 0) ++
    List.replicate (stuffing todo) 61

/-- `toBase32Hex`; `behind` is what the memory has behind the string. `todo` is an `int`. -/
def toBase32Hex (behind : Nat → UInt8) (input : Octets) : Octets :=
  (List.range' 0 ((input.length + 4) / 5)).flatMap fun k =>
    base32Block (fun i => stringMemory behind input (5 * k + i)) (toInt32 (input.length - 5 * k : Nat))

/-- `char block[5]`, cleared. -/
def clearBlock : Octets := [0, 0, 0, 0, 0]

/-- The loop of `fromBase32Hex`, and what follows it. -/
def base32Loop : Octets → Nat → Octets → Octets → Nat → Octets
  | [], _, ret, block, toWrite => ret ++ block.take ((7 + toWrite * 5) / 8)
  | ch :: rest, n, ret, block, toWrite =>
    let c := unbase32hex ch
    -- stop at stuffing or error
    if c = 61 ∨ c < 0 then ret ++ block.take ((7 + toWrite * 5) / 8)
    else
      let block := set_bits block c.toNat (n % 8 * 5) 5
      if toWrite + 1 = 8 then base32Loop rest (n + 1) (ret ++ block) clearBlock 0
      else base32Loop rest (n + 1) ret block (toWrite + 1)

/-- `fromBase32Hex`. -/
def fromBase32Hex (input : Octets) : Octets := base32Loop input 0 [] clearBlock 0

/-! ### Groups of five bits -/

/-- What the third octet is does not matter when five bits are extracted. -/
theorem extract_bits_eq (s : Nat → UInt8) (start : Nat) :
    extract_bits s start 5 = ((s (start / 8)).toNat * 256 + (s (start / 8 + 1)).toNat) / 2 ^ (11 - start % 8) % 32 := by
  have hcc := (s (start / 8 + 1)).toNat_lt
  have hcr := (s (start / 8 + 2)).toNat_lt
  unfold extract_bits
  dsimp only
  rw [shiftLeft_or _ hcc, shiftLeft_or _ hcr, Nat.shiftRight_eq_div_pow,
    show 24 - (5 + start % 8) = 8 + (11 - start % 8) by omega, Nat.pow_add, ← Nat.div_div_eq_div_mul]
  rw [show ((s (start / 8)).toNat * 256 + (s (start / 8 + 1)).toNat) * 256 + (s (start / 8 + 2)).toNat =
    (s (start / 8 + 2)).toNat + 2 ^ 8 * ((s (start / 8)).toNat * 256 + (s (start / 8 + 1)).toNat) by omega,
    Nat.add_mul_div_left _ _ (by decide), Nat.div_eq_of_lt hcr, Nat.zero_add]
  exact Nat.and_two_pow_sub_one_eq_mod _ 5

theorem extract_bits_lt (s : Nat → UInt8) (start : Nat) : extract_bits s start 5 < 32 := by
  rw [extract_bits_eq]
  exact Nat.mod_lt _ (by decide)

/-- A character stands for its group. -/
theorem unbase32hex_base32hex {q : Nat} (h : q < 32) : unbase32hex (base32hex.getD q 0) = q := by
  revert h
  revert q
  decide

/-! ### A whole block -/

section Block

variable {q₀ q₁ q₂ q₃ q₄ q₅ q₆ q₇ : Nat}

/-- Eight groups of five bits in their places. -/
def fillBlock (q₀ q₁ q₂ q₃ q₄ q₅ q₆ q₇ : Nat) : Octets :=
  set_bits (set_bits (set_bits (set_bits (set_bits (set_bits (set_bits (set_bits clearBlock q₀ 0 5) q₁ 5 5) q₂ 10 5)
    q₃ 15 5) q₄ 20 5) q₅ 25 5) q₆ 30 5) q₇ 35 5

theorem fillBlock_eq (h₀ : q₀ < 32) (h₁ : q₁ < 32) (h₂ : q₂ < 32) (h₃ : q₃ < 32) (h₄ : q₄ < 32) (h₅ : q₅ < 32)
    (h₆ : q₆ < 32) (h₇ : q₇ < 32) :
    fillBlock q₀ q₁ q₂ q₃ q₄ q₅ q₆ q₇ = [UInt8.ofNat (q₀ * 8 + q₁ / 4), UInt8.ofNat (q₁ % 4 * 64 + q₂ * 2 + q₃ / 16),
      UInt8.ofNat (q₃ % 16 * 16 + q₄ / 2), UInt8.ofNat (q₄ % 2 * 128 + q₅ * 4 + q₆ / 8),
      UInt8.ofNat (q₆ % 8 * 32 + q₇)] := by
  -- The places of the groups in the octets.
  change [((0 : UInt8) ||| UInt8.ofNat (q₀ <<< 3 &&& 0xff)) ||| UInt8.ofNat (q₁ <<< 6 >>> 8 &&& 0xff),
    (((0 : UInt8) ||| UInt8.ofNat (q₁ <<< 6 &&& 0xff)) ||| UInt8.ofNat (q₂ <<< 1 &&& 0xff)) |||
      UInt8.ofNat (q₃ <<< 4 >>> 8 &&& 0xff),
    ((0 : UInt8) ||| UInt8.ofNat (q₃ <<< 4 &&& 0xff)) ||| UInt8.ofNat (q₄ <<< 7 >>> 8 &&& 0xff),
    (((0 : UInt8) ||| UInt8.ofNat (q₄ <<< 7 &&& 0xff)) ||| UInt8.ofNat (q₅ <<< 2 &&& 0xff)) |||
      UInt8.ofNat (q₆ <<< 5 >>> 8 &&& 0xff),
    ((0 : UInt8) ||| UInt8.ofNat (q₆ <<< 5 &&& 0xff)) ||| UInt8.ofNat (q₇ <<< 0 &&& 0xff)] = _
  simp only [UInt8.zero_or, and_octet, Nat.shiftLeft_eq, Nat.shiftRight_eq_div_pow]
  rw [ofNat_or 3 (by omega) (by omega), ofNat_or 6 (x := q₁ * 2 ^ 6 % 256) (by omega) (by omega),
    ofNat_or 1 (x := q₁ * 2 ^ 6 % 256 + q₂ * 2 ^ 1 % 256) (by omega) (by omega),
    ofNat_or 4 (x := q₃ * 2 ^ 4 % 256) (by omega) (by omega),
    ofNat_or 7 (x := q₄ * 2 ^ 7 % 256) (by omega) (by omega),
    ofNat_or 2 (x := q₄ * 2 ^ 7 % 256 + q₅ * 2 ^ 2 % 256) (by omega) (by omega),
    ofNat_or 5 (x := q₆ * 2 ^ 5 % 256) (by omega) (by omega)]
  have hplaces : q₀ * 2 ^ 3 % 256 + q₁ * 2 ^ 6 / 2 ^ 8 % 256 = q₀ * 8 + q₁ / 4 ∧
      q₁ * 2 ^ 6 % 256 + q₂ * 2 ^ 1 % 256 + q₃ * 2 ^ 4 / 2 ^ 8 % 256 = q₁ % 4 * 64 + q₂ * 2 + q₃ / 16 ∧
      q₃ * 2 ^ 4 % 256 + q₄ * 2 ^ 7 / 2 ^ 8 % 256 = q₃ % 16 * 16 + q₄ / 2 ∧
      q₄ * 2 ^ 7 % 256 + q₅ * 2 ^ 2 % 256 + q₆ * 2 ^ 5 / 2 ^ 8 % 256 = q₄ % 2 * 128 + q₅ * 4 + q₆ / 8 ∧
      q₆ * 2 ^ 5 % 256 + q₇ * 2 ^ 0 % 256 = q₆ % 8 * 32 + q₇ := by
    refine ⟨by omega, by omega, by omega, by omega, by omega⟩
  rw [hplaces.1, hplaces.2.1, hplaces.2.2.1, hplaces.2.2.2.1, hplaces.2.2.2.2]

/-- **A block is put together again.** -/
theorem fillBlock_extract (s : Nat → UInt8) :
    fillBlock (extract_bits s 0 5) (extract_bits s 5 5) (extract_bits s 10 5) (extract_bits s 15 5)
      (extract_bits s 20 5) (extract_bits s 25 5) (extract_bits s 30 5) (extract_bits s 35 5) =
        [s 0, s 1, s 2, s 3, s 4] := by
  rw [fillBlock_eq (extract_bits_lt s 0) (extract_bits_lt s 5) (extract_bits_lt s 10) (extract_bits_lt s 15)
    (extract_bits_lt s 20) (extract_bits_lt s 25) (extract_bits_lt s 30) (extract_bits_lt s 35)]
  have e₀ : extract_bits s 0 5 = ((s 0).toNat * 256 + (s 1).toNat) / 2 ^ 11 % 32 := extract_bits_eq s 0
  have e₁ : extract_bits s 5 5 = ((s 0).toNat * 256 + (s 1).toNat) / 2 ^ 6 % 32 := extract_bits_eq s 5
  have e₂ : extract_bits s 10 5 = ((s 1).toNat * 256 + (s 2).toNat) / 2 ^ 9 % 32 := extract_bits_eq s 10
  have e₃ : extract_bits s 15 5 = ((s 1).toNat * 256 + (s 2).toNat) / 2 ^ 4 % 32 := extract_bits_eq s 15
  have e₄ : extract_bits s 20 5 = ((s 2).toNat * 256 + (s 3).toNat) / 2 ^ 7 % 32 := extract_bits_eq s 20
  have e₅ : extract_bits s 25 5 = ((s 3).toNat * 256 + (s 4).toNat) / 2 ^ 10 % 32 := extract_bits_eq s 25
  have e₆ : extract_bits s 30 5 = ((s 3).toNat * 256 + (s 4).toNat) / 2 ^ 5 % 32 := extract_bits_eq s 30
  have e₇ : extract_bits s 35 5 = ((s 4).toNat * 256 + (s 5).toNat) / 2 ^ 8 % 32 := extract_bits_eq s 35
  rw [e₀, e₁, e₂, e₃, e₄, e₅, e₆, e₇]
  clear e₀ e₁ e₂ e₃ e₄ e₅ e₆ e₇
  have octet {n : Nat} {c : UInt8} (h : n = c.toNat) : UInt8.ofNat n = c := by rw [h, UInt8.ofNat_toNat]
  have h₀ := (s 0).toNat_lt
  have h₁ := (s 1).toNat_lt
  have h₂ := (s 2).toNat_lt
  have h₃ := (s 3).toNat_lt
  have h₄ := (s 4).toNat_lt
  have h₅ := (s 5).toNat_lt
  congr 1
  · exact octet (by omega)
  congr 1
  · exact octet (by omega)
  congr 1
  · exact octet (by omega)
  congr 1
  · exact octet (by omega)
  congr 1
  exact octet (by omega)

end Block

/-! ### The loop of the decoder -/

section Loop

variable {q n toWrite : Nat} {ret block rest : Octets}

theorem length_orAt (s : Octets) (i c : Nat) : (orAt s i c).length = s.length := length_modify _ _ _

theorem length_set_bits (s : Octets) (x start length : Nat) : (set_bits s x start length).length = s.length := by
  unfold set_bits
  dsimp only
  split
  · rw [length_orAt, length_orAt, length_orAt]
  · split
    · rw [length_orAt, length_orAt]
    · rw [length_orAt]

/-- A character of the alphabet. -/
theorem base32Loop_char (hq : q < 32) :
    base32Loop (base32hex.getD q 0 :: rest) n ret block toWrite =
      if toWrite + 1 = 8 then base32Loop rest (n + 1) (ret ++ set_bits block q (n % 8 * 5) 5) clearBlock 0
      else base32Loop rest (n + 1) ret (set_bits block q (n % 8 * 5) 5) (toWrite + 1) := by
  rw [base32Loop]
  rw [unbase32hex_base32hex hq, if_neg (by omega), Int.toNat_natCast]

/-- **A block without `=`.** -/
theorem base32Loop_block (s : Nat → UInt8) {todo : Int} (h : stuffing todo = 0) (j : Nat) :
    base32Loop (base32Block s todo ++ rest) (8 * j) ret clearBlock 0 =
      base32Loop rest (8 * (j + 1)) (ret ++ [s 0, s 1, s 2, s 3, s 4]) clearBlock 0 := by
  have hplace (i : Nat) (hi : i < 8) : (8 * j + i) % 8 = i := by omega
  have hlt (start : Nat) := extract_bits_lt s start
  unfold base32Block
  rw [h, replicate_zero, append_nil]
  change base32Loop (base32hex.getD (extract_bits s 0 5) 0 :: base32hex.getD (extract_bits s 5 5) 0 ::
    base32hex.getD (extract_bits s 10 5) 0 :: base32hex.getD (extract_bits s 15 5) 0 ::
    base32hex.getD (extract_bits s 20 5) 0 :: base32hex.getD (extract_bits s 25 5) 0 ::
    base32hex.getD (extract_bits s 30 5) 0 :: base32hex.getD (extract_bits s 35 5) 0 :: rest) (8 * j + 0) ret
    clearBlock 0 = _
  rw [base32Loop_char (hlt 0), if_neg (by decide), hplace 0 (by decide)]
  rw [base32Loop_char (hlt 5), if_neg (by decide), hplace 1 (by decide)]
  rw [base32Loop_char (hlt 10), if_neg (by decide), hplace 2 (by decide)]
  rw [base32Loop_char (hlt 15), if_neg (by decide), hplace 3 (by decide)]
  rw [base32Loop_char (hlt 20), if_neg (by decide), hplace 4 (by decide)]
  rw [base32Loop_char (hlt 25), if_neg (by decide), hplace 5 (by decide)]
  rw [base32Loop_char (hlt 30), if_neg (by decide), hplace 6 (by decide)]
  rw [base32Loop_char (hlt 35), if_pos (by decide), hplace 7 (by decide)]
  rw [← fillBlock_extract s]
  rfl

/-- Up to the first `=`. -/
theorem length_base32Loop_stop (qs : List Nat) (hqs : ∀ q ∈ qs, q < 32) (hblock : block.length = 5)
    (hroom : toWrite + qs.length < 8) :
    (base32Loop (qs.map (fun q => base32hex.getD q 0) ++ 61 :: rest) n ret block toWrite).length =
      ret.length + (7 + (toWrite + qs.length) * 5) / 8 := by
  induction qs generalizing n block toWrite with
  | nil =>
    rw [map_nil, nil_append, base32Loop]
    rw [if_pos (.inl (by decide)), length_append, length_take, hblock, Nat.min_eq_left]
    · rfl
    · rw [length_nil] at hroom
      omega
  | cons q qs ih =>
    rw [length_cons] at hroom
    rw [map_cons, cons_append, base32Loop_char (hqs q mem_cons_self), if_neg (by omega),
      ih (fun q' hq' => hqs q' (mem_cons_of_mem q hq')) ((length_set_bits _ _ _ _).trans hblock) (by omega)]
    rw [length_cons, Nat.add_assoc, Nat.add_comm 1]

/-- **A block with `=`** is the last that is looked at, and has an octet too many. -/
theorem length_base32Loop_block (s : Nat → UInt8) {todo : Nat} (h : 1 ≤ todo ∧ todo ≤ 4) :
    (base32Loop (base32Block s todo ++ rest) n ret clearBlock 0).length = ret.length + (todo + 1) := by
  have hstop (m k : Nat) (hm : m < 8) : (base32Loop (((List.range m).map fun i =>
      base32hex.getD (extract_bits s (i * 5) 5) 0) ++ (List.replicate (k + 1) 61 ++ rest)) n ret clearBlock 0).length =
        ret.length + (7 + m * 5) / 8 := by
    have hqs : ∀ q ∈ (List.range m).map fun i => extract_bits s (i * 5) 5, q < 32 := by
      intro q hq
      obtain ⟨i, -, rfl⟩ := mem_map.mp hq
      exact extract_bits_lt s _
    have hlength : ((List.range m).map fun i => extract_bits s (i * 5) 5).length = m := by
      rw [length_map, length_range]
    have hresult := @length_base32Loop_stop n 0 ret clearBlock (List.replicate k 61 ++ rest) _ hqs rfl
      (by rw [hlength]; omega)
    rw [hlength, Nat.zero_add, map_map] at hresult
    exact hresult
  obtain rfl | rfl | rfl | rfl : todo = 1 ∨ todo = 2 ∨ todo = 3 ∨ todo = 4 := by omega
  · exact hstop 2 5 (by decide)
  · exact hstop 4 3 (by decide)
  · exact hstop 5 2 (by decide)
  · exact hstop 7 0 (by decide)

end Loop

/-! ### There and back -/

section RoundTrip

variable {behind : Nat → UInt8} {input : Octets}

/-- How many octets there are from a block on, for the code. -/
def todoAt (input : Octets) (k : Nat) : Int := toInt32 (input.length - 5 * k : Nat)

/-- The characters of a block. -/
def blockAt (behind : Nat → UInt8) (input : Octets) (k : Nat) : Octets :=
  base32Block (fun i => stringMemory behind input (5 * k + i)) (todoAt input k)

/-- Where there is `=`, there are one to four octets for the code, or some multiple of 2^32 more of them. -/
theorem stuffed_todo {k : Nat} (h : stuffing (todoAt input k) ≠ 0) :
    ∃ todo : Nat, todoAt input k = todo ∧ 1 ≤ todo ∧ todo ≤ 4 := by
  unfold stuffing at h
  split at h
  next h1 => exact ⟨1, h1, by decide, by decide⟩
  split at h
  next h2 => exact ⟨2, h2, by decide, by decide⟩
  split at h
  next h3 => exact ⟨3, h3, by decide, by decide⟩
  split at h
  next h4 => exact ⟨4, h4, by decide, by decide⟩
  next => exact absurd rfl h

/-- **Block by block**, up to the first with `=`. -/
theorem base32Loop_blocks (n j : Nat) (ret : Octets) :
    ((∀ k, j ≤ k → k < j + n → stuffing (todoAt input k) = 0) ∧
      base32Loop ((List.range' j n).flatMap (blockAt behind input)) (8 * j) ret clearBlock 0 =
        ret ++ (List.range' j n).flatMap fun k => (List.range 5).map fun i => stringMemory behind input (5 * k + i)) ∨
    ∃ k todo : Nat, j ≤ k ∧ k < j + n ∧ todoAt input k = todo ∧ (1 ≤ todo ∧ todo ≤ 4) ∧
      (base32Loop ((List.range' j n).flatMap (blockAt behind input)) (8 * j) ret clearBlock 0).length =
        ret.length + 5 * (k - j) + (todo + 1) := by
  induction n generalizing j ret with
  | zero =>
    refine .inl ⟨fun k hle hlt => absurd (Nat.lt_of_le_of_lt hle hlt) (Nat.lt_irrefl _), ?_⟩
    rfl
  | succ n ih =>
    rw [range'_succ, flatMap_cons, flatMap_cons]
    by_cases hstuffed : stuffing (todoAt input j) = 0
    · have hblock := @base32Loop_block ret ((List.range' (j + 1) n).flatMap (blockAt behind input))
        (fun i => stringMemory behind input (5 * j + i)) _ hstuffed j
      change base32Loop (blockAt behind input j ++ _) _ _ _ _ = _ at hblock
      rw [hblock]
      rcases ih (j + 1) _ with ⟨hnone, hall⟩ | ⟨k, todo, hle, hlt, htodo, hrange, hlength⟩
      · refine .inl ⟨fun k hle hlt => ?_, ?_⟩
        · rcases Nat.eq_or_lt_of_le hle with rfl | hlater
          · exact hstuffed
          · exact hnone k hlater (by omega)
        · rw [hall, append_assoc]
          rfl
      · refine .inr ⟨k, todo, by omega, by omega, htodo, hrange, ?_⟩
        rw [hlength, length_append]
        change ret.length + 5 + 5 * (k - (j + 1)) + (todo + 1) = _
        omega
    · obtain ⟨todo, htodo, hrange⟩ := stuffed_todo hstuffed
      refine .inr ⟨j, todo, Nat.le_refl j, by omega, htodo, hrange, ?_⟩
      have hblock := @length_base32Loop_block (8 * j) ret ((List.range' (j + 1) n).flatMap (blockAt behind input))
        (fun i => stringMemory behind input (5 * j + i)) todo hrange
      rw [← htodo] at hblock
      change (base32Loop (blockAt behind input j ++ _) _ _ _ _).length = _ at hblock
      rw [hblock, Nat.sub_self]
      rfl

/-- The octets of the whole blocks. -/
theorem flatMap_blocks (n j : Nat) (h : 5 * (j + n) = input.length) :
    ((List.range' j n).flatMap fun k => (List.range 5).map fun i => stringMemory behind input (5 * k + i)) =
      input.drop (5 * j) := by
  induction n generalizing j with
  | zero =>
    rw [drop_eq_nil_of_le (by omega)]
    rfl
  | succ n ih =>
    rw [range'_succ, flatMap_cons, ih (j + 1) (by omega)]
    have hhead : ((List.range 5).map fun i => stringMemory behind input (5 * j + i)) = (input.drop (5 * j)).take 5 := by
      refine ext_getElem ?_ fun i hi hi' => ?_
      · rw [length_map, length_range, length_take, length_drop]
        omega
      · rw [length_map, length_range] at hi
        rw [getElem_map, getElem_range, getElem_take, getElem_drop, stringMemory, if_neg (by omega),
          getD_eq_getElem?_getD, getElem?_eq_getElem (by omega), Option.getD_some]
    rw [hhead, show 5 * (j + 1) = 5 * j + 5 by omega, ← drop_drop, take_append_drop]

/-- Without `=` everything comes back; with it, the length is another. -/
theorem fromBase32Hex_toBase32Hex :
    ((∀ k < (input.length + 4) / 5, stuffing (todoAt input k) = 0) ∧
      fromBase32Hex (toBase32Hex behind input) = input) ∨
    (∃ k < (input.length + 4) / 5, stuffing (todoAt input k) ≠ 0) ∧
      (fromBase32Hex (toBase32Hex behind input)).length ≠ input.length := by
  have hsmall (n : Nat) (h : n ≤ 5) : toInt32 (n : Int) = n := toInt32_of_range (by omega) (by omega)
  change (_ ∧ base32Loop ((List.range' 0 ((input.length + 4) / 5)).flatMap (blockAt behind input)) 0 [] clearBlock 0 = _) ∨
    _ ∧ (base32Loop ((List.range' 0 ((input.length + 4) / 5)).flatMap (blockAt behind input)) 0 [] clearBlock 0).length ≠ _
  rcases @base32Loop_blocks behind input ((input.length + 4) / 5) 0 [] with
    ⟨hnone, hall⟩ | ⟨k, todo, -, hlt, htodo, hrange, hlength⟩
  · refine .inl ⟨fun k hk => hnone k (Nat.zero_le k) (by omega), ?_⟩
    refine hall.trans ?_
    have hfive : 5 * (0 + (input.length + 4) / 5) = input.length := by
      by_contra hrest
      have hlast := hnone ((input.length + 4) / 5 - 1) (Nat.zero_le _) (by omega)
      unfold todoAt at hlast
      rw [hsmall _ (by omega)] at hlast
      unfold stuffing at hlast
      split at hlast
      · cases hlast
      split at hlast
      · cases hlast
      split at hlast
      · cases hlast
      split at hlast
      · cases hlast
      · omega
    rw [nil_append, flatMap_blocks _ _ hfive]
    rfl
  · refine .inr ⟨⟨k, by omega, ?_⟩, fun hsame => ?_⟩
    · rw [htodo]
      obtain rfl | rfl | rfl | rfl : todo = 1 ∨ todo = 2 ∨ todo = 3 ∨ todo = 4 := by omega
      all_goals decide
    · rw [Nat.mul_zero, length_nil] at hlength
      have hleft : input.length - 5 * k = todo + 1 := by omega
      unfold todoAt at htodo
      rw [hleft, hsmall _ (by omega)] at htodo
      omega

theorem stuffing_toInt32 (t : Nat) : stuffing (toInt32 t) = 0 ↔ t % 2 ^ 32 = 0 ∨ 4 < t % 2 ^ 32 := by
  have hstuffing (x : Int) : stuffing x = 0 ↔ x < 1 ∨ 4 < x := by
    unfold stuffing
    split_ifs <;> grind
  have hvalue : toInt32 t = if t % 2 ^ 32 < 2 ^ 31 then ((t % 2 ^ 32 : Nat) : Int) else (t % 2 ^ 32 : Nat) - 2 ^ 32 := by
    unfold toInt32 Int.bmod
    split
    · rw [if_pos (by omega)]
      omega
    · rw [if_neg (by omega)]
      omega
  rw [hstuffing, hvalue]
  split_ifs <;> omega

/-- There is no `=` when all blocks are whole, as long as the `int` does not wrap to the end of a block. -/
theorem unstuffed_iff :
    (∀ k < (input.length + 4) / 5, stuffing (todoAt input k) = 0) ↔ 5 ∣ input.length ∧ input.length < 2 ^ 32 + 4 := by
  unfold todoAt
  simp only [stuffing_toInt32]
  constructor
  · intro h
    have hfive : 5 ∣ input.length := by
      by_contra hrest
      have hlast := h ((input.length + 4) / 5 - 1) (by omega)
      have hleft : 1 ≤ input.length - 5 * ((input.length + 4) / 5 - 1) ∧
          input.length - 5 * ((input.length + 4) / 5 - 1) ≤ 4 := by omega
      omega
    refine ⟨hfive, ?_⟩
    by_contra hlong
    -- From here on there are 2^32 + 4 octets.
    have hwrap := h ((input.length - (2 ^ 32 + 4)) / 5) (by omega)
    rw [show input.length - 5 * ((input.length - (2 ^ 32 + 4)) / 5) = 2 ^ 32 + 4 by omega] at hwrap
    exact absurd hwrap (by decide)
  · rintro ⟨hfive, hshort⟩ k hk
    have hlt : input.length - 5 * k < 2 ^ 32 := by omega
    rw [Nat.mod_eq_of_lt hlt]
    omega

/-- What the memory has behind the string does not matter when all blocks are whole. -/
theorem toBase32Hex_behind (behind' : Nat → UInt8) (hfive : 5 ∣ input.length) :
    toBase32Hex behind' input = toBase32Hex behind input := by
  have hsame {i : Nat} (hi : i ≤ input.length) : stringMemory behind' input i = stringMemory behind input i := by
    unfold stringMemory
    split
    · rfl
    · rw [getD_eq_getElem?_getD, getD_eq_getElem?_getD, getElem?_eq_getElem (by omega)]
      rfl
  have hblocks : ∀ k ∈ List.range' 0 ((input.length + 4) / 5),
      blockAt behind' input k = blockAt behind input k := by
    intro k hk
    rw [mem_range'_1] at hk
    unfold blockAt base32Block
    generalize stuffing (todoAt input k) = m
    congr 1
    refine map_congr_left fun n hn => ?_
    have hn' : n < 8 := lt_of_lt_of_le (mem_range.mp hn) (Nat.sub_le _ _)
    rw [extract_bits_eq, extract_bits_eq, hsame (by omega), hsame (by omega)]
  change (List.range' 0 ((input.length + 4) / 5)).flatMap (blockAt behind' input) =
    (List.range' 0 ((input.length + 4) / 5)).flatMap (blockAt behind input)
  rw [flatMap_def, flatMap_def, map_congr_left hblocks]

end RoundTrip

/-- Five octets for eight characters at most. -/
theorem length_base32Loop_le (text : Octets) (n : Nat) (ret : Octets) {block : Octets} {toWrite : Nat}
    (hblock : block.length = 5) (hwrite : toWrite < 8) :
    (base32Loop text n ret block toWrite).length ≤ ret.length + 5 * ((text.length + toWrite + 7) / 8) := by
  have hstop {ret block : Octets} {toWrite : Nat} (hblock : block.length = 5) (m : Nat) :
      (ret ++ block.take ((7 + toWrite * 5) / 8)).length ≤ ret.length + 5 * ((m + toWrite + 7) / 8) := by
    rw [length_append, length_take, hblock]
    omega
  induction text generalizing n ret block toWrite with
  | nil => exact hstop hblock 0
  | cons c text ih =>
    unfold base32Loop
    dsimp only
    split
    · exact hstop hblock _
    · split
      · have hle := ih (n + 1) (ret ++ set_bits block (unbase32hex c).toNat (n % 8 * 5) 5)
          (show clearBlock.length = 5 from rfl) (show 0 < 8 by decide)
        rw [length_append, length_set_bits, hblock] at hle
        rw [length_cons]
        omega
      · refine (ih (n + 1) ret ((length_set_bits ..).trans hblock) (show toWrite + 1 < 8 by omega)).trans ?_
        rw [length_cons]
        omega

theorem length_fromBase32Hex_le (text : Octets) : (fromBase32Hex text).length ≤ 5 * ((text.length + 7) / 8) := by
  have hle := @length_base32Loop_le text 0 [] clearBlock 0 rfl (by decide)
  rwa [length_nil, Nat.zero_add] at hle

/-- **Base32hex round trip**: nothing is lost or added exactly for the lengths that need no `=`. -/
theorem base32_iff (behind behind' : Nat → UInt8) (x : Octets) :
    (fromBase32Hex (toBase32Hex behind x) = x ∧ (fromBase32Hex (toBase32Hex behind x)).length = x.length ∧
      toBase32Hex behind' (fromBase32Hex (toBase32Hex behind x)) = toBase32Hex behind x) ↔
        5 ∣ x.length ∧ x.length < 2 ^ 32 + 4 := by
  rw [← unstuffed_iff]
  rcases @fromBase32Hex_toBase32Hex behind x with ⟨hnone, hback⟩ | ⟨hsome, hlength⟩
  · refine iff_of_true ?_ hnone
    rw [hback]
    exact ⟨rfl, rfl, toBase32Hex_behind behind' (unstuffed_iff.mp hnone).1⟩
  · refine iff_of_false (fun h => hlength h.2.1) fun hnone => ?_
    obtain ⟨k, hk, hstuffed⟩ := hsome
    exact hstuffed (hnone k hk)

/-- One octet comes back with a NUL behind it. -/
theorem base32_adds_octet : ¬ ∀ (behind : Nat → UInt8) (x : Octets), fromBase32Hex (toBase32Hex behind x) = x := by
  intro h
  exact absurd (h (fun _ => 0) [102]) (by decide)

end PowerDNS
