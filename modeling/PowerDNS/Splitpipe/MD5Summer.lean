import PowerDNS.Base.Octets
import PowerDNS.Lib.BlockDigest

/-!
# The running checksum: `MD5Summer`

`feed` is called with whatever is at hand, and `get` gives the checksum of everything that has been fed. `Fed` says
what a context that has been fed some octets looks like, and `fed_update` that feeding more keeps this up. So the
checksum depends on the octets alone, and not on the pieces in which they came (`MD5Summer.get_of_fed`).
-/

namespace PowerDNS

open BlockDigest List UInt32

/-! ### The code -/

/-- `ctx->state`. -/
structure MD5State where
  A : UInt32 := 0x67452301
  B : UInt32 := 0xEFCDAB89
  C : UInt32 := 0x98BADCFE
  D : UInt32 := 0x10325476
  deriving DecidableEq

/-- `md5_context`, as `md5_starts` leaves it. What is in the buffer then is not known. -/
structure MD5Context where
  total : UInt32 × UInt32 := (0, 0)
  state : MD5State := {}
  buffer : Octets := []

/-- `GET_UINT32`. -/
def getUInt32 (b : Octets) (i : Nat) : UInt32 :=
  (b.getD i 0).toUInt32 ||| (b.getD (i + 1) 0).toUInt32 <<< 8 ||| (b.getD (i + 2) 0).toUInt32 <<< 16 |||
    (b.getD (i + 3) 0).toUInt32 <<< 24

/-- `PUT_UINT32`. -/
def putUInt32 (n : UInt32) : Octets := [n.toUInt8, (n >>> 8).toUInt8, (n >>> 16).toUInt8, (n >>> 24).toUInt8]

/-- `S(x,n)`. -/
def md5Rotate (x n : UInt32) : UInt32 := x <<< n ||| x >>> (32 - n)

/-- `P(a,b,c,d,k,s,t)`; the letters then move on by one for the next call. -/
def md5P (F : UInt32 → UInt32 → UInt32 → UInt32) (X : List UInt32) (v : MD5State) (kst : Nat × UInt32 × UInt32) :
    MD5State :=
  { A := v.D
    B := md5Rotate (v.A + (F v.B v.C v.D + X.getD kst.1 0 + kst.2.2)) kst.2.1 + v.B
    C := v.B
    D := v.C }

/-- The calls of `P` in the first round, with `k`, `s` and `t`. -/
def md5Round1 : List (Nat × UInt32 × UInt32) :=
  [(0, 7, 0xD76AA478), (1, 12, 0xE8C7B756), (2, 17, 0x242070DB), (3, 22, 0xC1BDCEEE),
    (4, 7, 0xF57C0FAF), (5, 12, 0x4787C62A), (6, 17, 0xA8304613), (7, 22, 0xFD469501),
    (8, 7, 0x698098D8), (9, 12, 0x8B44F7AF), (10, 17, 0xFFFF5BB1), (11, 22, 0x895CD7BE),
    (12, 7, 0x6B901122), (13, 12, 0xFD987193), (14, 17, 0xA679438E), (15, 22, 0x49B40821)]

def md5Round2 : List (Nat × UInt32 × UInt32) :=
  [(1, 5, 0xF61E2562), (6, 9, 0xC040B340), (11, 14, 0x265E5A51), (0, 20, 0xE9B6C7AA),
    (5, 5, 0xD62F105D), (10, 9, 0x02441453), (15, 14, 0xD8A1E681), (4, 20, 0xE7D3FBC8),
    (9, 5, 0x21E1CDE6), (14, 9, 0xC33707D6), (3, 14, 0xF4D50D87), (8, 20, 0x455A14ED),
    (13, 5, 0xA9E3E905), (2, 9, 0xFCEFA3F8), (7, 14, 0x676F02D9), (12, 20, 0x8D2A4C8A)]

def md5Round3 : List (Nat × UInt32 × UInt32) :=
  [(5, 4, 0xFFFA3942), (8, 11, 0x8771F681), (11, 16, 0x6D9D6122), (14, 23, 0xFDE5380C),
    (1, 4, 0xA4BEEA44), (4, 11, 0x4BDECFA9), (7, 16, 0xF6BB4B60), (10, 23, 0xBEBFBC70),
    (13, 4, 0x289B7EC6), (0, 11, 0xEAA127FA), (3, 16, 0xD4EF3085), (6, 23, 0x04881D05),
    (9, 4, 0xD9D4D039), (12, 11, 0xE6DB99E5), (15, 16, 0x1FA27CF8), (2, 23, 0xC4AC5665)]

def md5Round4 : List (Nat × UInt32 × UInt32) :=
  [(0, 6, 0xF4292244), (7, 10, 0x432AFF97), (14, 15, 0xAB9423A7), (5, 21, 0xFC93A039),
    (12, 6, 0x655B59C3), (3, 10, 0x8F0CCC92), (10, 15, 0xFFEFF47D), (1, 21, 0x85845DD1),
    (8, 6, 0x6FA87E4F), (15, 10, 0xFE2CE6E0), (6, 15, 0xA3014314), (13, 21, 0x4E0811A1),
    (4, 6, 0xF7537E82), (11, 10, 0xBD3AF235), (2, 15, 0x2AD7D2BB), (9, 21, 0xEB86D391)]

/-- `md5_process`. -/
def md5Process (state : MD5State) (data : Octets) : MD5State :=
  let X := (List.range 16).map fun k => getUInt32 data (4 * k)
  let v := md5Round1.foldl (md5P (fun x y z => z ^^^ (x &&& (y ^^^ z))) X) state
  let v := md5Round2.foldl (md5P (fun x y z => y ^^^ (z &&& (x ^^^ y))) X) v
  let v := md5Round3.foldl (md5P (fun x y z => x ^^^ y ^^^ z) X) v
  let v := md5Round4.foldl (md5P (fun x y z => y ^^^ (x ||| ~~~z)) X) v
  { A := state.A + v.A, B := state.B + v.B, C := state.C + v.C, D := state.D + v.D }

/-- `memcpy(ctx->buffer + left, input, length)`. -/
def MD5Context.copyIn (ctx : MD5Context) (left : Nat) (input : Octets) : MD5Context :=
  { ctx with buffer := ctx.buffer.take left ++ input ++ ctx.buffer.drop (left + input.length) }

/-- `while( length >= 64 )`, for so many blocks: the state, and what is left of the input. -/
def md5Blocks : Nat → MD5State → Octets → MD5State × Octets
  | 0, state, input => (state, input)
  | k + 1, state, input => md5Blocks k (md5Process state (input.take 64)) (input.drop 64)

/-- `md5_update`, for an input of the given length. -/
def md5Update (ctx : MD5Context) (input : Octets) : MD5Context :=
  let length := UInt32.ofNat input.length
  if length = 0 then ctx
  else
    let left := (ctx.total.1 &&& 0x3F).toNat
    let fill := 64 - left
    let total := (ctx.total.1 + length, if ctx.total.1 + length < length then ctx.total.2 + 1 else ctx.total.2)
    let ctx := { ctx with total := total }
    if left ≠ 0 ∧ fill ≤ input.length then
      let ctx := ctx.copyIn left (input.take fill)
      let state := md5Process ctx.state (ctx.buffer.take 64)
      let input := input.drop fill
      let last := md5Blocks (input.length / 64) state input
      { ctx with state := last.1 }.copyIn 0 last.2
    else
      let last := md5Blocks (input.length / 64) ctx.state input
      { ctx with state := last.1 }.copyIn left last.2

/-- `md5_padding`. -/
def md5Padding : Octets := 0x80 :: List.replicate 63 0

/-- `md5_finish`. -/
def md5Finish (ctx : MD5Context) : Octets :=
  let high := ctx.total.1 >>> 29 ||| ctx.total.2 <<< 3
  let low := ctx.total.1 <<< 3
  let msglen := putUInt32 low ++ putUInt32 high
  let last := (ctx.total.1 &&& 0x3F).toNat
  let padn := if last < 56 then 56 - last else 120 - last
  let ctx := md5Update (md5Update ctx (md5Padding.take padn)) msglen
  putUInt32 ctx.state.A ++ putUInt32 ctx.state.B ++ putUInt32 ctx.state.C ++ putUInt32 ctx.state.D

/-- `MD5Summer`. -/
structure MD5Summer where
  d_context : MD5Context := {}

/-- `feed`; the size is converted to 32 bits. -/
def MD5Summer.feed (s : MD5Summer) (str : Octets) : MD5Summer :=
  { d_context := md5Update s.d_context (str.take (str.length % 2 ^ 32)) }

/-- `get`. -/
def MD5Summer.get (s : MD5Summer) : Octets := md5Finish s.d_context

/-! ### What has been fed -/

/-- A context that has been fed some octets. -/
structure Fed (data : Octets) (ctx : MD5Context) : Prop where
  total : ctx.total = (UInt32.ofNat data.length, UInt32.ofNat (data.length / 2 ^ 32))
  state : ctx.state = absorb 64 md5Process {} data
  buffer : ctx.buffer.take (data.length % 64) = remainder 64 data

theorem fed_nil : Fed [] {} := ⟨rfl, rfl, rfl⟩

theorem md5Blocks_eq (k : Nat) (state : MD5State) (input : Octets) :
    md5Blocks k state input = (absorbBlocks 64 md5Process k state input, input.drop (k * 64)) := by
  induction k generalizing state input with
  | zero => rw [Nat.zero_mul, drop_zero]; rfl
  | succ k ih =>
    unfold md5Blocks absorbBlocks
    rw [ih, drop_drop, Nat.add_mul, Nat.one_mul, Nat.add_comm]

theorem md5Blocks_all (state : MD5State) (input : Octets) :
    md5Blocks (input.length / 64) state input = (absorb 64 md5Process state input, remainder 64 input) :=
  md5Blocks_eq _ _ _

/-- How much of the buffer is in use. -/
theorem toNat_and_63 (n : Nat) : (UInt32.ofNat n &&& 0x3F).toNat = n % 64 := by
  rw [UInt32.toNat_and, UInt32.toNat_ofNat', show UInt32.toNat 0x3F = 2 ^ 6 - 1 from rfl,
    Nat.and_two_pow_sub_one_eq_mod]
  exact Nat.mod_mod_of_dvd n (by decide)

/-- The two words of the total, with the carry. -/
theorem total_add (d : Nat) {k : Nat} (hk : k < 2 ^ 32) :
    (UInt32.ofNat d + UInt32.ofNat k,
      if UInt32.ofNat d + UInt32.ofNat k < UInt32.ofNat k then UInt32.ofNat (d / 2 ^ 32) + 1
      else UInt32.ofNat (d / 2 ^ 32)) = (UInt32.ofNat (d + k), UInt32.ofNat ((d + k) / 2 ^ 32)) := by
  have hcarry : UInt32.ofNat d + UInt32.ofNat k < UInt32.ofNat k ↔ 2 ^ 32 ≤ d % 2 ^ 32 + k := by
    rw [UInt32.lt_iff_toNat_lt, UInt32.toNat_add, UInt32.toNat_ofNat', UInt32.toNat_ofNat', Nat.mod_eq_of_lt hk]
    omega
  refine Prod.ext (ofNat_add _ _).symm ?_
  dsimp only
  split
  next h =>
    have hover := hcarry.mp h
    rw [show (d + k) / 2 ^ 32 = d / 2 ^ 32 + 1 by omega, ofNat_add]
    rfl
  next h =>
    have hunder : d % 2 ^ 32 + k < 2 ^ 32 := Nat.lt_of_not_le fun hle => h (hcarry.mpr hle)
    rw [show (d + k) / 2 ^ 32 = d / 2 ^ 32 by omega]

/-- What is put behind the octets in use. -/
theorem take_copyIn {ctx : MD5Context} {left n : Nat} {input : Octets} (h : left ≤ ctx.buffer.length)
    (hn : left + input.length = n) : (ctx.copyIn left input).buffer.take n = ctx.buffer.take left ++ input :=
  take_left' (by rw [length_append, length_take, Nat.min_eq_left h, hn])

/-- **Feeding more.** -/
theorem fed_update {data : Octets} (input : Octets) {ctx : MD5Context} (h : Fed data ctx)
    (hinput : input.length < 2 ^ 32) :
    Fed (data ++ input) (md5Update ctx input) := by
  have hlength : (ctx.buffer.take (data.length % 64)).length = data.length % 64 := by
    rw [h.buffer, length_remainder]
  have hused : data.length % 64 ≤ ctx.buffer.length := by
    rw [length_take] at hlength
    omega
  have hstate := absorb_append md5Process (show 0 < 64 by decide) {} data input
  have hrest := remainder_append (show 0 < 64 by decide) data input
  have htotal := total_add data.length hinput
  rw [← h.state, ← h.buffer] at hstate
  rw [← h.buffer] at hrest
  unfold md5Update
  dsimp only
  rw [h.total, toNat_and_63, htotal]
  split
  next hzero =>
    have hnil : input = [] := by
      have hlength := congrArg UInt32.toNat hzero
      rw [toNat_ofNat', Nat.mod_eq_of_lt hinput] at hlength
      exact eq_nil_of_length_eq_zero hlength
    rw [hnil, append_nil]
    exact h
  split
  next hfull =>
    obtain ⟨hleft, hfill⟩ := hfull
    have hlong : 64 ≤ (ctx.buffer.take (data.length % 64) ++ input).length := by
      rw [length_append, hlength]
      omega
    have htake : (ctx.buffer.take (data.length % 64) ++ input).take 64 =
        ctx.buffer.take (data.length % 64) ++ input.take (64 - data.length % 64) := by
      rw [take_append, hlength, take_take, Nat.min_eq_right (by omega)]
    have hdrop : (ctx.buffer.take (data.length % 64) ++ input).drop 64 = input.drop (64 - data.length % 64) := by
      rw [drop_append, hlength, drop_of_length_le (by omega), nil_append]
    have hblock (total : UInt32 × UInt32) :
        (({ ctx with total := total } : MD5Context).copyIn (data.length % 64)
          (input.take (64 - data.length % 64))).buffer.take 64 =
          ctx.buffer.take (data.length % 64) ++ input.take (64 - data.length % 64) :=
      take_copyIn hused (by rw [length_take, Nat.min_eq_left hfill]; omega)
    refine ⟨by rw [length_append]; rfl, ?_, ?_⟩
    · change (md5Blocks _ _ _).1 = _
      rw [md5Blocks_all, hstate, absorb_of_le (by decide) hlong, htake, hdrop, hblock]
      rfl
    · rw [md5Blocks_all, take_copyIn (Nat.zero_le _) ?_, take_zero, nil_append, hrest,
        remainder_of_le (by decide) hlong, hdrop]
      rw [Nat.zero_add, length_remainder, length_drop, length_append]
      omega
  next hpart =>
    -- Nothing is in use, or a block is not filled.
    rcases Nat.eq_zero_or_pos (data.length % 64) with hnone | hleft
    · rw [hnone, take_zero, nil_append] at hstate hrest
      refine ⟨by rw [length_append]; rfl, ?_, ?_⟩
      · change (md5Blocks _ _ _).1 = _
        rw [md5Blocks_all, hstate]
      · rw [md5Blocks_all, hnone, take_copyIn (Nat.zero_le _) ?_, take_zero, nil_append, hrest]
        rw [Nat.zero_add, length_remainder, length_append]
        omega
    · have hshort : data.length % 64 + input.length < 64 := by
        by_contra hge
        exact hpart ⟨hleft.ne', by omega⟩
      have hblocks (state : MD5State) : md5Blocks (input.length / 64) state input = (state, input) := by
        rw [md5Blocks_all, absorb_of_lt (by omega), remainder_of_lt (by omega)]
      have hlt : (ctx.buffer.take (data.length % 64) ++ input).length < 64 := by
        rw [length_append, hlength]
        exact hshort
      refine ⟨by rw [length_append]; rfl, ?_, ?_⟩
      · change (md5Blocks _ _ _).1 = _
        rw [hblocks, hstate, absorb_of_lt hlt]
      · rw [hblocks, hrest, remainder_of_lt hlt]
        refine take_copyIn hused ?_
        rw [length_append, ← Nat.mod_add_mod, Nat.mod_eq_of_lt hshort]

/-- What `md5_finish` puts behind the octets. -/
def md5Trailer (n : Nat) : Octets :=
  let total := (UInt32.ofNat n, UInt32.ofNat (n / 2 ^ 32))
  md5Padding.take (if n % 64 < 56 then 56 - n % 64 else 120 - n % 64) ++
    (putUInt32 (total.1 <<< 3) ++ putUInt32 (total.1 >>> 29 ||| total.2 <<< 3))

/-- The checksum of some octets, all at once. -/
def md5 (data : Octets) : Octets :=
  let state := absorb 64 md5Process {} (data ++ md5Trailer data.length)
  putUInt32 state.A ++ putUInt32 state.B ++ putUInt32 state.C ++ putUInt32 state.D

theorem length_md5 (data : Octets) : (md5 data).length = 16 := rfl

namespace MD5Summer

/-- A summer that has been fed some octets. -/
def HasFed (data : Octets) (s : MD5Summer) : Prop := Fed data s.d_context

theorem hasFed_feed {data str : Octets} {s : MD5Summer} (h : HasFed data s) (hstr : str.length < 2 ^ 32) :
    HasFed (data ++ str) (s.feed str) := by
  unfold HasFed feed
  rw [Nat.mod_eq_of_lt hstr, take_length]
  exact fed_update _ h hstr

/-- **The checksum does not depend on the pieces.** -/
theorem get_of_fed {data : Octets} {s : MD5Summer} (h : HasFed data s) : s.get = md5 data := by
  have hpadding := fed_update (md5Padding.take (if data.length % 64 < 56 then 56 - data.length % 64
    else 120 - data.length % 64)) h
    (by rw [length_take]; exact lt_of_le_of_lt (Nat.min_le_right _ _) (by decide))
  have hall := fed_update (putUInt32 (UInt32.ofNat data.length <<< 3) ++
    putUInt32 (UInt32.ofNat data.length >>> 29 ||| UInt32.ofNat (data.length / 2 ^ 32) <<< 3)) hpadding
    (show 8 < 2 ^ 32 by decide)
  unfold get md5Finish
  dsimp only
  rw [h.total, toNat_and_63, hall.state, append_assoc data]
  rfl

end MD5Summer

end PowerDNS
