import PowerDNS.Base.Serialize
import PowerDNS.Lib.BitFields

/-!
# Base64: `B64Decode`, `Base64Encode`

The decoder takes any four characters for three octets. Which characters there are in the alphabet it finds out by
subtraction, and each range it tries reaches further down than it should: only `:` to `@` without `=`, `{` to DEL, and
the octets from 128 to 251 are refused. Neither a short last group nor a `=` in some other place is an error.

`Base64Text` says which texts are valid, and what they stand for; `base64_iff` for which texts the decoder agrees with
that.
-/

namespace PowerDNS

open BitFields List

/-! ### The code -/

/-- `B64Decode1`; the differences are those of an `unsigned char`. -/
def B64Decode1 (cInChar : UInt8) : UInt8 :=
  if cInChar = 43 then 62
  else if cInChar = 47 then 63
  else if cInChar = 61 then 0
  else
    let iIndex := 57 - cInChar
    if 0x3f < iIndex then
      -- Not from '0' to '9'
      let iIndex := 90 - cInChar
      if 0x3f < iIndex then
        -- Not from 'A' to 'Z'
        let iIndex := 122 - cInChar
        if 0x3f < iIndex then 0x80 else ((122 - iIndex) - 97) + 26
      else (90 - iIndex) - 65
    else ((57 - iIndex) - 48) + 52

/-- `B64Encode1`. -/
def B64Encode1 (uc : UInt8) : UInt8 :=
  if uc < 26 then 65 + uc
  else if uc < 52 then 97 + (uc - 26)
  else if uc < 62 then 48 + (uc - 52)
  else if uc = 62 then 43
  else 47

/-- How `B64Decode` fails. -/
inductive B64Error
  /-- It returns -1. -/
  | invalid
  /-- `resize` throws `length_error`. -/
  | lengthError
  deriving DecidableEq

/-- A turn of the loop of `B64Decode` on up to four characters: the output, and `pad`. -/
def b64Group (chars strOutput : Octets) : Except B64Error (Octets × Nat) :=
  let decoded := (List.range 4).map fun iBitGroup => (chars[iBitGroup]?.map B64Decode1).getD 0
  if decoded.any (0x7f < ·) then .error .invalid
  else
    let cBuf := decoded.foldl (fun cBuf cChar => cBuf <<< 6 ||| cChar.toNat) 0
    .ok (strOutput ++ [UInt8.ofNat (cBuf >>> 16), UInt8.ofNat (cBuf >>> 8), UInt8.ofNat cBuf], chars.count 61)

/-- The loop of `B64Decode`. -/
def b64Loop : Octets → Octets → Nat → Except B64Error (Octets × Nat)
  | [], strOutput, pad => .ok (strOutput, pad)
  | [a], strOutput, _ => b64Group [a] strOutput
  | [a, b], strOutput, _ => b64Group [a, b] strOutput
  | [a, b, c], strOutput, _ => b64Group [a, b, c] strOutput
  | a :: b :: c :: d :: rest, strOutput, _ =>
    match b64Group [a, b, c, d] strOutput with
    | .error e => .error e
    | .ok (strOutput, pad) => b64Loop rest strOutput pad

/-- `B64Decode` of the characters there are to process. -/
def b64Process (chars strOutput : Octets) : Except B64Error Octets :=
  match b64Loop chars strOutput 0 with
  | .error e => .error e
  | .ok (strOutput, pad) =>
    if strOutput.length < pad then .error .lengthError else .ok (strOutput.take (strOutput.length - pad))

/-- The characters up to `iInSize`, which is an `int`. -/
def toProcess (strInput : Octets) : Octets := strInput.take (toInt32 strInput.length).toNat

/-- `B64Decode`: `strOutput` behind it. -/
def B64Decode (strInput strOutput : Octets) : Except B64Error Octets := b64Process (toProcess strInput) strOutput

/-- A turn of the loop of `Base64Encode` on one to three octets. -/
def base64Group (by1 by2 by3 : Nat) (rest : Nat) : Octets :=
  let by4 := by1 >>> 2
  let by5 := (by1 &&& 0x3) <<< 4 ||| by2 >>> 4
  let by6 := (by2 &&& 0xf) <<< 2 ||| by3 >>> 6
  let by7 := by3 &&& 0x3f
  [B64Encode1 (UInt8.ofNat by4), B64Encode1 (UInt8.ofNat by5),
    if 1 < rest then B64Encode1 (UInt8.ofNat by6) else 61, if 2 < rest then B64Encode1 (UInt8.ofNat by7) else 61]

/-- `Base64Encode`, of less than 2^32 octets: with more of them its `unsigned int` wraps, and the loop does not end. -/
def Base64Encode : Octets → Octets
  | [] => []
  | [a] => base64Group a.toNat 0 0 1
  | [a, b] => base64Group a.toNat b.toNat 0 2
  | a :: b :: c :: rest => base64Group a.toNat b.toNat c.toNat 3 ++ Base64Encode rest

/-! ### What texts stand for -/

/-- The place of a character in the alphabet. -/
def base64Digit (c : UInt8) : Option Nat :=
  if 65 ≤ c ∧ c ≤ 90 then some (c.toNat - 65)
  else if 97 ≤ c ∧ c ≤ 122 then some (c.toNat - 97 + 26)
  else if 48 ≤ c ∧ c ≤ 57 then some (c.toNat - 48 + 52)
  else if c = 43 then some 62
  else if c = 47 then some 63
  else none

/-- **Valid texts**, and the octets they stand for: groups of four characters of the alphabet, the last of which may
end in one or two `=`. -/
inductive Base64Text : Octets → Octets → Prop
  | empty : Base64Text [] []
  | one {a b : UInt8} {w x : Nat} (ha : base64Digit a = some w) (hb : base64Digit b = some x) :
      Base64Text [a, b, 61, 61] [UInt8.ofNat (w * 4 + x / 16)]
  | two {a b c : UInt8} {w x y : Nat} (ha : base64Digit a = some w) (hb : base64Digit b = some x)
      (hc : base64Digit c = some y) :
      Base64Text [a, b, c, 61] [UInt8.ofNat (w * 4 + x / 16), UInt8.ofNat (x % 16 * 16 + y / 4)]
  | three {a b c d : UInt8} {w x y z : Nat} {rest octets : Octets} (ha : base64Digit a = some w)
      (hb : base64Digit b = some x) (hc : base64Digit c = some y) (hd : base64Digit d = some z)
      (hrest : Base64Text rest octets) :
      Base64Text (a :: b :: c :: d :: rest) (UInt8.ofNat (w * 4 + x / 16) :: UInt8.ofNat (x % 16 * 16 + y / 4) ::
        UInt8.ofNat (y % 4 * 64 + z) :: octets)

/-- The text without its white space. -/
def stripped (text : Octets) : Octets := text.filter fun c => !isSpace c

/-- **The decoder is strict** with a text: it fails, or the text is valid but for white space, and stands for the octets
it gives. -/
def DecodedRight (text : Octets) : Prop :=
  ∀ octets, B64Decode text [] = .ok octets → Base64Text (stripped text) octets

/-- A text the decoder fails at: there is a character it refuses, or there is nothing but padding. -/
def Refused (text : Octets) : Prop := (∃ c ∈ text, 0x7f < B64Decode1 c) ∨ text = [61, 61, 61, 61]

/-! ### The alphabet -/

/-- The characters of the alphabet are decoded to their places. -/
theorem decode_digit {c : UInt8} {w : Nat} (h : base64Digit c = some w) :
    (B64Decode1 c).toNat = w ∧ w < 64 ∧ isSpace c = false ∧ c ≠ 61 := by
  have hall : ∀ n < 256, ∀ w ∈ base64Digit (UInt8.ofNat n), (B64Decode1 (UInt8.ofNat n)).toNat = w ∧ w < 64 ∧
      isSpace (UInt8.ofNat n) = false ∧ UInt8.ofNat n ≠ 61 := by decide +kernel
  have hc := hall c.toNat c.toNat_lt
  rw [UInt8.ofNat_toNat] at hc
  exact hc w h

/-- And the places are encoded as these characters. -/
theorem digit_encode {v : Nat} (h : v < 64) : base64Digit (B64Encode1 (UInt8.ofNat v)) = some v := by
  revert h
  revert v
  decide

/-! ### Groups of four characters -/

section Groups

variable {a b c d : UInt8} {w x y z pad : Nat} {rest out text octets : Octets}

/-- Four characters that are decoded to places in the alphabet. -/
theorem b64Group_places (ha : (B64Decode1 a).toNat = w ∧ w < 64) (hb : (B64Decode1 b).toNat = x ∧ x < 64)
    (hc : (B64Decode1 c).toNat = y ∧ y < 64) (hd : (B64Decode1 d).toNat = z ∧ z < 64) :
    b64Group [a, b, c, d] out = .ok (out ++ [UInt8.ofNat (w * 4 + x / 16), UInt8.ofNat (x % 16 * 16 + y / 4),
      UInt8.ofNat (y % 4 * 64 + z)], [a, b, c, d].count 61) := by
  have hsmall {c : UInt8} {v : Nat} (h : (B64Decode1 c).toNat = v ∧ v < 64) : ¬ 0x7f < B64Decode1 c := by
    rw [UInt8.lt_iff_toNat_lt, h.1]
    change ¬ 127 < v
    omega
  have hvalid : [B64Decode1 a, B64Decode1 b, B64Decode1 c, B64Decode1 d].any (0x7f < ·) = false := by
    simp only [any_cons, any_nil, decide_eq_false (hsmall ha), decide_eq_false (hsmall hb),
      decide_eq_false (hsmall hc), decide_eq_false (hsmall hd), Bool.or_false]
  have hshift (m : Nat) {n : Nat} (hn : n < 64) : m <<< 6 ||| n = m * 64 + n := by
    rw [or_eq_add 6 (by rw [Nat.shiftLeft_eq]; exact Nat.dvd_mul_left _ _) hn, Nat.shiftLeft_eq]
  have hbuf : [B64Decode1 a, B64Decode1 b, B64Decode1 c, B64Decode1 d].foldl
      (fun cBuf cChar => cBuf <<< 6 ||| cChar.toNat) 0 = ((w * 64 + x) * 64 + y) * 64 + z := by
    change (((0 <<< 6 ||| (B64Decode1 a).toNat) <<< 6 ||| (B64Decode1 b).toNat) <<< 6 ||| (B64Decode1 c).toNat) <<< 6 |||
      (B64Decode1 d).toNat = _
    rw [ha.1, hb.1, hc.1, hd.1, hshift 0 ha.2, hshift _ hb.2, hshift _ hc.2, hshift _ hd.2, Nat.zero_mul, Nat.zero_add]
  have hoctet {m n : Nat} (h : m % 256 = n) : UInt8.ofNat m = UInt8.ofNat n := by
    rw [← h]
    exact (UInt8.ofNat_mod_size).symm
  have hfour : ((List.range 4).map fun i => ([a, b, c, d][i]?.map B64Decode1).getD 0) =
      [B64Decode1 a, B64Decode1 b, B64Decode1 c, B64Decode1 d] := rfl
  unfold b64Group
  rw [hfour]
  dsimp only
  rw [hvalid, hbuf, if_neg Bool.false_ne_true, Nat.shiftRight_eq_div_pow, Nat.shiftRight_eq_div_pow]
  obtain ⟨-, hw⟩ := ha
  obtain ⟨-, hx⟩ := hb
  obtain ⟨-, hy⟩ := hc
  obtain ⟨-, hz⟩ := hd
  rw [hoctet (show (((w * 64 + x) * 64 + y) * 64 + z) / 2 ^ 16 % 256 = w * 4 + x / 16 by omega),
    hoctet (show (((w * 64 + x) * 64 + y) * 64 + z) / 2 ^ 8 % 256 = x % 16 * 16 + y / 4 by omega),
    hoctet (show (((w * 64 + x) * 64 + y) * 64 + z) % 256 = y % 4 * 64 + z by omega)]

/-- **A valid text is decoded** to what it stands for, and behind that there are as many octets as are taken away for
the padding. -/
theorem b64Loop_of_text (h : Base64Text text octets) (out : Octets) :
    ∃ filling : Octets, b64Loop text out 0 = .ok (out ++ octets ++ filling, filling.length) := by
  have hpad : (B64Decode1 61).toNat = 0 ∧ 0 < 64 := by decide
  have hplace {c : UInt8} {v : Nat} (hc : base64Digit c = some v) : (B64Decode1 c).toNat = v ∧ v < 64 :=
    ⟨(decode_digit hc).1, (decode_digit hc).2.1⟩
  have hcount {c : UInt8} {v : Nat} (hc : base64Digit c = some v) (l : Octets) : (c :: l).count 61 = l.count 61 :=
    count_cons_of_ne (decode_digit hc).2.2.2
  induction h generalizing out with
  | empty => exact ⟨[], by rw [append_nil, append_nil]; rfl⟩
  | @one a b w x ha hb =>
    refine ⟨[UInt8.ofNat (x % 16 * 16 + 0 / 4), UInt8.ofNat (0 % 4 * 64 + 0)], ?_⟩
    rw [b64Loop, b64Group_places (hplace ha) (hplace hb) hpad hpad, hcount ha, hcount hb, append_assoc]
    rfl
  | @two a b c w x y ha hb hc =>
    refine ⟨[UInt8.ofNat (y % 4 * 64 + 0)], ?_⟩
    rw [b64Loop, b64Group_places (hplace ha) (hplace hb) (hplace hc) hpad, hcount ha, hcount hb, hcount hc,
      append_assoc]
    rfl
  | three ha hb hc hd hrest ih =>
    obtain ⟨filling, hfilling⟩ := ih (out ++ [_, _, _])
    refine ⟨filling, ?_⟩
    rw [b64Loop, b64Group_places (hplace ha) (hplace hb) (hplace hc) (hplace hd), hcount ha, hcount hb, hcount hc,
      hcount hd]
    change b64Loop _ _ 0 = _
    rw [hfilling, append_assoc out]
    rfl

/-- What there is in a valid text. -/
theorem Base64Text.spec (h : Base64Text text octets) :
    4 ∣ text.length ∧ octets.length + text.count 61 = 3 * (text.length / 4) ∧ text.count 61 ≤ 2 ∧
      ∀ c ∈ text, isSpace c = false := by
  have hplain {c : UInt8} {v : Nat} (hc : base64Digit c = some v) : isSpace c = false := (decode_digit hc).2.2.1
  have hcount {c : UInt8} {v : Nat} (hc : base64Digit c = some v) (l : Octets) : (c :: l).count 61 = l.count 61 :=
    count_cons_of_ne (decode_digit hc).2.2.2
  have hpad : isSpace 61 = false := by decide
  induction h with
  | empty => exact ⟨by decide, by decide, by decide, forall_mem_nil _⟩
  | one ha hb =>
    rw [hcount ha, hcount hb, show List.count 61 ([61, 61] : Octets) = 2 by decide]
    refine ⟨Nat.dvd_refl 4, (show 1 + 2 = 3 * (4 / 4) by decide), Nat.le_refl 2, ?_⟩
    simp only [forall_mem_cons]
    exact ⟨hplain ha, hplain hb, hpad, hpad, forall_mem_nil _⟩
  | two ha hb hc =>
    rw [hcount ha, hcount hb, hcount hc, show List.count 61 ([61] : Octets) = 1 by decide]
    refine ⟨Nat.dvd_refl 4, (show 2 + 1 = 3 * (4 / 4) by decide), Nat.le_succ 1, ?_⟩
    simp only [forall_mem_cons]
    exact ⟨hplain ha, hplain hb, hplain hc, hpad, forall_mem_nil _⟩
  | three ha hb hc hd hrest ih =>
    obtain ⟨hdvd, hlength, hpads, hspace⟩ := ih
    rw [hcount ha, hcount hb, hcount hc, hcount hd]
    simp only [length_cons]
    refine ⟨by omega, by omega, hpads, ?_⟩
    simp only [forall_mem_cons]
    exact ⟨hplain ha, hplain hb, hplain hc, hplain hd, hspace⟩

/-! ### When the loop succeeds -/

/-- A group fails at a character that is refused, and else gives three octets. -/
theorem b64Group_spec (chars out : Octets) (h : chars.length ≤ 4) :
    ((∃ c ∈ chars, 0x7f < B64Decode1 c) ∧ b64Group chars out = .error .invalid) ∨
    (∀ c ∈ chars, ¬ 0x7f < B64Decode1 c) ∧
      ∃ three : Octets, three.length = 3 ∧ b64Group chars out = .ok (out ++ three, chars.count 61) := by
  -- the places behind the characters have zeros
  have hany : ((List.range 4).map fun i => (chars[i]?.map B64Decode1).getD 0).any (0x7f < ·) =
      chars.any (0x7f < B64Decode1 ·) := by
    have hrange : List.range 4 = [0, 1, 2, 3] := by decide
    rw [hrange]
    match chars, h with
    | [], _ => decide
    | [_], _ | [_, _], _ | [_, _, _], _ | [_, _, _, _], _ => simp
    | _ :: _ :: _ :: _ :: _ :: _, h =>
      simp only [length_cons] at h
      omega
  unfold b64Group
  dsimp only
  rw [hany]
  cases hrefused : chars.any (0x7f < B64Decode1 ·) with
  | true =>
    obtain ⟨c, hc, hgreat⟩ := any_eq_true.mp hrefused
    exact .inl ⟨⟨c, hc, of_decide_eq_true hgreat⟩, if_pos rfl⟩
  | false =>
    refine .inr ⟨fun c hc => ?_, _, ?_, if_neg Bool.false_ne_true⟩
    · exact of_decide_eq_false (Bool.eq_false_iff.mpr (any_eq_false.mp hrefused c hc))
    · rfl

/-- What is counted in the last group of a text. -/
def Padding (text : Octets) (pad : Nat) : Prop :=
  pad ≤ text.count 61 ∧ pad ≤ 4 ∧ (pad = 4 → text = [61, 61, 61, 61] ∨ 4 < text.length)

theorem padding_of_group (chars : Octets) (h : chars.length ≤ 4) : Padding chars (chars.count 61) := by
  refine ⟨Nat.le_refl _, Nat.le_trans count_le_length h, fun hfour => .inl ?_⟩
  have hlength : chars.length = 4 := Nat.le_antisymm h (hfour ▸ count_le_length)
  have heach : ∀ c ∈ chars, 61 = c := count_eq_length.mp (hfour.trans hlength.symm)
  exact eq_replicate_iff.mpr ⟨hlength, fun c hc => (heach c hc).symm⟩

/-- What the loop does with a text: it fails at a character that is refused, and else gives three octets for each
group. -/
def Looped (text out : Octets) (pad : Nat) (result : Except B64Error (Octets × Nat)) : Prop :=
  ((∃ c ∈ text, 0x7f < B64Decode1 c) ∧ result = .error .invalid) ∨
  (∀ c ∈ text, ¬ 0x7f < B64Decode1 c) ∧ ∃ octets pad', result = .ok (octets, pad') ∧
    octets.length = out.length + 3 * ((text.length + 3) / 4) ∧ (text = [] ∧ pad' = pad ∨ Padding text pad')

theorem looped_of_group (chars out : Octets) (pad : Nat) (h : chars.length ≤ 4) (hne : 0 < chars.length) :
    Looped chars out pad (b64Group chars out) := by
  obtain hrefused | ⟨hall, three, hthree, hgroup⟩ := b64Group_spec chars out h
  · exact .inl hrefused
  · refine .inr ⟨hall, _, _, hgroup, ?_, .inr (padding_of_group chars h)⟩
    rw [length_append, hthree]
    omega

/-- **The loop.** -/
theorem b64Loop_spec (text out : Octets) (pad : Nat) : Looped text out pad (b64Loop text out pad) := by
  fun_induction b64Loop text out pad with
  | case1 out pad => exact .inr ⟨forall_mem_nil _, out, pad, rfl, rfl, .inl ⟨rfl, rfl⟩⟩
  | case2 a out pad => exact looped_of_group [a] out pad (Nat.le_add_left 1 3) Nat.one_pos
  | case3 a b out pad => exact looped_of_group [a, b] out pad (Nat.le_add_left 2 2) Nat.two_pos
  | case4 a b c out pad => exact looped_of_group [a, b, c] out pad (Nat.le_add_left 3 1) (Nat.succ_pos 2)
  | case5 a b c d rest out pad e hgroup =>
    obtain ⟨⟨x, hx, hgreat⟩, hfails⟩ | ⟨-, three, -, hok⟩ := b64Group_spec [a, b, c, d] out (Nat.le_refl 4)
    · rw [hfails] at hgroup
      exact .inl ⟨⟨x, mem_append_left rest hx, hgreat⟩, hgroup.symm⟩
    · rw [hok] at hgroup
      cases hgroup
  | case6 a b c d rest out pad out' pad' hgroup ih =>
    obtain ⟨-, hfails⟩ | ⟨hfour, three, hthree, hok⟩ := b64Group_spec [a, b, c, d] out (Nat.le_refl 4)
    · rw [hfails] at hgroup
      cases hgroup
    · rw [hok] at hgroup
      cases hgroup
      obtain ⟨⟨x, hx, hgreat⟩, hfails⟩ | ⟨hall, octets, pad', hloop, hlength, hpad⟩ := ih
      · exact .inl ⟨⟨x, mem_append_right [a, b, c, d] hx, hgreat⟩, hfails⟩
      · refine .inr ⟨forall_mem_append.mpr ⟨hfour, hall⟩, octets, pad', hloop, ?_, .inr ?_⟩
        · rw [hlength, length_append, hthree]
          simp only [length_cons]
          omega
        · obtain ⟨rfl, rfl⟩ | ⟨hcount, hle, hlast⟩ := hpad
          · -- these four characters are the last ones
            exact padding_of_group [a, b, c, d] (Nat.le_refl 4)
          · refine ⟨Nat.le_trans hcount ?_, hle, fun hpads => .inr ?_⟩
            · exact (sublist_append_right [a, b, c, d] rest).count_le 61
            · have hrest : rest ≠ [] := by
                rintro rfl
                rw [hpads, count_nil] at hcount
                cases hcount
              have hpos := length_pos_of_ne_nil hrest
              simp only [length_cons]
              omega

/-! ### Decoding -/

theorem toProcess_small (h : text.length < 2 ^ 31) : toProcess text = text := by
  have hsize : toInt32 text.length = text.length := toInt32_of_range (by omega) (by omega)
  unfold toProcess
  rw [hsize, Int.toNat_natCast, take_length]

/-- **When the decoder fails**; else there are three octets for each group, but for the padding. -/
theorem b64Process_spec (text : Octets) :
    (Refused text ∧ ∃ e, b64Process text [] = .error e) ∨
    ¬ Refused text ∧ ∃ octets pad, b64Process text [] = .ok octets ∧
      octets.length + pad = 3 * ((text.length + 3) / 4) ∧ pad ≤ text.count 61 := by
  unfold b64Process
  obtain ⟨hrefused, hloop⟩ | ⟨hall, octets, pad, hloop, hlength, hpad⟩ := b64Loop_spec text [] 0
  · exact .inl ⟨.inl hrefused, .invalid, by rw [hloop]⟩
  rw [hloop]
  rw [length_nil, Nat.zero_add] at hlength
  by_cases hshort : octets.length < pad
  · -- a group gives three octets, so that all its four characters are padding
    refine .inl ⟨.inr ?_, .lengthError, if_pos hshort⟩
    obtain ⟨rfl, rfl⟩ | ⟨hcount, hle, hfour⟩ := hpad
    · cases hshort
    · have hpos : 0 < text.length := lt_of_lt_of_le (Nat.zero_lt_of_lt hshort) (Nat.le_trans hcount count_le_length)
      obtain hall | hlong := hfour (by omega)
      · exact hall
      · omega
  · refine .inr ⟨?_, octets.take (octets.length - pad), pad, if_neg hshort, ?_, ?_⟩
    · rintro (⟨c, hc, hgreat⟩ | rfl)
      · exact hall c hc hgreat
      · have hfour : b64Loop [61, 61, 61, 61] [] 0 = .ok ([0, 0, 0], 4) := by decide
        cases hloop
        exact hshort (by decide)
    · rw [length_take_of_le (Nat.sub_le _ _), ← hlength]
      omega
    · obtain ⟨-, rfl⟩ | ⟨hcount, -, -⟩ := hpad
      · exact Nat.zero_le _
      · exact hcount

/-- What is in a valid text is decoded. -/
theorem process_of_text (h : Base64Text text octets) : b64Process text [] = .ok octets := by
  obtain ⟨filling, hloop⟩ := b64Loop_of_text h []
  unfold b64Process
  rw [hloop]
  dsimp only
  rw [nil_append, length_append, if_neg (Nat.not_lt.mpr (Nat.le_add_left _ _)), Nat.add_sub_cancel,
    take_left]

end Groups

/-! ### Encoding -/

/-- The four characters of a group. -/
theorem base64Group_places (by1 by2 by3 n : Nat) (h2 : by2 < 256) (h3 : by3 < 256) :
    base64Group by1 by2 by3 n = [B64Encode1 (UInt8.ofNat (by1 / 4)),
      B64Encode1 (UInt8.ofNat (by1 % 4 * 16 + by2 / 16)),
      if 1 < n then B64Encode1 (UInt8.ofNat (by2 % 16 * 4 + by3 / 64)) else 61,
      if 2 < n then B64Encode1 (UInt8.ofNat (by3 % 64)) else 61] := by
  have h5 : (by1 &&& 0x3) <<< 4 ||| by2 >>> 4 = by1 % 4 * 16 + by2 / 16 := by
    rw [Nat.and_two_pow_sub_one_eq_mod by1 2, Nat.shiftLeft_eq, Nat.shiftRight_eq_div_pow]
    exact or_eq_add 4 (Nat.dvd_mul_left _ _) (by omega)
  have h6 : (by2 &&& 0xf) <<< 2 ||| by3 >>> 6 = by2 % 16 * 4 + by3 / 64 := by
    rw [Nat.and_two_pow_sub_one_eq_mod by2 4, Nat.shiftLeft_eq, Nat.shiftRight_eq_div_pow]
    exact or_eq_add 2 (Nat.dvd_mul_left _ _) (by omega)
  unfold base64Group
  rw [h5, h6, Nat.shiftRight_eq_div_pow, Nat.and_two_pow_sub_one_eq_mod by3 6]

/-- What is encoded is valid, and stands for the octets. -/
theorem base64Text_encode (octets : Octets) : Base64Text (Base64Encode octets) octets := by
  have hdigit {v : Nat} (h : v < 64) : base64Digit (B64Encode1 (UInt8.ofNat v)) = some v := digit_encode h
  have hoctet {n : Nat} {c : UInt8} (h : n = c.toNat) : UInt8.ofNat n = c := by
    rw [h, UInt8.ofNat_toNat]
  fun_induction Base64Encode octets with
  | case1 => exact .empty
  | case2 a =>
    have ha := a.toNat_lt
    rw [base64Group_places _ _ _ _ (by decide) (by decide)]
    have htext := Base64Text.one (hdigit (show a.toNat / 4 < 64 by omega))
      (hdigit (show a.toNat % 4 * 16 + 0 / 16 < 64 by omega))
    rw [hoctet (show a.toNat / 4 * 4 + (a.toNat % 4 * 16 + 0 / 16) / 16 = a.toNat by omega)] at htext
    exact htext
  | case3 a b =>
    have ha := a.toNat_lt
    have hb := b.toNat_lt
    rw [base64Group_places _ _ _ _ hb (by decide)]
    have htext := Base64Text.two (hdigit (show a.toNat / 4 < 64 by omega))
      (hdigit (show a.toNat % 4 * 16 + b.toNat / 16 < 64 by omega))
      (hdigit (show b.toNat % 16 * 4 + 0 / 64 < 64 by omega))
    rw [hoctet (show a.toNat / 4 * 4 + (a.toNat % 4 * 16 + b.toNat / 16) / 16 = a.toNat by omega),
      hoctet (show (a.toNat % 4 * 16 + b.toNat / 16) % 16 * 16 + (b.toNat % 16 * 4 + 0 / 64) / 4 = b.toNat by omega)]
      at htext
    exact htext
  | case4 a b c rest ih =>
    have ha := a.toNat_lt
    have hb := b.toNat_lt
    have hc := c.toNat_lt
    rw [base64Group_places _ _ _ _ hb hc]
    have htext := Base64Text.three (hdigit (show a.toNat / 4 < 64 by omega))
      (hdigit (show a.toNat % 4 * 16 + b.toNat / 16 < 64 by omega))
      (hdigit (show b.toNat % 16 * 4 + c.toNat / 64 < 64 by omega)) (hdigit (show c.toNat % 64 < 64 by omega)) ih
    rw [hoctet (show a.toNat / 4 * 4 + (a.toNat % 4 * 16 + b.toNat / 16) / 16 = a.toNat by omega),
      hoctet (show (a.toNat % 4 * 16 + b.toNat / 16) % 16 * 16 + (b.toNat % 16 * 4 + c.toNat / 64) / 4 = b.toNat by omega),
      hoctet (show (b.toNat % 16 * 4 + c.toNat / 64) % 4 * 64 + c.toNat % 64 = c.toNat by omega)] at htext
    exact htext

theorem length_Base64Encode (octets : Octets) : (Base64Encode octets).length = 4 * ((octets.length + 2) / 3) := by
  have hgroup (by1 by2 by3 n : Nat) : (base64Group by1 by2 by3 n).length = 4 := rfl
  fun_induction Base64Encode octets with
  | case1 => decide
  | case2 a => exact (hgroup ..).trans (show 4 = 4 * ((1 + 2) / 3) by decide)
  | case3 a b => exact (hgroup ..).trans (show 4 = 4 * ((2 + 2) / 3) by decide)
  | case4 a b c rest ih =>
    rw [length_append, hgroup, ih]
    simp only [length_cons]
    omega

/-! ### The two of them -/

section Both

variable {text octets : Octets}

/-- What there is to process of a text that is too long for an `int` is shorter than that, and ends with a group if the
text does. -/
theorem length_toProcess (text : Octets) :
    (toProcess text).length < 2 ^ 31 ∧ (4 ∣ text.length → 4 ∣ (toProcess text).length) := by
  have hsize : (toInt32 text.length).toNat < 2 ^ 31 ∧ (4 ∣ text.length → 4 ∣ (toInt32 text.length).toNat) := by
    unfold toInt32 Int.bmod
    dsimp only
    split <;> constructor <;> omega
  unfold toProcess
  rw [length_take]
  refine ⟨lt_of_le_of_lt (Nat.min_le_left _ _) hsize.1, fun hfour => ?_⟩
  obtain hmin | hmin := min_choice (toInt32 text.length).toNat text.length
  · rw [hmin]
    exact hsize.2 hfour
  · rw [hmin]
    exact hfour

/-- **Round trip**: what is encoded is decoded, up to the text of 2^31 characters. -/
theorem decode_encode_iff (x : Octets) :
    B64Decode (Base64Encode x) [] = .ok x ↔ 4 * ((x.length + 2) / 3) < 2 ^ 31 := by
  rw [← length_Base64Encode]
  constructor
  · intro hback
    have hlength := length_Base64Encode x
    obtain ⟨hprocess, hfour⟩ := length_toProcess (Base64Encode x)
    obtain ⟨-, e, herror⟩ | ⟨-, octets, pad, hok, hoctets, -⟩ := b64Process_spec (toProcess (Base64Encode x))
    · cases hback.symm.trans herror
    · cases hback.symm.trans hok
      -- there would be a group less than `x` has
      by_contra hlong
      omega
  · intro hshort
    unfold B64Decode
    rw [toProcess_small hshort]
    exact process_of_text (base64Text_encode x)

/-- White space is no padding. -/
theorem count_stripped (text : Octets) : (stripped text).count 61 = text.count 61 :=
  count_filter (by decide)

/-- What is decoded right has three octets for each group that was processed, but for two. -/
theorem DecodedRight.spec (h : DecodedRight text) :
    Refused (toProcess text) ∨ ∃ octets, B64Decode text [] = .ok octets ∧ Base64Text (stripped text) octets ∧
      octets.length ≤ 3 * (((toProcess text).length + 3) / 4) ∧
        3 * (((toProcess text).length + 3) / 4) ≤ octets.length + (stripped text).count 61 := by
  obtain ⟨hrefused, -⟩ | ⟨-, octets, pad, hok, hlength, hpad⟩ := b64Process_spec (toProcess text)
  · exact .inl hrefused
  · refine .inr ⟨octets, hok, h octets hok, ?_⟩
    have hcount : (toProcess text).count 61 ≤ text.count 61 := (take_sublist _ _).count_le 61
    rw [← hlength, count_stripped]
    exact ⟨Nat.le_add_right _ _, Nat.add_le_add_left (Nat.le_trans hpad hcount) _⟩

/-- **Strictness**: a text is decoded right when it is refused, or valid as it is. -/
theorem decodedRight_iff (h : text.length < 2 ^ 31) :
    DecodedRight text ↔ Refused text ∨ ∃ octets, Base64Text text octets := by
  have hprocess := toProcess_small h
  constructor
  · intro hright
    obtain hrefused | ⟨octets, -, hvalid, -, hlength⟩ := hright.spec
    · rw [hprocess] at hrefused
      exact .inl hrefused
    · rw [hprocess] at hlength
      obtain ⟨hgroups, hoctets, -, -⟩ := hvalid.spec
      -- with white space in it the text would have a group more than is valid
      have hsublist : (stripped text).Sublist text := filter_sublist
      have hle := hsublist.length_le
      have hsame : stripped text = text := hsublist.eq_of_length (by omega)
      rw [hsame] at hvalid
      exact .inr ⟨octets, hvalid⟩
  · unfold DecodedRight B64Decode
    rw [hprocess]
    rintro (hrefused | ⟨octets, hvalid⟩) octets' hok
    · obtain ⟨-, e, herror⟩ | ⟨hnot, -⟩ := b64Process_spec text
      · cases hok.symm.trans herror
      · exact absurd hrefused hnot
    · cases hok.symm.trans (process_of_text hvalid)
      have hplain := hvalid.spec.2.2.2
      have hsame : stripped text = text := filter_eq_self.mpr fun c hc => by rw [hplain c hc]; rfl
      rw [hsame]
      exact hvalid

/-- The first 2^31 characters of a text are all there can be of it, but for white space. -/
theorem decodedRight_long (h : DecodedRight text) : Refused (toProcess text) ∨ (stripped text).length ≤ 2 ^ 31 := by
  obtain hrefused | ⟨octets, -, hvalid, hlength, -⟩ := h.spec
  · exact .inl hrefused
  · obtain ⟨hgroups, hoctets, htwo, -⟩ := hvalid.spec
    obtain ⟨hprocess, -⟩ := length_toProcess text
    exact .inr (by omega)

end Both

/-- **Base64.** Octets come back up to the text of 2^31 characters, which is too long for an `int`. Of the texts that
are shorter the decoder is right about those which it refuses and about the valid ones without white space; of a longer
one it sees no more than the first 2^31 characters. -/
theorem base64_iff (x text : Octets) :
    (B64Decode (Base64Encode x) [] = .ok x ↔ 4 * ((x.length + 2) / 3) < 2 ^ 31) ∧
    (text.length < 2 ^ 31 → (DecodedRight text ↔ Refused text ∨ ∃ octets, Base64Text text octets)) ∧
    (DecodedRight text → Refused (toProcess text) ∨ (stripped text).length ≤ 2 ^ 31) :=
  ⟨decode_encode_iff x, fun h => decodedRight_iff h, fun h => decodedRight_long h⟩

/-- `Zg==` is `f`. -/
theorem base64_of_f : B64Decode [90, 103, 61, 61] [] = .ok [102] ∧ DecodedRight [90, 103, 61, 61] := by
  obtain ⟨hround, hstrict, -⟩ := base64_iff [102] [90, 103, 61, 61]
  have htext : Base64Text [90, 103, 61, 61] [UInt8.ofNat (25 * 4 + 32 / 16)] := .one (by decide) (by decide)
  refine ⟨?_, (hstrict (by decide)).mpr (.inr ⟨_, htext⟩)⟩
  exact hround.mpr (by decide)

/-- `Zg` without its padding is decoded to three octets, and so is `[[[[`. -/
theorem short_group_decoded : ¬ DecodedRight [90, 103] ∧ ¬ DecodedRight [91, 91, 91, 91] := by
  constructor
  · intro h
    have hvalid := h [102, 0, 0] (by decide)
    exact absurd hvalid.spec.1 (by decide)
  · intro h
    have hvalid := h [81, 69, 20] (by decide)
    have hstripped : stripped [91, 91, 91, 91] = [91, 91, 91, 91] := by decide
    rw [hstripped] at hvalid
    generalize htext : ([91, 91, 91, 91] : Octets) = text at hvalid
    generalize ([81, 69, 20] : Octets) = octets at hvalid
    cases hvalid with
    | empty => cases htext
    | one ha hb => cases htext
    | two ha hb hc => cases htext
    | three ha hb hc hd hrest =>
      cases htext
      cases ha

end PowerDNS
