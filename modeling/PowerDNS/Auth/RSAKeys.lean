import Mathlib.Data.Nat.Digits.Defs
import Mathlib.Data.Nat.Size
import PowerDNS.Auth.SigningKeys
import PowerDNS.Packet.RecordFraming

/-!
# RSA keys as octets

The key octets of a DNSKEY record for RSA begin with the length of the exponent: one octet, or a zero octet
and two more. The exponent and the modulus follow. `makeDNSKEYFromRSAKey` writes them, by way of a buffer of
256 octets into which the numbers are exported, and `getExponent` and `getModulus` find them again.

`getExpLen` counts the first of the two octets of a long length 255 times. That is right for the length 255
alone, where this octet is zero; and a number of more than 256 octets is written behind the buffer.
`rsa_fields_iff` says that these are the bounds for the round trip, and that whatever the octets of a key,
nothing is returned but a part of the key.
-/

namespace PowerDNS

open List Option UInt8 UInt16

/-! ### Numbers -/

/-- `mpi_size(X)`: the most significant bit, rounded up to octets. -/
def mpi_size (X : ℕ) : ℕ := (X.size + 7) / 8

/-- `X->p[j / ciL] >> ((j % ciL) << 3)`, as an octet. -/
def mpiOctet (X j : ℕ) : UInt8 := UInt8.ofNat (X / 256 ^ j)

/-- The octets of a number, most significant first. -/
def mpiOctets (X : ℕ) : Octets := ((List.range (mpi_size X)).map (mpiOctet X)).reverse

/-- The loop of `mpi_write_binary`, with `n` octets to go. -/
def writeOctets (X : ℕ) : (n i j : ℕ) → Octets → Octets
  | 0, _, _, buf => buf
  | n + 1, i, j, buf => writeOctets X n (i - 1) (j + 1) (buf.set i (mpiOctet X j))

/-- `mpi_write_binary(X, buf, buflen)`: `none` if octets behind the buffer are written. That `buflen` does not
suffice is an error, which leaves the buffer alone. -/
def mpi_write_binary (X : ℕ) (buf : Octets) (buflen : ℕ) : Option Octets :=
  if buflen < mpi_size X then some buf
  else if buf.length < buflen then none
  else some (writeOctets X (mpi_size X) (buflen - 1) 0 (List.replicate buflen 0 ++ buf.drop buflen))

/-- What the loop has written is at the beginning of the buffer, from the last octet to the first. -/
theorem writeOctets_eq (X n j : ℕ) (buf : Octets) (h : n ≤ buf.length) :
    writeOctets X n (n - 1) j buf = ((List.range' j n).map (mpiOctet X)).reverse ++ buf.drop n := by
  induction n generalizing j buf with
  | zero => rfl
  | succ n ih =>
    have hset : (buf.set n (mpiOctet X j)).drop n = mpiOctet X j :: buf.drop (n + 1) := by
      rw [drop_set, if_neg (by omega), Nat.sub_self, drop_eq_getElem_cons (by omega)]
      rfl
    calc writeOctets X (n + 1) n j buf
        = writeOctets X n (n - 1) (j + 1) (buf.set n (mpiOctet X j)) := rfl
      _ = ((List.range' (j + 1) n).map (mpiOctet X)).reverse ++ (mpiOctet X j :: buf.drop (n + 1)) := by
        rw [ih _ _ (by rw [length_set]; omega), hset]
      _ = _ := by simp [range'_succ]

@[simp] theorem length_mpiOctets (X : ℕ) : (mpiOctets X).length = mpi_size X := by
  simp [mpiOctets]

/-- With as many octets as the number has, they all are written, if the buffer has so many. -/
theorem write_size (X : ℕ) (buf : Octets) :
    mpi_write_binary X buf (mpi_size X) =
      if buf.length < mpi_size X then none else some (mpiOctets X ++ buf.drop (mpi_size X)) := by
  unfold mpi_write_binary
  rw [if_neg (Nat.lt_irrefl _)]
  split
  · rfl
  · rename_i hlen
    rw [writeOctets_eq _ _ _ _ (by simp), mpiOctets, range_eq_range']
    simp

theorem mpi_size_two_pow_add {n k : ℕ} (hn : 2 ≤ n) (hk : k < 4) : mpi_size (2 ^ n + k) = (n + 8) / 8 := by
  have hpow : 2 ^ 2 ≤ 2 ^ n := Nat.pow_le_pow_right (by decide) hn
  have hle : (2 ^ n + k).size ≤ n + 1 := by
    rw [Nat.size_le, Nat.pow_succ]
    omega
  have hlt : n < (2 ^ n + k).size := Nat.lt_size.mpr (Nat.le_add_right _ _)
  unfold mpi_size
  omega

/-! ### Keys -/

/-- The public part of an `rsa_context`. -/
structure RSAContext where
  E : ℕ
  N : ℕ

/-- `char tmp[256]`. -/
abbrev KeyBuffer := { tmp : Octets // tmp.length = 256 }

/-- `makeDNSKEYFromRSAKey(rc, algorithm)` with its buffer: `none` if octets behind it are written. -/
def RSAContext.makeDNSKEYFromRSAKey (tmp : KeyBuffer) (rc : RSAContext) (algorithm : UInt8) :
    Option DNSKEYContent := do
  let tmp ← mpi_write_binary rc.E tmp.val (mpi_size rc.E)
  let exponent := tmp.take (mpi_size rc.E)
  let tmp ← mpi_write_binary rc.N tmp (mpi_size rc.N)
  let modulus := tmp.take (mpi_size rc.N)
  some (PowerDNS.makeDNSKEYFromRSAKey ⟨fun _ => exponent, fun _ => modulus⟩ rc algorithm)

namespace DNSKEYContent

variable (behind : ℕ → UInt8)

/-- `decoded[i]`: a NUL follows the key, and behind it is what happens to be there. -/
def decoded (drc : DNSKEYContent) (i : ℕ) : UInt8 :=
  drc.d_key.getD i (if i = drc.d_key.length then 0 else behind i)

/-- The octets that `getExpLen` looks at. -/
def octetsRead (drc : DNSKEYContent) : List ℕ :=
  if drc.decoded behind 0 ≠ 0 then [0] else [0, 1, 2]

/-- `getExpLen(startPos, expLen)`. -/
def getExpLen (drc : DNSKEYContent) : UInt16 × UInt16 :=
  if drc.decoded behind 0 ≠ 0 then (1, (drc.decoded behind 0).toUInt16)
  else (3, UInt16.ofNat ((drc.decoded behind 1).toNat * 0xff + (drc.decoded behind 2).toNat))

/-- `getExponent()`: `none` for the exception that `substr` throws. -/
def getExponent (drc : DNSKEYContent) : Option Octets :=
  let (startPos, expLen) := drc.getExpLen behind
  if drc.d_key.length < startPos.toNat then none
  else some ((drc.d_key.drop startPos.toNat).take expLen.toNat)

/-- `getModulus()`. -/
def getModulus (drc : DNSKEYContent) : Option Octets :=
  let (startPos, expLen) := drc.getExpLen behind
  if drc.d_key.length < startPos.toNat + expLen.toNat then none
  else some (drc.d_key.drop (startPos.toNat + expLen.toNat))

/-- What is returned is a part of the key, and was found by what is in the key. -/
def StaysWithin (drc : DNSKEYContent) : Prop :=
  ∀ out, drc.getExponent behind = some out ∨ drc.getModulus behind = some out →
    out <:+: drc.d_key ∧ ∀ i ∈ drc.octetsRead behind, i < drc.d_key.length

/-! ### Within the key -/

/-- The octets that were looked at come before the position of the exponent, which is in the key. -/
theorem octetsRead_lt {drc : DNSKEYContent} (h : (drc.getExpLen behind).1.toNat ≤ drc.d_key.length) :
    ∀ i ∈ drc.octetsRead behind, i < drc.d_key.length := by
  intro i hi
  unfold getExpLen at h
  unfold octetsRead at hi
  split at h
  · rw [if_pos ‹_›] at hi
    obtain rfl := mem_singleton.mp hi
    exact h
  · rw [if_neg ‹_›] at hi
    have hthree : 3 ≤ drc.d_key.length := h
    simp only [mem_cons, not_mem_nil, or_false] at hi
    omega

theorem staysWithin (drc : DNSKEYContent) : drc.StaysWithin behind := by
  intro out hout
  unfold getExponent getModulus at hout
  rcases hout with hout | hout
  · dsimp only at hout
    split at hout
    · cases hout
    · cases hout
      exact ⟨( take_prefix _ _).isInfix.trans (drop_suffix _ _).isInfix,
        octetsRead_lt behind (by omega)⟩
  · dsimp only at hout
    split at hout
    · cases hout
    · cases hout
      exact ⟨(drop_suffix _ _).isInfix, octetsRead_lt behind (by omega)⟩

/-! ### The round trip -/

/-- A length of one octet. -/
theorem getExpLen_short {drc : DNSKEYContent} {n : UInt8} {key : Octets} (hkey : drc.d_key = n :: key)
    (hn : n ≠ 0) : drc.getExpLen behind = (1, n.toUInt16) := by
  have hdecoded : drc.decoded behind 0 = n := by rw [decoded, hkey]; rfl
  rw [getExpLen, hdecoded, if_pos hn]

/-- A length of two octets: the first one counts 255 times. -/
theorem getExpLen_long {drc : DNSKEYContent} {a b : UInt8} {key : Octets} (hkey : drc.d_key = 0 :: a :: b :: key) :
    drc.getExpLen behind = (3, UInt16.ofNat (a.toNat * 0xff + b.toNat)) := by
  have h0 : drc.decoded behind 0 = 0 := by rw [decoded, hkey]; rfl
  have h1 : drc.decoded behind 1 = a := by rw [decoded, hkey]; rfl
  have h2 : drc.decoded behind 2 = b := by rw [decoded, hkey]; rfl
  rw [getExpLen, h0, h1, h2, if_neg (by simp)]

variable {drc : DNSKEYContent} {length exponent modulus : Octets}

/-- With the right length the two parts are found. -/
theorem fields_found (hkey : drc.d_key = length ++ exponent ++ modulus)
    (hpos : (drc.getExpLen behind).1.toNat = length.length)
    (hlen : (drc.getExpLen behind).2.toNat = exponent.length) :
    drc.getExponent behind = some exponent ∧ drc.getModulus behind = some modulus := by
  constructor
  · unfold getExponent
    dsimp only
    rw [hpos, hlen, hkey, if_neg (by simp), append_assoc, drop_left, take_left]
  · unfold getModulus
    dsimp only
    rw [hpos, hlen, hkey, if_neg (by simp), ← length_append, drop_left]

/-- With a smaller length the exponent is not. -/
theorem exponent_cut (hlen : (drc.getExpLen behind).2.toNat < exponent.length) :
    drc.getExponent behind ≠ some exponent := by
  intro hexponent
  unfold getExponent at hexponent
  dsimp only at hexponent
  split at hexponent
  · cases hexponent
  · have hle := congrArg List.length (some.inj hexponent)
    rw [length_take] at hle
    omega

end DNSKEYContent

namespace RSAContext

variable (behind : ℕ → UInt8)

/-- Both numbers have to fit into the buffer. -/
theorem makeDNSKEY_eq (tmp : KeyBuffer) (rc : RSAContext) (algorithm : UInt8) :
    rc.makeDNSKEYFromRSAKey tmp algorithm =
      if mpi_size rc.E ≤ 256 ∧ mpi_size rc.N ≤ 256 then
        some (PowerDNS.makeDNSKEYFromRSAKey ⟨fun rc => mpiOctets rc.E, fun rc => mpiOctets rc.N⟩ rc algorithm)
      else none := by
  unfold makeDNSKEYFromRSAKey
  rw [write_size, tmp.property]
  by_cases hE : mpi_size rc.E ≤ 256
  · have hlen : (mpiOctets rc.E ++ tmp.val.drop (mpi_size rc.E)).length = 256 := by
      rw [length_append, length_drop, length_mpiOctets, tmp.property]
      omega
    rw [if_neg (by omega), bind_eq_bind, bind_some]
    rw [write_size, hlen]
    by_cases hN : mpi_size rc.N ≤ 256
    · rw [if_neg (by omega), if_pos ⟨hE, hN⟩, bind_some,
        take_left' (length_mpiOctets _), take_left' (length_mpiOctets _)]
      rfl
    · rw [if_pos (by omega), if_neg (fun h => hN h.2)]
      rfl
  · rw [if_pos (by omega), if_neg (fun h => hE h.1)]
    rfl

/-- The key octets are made, and the two numbers are found in them. -/
def FieldsReadBack (tmp : KeyBuffer) (algorithm : UInt8) (rc : RSAContext) : Prop :=
  ∃ drc, rc.makeDNSKEYFromRSAKey tmp algorithm = some drc ∧
    ∀ behind, drc.getExponent behind = some (mpiOctets rc.E) ∧ drc.getModulus behind = some (mpiOctets rc.N)

section

variable {K : Type} (rsa : RSALibrary K) (rc : K) (algorithm : UInt8)

/-- The short form. -/
theorem getExpLen_of_lt (hpos : 0 < (rsa.E rc).length) (hlt : (rsa.E rc).length < 255) :
    (PowerDNS.makeDNSKEYFromRSAKey rsa rc algorithm).getExpLen behind =
      (1, UInt16.ofNat (rsa.E rc).length) := by
  have hkey : (PowerDNS.makeDNSKEYFromRSAKey rsa rc algorithm).d_key =
      UInt8.ofNat (rsa.E rc).length :: (rsa.E rc ++ rsa.N rc) := by
    rw [PowerDNS.makeDNSKEYFromRSAKey, if_pos hlt]
    rfl
  have hne : UInt8.ofNat (rsa.E rc).length ≠ 0 := by
    intro h
    have hzero := congrArg UInt8.toNat h
    rw [UInt8.toNat_ofNat', Nat.mod_eq_of_lt (by omega)] at hzero
    exact Nat.ne_of_gt hpos hzero
  rw [DNSKEYContent.getExpLen_short behind hkey hne]
  congr 1
  apply UInt16.toNat_inj.mp
  rw [UInt8.toNat_toUInt16, UInt8.toNat_ofNat', UInt16.toNat_ofNat']
  omega

/-- The long form: one octet too few for each 256. -/
theorem getExpLen_of_ge (hge : 255 ≤ (rsa.E rc).length) (hlt : (rsa.E rc).length < 65536) :
    (PowerDNS.makeDNSKEYFromRSAKey rsa rc algorithm).getExpLen behind =
      (3, UInt16.ofNat ((rsa.E rc).length - (rsa.E rc).length / 256)) := by
  have hkey : (PowerDNS.makeDNSKEYFromRSAKey rsa rc algorithm).d_key =
      (0 : UInt8) :: (UInt16.ofNat (rsa.E rc).length >>> 8).toUInt8 :: (UInt16.ofNat (rsa.E rc).length).toUInt8 ::
        (rsa.E rc ++ rsa.N rc) := by
    have hlong : ¬ (rsa.E rc).length < 255 := by omega
    rw [PowerDNS.makeDNSKEYFromRSAKey, if_neg hlong]
    rfl
  rw [DNSKEYContent.getExpLen_long behind hkey]
  have hboth := be16_toNat (UInt16.ofNat (rsa.E rc).length)
  have hlow : (UInt16.ofNat (rsa.E rc).length).toUInt8.toNat < 256 := UInt8.toNat_lt _
  rw [UInt16.toNat_ofNat', Nat.mod_eq_of_lt hlt] at hboth
  congr 2
  omega

/-- With an exponent of 1 to 255 octets both parts are found in the key. -/
theorem fields_read (hpos : 0 < (rsa.E rc).length) (hle : (rsa.E rc).length ≤ 255) :
    (PowerDNS.makeDNSKEYFromRSAKey rsa rc algorithm).getExponent behind = some (rsa.E rc) ∧
      (PowerDNS.makeDNSKEYFromRSAKey rsa rc algorithm).getModulus behind = some (rsa.N rc) := by
  apply DNSKEYContent.fields_found behind rfl
  -- the length has one octet or three, and `getExpLen` knows which
  · rcases Nat.lt_or_ge (rsa.E rc).length 255 with hlt | hge
    · rw [getExpLen_of_lt behind rsa rc algorithm hpos hlt, if_pos hlt]
      rfl
    · rw [getExpLen_of_ge behind rsa rc algorithm hge (by omega), if_neg (by omega)]
      rfl
  · rcases Nat.lt_or_ge (rsa.E rc).length 255 with hlt | hge
    · rw [getExpLen_of_lt behind rsa rc algorithm hpos hlt, UInt16.toNat_ofNat']
      omega
    · rw [getExpLen_of_ge behind rsa rc algorithm hge (by omega), UInt16.toNat_ofNat']
      omega

/-- A longer exponent loses its end. -/
theorem exponent_misread (hge : 256 ≤ (rsa.E rc).length) (hlt : (rsa.E rc).length < 65536) :
    (PowerDNS.makeDNSKEYFromRSAKey rsa rc algorithm).getExponent behind ≠ some (rsa.E rc) := by
  apply DNSKEYContent.exponent_cut
  rw [getExpLen_of_ge behind rsa rc algorithm (by omega) hlt, UInt16.toNat_ofNat']
  omega

end

/-- Such a key is not read back, whatever its modulus. -/
theorem not_readBack_of_exponent {tmp : KeyBuffer} {algorithm : UInt8} {rc : RSAContext}
    (hlong : 256 ≤ mpi_size rc.E) (hmax : mpi_size rc.E ≤ 65535) : ¬ rc.FieldsReadBack tmp algorithm := by
  rintro ⟨drc, hmade, hfields⟩
  rw [makeDNSKEY_eq] at hmade
  split at hmade
  · obtain rfl := some.inj hmade
    refine exponent_misread (fun _ => 0) _ rc algorithm ?_ ?_ (hfields _).1
    · rw [length_mpiOctets]
      exact hlong
    · rw [length_mpiOctets]
      omega
  · cases hmade

/-- Nor is one that does not fit into the buffer. -/
theorem not_readBack_of_modulus {tmp : KeyBuffer} {algorithm : UInt8} {rc : RSAContext}
    (hlong : 257 ≤ mpi_size rc.N) : ¬ rc.FieldsReadBack tmp algorithm := by
  rintro ⟨drc, hmade, -⟩
  rw [makeDNSKEY_eq, if_neg (fun h => by omega)] at hmade
  cases hmade

/-- **The fields of an RSA key.** The exponent and the modulus are found in the key octets that were made of
them exactly if the exponent has at most 255 octets and the modulus at most 256; and whatever the octets of a
key, either there is an exception or a part of the key is returned. -/
theorem rsa_fields_iff (tmp : KeyBuffer) (algorithm : UInt8) (rc : RSAContext) (hE : 1 ≤ mpi_size rc.E)
    (hmax : mpi_size rc.E ≤ 65535) :
    (rc.FieldsReadBack tmp algorithm ↔ mpi_size rc.E ≤ 255 ∧ mpi_size rc.N ≤ 256) ∧
      ∀ behind (drc : DNSKEYContent), drc.StaysWithin behind := by
  refine ⟨⟨?_, ?_⟩, DNSKEYContent.staysWithin⟩
  · intro hback
    constructor
    · by_contra hlong
      exact not_readBack_of_exponent (by omega) hmax hback
    · by_contra hlong
      exact not_readBack_of_modulus (by omega) hback
  · intro ⟨hshort, hfits⟩
    have hmade := makeDNSKEY_eq tmp rc algorithm
    rw [if_pos ⟨by omega, hfits⟩] at hmade
    refine ⟨_, hmade, ?_⟩
    intro behind
    apply fields_read
    · rw [length_mpiOctets]
      exact hE
    · rw [length_mpiOctets]
      exact hshort

/-- A buffer, before anything is written to it. -/
def freshBuffer : KeyBuffer := ⟨List.replicate 256 0, length_replicate⟩

theorem fields_of_a_small_key :
    (RSAContext.FieldsReadBack freshBuffer 5 ⟨65537, 3233⟩ ↔
        mpi_size 65537 ≤ 255 ∧ mpi_size 3233 ≤ 256) ∧
      ∀ behind (drc : DNSKEYContent), drc.StaysWithin behind :=
  rsa_fields_iff freshBuffer 5 ⟨65537, 3233⟩ (by decide) (by decide)

/-- A key whose exponent has 256 octets, and one whose modulus has 257. -/
def longExponent : RSAContext := ⟨2 ^ 2047 + 1, 2 ^ 2047 + 3⟩

@[inherit_doc longExponent]
def longModulus : RSAContext := ⟨65537, 2 ^ 2055 + 3⟩

theorem mpi_size_longExponent : mpi_size longExponent.E = 256 :=
  @mpi_size_two_pow_add 2047 1 (by decide) (by decide)

theorem mpi_size_longModulus : mpi_size longModulus.N = 257 :=
  @mpi_size_two_pow_add 2055 3 (by decide) (by decide)

/-- An exponent of 256 octets is read back without its last one, and a modulus of 257 octets does not fit into
the buffer. -/
theorem long_numbers_not_read_back :
    (mpi_size longExponent.E = 256 ∧ ¬ longExponent.FieldsReadBack freshBuffer 5) ∧
      mpi_size longModulus.E = 3 ∧ ¬ longModulus.FieldsReadBack freshBuffer 5 := by
  refine ⟨⟨mpi_size_longExponent, ?_⟩, by decide, ?_⟩
  · apply not_readBack_of_exponent
    · rw [mpi_size_longExponent]
    · rw [mpi_size_longExponent]
      decide
  · apply not_readBack_of_modulus
    rw [mpi_size_longModulus]

end RSAContext

end PowerDNS
