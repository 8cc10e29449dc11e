import PowerDNS.Base.Serialize
import PowerDNS.Names.Reverse
import PowerDNS.Packet.MOADNSParser
import PowerDNS.Packet.NameText

/-!
# Record contents as texts

A number is written in decimal by `RecordTextWriter`, and `RecordTextReader` reads it up to what is behind it
(`xfr32BitInt_decimal`). A type without a class of its own is an `UnknownRecordContent`: its octets are written in
hexadecimal, and a text is kept as it is until it is put into a packet.
-/

namespace PowerDNS

open List

/-- What makes a record content impossible to read or to write. -/
inductive ContentError
  /-- What reading the text comes to. -/
  | text (e : TextError)
  /-- "expected digits at position". -/
  | expectedDigits
  /-- "Overflow reading 16 bit integer from record content". -/
  | overflow
  /-- "Unknown record was stored incorrectly, need 3 fields". -/
  | unknownFields
  /-- "invalid unknown record". -/
  | invalidUnknown
  /-- The writer throws: "tried to write an overly large label". -/
  | overlyLargeLabel
  /-- "Unable to convert presentation address". -/
  | address
  /-- What reading the packet comes to. -/
  | read (e : ReadError)
  deriving DecidableEq

/-! ### Numbers -/

/-- `xfr32BitInt(val)` and `xfr16BitInt(val)` of the writer. -/
def RecordTextWriter.xfr32BitInt (d_string : Octets) (val : Nat) : Octets :=
  (if d_string = [] then [] else d_string ++ [32]) ++ decimal val

namespace RecordTextReader

/-- `xfr32BitInt(val)`, with what is left of the text. -/
def xfr32BitInt (d_string : Octets) : Except ContentError (Nat × Octets) :=
  match skipSpaces d_string with
  | .error e => .error (.text e)
  | .ok rest =>
    if rest.head?.any isDigit then
      -- `strtoul` stops at 64 bits, and what it returns is cut down to 32
      .ok (min (readDigits 0 rest) (2 ^ 64 - 1) % 2 ^ 32, rest.dropWhile isDigit)
    else .error .expectedDigits

/-- `xfr16BitInt(val)`. -/
def xfr16BitInt (d_string : Octets) : Except ContentError (Nat × Octets) :=
  match xfr32BitInt d_string with
  | .error e => .error e
  | .ok (tmp, rest) => if tmp % 2 ^ 16 ≠ tmp then .error .overflow else .ok (tmp, rest)

end RecordTextReader

/-! ### Unknown contents -/

/-- A digit of `%02x`. -/
def hexDigit (n : Nat) : UInt8 := UInt8.ofNat (if n < 10 then 48 + n else 87 + n)

/-- `%02x`. -/
def hexOctet (c : UInt8) : Octets := [hexDigit (c.toNat / 16), hexDigit (c.toNat % 16)]

/-- The number a hexadecimal digit stands for. -/
def hexValue (c : UInt8) : Option Nat :=
  if 48 ≤ c ∧ c ≤ 57 then some (c.toNat - 48)
  else if 97 ≤ c ∧ c ≤ 102 then some (c.toNat - 87)
  else if 65 ≤ c ∧ c ≤ 70 then some (c.toNat - 55)
  else none

/-- The loop of `sscanf` over pairs of digits. On an octet that is no digit `sscanf` would leave `c` as it
was. -/
def hexOctets : Octets → Option Octets
  | a :: b :: rest => do
    let hi ← hexValue a
    let lo ← hexValue b
    let out ← hexOctets rest
    pure (UInt8.ofNat (16 * hi + lo) :: out)
  | _ => some []

namespace UnknownRecordContent

/-- `getZoneRepresentation()`. -/
def getZoneRepresentation (d_record : Octets) : Octets :=
  [backslash, 35, 32] ++ decimal d_record.length ++ [32] ++ d_record.flatMap hexOctet

/-- The octets that `toPacket(pw)` writes for a content made from a text. -/
def rdata (d_record : Octets) : Except ContentError Octets :=
  let parts := stringtokOn d_record [32, 9, 10]
  if parts.length ≠ 3 ∧ ¬ (parts.length = 2 ∧ parts[1]? = some [48]) then .error .unknownFields
  else
    let relevant := parts.getD 2 []
    let total := (UInt32.ofInt (atoi (parts.getD 1 []))).toNat
    if relevant.length ≠ 2 * total % 2 ^ 32 then .error .invalidUnknown
    else
      match hexOctets (relevant.take (2 * total)) with
      | none => .error .invalidUnknown
      | some out => .ok out

end UnknownRecordContent

/-! ### A text gives back its number -/

section Text

variable {d_string behind : Octets}

/-- A number is read up to what is behind it. -/
theorem xfr32BitInt_decimal {n : Nat} (hn : n < 2 ^ 32) (d_string : Octets)
    (hbehind : behind = [] ∨ behind.head? = some 32) :
    RecordTextReader.xfr32BitInt ((RecordTextWriter.xfr32BitInt d_string n).drop d_string.length ++ behind) =
      .ok (n, behind) := by
  have hdigits := decimal_digits n
  have hblank : 32 ∉ decimal n := fun h => absurd (hdigits 32 h).1 (by decide)
  have hwritten : RecordTextWriter.xfr32BitInt d_string n = RecordTextWriter.xfrLabel d_string (decimal n) := by
    unfold RecordTextWriter.xfrLabel
    rw [if_pos hblank]
    rfl
  obtain ⟨c, t, hcons⟩ := exists_cons_of_ne_nil (decimal_ne_nil n)
  have hc : 48 ≤ c ∧ c ≤ 57 := hdigits c (hcons ▸ mem_cons_self)
  have hskip : RecordTextReader.skipSpaces (decimal n ++ behind) = .ok (decimal n ++ behind) := by
    rw [hcons]
    refine skipSpaces_of_head ?_
    unfold dnsIsspace
    grind
  have hread : readDigits 0 (decimal n ++ behind) = n := by
    cases behind with
    | nil => rw [append_nil, readDigits_decimal]
    | cons b behind =>
      obtain rfl : b = 32 := Option.some.inj (hbehind.resolve_left (cons_ne_nil _ _))
      rw [readDigits_append (by decide), readDigits_decimal]
  have hrest : (decimal n ++ behind).dropWhile isDigit = behind := by
    rw [dropWhile_append_of_pos fun c hc => isDigit_iff.mpr (hdigits c hc)]
    cases behind with
    | nil => rfl
    | cons b behind =>
      obtain rfl : b = 32 := Option.some.inj (hbehind.resolve_left (cons_ne_nil _ _))
      rfl
  unfold RecordTextReader.xfr32BitInt
  rw [hwritten, drop_xfrLabel hblank, hskip]
  dsimp only
  rw [if_pos, hread, hrest, Nat.min_eq_left (by omega), Nat.mod_eq_of_lt hn]
  rw [hcons]
  exact isDigit_iff.mpr hc

end Text

/-! ### An unknown content gives back its octets -/

theorem hexValue_hexDigit {n : Nat} (hn : n < 16) : hexValue (hexDigit n) = some n := by
  interval_cases n <;> decide

theorem hexOctets_flatMap (d_record : Octets) : hexOctets (d_record.flatMap hexOctet) = some d_record := by
  induction d_record with
  | nil => rfl
  | cons c d_record ih =>
    have hlt := c.toNat_lt
    change hexOctets (hexDigit (c.toNat / 16) :: hexDigit (c.toNat % 16) :: d_record.flatMap hexOctet) = _
    rw [hexOctets, hexValue_hexDigit (by omega), hexValue_hexDigit (by omega), ih]
    change some (UInt8.ofNat (16 * (c.toNat / 16) + c.toNat % 16) :: d_record) = _
    rw [Nat.div_add_mod, UInt8.ofNat_toNat]

theorem length_flatMap_hexOctet (d_record : Octets) :
    (d_record.flatMap hexOctet).length = 2 * d_record.length := by
  induction d_record with
  | nil => rfl
  | cons c d_record ih =>
    change (d_record.flatMap hexOctet).length + 2 = _
    rw [ih, length_cons]
    omega

theorem hexDigit_graph (n : Nat) (hn : n < 16) : hexDigit n ∉ [(32 : UInt8), 9, 10] := by
  interval_cases n <;> decide

theorem hexOctet_graph {c : UInt8} {d_record : Octets} (h : c ∈ d_record.flatMap hexOctet) :
    c ∉ [(32 : UInt8), 9, 10] := by
  obtain ⟨d, -, hd⟩ := mem_flatMap.mp h
  have hlt := d.toNat_lt
  rcases mem_pair.mp hd with rfl | rfl
  · exact hexDigit_graph _ (by omega)
  · exact hexDigit_graph _ (by omega)

theorem ofInt_atoi_decimal {n : Nat} (hn : n < 2 ^ 31) : (UInt32.ofInt (atoi (decimal n))).toNat = n := by
  have hof := ofInt_atoi_ttl (UInt32.ofNat n)
  rw [UInt32.toNat_ofNat', Nat.mod_eq_of_lt (by omega)] at hof
  rw [hof, UInt32.toNat_ofNat', Nat.mod_eq_of_lt (by omega)]

/-- The fields of the text of an unknown content; there is no third one for no octets. -/
theorem tokens_getZoneRepresentation (d_record : Octets) :
    stringtokOn (UnknownRecordContent.getZoneRepresentation d_record) [32, 9, 10] =
      [[backslash, 35], decimal d_record.length] ++ stringtokOn (d_record.flatMap hexOctet) [32, 9, 10] := by
  have hhash : ∀ c ∈ [backslash, 35], c ∉ [(32 : UInt8), 9, 10] :=
    forall_mem_cons.mpr ⟨by decide, forall_mem_singleton.mpr (by decide)⟩
  have hnumber : ∀ c ∈ decimal d_record.length, c ∉ [(32 : UInt8), 9, 10] := by
    intro c hc hmem
    have hdigit := decimal_digits _ c hc
    simp only [mem_cons, not_mem_nil, or_false] at hmem
    rcases hmem with rfl | rfl | rfl <;> exact absurd hdigit.1 (by decide)
  have hsplit : UnknownRecordContent.getZoneRepresentation d_record =
      [backslash, 35] ++ 32 :: (decimal d_record.length ++ 32 :: d_record.flatMap hexOctet) := by
    unfold UnknownRecordContent.getZoneRepresentation
    simp only [append_assoc, cons_append, nil_append]
  rw [hsplit, stringtokOn_append (by decide), stringtokOn_append (by decide),
    stringtokOn_token hhash (cons_ne_nil _ _), stringtokOn_token hnumber (decimal_ne_nil _)]
  rfl

theorem token_flatMap_hexOctet {d_record : Octets} (h : d_record ≠ []) :
    stringtokOn (d_record.flatMap hexOctet) [32, 9, 10] = [d_record.flatMap hexOctet] := by
  refine stringtokOn_token (fun c hc => hexOctet_graph hc) fun hnil => ?_
  have hlength := length_flatMap_hexOctet d_record
  rw [hnil] at hlength
  exact h (eq_nil_of_length_eq_zero (by simpa using hlength.symm))

end PowerDNS
