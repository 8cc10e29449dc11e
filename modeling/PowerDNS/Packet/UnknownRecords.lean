import PowerDNS.Packet.Framing
import PowerDNS.Packet.RecordContent

/-!
# Unknown records

An `UnknownRecordContent` has one member, `d_record`. The constructor for a packet stores the octets of the record in
it, the one for a zone file stores the text; `getZoneRepresentation` takes it for the octets, and `toPacket` for the
text. `unknown_records` says what comes of it: a record from a packet is never written back as it was, and a record
from a zone file is written but never gives the text it was made from.
-/

namespace PowerDNS

open List

namespace UnknownRecordContent

/-! ### The code -/

/-- `UnknownRecordContent(dr, pr)`: `d_record`, and where the reader is then. -/
def ofPacket (content : Octets) (d_clen d_pos : UInt16) : Except ReadError (Octets × UInt16) :=
  readOctets content d_clen.toNat d_pos

/-- `UnknownRecordContent(zone)`: `d_record`. -/
def ofZone (zone : Octets) : Octets := zone

/-- The one or two characters that `%02x` is about. A sign and the `0x` count as such. -/
def scanHex : Octets → Option UInt8
  | [] => none
  | [a] => (hexValue a).map UInt8.ofNat
  | a :: b :: _ =>
    if a = 43 then (hexValue b).map UInt8.ofNat
    else if a = 45 then (hexValue b).map fun v => 0 - UInt8.ofNat v
    else if a = 48 ∧ (b = 120 ∨ b = 88) then none
    else (hexValue a).map fun hi =>
      match hexValue b with
      | some lo => UInt8.ofNat (16 * hi + lo)
      | none => UInt8.ofNat hi

/-- `sscanf(s, "%02x", &c)`, as far as the `char` of it; nothing when `c` is left as it was. -/
def sscanf02x (s : Octets) : Option UInt8 := scanHex (((s.takeWhile (· ≠ 0)).dropWhile isSpace).take 2)

/-- The octets that `toPacket(pw)` writes; `c` is what its uninitialised variable has in each turn of the loop. -/
def toPacket (c : Nat → UInt8) (d_record : Octets) : Except ContentError Octets :=
  let parts := stringtokOn d_record [32, 9, 10]
  if parts.length ≠ 3 ∧ ¬ (parts.length = 2 ∧ parts[1]? = some [48]) then .error .unknownFields
  else
    let relevant := parts.getD 2 []
    let total := (UInt32.ofInt (atoi (parts.getD 1 []))).toNat
    if relevant.length ≠ 2 * total % 2 ^ 32 then .error .invalidUnknown
    else .ok ((List.range total).map fun n => (sscanf02x (relevant.drop (2 * n % 2 ^ 32))).getD (c n))

/-! ### A record from a packet -/

section Packet

variable {d_record out content : Octets} {c : Nat → UInt8}

/-- There is no more in the tokens of a text than in the text. -/
theorem flatten_stringtokOnLoop (delimiters cur s : Octets) :
    (stringtokOnLoop delimiters cur s).flatten.Sublist (cur ++ s) := by
  fun_induction stringtokOnLoop delimiters cur s with
  | case1 => exact List.Sublist.refl _
  | case2 cur hcur =>
    rw [flatten_singleton, append_nil]
  | case3 x s hx ih => exact ih.cons x
  | case4 cur x s hx hcur ih =>
    exact (List.Sublist.refl cur).append (ih.cons x)
  | case5 cur x s hx ih =>
    rw [append_assoc, singleton_append] at ih
    exact ih

/-- **What is written for the octets of a record** is shorter than they are, or longer by gigabytes. -/
theorem length_toPacket (h : toPacket c d_record = .ok out) : out.length < d_record.length ∨ 2 ^ 31 ≤ out.length := by
  have htokens := (flatten_stringtokOnLoop [32, 9, 10] [] d_record).length_le
  have hne : ∀ part ∈ stringtokOn d_record [32, 9, 10], 0 < part.length := fun part hpart =>
    length_pos_of_ne_nil (mem_stringtokOn hpart).1
  change (stringtokOn d_record [32, 9, 10]).flatten.length ≤ d_record.length at htokens
  unfold toPacket at h
  dsimp only at h
  generalize stringtokOn d_record [32, 9, 10] = parts at h htokens hne
  split at h
  · cases h
  next hparts =>
  split at h
  · cases h
  next hrelevant =>
  cases h
  rw [length_map, length_range]
  generalize (UInt32.ofInt (atoi (parts.getD 1 []))).toNat = total at hrelevant ⊢
  obtain hthree | ⟨htwo, -⟩ := or_iff_not_imp_left.mpr fun h => not_not.mp fun h' => hparts ⟨h, h'⟩
  · -- the third of the tokens has two characters for each octet
    obtain ⟨first, second, third, rfl⟩ := length_eq_three.mp hthree
    have hfirst := hne first mem_cons_self
    have hthird : third.length = 2 * total % 2 ^ 32 := not_not.mp hrelevant
    simp only [flatten_cons, flatten_nil, length_append, length_nil] at htokens
    omega
  · obtain ⟨first, second, rfl⟩ := length_eq_two.mp htwo
    have hfirst := hne first mem_cons_self
    have hnone : 0 = 2 * total % 2 ^ 32 := not_not.mp hrelevant
    simp only [flatten_cons, flatten_nil, length_append, length_nil] at htokens
    omega

theorem length_readOctets {n : Nat} {d_pos : UInt16} {r : Octets × UInt16} (h : readOctets content n d_pos = .ok r) :
    r.1.length = n := by
  induction n generalizing d_pos r with
  | zero =>
    cases h
    rfl
  | succ n ih =>
    obtain ⟨x, -, h⟩ := bind_ok h
    obtain ⟨rest, hrest, h⟩ := bind_ok h
    cases h
    rw [length_cons, ih hrest]

end Packet

/-! ### A record from a zone file -/

section Zone

variable {d_record : Octets}

/-- The digits of an octet are read as this octet, whatever is behind them. -/
theorem sscanf02x_hexOctet (x : UInt8) (rest : Octets) : sscanf02x (hexOctet x ++ rest) = some x := by
  have hall : ∀ n < 256, scanHex (hexOctet (UInt8.ofNat n)) = some (UInt8.ofNat n) := by decide +kernel
  have hdigit : ∀ n < 16, hexDigit n ≠ 0 ∧ isSpace (hexDigit n) = false := by decide
  have hlt := x.toNat_lt
  have hscan := hall x.toNat hlt
  rw [UInt8.ofNat_toNat] at hscan
  obtain ⟨hhi, hspace⟩ := hdigit (x.toNat / 16) (by omega)
  obtain ⟨hlo, -⟩ := hdigit (x.toNat % 16) (by omega)
  unfold sscanf02x
  rw [← hscan]
  congr 1
  have htext : (hexOctet x ++ rest).takeWhile (· ≠ 0) =
      hexDigit (x.toNat / 16) :: hexDigit (x.toNat % 16) :: rest.takeWhile (· ≠ 0) := by
    change (hexDigit (x.toNat / 16) :: hexDigit (x.toNat % 16) :: rest).takeWhile (· ≠ 0) = _
    rw [takeWhile_cons, if_pos (decide_eq_true hhi), takeWhile_cons, if_pos (decide_eq_true hlo)]
  rw [htext, dropWhile_cons_of_neg (by rw [hspace]; exact Bool.false_ne_true)]
  rfl

theorem drop_flatMap_hexOctet (d_record : Octets) (n : Nat) :
    (d_record.flatMap hexOctet).drop (2 * n) = (d_record.drop n).flatMap hexOctet := by
  induction n generalizing d_record with
  | zero => rfl
  | succ n ih =>
    cases d_record with
    | nil => rfl
    | cons x d_record => exact ih d_record

/-- **The text of a record is written** as the octets of the record. -/
theorem toPacket_getZoneRepresentation (c : Nat → UInt8) (h : d_record.length < 2 ^ 30) :
    toPacket c (getZoneRepresentation d_record) = .ok d_record := by
  have hlength := length_flatMap_hexOctet d_record
  unfold toPacket
  rw [tokens_getZoneRepresentation]
  by_cases hempty : d_record = []
  · rw [hempty]
    rfl
  · rw [token_flatMap_hexOctet hempty, cons_append, cons_append, nil_append, if_neg (fun h => h.1 rfl)]
    simp only [getD_eq_getElem?_getD, getElem?_cons_succ, getElem?_cons_zero, Option.getD_some]
    rw [ofInt_atoi_decimal (by omega), ← hlength, Nat.mod_eq_of_lt (by omega), if_neg (not_not.mpr rfl)]
    congr 1
    refine ext_getElem (by rw [length_map, length_range]) fun n hn hn' => ?_
    rw [getElem_map, getElem_range, Nat.mod_eq_of_lt (by omega), drop_flatMap_hexOctet,
      drop_eq_getElem_cons hn', flatMap_cons, sscanf02x_hexOctet, Option.getD_some]

/-- A text is longer than what it is about. -/
theorem length_lt_getZoneRepresentation (d_record : Octets) :
    d_record.length < (getZoneRepresentation d_record).length := by
  unfold getZoneRepresentation
  rw [length_append, length_flatMap_hexOctet, length_append, length_singleton]
  omega

end Zone

end UnknownRecordContent

open UnknownRecordContent

/-- **Unknown records.** For every record that is read from a packet, what `toPacket` writes is not the octets of the
record; and its text makes a content that is written as these octets, but whose text is another one. -/
theorem unknown_records {content d_record : Octets} {d_clen d_pos d_pos' : UInt16}
    (h : ofPacket content d_clen d_pos = .ok (d_record, d_pos')) (c : Nat → UInt8) :
    toPacket c d_record ≠ .ok d_record ∧
    toPacket c (ofZone (getZoneRepresentation d_record)) = .ok d_record ∧
    getZoneRepresentation (ofZone (getZoneRepresentation d_record)) ≠ getZoneRepresentation d_record := by
  have hlength : d_record.length < 2 ^ 16 := by
    rw [length_readOctets h]
    exact d_clen.toNat_lt
  refine ⟨fun hsame => ?_, toPacket_getZoneRepresentation c (by omega), fun hsame => ?_⟩
  · have hwritten := length_toPacket hsame
    omega
  · have hlonger := length_lt_getZoneRepresentation (ofZone (getZoneRepresentation d_record))
    rw [hsame] at hlonger
    exact lt_irrefl _ hlonger

/-- One octet. -/
theorem unknown_records_one :
    toPacket (fun _ => 0) [7] ≠ .ok [7] ∧
    toPacket (fun _ => 0) (ofZone (getZoneRepresentation [7])) = .ok [7] ∧
    getZoneRepresentation (ofZone (getZoneRepresentation [7])) ≠ getZoneRepresentation [7] :=
  @unknown_records [7] [7] 1 0 1 (by decide) _

/-- A record of one octet is not written: its octet is taken for a text. -/
theorem octet_not_written : ofPacket [7] 1 0 = .ok ([7], 1) ∧ toPacket (fun _ => 0) [7] = .error .unknownFields := by
  decide

end PowerDNS
