import PowerDNS.Auth.FieldTexts
import PowerDNS.Packet.RawFields

/-!
# The texts of the DNSSEC records

A DS, DNSKEY, RRSIG, NSEC, NSEC3 or NSEC3PARAM record is read from a packet, written as a text by
`getZoneRepresentation`, and read from the text by the constructor of its class. `secure_texts_iff` says which records
come back with the rdata they had.

A record is lost when a field of it is empty, when it has a type without a name, a hash that is no multiple of five
octets long, or a name with white space in it. The others come back as they were, and are written as they stood in the
packet when nothing of that was more than one way to write it: no name ended in a pointer, the bitmap did not end in
zeros, and the length of the salt of an NSEC3PARAM was that of the salt.
-/

namespace PowerDNS

open CompressedName OrderedUnique List Option UInt8 UInt16

/-! ### The code -/

/-- The data of a DNSSEC record. -/
inductive SecureContent
  | DS (content : DSContent)
  | DNSKEY (drc : DNSKEYContent)
  | RRSIG (rrc : RRSIGContent)
  | NSEC (content : NSECContent)
  | NSEC3 (content : NSEC3Content)
  | NSEC3PARAM (content : NSEC3PARAMContent)

namespace SecureContent

/-- The content as one of all classes. -/
def content : SecureContent → RecordContent
  | DS content => .DS content
  | DNSKEY drc => .DNSKEY drc
  | RRSIG rrc => .RRSIG rrc
  | NSEC content => .NSEC content
  | NSEC3 content => .NSEC3 content
  | NSEC3PARAM content => .NSEC3PARAM content

end SecureContent

section Packets

/-! `xfrPacket` and `make` with a `PacketReader`: the members, from what was read for the fields. The `d_saltlength`
of an NSEC3PARAM is not used any more. -/

def DSContent.ofPacket : List FieldValue → Option DSContent
  | [.int d_tag, .int d_algorithm, .int d_digesttype, .octets d_digest] =>
    some ⟨UInt16.ofNat d_tag, UInt8.ofNat d_algorithm, UInt8.ofNat d_digesttype, d_digest⟩
  | _ => none

def DNSKEYContent.ofPacket : List FieldValue → Option DNSKEYContent
  | [.int d_flags, .int d_protocol, .int d_algorithm, .octets d_key] =>
    some ⟨UInt16.ofNat d_flags, UInt8.ofNat d_protocol, UInt8.ofNat d_algorithm, d_key⟩
  | _ => none

def RRSIGContent.ofPacket : List FieldValue → Option RRSIGContent
  | [.int d_type, .int d_algorithm, .int d_labels, .int d_originalttl, .int d_sigexpire, .int d_siginception,
      .int d_tag, .octets d_signer, .octets d_signature] =>
    some ⟨UInt16.ofNat d_type, UInt8.ofNat d_algorithm, UInt8.ofNat d_labels, UInt32.ofNat d_originalttl,
      UInt32.ofNat d_sigexpire, UInt32.ofNat d_siginception, UInt16.ofNat d_tag, d_signer, d_signature⟩
  | _ => none

def NSECContent.ofPacket : List FieldValue → Option NSECContent
  | [.octets d_next, .octets bitmap] => (NSECTypes bitmap).toOption.map fun d_set => ⟨d_next, d_set.items⟩
  | _ => none

def NSEC3Content.ofPacket : List FieldValue → Option NSEC3Content
  | [.int d_algorithm, .int d_flags, .int d_iterations, .octets d_salt, .octets d_nexthash, .octets bitmap] =>
    (NSEC3Types bitmap).toOption.map fun d_set =>
      ⟨UInt8.ofNat d_algorithm, UInt8.ofNat d_flags, UInt16.ofNat d_iterations, d_salt, d_nexthash, d_set.items⟩
  | _ => none

def NSEC3PARAMContent.ofPacket : List FieldValue → Option NSEC3PARAMContent
  | [.int d_algorithm, .int d_flags, .int d_iterations, .int _, .octets d_salt] =>
    some ⟨UInt8.ofNat d_algorithm, UInt8.ofNat d_flags, UInt16.ofNat d_iterations, d_salt⟩
  | _ => none

/-- The record of a class that has read these values from a packet. -/
def SecureContent.ofPacket (d_type : UInt16) (values : List FieldValue) : Option SecureContent :=
  if d_type = QType.DS then (DSContent.ofPacket values).map .DS
  else if d_type = QType.DNSKEY then (DNSKEYContent.ofPacket values).map .DNSKEY
  else if d_type = QType.RRSIG then (RRSIGContent.ofPacket values).map .RRSIG
  else if d_type = QType.NSEC then (NSECContent.ofPacket values).map .NSEC
  else if d_type = QType.NSEC3 then (NSEC3Content.ofPacket values).map .NSEC3
  else if d_type = QType.NSEC3PARAM then (NSEC3PARAMContent.ofPacket values).map .NSEC3PARAM
  else none

end Packets

section Texts

open RecordTextWriter

variable (namemap : Namemap) (memory : Nat → UInt8)

/-! `getZoneRepresentation`. `memory` is what the memory has behind a hash. -/

def DSContent.getZoneRepresentation (content : DSContent) : Octets :=
  let ret := RecordTextWriter.xfr32BitInt [] content.d_tag.toNat
  let ret := RecordTextWriter.xfr32BitInt ret content.d_algorithm.toNat
  let ret := RecordTextWriter.xfr32BitInt ret content.d_digesttype.toNat
  RecordTextWriter.xfrHexBlob ret content.d_digest

def DNSKEYContent.getZoneRepresentation (drc : DNSKEYContent) : Octets :=
  let ret := RecordTextWriter.xfr32BitInt [] drc.d_flags.toNat
  let ret := RecordTextWriter.xfr32BitInt ret drc.d_protocol.toNat
  let ret := RecordTextWriter.xfr32BitInt ret drc.d_algorithm.toNat
  RecordTextWriter.xfrBlob ret drc.d_key

def RRSIGContent.getZoneRepresentation (rrc : RRSIGContent) : Octets :=
  let ret := RecordTextWriter.xfrType namemap [] rrc.d_type
  let ret := RecordTextWriter.xfr32BitInt ret rrc.d_algorithm.toNat
  let ret := RecordTextWriter.xfr32BitInt ret rrc.d_labels.toNat
  let ret := RecordTextWriter.xfr32BitInt ret rrc.d_originalttl.toNat
  let ret := RecordTextWriter.xfrTime ret rrc.d_sigexpire
  let ret := RecordTextWriter.xfrTime ret rrc.d_siginception
  let ret := RecordTextWriter.xfr32BitInt ret rrc.d_tag.toNat
  let ret := RecordTextWriter.xfrLabel ret rrc.d_signer
  RecordTextWriter.xfrBlob ret rrc.d_signature

def NSECContent.getZoneRepresentation (content : NSECContent) : Octets :=
  RecordTextWriter.xfrLabel [] content.d_next ++ typesText namemap content.d_set

def NSEC3Content.getZoneRepresentation (content : NSEC3Content) : Octets :=
  let ret := RecordTextWriter.xfr32BitInt [] content.d_algorithm.toNat
  let ret := RecordTextWriter.xfr32BitInt ret content.d_flags.toNat
  let ret := RecordTextWriter.xfr32BitInt ret content.d_iterations.toNat
  let ret := RecordTextWriter.xfrHexBlob ret content.d_salt
  let ret := RecordTextWriter.xfrBase32HexBlob memory ret content.d_nexthash
  ret ++ typesText namemap content.d_set

def NSEC3PARAMContent.getZoneRepresentation (content : NSEC3PARAMContent) : Octets :=
  let ret := RecordTextWriter.xfr32BitInt [] content.d_algorithm.toNat
  let ret := RecordTextWriter.xfr32BitInt ret content.d_flags.toNat
  let ret := RecordTextWriter.xfr32BitInt ret content.d_iterations.toNat
  RecordTextWriter.xfrHexBlob ret content.d_salt

def SecureContent.getZoneRepresentation : SecureContent → Octets
  | DS content => content.getZoneRepresentation
  | DNSKEY drc => drc.getZoneRepresentation
  | RRSIG rrc => rrc.getZoneRepresentation namemap
  | NSEC content => content.getZoneRepresentation namemap
  | NSEC3 content => content.getZoneRepresentation namemap memory
  | NSEC3PARAM content => content.getZoneRepresentation

end Texts

section Constructors

variable (namemap : Namemap)

/-! The constructors from a text; nothing stands for what they throw. -/

def DSContent.ofZone (zoneData : Octets) : Option DSContent := do
  let d_tag ← (RecordTextReader.xfr16BitInt zoneData).toOption
  let d_algorithm ← RecordTextReader.xfr8BitInt d_tag.2
  let d_digesttype ← RecordTextReader.xfr8BitInt d_algorithm.2
  let d_digest ← RecordTextReader.xfrHexBlob d_digesttype.2
  some ⟨UInt16.ofNat d_tag.1, UInt8.ofNat d_algorithm.1, UInt8.ofNat d_digesttype.1, d_digest.1⟩

def DNSKEYContent.ofZone (zoneData : Octets) : Option DNSKEYContent := do
  let d_flags ← (RecordTextReader.xfr16BitInt zoneData).toOption
  let d_protocol ← RecordTextReader.xfr8BitInt d_flags.2
  let d_algorithm ← RecordTextReader.xfr8BitInt d_protocol.2
  let d_key ← RecordTextReader.xfrBlob d_algorithm.2
  some ⟨UInt16.ofNat d_flags.1, UInt8.ofNat d_protocol.1, UInt8.ofNat d_algorithm.1, d_key.1⟩

/-- What `timegm` makes of a time that it has no month for is not determined; nothing stands for that too. -/
def RRSIGContent.ofZone (zoneData : Octets) : Option RRSIGContent := do
  let d_type ← RecordTextReader.xfrType namemap zoneData
  let d_algorithm ← RecordTextReader.xfr8BitInt d_type.2
  let d_labels ← RecordTextReader.xfr8BitInt d_algorithm.2
  let d_originalttl ← (RecordTextReader.xfr32BitInt d_labels.2).toOption
  let sigexpire ← (RecordTextReader.xfrTime [] d_originalttl.2).toOption
  let d_sigexpire ← sigexpire.1
  let siginception ← (RecordTextReader.xfrTime [] sigexpire.2).toOption
  let d_siginception ← siginception.1
  let d_tag ← (RecordTextReader.xfr16BitInt siginception.2).toOption
  let d_signer ← (RecordTextReader.xfrLabel [] d_tag.2).toOption
  let d_signature ← RecordTextReader.xfrBlob d_signer.2
  some ⟨d_type.1, UInt8.ofNat d_algorithm.1, UInt8.ofNat d_labels.1, UInt32.ofNat d_originalttl.1, d_sigexpire,
    d_siginception, UInt16.ofNat d_tag.1, d_signer.1, d_signature.1⟩

def NSECContent.ofZone (content : Octets) : Option NSECContent := do
  let d_next ← (RecordTextReader.xfrLabel [] content).toOption
  let d_set ← RecordTextReader.types namemap d_next.2
  some ⟨d_next.1, d_set.items⟩

def NSEC3Content.ofZone (content : Octets) : Option NSEC3Content := do
  let d_algorithm ← RecordTextReader.xfr8BitInt content
  let d_flags ← RecordTextReader.xfr8BitInt d_algorithm.2
  let d_iterations ← (RecordTextReader.xfr16BitInt d_flags.2).toOption
  let d_salt ← RecordTextReader.xfrHexBlob d_iterations.2
  let d_nexthash ← RecordTextReader.xfrBase32HexBlob d_salt.2
  let d_set ← RecordTextReader.types namemap d_nexthash.2
  some ⟨UInt8.ofNat d_algorithm.1, UInt8.ofNat d_flags.1, UInt16.ofNat d_iterations.1, d_salt.1, d_nexthash.1,
    d_set.items⟩

def NSEC3PARAMContent.ofZone (content : Octets) : Option NSEC3PARAMContent := do
  let d_algorithm ← RecordTextReader.xfr8BitInt content
  let d_flags ← RecordTextReader.xfr8BitInt d_algorithm.2
  let d_iterations ← (RecordTextReader.xfr16BitInt d_flags.2).toOption
  let d_salt ← RecordTextReader.xfrHexBlob d_iterations.2
  some ⟨UInt8.ofNat d_algorithm.1, UInt8.ofNat d_flags.1, UInt16.ofNat d_iterations.1, d_salt.1⟩

/-- The record of the same class that is made from a text. -/
def SecureContent.ofZone (zoneData : Octets) : SecureContent → Option SecureContent
  | DS _ => (DSContent.ofZone zoneData).map .DS
  | DNSKEY _ => (DNSKEYContent.ofZone zoneData).map .DNSKEY
  | RRSIG _ => (RRSIGContent.ofZone namemap zoneData).map .RRSIG
  | NSEC _ => (NSECContent.ofZone namemap zoneData).map .NSEC
  | NSEC3 _ => (NSEC3Content.ofZone namemap zoneData).map .NSEC3
  | NSEC3PARAM _ => (NSEC3PARAMContent.ofZone zoneData).map .NSEC3PARAM

end Constructors

/-! ### What survives -/

/-- The labels of a name in a packet, when it is one field of a text. -/
structure PlainName (ls : List Octets) : Prop where
  labels : ∀ l ∈ ls, l ≠ [] ∧ l.length ≤ 191
  field : OneField ls

/-- **Records that survive.** What has to be of a record with these rdata for its text to be as good. -/
def SurvivesZone (namemap : Namemap) (rdata : Octets) : SecureContent → Prop
  | .DS content => content.d_digest ≠ []
  | .DNSKEY drc => drc.d_key ≠ []
  | .RRSIG rrc =>
    namemap.Registered rrc.d_type ∧ rrc.d_signature ≠ [] ∧
      ∃ ls, PlainName ls ∧ rdata.drop 18 = wireLabels ls ++ rrc.d_signature
  | .NSEC content =>
    (∀ type ∈ content.d_set, namemap.Registered type) ∧
      ∃ ls bitmap, PlainName ls ∧ PlainBitmap bitmap ∧ rdata = wireLabels ls ++ bitmap
  | .NSEC3 content =>
    content.d_salt ≠ [] ∧ content.d_nexthash ≠ [] ∧ 5 ∣ content.d_nexthash.length ∧
      (∀ type ∈ content.d_set, namemap.Registered type) ∧
      PlainBitmap (rdata.drop (6 + content.d_salt.length + content.d_nexthash.length))
  | .NSEC3PARAM content => content.d_salt ≠ [] ∧ rdata[4]? = some (UInt8.ofNat content.d_salt.length)

/-- **A record comes back** from its text, with these rdata. -/
def SecureContent.ComesBack (namemap : Namemap) (memory : Nat → UInt8) (record : SecureContent) (rdata : Octets) :
    Prop :=
  ∃ record', record.ofZone namemap (record.getZoneRepresentation namemap memory) = some record' ∧
    record'.content.serialize [] true = some rdata

/-! ### Reading the texts -/

section Reading

variable {namemap : Namemap} {memory : Nat → UInt8}

/-- Nothing is read where nothing is left. -/
theorem read_end : RecordTextReader.xfrHexBlob [32] = none ∧ RecordTextReader.xfrBlob [32] = none := ⟨rfl, rfl⟩

theorem DSContent.text (content : DSContent) : content.getZoneRepresentation =
    decimal content.d_tag.toNat ++ 32 :: (decimal content.d_algorithm.toNat ++ 32 ::
      (decimal content.d_digesttype.toNat ++ 32 :: content.d_digest.flatMap hexOctet)) := by
  unfold getZoneRepresentation RecordTextWriter.xfr32BitInt RecordTextWriter.xfrHexBlob
  simp only [if_true, nil_append, append_eq_nil_iff, decimal_ne_nil, false_and, if_false, append_assoc,
    cons_append]

/-- Hexadecimal digits at the end of a text. -/
theorem read_hex (val : Octets) :
    RecordTextReader.xfrHexBlob (32 :: val.flatMap hexOctet) = if val = [] then none else some (val, []) := by
  split
  next hempty =>
    rw [hempty]
    exact read_end.1
  next hne =>
    have hback := read_xfrHexBlob hne (.inl rfl)
    rw [append_nil] at hback
    rw [xfrHexBlob_blank, hback]

/-- A DS record, from its text. -/
theorem DSContent.ofZone_text (content : DSContent) :
    DSContent.ofZone content.getZoneRepresentation = if content.d_digest = [] then none else some content := by
  unfold DSContent.ofZone
  rw [content.text]
  simp only [read_first16, read_8, read_hex, Except.toOption, Option.bind_eq_bind, Option.bind_some]
  split
  · rfl
  · simp only [Option.bind_some, UInt8.ofNat_toNat, UInt16.ofNat_toNat]

theorem DNSKEYContent.text (drc : DNSKEYContent) : drc.getZoneRepresentation =
    decimal drc.d_flags.toNat ++ 32 :: (decimal drc.d_protocol.toNat ++ 32 ::
      (decimal drc.d_algorithm.toNat ++ 32 :: Base64Encode drc.d_key)) := by
  unfold getZoneRepresentation RecordTextWriter.xfr32BitInt RecordTextWriter.xfrBlob
  simp only [if_true, nil_append, append_eq_nil_iff, decimal_ne_nil, false_and, if_false, append_assoc,
    cons_append]

/-- A blob at the end of a text. -/
theorem read_blob {val : Octets} (hshort : val.length < 2 ^ 29) :
    RecordTextReader.xfrBlob (32 :: Base64Encode val) = if val = [] then none else some (val, []) := by
  split
  next hempty =>
    rw [hempty]
    exact read_end.2
  next hne => rw [xfrBlob_blank, read_xfrBlob hne hshort]

/-- A DNSKEY record, from its text. -/
theorem DNSKEYContent.ofZone_text (drc : DNSKEYContent) (hshort : drc.d_key.length < 2 ^ 29) :
    DNSKEYContent.ofZone drc.getZoneRepresentation = if drc.d_key = [] then none else some drc := by
  unfold DNSKEYContent.ofZone
  rw [drc.text]
  simp only [read_first16, read_8, read_blob hshort, Except.toOption, Option.bind_eq_bind, Option.bind_some]
  split
  · rfl
  · simp only [Option.bind_some, UInt8.ofNat_toNat, UInt16.ofNat_toNat]

theorem NSEC3PARAMContent.text (content : NSEC3PARAMContent) : content.getZoneRepresentation =
    decimal content.d_algorithm.toNat ++ 32 :: (decimal content.d_flags.toNat ++ 32 ::
      (decimal content.d_iterations.toNat ++ 32 :: content.d_salt.flatMap hexOctet)) := by
  unfold getZoneRepresentation RecordTextWriter.xfr32BitInt RecordTextWriter.xfrHexBlob
  simp only [if_true, nil_append, append_eq_nil_iff, decimal_ne_nil, false_and, if_false, append_assoc,
    cons_append]

/-- An NSEC3PARAM record, from its text. -/
theorem NSEC3PARAMContent.ofZone_text (content : NSEC3PARAMContent) :
    NSEC3PARAMContent.ofZone content.getZoneRepresentation = if content.d_salt = [] then none else some content := by
  unfold NSEC3PARAMContent.ofZone
  rw [content.text]
  simp only [read_first8, read_8, read_16, read_hex, Except.toOption, Option.bind_eq_bind, Option.bind_some]
  split
  · rfl
  · simp only [Option.bind_some, UInt8.ofNat_toNat, UInt16.ofNat_toNat]

theorem RRSIGContent.text (rrc : RRSIGContent) : rrc.getZoneRepresentation namemap =
    namemap.NumberToType rrc.d_type ++ 32 :: (decimal rrc.d_algorithm.toNat ++ 32 :: (decimal rrc.d_labels.toNat ++
      32 :: (decimal rrc.d_originalttl.toNat ++ 32 :: (RecordTextWriter.xfrTime [] rrc.d_sigexpire ++ 32 ::
        (RecordTextWriter.xfrTime [] rrc.d_siginception ++ 32 :: (decimal rrc.d_tag.toNat ++ 32 ::
          (RecordTextWriter.xfrLabel [] rrc.d_signer ++ 32 :: Base64Encode rrc.d_signature))))))) := by
  have htype := (namemap.word_NumberToType rrc.d_type).1
  unfold getZoneRepresentation RecordTextWriter.xfr32BitInt RecordTextWriter.xfrBlob RecordTextWriter.xfrType
    RecordTextWriter.xfrTime RecordTextWriter.xfrLabel
  simp only [if_true, nil_append, append_eq_nil_iff, htype, false_and, if_false,
    append_assoc, cons_append]

/-- An RRSIG record, from its text: behind the type and the numbers stand the signer and the signature. -/
theorem RRSIGContent.ofZone_text (rrc : RRSIGContent) :
    RRSIGContent.ofZone namemap (rrc.getZoneRepresentation namemap) =
      if namemap.Registered rrc.d_type then do
        let d_signer ← (RecordTextReader.xfrLabel []
          (RecordTextWriter.xfrLabel [] rrc.d_signer ++ 32 :: Base64Encode rrc.d_signature)).toOption
        let d_signature ← RecordTextReader.xfrBlob d_signer.2
        some { rrc with d_signer := d_signer.1, d_signature := d_signature.1 }
      else none := by
  unfold RRSIGContent.ofZone
  rw [rrc.text]
  by_cases htype : namemap.Registered rrc.d_type
  · rw [if_pos htype, read_xfrType htype (Or.inr rfl)]
    simp only [read_8, read_32, read_16, read_time, xfrLabel_blank, Except.toOption, Option.bind_eq_bind,
      Option.bind_some, UInt8.ofNat_toNat, UInt16.ofNat_toNat, UInt32.ofNat_toNat]
  · rw [if_neg htype, read_xfrType_unregistered htype (Or.inr rfl)]
    rfl

/-- An NSEC record, from its text. -/
theorem NSECContent.ofZone_text (content : NSECContent) :
    NSECContent.ofZone namemap (content.getZoneRepresentation namemap) = (do
      let d_next ← (RecordTextReader.xfrLabel []
        (RecordTextWriter.xfrLabel [] content.d_next ++ typesText namemap content.d_set)).toOption
      let d_set ← RecordTextReader.types namemap d_next.2
      some ⟨d_next.1, d_set.items⟩) := rfl

theorem NSEC3Content.text (content : NSEC3Content) : content.getZoneRepresentation namemap memory =
    decimal content.d_algorithm.toNat ++ 32 :: (decimal content.d_flags.toNat ++ 32 ::
      (decimal content.d_iterations.toNat ++ 32 :: (content.d_salt.flatMap hexOctet ++ 32 ::
        (toBase32Hex memory content.d_nexthash ++ typesText namemap content.d_set)))) := by
  unfold getZoneRepresentation RecordTextWriter.xfr32BitInt RecordTextWriter.xfrHexBlob
    RecordTextWriter.xfrBase32HexBlob
  simp only [if_true, nil_append, append_eq_nil_iff, decimal_ne_nil, false_and, if_false, append_assoc,
    cons_append]

/-- An NSEC3 record, from its text: behind the numbers stand the salt, the hash and the types. -/
theorem NSEC3Content.ofZone_text (content : NSEC3Content) :
    NSEC3Content.ofZone namemap (content.getZoneRepresentation namemap memory) = (do
      let d_salt ← RecordTextReader.xfrHexBlob (content.d_salt.flatMap hexOctet ++ 32 ::
        (toBase32Hex memory content.d_nexthash ++ typesText namemap content.d_set))
      let d_nexthash ← RecordTextReader.xfrBase32HexBlob d_salt.2
      let d_set ← RecordTextReader.types namemap d_nexthash.2
      some ⟨content.d_algorithm, content.d_flags, content.d_iterations, d_salt.1, d_nexthash.1, d_set.items⟩) := by
  unfold NSEC3Content.ofZone
  rw [content.text]
  simp only [read_first8, read_8, read_16, xfrHexBlob_blank, Except.toOption, Option.bind_eq_bind, Option.bind_some,
    UInt8.ofNat_toNat, UInt16.ofNat_toNat]

end Reading

/-! ### The rdata of a record -/

section RData

theorem DSContent.serialize_eq (content : DSContent) : (SecureContent.DS content).content.serialize [] true =
    some (be16 content.d_tag ++ ([content.d_algorithm] ++ ([content.d_digesttype] ++ content.d_digest))) := by
  rw [serialize_canonic]
  change some _ = _
  simp only [append_nil]

theorem DNSKEYContent.serialize_eq (drc : DNSKEYContent) : (SecureContent.DNSKEY drc).content.serialize [] true =
    some (be16 drc.d_flags ++ ([drc.d_protocol] ++ ([drc.d_algorithm] ++ drc.d_key))) := by
  rw [serialize_canonic]
  change some _ = _
  simp only [append_nil]

theorem NSEC3PARAMContent.serialize_eq (content : NSEC3PARAMContent) :
    (SecureContent.NSEC3PARAM content).content.serialize [] true =
      some ([content.d_algorithm] ++ ([content.d_flags] ++ (be16 content.d_iterations ++
        ([UInt8.ofNat content.d_salt.length] ++ content.d_salt)))) := by
  rw [serialize_canonic]
  change some _ = _
  simp only [append_nil]

/-- What stands in front of the signer. -/
def RRSIGContent.numbers (rrc : RRSIGContent) : Octets :=
  be16 rrc.d_type ++ [rrc.d_algorithm] ++ [rrc.d_labels] ++ be32 rrc.d_originalttl ++ be32 rrc.d_sigexpire ++
    be32 rrc.d_siginception ++ be16 rrc.d_tag

theorem RRSIGContent.length_numbers (rrc : RRSIGContent) : rrc.numbers.length = 18 := rfl

theorem RRSIGContent.serialize_eq (rrc : RRSIGContent) : (SecureContent.RRSIG rrc).content.serialize [] true =
    (canonicalName rrc.d_signer).map fun octets => rrc.numbers ++ (octets ++ rrc.d_signature) := by
  rw [serialize_canonic]
  change callsOctets rrc.calls = _
  unfold RRSIGContent.calls RRSIGContent.numbers
  cases hname : canonicalName rrc.d_signer with
  | none => simp only [callsOctets, WriterCall.octets, WriterCall.blob, hname, bind_eq_bind, bind_some,
      bind_none, map_none]
  | some octets => simp only [callsOctets, WriterCall.octets, WriterCall.blob, hname, bind_eq_bind,
      bind_some, map_some, append_nil, append_assoc]

theorem NSECContent.serialize_eq (content : NSECContent) : (SecureContent.NSEC content).content.serialize [] true =
    (canonicalName content.d_next).map (· ++ typeBitmap content.d_set) := by
  rw [serialize_canonic]
  change callsOctets content.calls = _
  unfold NSECContent.calls
  cases hname : canonicalName content.d_next with
  | none => simp only [callsOctets, WriterCall.octets, WriterCall.blob, hname, bind_eq_bind, bind_none,
      map_none]
  | some octets => simp only [callsOctets, WriterCall.octets, WriterCall.blob, hname, bind_eq_bind,
      bind_some, map_some, append_nil]

theorem NSEC3Content.serialize_eq (content : NSEC3Content) : (SecureContent.NSEC3 content).content.serialize [] true =
    some ([content.d_algorithm] ++ ([content.d_flags] ++ (be16 content.d_iterations ++
      ([UInt8.ofNat content.d_salt.length] ++ (content.d_salt ++ ([UInt8.ofNat content.d_nexthash.length] ++
        (content.d_nexthash ++ typeBitmap content.d_set))))))) := by
  rw [serialize_canonic]
  change some _ = _
  simp only [append_nil]

/-- Every record has some rdata. -/
theorem SecureContent.serialize_ne_nil (record : SecureContent) : record.content.serialize [] true ≠ some [] := by
  cases record with
  | DS content =>
    intro h
    cases h
  | DNSKEY drc =>
    intro h
    cases h
  | NSEC3PARAM content =>
    intro h
    cases h
  | NSEC3 content =>
    intro h
    cases h
  | RRSIG rrc =>
    rw [rrc.serialize_eq]
    intro h
    obtain ⟨octets, -, h⟩ := map_eq_some_iff.mp h
    cases h
  | NSEC content =>
    rw [content.serialize_eq]
    intro h
    obtain ⟨octets, -, h⟩ := map_eq_some_iff.mp h
    cases (append_eq_nil_iff.mp h).2

end RData

/-! ### Class by class -/

section Classes

variable {namemap : Namemap} {memory : Nat → UInt8} {values : List FieldValue} {raw rdata : Octets}

/-- What is known of the octets of a record: they are the rdata, or there are no rdata, and nothing was the rest. -/
def IsRData (values : List FieldValue) (raw rdata : Octets) : Prop :=
  (rdata = raw ∧ raw.length ≤ 65535) ∨ (rdata = [] ∧ values.getLast? = some (.octets []))

theorem SecureContent.not_comesBack_nil (record : SecureContent) : ¬ record.ComesBack namemap memory [] := by
  rintro ⟨record', -, hserialize⟩
  exact record'.serialize_ne_nil hserialize

theorem toOption_eq_some {α ε : Type} {result : Except ε α} {value : α} (h : result.toOption = some value) :
    result = .ok value := by
  cases result with
  | error e => cases h
  | ok a => exact congrArg Except.ok (some.inj h)

theorem wireLabels_ne_nil (ls : List Octets) : wireLabels ls ≠ [] := by
  rw [wireLabels_eq]
  exact append_ne_nil_of_right_ne_nil _ (cons_ne_nil _ _)

/-- A name in a packet that stands where a name without a pointer does is that name. -/
theorem rawName_plain {ls ls' : List Octets} {name s t : Octets} (hls : ∀ l ∈ ls, l ≠ [] ∧ l.length ≤ 191)
    (hls' : ∀ l ∈ ls', l ≠ [] ∧ l.length ≤ 191) (hraw : RawName ls name) (h : name ++ s = wireLabels ls' ++ t) :
    ls' = ls ∧ s = t := by
  have hwide {names : List Octets} (hnames : ∀ l ∈ names, l ≠ [] ∧ l.length ≤ 191) :
      ∀ l ∈ names, l ≠ [] ∧ l.length ≤ 255 := fun l hl => ⟨(hnames l hl).1, (hnames l hl).2.trans (by decide)⟩
  cases hraw with
  | whole => exact wireLabels_align (hwide hls) (hwide hls') h
  | pointed hfront hhi =>
    obtain ⟨l, more, rfl, hlong⟩ := pointer_align hfront hhi (hwide hls') h
    have hle := (hls' l (mem_append_right _ mem_cons_self)).2
    omega

/-- DS. -/
theorem ds_iff (h : RawFields [.int 2, .int 1, .int 1, .restBlob] values raw) (hrdata : IsRData values raw rdata) :
    ∃ content, DSContent.ofPacket values = some content ∧
      ((SecureContent.DS content).ComesBack namemap memory rdata ↔ content.d_digest ≠ []) := by
  obtain ⟨tag, _, _, htag, h₁, rfl, rfl⟩ := h.int_cons
  obtain ⟨algorithm, _, _, halgorithm, h₂, rfl, rfl⟩ := h₁.int_cons
  obtain ⟨digesttype, _, digest, hdigesttype, h₃, rfl, rfl⟩ := h₂.int_cons
  obtain rfl := h₃.restBlob_only
  refine ⟨_, rfl, ?_⟩
  obtain ⟨rfl, -⟩ | ⟨rfl, hnone⟩ := hrdata
  · constructor
    · rintro ⟨record', hzone, -⟩ hempty
      change (DSContent.ofZone (DSContent.getZoneRepresentation _)).map _ = some record' at hzone
      rw [DSContent.ofZone_text, if_pos hempty] at hzone
      cases hzone
    · intro hne
      refine ⟨_, congrArg (Option.map SecureContent.DS) ((DSContent.ofZone_text _).trans (if_neg hne)), ?_⟩
      rw [DSContent.serialize_eq]
      rw [be16_read htag, be8_read halgorithm, be8_read hdigesttype]
  · exact iff_of_false (SecureContent.not_comesBack_nil _) (not_not.mpr (by simpa using hnone))

/-- DNSKEY. -/
theorem dnskey_iff (h : RawFields [.int 2, .int 1, .int 1, .restBlob] values raw)
    (hrdata : IsRData values raw rdata) : ∃ drc, DNSKEYContent.ofPacket values = some drc ∧
      ((SecureContent.DNSKEY drc).ComesBack namemap memory rdata ↔ drc.d_key ≠ []) := by
  obtain ⟨flags, _, _, hflags, h₁, rfl, rfl⟩ := h.int_cons
  obtain ⟨protocol, _, _, hprotocol, h₂, rfl, rfl⟩ := h₁.int_cons
  obtain ⟨algorithm, _, key, halgorithm, h₃, rfl, rfl⟩ := h₂.int_cons
  obtain rfl := h₃.restBlob_only
  refine ⟨_, rfl, ?_⟩
  obtain ⟨rfl, hsize⟩ | ⟨rfl, hnone⟩ := hrdata
  · have hshort : key.length < 2 ^ 29 := by
      simp only [length_append] at hsize
      omega
    constructor
    · rintro ⟨record', hzone, -⟩ hempty
      change (DNSKEYContent.ofZone (DNSKEYContent.getZoneRepresentation _)).map _ = some record' at hzone
      rw [DNSKEYContent.ofZone_text _ hshort, if_pos hempty] at hzone
      cases hzone
    · intro hne
      refine ⟨_, congrArg (Option.map SecureContent.DNSKEY)
        ((DNSKEYContent.ofZone_text _ hshort).trans (if_neg hne)), ?_⟩
      rw [DNSKEYContent.serialize_eq]
      rw [be16_read hflags, be8_read hprotocol, be8_read halgorithm]
  · exact iff_of_false (SecureContent.not_comesBack_nil _) (not_not.mpr (by simpa using hnone))

/-- NSEC3PARAM. The length that was read is not used, and what is written is that of the salt. -/
theorem nsec3param_iff (h : RawFields [.int 1, .int 1, .int 2, .int 1, .restBlob] values raw)
    (hrdata : IsRData values raw rdata) : ∃ content, NSEC3PARAMContent.ofPacket values = some content ∧
      ((SecureContent.NSEC3PARAM content).ComesBack namemap memory rdata ↔
        content.d_salt ≠ [] ∧ rdata[4]? = some (UInt8.ofNat content.d_salt.length)) := by
  obtain ⟨algorithm, _, _, halgorithm, h₁, rfl, rfl⟩ := h.int_cons
  obtain ⟨flags, _, _, hflags, h₂, rfl, rfl⟩ := h₁.int_cons
  obtain ⟨iterations, _, _, hiterations, h₃, rfl, rfl⟩ := h₂.int_cons
  obtain ⟨saltlength, _, salt, hsaltlength, h₄, rfl, rfl⟩ := h₃.int_cons
  obtain rfl := h₄.restBlob_only
  refine ⟨_, rfl, ?_⟩
  obtain ⟨rfl, -⟩ | ⟨rfl, -⟩ := hrdata
  · have hback : salt ≠ [] → NSEC3PARAMContent.ofZone (NSEC3PARAMContent.getZoneRepresentation _) = some _ :=
      fun hne => (NSEC3PARAMContent.ofZone_text ⟨UInt8.ofNat (beNat algorithm), UInt8.ofNat (beNat flags),
        UInt16.ofNat (beNat iterations), salt⟩).trans (if_neg hne)
    have hserialize := NSEC3PARAMContent.serialize_eq ⟨UInt8.ofNat (beNat algorithm), UInt8.ofNat (beNat flags),
      UInt16.ofNat (beNat iterations), salt⟩
    rw [be8_read halgorithm, be8_read hflags, be16_read hiterations] at hserialize
    -- the length is the fifth octet
    obtain ⟨len, rfl⟩ := length_eq_one_iff.mp hsaltlength
    have hfifth : (algorithm ++ (flags ++ (iterations ++ ([len] ++ salt))))[4]? = some len := by
      rw [getElem?_append_right (by omega), getElem?_append_right (by omega),
        getElem?_append_right (by omega), getElem?_append_left (by rw [length_singleton]; omega)]
      rw [show 4 - algorithm.length - flags.length - iterations.length = 0 by omega]
      rfl
    rw [hfifth, some_inj]
    constructor
    · rintro ⟨record', hzone, hrdata⟩
      change (NSEC3PARAMContent.ofZone (NSEC3PARAMContent.getZoneRepresentation _)).map _ = some record' at hzone
      have hne : salt ≠ [] := by
        intro hempty
        rw [NSEC3PARAMContent.ofZone_text, if_pos hempty] at hzone
        cases hzone
      refine ⟨hne, ?_⟩
      rw [hback hne] at hzone
      obtain rfl := some.inj hzone
      rw [hserialize] at hrdata
      have hrest := append_cancel_left (append_cancel_left
        (append_cancel_left (some.inj hrdata)))
      exact (List.cons.inj hrest).1.symm
    · rintro ⟨hne, rfl⟩
      exact ⟨_, congrArg (Option.map SecureContent.NSEC3PARAM) (hback hne), hserialize⟩
  · exact iff_of_false (SecureContent.not_comesBack_nil _) fun h => nomatch h.2

/-- A name in front of a text that goes on: as a field it is what it was, or it is changed. -/
theorem read_name {ls : List Octets} {behind val rest out : Octets} (hls : ∀ l ∈ ls, l ≠ [] ∧ l.length ≤ 191)
    (hbehind : behind = [] ∨ behind.head? = some 32)
    (hread : RecordTextReader.xfrLabel [] (RecordTextWriter.xfrLabel [] (readText [] ls) ++ behind) = .ok (val, rest))
    (hwritten : canonicalName val = some out) :
    (OneField ls ∧ out = wireLabels ls ∧ rest = behind) ∨ ls ≠ [] ∧ Changed ls behind out rest := by
  by_cases hfield : OneField ls
  · have hsame : RecordTextReader.xfrLabel [] (RecordTextWriter.xfrLabel [] (readText [] ls) ++ behind) =
        .ok (readText [] ls, behind) := reader_readText (fun l hl => (hls l hl).1) hfield [] hbehind
    obtain ⟨rfl, rfl⟩ := Prod.mk.inj (Except.ok.inj (hsame.symm.trans hread))
    rw [canonicalName_readText hls] at hwritten
    exact .inl ⟨hfield, (some.inj hwritten).symm, rfl⟩
  · refine .inr ⟨?_, changed_name hls hfield hbehind hread hwritten⟩
    rintro rfl
    exact hfield ⟨forall_mem_nil _, (some_ne_none 13).symm⟩

/-- An RRSIG record whose signer is a name in a packet, with other octets in front of it. -/
theorem RRSIGContent.comesBack_iff {rrc : RRSIGContent} {ls : List Octets} {name : Octets}
    (hls : ∀ l ∈ ls, l ≠ [] ∧ l.length ≤ 191) (hsigner : rrc.d_signer = readText [] ls) (hname : RawName ls name)
    (hshort : rrc.d_signature.length < 2 ^ 29) :
    (SecureContent.RRSIG rrc).ComesBack namemap memory (rrc.numbers ++ (name ++ rrc.d_signature)) ↔
      namemap.Registered rrc.d_type ∧ rrc.d_signature ≠ [] ∧
        ∃ ls', PlainName ls' ∧ name ++ rrc.d_signature = wireLabels ls' ++ rrc.d_signature := by
  have hbehind : 32 :: Base64Encode rrc.d_signature = [] ∨
      (32 :: Base64Encode rrc.d_signature).head? = some 32 := .inr rfl
  have hzone : SecureContent.ofZone namemap ((SecureContent.RRSIG rrc).getZoneRepresentation namemap memory)
      (.RRSIG rrc) = (RRSIGContent.ofZone namemap (rrc.getZoneRepresentation namemap)).map .RRSIG := rfl
  unfold SecureContent.ComesBack
  rw [hzone, RRSIGContent.ofZone_text]
  constructor
  · rintro ⟨record', hread, hserialize⟩
    obtain ⟨rrc', hmade, rfl⟩ := map_eq_some_iff.mp hread
    split at hmade
    next hregistered =>
      obtain ⟨signer, hsignerRead, hrest⟩ := bind_eq_some_iff.mp hmade
      obtain ⟨blob, hblob, hdone⟩ := bind_eq_some_iff.mp hrest
      obtain rfl := some.inj hdone
      rw [RRSIGContent.serialize_eq] at hserialize
      obtain ⟨out, hwritten, hsame⟩ := map_eq_some_iff.mp hserialize
      have hrdata : out ++ blob.1 = name ++ rrc.d_signature := append_cancel_left hsame
      have hlabel : RecordTextReader.xfrLabel [] (RecordTextWriter.xfrLabel [] (readText [] ls) ++
          32 :: Base64Encode rrc.d_signature) = .ok signer := by
        rw [← hsigner]
        exact toOption_eq_some hsignerRead
      -- the signature is the field behind the signer
      have hsignature : signer.2 = 32 :: Base64Encode rrc.d_signature →
          rrc.d_signature ≠ [] ∧ blob.1 = rrc.d_signature := by
        intro hrest
        rw [hrest, read_blob hshort] at hblob
        split at hblob
        next => cases hblob
        next hne =>
          obtain rfl := some.inj hblob
          exact ⟨hne, rfl⟩
      obtain ⟨hfield, rfl, hrest⟩ | ⟨hne, hchanged⟩ := read_name hls hbehind hlabel hwritten
      · obtain ⟨hne, hblobSame⟩ := hsignature hrest
        rw [hblobSame] at hrdata
        exact ⟨hregistered, hne, ls, ⟨hls, hfield⟩, hrdata.symm⟩
      · refine absurd hrdata.symm (hchanged.ne_raw hname hne hls fun hrest => ?_)
        rw [(hsignature hrest).2]
        exact Nat.lt_add_of_pos_right (by decide)
    next => cases hmade
  · rintro ⟨hregistered, hne, ls', hplain, hsame⟩
    obtain ⟨rfl, -⟩ := rawName_plain hls hplain.labels hname hsame
    have hlabel : RecordTextReader.xfrLabel [] (RecordTextWriter.xfrLabel [] (readText [] ls') ++
        32 :: Base64Encode rrc.d_signature) = .ok (readText [] ls', 32 :: Base64Encode rrc.d_signature) :=
      reader_readText (fun l hl => (hls l hl).1) hplain.field [] hbehind
    refine ⟨.RRSIG rrc, ?_, ?_⟩
    · rw [if_pos hregistered, hsigner, hlabel]
      simp only [Except.toOption, bind_eq_bind, bind_some, read_blob hshort, if_neg hne,
        map_some]
      rw [← hsigner]
    · rw [RRSIGContent.serialize_eq, hsigner, canonicalName_readText hls, map_some, hsame]

/-- RRSIG. -/
theorem rrsig_iff
    (h : RawFields [.int 2, .int 1, .int 1, .int 4, .int 4, .int 4, .int 2, .label, .restBlob] values raw)
    (hrdata : IsRData values raw rdata) : ∃ rrc, RRSIGContent.ofPacket values = some rrc ∧
      ((SecureContent.RRSIG rrc).ComesBack namemap memory rdata ↔ SurvivesZone namemap rdata (.RRSIG rrc)) := by
  obtain ⟨type, _, _, htype, h₁, rfl, rfl⟩ := h.int_cons
  obtain ⟨algorithm, _, _, halgorithm, h₂, rfl, rfl⟩ := h₁.int_cons
  obtain ⟨labels, _, _, hlabels, h₃, rfl, rfl⟩ := h₂.int_cons
  obtain ⟨originalttl, _, _, horiginalttl, h₄, rfl, rfl⟩ := h₃.int_cons
  obtain ⟨sigexpire, _, _, hsigexpire, h₅, rfl, rfl⟩ := h₄.int_cons
  obtain ⟨siginception, _, _, hsiginception, h₆, rfl, rfl⟩ := h₅.int_cons
  obtain ⟨tag, _, _, htag, h₇, rfl, rfl⟩ := h₆.int_cons
  obtain ⟨ls, name, _, signature, hls, hname, h₈, rfl, rfl⟩ := h₇.label_cons
  obtain rfl := h₈.restBlob_only
  refine ⟨_, rfl, ?_⟩
  obtain ⟨rfl, hsize⟩ | ⟨rfl, -⟩ := hrdata
  · have hnumbers : type ++ (algorithm ++ (labels ++ (originalttl ++ (sigexpire ++ (siginception ++ (tag ++
        (name ++ signature))))))) = RRSIGContent.numbers ⟨UInt16.ofNat (beNat type), UInt8.ofNat (beNat algorithm),
          UInt8.ofNat (beNat labels), UInt32.ofNat (beNat originalttl), UInt32.ofNat (beNat sigexpire),
          UInt32.ofNat (beNat siginception), UInt16.ofNat (beNat tag), readText [] ls, signature⟩ ++
          (name ++ signature) := by
      unfold RRSIGContent.numbers
      rw [be16_read htype, be8_read halgorithm, be8_read hlabels, be32_read horiginalttl, be32_read hsigexpire,
        be32_read hsiginception, be16_read htag]
      simp only [append_assoc]
    have hshort : signature.length < 2 ^ 29 := by
      simp only [length_append] at hsize
      omega
    unfold SurvivesZone
    rw [hnumbers, drop_left' (RRSIGContent.length_numbers _)]
    exact RRSIGContent.comesBack_iff hls rfl hname hshort
  · refine iff_of_false (SecureContent.not_comesBack_nil _) ?_
    rintro ⟨-, -, ls', -, hnone⟩
    exact wireLabels_ne_nil ls' (append_eq_nil_iff.mp hnone.symm).1

/-- The types that are read from a text with the names of types. -/
theorem read_types_eq {d_set s : TypeSet}
    (h : RecordTextReader.types namemap (typesText namemap d_set.items) = some s) :
    (∀ type ∈ d_set.items, namemap.Registered type) ∧ s = d_set := by
  rw [read_types] at h
  split at h
  next hall =>
    rw [foldl_insert_items] at h
    exact ⟨hall, (some.inj h).symm⟩
  next => cases h

/-- An NSEC record with one window, and with a name in a packet. -/
theorem NSECContent.comesBack_iff {content : NSECContent} {ls : List Octets} {name window : Octets}
    (hls : ∀ l ∈ ls, l ≠ [] ∧ l.length ≤ 191) (hnext : content.d_next = readText [] ls) (hname : RawName ls name)
    (hset : content.d_set = (bitmapTypes window).items) (hwindow : window.length ≤ 127) :
    (SecureContent.NSEC content).ComesBack namemap memory (name ++ ([0, UInt8.ofNat window.length] ++ window)) ↔
      (∀ type ∈ content.d_set, namemap.Registered type) ∧ ∃ ls' bitmap, PlainName ls' ∧ PlainBitmap bitmap ∧
        name ++ ([0, UInt8.ofNat window.length] ++ window) = wireLabels ls' ++ bitmap := by
  have hbehind := typesText_behind namemap (bitmapTypes window).items
  have hzone : SecureContent.ofZone namemap ((SecureContent.NSEC content).getZoneRepresentation namemap memory)
      (.NSEC content) = (NSECContent.ofZone namemap (content.getZoneRepresentation namemap)).map .NSEC := rfl
  unfold SecureContent.ComesBack
  rw [hzone, NSECContent.ofZone_text, hnext, hset]
  constructor
  · rintro ⟨record', hread, hserialize⟩
    obtain ⟨content', hmade, rfl⟩ := map_eq_some_iff.mp hread
    obtain ⟨next, hnextRead, hrest⟩ := bind_eq_some_iff.mp hmade
    obtain ⟨types, htypes, hdone⟩ := bind_eq_some_iff.mp hrest
    obtain rfl := some.inj hdone
    rw [NSECContent.serialize_eq] at hserialize
    obtain ⟨out, hwritten, hsame⟩ := map_eq_some_iff.mp hserialize
    obtain ⟨hfield, rfl, hleft⟩ | ⟨hne, hchanged⟩ := read_name hls hbehind (toOption_eq_some hnextRead) hwritten
    · rw [hleft] at htypes
      obtain ⟨hall, rfl⟩ := read_types_eq htypes
      obtain ⟨-, hbitmap⟩ := rawName_plain hls hls hname hsame.symm
      refine ⟨hall, ls, _, ⟨hls, hfield⟩, (plainBitmap_iff hwindow).mp hbitmap.symm, ?_⟩
      rw [← hsame, hbitmap]
    · -- a window is not that much longer than another
      refine absurd hsame.symm (hchanged.ne_raw hname hne hls fun _ => ?_)
      rw [length_append, length_cons, length_singleton]
      omega
  · rintro ⟨hall, ls', bitmap, hplain, hbitmap, hsame⟩
    obtain ⟨rfl, rfl⟩ := rawName_plain hls hplain.labels hname hsame
    have hlabel : RecordTextReader.xfrLabel [] (RecordTextWriter.xfrLabel [] (readText [] ls') ++
        typesText namemap (bitmapTypes window).items) =
          .ok (readText [] ls', typesText namemap (bitmapTypes window).items) :=
      reader_readText (fun l hl => (hls l hl).1) hplain.field [] hbehind
    refine ⟨.NSEC content, ?_, ?_⟩
    · rw [hlabel]
      simp only [Except.toOption, bind_eq_bind, bind_some, read_types,
        if_pos (show namemap.AllRegistered _ from hall), foldl_insert_items,
        map_some]
      rw [← hnext, ← hset]
    · rw [NSECContent.serialize_eq, hnext, canonicalName_readText hls, map_some, hset,
        (plainBitmap_iff hwindow).mpr hbitmap, hsame]

/-- NSEC. -/
theorem nsec_iff (h : RawFields [.label, .restBlob] values raw) (hcheck : bitmapCheck "NSEC" (lastBlob values) = none)
    (hrdata : IsRData values raw rdata) : ∃ content, NSECContent.ofPacket values = some content ∧
      ((SecureContent.NSEC content).ComesBack namemap memory rdata ↔ SurvivesZone namemap rdata (.NSEC content)) := by
  obtain ⟨ls, name, _, bitmap, hls, hname, h₁, rfl, rfl⟩ := h.label_cons
  obtain rfl := h₁.restBlob_only
  change bitmapCheck "NSEC" bitmap = none at hcheck
  obtain ⟨rfl, hsize⟩ | ⟨rfl, hnone⟩ := hrdata
  · rw [length_append] at hsize
    obtain ⟨window, rfl, hwindow⟩ := window_of_check (by omega) hcheck
    have hread : NSECContent.ofPacket [.octets (readText [] ls), .octets ([0, UInt8.ofNat window.length] ++ window)] =
        some ⟨readText [] ls, (bitmapTypes window).items⟩ := by
      change (NSECTypes ([0, UInt8.ofNat window.length] ++ window)).toOption.map _ = _
      rw [(types_window hwindow).1]
      rfl
    exact ⟨_, hread, NSECContent.comesBack_iff hls rfl hname rfl hwindow⟩
  · -- an NSEC record without a bitmap is refused
    have hempty : bitmap = [] := by simpa using hnone
    rw [hempty] at hcheck
    cases hcheck

/-- The word of a hash, or of a type in its place, is not long. -/
theorem word_of_hash {hash : Octets} (hshort : hash.length < 256) (types : List UInt16) {tmp : Octets × Octets}
    (h : RecordTextReader.word (toBase32Hex memory hash ++ typesText namemap types) = some tmp) :
    tmp.1.length < 512 := by
  have hdigits := length_toBase32Hex memory hash
  by_cases hempty : hash = []
  · subst hempty
    cases types with
    | nil => cases h
    | cons type types =>
      obtain ⟨hne, hlength, hplain⟩ := namemap.word_NumberToType type
      have hword := word_append hne hplain (typesText_behind namemap types)
      change RecordTextReader.word (32 :: (namemap.NumberToType type ++ typesText namemap types)) = some tmp at h
      rw [word_blank, hword] at h
      obtain rfl := some.inj h
      exact hlength.trans (by decide)
  · have hpos := length_pos_of_ne_nil hempty
    have hne : toBase32Hex memory hash ≠ [] := ne_nil_of_length_pos (by omega)
    rw [word_append hne (fun c hc => toBase32Hex_plain hc) (typesText_behind namemap types)] at h
    obtain rfl := some.inj h
    dsimp only
    omega

/-- A length octet is that of one blob only. -/
theorem length_octet {a b : Octets} (ha : a.length < 256) (hb : b.length < 256)
    (h : UInt8.ofNat a.length = UInt8.ofNat b.length) : a.length = b.length := by
  have hsame := congrArg UInt8.toNat h
  rwa [UInt8.toNat_ofNat', UInt8.toNat_ofNat', Nat.mod_eq_of_lt ha, Nat.mod_eq_of_lt hb] at hsame

/-- A blob with its length in front of it. -/
theorem sizedBlob_inj {a b s t : Octets} (ha : a.length < 256) (hb : b.length < 256)
    (h : [UInt8.ofNat a.length] ++ (a ++ s) = [UInt8.ofNat b.length] ++ (b ++ t)) : a = b ∧ s = t := by
  obtain ⟨hoctet, hrest⟩ := List.cons.inj h
  exact append_inj hrest (length_octet ha hb hoctet)

/-- The salt that was read is the salt only when there was one: else the word behind it is taken, and that is not
empty. -/
theorem salt_comesBack {salt hash s t : Octets} {types : List UInt16} {val : Octets × Octets}
    (hsalt : salt.length < 256) (hhash : hash.length < 256)
    (hread : RecordTextReader.xfrHexBlob (salt.flatMap hexOctet ++
      32 :: (toBase32Hex memory hash ++ typesText namemap types)) = some val)
    (hsame : [UInt8.ofNat val.1.length] ++ (val.1 ++ s) = [UInt8.ofNat salt.length] ++ (salt ++ t)) :
    salt ≠ [] ∧ val = (salt, 32 :: (toBase32Hex memory hash ++ typesText namemap types)) ∧ s = t := by
  by_cases hempty : salt = []
  · subst hempty
    obtain ⟨hne, hshort⟩ := length_xfrHexBlob hread fun tmp => word_of_hash hhash types
    exact absurd (sizedBlob_inj hshort hsalt hsame).1 hne
  · obtain rfl := some.inj ((read_xfrHexBlob hempty (.inr rfl)).symm.trans hread)
    exact ⟨hempty, rfl, (sizedBlob_inj hsalt hsalt hsame).2⟩

/-- The hash and the types that were read are those only when there was a hash, and no `=` in its text. -/
theorem hash_comesBack {hash bitmap : Octets} {s d_set : TypeSet} {val : Octets × Octets} (hhash : hash.length < 256)
    (hsize : bitmap.length ≤ 65535) (hbitmap : NSEC3Types bitmap = .ok s)
    (hread : RecordTextReader.xfrBase32HexBlob (toBase32Hex memory hash ++ typesText namemap s.items) = some val)
    (htypes : RecordTextReader.types namemap val.2 = some d_set)
    (hsame : [UInt8.ofNat val.1.length] ++ (val.1 ++ typeBitmap d_set.items) =
      [UInt8.ofNat hash.length] ++ (hash ++ bitmap)) :
    hash ≠ [] ∧ 5 ∣ hash.length ∧ (∀ type ∈ s.items, namemap.Registered type) ∧ PlainBitmap bitmap := by
  have hdigits := length_toBase32Hex memory hash
  by_cases hempty : hash = []
  · -- the first type is taken for the hash, and is missing
    subst hempty
    exfalso
    have hordered := s.ordered
    cases hitems : s.items with
    | nil =>
      rw [hitems] at hread
      cases hread
    | cons type types =>
      obtain ⟨hne, hlength, hplain⟩ := namemap.word_NumberToType type
      rw [hitems] at hread hordered
      change RecordTextReader.xfrBase32HexBlob (32 :: (namemap.NumberToType type ++ typesText namemap types)) =
        some val at hread
      have hword := word_append hne hplain (typesText_behind namemap types)
      rw [xfrBase32HexBlob_blank, RecordTextReader.xfrBase32HexBlob, hword] at hread
      obtain rfl := some.inj hread
      have hle := length_fromBase32Hex_le (namemap.NumberToType type)
      have hshort : (fromBase32Hex (namemap.NumberToType type)).length < 256 := by omega
      obtain ⟨-, hwritten⟩ := sizedBlob_inj hshort hhash hsame
      have hmem : type ∈ s := by
        rw [← Table.mem_items, hitems]
        exact mem_cons_self
      have hback := mem_of_typeBitmap hsize hbitmap hwritten hmem
      rw [read_types] at htypes
      split at htypes
      next =>
        obtain rfl := some.inj htypes
        rw [mem_foldl_insert, or_iff_left (Table.not_mem_empty type)] at hback
        have hless := (pairwise_cons.mp hordered).1 type hback
        exact absurd (of_decide_eq_true hless) (UInt16.lt_irrefl type)
      next => cases htypes
  · rw [read_xfrBase32HexBlob memory hempty (typesText_behind namemap s.items)] at hread
    obtain rfl := some.inj hread
    obtain ⟨hall, rfl⟩ := read_types_eq htypes
    have hle := length_fromBase32Hex_le (toBase32Hex memory hash)
    have hshort : (fromBase32Hex (toBase32Hex memory hash)).length < 256 := by omega
    obtain ⟨hback, hwritten⟩ := sizedBlob_inj hshort hhash hsame
    obtain ⟨hnone, -⟩ | ⟨-, hlength⟩ := @fromBase32Hex_toBase32Hex memory hash
    · exact ⟨hempty, (unstuffed_iff.mp hnone).1, hall, (plainBitmap_NSEC3 hsize hbitmap).mp hwritten⟩
    · exact absurd (congrArg List.length hback) hlength

/-- An NSEC3 record with the octets of a packet. -/
theorem NSEC3Content.comesBack_iff {content : NSEC3Content} {bitmap : Octets} {s : TypeSet}
    (hsalt : content.d_salt.length < 256) (hhash : content.d_nexthash.length < 256) (hsize : bitmap.length ≤ 65535)
    (hbitmap : NSEC3Types bitmap = .ok s) (hset : content.d_set = s.items) :
    (SecureContent.NSEC3 content).ComesBack namemap memory ([content.d_algorithm] ++ ([content.d_flags] ++
      (be16 content.d_iterations ++ ([UInt8.ofNat content.d_salt.length] ++ (content.d_salt ++
        ([UInt8.ofNat content.d_nexthash.length] ++ (content.d_nexthash ++ bitmap))))))) ↔
      content.d_salt ≠ [] ∧ content.d_nexthash ≠ [] ∧ 5 ∣ content.d_nexthash.length ∧
        (∀ type ∈ content.d_set, namemap.Registered type) ∧ PlainBitmap bitmap := by
  have hzone : SecureContent.ofZone namemap ((SecureContent.NSEC3 content).getZoneRepresentation namemap memory)
      (.NSEC3 content) =
        (NSEC3Content.ofZone namemap (content.getZoneRepresentation namemap memory)).map .NSEC3 := rfl
  unfold SecureContent.ComesBack
  rw [hzone, NSEC3Content.ofZone_text]
  constructor
  · rintro ⟨record', hread, hserialize⟩
    obtain ⟨content', hmade, rfl⟩ := map_eq_some_iff.mp hread
    obtain ⟨salt, hsaltRead, hrest⟩ := bind_eq_some_iff.mp hmade
    obtain ⟨hash, hhashRead, hrest⟩ := bind_eq_some_iff.mp hrest
    obtain ⟨types, htypes, hdone⟩ := bind_eq_some_iff.mp hrest
    obtain rfl := some.inj hdone
    rw [NSEC3Content.serialize_eq] at hserialize
    have hsame := append_cancel_left (append_cancel_left (append_cancel_left
      (some.inj hserialize)))
    rw [hset] at hsaltRead ⊢
    obtain ⟨hne, rfl, hsame⟩ := salt_comesBack hsalt hhash hsaltRead hsame
    exact ⟨hne, hash_comesBack hhash hsize hbitmap hhashRead htypes hsame⟩
  · rintro ⟨hsaltNe, hhashNe, hfive, hall, hplain⟩
    have hback : fromBase32Hex (toBase32Hex memory content.d_nexthash) = content.d_nexthash :=
      ((base32_iff memory memory _).mpr ⟨hfive, hhash.trans (by decide)⟩).1
    refine ⟨.NSEC3 content, ?_, ?_⟩
    · rw [read_xfrHexBlob hsaltNe (.inr rfl), bind_eq_bind, bind_some]
      rw [xfrBase32HexBlob_blank, read_xfrBase32HexBlob memory hhashNe (typesText_behind namemap _), hback,
        bind_eq_bind, bind_some]
      rw [read_types, if_pos (show namemap.AllRegistered _ from hall), hset, foldl_insert_items, bind_some,
        map_some, ← hset]
    · rw [NSEC3Content.serialize_eq, hset, (plainBitmap_NSEC3 hsize hbitmap).mpr hplain]

/-- NSEC3. -/
theorem nsec3_iff (h : RawFields [.int 1, .int 1, .int 2, .sizedBlob 1, .sizedBlob 1, .restBlob] values raw)
    (hcheck : NSEC3RecordContent.contentCheck values = none) (hrdata : IsRData values raw rdata) :
    ∃ content, NSEC3Content.ofPacket values = some content ∧
      ((SecureContent.NSEC3 content).ComesBack namemap memory rdata ↔
        SurvivesZone namemap rdata (.NSEC3 content)) := by
  obtain ⟨algorithm, _, _, halgorithm, h₁, rfl, rfl⟩ := h.int_cons
  obtain ⟨flags, _, _, hflags, h₂, rfl, rfl⟩ := h₁.int_cons
  obtain ⟨iterations, _, _, hiterations, h₃, rfl, rfl⟩ := h₂.int_cons
  obtain ⟨salt, _, _, hsalt, h₄, rfl, rfl⟩ := h₃.sizedBlob_cons
  obtain ⟨hash, _, bitmap, hhash, h₅, rfl, rfl⟩ := h₄.sizedBlob_cons
  obtain rfl := h₅.restBlob_only
  obtain ⟨s, hs⟩ : ∃ s, NSEC3Types bitmap = .ok s := by
    change (if bitmap = [] then none else bitmapCheck "NSEC3" bitmap) = none at hcheck
    unfold NSEC3Types
    split
    next => exact ⟨_, rfl⟩
    next hne =>
      rw [if_neg hne] at hcheck
      rw [hcheck]
      exact ⟨_, rfl⟩
  have hread : NSEC3Content.ofPacket [.int (beNat algorithm), .int (beNat flags), .int (beNat iterations),
      .octets salt, .octets hash, .octets bitmap] = some ⟨UInt8.ofNat (beNat algorithm), UInt8.ofNat (beNat flags),
        UInt16.ofNat (beNat iterations), salt, hash, s.items⟩ := by
    change (NSEC3Types bitmap).toOption.map _ = _
    rw [hs]
    rfl
  refine ⟨_, hread, ?_⟩
  unfold SurvivesZone
  dsimp only
  obtain ⟨rfl, hsize⟩ | ⟨rfl, hnone⟩ := hrdata
  · have hfront : algorithm ++ (flags ++ (iterations ++ ([UInt8.ofNat salt.length] ++ (salt ++
        ([UInt8.ofNat hash.length] ++ (hash ++ bitmap)))))) = (algorithm ++ flags ++ iterations ++
          [UInt8.ofNat salt.length] ++ salt ++ [UInt8.ofNat hash.length] ++ hash) ++ bitmap := by
      simp only [append_assoc]
    have hbitmap : (algorithm ++ (flags ++ (iterations ++ ([UInt8.ofNat salt.length] ++ (salt ++
        ([UInt8.ofNat hash.length] ++ (hash ++ bitmap))))))).drop (6 + salt.length + hash.length) = bitmap := by
      rw [hfront]
      refine drop_left' ?_
      simp only [length_append, length_singleton, halgorithm, hflags, hiterations]
      omega
    simp only [length_append] at hsize
    have hiff := @NSEC3Content.comesBack_iff namemap memory ⟨UInt8.ofNat (beNat algorithm), UInt8.ofNat (beNat flags),
      UInt16.ofNat (beNat iterations), salt, hash, s.items⟩ bitmap s hsalt hhash (by omega) hs rfl
    rw [be8_read halgorithm, be8_read hflags, be16_read hiterations] at hiff
    rw [hbitmap]
    exact hiff
  · refine iff_of_false (SecureContent.not_comesBack_nil _) ?_
    rintro ⟨-, -, -, -, octets, hnil, -⟩
    rw [drop_nil] at hnil
    cases hnil

/-- The rdata of a record that was made. -/
theorem isRData_of {content : Octets} {d_pos d_clen : UInt16} (hsize : content.length ≤ 65535)
    (hlong : d_clen ≠ 0 → raw = (content.drop d_pos.toNat).take d_clen.toNat)
    (hzero : d_clen = 0 → values.getLast? = some (.octets [])) :
    IsRData values raw ((content.drop d_pos.toNat).take d_clen.toNat) := by
  by_cases hlen : d_clen = 0
  · refine .inr ⟨?_, hzero hlen⟩
    rw [hlen]
    rfl
  · refine .inl ⟨(hlong hlen).symm, ?_⟩
    rw [hlong hlen, length_take, length_drop]
    omega

end Classes

/-! ### All of them -/

/-- The types of the records. -/
def secureTypes : List UInt16 :=
  [QType.DS, QType.DNSKEY, QType.RRSIG, QType.NSEC, QType.NSEC3, QType.NSEC3PARAM]

/-- **DNSSEC records as texts**: which of those that were read from a packet come back with their rdata. -/
theorem secure_texts_iff (namemap : Namemap) (memory : Nat → UInt8) {packet : Octets} {ah : DnsRecordHeader}
    {d_pos : UInt16} {r : List FieldValue × UInt16} (hclass : ah.d_class = 1) (htype : ah.d_type ∈ secureTypes)
    (h : mastermake reportAllTypes (packetContent packet) ah d_pos = .ok r) :
    ∃ record, SecureContent.ofPacket ah.d_type r.1 = some record ∧
      (record.ComesBack namemap memory (((packetContent packet).drop d_pos.toNat).take ah.d_clen.toNat) ↔
        SurvivesZone namemap (((packetContent packet).drop d_pos.toNat).take ah.d_clen.toNat) record) := by
  have hsize : (packetContent packet).length ≤ 65535 := by
    unfold packetContent
    rw [length_take]
    omega
  have hraw : (reportAllTypes.makerOf ah.d_class ah.d_type).fields.all Field.isRaw = true ∧
      (reportAllTypes.makerOf ah.d_class ah.d_type).fields.getLast? = some .restBlob := by
    unfold secureTypes at htype
    simp only [mem_cons, not_mem_nil, or_false] at htype
    rcases htype with htype | htype | htype | htype | htype | htype
    all_goals
      rw [hclass, htype]
      exact ⟨rfl, rfl⟩
  obtain ⟨raw, hfields, hcheck, hlong, hzero⟩ := rawFields_of_mastermake hsize hraw.1 hraw.2 h
  have hrdata := isRData_of hsize hlong hzero
  unfold secureTypes at htype
  rw [hclass] at hfields hcheck
  generalize ah.d_type = type at htype hfields hcheck ⊢
  simp only [mem_cons, not_mem_nil, or_false] at htype
  rcases htype with rfl | rfl | rfl | rfl | rfl | rfl
  · obtain ⟨content, hcontent, hiff⟩ := @ds_iff namemap memory _ _ _ hfields hrdata
    exact ⟨_, congrArg (Option.map SecureContent.DS) hcontent, hiff⟩
  · obtain ⟨drc, hdrc, hiff⟩ := @dnskey_iff namemap memory _ _ _ hfields hrdata
    exact ⟨_, congrArg (Option.map SecureContent.DNSKEY) hdrc, hiff⟩
  · obtain ⟨rrc, hrrc, hiff⟩ := @rrsig_iff namemap memory _ _ _ hfields hrdata
    exact ⟨_, congrArg (Option.map SecureContent.RRSIG) hrrc, hiff⟩
  · obtain ⟨content, hcontent, hiff⟩ := @nsec_iff namemap memory _ _ _ hfields hcheck hrdata
    exact ⟨_, congrArg (Option.map SecureContent.NSEC) hcontent, hiff⟩
  · obtain ⟨content, hcontent, hiff⟩ := @nsec3_iff namemap memory _ _ _ hfields hcheck hrdata
    exact ⟨_, congrArg (Option.map SecureContent.NSEC3) hcontent, hiff⟩
  · obtain ⟨content, hcontent, hiff⟩ := @nsec3param_iff namemap memory _ _ _ hfields hrdata
    exact ⟨_, congrArg (Option.map SecureContent.NSEC3PARAM) hcontent, hiff⟩

/-- An NSEC3 record with salt AA, a hash of five octets and the type A. -/
theorem nsec3_text_survives : ∃ record, SecureContent.ofPacket QType.NSEC3
      [.int 1, .int 0, .int 10, .octets [170], .octets [1, 2, 3, 4, 5], .octets [0, 1, 64]] = some record ∧
    record.ComesBack .reported (fun _ => 0) [1, 0, 0, 10, 1, 170, 5, 1, 2, 3, 4, 5, 0, 1, 64] := by
  have hmade : mastermake reportAllTypes
      (packetContent (List.replicate 12 0 ++ [1, 0, 0, 10, 1, 170, 5, 1, 2, 3, 4, 5, 0, 1, 64]))
      ⟨QType.NSEC3, 1, 3600, 15⟩ 0 = .ok ([.int 1, .int 0, .int 10, .octets [170], .octets [1, 2, 3, 4, 5],
        .octets [0, 1, 64]], 15) := by rfl
  obtain ⟨record, hrecord, hiff⟩ := secure_texts_iff .reported (fun _ => 0) rfl (by decide) hmade
  refine ⟨record, hrecord, hiff.mpr ?_⟩
  have hcontent : record = .NSEC3 ⟨1, 0, 10, [170], [1, 2, 3, 4, 5], [1]⟩ :=
    some.inj (hrecord.symm.trans (by rfl))
  subst hcontent
  refine ⟨by decide, by decide, by decide, forall_mem_singleton.mpr (by decide), [64], rfl, by decide, by decide, ?_⟩
  unfold HasType
  decide

/-- An NSEC3PARAM record with an empty salt. -/
theorem empty_salt_lost : ¬ ∀ (packet : Octets) (ah : DnsRecordHeader) (d_pos : UInt16)
    (r : List FieldValue × UInt16) (record : SecureContent), ah.d_class = 1 → ah.d_type ∈ secureTypes →
      mastermake reportAllTypes (packetContent packet) ah d_pos = .ok r →
      SecureContent.ofPacket ah.d_type r.1 = some record →
      record.ComesBack .reported (fun _ => 0) (((packetContent packet).drop d_pos.toNat).take ah.d_clen.toNat) := by
  intro h
  obtain ⟨record', hzone, -⟩ := h (List.replicate 12 0 ++ [1, 0, 0, 10, 0, 0, 0, 41, 4, 176, 0, 0, 0, 0, 0, 0])
    ⟨QType.NSEC3PARAM, 1, 3600, 5⟩ 0
    ([.int 1, .int 0, .int 10, .int 0, .octets []], 5) (.NSEC3PARAM ⟨1, 0, 10, []⟩) rfl (by decide) (by rfl) (by rfl)
  cases hzone

end PowerDNS
