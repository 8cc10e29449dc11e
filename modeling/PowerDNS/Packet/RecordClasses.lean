import PowerDNS.Packet.RecordContent
import PowerDNS.Packet.RefusedNames

/-!
# The classes of records as lists of calls

`toPacket` of a class puts its fields into the packet one after the other, so it is a list of calls on the
writer, the same for a packet and for `serialize`. `RecordContent` is the data of the classes, and
`RecordContent.calls` has the list of each of them.

`serialize(qname, true)` switches compression off. The names in the rdata then depend on their texts alone,
and `serialize_canonic` says what the octets are: what the calls write, in order.
-/

namespace PowerDNS

open CompressedName DNSPacketWriter Option List

/-! ### Calls -/

/-- A call of `toPacket`. `xfrIP`, `xfrTime` and `xfrType` write numbers, `xfrHexBlob` writes a blob. -/
inductive WriterCall
  | xfr8BitInt (val : UInt8)
  | xfr16BitInt (val : UInt16)
  | xfr32BitInt (val : UInt32)
  | xfr48BitInt (val : UInt64)
  | xfrLabel (label : Octets) (compress : Bool)
  | xfrText (text : Octets)
  | xfrBlob (blob : Octets)
  /-- What `UnknownRecordContent` takes out of its text. -/
  | unknown (d_record : Octets)
  deriving DecidableEq

/-- A 48 bit number in network order. -/
def be48 (v : UInt64) : Octets := be16 (v >>> 32).toUInt16 ++ be32 v.toUInt32

namespace WriterCall

/-- The octets that a call writes which does not look at the packet. -/
def blob : WriterCall → Option Octets
  | xfr8BitInt val => some [val]
  | xfr16BitInt val => some (be16 val)
  | xfr32BitInt val => some (be32 val)
  | xfr48BitInt val => some (be48 val)
  | xfrLabel _ _ => none
  | xfrText text => (packetText text).toOption
  | xfrBlob blob => some blob
  | unknown d_record => (UnknownRecordContent.rdata d_record).toOption

/-- The call; `none` stands for what it throws. -/
def run (w : DNSPacketWriter) : WriterCall → Option DNSPacketWriter
  | xfrLabel label compress => w.xfrLabel label compress
  | call => call.blob.map w.xfrBlob

/-- The text of a name. -/
def label? : WriterCall → Option Octets
  | xfrLabel label _ => some label
  | _ => none

/-- The call with another name. -/
def mapLabel (f : Octets → Octets) : WriterCall → WriterCall
  | xfrLabel label compress => xfrLabel (f label) compress
  | call => call

end WriterCall

/-! ### The classes -/

/-- `RRSIGRecordContent`. -/
structure RRSIGContent where
  d_type : UInt16
  d_algorithm : UInt8
  d_labels : UInt8
  d_originalttl : UInt32
  d_sigexpire : UInt32
  d_siginception : UInt32
  d_tag : UInt16
  d_signer : Octets
  d_signature : Octets
  deriving DecidableEq

/-- `DNSKEYRecordContent`. -/
structure DNSKEYContent where
  d_flags : UInt16
  d_protocol : UInt8
  d_algorithm : UInt8
  d_key : Octets
  deriving DecidableEq

/-- `DSRecordContent`. -/
structure DSContent where
  d_tag : UInt16
  d_algorithm : UInt8
  d_digesttype : UInt8
  d_digest : Octets
  deriving DecidableEq

/-- `NSECRecordContent`. The types of `d_set` stand in ascending order. -/
structure NSECContent where
  d_next : Octets
  d_set : List UInt16
  deriving DecidableEq

/-- `NSEC3RecordContent`. -/
structure NSEC3Content where
  d_algorithm : UInt8
  d_flags : UInt8
  d_iterations : UInt16
  d_salt : Octets
  d_nexthash : Octets
  d_set : List UInt16
  deriving DecidableEq

/-- `NSEC3PARAMRecordContent`. -/
structure NSEC3PARAMContent where
  d_algorithm : UInt8
  d_flags : UInt8
  d_iterations : UInt16
  d_salt : Octets
  deriving DecidableEq

/-- `soatimes`. -/
structure Soatimes where
  serial : UInt32
  refresh : UInt32
  retry : UInt32
  expire : UInt32
  minimum : UInt32
  deriving DecidableEq

/-- The data of a `DNSRecordContent`, by the class derived from it. `d_ip` is in host order. -/
inductive RecordContent
  | A (d_ip : UInt32)
  | AAAA (d_ip6 : Octets)
  | NS (d_content : Octets)
  | PTR (d_content : Octets)
  | CNAME (d_content : Octets)
  | MR (d_alias : Octets)
  | TXT (d_text : Octets)
  | SPF (d_text : Octets)
  | HINFO (d_cpu d_host : Octets)
  | RP (d_mbox d_info : Octets)
  | OPT (d_data : Octets)
  | TSIG (d_algoName : Octets) (d_time : UInt64) (d_fudge : UInt16) (d_mac : Octets)
      (d_origID d_eRcode : UInt16) (d_otherData : Octets)
  | MX (d_preference : UInt16) (d_mxname : Octets)
  | KX (d_preference : UInt16) (d_exchanger : Octets)
  | IPSECKEY (d_preference d_gatewaytype d_algorithm : UInt8) (d_gateway d_publickey : Octets)
  | DHCID (d_content : Octets)
  | AFSDB (d_subtype : UInt16) (d_hostname : Octets)
  | NAPTR (d_order d_preference : UInt16) (d_flags d_services d_regexp d_replacement : Octets)
  | SRV (d_preference d_weight d_port : UInt16) (d_target : Octets)
  | SOA (d_mname d_rname : Octets) (d_st : Soatimes)
  | KEY (d_flags : UInt16) (d_protocol d_algorithm : UInt8) (d_certificate : Octets)
  | CERT (d_type d_tag : UInt16) (d_algorithm : UInt8) (d_certificate : Octets)
  | DS (content : DSContent)
  | SSHFP (d_algorithm d_fptype : UInt8) (d_fingerprint : Octets)
  | RRSIG (content : RRSIGContent)
  | DNSKEY (content : DNSKEYContent)
  | URL (d_url : Octets)
  | MBOXFW (d_mboxfw : Octets)
  | NSEC (content : NSECContent)
  | NSEC3 (content : NSEC3Content)
  | NSEC3PARAM (content : NSEC3PARAMContent)
  | LOC (d_version d_size d_horizpre d_vertpre : UInt8) (d_latitude d_longitude d_altitude : UInt32)
  | unknown (d_record : Octets)
  deriving DecidableEq

/-- `xfrPacket` of `RRSIGRecordContent`. -/
def RRSIGContent.calls (rrc : RRSIGContent) : List WriterCall :=
  [.xfr16BitInt rrc.d_type, .xfr8BitInt rrc.d_algorithm, .xfr8BitInt rrc.d_labels,
    .xfr32BitInt rrc.d_originalttl, .xfr32BitInt rrc.d_sigexpire, .xfr32BitInt rrc.d_siginception,
    .xfr16BitInt rrc.d_tag, .xfrLabel rrc.d_signer false, .xfrBlob rrc.d_signature]

/-- `xfrPacket` of `DNSKEYRecordContent`. -/
def DNSKEYContent.calls (drc : DNSKEYContent) : List WriterCall :=
  [.xfr16BitInt drc.d_flags, .xfr8BitInt drc.d_protocol, .xfr8BitInt drc.d_algorithm, .xfrBlob drc.d_key]

/-- `xfrPacket` of `DSRecordContent`. -/
def DSContent.calls (content : DSContent) : List WriterCall :=
  [.xfr16BitInt content.d_tag, .xfr8BitInt content.d_algorithm, .xfr8BitInt content.d_digesttype,
    .xfrBlob content.d_digest]

/-- Sets the bit of a type, `res[2+*i/8] |= 1 << (7-(*i%8))`. -/
def setTypeBit (res : Octets) (type : UInt16) : Octets :=
  res.set (type.toNat / 8) (res.getD (type.toNat / 8) 0 ||| 1 <<< UInt8.ofNat (7 - type.toNat % 8))

/-- The window of types that `toPacket` writes. The loop stops at the first type that is not below 255, and
`--i` goes back to the type before it; where there is none, what the code does is not determined, and the
model takes the length to be that of an empty set. -/
def typeBitmap (d_set : List UInt16) : Octets :=
  let below := d_set.takeWhile fun type => type < 255
  let res := below.foldl setTypeBit (List.replicate 32 0)
  let len := match below.getLast? with
    | none => 0
    | some type => 1 + type.toNat / 8
  [0, UInt8.ofNat len] ++ res.take len

/-- `toPacket` of `NSECRecordContent`. -/
def NSECContent.calls (content : NSECContent) : List WriterCall :=
  [.xfrLabel content.d_next false, .xfrBlob (typeBitmap content.d_set)]

/-- `toPacket` of `NSEC3RecordContent`. -/
def NSEC3Content.calls (content : NSEC3Content) : List WriterCall :=
  [.xfr8BitInt content.d_algorithm, .xfr8BitInt content.d_flags, .xfr16BitInt content.d_iterations,
    .xfr8BitInt (UInt8.ofNat content.d_salt.length), .xfrBlob content.d_salt,
    .xfr8BitInt (UInt8.ofNat content.d_nexthash.length), .xfrBlob content.d_nexthash,
    .xfrBlob (typeBitmap content.d_set)]

/-- `toPacket` of `NSEC3PARAMRecordContent`. -/
def NSEC3PARAMContent.calls (content : NSEC3PARAMContent) : List WriterCall :=
  [.xfr8BitInt content.d_algorithm, .xfr8BitInt content.d_flags, .xfr16BitInt content.d_iterations,
    .xfr8BitInt (UInt8.ofNat content.d_salt.length), .xfrBlob content.d_salt]

namespace RecordContent

/-- `d_qtype`; that of an unknown content made from a text is zero. -/
def d_qtype : RecordContent → UInt16
  | A .. => QType.A
  | AAAA .. => QType.AAAA
  | NS .. => QType.NS
  | PTR .. => QType.PTR
  | CNAME .. => QType.CNAME
  | MR .. => QType.MR
  | TXT .. => QType.TXT
  | SPF .. => QType.SPF
  | HINFO .. => QType.HINFO
  | RP .. => QType.RP
  | OPT .. => QType.OPT
  | TSIG .. => QType.TSIG
  | MX .. => QType.MX
  | KX .. => 36
  | IPSECKEY .. => 45
  | DHCID .. => 49
  | AFSDB .. => QType.AFSDB
  | NAPTR .. => QType.NAPTR
  | SRV .. => QType.SRV
  | SOA .. => QType.SOA
  | KEY .. => QType.KEY
  | CERT .. => QType.CERT
  | DS .. => QType.DS
  | SSHFP .. => QType.SSHFP
  | RRSIG .. => QType.RRSIG
  | DNSKEY .. => QType.DNSKEY
  | URL .. => QType.URL
  | MBOXFW .. => QType.MBOXFW
  | NSEC .. => QType.NSEC
  | NSEC3 .. => QType.NSEC3
  | NSEC3PARAM .. => QType.NSEC3PARAM
  | LOC .. => QType.LOC
  | unknown _ => 0

/-- The calls of `toPacket`. -/
def calls : RecordContent → List WriterCall
  | A d_ip => [.xfr32BitInt d_ip]
  | AAAA d_ip6 => [.xfrBlob d_ip6]
  | NS d_content => [.xfrLabel d_content true]
  | PTR d_content => [.xfrLabel d_content true]
  | CNAME d_content => [.xfrLabel d_content true]
  | MR d_alias => [.xfrLabel d_alias false]
  | TXT d_text => [.xfrText d_text]
  | SPF d_text => [.xfrText d_text]
  | HINFO d_cpu d_host => [.xfrText d_cpu, .xfrText d_host]
  | RP d_mbox d_info => [.xfrLabel d_mbox false, .xfrLabel d_info false]
  | OPT d_data => [.xfrBlob d_data]
  | TSIG d_algoName d_time d_fudge d_mac d_origID d_eRcode d_otherData =>
    [.xfrLabel d_algoName false, .xfr48BitInt d_time, .xfr16BitInt d_fudge,
      .xfr16BitInt (UInt16.ofNat d_mac.length), .xfrBlob d_mac, .xfr16BitInt d_origID, .xfr16BitInt d_eRcode,
      .xfr16BitInt (UInt16.ofNat d_otherData.length), .xfrBlob d_otherData]
  | MX d_preference d_mxname => [.xfr16BitInt d_preference, .xfrLabel d_mxname true]
  | KX d_preference d_exchanger => [.xfr16BitInt d_preference, .xfrLabel d_exchanger false]
  | IPSECKEY d_preference d_gatewaytype d_algorithm d_gateway d_publickey =>
    [.xfr8BitInt d_preference, .xfr8BitInt d_gatewaytype, .xfr8BitInt d_algorithm, .xfrLabel d_gateway false,
      .xfrBlob d_publickey]
  | DHCID d_content => [.xfrBlob d_content]
  | AFSDB d_subtype d_hostname => [.xfr16BitInt d_subtype, .xfrLabel d_hostname false]
  | NAPTR d_order d_preference d_flags d_services d_regexp d_replacement =>
    [.xfr16BitInt d_order, .xfr16BitInt d_preference, .xfrText d_flags, .xfrText d_services, .xfrText d_regexp,
      .xfrLabel d_replacement false]
  | SRV d_preference d_weight d_port d_target =>
    [.xfr16BitInt d_preference, .xfr16BitInt d_weight, .xfr16BitInt d_port, .xfrLabel d_target false]
  | SOA d_mname d_rname d_st =>
    [.xfrLabel d_mname true, .xfrLabel d_rname true, .xfr32BitInt d_st.serial, .xfr32BitInt d_st.refresh,
      .xfr32BitInt d_st.retry, .xfr32BitInt d_st.expire, .xfr32BitInt d_st.minimum]
  | KEY d_flags d_protocol d_algorithm d_certificate =>
    [.xfr16BitInt d_flags, .xfr8BitInt d_protocol, .xfr8BitInt d_algorithm, .xfrBlob d_certificate]
  | CERT d_type d_tag d_algorithm d_certificate =>
    [.xfr16BitInt d_type, .xfr16BitInt d_tag, .xfr8BitInt d_algorithm, .xfrBlob d_certificate]
  | DS content => content.calls
  | SSHFP d_algorithm d_fptype d_fingerprint =>
    [.xfr8BitInt d_algorithm, .xfr8BitInt d_fptype, .xfrBlob d_fingerprint]
  | RRSIG content => content.calls
  | DNSKEY content => content.calls
  | URL d_url => [.xfrLabel d_url false]
  | MBOXFW d_mboxfw => [.xfrLabel d_mboxfw false]
  | NSEC content => content.calls
  | NSEC3 content => content.calls
  | NSEC3PARAM content => content.calls
  | LOC d_version d_size d_horizpre d_vertpre d_latitude d_longitude d_altitude =>
    [.xfr8BitInt d_version, .xfr8BitInt d_size, .xfr8BitInt d_horizpre, .xfr8BitInt d_vertpre,
      .xfr32BitInt d_latitude, .xfr32BitInt d_longitude, .xfr32BitInt d_altitude]
  | unknown d_record => [.unknown d_record]

/-- The content with other names. -/
def mapLabels (f : Octets → Octets) : RecordContent → RecordContent
  | NS d_content => NS (f d_content)
  | PTR d_content => PTR (f d_content)
  | CNAME d_content => CNAME (f d_content)
  | MR d_alias => MR (f d_alias)
  | RP d_mbox d_info => RP (f d_mbox) (f d_info)
  | TSIG d_algoName d_time d_fudge d_mac d_origID d_eRcode d_otherData =>
    TSIG (f d_algoName) d_time d_fudge d_mac d_origID d_eRcode d_otherData
  | MX d_preference d_mxname => MX d_preference (f d_mxname)
  | KX d_preference d_exchanger => KX d_preference (f d_exchanger)
  | IPSECKEY d_preference d_gatewaytype d_algorithm d_gateway d_publickey =>
    IPSECKEY d_preference d_gatewaytype d_algorithm (f d_gateway) d_publickey
  | AFSDB d_subtype d_hostname => AFSDB d_subtype (f d_hostname)
  | NAPTR d_order d_preference d_flags d_services d_regexp d_replacement =>
    NAPTR d_order d_preference d_flags d_services d_regexp (f d_replacement)
  | SRV d_preference d_weight d_port d_target => SRV d_preference d_weight d_port (f d_target)
  | SOA d_mname d_rname d_st => SOA (f d_mname) (f d_rname) d_st
  | RRSIG content => RRSIG { content with d_signer := f content.d_signer }
  | URL d_url => URL (f d_url)
  | MBOXFW d_mboxfw => MBOXFW (f d_mboxfw)
  | NSEC content => NSEC { content with d_next := f content.d_next }
  | content => content

theorem calls_mapLabels (f : Octets → Octets) (content : RecordContent) :
    (content.mapLabels f).calls = content.calls.map (WriterCall.mapLabel f) := by
  cases content <;> rfl

theorem d_qtype_mapLabels (f : Octets → Octets) (content : RecordContent) :
    (content.mapLabels f).d_qtype = content.d_qtype := by
  cases content <;> rfl

end RecordContent

/-! ### `serialize` -/

/-- Calls, one after the other. -/
def runCalls (w : DNSPacketWriter) : List WriterCall → Option DNSPacketWriter
  | [] => some w
  | call :: calls => do
    let w ← call.run w
    runCalls w calls

/-- `serialize(qname, canonic)` of a content with these calls: a packet with one record, and its rdata cut
out of it. `d_sor` has 16 bits. -/
def serializeCalls (qname : Octets) (canonic : Bool) (d_qtype : UInt16) (calls : List WriterCall) :
    Option Octets := do
  let pw ← create [] 1 1 0 0
  let pw ← startRecord { pw with d_canonic := canonic } qname d_qtype
  let pw ← runCalls pw calls
  let pw ← pw.commit
  some (pw.d_content.drop (pw.d_sor % 2 ^ 16))

/-- `serialize(qname, canonic)`. -/
def RecordContent.serialize (content : RecordContent) (qname : Octets) (canonic : Bool) : Option Octets :=
  serializeCalls qname canonic content.d_qtype content.calls

/-! ### Without compression -/

/-- What `xfrLabel` writes for a text when nothing is compressed. -/
def canonicalName (text : Octets) : Option Octets :=
  let labels := (textLabels text).map Prod.snd
  if backslash ∈ text ∧ ∃ l ∈ labels, 255 < (keptLabel l).length then none
  else some (keptOctets labels ++ [0])

/-- What a call writes then. -/
def WriterCall.octets : WriterCall → Option Octets
  | .xfrLabel label _ => canonicalName label
  | call => call.blob

/-- What calls write, one after the other. -/
def callsOctets : List WriterCall → Option Octets
  | [] => some []
  | call :: calls => do
    let octets ← call.octets
    let rest ← callsOctets calls
    some (octets ++ rest)

section Canonic

variable {w : DNSPacketWriter}

theorem front_canonic (hcanonic : w.d_canonic = true) (text : Octets) (compress : Bool) :
    w.front text compress = (textLabels text).map Prod.snd ∧ (w.whole text compress).2 = none := by
  have hoff : w.compresses compress = false := if_pos hcanonic
  have hnone : (w.whole text compress).2 = none := by
    unfold whole
    rw [hoff, wholeLabels_false]
  have hall : (w.whole text compress).1 = (textLabels text).length := wholeLabels_none hnone
  refine ⟨?_, hnone⟩
  unfold front frontLabels
  rw [hall, take_length]

theorem xfrLabel_canonic (hcanonic : w.d_canonic = true) (text : Octets) (compress : Bool) :
    ∃ lmap : LabelMap, w.xfrLabel text compress =
      (canonicalName text).map fun octets => { w.xfrBlob octets with d_labelmap := lmap } := by
  obtain ⟨hfront, hnone⟩ := front_canonic hcanonic text compress
  obtain ⟨hthrows, hwrites⟩ := xfrLabel_spec_any w text compress
  unfold canonicalName
  by_cases hlong : Overlong w text compress
  · refine ⟨[], ?_⟩
    rw [hthrows hlong]
    unfold Overlong at hlong
    rw [hfront] at hlong
    rw [if_pos hlong]
    rfl
  · obtain ⟨entries, hsome, -⟩ := hwrites hlong
    refine ⟨w.d_labelmap ++ entries, ?_⟩
    rw [hsome, hfront, hnone]
    unfold Overlong at hlong
    rw [hfront] at hlong
    rw [if_neg hlong]
    rfl

/-- The octets of a domain name are those of its labels. -/
theorem canonicalName_text (n : Name) : canonicalName n.text = some (wireLabels n.labels) := by
  -- both say what is written into an empty record
  obtain ⟨entries, octets, hwritten, hwire⟩ := exists_xfrLabel { emptyWriter with d_canonic := true } n false
  obtain ⟨lmap, hcanonic⟩ := @xfrLabel_canonic { emptyWriter with d_canonic := true } rfl n.text false
  rw [hwritten] at hcanonic
  cases hname : canonicalName n.text with
  | none =>
    rw [hname] at hcanonic
    cases hcanonic
  | some name =>
    rw [hname, map_some, Option.some.injEq] at hcanonic
    have hrecord := congrArg DNSPacketWriter.d_record hcanonic
    change [] ++ octets = [] ++ name at hrecord
    rw [nil_append, nil_append] at hrecord
    rw [← hrecord, hwire rfl]

/-- A call behind which nothing is different but the record and the label map. -/
theorem run_canonic (hcanonic : w.d_canonic = true) (call : WriterCall) : ∃ lmap : LabelMap,
    call.run w = call.octets.map fun octets => { w.xfrBlob octets with d_labelmap := lmap } := by
  cases call with
  | xfrLabel label compress => exact xfrLabel_canonic hcanonic label compress
  | _ => exact ⟨w.d_labelmap, rfl⟩

theorem runCalls_canonic (hcanonic : w.d_canonic = true) (calls : List WriterCall) : ∃ lmap : LabelMap,
    runCalls w calls = (callsOctets calls).map fun octets => { w.xfrBlob octets with d_labelmap := lmap } := by
  induction calls generalizing w with
  | nil =>
    refine ⟨w.d_labelmap, ?_⟩
    change some w = some { w with d_record := w.d_record ++ [] }
    rw [append_nil]
  | cons call calls ih =>
    obtain ⟨lmap, hcall⟩ := run_canonic hcanonic call
    unfold runCalls callsOctets
    rw [hcall]
    cases call.octets with
    | none => exact ⟨[], rfl⟩
    | some octets =>
      obtain ⟨lmap', hrest⟩ := @ih { w.xfrBlob octets with d_labelmap := lmap } hcanonic
      refine ⟨lmap', ?_⟩
      dsimp only [map_some, bind, Option.bind]
      rw [hrest]
      cases callsOctets calls with
      | none => rfl
      | some rest =>
        simp only [map_some, DNSPacketWriter.xfrBlob, append_assoc]

/-- Counting a record touches the header only. -/
theorem drop_incrementAt {content : Octets} {off n : Nat} (h : off + 1 < n) :
    (incrementAt content off).drop n = content.drop n := by
  unfold incrementAt
  rw [drop_set_of_lt h, drop_set_of_lt (by omega)]

/-- What is cut out of the packet of `serialize` is the record that was written. -/
theorem commit_rdata (hstuff : w.d_stuff = 10) (hsor : w.d_sor = 29) (hlength : w.d_content.length = 19) :
    (do let pw ← w.commit
        some (pw.d_content.drop (pw.d_sor % 2 ^ 16))) = some w.d_record := by
  have hheader : (w.d_content ++ w.recordHeader).length = 29 := by
    rw [length_append, hlength]
    rfl
  have hoff : countOffset w.d_recordplace + 1 < 29 := by cases w.d_recordplace <;> decide
  have hcount := @drop_incrementAt (w.d_content ++ w.recordHeader ++ w.d_record) _ 29 hoff
  unfold commit
  rw [if_neg fun h => absurd (hstuff.symm.trans h.1) (by decide)]
  dsimp only [bind, Option.bind]
  rw [hsor, Nat.mod_eq_of_lt (by decide), hcount, ← hheader, drop_left]

/-- **The octets of a canonic `serialize`.** -/
theorem serializeCalls_canonic (d_qtype : UInt16) (calls : List WriterCall) :
    serializeCalls [] true d_qtype calls = callsOctets calls := by
  obtain ⟨begun, hbegun, hrecord, hcanonic, hstuff, hsor, hlength⟩ : ∃ begun : DNSPacketWriter,
      (do let pw ← create [] 1 1 0 0
          startRecord { pw with d_canonic := true } [] d_qtype) = some begun ∧ begun.d_record = [] ∧
        begun.d_canonic = true ∧ begun.d_stuff = 10 ∧ begun.d_sor = 29 ∧ begun.d_content.length = 19 :=
    ⟨_, rfl, rfl, rfl, rfl, rfl, rfl⟩
  obtain ⟨lmap, hrun⟩ := runCalls_canonic hcanonic calls
  have hserialize : serializeCalls [] true d_qtype calls = (do
      let pw ← runCalls begun calls
      let pw ← pw.commit
      some (pw.d_content.drop (pw.d_sor % 2 ^ 16))) := by
    cases hcreate : create [] 1 1 0 0 with
    | none =>
      rw [hcreate] at hbegun
      cases hbegun
    | some pw =>
      rw [hcreate] at hbegun
      unfold serializeCalls
      rw [hcreate]
      dsimp only [bind, Option.bind] at hbegun ⊢
      rw [hbegun]
  rw [hserialize, hrun]
  cases callsOctets calls with
  | none => rfl
  | some octets =>
    have hfinal := @commit_rdata { begun.xfrBlob octets with d_labelmap := lmap } hstuff hsor hlength
    change _ = some (begun.d_record ++ octets) at hfinal
    rw [hrecord] at hfinal
    exact hfinal

theorem serialize_canonic (content : RecordContent) :
    content.serialize [] true = callsOctets content.calls :=
  serializeCalls_canonic content.d_qtype content.calls

end Canonic

end PowerDNS
