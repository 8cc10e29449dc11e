import Mathlib.Algebra.Group.Int.Defs
import Mathlib.Algebra.Group.Nat.Defs
import PowerDNS.Base.Record
import PowerDNS.Packet.PacketReader

/-!
# Parsing packets: `MOADNSParser`

`init` reads the questions and then one record after the other. The content of a record is
read by a class that is looked up by record class and type (`TypeMap`): most are a list of
fields, some check the length of the record first or the type bitmap afterwards, and what
is not registered is copied as it is. Nothing puts the reader back on track between two
records: the next one starts wherever the content of the last one ended.

Which types are registered depends on the program (`reportBasicTypes` and so on).
-/

namespace PowerDNS

/-! ### Record content -/

/-- A record class: what it checks of the length first (`doRecordCheck` and the like), the
fields it reads, and what it checks of them afterwards. A check gives the text of the
`MOADNSException` it throws. -/
structure RecordMaker where
  recordCheck : UInt16 → Option String := fun _ => none
  fields : List Field
  contentCheck : List FieldValue → Option String := fun _ => none

/-- `DNSRecordContent::getTypemap()`, by class and type. -/
abbrev TypeMap := List ((UInt16 × UInt16) × RecordMaker)

/-- The checks on the type bitmap of an NSEC or NSEC3 record. The octets of a `std::string`
are signed. -/
def bitmapCheck (name : String) (bitmap : Octets) : Option String :=
  match bitmap with
  | window :: len :: _ =>
    let len := if len < 128 then len.toNat else 2 ^ 32 - 256 + len.toNat
    if window ≠ 0 then some ("Can't deal with " ++ name ++ " mappings > 255 yet")
    else if bitmap.length ≠ (2 + len) % 2 ^ 32 then
      some ("Can't deal with multi-part " ++ name ++ " mappings yet")
    else none
  | _ => some (name ++ " record with impossibly small bitmap")

/-- The last field of an NSEC or NSEC3 record. -/
def lastBlob (values : List FieldValue) : Octets :=
  match values.getLast? with
  | some (.octets s) => s
  | _ => []

/-- A class that only reads fields. -/
def RecordMaker.ofFields (fields : List Field) : RecordMaker where
  fields := fields

def ARecordContent : RecordMaker where
  recordCheck clen :=
    if clen ≠ 4 then some ("Wrong size for A record (" ++ toString clen ++ ")") else none
  fields := [.int 4]

def AAAARecordContent : RecordMaker where
  recordCheck clen := if clen ≠ 16 then some "Wrong size for AAAA record" else none
  fields := [.copyTo 16]

def NSECRecordContent : RecordMaker where
  fields := [.label, .restBlob]
  contentCheck values := bitmapCheck "NSEC" (lastBlob values)

def NSEC3RecordContent : RecordMaker where
  fields := [.int 1, .int 1, .int 2, .sizedBlob 1, .sizedBlob 1, .restBlob]
  contentCheck values :=
    if lastBlob values = [] then none else bitmapCheck "NSEC3" (lastBlob values)

/-- The classes whose content is a list of fields. -/
def NSRecordContent : RecordMaker := .ofFields [.label]
def PTRRecordContent : RecordMaker := .ofFields [.label]
def CNAMERecordContent : RecordMaker := .ofFields [.label]
def MXRecordContent : RecordMaker := .ofFields [.int 2, .label]
def SOARecordContent : RecordMaker :=
  .ofFields [.label, .label, .int 4, .int 4, .int 4, .int 4, .int 4]
def SRVRecordContent : RecordMaker := .ofFields [.int 2, .int 2, .int 2, .label]
def TXTRecordContent : RecordMaker := .ofFields [.text true]
def SPFRecordContent : RecordMaker := .ofFields [.text true]
def HINFORecordContent : RecordMaker := .ofFields [.text false, .text false]
def RPRecordContent : RecordMaker := .ofFields [.label, .label]
def AFSDBRecordContent : RecordMaker := .ofFields [.int 2, .label]
def NAPTRRecordContent : RecordMaker :=
  .ofFields [.int 2, .int 2, .text false, .text false, .text false, .label]
def LOCRecordContent : RecordMaker :=
  .ofFields [.int 1, .int 1, .int 1, .int 1, .int 4, .int 4, .int 4]
def KEYRecordContent : RecordMaker := .ofFields [.int 2, .int 1, .int 1, .restBlob]
def DNSKEYRecordContent : RecordMaker := .ofFields [.int 2, .int 1, .int 1, .restBlob]
def CERTRecordContent : RecordMaker := .ofFields [.int 2, .int 2, .int 1, .restBlob]
def DSRecordContent : RecordMaker := .ofFields [.int 2, .int 1, .int 1, .restBlob]
def SSHFPRecordContent : RecordMaker := .ofFields [.int 1, .int 1, .restBlob]
def RRSIGRecordContent : RecordMaker :=
  .ofFields [.int 2, .int 1, .int 1, .int 4, .int 4, .int 4, .int 2, .label, .restBlob]
def NSEC3PARAMRecordContent : RecordMaker :=
  .ofFields [.int 1, .int 1, .int 2, .int 1, .restBlob]
def OPTRecordContent : RecordMaker := .ofFields [.restBlob]
def TSIGRecordContent : RecordMaker :=
  .ofFields [.label, .int 6, .int 2, .sizedBlob 2, .int 2, .int 2, .sizedBlob 2]
def URLRecordContent : RecordMaker := .ofFields [.label]
def MBOXFWRecordContent : RecordMaker := .ofFields [.label]

/-- `UnknownRecordContent`: the record is copied as it is. -/
def UnknownRecordContent : RecordMaker := .ofFields [.copyAll]

/-- `reportBasicTypes`. `ANY` is registered without a parser. -/
def reportBasicTypes : TypeMap :=
  [((1, QType.A), ARecordContent), ((1, QType.AAAA), AAAARecordContent),
   ((1, QType.NS), NSRecordContent), ((1, QType.CNAME), CNAMERecordContent),
   ((1, QType.MX), MXRecordContent), ((1, QType.SOA), SOARecordContent),
   ((1, QType.SRV), SRVRecordContent), ((1, QType.PTR), PTRRecordContent),
   ((3, QType.TXT), TXTRecordContent), ((1, QType.TXT), TXTRecordContent)]

/-- `reportOtherTypes`. -/
def reportOtherTypes : TypeMap :=
  [((1, QType.AFSDB), AFSDBRecordContent), ((1, QType.SPF), SPFRecordContent),
   ((1, QType.NAPTR), NAPTRRecordContent), ((1, QType.LOC), LOCRecordContent),
   ((1, QType.HINFO), HINFORecordContent), ((1, QType.RP), RPRecordContent),
   ((1, QType.KEY), KEYRecordContent), ((1, QType.DNSKEY), DNSKEYRecordContent),
   ((1, QType.RRSIG), RRSIGRecordContent), ((1, QType.DS), DSRecordContent),
   ((1, QType.SSHFP), SSHFPRecordContent), ((1, QType.CERT), CERTRecordContent),
   ((1, QType.NSEC), NSECRecordContent), ((1, QType.NSEC3), NSEC3RecordContent),
   ((1, QType.NSEC3PARAM), NSEC3PARAMRecordContent), ((0xff, QType.TSIG), TSIGRecordContent),
   ((1, QType.OPT), OPTRecordContent)]

/-- `reportFancyTypes`. -/
def reportFancyTypes : TypeMap :=
  [((1, QType.URL), URLRecordContent), ((1, QType.MBOXFW), MBOXFWRecordContent)]

/-- `reportAllTypes`. -/
def reportAllTypes : TypeMap := reportBasicTypes ++ reportOtherTypes

/-- The class `DNSRecordContent::mastermake` picks; the class of an OPT record is no
class. -/
def TypeMap.makerOf (types : TypeMap) (d_class d_type : UInt16) : RecordMaker :=
  let searchclass := if d_type = QType.OPT then 1 else d_class
  match types.find? fun t => t.1 == (searchclass, d_type) with
  | some t => t.2
  | none => UnknownRecordContent

/-! ### Records -/

/-- `DNSRecord::d_place`. -/
inductive RecordPlace
  | Answer
  | Nameserver
  | Additional
  deriving DecidableEq

/-- `dnsrecordheader`. -/
structure DnsRecordHeader where
  d_type : UInt16
  d_class : UInt16
  d_ttl : UInt32
  d_clen : UInt16
  deriving DecidableEq

/-- The record header in its ten octets. -/
def DnsRecordHeader.ofOctets (o : Octets) : DnsRecordHeader where
  d_type := UInt16.ofNat (beNat (o.take 2))
  d_class := UInt16.ofNat (beNat ((o.drop 2).take 2))
  d_ttl := UInt32.ofNat (beNat ((o.drop 4).take 4))
  d_clen := UInt16.ofNat (beNat ((o.drop 8).take 2))

/-- `DNSRecord`. -/
structure DNSRecord where
  d_label : Octets
  d_type : UInt16
  d_class : UInt16
  d_ttl : UInt32
  d_clen : UInt16
  d_place : RecordPlace
  d_content : List FieldValue
  deriving DecidableEq

/-- `DNSRecordContent::mastermake(dr, pr)`, with the position it leaves the reader at. -/
def mastermake (types : TypeMap) (content : Octets) (ah : DnsRecordHeader) (d_pos : UInt16) :
    Except ReadError (List FieldValue × UInt16) :=
  let maker := types.makerOf ah.d_class ah.d_type
  match maker.recordCheck ah.d_clen with
  | some text => .error (.moadns text)
  | none => do
    let r ← readFields content ⟨d_pos, ah.d_clen⟩ maker.fields d_pos
    match maker.contentCheck r.1 with
    | some text => .error (.moadns text)
    | none => .ok r

/-- One turn of the loop over the records of a packet. -/
def parseRecord (types : TypeMap) (content : Octets) (d_place : RecordPlace) (d_pos : UInt16) :
    Except ReadError (DNSRecord × UInt16) := do
  let label ← getLabel content d_pos
  let header ← readOctets content 10 label.2
  let ah := DnsRecordHeader.ofOctets header.1
  let r ← mastermake types content ah header.2
  pure ({ d_label := label.1
          d_type := ah.d_type
          d_class := ah.d_class
          d_ttl := ah.d_ttl
          d_clen := ah.d_clen
          d_place := d_place
          d_content := r.1 }, r.2)

/-- The loop over the records: those parsed, each with the position behind it, and the
exception that ended the loop early. -/
def parseRecords (types : TypeMap) (content : Octets) (place : Nat → RecordPlace) :
    Nat → Nat → UInt16 → List (DNSRecord × UInt16) × Option ReadError
  | 0, _, _ => ([], none)
  | left + 1, n, d_pos =>
    match parseRecord types content (place n) d_pos with
    | .error e => ([], some e)
    | .ok r =>
      let rest := parseRecords types content place left (n + 1) r.2
      (r :: rest.1, rest.2)

/-! ### Packets -/

/-- The fields of `dnsheader` that the parser looks at. `flags` is the third octet. -/
structure Dnsheader where
  flags : UInt8
  qdcount : UInt16
  ancount : UInt16
  nscount : UInt16
  arcount : UInt16
  deriving DecidableEq

namespace Dnsheader

/-- `opcode`. -/
def opcode (h : Dnsheader) : UInt8 := (h.flags >>> 3) &&& 15

/-- `tc`. -/
def tc (h : Dnsheader) : Bool := h.flags &&& 2 != 0

/-- `rd`. -/
def rd (h : Dnsheader) : Bool := h.flags &&& 1 != 0

/-- The header at the front of a packet. -/
def ofPacket (packet : Octets) : Dnsheader where
  flags := packet.getD 2 0
  qdcount := UInt16.ofNat (beNat ((packet.drop 4).take 2))
  ancount := UInt16.ofNat (beNat ((packet.drop 6).take 2))
  nscount := UInt16.ofNat (beNat ((packet.drop 8).take 2))
  arcount := UInt16.ofNat (beNat ((packet.drop 10).take 2))

/-- The number of records the header announces. -/
def recordCount (h : Dnsheader) : Nat := h.ancount.toNat + h.nscount.toNat + h.arcount.toNat

/-- The section of record number `n`. -/
def place (h : Dnsheader) (n : Nat) : RecordPlace :=
  if n < h.ancount.toNat then .Answer
  else if n < h.ancount.toNat + h.nscount.toNat then .Nameserver
  else .Additional

/-- The counts of a truncated packet of which `n` records could be parsed. -/
def truncate (h : Dnsheader) (n : Nat) : Dnsheader :=
  if n < h.ancount.toNat then
    { h with ancount := UInt16.ofNat n, nscount := 0, arcount := 0 }
  else if n < h.ancount.toNat + h.nscount.toNat then
    { h with nscount := UInt16.ofNat (n - h.ancount.toNat), arcount := 0 }
  else { h with arcount := UInt16.ofNat (n - h.ancount.toNat - h.nscount.toNat) }

end Dnsheader

/-- `MOADNSParser`. -/
structure MOADNSParser where
  d_header : Dnsheader
  d_qname : Octets
  d_qtype : UInt16
  d_qclass : UInt16
  d_answers : List (DNSRecord × UInt16)
  d_content : Octets
  deriving DecidableEq

/-- The loop over the questions: the last one, and the position behind it. -/
def readQuestions (content : Octets) :
    Nat → (Octets × UInt16 × UInt16) × UInt16 → Except ReadError ((Octets × UInt16 × UInt16) × UInt16)
  | 0, r => .ok r
  | n + 1, r => do
    let qname ← getLabel content r.2
    let qtype ← readOctets content 2 qname.2
    let qclass ← readOctets content 2 qtype.2
    readQuestions content n
      ((qname.1, UInt16.ofNat (beNat qtype.1), UInt16.ofNat (beNat qclass.1)), qclass.2)

/-- The packet without its header, as far as a 16 bit length reaches. -/
def packetContent (packet : Octets) : Octets :=
  (packet.drop 12).take ((packet.length - 12) % 2 ^ 16)

/-- The text of the exception for a packet that ends too early. -/
def outOfBoundsText (len : Nat) (h : Dnsheader) : String :=
  "Error parsing packet of " ++ toString len ++ " bytes (rd=" ++ (if h.rd then "1" else "0") ++
    "), out of bounds: vector::_M_range_check"

/-- `init(packet, len)`. -/
def MOADNSParser.init (types : TypeMap) (packet : Octets) : Except ReadError MOADNSParser :=
  let h := Dnsheader.ofPacket packet
  let content := packetContent packet
  if packet.length < 12 then .error (.moadns "Packet shorter than minimal header")
  else if h.opcode ≠ 0 ∧ h.opcode ≠ 4 then
    .error (.moadns ("Can't parse non-query packet with opcode=" ++ toString h.opcode))
  else
    match readQuestions content h.qdcount.toNat (([], 0, 0), 0) with
    | .error .outOfRange => .error (.moadns (outOfBoundsText packet.length h))
    | .error e => .error e
    | .ok q =>
      let parser (h : Dnsheader) (answers : List (DNSRecord × UInt16)) : MOADNSParser :=
        { d_header := h
          d_qname := q.1.1
          d_qtype := q.1.2.1
          d_qclass := q.1.2.2
          d_answers := answers
          d_content := content }
      match parseRecords types content h.place h.recordCount 0 q.2 with
      | (answers, none) => .ok (parser h answers)
      -- don't sweat it over truncated packets, but do adjust an, ns and arcount
      | (answers, some .outOfRange) =>
        if h.tc then .ok (parser (h.truncate answers.length) answers)
        else .error (.moadns (outOfBoundsText packet.length h))
      | (_, some e) => .error e

end PowerDNS
