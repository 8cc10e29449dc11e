import PowerDNS.Base.Octets

/-!
# Writing packets: `DNSPacketWriter`

The writer (`dnswriter.cc`) appends to `d_content`. The rdata of the record being written
sits in `d_record` until `commit` puts the record header and the rdata behind the owner
name; `d_stuff` is the number of octets that will go between the two, so that
`d_content.size() + d_record.size() + d_stuff` is the place in the finished packet of the
octet written next.

`d_labelmap` holds every name suffix written so far with its place. `xfrLabel` looks up
ever shorter suffixes of the name at hand, and ends the name with a pointer at the first
one it finds.

`none` stands for a `MOADNSException`.
-/

namespace PowerDNS

/-- A 16 bit number in network order. -/
def be16 (v : UInt16) : Octets := [(v >>> 8).toUInt8, v.toUInt8]

/-- A 32 bit number in network order. -/
def be32 (v : UInt32) : Octets :=
  [(v >>> 24).toUInt8, (v >>> 16).toUInt8, (v >>> 8).toUInt8, v.toUInt8]

/-- `DNSPacketWriter::lmap_t`. -/
abbrev LabelMap := List (Octets × Nat)

/-- `find(lmap, label)`. -/
def LabelMap.lookup (lmap : LabelMap) (label : Octets) : Option Nat :=
  (lmap.find? fun e => pdnsIequals e.1 label).map Prod.snd

/-- The loop of `labeltokUnescape`, at position `pos` inside a label that begins at `lpos`. -/
def labeltokUnescapeFrom : Nat → Nat → Octets → List (Nat × Nat) × Bool
  | pos, lpos, [] => (if lpos < pos then [(lpos, pos)] else [], false)
  | pos, lpos, c :: t =>
    if c = backslash then
      match t with
      -- the escape at the end of the text takes `pos` one beyond it
      | [] => (if lpos < pos + 2 then [(lpos, pos + 2)] else [], true)
      | _ :: t => ((labeltokUnescapeFrom (pos + 2) lpos t).1, true)
    else if c = dot then
      let r := labeltokUnescapeFrom (pos + 1) (pos + 1) t
      ((lpos, pos) :: r.1, r.2)
    else labeltokUnescapeFrom (pos + 1) lpos t

/-- `labeltokUnescape`: the begin and end offsets of the labels of a text, and whether
anything is escaped. -/
def labeltokUnescape (label : Octets) : List (Nat × Nat) × Bool := labeltokUnescapeFrom 0 0 label

/-- `boost::replace_all` with a pattern of the two octets `a b` and a replacement of one. -/
def replaceAll (a b r : UInt8) : Octets → Octets
  | x :: y :: t => if x = a ∧ y = b then r :: replaceAll a b r t else x :: replaceAll a b r (y :: t)
  | t => t

/-- `chopped`: the text from offset `first` on, without the last dot (`deDot`), else up to
the first NUL. -/
def chopped (label : Octets) (deDot : Bool) (first : Nat) : Octets :=
  if deDot then (label.drop first).take (label.length - first - 1)
  else (label.drop first).takeWhile fun c => c != 0

/-- The octets `label.c_str() + i.first` up to `label.c_str() + i.second`. -/
def rawPart (label : Octets) (i : Nat × Nat) : Octets :=
  ((label ++ [0]).drop i.1).take (i.2 - i.1)

/-- The two octets of a compression pointer. -/
def pointerTo (li : Nat) : Octets :=
  let offset : UInt16 := UInt16.ofNat li ||| 0xc000
  [(offset >>> 8).toUInt8, (offset &&& 0xff).toUInt8]

/-- The loop of `xfrLabel` over the labels of `label`, with the label map and `d_record`. -/
def xfrParts (label : Octets) (deDot unescaped compress : Bool) :
    List (Nat × Nat) → Nat → LabelMap → Octets → Option (LabelMap × Octets)
  | [], _, lmap, record => some (lmap, record ++ [0])
  | i :: is, pos, lmap, record =>
    let key := chopped label deDot i.1
    match (if compress then lmap.lookup key else none) with
    -- skip trailing 0 in case of compression
    | some li => some (lmap, record ++ pointerTo li)
    | none =>
      let lmap := if pos < 16384 then lmap ++ [(key, pos)] else lmap
      if unescaped then
        let part := replaceAll backslash backslash backslash
          (replaceAll backslash dot dot (rawPart label i))
        if part.length > 255 then none
        else xfrParts label deDot unescaped compress is (pos + part.length + 1) lmap
          (record ++ UInt8.ofNat part.length :: part)
      else xfrParts label deDot unescaped compress is (pos + (i.2 - i.1) + 1) lmap
        (record ++ UInt8.ofNat (i.2 - i.1) :: rawPart label i)

/-- `DNSPacketWriter::Place`. -/
inductive WriterPlace
  | ANSWER
  | AUTHORITY
  | ADDITIONAL
  deriving DecidableEq

/-- `DNSPacketWriter`. `d_stuff` is `0xffff` until the first `startRecord`. -/
structure DNSPacketWriter where
  d_content : Octets
  d_record : Octets := []
  d_qname : Octets
  d_recordqtype : UInt16 := 0
  d_recordqclass : UInt16 := 0
  d_recordttl : UInt32 := 0
  d_recordplace : WriterPlace := .ANSWER
  d_labelmap : LabelMap := []
  d_stuff : Nat := 0
  d_sor : Nat
  d_canonic : Bool := false
  deriving DecidableEq

namespace DNSPacketWriter

/-- `pos` of `xfrLabel`: the place in the packet of the octet written next. -/
def writePos (w : DNSPacketWriter) : Nat := w.d_content.length + w.d_record.length + w.d_stuff

/-- `xfrLabel(label, compress)`. -/
def xfrLabel (w : DNSPacketWriter) (label : Octets) (compress : Bool) : Option DNSPacketWriter :=
  let compress := if w.d_canonic then false else compress
  -- otherwise we encode '..'
  if label = [dot] then some { w with d_record := w.d_record ++ [0] }
  else
    let parts := labeltokUnescape label
    -- make sure we don't store trailing dots in the labelmap
    let deDot := label.getLast? == some dot
    (xfrParts label deDot parts.2 compress parts.1 w.writePos w.d_labelmap w.d_record).map
      fun r => { w with d_labelmap := r.1, d_record := r.2 }

/-- `xfrBlob(blob)`, which is also what the integer writers do with their octets. -/
def xfrBlob (w : DNSPacketWriter) (blob : Octets) : DNSPacketWriter :=
  { w with d_record := w.d_record ++ blob }

/-- The packet header with one question and nothing else. -/
def questionHeader (opcode : UInt8) : Octets :=
  [0, 0, (opcode &&& 15) <<< 3, 0, 0, 1, 0, 0, 0, 0, 0, 0]

/-- The constructor. `d_sor` is not initialised by it, so its value is arbitrary. -/
def create (qname : Octets) (qtype qclass : UInt16) (opcode : UInt8) (d_sor : Nat) :
    Option DNSPacketWriter := do
  let w ← xfrLabel { d_content := questionHeader opcode, d_qname := qname, d_sor := d_sor } qname
    false
  some { w with
    d_content := w.d_content ++ w.d_record ++ be16 qtype ++ be16 qclass
    d_record := []
    d_stuff := 0xffff }

/-- The record header in front of the rdata. -/
def recordHeader (w : DNSPacketWriter) : Octets :=
  be16 w.d_recordqtype ++ be16 w.d_recordqclass ++ be32 w.d_recordttl ++
    be16 (UInt16.ofNat w.d_record.length)

/-- Adds one to the 16 bit number at offset `off`. -/
def incrementAt (content : Octets) (off : Nat) : Octets :=
  let v := 256 * (content.getD off 0).toNat + (content.getD (off + 1) 0).toNat + 1
  (content.set off (UInt8.ofNat (v / 256))).set (off + 1) (UInt8.ofNat v)

/-- The offset in the header of the record count of a section. -/
def countOffset : WriterPlace → Nat
  | .ANSWER => 6
  | .AUTHORITY => 8
  | .ADDITIONAL => 10

/-- `commit()`. -/
def commit (w : DNSPacketWriter) : Option DNSPacketWriter :=
  if w.d_stuff = 0xffff ∧ (w.d_content.length ≠ w.d_sor ∨ w.d_record ≠ []) then none
  else some { w with
    d_content := incrementAt (w.d_content ++ w.recordHeader ++ w.d_record)
      (countOffset w.d_recordplace)
    d_stuff := 0
    d_record := [] }

/-- The owner name of `startRecord`. -/
def writeOwner (w : DNSPacketWriter) (name : Octets) : Option DNSPacketWriter :=
  -- don't do the whole label compression thing if we *know* we can get away with "see question"
  if pdnsIequals w.d_qname name then some { w with d_content := w.d_content ++ [0xc0, 0x0c] }
  else do
    let w ← w.xfrLabel name true
    some { w with d_content := w.d_content ++ w.d_record, d_record := [] }

/-- The first lines of `startRecord`: rdata that is still pending is committed. -/
def flush (w : DNSPacketWriter) : Option DNSPacketWriter :=
  if w.d_record ≠ [] then w.commit else some w

/-- `startRecord(name, qtype, ttl, qclass, place)`. -/
def startRecord (w : DNSPacketWriter) (name : Octets) (qtype : UInt16) (ttl : UInt32 := 3600)
    (qclass : UInt16 := 1) (place : WriterPlace := .ANSWER) : Option DNSPacketWriter := do
  let w ← w.flush
  let w ← writeOwner { w with
    d_recordqtype := qtype
    d_recordqclass := qclass
    d_recordttl := ttl
    d_recordplace := place
    d_stuff := 0 } name
  -- the dnsrecordheader will be interspersed
  some { w with d_stuff := 10, d_sor := w.d_content.length + 10 }

end DNSPacketWriter

end PowerDNS
