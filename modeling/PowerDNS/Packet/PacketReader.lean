import PowerDNS.Base.Octets

/-!
# Reading packets: `PacketReader`

The reader works on the packet without its 12 octet header, with 16 bit positions that
wrap. A read outside the packet throws `std::out_of_range`.

`getLabelFromContent` reads a name and follows pointers. The other getters are the fields
that the record parsers are made of (`Field`, `readField`): some go by their own length,
others by that of the record (`RecordWindow`).
-/

namespace PowerDNS

/-- How a read from a packet can fail. -/
inductive ReadError
  /-- `content.at(n)` outside the vector. -/
  | outOfRange
  /-- `MOADNSException` with its text. -/
  | moadns (text : String)
  /-- A `vector` or `string` made from a range that ends before it begins. -/
  | lengthError
  /-- The model ran out of steps. -/
  | fuel
  deriving DecidableEq

/-- `content.at(frompos)`. -/
def contentAt (content : Octets) (frompos : UInt16) : Except ReadError UInt8 :=
  match content[frompos.toNat]? with
  | some b => .ok b
  | none => .error .outOfRange

/-- The octets of one label, escaped. -/
def readLabelOctets (content : Octets) : Nat → UInt16 → Octets → Except ReadError (Octets × UInt16)
  | 0, frompos, ret => .ok (ret, frompos)
  | n + 1, frompos, ret => do
    let c ← contentAt content frompos
    readLabelOctets content n (frompos + 1)
      (ret ++ if c = dot ∨ c = backslash then [backslash, c] else [c])

/-- `getLabelFromContent(content, frompos, ret, recurs)`, with the new values of `ret` and
`frompos`. Every label and every pointer takes a unit of `fuel`. -/
def getLabelFromContent (content : Octets) :
    Nat → UInt16 → Octets → Nat → Except ReadError (Octets × UInt16)
  | 0, _, _, _ => .error .fuel
  | fuel + 1, frompos, ret, recurs =>
    if recurs > 10 then .error (.moadns "Loop")
    else do
      let labellen ← contentAt content frompos
      if labellen = 0 then
        pure (if ret = [] then [dot] else ret, frompos + 1)
      else if labellen &&& 0xc0 = 0xc0 then do
        let lo ← contentAt content (frompos + 1)
        let offset : UInt16 := 256 * (labellen &&& 0x3f).toUInt16 + lo.toUInt16 - 12
        let r ← getLabelFromContent content fuel offset ret (recurs + 1)
        pure (r.1, frompos + 2)
      else do
        let r ← readLabelOctets content labellen.toNat (frompos + 1) ret
        getLabelFromContent content fuel r.2 (r.1 ++ [dot]) recurs

/-- Fuel for any name: eleven times through a packet of any size. -/
def labelFuel : Nat := 12 * 65537

/-- `getLabel()`. -/
def getLabel (content : Octets) (d_pos : UInt16) : Except ReadError (Octets × UInt16) :=
  getLabelFromContent content labelFuel d_pos [] 0

/-! ### The getters -/

/-- `n` times `d_content.at(d_pos++)`. -/
def readOctets (content : Octets) : Nat → UInt16 → Except ReadError (Octets × UInt16)
  | 0, d_pos => .ok ([], d_pos)
  | n + 1, d_pos => do
    let c ← contentAt content d_pos
    let r ← readOctets content n (d_pos + 1)
    pure (c :: r.1, r.2)

/-- A number in network order. -/
def beNat (octets : Octets) : Nat := octets.foldl (fun v c => 256 * v + c.toNat) 0

/-- `string(&d_content.at(first), &d_content.at(last - 1) + 1)`. -/
def contentRange (content : Octets) (first last : Nat) : Except ReadError Octets :=
  if content.length ≤ first ∨ content.length ≤ last - 1 then .error .outOfRange
  else if last < first then .error .lengthError
  else .ok ((content.drop first).take (last - first))

/-- `txtEscape`. -/
def txtEscape (name : Octets) : Octets :=
  name.flatMap fun c => if c = 34 ∨ c = backslash then [backslash, c] else [c]

/-- The octets of one string of a text. -/
def textOctets (content : Octets) (d_pos : UInt16) (labellen : UInt8) : Except ReadError Octets :=
  -- no need to do anything for an empty string
  if labellen = 0 then .ok []
  else contentRange content d_pos.toNat (d_pos.toNat + labellen.toNat)

/-- The loop of `getText(multi)`; every string takes a unit of fuel. -/
def getTextFrom (content : Octets) (stop : Nat) (multi : Bool) :
    Nat → UInt16 → Octets → Except ReadError (Octets × UInt16)
  | 0, _, _ => .error .fuel
  | fuel + 1, d_pos, ret =>
    if d_pos.toNat < stop then do
      let labellen ← contentAt content d_pos
      let val ← textOctets content (d_pos + 1) labellen
      let ret := (if ret = [] then [] else ret ++ [32]) ++ [34] ++ txtEscape val ++ [34]
      let d_pos := d_pos + 1 + labellen.toUInt16
      if multi then getTextFrom content stop multi fuel d_pos ret else pure (ret, d_pos)
    else pure (ret, d_pos)

/-- `d_startrecordpos` and `d_recordlen`. -/
structure RecordWindow where
  d_startrecordpos : UInt16
  d_recordlen : UInt16

/-- `d_startrecordpos + d_recordlen`, an `int`. -/
def RecordWindow.stop (w : RecordWindow) : Nat := w.d_startrecordpos.toNat + w.d_recordlen.toNat

/-- Fuel for any text: a string for every octet of a packet. -/
def textFuel : Nat := 65537

/-- `getText(multi)`. -/
def getText (content : Octets) (w : RecordWindow) (multi : Bool) (d_pos : UInt16) :
    Except ReadError (Octets × UInt16) :=
  getTextFrom content w.stop multi textFuel d_pos []

/-- `xfrBlob(blob)`: the rest of the record, wherever the reader is. -/
def xfrRestBlob (content : Octets) (w : RecordWindow) (d_pos : UInt16) :
    Except ReadError (Octets × UInt16) :=
  if w.d_recordlen ≠ 0 then do
    let blob ← contentRange content d_pos.toNat w.stop
    pure (blob, w.d_startrecordpos + w.d_recordlen)
  else pure ([], w.d_startrecordpos + w.d_recordlen)

/-- `xfrBlob(blob, length)`. -/
def xfrSizedBlob (content : Octets) (length : Nat) (d_pos : UInt16) :
    Except ReadError (Octets × UInt16) :=
  if length ≠ 0 then do
    let blob ← contentRange content d_pos.toNat (d_pos.toNat + length)
    pure (blob, d_pos + UInt16.ofNat length)
  else pure ([], d_pos)

/-- `copyRecord(unsigned char* dest, uint16_t len)`. -/
def copyRecordTo (content : Octets) (len : Nat) (d_pos : UInt16) :
    Except ReadError (Octets × UInt16) :=
  if d_pos.toNat + len > content.length then
    .error (.moadns "Attempt to copy outside of packet")
  else do
    -- the address of the first octet is taken even for an empty copy
    let _ ← contentAt content d_pos
    pure ((content.drop d_pos.toNat).take len, d_pos + UInt16.ofNat len)

/-- The fields of record content, as the `xfr…` calls of the record classes read them. -/
inductive Field
  /-- `xfr8BitInt`, `xfr16BitInt`, `xfrType`, `xfr32BitInt`, `xfrIP`, `xfrTime` and
  `xfr48BitInt`, by their number of octets. -/
  | int (octets : Nat)
  /-- `xfrLabel`. -/
  | label
  /-- `xfrText(text, multi)`. -/
  | text (multi : Bool)
  /-- `xfrBlob(blob)` and `xfrHexBlob(blob)`. -/
  | restBlob
  /-- A length of so many octets, and `xfrBlob(blob, length)`. -/
  | sizedBlob (lengthOctets : Nat)
  /-- `copyRecord(dest, len)` to a fixed buffer. -/
  | copyTo (len : Nat)
  /-- `copyRecord(dest, dr.d_clen)` to a vector. -/
  | copyAll
  deriving DecidableEq

/-- What was read for a field. -/
inductive FieldValue
  | int (n : Nat)
  | octets (s : Octets)
  deriving DecidableEq

/-- Reads one field. -/
def readField (content : Octets) (w : RecordWindow) (d_pos : UInt16) :
    Field → Except ReadError (FieldValue × UInt16)
  | .int n => do let r ← readOctets content n d_pos; pure (.int (beNat r.1), r.2)
  | .label => do let r ← getLabel content d_pos; pure (.octets r.1, r.2)
  | .text multi => do let r ← getText content w multi d_pos; pure (.octets r.1, r.2)
  | .restBlob => do let r ← xfrRestBlob content w d_pos; pure (.octets r.1, r.2)
  | .sizedBlob n => do
    let len ← readOctets content n d_pos
    let r ← xfrSizedBlob content (beNat len.1) len.2
    pure (.octets r.1, r.2)
  | .copyTo len => do let r ← copyRecordTo content len d_pos; pure (.octets r.1, r.2)
  | .copyAll => do
    let r ← readOctets content w.d_recordlen.toNat d_pos
    pure (.octets r.1, r.2)

/-- Reads the fields of a record in order. -/
def readFields (content : Octets) (w : RecordWindow) :
    List Field → UInt16 → Except ReadError (List FieldValue × UInt16)
  | [], d_pos => .ok ([], d_pos)
  | f :: fs, d_pos => do
    let v ← readField content w d_pos f
    let vs ← readFields content w fs v.2
    pure (v.1 :: vs.1, vs.2)

end PowerDNS
