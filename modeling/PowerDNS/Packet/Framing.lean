import PowerDNS.Packet.MOADNSParser
import PowerDNS.Packet.NameReading

/-!
# Where the records of a packet end

Two functions walk through the records of a packet. `MOADNSParser` continues wherever the
parser of a record's content left the reader; everything that only skips records
(`ageDNSPacket`, for one) goes by the length in the record header. They agree when the
fields of every record fill exactly its rdata.

The size a field has on the wire is a matter of the octets at its place alone (`fieldSize`,
`nameSize`). A list of fields *tiles* a stretch of a packet (`Tiles`) when each begins where
the one before ends, none leaves the stretch and the last ends with it. `init_framed_iff`
says that the parser stays within the rdata of every record of a packet, and ends with it,
if and only if the fields of the record's type tile the rdata, record by record as the
lengths in the headers place them. For addresses and for unknown types this is always so
(`tiles_copyAll`, `tiles_int`); for a record that ends in a name nothing in the code makes it
so, and `hidden_record_parsed` is a packet with a record inside the rdata of another.
-/

namespace PowerDNS

open Option

/-! ### Sizes on the wire -/

/-- The size of an encoded name at the front of some octets, `skip` octets of a label to
go. -/
def nameSizeFrom : Nat → Octets → Option Nat
  | _, [] => none
  | skip + 1, _ :: t => (nameSizeFrom skip t).map (· + 1)
  | 0, c :: t =>
    if c = 0 then some 1
    else if 192 ≤ c then (if t = [] then none else some 2)
    else (nameSizeFrom c.toNat t).map (· + 1)

/-- The size of the encoded name at `p`. -/
def nameSize (content : Octets) (p : Nat) : Option Nat := nameSizeFrom 0 (content.drop p)

/-- The size of the strings from `p` until `stop` is reached. -/
def textsSize (content : Octets) (stop : Nat) : Nat → Nat → Option Nat
  | 0, _ => none
  | fuel + 1, p =>
    if p < stop then do
      let len ← content[p]?
      let n ← textsSize content stop fuel (p + (1 + len.toNat))
      some (1 + len.toNat + n)
    else some 0

/-- The size of a field at `p`, in a record with `clen` octets of rdata that end at
`stop`. -/
def fieldSize (content : Octets) (clen stop : Nat) (p : Nat) : Field → Option Nat
  | .int n => some n
  | .label => nameSize content p
  | .text true => textsSize content stop (stop - p + 1) p
  | .text false => if p < stop then (content[p]?).map fun len => 1 + len.toNat else some 0
  | .restBlob => some (stop - p)
  | .sizedBlob n => some (n + beNat ((content.drop p).take n))
  | .copyTo len => some len
  | .copyAll => some clen

/-- The fields, one behind the other from `p` on, end exactly at `stop`. -/
def Tiles (content : Octets) (clen stop : Nat) : List Field → Nat → Bool
  | [], p => p == stop
  | f :: fs, p =>
    match fieldSize content clen stop p f with
    | some n => decide (p + n ≤ stop) && Tiles content clen stop fs (p + n)
    | none => false

/-! ### The getters move by the size of what they read -/

section Getters

variable {content : Octets}

theorem toNat_add {a b : UInt16} (h : a.toNat + b.toNat < 65536) :
    (a + b).toNat = a.toNat + b.toNat := by
  rw [UInt16.toNat_add, Nat.mod_eq_of_lt h]

variable {d_pos : UInt16}

theorem contentAt_ok {c : UInt8} (h : contentAt content d_pos = .ok c) :
    content[d_pos.toNat]? = some c := by
  unfold contentAt at h
  split at h
  next b hb =>
    cases h
    exact hb
  next => cases h

theorem contentAt_lt {c : UInt8} (h : contentAt content d_pos = .ok c) :
    d_pos.toNat < content.length :=
  (List.getElem?_eq_some_iff.mp (contentAt_ok h)).1

/-- In a packet whose length fits 16 bits the position behind an octet does not wrap. -/
theorem toNat_succ (hsize : content.length ≤ 65535)
    (h : d_pos.toNat < content.length) : (d_pos + 1).toNat = d_pos.toNat + 1 :=
  toNat_add (show d_pos.toNat + (1 : UInt16).toNat < 65536 by
    show d_pos.toNat + 1 < 65536
    omega)

theorem bind_ok {α β : Type} {m : Except ReadError α} {k : α → Except ReadError β} {b : β}
    (h : m >>= k = .ok b) : ∃ a, m = .ok a ∧ k a = .ok b := by
  cases m with
  | error e => cases h
  | ok a => exact ⟨a, rfl, h⟩

variable {r : Octets × UInt16}

theorem readOctets_ok (hsize : content.length ≤ 65535) {n : Nat}
    (h : readOctets content n d_pos = .ok r) :
    r.1 = (content.drop d_pos.toNat).take n ∧ r.2.toNat = d_pos.toNat + n := by
  induction n generalizing d_pos r with
  | zero =>
    cases h
    simp
  | succ n ih =>
    obtain ⟨c, hc, h⟩ := bind_ok h
    obtain ⟨rest, hrest, h⟩ := bind_ok h
    cases h
    obtain ⟨hoctets, hpos⟩ := ih hrest
    have hlt := contentAt_lt hc
    rw [toNat_succ hsize hlt] at hoctets hpos
    refine ⟨?_, by show rest.2.toNat = _; omega⟩
    have hget : content[d_pos.toNat] = c :=
      (List.getElem?_eq_some_iff.mp (contentAt_ok hc)).2
    rw [List.drop_eq_getElem_cons hlt, List.take_succ_cons, hget, hoctets]

theorem contentRange_ok {first last : Nat} {s : Octets}
    (h : contentRange content first last = .ok s) :
    first < content.length ∧ first ≤ last ∧ last ≤ content.length := by
  unfold contentRange at h
  split at h
  next => cases h
  next hin =>
    split at h
    next => cases h
    next => omega

theorem readLabelOctets_ok (hsize : content.length ≤ 65535) {n : Nat}
    {ret : Octets} (hpos : d_pos.toNat ≤ content.length)
    (h : readLabelOctets content n d_pos ret = .ok r) :
    r.2.toNat = d_pos.toNat + n ∧ r.2.toNat ≤ content.length := by
  induction n generalizing d_pos ret with
  | zero =>
    cases h
    exact ⟨rfl, hpos⟩
  | succ n ih =>
    obtain ⟨c, hc, h⟩ := bind_ok h
    have hlt := contentAt_lt hc
    have hsucc := toNat_succ hsize hlt
    obtain ⟨hr, hle⟩ := ih (by omega) h
    exact ⟨by omega, hle⟩

/-- Skipping the octets of a label. -/
theorem nameSizeFrom_skip {skip : Nat} {l : Octets} (h : skip ≤ l.length) :
    nameSizeFrom skip l = (nameSizeFrom 0 (l.drop skip)).map (· + skip) := by
  induction skip generalizing l with
  | zero => simp
  | succ skip ih =>
    cases l with
    | nil => simp at h
    | cons c t =>
      rw [nameSizeFrom, List.drop_succ_cons, ih (Nat.le_of_succ_le_succ h), map_map]
      rfl

theorem nameSize_label {p : Nat} {c : UInt8} (hc : content[p]? = some c) (hzero : c ≠ 0)
    (hptr : ¬192 ≤ c) (hlen : p + 1 + c.toNat ≤ content.length) :
    nameSize content p = (nameSize content (p + 1 + c.toNat)).map (· + (c.toNat + 1)) := by
  obtain ⟨hlt, hget⟩ := List.getElem?_eq_some_iff.mp hc
  unfold nameSize
  rw [List.drop_eq_getElem_cons hlt, hget, nameSizeFrom, if_neg hzero, if_neg hptr,
    nameSizeFrom_skip (by rw [List.length_drop]; omega), List.drop_drop, map_map]
  rfl

/-- **Names.** Behind the name it has read, the reader is where the encoded name ends,
wherever its pointers led. -/
theorem getLabelFromContent_ok (hsize : content.length ≤ 65535) {fuel : Nat}
    {ret : Octets} {recurs : Nat}
    (h : getLabelFromContent content fuel d_pos ret recurs = .ok r) :
    ∃ n, nameSize content d_pos.toNat = some n ∧ r.2.toNat = d_pos.toNat + n := by
  induction fuel generalizing d_pos ret with
  | zero => cases h
  | succ fuel ih =>
    rw [getLabelFromContent] at h
    split at h
    next => cases h
    next =>
      obtain ⟨c, hc, h⟩ := bind_ok h
      have hlt := contentAt_lt hc
      have hsucc := toNat_succ hsize hlt
      have hget := contentAt_ok hc
      obtain ⟨_, hgetElem⟩ := List.getElem?_eq_some_iff.mp hget
      split at h
      next hzero =>
        cases h
        refine ⟨1, ?_, hsucc⟩
        unfold nameSize
        rw [List.drop_eq_getElem_cons hlt, hgetElem, nameSizeFrom, if_pos hzero]
      next hzero =>
        split at h
        next hptr =>
          -- the position behind a pointer does not depend on where it leads
          obtain ⟨lo, hlo, h⟩ := bind_ok h
          obtain ⟨_, _, h⟩ := bind_ok h
          cases h
          have hlt' := contentAt_lt hlo
          refine ⟨2, ?_, ?_⟩
          · unfold nameSize
            have hne : content.drop (d_pos.toNat + 1) ≠ [] := by
              rw [ne_eq, List.drop_eq_nil_iff]
              omega
            rw [List.drop_eq_getElem_cons hlt, hgetElem, nameSizeFrom, if_neg hzero,
              if_pos ((and_c0_iff c).mp hptr), if_neg hne]
          · have htwo : d_pos + 2 = d_pos + 1 + 1 := by
              rw [UInt16.add_assoc]
              rfl
            rw [htwo, toNat_succ hsize hlt', hsucc]
        next hptr =>
          obtain ⟨v, hv, h⟩ := bind_ok h
          obtain ⟨hvpos, hvle⟩ := readLabelOctets_ok hsize (by omega) hv
          obtain ⟨n, hn, hr⟩ := ih h
          have hnot : ¬192 ≤ c := fun hle => hptr ((and_c0_iff c).mpr hle)
          rw [hsucc] at hvpos
          refine ⟨n + (c.toNat + 1), ?_, by omega⟩
          rw [nameSize_label hget hzero hnot (by omega), ← hvpos, hn]
          rfl

/-- The position behind one string of a text. -/
theorem textOctets_pos (hsize : content.length ≤ 65535) {len : UInt8}
    {val : Octets} (hlen : contentAt content d_pos = .ok len)
    (hval : textOctets content (d_pos + 1) len = .ok val) :
    (d_pos + 1 + len.toUInt16).toNat = d_pos.toNat + (1 + len.toNat) := by
  have hlt := contentAt_lt hlen
  have hsucc := toNat_succ hsize hlt
  have hle : d_pos.toNat + 1 + len.toNat ≤ content.length := by
    unfold textOctets at hval
    split at hval
    next hzero =>
      rw [hzero]
      show d_pos.toNat + 1 + 0 ≤ _
      omega
    next =>
      have := (contentRange_ok hval).2.2
      omega
  rw [toNat_add (by rw [hsucc, UInt8.toNat_toUInt16]; omega), hsucc, UInt8.toNat_toUInt16]
  omega

/-- **Texts.** The reader moves by the size of the strings it takes. -/
theorem getTextFrom_ok (hsize : content.length ≤ 65535) {stop : Nat} {multi : Bool}
    {fuel : Nat} {ret : Octets}
    (h : getTextFrom content stop multi fuel d_pos ret = .ok r) (clen : Nat) :
    ∃ n, fieldSize content clen stop d_pos.toNat (.text multi) = some n ∧
      r.2.toNat = d_pos.toNat + n := by
  cases multi with
  | false =>
    cases fuel with
    | zero => cases h
    | succ fuel =>
      rw [getTextFrom] at h
      rw [fieldSize]
      split at h
      next hlt =>
        obtain ⟨len, hlen, h⟩ := bind_ok h
        obtain ⟨val, hval, h⟩ := bind_ok h
        cases h
        refine ⟨1 + len.toNat, ?_, textOctets_pos hsize hlen hval⟩
        rw [if_pos hlt, contentAt_ok hlen]
        rfl
      next hlt =>
        cases h
        exact ⟨0, if_neg hlt, rfl⟩
  | true =>
    -- any fuel above the number of octets left gives the size
    have hall : ∀ (enough : Nat), stop - d_pos.toNat + 1 ≤ enough →
        ∃ n, textsSize content stop enough d_pos.toNat = some n ∧
          r.2.toNat = d_pos.toNat + n := by
      induction fuel generalizing d_pos ret with
      | zero => cases h
      | succ fuel ih =>
        intro enough henough
        obtain ⟨enough, rfl⟩ : ∃ k, enough = k + 1 := ⟨enough - 1, by omega⟩
        rw [getTextFrom] at h
        rw [textsSize]
        split at h
        next hlt =>
          obtain ⟨len, hlen, h⟩ := bind_ok h
          obtain ⟨val, hval, h⟩ := bind_ok h
          have hpos := textOctets_pos hsize hlen hval
          obtain ⟨n, hn, hr⟩ := ih h enough (by omega)
          rw [hpos] at hn hr
          refine ⟨1 + len.toNat + n, ?_, by omega⟩
          rw [if_pos hlt, contentAt_ok hlen]
          simp [hn]
        next hlt =>
          cases h
          exact ⟨0, if_neg hlt, rfl⟩
    exact hall _ le_rfl

/-- **Fields.** A field that is read within the record moves the reader by its size. -/
theorem readField_ok (hsize : content.length ≤ 65535) {w : RecordWindow}
    {f : Field} {r : FieldValue × UInt16} (hin : d_pos.toNat ≤ w.stop)
    (h : readField content w d_pos f = .ok r) :
    ∃ n, fieldSize content w.d_recordlen.toNat w.stop d_pos.toNat f = some n ∧
      r.2.toNat = d_pos.toNat + n := by
  cases f with
  | int n =>
    obtain ⟨v, hv, h⟩ := bind_ok h
    cases h
    exact ⟨n, rfl, (readOctets_ok hsize hv).2⟩
  | label =>
    obtain ⟨v, hv, h⟩ := bind_ok h
    cases h
    exact getLabelFromContent_ok hsize hv
  | text multi =>
    obtain ⟨v, hv, h⟩ := bind_ok h
    cases h
    exact getTextFrom_ok hsize hv _
  | restBlob =>
    obtain ⟨v, hv, h⟩ := bind_ok h
    cases h
    refine ⟨w.stop - d_pos.toNat, rfl, ?_⟩
    unfold xfrRestBlob at hv
    unfold RecordWindow.stop at hin ⊢
    split at hv
    next =>
      obtain ⟨blob, hblob, hv⟩ := bind_ok hv
      cases hv
      have hle := (contentRange_ok hblob).2.2
      unfold RecordWindow.stop at hle
      rw [toNat_add (by omega)]
      omega
    next hzero =>
      cases hv
      rw [ne_eq, not_not] at hzero
      have hlt := w.d_startrecordpos.toNat_lt
      rw [hzero] at hin ⊢
      rw [toNat_add (by simpa using hlt)]
      omega
  | sizedBlob n =>
    obtain ⟨len, hlen, h⟩ := bind_ok h
    obtain ⟨v, hv, h⟩ := bind_ok h
    cases h
    obtain ⟨hoctets, hpos⟩ := readOctets_ok hsize hlen
    refine ⟨_, rfl, ?_⟩
    rw [← hoctets]
    unfold xfrSizedBlob at hv
    split at hv
    next =>
      obtain ⟨blob, hblob, hv⟩ := bind_ok hv
      cases hv
      have hle := (contentRange_ok hblob).2.2
      have hnat : (UInt16.ofNat (beNat len.1)).toNat = beNat len.1 := by
        rw [UInt16.toNat_ofNat']
        omega
      rw [toNat_add (by omega), hnat, hpos]
      omega
    next hzero =>
      cases hv
      rw [ne_eq, not_not] at hzero
      rw [hzero]
      exact hpos
  | copyTo len =>
    obtain ⟨v, hv, h⟩ := bind_ok h
    cases h
    refine ⟨len, rfl, ?_⟩
    unfold copyRecordTo at hv
    split at hv
    next => cases hv
    next hle =>
      obtain ⟨_, _, hv⟩ := bind_ok hv
      cases hv
      have hnat : (UInt16.ofNat len).toNat = len := by
        rw [UInt16.toNat_ofNat']
        omega
      rw [toNat_add (by omega), hnat]
  | copyAll =>
    obtain ⟨v, hv, h⟩ := bind_ok h
    cases h
    exact ⟨_, rfl, (readOctets_ok hsize hv).2⟩

end Getters

/-! ### Records -/

/-- While it reads the fields, the reader does not leave the record. -/
def Inside (content : Octets) (w : RecordWindow) : List Field → UInt16 → Prop
  | [], d_pos => d_pos.toNat ≤ w.stop
  | f :: fs, d_pos =>
    d_pos.toNat ≤ w.stop ∧ ∀ v, readField content w d_pos f = .ok v → Inside content w fs v.2

theorem Inside.le {content : Octets} {w : RecordWindow} {fs : List Field} {d_pos : UInt16}
    (h : Inside content w fs d_pos) : d_pos.toNat ≤ w.stop := by
  cases fs with
  | nil => exact h
  | cons => exact h.1

/-- Record number `n` of a packet ends where its header says and its content is read within
these bounds; then come the others. The positions are those at which the parser has
stopped. -/
def FramedFrom (types : TypeMap) (content : Octets) :
    Nat → List (DNSRecord × UInt16) → Prop
  | _, [] => True
  | start, (dr, d_pos) :: rest =>
    ∃ own, nameSize content start = some own ∧
      Inside content ⟨UInt16.ofNat (start + own + 10), dr.d_clen⟩
        (types.makerOf dr.d_class dr.d_type).fields (UInt16.ofNat (start + own + 10)) ∧
      d_pos.toNat = start + own + 10 + dr.d_clen.toNat ∧
      FramedFrom types content d_pos.toNat rest

/-- The record header at `p`. -/
def headerAt (content : Octets) (p : Nat) : DnsRecordHeader :=
  DnsRecordHeader.ofOctets ((content.drop p).take 10)

/-- The fields of the next `left` records tile their rdata. The positions are those the
lengths in the record headers lead to. -/
def TiledFrom (types : TypeMap) (content : Octets) : Nat → Nat → Bool
  | 0, _ => true
  | left + 1, start =>
    match nameSize content start with
    | none => false
    | some own =>
      let ah := headerAt content (start + own)
      let rdata := start + own + 10
      let next := rdata + ah.d_clen.toNat
      Tiles content ah.d_clen.toNat next (types.makerOf ah.d_class ah.d_type).fields rdata &&
        TiledFrom types content left next

/-- The position behind `n` questions. -/
def questionsEnd (content : Octets) : Nat → Nat → Option Nat
  | 0, p => some p
  | n + 1, p => do
    let own ← nameSize content p
    questionsEnd content n (p + own + 4)

section Records

variable {types : TypeMap} {content : Octets}

variable {d_pos : UInt16}

/-- For fields that could be read: the reader stays inside and ends with the record exactly
when the fields tile it. -/
theorem readFields_iff (hsize : content.length ≤ 65535) {w : RecordWindow} {fs : List Field}
    {r : List FieldValue × UInt16} (hin : d_pos.toNat ≤ w.stop)
    (h : readFields content w fs d_pos = .ok r) :
    Inside content w fs d_pos ∧ r.2.toNat = w.stop ↔
      Tiles content w.d_recordlen.toNat w.stop fs d_pos.toNat = true := by
  induction fs generalizing d_pos r with
  | nil =>
    cases h
    rw [Tiles, beq_iff_eq]
    exact ⟨And.right, fun hend => ⟨hin, hend⟩⟩
  | cons f fs ih =>
    obtain ⟨v, hv, h⟩ := bind_ok h
    obtain ⟨vs, hvs, h⟩ := bind_ok h
    cases h
    obtain ⟨n, hn, hpos⟩ := readField_ok hsize hin hv
    simp only [Tiles, hn, Bool.and_eq_true, decide_eq_true_eq]
    rw [← hpos]
    constructor
    · rintro ⟨⟨_, hinside⟩, hend⟩
      have hrest := hinside v hv
      exact ⟨hrest.le, (ih hrest.le hvs).mp ⟨hrest, hend⟩⟩
    · rintro ⟨hle, htiles⟩
      obtain ⟨hrest, hend⟩ := (ih hle hvs).mpr htiles
      refine ⟨⟨hin, fun v' hv' => ?_⟩, hend⟩
      rw [hv] at hv'
      cases hv'
      exact hrest

/-- What is known of a record that was parsed at `d_pos`. -/
theorem parseRecord_ok (hsize : content.length ≤ 65535) {place : RecordPlace}
    {r : DNSRecord × UInt16} (h : parseRecord types content place d_pos = .ok r) :
    ∃ (own : Nat) (rdata : UInt16) (values : List FieldValue),
      nameSize content d_pos.toNat = some own ∧ rdata.toNat = d_pos.toNat + own + 10 ∧
      r.1.d_type = (headerAt content (d_pos.toNat + own)).d_type ∧
      r.1.d_class = (headerAt content (d_pos.toNat + own)).d_class ∧
      r.1.d_clen = (headerAt content (d_pos.toNat + own)).d_clen ∧
      readFields content ⟨rdata, r.1.d_clen⟩ (types.makerOf r.1.d_class r.1.d_type).fields rdata
        = .ok (values, r.2) := by
  obtain ⟨label, hlabel, h⟩ := bind_ok h
  obtain ⟨header, hheader, h⟩ := bind_ok h
  obtain ⟨content', hcontent, h⟩ := bind_ok h
  cases h
  obtain ⟨own, hown, hlabelpos⟩ := getLabelFromContent_ok hsize hlabel
  obtain ⟨hoctets, hheaderpos⟩ := readOctets_ok hsize hheader
  rw [hlabelpos] at hoctets hheaderpos
  refine ⟨own, header.2, content'.1, hown, hheaderpos, ?_, ?_, ?_, ?_⟩
  · rw [hoctets]; rfl
  · rw [hoctets]; rfl
  · rw [hoctets]; rfl
  · unfold mastermake at hcontent
    dsimp only at hcontent
    split at hcontent
    next => cases hcontent
    next =>
      obtain ⟨values, hvalues, hcontent⟩ := bind_ok hcontent
      split at hcontent
      next => cases hcontent
      next =>
        cases hcontent
        exact hvalues

/-- The parser frames the records it has parsed exactly when their fields tile them. The
next record begins at the same place in both readings as long as they agree. -/
theorem parseRecords_iff (hsize : content.length ≤ 65535) {place : Nat → RecordPlace}
    {left n : Nat} {answers : List (DNSRecord × UInt16)}
    (h : parseRecords types content place left n d_pos = (answers, none)) :
    FramedFrom types content d_pos.toNat answers ↔
      TiledFrom types content left d_pos.toNat = true := by
  induction left generalizing n d_pos answers with
  | zero =>
    cases h
    simp [FramedFrom, TiledFrom]
  | succ left ih =>
    rw [parseRecords] at h
    cases hrecord : parseRecord types content (place n) d_pos with
    | error e =>
      rw [hrecord] at h
      cases h
    | ok r =>
      rw [hrecord] at h
      obtain ⟨own, rdata, values, hown, hrdata, htype, hclass, hclen, hfields⟩ :=
        parseRecord_ok hsize hrecord
      cases hrest : parseRecords types content place left (n + 1) r.2 with
      | mk rest err =>
        simp only [hrest, Prod.mk.injEq] at h
        obtain ⟨rfl, rfl⟩ := h
        have hofNat : UInt16.ofNat (d_pos.toNat + own + 10) = rdata := by
          rw [← hrdata, UInt16.ofNat_toNat]
        have hiff := readFields_iff hsize (Nat.le_add_right _ _) hfields
        unfold RecordWindow.stop at hiff
        rw [hrdata] at hiff
        simp only [FramedFrom, TiledFrom, hown, Option.some.injEq, exists_eq_left', hofNat,
          Bool.and_eq_true, ← htype, ← hclass, ← hclen]
        rw [← hiff, and_assoc]
        refine and_congr_right fun _ => and_congr_right fun hend => ?_
        rw [hend, ← hend]
        exact ih hrest

theorem length_parseRecords {place : Nat → RecordPlace} {left n : Nat} {d_pos : UInt16} :
    (parseRecords types content place left n d_pos).2 ≠ none →
      (parseRecords types content place left n d_pos).1.length < left := by
  induction left generalizing n d_pos with
  | zero => exact fun h => absurd rfl h
  | succ left ih =>
    rw [parseRecords]
    cases parseRecord types content (place n) d_pos with
    | error e => exact fun _ => Nat.succ_pos left
    | ok r => exact fun h => Nat.succ_lt_succ (ih h)

theorem readQuestions_ok (hsize : content.length ≤ 65535) {n : Nat}
    {q r : (Octets × UInt16 × UInt16) × UInt16} (h : readQuestions content n q = .ok r) :
    questionsEnd content n q.2.toNat = some r.2.toNat := by
  induction n generalizing q with
  | zero =>
    cases h
    rfl
  | succ n ih =>
    obtain ⟨label, hlabel, h⟩ := bind_ok h
    obtain ⟨qtype, hqtype, h⟩ := bind_ok h
    obtain ⟨qclass, hqclass, h⟩ := bind_ok h
    obtain ⟨own, hown, hlabelpos⟩ := getLabelFromContent_ok hsize hlabel
    have htypepos := (readOctets_ok hsize hqtype).2
    have hclasspos := (readOctets_ok hsize hqclass).2
    have hrest := ih h
    rw [show (qclass.2).toNat = q.2.toNat + own + 4 by omega] at hrest
    rw [questionsEnd, hown]
    exact hrest

end Records

/-! ### Packets -/

/-- Every record of a parsed packet is framed, from the end of the questions on. -/
def Framed (types : TypeMap) (p : MOADNSParser) : Prop :=
  ∃ start, questionsEnd p.d_content p.d_header.qdcount.toNat 0 = some start ∧
    FramedFrom types p.d_content start p.d_answers

/-- The fields of every record that the header of a packet announces tile its rdata. -/
def RecordsTiled (types : TypeMap) (packet : Octets) : Bool :=
  match questionsEnd (packetContent packet) (Dnsheader.ofPacket packet).qdcount.toNat 0 with
  | some start =>
    TiledFrom types (packetContent packet) (Dnsheader.ofPacket packet).recordCount start
  | none => false

theorem length_packetContent (packet : Octets) : (packetContent packet).length ≤ 65535 := by
  unfold packetContent
  rw [List.length_take]
  omega

/-- **Framing.** Of a packet that is accepted and not truncated, the parser frames every
record, whatever types are registered, exactly when the fields of every record tile its
rdata. -/
theorem init_framed_iff (types : TypeMap) (packet : Octets) (p : MOADNSParser)
    (h : MOADNSParser.init types packet = .ok p)
    (hwhole : p.d_answers.length = (Dnsheader.ofPacket packet).recordCount) :
    Framed types p ↔ RecordsTiled types packet = true := by
  have hsize := length_packetContent packet
  unfold MOADNSParser.init at h
  dsimp only at h
  split at h
  next => cases h
  next =>
    split at h
    next => cases h
    next =>
      split at h
      next => cases h
      next => cases h
      next q hq =>
        have hstart := readQuestions_ok hsize hq
        unfold RecordsTiled
        rw [show ((([], 0, 0), 0) : (Octets × UInt16 × UInt16) × UInt16).2.toNat = 0 from rfl]
          at hstart
        split at h
        next answers hrecords =>
          cases h
          unfold Framed
          rw [hstart]
          simp only [Option.some.injEq, exists_eq_left']
          exact parseRecords_iff hsize hrecords
        next answers hrecords =>
          -- a truncated packet has fewer records than announced
          have hlt := @length_parseRecords types (packetContent packet)
            (Dnsheader.ofPacket packet).place (Dnsheader.ofPacket packet).recordCount 0 q.2
            (by rw [hrecords]; simp)
          rw [hrecords] at hlt
          split at h
          next =>
            cases h
            exact absurd hwhole (Nat.ne_of_lt hlt)
          next => cases h
        next => cases h

theorem eq_ok_of_toOption {α : Type} {m : Except ReadError α} {a : α}
    (h : m.toOption = some a) : m = .ok a := by
  cases m with
  | error e => cases h
  | ok b =>
    cases h
    rfl

/-- A reply with one address: `.` has the address 192.0.2.1. -/
def oneAddress : Octets :=
  [0, 0, 0x80, 0, 0, 0, 0, 1, 0, 0, 0, 0] ++
    [0, 0, 1, 0, 1, 0, 0, 0, 60, 0, 4, 192, 0, 2, 1]

theorem one_address_framed :
    ∃ p, MOADNSParser.init reportAllTypes oneAddress = .ok p ∧ Framed reportAllTypes p := by
  have haccepted : (MOADNSParser.init reportAllTypes oneAddress).toOption.any
      (fun p => p.d_answers.length == (Dnsheader.ofPacket oneAddress).recordCount) = true := by
    decide
  obtain ⟨p, hp, hlen⟩ := (any_eq_true _ _).mp haccepted
  have hok : MOADNSParser.init reportAllTypes oneAddress = .ok p := eq_ok_of_toOption hp
  exact ⟨p, hok, (init_framed_iff reportAllTypes oneAddress p hok (beq_iff_eq.mp hlen)).mpr
    (by decide)⟩

/-- A reply with two records: a PTR record with 16 octets of rdata, of which the name `.`
takes the first and an address record for 6.6.6.6 the others, and an address record for
192.0.2.1. -/
def hiddenRecord : Octets :=
  [0, 0, 0x80, 0, 0, 0, 0, 2, 0, 0, 0, 0] ++
    [0, 0, 12, 0, 1, 0, 0, 0, 60, 0, 16, 0] ++
      [0, 0, 1, 0, 1, 0, 0, 0, 60, 0, 4, 6, 6, 6, 6] ++
    [0, 0, 1, 0, 1, 0, 0, 0, 60, 0, 4, 192, 0, 2, 1]

/-- **A record inside the rdata of another.** The parser accepts the packet and returns the
address 6.6.6.6 as its second record; the first one is not framed. -/
theorem hidden_record_parsed :
    ∃ p, MOADNSParser.init reportAllTypes hiddenRecord = .ok p ∧
      p.d_answers.length = (Dnsheader.ofPacket hiddenRecord).recordCount ∧
      ¬Framed reportAllTypes p := by
  have haccepted : (MOADNSParser.init reportAllTypes hiddenRecord).toOption.any
      (fun p => p.d_answers.length == (Dnsheader.ofPacket hiddenRecord).recordCount &&
        p.d_header.qdcount == 0 && nameSize p.d_content 0 == some 1 &&
        p.d_answers.head?.any fun r => r.1.d_clen == 16 && r.2 == 12) = true := by
    decide
  obtain ⟨p, hp, hfacts⟩ := (any_eq_true _ _).mp haccepted
  simp only [Bool.and_eq_true, beq_iff_eq] at hfacts
  obtain ⟨⟨⟨hlen, hqdcount⟩, hname⟩, hhead⟩ := hfacts
  have hok : MOADNSParser.init reportAllTypes hiddenRecord = .ok p := eq_ok_of_toOption hp
  refine ⟨p, hok, hlen, ?_⟩
  rintro ⟨start, hstart, hframed⟩
  rw [hqdcount] at hstart
  obtain rfl : 0 = start := some.inj hstart
  cases hanswers : p.d_answers with
  | nil =>
    rw [hanswers] at hhead
    cases hhead
  | cons r rest =>
    rw [hanswers] at hframed hhead
    simp only [List.head?_cons, any_some, Bool.and_eq_true, beq_iff_eq] at hhead
    obtain ⟨own, hown, _, hend, _⟩ := hframed
    rw [hname] at hown
    obtain rfl := some.inj hown
    -- it ends at 12 where its header says 27
    rw [hhead.1, hhead.2] at hend
    exact absurd hend (by decide)

end PowerDNS
