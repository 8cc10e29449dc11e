import PowerDNS.Auth.Wrapup
import PowerDNS.Auth.Zone
import PowerDNS.Lib.StoppedRun
import PowerDNS.Packet.FramedWriting

/-!
# The octets of a reply: `DNSPacket::wrapup`

`wrapup` writes the records of a reply with a `DNSPacketWriter`. Here the writer is the real one,
and a `ReplyEnv` has what the rdata comes from: the calls of `toPacket`, and what `fillOutRRSIG`
puts into a signature.

Three functions put records into the packet. The loop over the records looks at the size behind each
of its own: when 20 octets more would be too many, it rolls the record back and is done. `addSignature`
and `addOpt` do not look. So the 20 octets are all there is for the last signatures and the OPT record
together, and nothing for signatures in front of a record that does not fit. The size is a number of
16 bits, and a record without rdata is not committed when another one is started.

`fits_over_udp_iff` says which replies come out right over UDP.
-/

namespace PowerDNS

open Batches DNSPacket ResponseRun List Option Bool

/-! ### The code -/

/-- The fields of the header that `wrapup` sets. The id stays in the order of the network. -/
structure ReplyHeader where
  id : UInt16
  qr : Bool := true
  aa : Bool := true
  rd : Bool := false
  ra : Bool := false
  rcode : UInt8 := 0
  deriving DecidableEq

/-- The first four octets. -/
def ReplyHeader.octets (d : ReplyHeader) (tc : Bool) : Octets :=
  be16 d.id ++ [
    (if d.qr then 0x80 else 0) ||| (if d.aa then 4 else 0) ||| (if tc then 2 else 0) |||
      (if d.rd then 1 else 0),
    (if d.ra then 0x80 else 0) ||| (d.rcode &&& 0x0f)]

/-- The TC bit of a packet. -/
def tcBit (packet : Octets) : Bool := packet.getD 2 0 &&& 2 != 0

/-- What `wrapup` finds around it, with what the rdata is made of. How many octets a record needs is
not asked: the writer tells. -/
structure ReplyEnv extends WrapupEnv where
  /-- What `toPacket` does, for the content that `mastermake` has made. -/
  toPacket : UInt16 → Octets → List RdataCall
  getCurrentInception : UInt32
  /-- What `fillOutRRSIG` fills out: the algorithm and the tag of the key, and the signature. -/
  fillOutRRSIG : RRSIG → UInt8 × UInt16 × Octets

/-- What a reply has in front of its records. -/
structure ReplyHead where
  d : ReplyHeader
  qdomain : Octets
  qtype : UInt16
  qclass : UInt16
  deriving DecidableEq

/-- A reply to a query. Its records are in the three sections that a reply has, and `parse` has set how
large it may be: 512 octets, or what an OPT record says, but not less than 1280. -/
structure ReplyPacket extends DNSPacket, ReplyHead where
  places : ∀ rr ∈ d_rrs, rr.d_place ≠ .QUESTION
  maxreplylen : d_maxreplylen = 512 ∨
    ∃ d_packetsize : UInt16, d_maxreplylen = max d_packetsize.toNat 1280

/-- A packet that is being written: the record that `sign…` are about, `toSign`, what is in the packet,
and the writer. -/
structure ReplyRun where
  last : Option TextRR
  toSign : List TextRR
  items : List Emitted
  writer : ResponseRun

/-- What has been written, and the records that were started and not rolled back. -/
structure WrittenReply where
  stringbuffer : Octets
  items : List Emitted
  started : List StartedRecord
  deriving DecidableEq

/-- `(DNSPacketWriter::Place)d_place`. -/
def Place.toWriter : Place → Option WriterPlace
  | .QUESTION => none
  | .ANSWER => some .ANSWER
  | .AUTHORITY => some .AUTHORITY
  | .ADDITIONAL => some .ADDITIONAL

namespace ReplyEnv

variable (env : ReplyEnv)

/-- A signature as it is written. -/
def rrsigCalls (s : RRSIG) (place : WriterPlace) : RecordCalls where
  qname := s.owner
  qtype := QType.RRSIG
  ttl := 3600
  qclass := 1
  place := place
  rdata :=
    let filled := env.fillOutRRSIG s
    [.xfrBlob (be16 s.type ++ [filled.1, UInt8.ofNat (countLabels s.name)] ++ be32 s.ttl ++
        be32 (env.getCurrentInception + 14 * 86400) ++ be32 env.getCurrentInception ++ be16 filled.2.1),
      .xfrLabel s.signer false, .xfrBlob filled.2.2]

/-- A record of the reply as it is written. -/
def recordCalls (rr : TextRR) (place : WriterPlace) : RecordCalls where
  qname := rr.qname
  qtype := rr.qtype
  ttl := rr.ttl
  qclass := rr.qclass
  place := place
  rdata := env.toPacket rr.qtype rr.content

/-- `addOpt(2800, 0, …, opts)`. -/
def addOpt (dnssecOk : Bool) (options : List (UInt16 × Octets)) : RecordCalls where
  qname := []
  qtype := QType.OPT
  ttl := if dnssecOk then 0x8000 else 0
  qclass := 2800
  place := .ADDITIONAL
  rdata := options.map fun option =>
    .xfrBlob (be16 option.1 ++ be16 (UInt16.ofNat option.2.length) ++ option.2)

/-- What the writer is told. -/
def callsFor : Emitted → Option RecordCalls
  | .record rr => rr.d_place.toWriter.map (env.recordCalls rr)
  | .rrsig s => s.place.toWriter.map (env.rrsigCalls s)
  | .opt dnssecOk options => some (addOpt dnssecOk options)

/-- `startRecord` and the rdata. -/
def emit (s : ReplyRun) (e : Emitted) : Option ReplyRun := do
  let calls ← env.callsFor e
  let writer ← s.writer.writeRecord calls
  some { s with items := s.items ++ [e], writer := writer }

/-- `pw.commit()`. -/
def commit (s : ReplyRun) : Option ReplyRun :=
  s.writer.commitRecord.map fun writer => { s with writer := writer }

/-- `pw.rollback()`. -/
def rollback (s : ReplyRun) : ReplyRun :=
  { s with items := s.items.dropLast, writer := s.writer.rollBack }

/-- A signature is committed at once. -/
def emitRRSIG (c : TextRR) (signer : Octets) (toSign : List TextRR) (s : ReplyRun) (ksk : Bool) :
    Option ReplyRun :=
  (env.emit s (.rrsig (signature c signer toSign ksk))).bind commit

/-- `addSignature`, behind the record `c`. -/
def addSignature (c : TextRR) (s : ReplyRun) : Option ReplyRun :=
  if s.toSign = [] then some s
  else
    match env.getSignerFor (signedName c) with
    -- "No signer known"
    | none => some s
    | some signer =>
      if env.activeZSKFor signer then
        ((keysFor c.qtype).foldlM (env.emitRRSIG c signer s.toSign) s).map fun t => { t with toSign := [] }
      else none

/-- The signature in front of the record `rr`, when its owner or its type is another one. -/
def signPending (rr : TextRR) (s : ReplyRun) : Option ReplyRun :=
  match s.last with
  | some c => if differs c rr then env.addSignature c s else some s
  | none => some s

/-- What is done before the record `rr` is started. -/
def prepare (p : DNSPacket) (rr : TextRR) (s : ReplyRun) : Option ReplyRun :=
  if !env.mastermake rr.qtype rr.content then none
  else if p.d_dnssecOk then
    (env.signPending rr s).map fun t =>
      { t with last := some rr, toSign := gather DNSResourceRecord.auth t.toSign rr }
  else some s

/-- The last signature. Without a record `rbegin` is not there to be read. -/
def signLast (p : DNSPacket) (s : ReplyRun) : Option ReplyRun :=
  if p.d_dnssecOk then
    match s.last with
    | none => none
    | some c => if closesTransfer p c then some s else env.addSignature c s
  else some s

/-- What follows the last record. -/
def finish (p : DNSPacket) (s : ReplyRun) : Option ReplyRun := do
  let signed ← env.signLast p s
  let opted ← (optItems env.toWrapupEnv p).foldlM env.emit signed
  commit opted

/-- The loop over the records, what follows it, and whether TC is set. -/
def writeRecords (p : DNSPacket) : ReplyRun → List TextRR → Option (ReplyRun × Bool)
  | s, [] => (env.finish p s).map fun t => (t, false)
  | s, rr :: rest => do
    let prepared ← env.prepare p rr s
    let t ← env.emit prepared (.record rr)
    if !p.d_tcp && decide (p.d_maxreplylen < t.writer.size + 20) then
      some (rollback t, decide (rr.d_place = .ANSWER))
    else writeRecords p t rest

/-- Without records and options nothing is written. -/
def writeAll (p : DNSPacket) (s : ReplyRun) : Option (ReplyRun × Bool) :=
  if p.d_rrs = [] ∧ opts env.toWrapupEnv p = [] then some (s, false)
  else env.writeRecords p s (arranged env.toWrapupEnv p)

/-- The writer that `wrapup` makes; the constructor leaves two of its fields as they are. -/
def newWriter (head : ReplyHead) (d_sor : Nat) (d_rollbackmarker : UInt16) : Option ReplyRun :=
  (DNSPacketWriter.create head.qdomain head.qtype head.qclass 0 d_sor).map fun w =>
    { last := none
      toSign := []
      items := []
      writer := { records := { writer := w }, d_rollbackmarker } }

/-- What is in the packet in the end, with the fields of the header that are set. -/
def reply (d : ReplyHeader) (s : ReplyRun) (tc : Bool) : WrittenReply :=
  let d_content := s.writer.records.writer.d_content
  { stringbuffer := (d.octets tc).take d_content.length ++ d_content.drop 4
    items := s.items
    started := s.writer.records.started }

/-- `wrapup`; `none` stands for an exception, or the end of the program. -/
def wrapup (head : ReplyHead) (p : DNSPacket) (d_sor : Nat) (d_rollbackmarker : UInt16) :
    Option WrittenReply := do
  let s ← newWriter head d_sor d_rollbackmarker
  let written ← env.writeAll p s
  some (reply head.d written.1 written.2)

/-! ### What is right -/

/-- The record behind an item is what the writer was told for it. -/
def Wrote (e : Emitted) (r : StartedRecord) : Prop :=
  ∃ i, env.callsFor e = some i ∧ Told i r ∧ (r.rdata = [] ↔ Silent i.rdata)

/-- Octets consist of header, question and records, with their numbers in the header; the first four
octets may be others. -/
def FramedBehind (question : Octets) (packet : Octets) (rs : List StartedRecord) : Prop :=
  ∃ content, AllFramed 0 question content rs ∧ packet.length = content.length ∧
    packet.drop 4 = content.drop 4

/-- The records of a reply that were left out. -/
def leftOut (p : DNSPacket) (out : WrittenReply) : List TextRR :=
  (arranged env.toWrapupEnv p).drop (recordsOf out.items).length

/-- **A reply fits**: it is not longer than it may be, it consists of header, question and records, with
their numbers in the header, and TC is set if an answer record was left out. -/
structure Fits (p : DNSPacket) (question : Octets) (out : WrittenReply) : Prop where
  length : out.stringbuffer.length ≤ p.d_maxreplylen
  framed : FramedBehind question out.stringbuffer out.started
  wrote : List.Forall₂ env.Wrote out.items out.started
  records : recordsOf out.items = (arranged env.toWrapupEnv p).take (recordsOf out.items).length
  tc : (∃ rr ∈ env.leftOut p out, rr.d_place = .ANSWER) → tcBit out.stringbuffer = true

/-! ### The condition -/

/-- A record, with the signature that is due in front of it. -/
def writeOne (p : DNSPacket) (s : ReplyRun) (rr : TextRR) : Option ReplyRun :=
  (env.prepare p rr s).bind fun t => env.emit t (.record rr)

/-- What follows the last record, if there is anything to write. -/
def ending (p : DNSPacket) (s : ReplyRun) : Option ReplyRun :=
  if p.d_rrs = [] ∧ opts env.toWrapupEnv p = [] then some s else env.finish p s

/-- The records `kept` leave 20 octets. -/
abbrev Leaves (p : DNSPacket) (s : ReplyRun) (kept : List TextRR) : Prop :=
  StoppedRun.Within (env.writeOne p) (fun t => t.writer.length + 20) p.d_maxreplylen s kept

/-- On the way: the records `kept` leave 20 octets, `t` is the packet with them and with the signatures
in front of the record `rr`, and `u` the packet with that. -/
structure OnTheWay (p : DNSPacket) (s : ReplyRun) (kept : List TextRR) (rr : TextRR)
    (rest : List TextRR) (t u : ReplyRun) : Prop where
  order : arranged env.toWrapupEnv p = kept ++ rr :: rest
  leaves : env.Leaves p s kept
  front : (StoppedRun.through (env.writeOne p) s kept).bind (env.prepare p rr) = some t
  behind : env.emit t (.record rr) = some u

/-- The content of a record has rdata. -/
def HasRdata (rr : TextRR) : Prop := ¬ Silent (env.toPacket rr.qtype rr.content)

/-- **When a reply fits**, from the lengths that the packet has when nothing is looked at.
* The first record that does not leave 20 octets does not leave them in 16 bits either.
* The signatures in front of it fit without it, and so does the question.
* When all records leave 20 octets, the last signatures and the OPT record fit.
* A record that leaves 20 octets has rdata, unless nothing follows it. -/
structure SizesFit (p : DNSPacket) (s : ReplyRun) : Prop where
  measured : ∀ kept rr rest t u, env.OnTheWay p s kept rr rest t u →
    p.d_maxreplylen < u.writer.length + 20 → p.d_maxreplylen < u.writer.length % 65536 + 20
  signed : ∀ kept rr rest t u, env.OnTheWay p s kept rr rest t u →
    p.d_maxreplylen < u.writer.length + 20 → t.writer.length ≤ p.d_maxreplylen
  ended : env.Leaves p s (arranged env.toWrapupEnv p) → ∀ t u,
    StoppedRun.through (env.writeOne p) s (arranged env.toWrapupEnv p) = some t →
      env.ending p t = some u → u.writer.length ≤ p.d_maxreplylen
  rdata : ∀ kept rr rest, arranged env.toWrapupEnv p = kept ++ rr :: rest →
    env.Leaves p s (kept ++ [rr]) → rest ≠ [] ∨ optItems env.toWrapupEnv p ≠ [] → env.HasRdata rr

/-! ### What is put into the packet -/

variable {env}

section Emitting

variable {question : Octets} {p : DNSPacket} {s t u : ReplyRun} {e : Emitted} {rr c : TextRR}

/-- A packet in which no OPT record is: the next record may be started, and the records are those that
were written. -/
structure Sound (env : ReplyEnv) (question : Octets) (s : ReplyRun) : Prop where
  ready : ∃ begun, Ready 0 question s.writer begun
  wrote : List.Forall₂ env.Wrote s.items s.writer.records.started
  plain : ∀ dnssecOk options, .opt dnssecOk options ∉ s.items

/-- Signatures were put into a packet. -/
structure Signed (env : ReplyEnv) (question : Octets) (s t : ReplyRun) : Prop where
  sound : Sound env question t
  length_le : s.writer.length ≤ t.writer.length
  items : ∃ ss : List RRSIG, t.items = s.items ++ ss.map .rrsig

theorem Signed.refl (h : Sound env question s) : Signed env question s s :=
  ⟨h, Nat.le_refl _, [], (append_nil _).symm⟩

theorem Signed.trans (hst : Signed env question s t) (htu : Signed env question t u) :
    Signed env question s u := by
  obtain ⟨ss, hss⟩ := hst.items
  obtain ⟨ss', hss'⟩ := htu.items
  refine ⟨htu.sound, hst.length_le.trans htu.length_le, ss ++ ss', ?_⟩
  rw [hss', hss, append_assoc, map_append]

theorem Signed.recordsOf_eq (h : Signed env question s t) : recordsOf t.items = recordsOf s.items := by
  obtain ⟨ss, hss⟩ := h.items
  rw [hss, recordsOf_append, recordsOf_map_rrsig, append_nil]

/-- **What `startRecord` and the rdata do** for an item. -/
theorem emit_opened (h : Sound env question s) (hemit : env.emit s e = some t) :
    ∃ begun r, Ready 0 question s.writer begun ∧
      Opened 0 question t.writer s.writer.records.started r begun.d_content ∧ env.Wrote e r ∧
        s.writer.length ≤ t.writer.length ∧ t.items = s.items ++ [e] := by
  obtain ⟨begun, hready⟩ := h.ready
  obtain ⟨i, hi, hemit⟩ := bind_eq_some_iff.mp hemit
  obtain ⟨writer, hwriter, hemit⟩ := bind_eq_some_iff.mp hemit
  obtain rfl := some.inj hemit
  obtain ⟨r, hopened, htold, hsilent⟩ := writeRecord_opened hready hwriter
  exact ⟨begun, r, hready, hopened, ⟨i, hi, htold, hsilent⟩, length_le_writeRecord hready hwriter, rfl⟩

/-- What is written behind others. -/
theorem wrote_concat {front : List StartedRecord} {r : StartedRecord} {before : Octets}
    (h : List.Forall₂ env.Wrote s.items front) (hopened : Opened 0 question t.writer front r before)
    (hr : env.Wrote e r) (hitems : t.items = s.items ++ [e]) :
    List.Forall₂ env.Wrote t.items t.writer.records.started := by
  rw [hitems, hopened.started]
  exact rel_append h (.cons hr .nil)

theorem emit_record (h : Sound env question s) (hemit : env.emit s (.record rr) = some t) :
    Sound env question t ∧ s.writer.length ≤ t.writer.length ∧
      recordsOf t.items = recordsOf s.items ++ [rr] := by
  obtain ⟨begun, r, -, hopened, hr, hle, hitems⟩ := emit_opened h hemit
  refine ⟨⟨hopened.ready, wrote_concat h.wrote hopened hr hitems, fun dnssecOk options hmem => ?_⟩, hle, ?_⟩
  · rw [hitems] at hmem
    rcases mem_append.mp hmem with hmem | hmem
    · exact h.plain _ _ hmem
    · cases mem_singleton.mp hmem
  · rw [hitems, recordsOf_append]
    rfl

/-- A signature has rdata. -/
theorem rrsigCalls_rdata (ss : RRSIG) (place : WriterPlace) :
    ¬ Silent (env.rrsigCalls ss place).rdata := by
  intro hsilent
  exact absurd (hsilent _ mem_cons_self) (by simp [be16])

/-- So it may be committed. -/
theorem emitRRSIG_signed {signer : Octets} {toSign : List TextRR} {ksk : Bool}
    (h : Sound env question s) (hemit : env.emitRRSIG c signer toSign s ksk = some t) :
    Signed env question s t := by
  obtain ⟨v, hv, hcommit⟩ := bind_eq_some_iff.mp hemit
  obtain ⟨begun, r, -, hopened, hr, hle, hitems⟩ := emit_opened h hv
  obtain ⟨writer, hwriter, rfl⟩ := map_eq_some_iff.mp hcommit
  have hrdata : r.rdata ≠ [] := by
    obtain ⟨i, hi, -, hsilent⟩ := hr
    obtain ⟨place, -, rfl⟩ := map_eq_some_iff.mp hi
    exact fun hnil => rrsigCalls_rdata _ place (hsilent.mp hnil)
  obtain ⟨hready, hlength, hstarted⟩ := hopened.committed hrdata hwriter
  refine ⟨⟨⟨_, hready⟩, ?_, fun dnssecOk options hmem => ?_⟩, hle.trans hlength.ge, [_], hitems⟩
  · change List.Forall₂ env.Wrote v.items writer.records.started
    rw [hstarted]
    exact wrote_concat h.wrote hopened hr hitems
  · change _ ∈ v.items at hmem
    rw [hitems] at hmem
    rcases mem_append.mp hmem with hmem | hmem
    · exact h.plain _ _ hmem
    · cases mem_singleton.mp hmem

theorem emitRRSIGs_signed {signer : Octets} {toSign : List TextRR} {ksks : List Bool}
    (h : Sound env question s) (hemit : ksks.foldlM (env.emitRRSIG c signer toSign) s = some t) :
    Signed env question s t := by
  induction ksks generalizing s with
  | nil =>
    obtain rfl := some.inj hemit
    exact .refl h
  | cons ksk ksks ih =>
    rw [foldlM_cons] at hemit
    obtain ⟨v, hv, hemit⟩ := bind_eq_some_iff.mp hemit
    have hsigned := emitRRSIG_signed h hv
    exact hsigned.trans (ih hsigned.sound hemit)

/-- **What `addSignature` does**: it puts signatures into the packet, whatever its size. -/
theorem addSignature_signed (h : Sound env question s) (hsign : env.addSignature c s = some t) :
    Signed env question s t := by
  unfold addSignature at hsign
  split at hsign
  · obtain rfl := some.inj hsign
    exact .refl h
  · split at hsign
    · obtain rfl := some.inj hsign
      exact .refl h
    · split at hsign
      · obtain ⟨v, hv, rfl⟩ := map_eq_some_iff.mp hsign
        have hsigned := emitRRSIGs_signed h hv
        exact ⟨⟨hsigned.sound.ready, hsigned.sound.wrote, hsigned.sound.plain⟩, hsigned.length_le,
          hsigned.items⟩
      · cases hsign

theorem prepare_signed (h : Sound env question s) (hprepare : env.prepare p rr s = some t) :
    Signed env question s t := by
  unfold prepare at hprepare
  split at hprepare
  · cases hprepare
  · split at hprepare
    · obtain ⟨v, hv, rfl⟩ := map_eq_some_iff.mp hprepare
      have hsigned : Signed env question s v := by
        unfold signPending at hv
        split at hv
        · split at hv
          · exact addSignature_signed h hv
          · obtain rfl := some.inj hv
            exact .refl h
        · obtain rfl := some.inj hv
          exact .refl h
      exact ⟨⟨hsigned.sound.ready, hsigned.sound.wrote, hsigned.sound.plain⟩, hsigned.length_le,
        hsigned.items⟩
    · obtain rfl := some.inj hprepare
      exact .refl h

theorem signLast_signed (h : Sound env question s) (hsign : env.signLast p s = some t) :
    Signed env question s t := by
  unfold signLast at hsign
  split at hsign
  · split at hsign
    · cases hsign
    · split at hsign
      · obtain rfl := some.inj hsign
        exact .refl h
      · exact addSignature_signed h hsign
  · obtain rfl := some.inj hsign
    exact .refl h

/-- A record with its signatures. -/
theorem writeOne_spec (h : Sound env question s) (hwrite : env.writeOne p s rr = some t) :
    (Sound env question t ∧ s.writer.length ≤ t.writer.length) ∧
      recordsOf t.items = recordsOf s.items ++ [rr] := by
  obtain ⟨v, hv, hemit⟩ := bind_eq_some_iff.mp hwrite
  have hsigned := prepare_signed h hv
  obtain ⟨hsound, hle, hrecords⟩ := emit_record hsigned.sound hemit
  exact ⟨⟨hsound, hsigned.length_le.trans hle⟩, by rw [hrecords, hsigned.recordsOf_eq]⟩

/-- The packet grows with every record. -/
theorem writeOne_grows (s : ReplyRun) (rr : TextRR) (t : ReplyRun) (h : Sound env question s)
    (hwrite : env.writeOne p s rr = some t) :
    Sound env question t ∧ s.writer.length + 20 ≤ t.writer.length + 20 := by
  obtain ⟨⟨hsound, hle⟩, -⟩ := writeOne_spec h hwrite
  exact ⟨hsound, Nat.add_le_add_right hle 20⟩

theorem through_records {rrs : List TextRR} (h : Sound env question s)
    (hwrite : StoppedRun.through (env.writeOne p) s rrs = some t) :
    recordsOf t.items = recordsOf s.items ++ rrs := by
  induction rrs generalizing s with
  | nil =>
    obtain rfl := some.inj hwrite
    exact (append_nil _).symm
  | cons rr rrs ih =>
    rw [StoppedRun.through_cons] at hwrite
    obtain ⟨v, hv, hwrite⟩ := bind_eq_some_iff.mp hwrite
    obtain ⟨⟨hsound, -⟩, hrecords⟩ := writeOne_spec h hv
    rw [ih hsound hwrite, hrecords, append_assoc]
    rfl

/-- Everything in a packet has rdata if the records of the reply have. -/
theorem Sound.rdata_iff (h : Sound env question s) :
    (∀ r ∈ s.writer.records.started, r.rdata ≠ []) ↔ ∀ rr ∈ recordsOf s.items, env.HasRdata rr := by
  have hwrote := h.wrote
  have hplain := h.plain
  revert hwrote hplain
  generalize s.items = items
  generalize s.writer.records.started = started
  intro hwrote hplain
  induction hwrote with
  | nil => exact iff_of_true (forall_mem_nil _) (forall_mem_nil _)
  | @cons e r items started hr hrest ih =>
    obtain ⟨i, hi, -, hsilent⟩ := hr
    rw [forall_mem_cons]
    refine (and_congr (not_congr hsilent) (ih fun dnssecOk options hmem =>
      hplain _ _ (mem_cons_of_mem _ hmem))).trans ?_
    cases e with
    | record rr =>
      obtain ⟨place, -, rfl⟩ := map_eq_some_iff.mp hi
      exact (forall_mem_cons (p := env.HasRdata)).symm
    | rrsig ss =>
      obtain ⟨place, -, rfl⟩ := map_eq_some_iff.mp hi
      exact and_iff_right (rrsigCalls_rdata ss place)
    | opt dnssecOk options => exact absurd mem_cons_self (hplain dnssecOk options)

end Emitting

/-! ### The loop, and what follows it -/

section Loop

open StoppedRun

variable {question : Octets} {p : DNSPacket} {s t u : ReplyRun} {rrs : List TextRR} {tc : Bool}

/-- The record behind which the loop stops. -/
def stops (p : DNSPacket) (t : ReplyRun) : Bool :=
  !p.d_tcp && decide (p.d_maxreplylen < t.writer.size + 20)

/-- What happens behind the last record that is looked at. -/
def afterLoop (env : ReplyEnv) (p : DNSPacket) (r : ReplyRun × Option TextRR) : Option (ReplyRun × Bool) :=
  match r.2 with
  | none => (env.finish p r.1).map fun t => (t, false)
  | some rr => some (rollback r.1, decide (rr.d_place = .ANSWER))

/-- The loop writes records until one is too large. -/
theorem writeRecords_eq :
    env.writeRecords p s rrs = (runUntil (env.writeOne p) (stops p) s rrs).bind (afterLoop env p) := by
  induction rrs generalizing s with
  | nil => rfl
  | cons rr rrs ih =>
    rw [writeRecords, runUntil]
    unfold writeOne
    cases hprepare : env.prepare p rr s with
    | none => rfl
    | some v =>
      cases hemit : env.emit v (.record rr) with
      | none =>
        change (env.emit v (.record rr)).bind _ = ((env.emit v (.record rr)).bind _).bind _
        rw [hemit]
        rfl
      | some t =>
        change (env.emit v (.record rr)).bind _ = ((env.emit v (.record rr)).bind _).bind _
        rw [hemit]
        change (if stops p t = true then _ else _) = Option.bind (if stops p t = true then _ else _) _
        by_cases hstops : stops p t = true
        · rw [if_pos hstops, if_pos hstops]
          rfl
        · rw [if_neg hstops, if_neg hstops]
          exact ih

/-- **What the loop comes to.** -/
theorem writeRecords_cases (h : env.writeRecords p s rrs = some (t, tc)) :
    (∃ u, through (env.writeOne p) s rrs = some u ∧ env.finish p u = some t ∧ tc = false ∧
        NoneStops (env.writeOne p) (stops p) s rrs) ∨
      ∃ kept rr rest u v, rrs = kept ++ rr :: rest ∧
        (through (env.writeOne p) s kept).bind (env.prepare p rr) = some u ∧
          env.emit u (.record rr) = some v ∧ stops p v = true ∧ t = rollback v ∧
            tc = decide (rr.d_place = .ANSWER) ∧ NoneStops (env.writeOne p) (stops p) s kept := by
  rw [writeRecords_eq] at h
  obtain ⟨⟨v, x⟩, hrun, hafter⟩ := bind_eq_some_iff.mp h
  rcases runUntil_cases hrun with ⟨rfl, hall, hnone⟩ | ⟨kept, rr, rest, k, rfl, rfl, hk, hv, hstops, hnone⟩
  · obtain ⟨t', ht', heq⟩ := map_eq_some_iff.mp hafter
    obtain ⟨rfl, rfl⟩ := Prod.mk.inj heq
    exact .inl ⟨v, hall, ht', rfl, hnone⟩
  · obtain ⟨rfl, rfl⟩ := Prod.mk.inj (some.inj hafter)
    obtain ⟨u, hu, hv⟩ := bind_eq_some_iff.mp hv
    exact .inr ⟨kept, rr, rest, u, v, rfl, by rw [hk]; exact hu, hv, hstops, rfl, rfl, hnone⟩

/-- The options and the DO bit decide about the OPT record. -/
theorem optItems_eq_nil_iff :
    optItems env.toWrapupEnv p = [] ↔ opts env.toWrapupEnv p = [] ∧ p.d_dnssecOk = false := by
  unfold optItems
  split
  · next h =>
    refine iff_of_false (cons_ne_nil _ _) ?_
    rintro ⟨hopts, hdo⟩
    rcases h with h | h
    · exact h hopts
    · rw [hdo] at h
      cases h
  · next h =>
    obtain ⟨hopts, hdo⟩ := not_or.mp h
    exact iff_of_true rfl ⟨not_not.mp hopts, (not_eq_true _).mp hdo⟩

/-- A packet is as long when its record is committed as it was with the record open. -/
theorem commit_length {front : List StartedRecord} {r : StartedRecord} {before : Octets}
    (h : Opened 0 question t.writer front r before) (hcommit : commit t = some u) :
    u.writer.length = t.writer.length := by
  obtain ⟨w, hw, hnil, hwlength, -⟩ := h.commit
  obtain ⟨writer, hwriter, rfl⟩ := map_eq_some_iff.mp hcommit
  obtain ⟨w', hw', rfl⟩ := map_eq_some_iff.mp hwriter
  obtain rfl := some.inj (hw.symm.trans hw')
  rw [← hwlength]
  unfold ResponseRun.length
  dsimp only
  rw [hnil, (DNSPacketWriter.commit_eq hw).2.1]
  rfl

/-- **What follows the last record.** A record is open, and `commit` closes it: the OPT record, or the
last record of the reply. -/
theorem finish_opened (hs : Sound env question s) (hempty : s.items = []) (hrrs : rrs ≠ [] ∨ opts env.toWrapupEnv p ≠ [])
    (hthrough : through (env.writeOne p) s rrs = some t) (hfinish : env.finish p t = some u) :
    ∃ v front r before, Opened 0 question v.writer front r before ∧ commit v = some u ∧
      List.Forall₂ env.Wrote v.items (front ++ [r]) ∧ recordsOf v.items = rrs ∧
        t.writer.length ≤ v.writer.length ∧
          ((∀ r ∈ front, r.rdata ≠ []) ↔ ∀ kept rr rest, rrs = kept ++ rr :: rest →
            rest ≠ [] ∨ optItems env.toWrapupEnv p ≠ [] → env.HasRdata rr) := by
  obtain ⟨t', ht', hfinish⟩ := bind_eq_some_iff.mp hfinish
  obtain ⟨v, hv, hcommit⟩ := bind_eq_some_iff.mp hfinish
  have ht := (through_grows writeOne_grows hs hthrough).1
  have hsigned := signLast_signed ht ht'
  have hrecords : recordsOf t.items = rrs := by
    rw [through_records hs hthrough, hempty]
    rfl
  by_cases hopt : optItems env.toWrapupEnv p = []
  · -- the last record of the reply is open
    obtain ⟨hopts, hdo⟩ := optItems_eq_nil_iff.mp hopt
    rw [hopt] at hv ⊢
    obtain rfl := some.inj hv
    have heq : t' = t := by
      unfold signLast at ht'
      rw [hdo, if_neg Bool.false_ne_true] at ht'
      exact (some.inj ht').symm
    subst heq
    rcases eq_nil_or_concat rrs with hnil | ⟨init, rr, rfl⟩
    · exact absurd hopts (hrrs.resolve_left (not_not.mpr hnil))
    · rw [concat_eq_append] at hthrough hrecords ⊢
      rw [through_concat] at hthrough
      obtain ⟨w, hw, hwrite⟩ := bind_eq_some_iff.mp hthrough
      obtain ⟨w', hw', hemit⟩ := bind_eq_some_iff.mp hwrite
      have hsound := prepare_signed (through_grows writeOne_grows hs hw).1 hw'
      obtain ⟨begun, r, -, hopened, hr, -, hitems⟩ := emit_opened hsound.sound hemit
      refine ⟨t', _, r, _, hopened, hcommit, ?_, hrecords, Nat.le_refl _, ?_⟩
      · rw [← hopened.started]
        exact wrote_concat hsound.sound.wrote hopened hr hitems
      · rw [hsound.sound.rdata_iff, hsound.recordsOf_eq, through_records hs hw, hempty]
        constructor
        · intro hall kept rr' rest hsplit hor
          have hrest := hor.resolve_right (not_not.mpr rfl)
          rcases split_cases hsplit with ⟨m, rfl⟩ | ⟨-, -, hnil⟩ | ⟨m, hm⟩
          · exact hall rr' (mem_append_right _ (mem_append_right _ mem_cons_self))
          · exact absurd hnil.symm hrest
          · rw [hm, append_assoc, cons_append] at hsplit
            have hlength := congrArg List.length hsplit
            rw [length_append, length_append] at hlength
            simp only [length_cons, length_append, length_nil] at hlength
            omega
        · intro hall rr' hrr'
          obtain ⟨kept, rest, hsplit⟩ := append_of_mem hrr'
          refine hall kept rr' (rest ++ [rr]) ?_ (.inl (append_ne_nil_of_right_ne_nil _ (cons_ne_nil _ _)))
          change init = kept ++ rr' :: rest at hsplit
          rw [hsplit, append_assoc]
          rfl
  · have hone : optItems env.toWrapupEnv p = [.opt p.d_dnssecOk (opts env.toWrapupEnv p)] := by
      unfold optItems at hopt ⊢
      split
      · rfl
      · next h => exact absurd (if_neg h) hopt
    rw [hone, foldlM_cons] at hv
    obtain ⟨v', hv', hv⟩ := bind_eq_some_iff.mp hv
    obtain rfl := some.inj hv
    obtain ⟨begun, r, -, hopened, hr, hle, hitems⟩ := emit_opened hsigned.sound hv'
    refine ⟨v', _, r, _, hopened, hcommit, ?_, ?_, hsigned.length_le.trans hle, ?_⟩
    · rw [← hopened.started]
      exact wrote_concat hsigned.sound.wrote hopened hr hitems
    · rw [hitems, recordsOf_append, hsigned.recordsOf_eq, hrecords]
      exact append_nil _
    · rw [hsigned.sound.rdata_iff, hsigned.recordsOf_eq, hrecords]
      constructor
      · intro hall kept rr' rest hsplit _
        exact hall rr' (hsplit ▸ mem_append_right _ mem_cons_self)
      · intro hall rr' hrr'
        obtain ⟨kept, rest, hsplit⟩ := append_of_mem hrr'
        exact hall kept rr' rest hsplit (.inr hopt)

end Loop

/-! ### Replies over UDP -/

section UDP

open StoppedRun

variable {question : Octets} {p : DNSPacket} {d : ReplyHeader} {s t u v : ReplyRun}
  {kept rest : List TextRR} {rr : TextRR} {tc : Bool} {rs : List StartedRecord}

/-- The TC bit in the header is the one that was set. -/
theorem tcBit_octets (d : ReplyHeader) (tc : Bool) (content : Octets) :
    tcBit (d.octets tc ++ content) = tc := by
  unfold tcBit ReplyHeader.octets be16
  change ((((if d.qr then 0x80 else 0) ||| (if d.aa then 4 else 0) ||| (if tc then 2 else 0) |||
    (if d.rd then 1 else 0) : UInt8) &&& 2) != 0) = tc
  cases d.qr <;> cases d.aa <;> cases tc <;> cases d.rd <;> decide

/-- The octets of a reply are those of the packet, with other fields in the header. -/
theorem reply_spec (question : Octets) (rs : List StartedRecord) (d : ReplyHeader) (t : ReplyRun)
    (tc : Bool) :
    (reply d t tc).stringbuffer.length = t.writer.records.writer.d_content.length ∧
      (FramedBehind question (reply d t tc).stringbuffer rs ↔
        FramedBehind question t.writer.records.writer.d_content rs) ∧
          (4 ≤ t.writer.records.writer.d_content.length →
            tcBit (reply d t tc).stringbuffer = tc) := by
  obtain ⟨hlength, hdrop, hlong⟩ := headed_spec (d.octets tc)
    t.writer.records.writer.d_content (reply d t tc).stringbuffer rfl rfl
  refine ⟨hlength, ?_, fun h => ?_⟩
  · unfold FramedBehind
    rw [hlength, hdrop]
  · rw [hlong h]
    exact tcBit_octets d tc _

/-- A packet that is the layout of its records is framed. -/
theorem framedBehind_layout (h : (layout 0 question rs).length < 65536) :
    FramedBehind question (layout 0 question rs) rs :=
  ⟨_, allFramed_of_length h, rfl, rfl⟩

/-- A framed packet is as long as the layout of its records. -/
theorem FramedBehind.length_eq {packet : Octets} (h : FramedBehind question packet rs) :
    packet.length = (layout 0 question rs).length := by
  obtain ⟨content, hframed, hlength, -⟩ := h
  rw [hlength, hframed.content]

/-- What is open behind an item has a size of 16 bits. -/
theorem size_of_emit {e : Emitted} (hs : Sound env question s) (hemit : env.emit s e = some t) :
    t.writer.size = t.writer.length % 65536 := by
  obtain ⟨begun, r, -, hopened, -⟩ := emit_opened hs hemit
  exact hopened.size_eq

/-- A record that the loop goes on behind leaves 20 octets, if 16 bits tell its size. -/
theorem leaves_of_not_stops (hudp : p.d_tcp = false) (hsize : t.writer.size = t.writer.length % 65536)
    (hsmall : t.writer.length < 65536) (hstops : stops p t = false) :
    t.writer.length + 20 ≤ p.d_maxreplylen := by
  unfold stops at hstops
  rw [hudp, Bool.not_false, Bool.true_and, decide_eq_false_iff_not, hsize, Nat.mod_eq_of_lt hsmall] at hstops
  omega

/-- The packet in front of a record of a run. -/
theorem OnTheWay.through (h : env.OnTheWay p s kept rr rest t u) :
    StoppedRun.through (env.writeOne p) s (kept ++ [rr]) = some u := by
  obtain ⟨k, hk, ht⟩ := bind_eq_some_iff.mp h.front
  rw [through_concat, hk, bind_some]
  exact bind_eq_some_iff.mpr ⟨t, ht, h.behind⟩

theorem OnTheWay.sound (hs : Sound env question s) (h : env.OnTheWay p s kept rr rest t u) :
    Sound env question t := by
  obtain ⟨k, hk, ht⟩ := bind_eq_some_iff.mp h.front
  exact (prepare_signed (through_grows writeOne_grows hs hk).1 ht).sound

/-- When the condition holds, records behind which the loop goes on leave 20 octets. -/
theorem SizesFit.leaves (hudp : p.d_tcp = false) (hs : Sound env question s) (hfits : env.SizesFit p s)
    (horder : arranged env.toWrapupEnv p = kept ++ rest)
    (hnone : NoneStops (env.writeOne p) (stops p) s kept)
    (ht : StoppedRun.through (env.writeOne p) s kept = some t) : env.Leaves p s kept := by
  refine within_of_noneStops (fun front a behind u hsplit hleaves hu hlarge => ?_) horder hnone ht
  rw [through_concat] at hu
  obtain ⟨k, hk, hwrite⟩ := bind_eq_some_iff.mp hu
  obtain ⟨v, hv, hemit⟩ := bind_eq_some_iff.mp hwrite
  have hway : env.OnTheWay p s front a behind v u := ⟨hsplit, hleaves, by rw [hk]; exact hv, hemit⟩
  have hmeasured := hfits.measured front a behind v u hway hlarge
  unfold stops
  rw [hudp, size_of_emit (hway.sound hs) hemit]
  exact decide_eq_true hmeasured

/-- Records that leave 20 octets and are followed by something have rdata. -/
theorem SizesFit.rdata_of_leaves (hs : Sound env question s) (hfits : env.SizesFit p s)
    (horder : arranged env.toWrapupEnv p = kept ++ rr :: rest) (hleaves : env.Leaves p s kept) :
    ∀ rr' ∈ kept, env.HasRdata rr' := by
  intro rr' hrr'
  obtain ⟨front, behind, rfl⟩ := append_of_mem hrr'
  refine hfits.rdata front rr' (behind ++ rr :: rest) ?_ ?_
    (.inl (append_ne_nil_of_right_ne_nil _ (cons_ne_nil _ _)))
  · rw [horder, append_assoc]
    rfl
  · rw [← singleton_append, ← append_assoc] at hleaves
    exact hleaves.of_append writeOne_grows hs

/-- Behind a record that fits, nothing that is written before is too large. -/
theorem OnTheWay.not_large (hudp : p.d_tcp = false) (hs : Sound env question s)
    (hway : env.OnTheWay p s kept rr rest t u) (hsmall : u.writer.length < 65536)
    {rrs behind : List TextRR} (hnone : NoneStops (env.writeOne p) (stops p) s rrs)
    (hrrs : rrs = kept ++ rr :: behind) : ¬ p.d_maxreplylen < u.writer.length + 20 := by
  have hstops := hnone kept rr behind u hrrs hway.through
  have hle := leaves_of_not_stops hudp (size_of_emit (hway.sound hs) hway.behind) hsmall hstops
  exact Nat.not_lt_of_le hle

/-- A reply without records and options. -/
theorem nothing_fits_iff (hs : Fresh 0 question s.writer) (hempty : s.items = [])
    (hnothing : p.d_rrs = [] ∧ opts env.toWrapupEnv p = []) (hmax : p.d_maxreplylen < 65536) :
    env.Fits p question (reply d s false) ↔ env.SizesFit p s := by
  have harranged : arranged env.toWrapupEnv p = [] := arranged_eq_nil.mpr hnothing.1
  have hnosplit : ∀ kept (rr : TextRR) rest, arranged env.toWrapupEnv p ≠ kept ++ rr :: rest := by
    intro kept rr rest h
    rw [harranged] at h
    exact absurd (append_eq_nil_iff.mp h.symm).2 (cons_ne_nil _ _)
  obtain ⟨hlength, hframed, -⟩ := reply_spec question s.writer.records.started d s false
  rw [← hs.length_eq] at hlength
  have hended : env.ending p s = some s := if_pos hnothing
  have hleftOut : env.leftOut p (reply d s false) = [] := by
    unfold leftOut
    rw [harranged]
    exact drop_nil
  constructor
  · intro hright
    refine ⟨fun kept rr rest t u hway => absurd hway.order (hnosplit _ _ _),
      fun kept rr rest t u hway => absurd hway.order (hnosplit _ _ _), ?_,
      fun kept rr rest horder => absurd horder (hnosplit _ _ _)⟩
    intro _ t u ht hu
    rw [harranged] at ht
    obtain rfl := some.inj ht
    obtain rfl := some.inj (hended.symm.trans hu)
    rw [← hlength]
    exact hright.length
  · intro hfits
    have hle := hfits.ended (.inl harranged) s s (by rw [harranged]; rfl) hended
    refine ⟨hlength.trans_le hle, hframed.mpr ?_, ?_, ?_, ?_⟩
    · rw [hs.content, hs.started]
      refine framedBehind_layout ?_
      rw [← hs.content, ← hs.length_eq]
      exact hle.trans_lt hmax
    · change List.Forall₂ env.Wrote s.items s.writer.records.started
      rw [hempty, hs.started]
      exact .nil
    · change recordsOf s.items = List.take (recordsOf s.items).length _
      rw [hempty]
      rfl
    · rintro ⟨rr, hrr, -⟩
      rw [hleftOut] at hrr
      cases hrr

/-- What lies on the way is not longer than all of it. -/
theorem OnTheWay.length_le {rest : List TextRR} {t' u' : ReplyRun} (hs : Sound env question s)
    (ht : StoppedRun.through (env.writeOne p) s (arranged env.toWrapupEnv p) = some t)
    (h : env.OnTheWay p s kept rr rest t' u') : u'.writer.length ≤ t.writer.length := by
  rw [h.order, ← singleton_append, ← append_assoc] at ht
  obtain ⟨u'', hu'', hut⟩ := exists_through_of_append ht
  obtain rfl := some.inj (h.through.symm.trans hu'')
  have hsound := (through_grows writeOne_grows hs h.through).1
  exact Nat.le_of_add_le_add_right (through_grows writeOne_grows hsound hut).2

/-- A reply with all its records. -/
theorem whole_fits_iff (hudp : p.d_tcp = false) (hs : Sound env question s) (hempty : s.items = [])
    (hmax : p.d_maxreplylen < 65536) (hsome : ¬(p.d_rrs = [] ∧ opts env.toWrapupEnv p = []))
    (ht : through (env.writeOne p) s (arranged env.toWrapupEnv p) = some t)
    (hu : env.finish p t = some u)
    (hnone : NoneStops (env.writeOne p) (stops p) s (arranged env.toWrapupEnv p)) :
    env.Fits p question (reply d u false) ↔ env.SizesFit p s := by
  have hrrs : arranged env.toWrapupEnv p ≠ [] ∨ opts env.toWrapupEnv p ≠ [] := by
    rw [Ne, arranged_eq_nil]
    exact not_and_or.mp hsome
  obtain ⟨v, front, r, before, hopened, hcommit, hwrote, hrecords, htv, hrdata⟩ :=
    finish_opened hs hempty hrrs ht hu
  obtain ⟨w, hw, hnil, hwlength, hclean, hshort⟩ := hopened.commit
  obtain ⟨writer, hwriter, rfl⟩ := map_eq_some_iff.mp hcommit
  obtain ⟨w', hw', rfl⟩ := map_eq_some_iff.mp hwriter
  obtain rfl := some.inj (hw.symm.trans hw')
  obtain ⟨hlength, hframed, -⟩ := reply_spec question v.writer.records.started d
    { v with writer := { v.writer with records.writer := w } } false
  dsimp only at hlength hframed
  have hclosed : ({ v.writer with records.writer := w } : ResponseRun).length = v.writer.length :=
    commit_length hopened hcommit
  have hended : env.ending p t = some { v with writer := { v.writer with records.writer := w } } :=
    (if_neg hsome).trans hu
  have hstarted : v.writer.records.started = front ++ [r] := hopened.started
  constructor
  · intro hright
    have hsmall : v.writer.length ≤ p.d_maxreplylen := by
      rw [← hwlength, ← hlength]
      exact hright.length
    have hall : ∀ r' ∈ front, r'.rdata ≠ [] := by
      intro r' hr' hnil'
      have heq := (hframed.mp hright.framed).length_eq
      rw [hstarted] at heq
      have hlt := hshort ⟨r', hr', hnil'⟩
      omega
    -- what lies on the way is not longer than the packet
    have hway : ∀ kept rr rest t' u', env.OnTheWay p s kept rr rest t' u' →
        ¬ p.d_maxreplylen < u'.writer.length + 20 := by
      intro kept rr rest t' u' h
      refine h.not_large hudp hs ?_ hnone h.order
      have hle := h.length_le hs ht
      omega
    refine ⟨fun kept rr rest t' u' h hlarge => absurd hlarge (hway _ _ _ _ _ h),
      fun kept rr rest t' u' h hlarge => absurd hlarge (hway _ _ _ _ _ h), ?_,
      fun kept rr rest horder _ hor => hrdata.mp hall kept rr rest horder hor⟩
    intro _ t' u' ht' hu'
    obtain rfl := some.inj (ht.symm.trans ht')
    obtain rfl := some.inj (hended.symm.trans hu')
    exact hclosed.trans_le hsmall
  · intro hfits
    have hleaves := hfits.leaves hudp hs (append_nil _).symm hnone ht
    have hsmall : v.writer.length ≤ p.d_maxreplylen := by
      rw [← hclosed]
      exact hfits.ended hleaves t _ ht hended
    have hall : ∀ r' ∈ front, r'.rdata ≠ [] := by
      refine hrdata.mpr fun kept rr rest horder hor => hfits.rdata kept rr rest horder ?_ hor
      rw [horder, ← singleton_append, ← append_assoc] at hleaves
      exact hleaves.of_append writeOne_grows hs
    refine ⟨?_, hframed.mpr ?_, ?_, ?_, ?_⟩
    · rw [hlength, hwlength]
      exact hsmall
    · rw [hstarted, hclean hall]
      refine framedBehind_layout ?_
      rw [← hclean hall, hwlength]
      exact hsmall.trans_lt hmax
    · change List.Forall₂ env.Wrote v.items v.writer.records.started
      rw [hstarted]
      exact hwrote
    · change recordsOf v.items = List.take (recordsOf v.items).length _
      rw [hrecords, take_length]
    · rintro ⟨rr, hrr, -⟩
      change rr ∈ List.drop (recordsOf v.items).length _ at hrr
      rw [hrecords, drop_length] at hrr
      cases hrr

/-- A reply from which records were left out. -/
theorem cut_fits_iff (hudp : p.d_tcp = false) (hs : Sound env question s) (hempty : s.items = [])
    (hmax : p.d_maxreplylen < 65536)
    (horder : arranged env.toWrapupEnv p = kept ++ rr :: rest)
    (hu : (StoppedRun.through (env.writeOne p) s kept).bind (env.prepare p rr) = some u)
    (hv : env.emit u (.record rr) = some v) (hstops : stops p v = true)
    (hnone : NoneStops (env.writeOne p) (stops p) s kept) :
    env.Fits p question (reply d (rollback v) (decide (rr.d_place = .ANSWER))) ↔ env.SizesFit p s := by
  obtain ⟨k, hk, hprepare⟩ := bind_eq_some_iff.mp hu
  have hksound := (through_grows writeOne_grows hs hk).1
  have hsigned := prepare_signed hksound hprepare
  obtain ⟨begun, r, hbegun, hopened, hr, huv, hitems⟩ := emit_opened hsigned.sound hv
  obtain ⟨hrolled, hcontent⟩ := hopened.rollBack
  have hrecords : recordsOf u.items = kept := by
    rw [hsigned.recordsOf_eq, through_records hs hk, hempty]
    rfl
  have hrolleditems : (rollback v).items = u.items := by
    change v.items.dropLast = u.items
    rw [hitems]
    exact dropLast_concat
  have hleftOut : env.leftOut p (reply d (rollback v) (decide (rr.d_place = .ANSWER))) = rr :: rest := by
    change (arranged env.toWrapupEnv p).drop (recordsOf (rollback v).items).length = _
    rw [hrolleditems, hrecords, horder, drop_left]
  have hmod : begun.d_content.length % 65536 ≤ begun.d_content.length := Nat.mod_le _ _
  obtain ⟨hlength, hframed, htc⟩ := reply_spec question u.writer.records.started d
    (rollback v) (decide (rr.d_place = .ANSWER))
  change _ = v.writer.rollBack.records.writer.d_content.length at hlength
  change FramedBehind question _ _ ↔
    FramedBehind question v.writer.rollBack.records.writer.d_content _ at hframed
  change 4 ≤ v.writer.rollBack.records.writer.d_content.length → _ at htc
  have hlarge : p.d_maxreplylen < v.writer.size + 20 := by
    unfold stops at hstops
    rw [hudp] at hstops
    exact of_decide_eq_true hstops
  have hsize := size_of_emit hsigned.sound hv
  have hvway : StoppedRun.through (env.writeOne p) s (kept ++ [rr]) = some v := by
    rw [through_concat, hk, bind_some]
    exact bind_eq_some_iff.mpr ⟨u, hprepare, hv⟩
  -- nothing behind the record that is rolled back leaves 20 octets
  have hbehind : ∀ more, ¬ env.Leaves p s (kept ++ rr :: more) := fun more =>
    not_within_behind writeOne_grows hs hvway (show p.d_maxreplylen < v.writer.length + 20 by
      have hle := Nat.mod_le v.writer.length 65536
      omega)
  constructor
  · intro hright
    have heq := (hframed.mp (by rw [← hrolled]; exact hright.framed)).length_eq
    rw [hcontent, length_take, min_eq_left hmod] at heq
    have hle := hbegun.behind.length_le
    have hall : ∀ r' ∈ u.writer.records.started, r'.rdata ≠ [] := by
      intro r' hr' hnil
      have hlt := hbegun.behind.short ⟨r', hr', hnil⟩
      omega
    have hfit : u.writer.length ≤ p.d_maxreplylen := by
      have hlen := hright.length
      rw [hlength, hcontent, length_take, min_eq_left hmod] at hlen
      rw [← hbegun.length_eq hall]
      omega
    -- what lies on the way is not longer than the packet in front of the record
    have hearlier : ∀ kept' rr' rest' t' u' m, env.OnTheWay p s kept' rr' rest' t' u' →
        kept = kept' ++ rr' :: m → ¬ p.d_maxreplylen < u'.writer.length + 20 := by
      intro kept' rr' rest' t' u' m h hm
      refine h.not_large hudp hs ?_ hnone hm
      rw [hm, ← singleton_append, ← append_assoc] at hk
      obtain ⟨u'', hu'', huk⟩ := exists_through_of_append hk
      obtain rfl := some.inj (h.through.symm.trans hu'')
      have hsound := (through_grows writeOne_grows hs h.through).1
      have hgrown := (through_grows writeOne_grows hsound huk).2
      have hsigns := hsigned.length_le
      omega
    refine ⟨?_, ?_, fun hleaves => ?_, ?_⟩
    · intro kept' rr' rest' t' u' h hlarge'
      rcases split_cases (horder.symm.trans h.order) with ⟨m, hm⟩ | ⟨rfl, rfl, -⟩ | ⟨m, rfl⟩
      · exact absurd hlarge' (hearlier _ _ _ _ _ m h hm)
      · obtain rfl := some.inj (hvway.symm.trans h.through)
        rwa [← hsize]
      · exact absurd h.leaves (hbehind m)
    · intro kept' rr' rest' t' u' h hlarge'
      rcases split_cases (horder.symm.trans h.order) with ⟨m, hm⟩ | ⟨rfl, rfl, -⟩ | ⟨m, rfl⟩
      · exact absurd hlarge' (hearlier _ _ _ _ _ m h hm)
      · obtain rfl := some.inj (hu.symm.trans h.front)
        exact hfit
      · exact absurd h.leaves (hbehind m)
    · rw [horder] at hleaves
      exact absurd hleaves (hbehind rest)
    · intro kept' rr' rest' horder' hleaves _
      rcases split_cases (horder.symm.trans horder') with ⟨m, hm⟩ | ⟨rfl, rfl, -⟩ | ⟨m, rfl⟩
      · have hmem : rr' ∈ recordsOf u.items := by
          rw [hrecords, hm]
          exact mem_append_right _ mem_cons_self
        exact hsigned.sound.rdata_iff.mp hall rr' hmem
      · exact absurd hleaves (hbehind [])
      · rw [append_assoc, cons_append] at hleaves
        exact absurd hleaves (hbehind _)
  · intro hfits
    have hleaves := hfits.leaves hudp hs horder hnone hk
    have hway : env.OnTheWay p s kept rr rest u v := ⟨horder, hleaves, hu, hv⟩
    have hfit := hfits.signed kept rr rest u v hway (by
      have hle := Nat.mod_le v.writer.length 65536
      omega)
    have hall : ∀ r' ∈ u.writer.records.started, r'.rdata ≠ [] := by
      refine hsigned.sound.rdata_iff.mpr ?_
      rw [hrecords]
      exact hfits.rdata_of_leaves hs horder hleaves
    have hbegunlength := hbegun.length_eq hall
    have hsmall : begun.d_content.length % 65536 = begun.d_content.length :=
      Nat.mod_eq_of_lt (by omega)
    have hlayout : v.writer.rollBack.records.writer.d_content =
        layout 0 question u.writer.records.started := by
      rw [hcontent, hsmall, take_length]
      exact hbegun.behind.clean hall
    have hlayoutlength : (layout 0 question u.writer.records.started).length ≤ p.d_maxreplylen := by
      rw [← hbegun.behind.clean hall]
      omega
    refine ⟨?_, ?_, ?_, ?_, ?_⟩
    · rw [hlength, hlayout]
      exact hlayoutlength
    · change FramedBehind question _ (rollback v).writer.records.started
      rw [show (rollback v).writer.records.started = _ from hrolled, hframed, hlayout]
      exact framedBehind_layout (hlayoutlength.trans_lt hmax)
    · change List.Forall₂ env.Wrote (rollback v).items (rollback v).writer.records.started
      rw [show (rollback v).writer.records.started = _ from hrolled, hrolleditems]
      exact hsigned.sound.wrote
    · change recordsOf (rollback v).items = List.take (recordsOf (rollback v).items).length _
      rw [hrolleditems, hrecords, horder, take_left]
    · -- an answer record among those left out is not behind one of another section
      rintro ⟨rr', hrr', hanswer⟩
      rw [hleftOut] at hrr'
      rw [htc (by rw [hlayout, length_layout]; omega), decide_eq_true_eq]
      obtain ⟨i, hi, -⟩ := hr
      obtain ⟨place, hplace, -⟩ := map_eq_some_iff.mp hi
      have hsections := arranged_sections env.toWrapupEnv p
      rw [horder] at hsections
      have hle : rr.d_place.index ≤ rr'.d_place.index := by
        rcases mem_cons.mp hrr' with rfl | hrr'
        · exact Nat.le_refl _
        · exact (pairwise_cons.mp (pairwise_append.mp hsections).2.1).1 rr' hrr'
      rw [hanswer] at hle
      cases hrrplace : rr.d_place with
      | QUESTION =>
        rw [hrrplace] at hplace
        cases hplace
      | ANSWER => rfl
      | AUTHORITY =>
        rw [hrrplace] at hle
        exact absurd hle (by decide)
      | ADDITIONAL =>
        rw [hrrplace] at hle
        exact absurd hle (by decide)

/-- A reply that leaves 20 octets with everything in it fits, when all records have rdata. -/
theorem sizesFit_of_small (hs : Sound env question s) (hempty : s.items = [])
    (ht : through (env.writeOne p) s (arranged env.toWrapupEnv p) = some t)
    (hu : env.ending p t = some u) (hsmall : u.writer.length + 20 ≤ p.d_maxreplylen)
    (hrdata : ∀ rr ∈ arranged env.toWrapupEnv p, env.HasRdata rr) : env.SizesFit p s := by
  have htu : t.writer.length ≤ u.writer.length := by
    unfold ending at hu
    split at hu
    · rw [some.inj hu]
    · next hsome =>
      have hrrs : arranged env.toWrapupEnv p ≠ [] ∨ opts env.toWrapupEnv p ≠ [] := by
        rw [Ne, arranged_eq_nil]
        exact not_and_or.mp hsome
      obtain ⟨v, front, r, before, hopened, hcommit, -, -, htv, -⟩ := finish_opened hs hempty hrrs ht hu
      exact htv.trans (commit_length hopened hcommit).ge
  have hway : ∀ kept rr rest t' u', env.OnTheWay p s kept rr rest t' u' →
      ¬ p.d_maxreplylen < u'.writer.length + 20 := by
    intro kept rr rest t' u' h
    have hle := h.length_le hs ht
    omega
  refine ⟨fun kept rr rest t' u' h hlarge => absurd hlarge (hway _ _ _ _ _ h),
    fun kept rr rest t' u' h hlarge => absurd hlarge (hway _ _ _ _ _ h), ?_, ?_⟩
  · intro _ t' u' ht' hu'
    obtain rfl := some.inj (ht.symm.trans ht')
    obtain rfl := some.inj (hu.symm.trans hu')
    omega
  · intro kept rr rest horder _ _
    exact hrdata rr (horder ▸ mem_append_right _ mem_cons_self)

end UDP

/-! ### Every reply -/

/-- 16 bits hold how large a reply may be. -/
theorem maxreplylen_lt (p : ReplyPacket) : p.d_maxreplylen < 65536 := by
  rcases p.maxreplylen with h | ⟨d_packetsize, h⟩
  · omega
  · have hlt := d_packetsize.toNat_lt
    omega

/-- The writer that `wrapup` makes is before its first record. -/
theorem newWriter_fresh {head : ReplyHead} {d_sor : Nat} {d_rollbackmarker : UInt16} {s : ReplyRun}
    (hs : newWriter head d_sor d_rollbackmarker = some s) :
    Fresh 0 (s.writer.records.writer.d_content.drop 12) s.writer ∧ s.items = [] := by
  obtain ⟨w, hw, rfl⟩ := map_eq_some_iff.mp hs
  obtain ⟨question, hfresh⟩ := exists_fresh hw d_rollbackmarker
  have hquestion : w.d_content.drop 12 = question := by
    rw [show w.d_content = layout 0 question [] from hfresh.content]
    exact append_nil question
  exact ⟨hquestion ▸ hfresh, rfl⟩

theorem sound_of_fresh {question : Octets} {s : ReplyRun} (h : Fresh 0 question s.writer)
    (hempty : s.items = []) : Sound env question s := by
  refine ⟨⟨_, h.ready⟩, ?_, ?_⟩
  · rw [hempty, h.started]
    exact .nil
  · intro dnssecOk options hmem
    rw [hempty] at hmem
    cases hmem

/-- **When replies fit over UDP**: for every reply, with any records, keys and options, what `wrapup`
writes fits if and only if the condition holds. -/
theorem fits_over_udp_iff {p : ReplyPacket} (hudp : p.d_tcp = false) {d_sor : Nat}
    {d_rollbackmarker : UInt16} {s : ReplyRun}
    (hs : newWriter p.toReplyHead d_sor d_rollbackmarker = some s) {out : WrittenReply}
    (h : env.wrapup p.toReplyHead p.toDNSPacket d_sor d_rollbackmarker = some out) :
    env.Fits p.toDNSPacket (s.writer.records.writer.d_content.drop 12) out ↔
      env.SizesFit p.toDNSPacket s := by
  obtain ⟨hfresh, hempty⟩ := newWriter_fresh hs
  have hsound : Sound env _ s := sound_of_fresh hfresh hempty
  have hmax := maxreplylen_lt p
  generalize s.writer.records.writer.d_content.drop 12 = question at hfresh hsound ⊢
  obtain ⟨s', hs', h⟩ := bind_eq_some_iff.mp h
  obtain rfl := some.inj (hs.symm.trans hs')
  obtain ⟨⟨t, tc⟩, hwritten, h⟩ := bind_eq_some_iff.mp h
  obtain rfl := some.inj h
  unfold writeAll at hwritten
  by_cases hnothing : p.d_rrs = [] ∧ opts env.toWrapupEnv p.toDNSPacket = []
  · rw [if_pos hnothing] at hwritten
    obtain ⟨rfl, rfl⟩ := Prod.mk.inj (some.inj hwritten)
    exact nothing_fits_iff hfresh hempty hnothing hmax
  · rw [if_neg hnothing] at hwritten
    rcases writeRecords_cases hwritten with ⟨u, hu, hfinish, rfl, hnone⟩ |
      ⟨kept, rr, rest, u, v, horder, hu, hv, hstops, rfl, rfl, hnone⟩
    · exact whole_fits_iff hudp hsound hempty hmax hnothing hu hfinish hnone
    · exact cut_fits_iff hudp hsound hempty hmax horder hu hv hstops hnone

/-! ### A server with a key -/

/-- Everything is signed with a key of 1024 bits, and every content is an address. -/
def keyedEnv : ReplyEnv where
  noShuffle := true
  randomShuffle := fun _ rrs => rrs
  perm := fun _ _ => List.Perm.refl _
  serverId := []
  haveKSKFor := fun name => decide (name = ascii "a")
  activeZSKFor := fun name => decide (name = ascii "a")
  mastermake := fun _ _ => true
  start := 12
  octets := fun _ _ => 16
  toPacket := fun _ _ => [.xfrBlob [192, 0, 2, 1]]
  getCurrentInception := 1250726400
  fillOutRRSIG := fun _ => (5, 4711, List.replicate 128 0x5a)

/-- Addresses of `a`, for a client with the DO bit that takes 1280 octets. -/
def signedAddresses (n : Nat) : ReplyPacket where
  d_tcp := false
  d_dnssecOk := true
  d_maxreplylen := 1280
  d_rrs := List.replicate n
    { qtype := QType.A, qname := ascii "a", wildcardname := [], content := ascii "192.0.2.1", ttl := 3600,
      auth := true }
  d := { id := 0x1235 }
  qdomain := ascii "a"
  qtype := QType.A
  qclass := 1
  places := by
    intro rr hrr
    rw [(mem_replicate.mp hrr).2]
    decide
  maxreplylen := .inr ⟨512, by decide⟩

/-- One address and its signature. -/
theorem one_address_fits :
    ∃ s out, newWriter (signedAddresses 1).toReplyHead 0 0 = some s ∧
      keyedEnv.wrapup (signedAddresses 1).toReplyHead (signedAddresses 1).toDNSPacket 0 0 = some out ∧
      keyedEnv.Fits (signedAddresses 1).toDNSPacket (s.writer.records.writer.d_content.drop 12) out := by
  have hlengths : ((newWriter (signedAddresses 1).toReplyHead 0 0).bind fun s =>
      (StoppedRun.through (keyedEnv.writeOne (signedAddresses 1).toDNSPacket) s
        (arranged keyedEnv.toWrapupEnv (signedAddresses 1).toDNSPacket)).bind fun t =>
          (keyedEnv.ending (signedAddresses 1).toDNSPacket t).map fun u => u.writer.length) = some 207 := by
    decide +kernel
  have hwrapup : (keyedEnv.wrapup (signedAddresses 1).toReplyHead
      (signedAddresses 1).toDNSPacket 0 0).isSome = true := by decide +kernel
  obtain ⟨s, hs, hlengths⟩ := bind_eq_some_iff.mp hlengths
  obtain ⟨t, ht, hlengths⟩ := bind_eq_some_iff.mp hlengths
  obtain ⟨u, hu, hlength⟩ := map_eq_some_iff.mp hlengths
  obtain ⟨out, hout⟩ := isSome_iff_exists.mp hwrapup
  obtain ⟨hfresh, hempty⟩ := newWriter_fresh hs
  refine ⟨s, out, hs, hout, (fits_over_udp_iff rfl hs hout).mpr ?_⟩
  refine sizesFit_of_small (sound_of_fresh hfresh hempty) hempty ht hu ?_ ?_
  · rw [hlength]
    decide
  · intro rr _
    change ¬ Silent [.xfrBlob [192, 0, 2, 1]]
    decide

/-- **Seventy addresses**: they leave 20 octets in a packet of 1280, and with the signature and the OPT
record it has 1311. -/
theorem seventy_addresses_written :
    ∃ s out, newWriter (signedAddresses 70).toReplyHead 0 0 = some s ∧
      keyedEnv.wrapup (signedAddresses 70).toReplyHead (signedAddresses 70).toDNSPacket 0 0 = some out ∧
      out.stringbuffer.length = 1311 ∧ (signedAddresses 70).d_maxreplylen = 1280 ∧
      ¬ keyedEnv.Fits (signedAddresses 70).toDNSPacket (s.writer.records.writer.d_content.drop 12) out := by
  have hlength : (keyedEnv.wrapup (signedAddresses 70).toReplyHead (signedAddresses 70).toDNSPacket 0
      0).map (fun out => out.stringbuffer.length) = some 1311 := by decide +kernel
  have hwriter : (newWriter (signedAddresses 70).toReplyHead 0 0).isSome = true := by decide +kernel
  obtain ⟨out, hout, hlen⟩ := map_eq_some_iff.mp hlength
  obtain ⟨s, hs⟩ := isSome_iff_exists.mp hwriter
  refine ⟨s, out, hs, hout, hlen, rfl, fun hfits => ?_⟩
  have hle := Fits.length hfits
  rw [hlen] at hle
  exact absurd hle (by decide)

end ReplyEnv

end PowerDNS
