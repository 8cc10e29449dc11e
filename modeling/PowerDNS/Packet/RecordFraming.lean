import PowerDNS.Base.Record
import PowerDNS.Packet.Compression

/-!
# Record framing of the writer

`commit` puts the record header and the pending rdata behind the owner name and counts the
record in the packet header. `startRecord` commits the record before it by itself, but takes
an empty rdata buffer for the absence of such a record; and `commit` writes a header and counts
a record whether one is open or not.

A run keeps, beside the writer, the records it has started (`StartedRecord`). `AllFramed` says
what the packet is when all of them are framed: the header with the number of records of every
section, the question, and one frame after the other. `framed_after_commit` is the theorem: a
run in which every record either has rdata or is committed before the next one starts, in
which nothing is committed that is not open, ends in a framed packet.
-/

namespace PowerDNS

open GuardedRun DNSPacketWriter List Option UInt8 UInt16

/-! ### Frames -/

/-- A record that was started: what `startRecord` was told, the octets it wrote for the owner
name, and the rdata so far. -/
structure StartedRecord where
  qtype : UInt16
  ttl : UInt32
  qclass : UInt16
  place : WriterPlace
  owner : Octets
  rdata : Octets := []
  deriving DecidableEq

/-- The record as it stands in a packet. -/
def StartedRecord.frame (r : StartedRecord) : Octets :=
  r.owner ++ be16 r.qtype ++ be16 r.qclass ++ be32 r.ttl ++ be16 (UInt16.ofNat r.rdata.length) ++
    r.rdata

/-- The number of records of a section. -/
def sectionCount (rs : List StartedRecord) (place : WriterPlace) : Nat :=
  rs.countP fun r => r.place = place

/-- The packet header up to the number of questions, which is 1. -/
def headerStart (opcode : UInt8) : Octets := [0, 0, (opcode &&& 15) <<< 3, 0, 0, 1]

/-- The header of a packet with one question and these records. -/
def packetHeader (opcode : UInt8) (rs : List StartedRecord) : Octets :=
  headerStart opcode ++ be16 (UInt16.ofNat (sectionCount rs .ANSWER)) ++
    be16 (UInt16.ofNat (sectionCount rs .AUTHORITY)) ++
    be16 (UInt16.ofNat (sectionCount rs .ADDITIONAL))

/-- A packet of header, question and records. -/
def layout (opcode : UInt8) (question : Octets) (rs : List StartedRecord) : Octets :=
  packetHeader opcode rs ++ (question ++ rs.flatMap StartedRecord.frame)

/-- The packet consists of the question and the records `rs`, and the 16 bit fields that count
them, and their rdata, do not wrap. -/
structure AllFramed (opcode : UInt8) (question content : Octets) (rs : List StartedRecord) :
    Prop where
  content : content = layout opcode question rs
  counts : ∀ place, sectionCount rs place < 65536
  rdlength : ∀ r ∈ rs, r.rdata.length < 65536

/-! ### Counting in the header -/

/-- The two octets of a number, put together. -/
theorem be16_toNat (v : UInt16) :
    256 * (v >>> 8).toUInt8.toNat + v.toUInt8.toNat = v.toNat := by
  have hlt := v.toNat_lt
  rw [UInt16.toNat_toUInt8, UInt16.toNat_toUInt8, UInt16.toNat_shiftRight,
    show (8 : UInt16).toNat % 16 = 8 from rfl, Nat.shiftRight_eq_div_pow]
  omega

/-- Counting one more in two octets, as `incrementAt` does it. -/
theorem be16_succ (n : Nat) :
    be16 (UInt16.ofNat (n + 1)) =
      [UInt8.ofNat (((UInt16.ofNat n).toNat + 1) / 256), UInt8.ofNat ((UInt16.ofNat n).toNat + 1)]
      := by
  have hhi : (UInt16.ofNat (n + 1) >>> 8).toUInt8 =
      UInt8.ofNat (((UInt16.ofNat n).toNat + 1) / 256) := by
    rw [← UInt8.toNat_inj, UInt16.toNat_toUInt8, UInt16.toNat_shiftRight, UInt16.toNat_ofNat',
      UInt16.toNat_ofNat', UInt8.toNat_ofNat', show (8 : UInt16).toNat % 16 = 8 from rfl,
      Nat.shiftRight_eq_div_pow]
    omega
  have hlo : (UInt16.ofNat (n + 1)).toUInt8 = UInt8.ofNat ((UInt16.ofNat n).toNat + 1) := by
    rw [← UInt8.toNat_inj, UInt16.toNat_toUInt8, UInt16.toNat_ofNat', UInt16.toNat_ofNat',
      UInt8.toNat_ofNat']
    omega
  unfold be16
  rw [hhi, hlo]

theorem sectionCount_append (rs : List StartedRecord) (r : StartedRecord) (place : WriterPlace) :
    sectionCount (rs ++ [r]) place =
      if r.place = place then sectionCount rs place + 1 else sectionCount rs place := by
  unfold sectionCount
  rw [countP_append, countP_singleton]
  by_cases h : r.place = place
  · rw [if_pos h, if_pos (decide_eq_true h)]
  · rw [if_neg h, if_neg (by simpa using h), Nat.add_zero]

/-- `incrementAt` on a 16 bit number in the middle of the octets. -/
theorem incrementAt_be16 (pre rest : Octets) (n : Nat) :
    incrementAt (pre ++ (be16 (UInt16.ofNat n) ++ rest)) pre.length =
      pre ++ (be16 (UInt16.ofNat (n + 1)) ++ rest) := by
  have hhi : (pre ++ (be16 (UInt16.ofNat n) ++ rest)).getD pre.length 0 =
      (UInt16.ofNat n >>> 8).toUInt8 := by
    simp [List.getD, be16]
  have hlo : (pre ++ (be16 (UInt16.ofNat n) ++ rest)).getD (pre.length + 1) 0 =
      (UInt16.ofNat n).toUInt8 := by
    simp [List.getD, be16]
  unfold incrementAt
  rw [hhi, hlo, be16_toNat, be16_succ]
  simp [be16]

/-- `incrementAt` counts the record in the header. -/
theorem incrementAt_packetHeader (opcode : UInt8) (rs : List StartedRecord) (r : StartedRecord)
    (rest : Octets) :
    incrementAt (packetHeader opcode rs ++ rest) (countOffset r.place) =
      packetHeader opcode (rs ++ [r]) ++ rest := by
  -- the count of the section, and what is in front of it
  have hcount : ∀ (pre tail : Octets) (n : Nat), pre.length = countOffset r.place →
      incrementAt (pre ++ (be16 (UInt16.ofNat n) ++ tail)) (countOffset r.place) =
        pre ++ (be16 (UInt16.ofNat (n + 1)) ++ tail) :=
    fun pre tail n hlen => hlen ▸ incrementAt_be16 pre tail n
  unfold packetHeader
  simp only [sectionCount_append, append_assoc]
  cases hplace : r.place with
  | ANSWER =>
    rw [hplace] at hcount
    exact hcount (headerStart opcode) _ _ rfl
  | AUTHORITY =>
    rw [hplace] at hcount
    exact hcount (headerStart opcode ++ be16 _) _ _ rfl
  | ADDITIONAL =>
    rw [hplace] at hcount
    exact hcount (headerStart opcode ++ (be16 _ ++ be16 _)) _ _ rfl

/-! ### Runs -/

/-- A writer and the records it has started. -/
structure RecordRun where
  writer : DNSPacketWriter
  started : List StartedRecord := []

namespace RecordRun

/-- The record of a `startRecord` that took the writer from `w` to `w'`: the octets that were
appended are its owner. -/
def startedBy (w w' : DNSPacketWriter) : StartedRecord where
  qtype := w'.d_recordqtype
  ttl := w'.d_recordttl
  qclass := w'.d_recordqclass
  place := w'.d_recordplace
  owner := w'.d_content.drop w.d_content.length

/-- Rdata goes to the record that was started last. -/
def addRdata (octets : Octets) : List StartedRecord → List StartedRecord
  | [] => []
  | [r] => [{ r with rdata := r.rdata ++ octets }]
  | r :: rs => r :: addRdata octets rs

/-- One call. `none` stands for a run that has thrown. -/
def step (s : Option RecordRun) (o : WriteOp) : Option RecordRun := do
  let s ← s
  let w ← o.apply s.writer
  match o with
  | .startRecord .. => do
    let flushed ← s.writer.flush
    some { writer := w, started := s.started ++ [startedBy flushed w] }
  | .commit => some { s with writer := w }
  | _ =>
    some { writer := w
           started := addRdata (w.d_record.drop s.writer.d_record.length) s.started }

/-- The calls that keep the framing: `startRecord` when the record before it is committed, or
has rdata that the 16 bit length can tell, and its section is not full; rdata and `commit` only
while a record is open. -/
def FramingOK (s : RecordRun) : WriteOp → Prop
  | .startRecord _ _ _ _ place =>
    (s.writer.d_stuff = 10 → s.writer.d_record ≠ []) ∧ s.writer.d_record.length < 65536 ∧
      sectionCount s.started place < 65535
  | .xfrLabel _ _ => s.writer.d_stuff = 10
  | .xfrBlob _ => s.writer.d_stuff = 10
  | .commit => s.writer.d_stuff = 10 ∧ s.writer.d_record.length < 65536

instance decidableFramingOK (s : RecordRun) : ∀ o, Decidable (FramingOK s o)
  | .startRecord _ _ _ _ place => inferInstanceAs (Decidable
      ((s.writer.d_stuff = 10 → s.writer.d_record ≠ []) ∧ s.writer.d_record.length < 65536 ∧
        sectionCount s.started place < 65535))
  | .xfrLabel _ _ => inferInstanceAs (Decidable (s.writer.d_stuff = 10))
  | .xfrBlob _ => inferInstanceAs (Decidable (s.writer.d_stuff = 10))
  | .commit => inferInstanceAs (Decidable
      (s.writer.d_stuff = 10 ∧ s.writer.d_record.length < 65536))

/-- A call on a run keeps the framing when it does so on its writer. -/
def KeepsFraming (s : Option RecordRun) (o : WriteOp) : Prop := ∀ t ∈ s, FramingOK t o

instance decidableKeepsFraming : ∀ (s : Option RecordRun) (o : WriteOp),
    Decidable (KeepsFraming s o)
  | none, _ => isTrue nofun
  | some t, o => decidable_of_iff (FramingOK t o) (by simp [KeepsFraming])

/-- Where a run is: all started records are framed, or all but the last one, whose owner is
written and whose rdata is pending. -/
inductive FrameInv (opcode : UInt8) (question : Octets) (s : RecordRun) : Prop
  | idle (stuff : s.writer.d_stuff ≠ 10) (record : s.writer.d_record = [])
      (framed : AllFramed opcode question s.writer.d_content s.started)
  | writing (rs : List StartedRecord) (r : StartedRecord) (started : s.started = rs ++ [r])
      (stuff : s.writer.d_stuff = 10) (record : s.writer.d_record = r.rdata)
      (header : s.writer.d_recordqtype = r.qtype ∧ s.writer.d_recordttl = r.ttl ∧
        s.writer.d_recordqclass = r.qclass ∧ s.writer.d_recordplace = r.place)
      (content : s.writer.d_content = layout opcode question rs ++ r.owner)
      (counts : ∀ place, sectionCount (rs ++ [r]) place < 65536)
      (rdlength : ∀ r' ∈ rs, r'.rdata.length < 65536)

/-! ### One call -/

theorem addRdata_append (octets : Octets) (rs : List StartedRecord) (r : StartedRecord) :
    addRdata octets (rs ++ [r]) = rs ++ [{ r with rdata := r.rdata ++ octets }] := by
  induction rs with
  | nil => rfl
  | cons r' rs ih =>
    cases rs with
    | nil => rfl
    | cons r'' rs =>
      change r' :: addRdata octets (r'' :: rs ++ [r]) = _
      rw [ih]
      rfl

/-- The packet with one more frame. -/
theorem layout_append (opcode : UInt8) (question : Octets) (rs : List StartedRecord)
    (r : StartedRecord) :
    layout opcode question (rs ++ [r]) =
      packetHeader opcode (rs ++ [r]) ++
        (question ++ (rs.flatMap StartedRecord.frame ++ r.frame)) := by
  unfold layout
  rw [flatMap_append, flatMap_singleton]

/-- **Committing the record that is open** frames it. -/
theorem commit_writing {opcode : UInt8} {question : Octets} {w : DNSPacketWriter}
    {rs : List StartedRecord} {r : StartedRecord} (stuff : w.d_stuff = 10)
    (record : w.d_record = r.rdata)
    (header : w.d_recordqtype = r.qtype ∧ w.d_recordttl = r.ttl ∧ w.d_recordqclass = r.qclass ∧
      w.d_recordplace = r.place)
    (content : w.d_content = layout opcode question rs ++ r.owner) :
    ∃ w', w.commit = some w' ∧ w'.d_content = layout opcode question (rs ++ [r]) ∧
      w'.d_stuff = 0 ∧ w'.d_record = [] ∧ w'.d_qname = w.d_qname := by
  obtain ⟨htype, httl, hclass, hplace⟩ := header
  refine ⟨_, if_neg ?_, ?_, rfl, rfl, rfl⟩
  · rw [stuff]
    exact fun h => absurd h.1 (by decide)
  · have hframe : w.d_content ++ w.recordHeader ++ w.d_record =
        packetHeader opcode rs ++ (question ++ (rs.flatMap StartedRecord.frame ++ r.frame)) := by
      rw [content, record]
      unfold layout recordHeader StartedRecord.frame
      rw [htype, httl, hclass, record]
      simp only [append_assoc]
    rw [hframe, hplace, incrementAt_packetHeader, layout_append]

/-- The owner name goes straight to the content. -/
theorem exists_writeOwner {w : DNSPacketWriter} (hrecord : w.d_record = []) (n : Name) :
    ∃ owner entries, w.writeOwner n.text =
      some { w with d_content := w.d_content ++ owner, d_labelmap := w.d_labelmap ++ entries } := by
  unfold writeOwner
  split
  · exact ⟨[0xc0, 0x0c], [], by rw [append_nil]⟩
  · -- what `xfrLabel` puts into the empty buffer is moved to the content
    obtain ⟨entries, octets, heq, -⟩ := exists_xfrLabel w n true
    refine ⟨octets, entries, ?_⟩
    rw [heq]
    simp [bind, xfrBlob, hrecord]

/-- `startRecord` on a writer without pending rdata writes the owner and opens the record. -/
theorem exists_startRecord {w : DNSPacketWriter} (hrecord : w.d_record = []) (n : Name)
    (qtype : UInt16) (ttl : UInt32) (qclass : UInt16) (place : WriterPlace) :
    ∃ owner entries, w.startRecord n.text qtype ttl qclass place = some
      { w with
        d_recordqtype := qtype
        d_recordqclass := qclass
        d_recordttl := ttl
        d_recordplace := place
        d_content := w.d_content ++ owner
        d_labelmap := w.d_labelmap ++ entries
        d_stuff := 10
        d_sor := (w.d_content ++ owner).length + 10 } := by
  have hflush : w.flush = some w := if_neg (not_not.mpr hrecord)
  let opened : DNSPacketWriter :=
    { w with
      d_recordqtype := qtype
      d_recordqclass := qclass
      d_recordttl := ttl
      d_recordplace := place
      d_stuff := 0 }
  obtain ⟨owner, entries, howner⟩ := @exists_writeOwner opened hrecord n
  refine ⟨owner, entries, ?_⟩
  unfold startRecord
  rw [hflush]
  simp only [bind, Option.bind]
  rw [show writeOwner _ n.text = _ from howner]

/-- `startRecord` on a writer and on the same writer flushed do the same. -/
theorem startRecord_of_flush {w f : DNSPacketWriter} (hflush : w.flush = some f)
    (hrecord : f.d_record = []) (name : Octets) (qtype : UInt16) (ttl : UInt32) (qclass : UInt16)
    (place : WriterPlace) :
    w.startRecord name qtype ttl qclass place = f.startRecord name qtype ttl qclass place := by
  have hagain : f.flush = some f := if_neg (not_not.mpr hrecord)
  unfold startRecord
  rw [hflush, hagain]

/-- Before a record is started the one before it is committed: what is framed then. -/
theorem flush_framed {opcode : UInt8} {question : Octets} {s : RecordRun}
    (hinv : FrameInv opcode question s)
    (hrdata : s.writer.d_stuff = 10 → s.writer.d_record ≠ [])
    (hlen : s.writer.d_record.length < 65536) :
    ∃ w, s.writer.flush = some w ∧ w.d_record = [] ∧
      AllFramed opcode question w.d_content s.started := by
  cases hinv with
  | idle stuff record framed => exact ⟨s.writer, if_neg (not_not.mpr record), record, framed⟩
  | writing rs r started stuff record header content counts rdlength =>
    obtain ⟨w, hw, hcontent, -, hrecord, -⟩ := commit_writing stuff record header content
    refine ⟨w, (if_pos (hrdata stuff)).trans hw, hrecord, ?_⟩
    rw [started]
    refine ⟨hcontent, counts, ?_⟩
    intro r' hr'
    rcases mem_append.mp hr' with h | h
    · exact rdlength r' h
    · rw [mem_singleton.mp h, ← record]
      exact hlen

/-- **One call keeps the framing**, and does not throw. -/
theorem step_inv {opcode : UInt8} {question : Octets} {s : RecordRun} {o : WriteOp}
    (hinv : FrameInv opcode question s) (hok : FramingOK s o) :
    ∃ t, step (some s) o = some t ∧ FrameInv opcode question t := by
  cases o with
  | startRecord n qtype ttl qclass place =>
    obtain ⟨hrdata, hlen, hroom⟩ := hok
    obtain ⟨w, hflush, hrecord, hframed⟩ := flush_framed hinv hrdata hlen
    obtain ⟨owner, entries, hstart⟩ := exists_startRecord hrecord n qtype ttl qclass place
    generalize hw' : ({ w with
        d_recordqtype := qtype
        d_recordqclass := qclass
        d_recordttl := ttl
        d_recordplace := place
        d_content := w.d_content ++ owner
        d_labelmap := w.d_labelmap ++ entries
        d_stuff := 10
        d_sor := (w.d_content ++ owner).length + 10 } : DNSPacketWriter) = w' at hstart
    have hplace : w'.d_recordplace = place := by rw [← hw']
    have howner : w'.d_content = w.d_content ++ owner := by rw [← hw']
    have happly : s.writer.startRecord n.text qtype ttl qclass place = some w' :=
      (startRecord_of_flush hflush hrecord ..).trans hstart
    refine ⟨{ writer := w', started := s.started ++ [startedBy w w'] }, ?_, ?_⟩
    · simp only [step, bind, Option.bind, WriteOp.apply, happly, hflush]
    · refine .writing s.started (startedBy w w') rfl (by rw [← hw']) (by rw [← hw']; exact hrecord)
        ⟨rfl, rfl, rfl, rfl⟩ ?_ ?_ hframed.rdlength
      · rw [← hframed.content, howner]
        simp [startedBy, howner]
      · intro place'
        rw [sectionCount_append]
        have hcount := hframed.counts place'
        split
        next h =>
          have hsame : place = place' := by rw [← hplace]; exact h
          rw [← hsame]
          omega
        next => exact hcount
  | xfrLabel n compress =>
    obtain ⟨entries, octets, heq, -⟩ := exists_xfrLabel s.writer n compress
    cases hinv with
    | idle stuff => exact absurd hok stuff
    | writing rs r started stuff record header content counts rdlength =>
      refine ⟨_, by simp only [step, bind, Option.bind, WriteOp.apply, heq]; rfl, ?_⟩
      have hrdata : (s.writer.d_record ++ octets).drop s.writer.d_record.length = octets :=
        drop_left
      refine .writing rs { r with rdata := r.rdata ++ octets } ?_ stuff ?_ header content ?_
        rdlength
      · change addRdata ((s.writer.d_record ++ octets).drop s.writer.d_record.length) _ = _
        rw [hrdata, started, addRdata_append]
      · change s.writer.d_record ++ octets = _
        rw [record]
      · intro place
        have := counts place
        rwa [sectionCount_append] at this ⊢
  | xfrBlob blob =>
    cases hinv with
    | idle stuff => exact absurd hok stuff
    | writing rs r started stuff record header content counts rdlength =>
      refine ⟨_, rfl, ?_⟩
      have hrdata : (s.writer.d_record ++ blob).drop s.writer.d_record.length = blob :=
        drop_left
      refine .writing rs { r with rdata := r.rdata ++ blob } ?_ stuff ?_ header content ?_
        rdlength
      · change addRdata ((s.writer.d_record ++ blob).drop s.writer.d_record.length) _ = _
        rw [hrdata, started, addRdata_append]
      · change s.writer.d_record ++ blob = _
        rw [record]
      · intro place
        have := counts place
        rwa [sectionCount_append] at this ⊢
  | commit =>
    obtain ⟨hopen, hlen⟩ := hok
    cases hinv with
    | idle stuff => exact absurd hopen stuff
    | writing rs r started stuff record header content counts rdlength =>
      obtain ⟨w, hw, hcontent, hstuff, hrecord, -⟩ := commit_writing stuff record header content
      refine ⟨{ s with writer := w }, ?_, ?_⟩
      · simp only [step, bind, Option.bind, WriteOp.apply, hw]
      · refine .idle (by rw [hstuff]; decide) hrecord ?_
        rw [started]
        refine ⟨hcontent, counts, ?_⟩
        intro r' hr'
        rcases mem_append.mp hr' with h | h
        · exact rdlength r' h
        · rw [mem_singleton.mp h, ← record]
          exact hlen

/-! ### Whole runs -/

/-- The run at its beginning. -/
def start (qname : Name) (qtype qclass : UInt16) (opcode : UInt8) (d_sor : Nat) :
    Option RecordRun :=
  (create qname.text qtype qclass opcode d_sor).map fun w => { writer := w }

/-- The question as it stands in the packet. -/
def question (qname : Name) (qtype qclass : UInt16) : Octets :=
  wireLabels qname.labels ++ be16 qtype ++ be16 qclass

/-- The constructor leaves a packet with the question and no records. -/
theorem start_inv (qname : Name) (qtype qclass : UInt16) (opcode : UInt8) (d_sor : Nat) :
    ∃ s, start qname qtype qclass opcode d_sor = some s ∧
      FrameInv opcode (question qname qtype qclass) s := by
  obtain ⟨entries, octets, heq, hwire⟩ := exists_xfrLabel
    { d_content := questionHeader opcode, d_qname := qname.text, d_sor := d_sor } qname false
  refine ⟨_, by simp only [start, create, heq, bind, Option.bind, map_some]; rfl, ?_⟩
  refine .idle (show (0xffff : Nat) ≠ 10 by decide) rfl ⟨?_, ?_, ?_⟩
  · change questionHeader opcode ++ octets ++ be16 qtype ++ be16 qclass =
      layout opcode (question qname qtype qclass) []
    rw [hwire rfl]
    unfold layout question
    rw [flatMap_nil, append_nil, append_assoc, append_assoc,
      append_assoc]
    rfl
  · intro place
    exact Nat.zero_lt_succ _
  · intro entry hentry
    cases hentry

/-- The constructor starts no record, and leaves a `d_stuff` that tells so. -/
theorem start_eq {qname : Name} {qtype qclass : UInt16} {opcode : UInt8} {d_sor : Nat}
    {t : RecordRun} (h : start qname qtype qclass opcode d_sor = some t) :
    t.started = [] ∧ t.writer.d_stuff = 0xffff := by
  obtain ⟨entries, octets, heq, -⟩ := exists_xfrLabel
    { d_content := questionHeader opcode, d_qname := qname.text, d_sor := d_sor } qname false
  simp only [start, create, heq, bind, Option.bind, map_some, Option.some.injEq] at h
  rw [← h]
  exact ⟨rfl, rfl⟩

/-- Every call of a run that keeps the framing finds a run that has not thrown. -/
theorem keepsFraming_step {opcode : UInt8} {q : Octets} (s : Option RecordRun) (o : WriteOp)
    (hinv : ∃ t, s = some t ∧ FrameInv opcode q t) (hok : KeepsFraming s o) :
    ∃ t, step s o = some t ∧ FrameInv opcode q t := by
  obtain ⟨t, rfl, ht⟩ := hinv
  exact step_inv ht (hok t rfl)

/-- **Record framing.** When every call keeps the framing, the packet after a commit consists
of the header with the number of records of every section, the question, and the frames of all
records that were started, in their order. -/
theorem framed_after_commit (qname : Name) (qtype qclass : UInt16) (opcode : UInt8) (d_sor : Nat)
    {ops : List WriteOp}
    (h : Guarded step KeepsFraming (start qname qtype qclass opcode d_sor) (ops ++ [.commit])) :
    ∃ t, run step (start qname qtype qclass opcode d_sor) (ops ++ [.commit]) = some t ∧
      AllFramed opcode (question qname qtype qclass) t.writer.d_content t.started := by
  rw [guarded_append] at h
  obtain ⟨hops, hlast, -⟩ := h
  obtain ⟨s, hs, hinv⟩ :=
    run_invariant keepsFraming_step (start_inv qname qtype qclass opcode d_sor) hops
  rw [hs] at hlast
  obtain ⟨t, ht, htinv⟩ := step_inv hinv (hlast s rfl)
  refine ⟨t, by rw [run_append, hs]; exact ht, ?_⟩
  cases htinv with
  | idle stuff record framed => exact framed
  | writing rs r started stuff =>
    -- a commit never leaves a record open
    have hcommit : s.writer.commit = some t.writer := by
      simp only [step, bind, Option.bind, WriteOp.apply] at ht
      split at ht
      · cases ht
      · next w hw =>
        rw [hw, ← some.inj ht]
    rw [(commit_eq hcommit).2.1] at stuff
    cases stuff

/-! ### An OPT record without options -/

/-- `addOpt(udpsize, extRCode, Z, options)`: a record whose rdata are the options. -/
def addOpt (udpsize : UInt16) (extRCode : UInt8) (z : UInt16) (options : List (UInt16 × Octets)) :
    List WriteOp :=
  .startRecord { labels := [], dotted := false, wf := nofun } QType.OPT
      (UInt32.ofNat (2 ^ 24 * extRCode.toNat + z.toNat)) udpsize .ADDITIONAL ::
    options.map fun o => .xfrBlob (be16 o.1 ++ be16 (UInt16.ofNat o.2.length) ++ o.2)

/-- The question name of the examples. -/
def questionName : Name where
  labels := [[97]]
  dotted := true
  wf := by decide

/-- An address record and its commit. -/
def address : List WriteOp :=
  [.startRecord questionName QType.A 60 1 .ANSWER, .xfrBlob [192, 0, 2, 1], .commit]

/-- An OPT record with an option, followed by an address. -/
theorem opt_with_option_framed :
    ∃ t, run step (start questionName QType.A 1 0 0)
        (addOpt 2800 0 0x8000 [(3, ascii "ns1")] ++ address) = some t ∧
      AllFramed 0 (question questionName QType.A 1) t.writer.d_content t.started := by
  exact @framed_after_commit questionName QType.A 1 0 0 (addOpt 2800 0 0x8000
    [(3, ascii "ns1")] ++ [.startRecord questionName QType.A 60 1 .ANSWER,
      .xfrBlob [192, 0, 2, 1]]) (by decide)

/-- Without options the OPT record has no rdata: the next `startRecord` does not commit it, and
it is neither counted nor does it get a record header. -/
theorem opt_without_options_not_framed :
    ∃ t, run step (start questionName QType.A 1 0 0) (addOpt 2800 0 0x8000 [] ++ address) = some t ∧
      ¬AllFramed 0 (question questionName QType.A 1) t.writer.d_content t.started := by
  refine ⟨_, rfl, ?_⟩
  intro h
  exact absurd h.content (by decide)

end RecordRun

end PowerDNS
