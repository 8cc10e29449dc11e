import PowerDNS.Packet.ResponseFraming

/-!
# Records written one after the other

What writes a reply calls `startRecord` for a record, the `xfr` functions for its rdata, and then
goes on to the next record; `startRecord` commits the one before it, unless that has no rdata. Then
nothing is committed, and the record stays in the packet without its header.

The names are any texts here, and the rdata any calls that do not throw. `Opened` says where the
writer is behind a record: when all records in front of it have rdata, the packet up to its owner is
the layout of these (`Opened.clean`); when one has none, it is shorter than that (`Opened.short`).
So the length alone tells whether a packet is framed.
-/

namespace PowerDNS

open DNSPacketWriter List Option

/-! ### The calls -/

/-- What `mastermake` and `toPacket` come to: a call on the writer, or an exception. -/
inductive RdataCall
  | xfrLabel (label : Octets) (compress : Bool)
  | xfrBlob (blob : Octets)
  | throws
  deriving DecidableEq

/-- A call on the writer. -/
def RdataCall.apply (w : DNSPacketWriter) : RdataCall → Option DNSPacketWriter
  | .xfrLabel label compress => w.xfrLabel label compress
  | .xfrBlob blob => some (w.xfrBlob blob)
  | .throws => none

/-- The calls that write nothing. -/
def Silent (rdata : List RdataCall) : Prop := ∀ call ∈ rdata, call = .xfrBlob []

instance (rdata : List RdataCall) : Decidable (Silent rdata) :=
  inferInstanceAs (Decidable (∀ call ∈ rdata, call = .xfrBlob []))

/-- A record as the writer is told it. -/
structure RecordCalls where
  qname : Octets
  qtype : UInt16
  ttl : UInt32
  qclass : UInt16
  place : WriterPlace
  rdata : List RdataCall
  deriving DecidableEq

namespace ResponseRun

/-- `startRecord`, and the calls for the rdata. -/
def writeRecord (s : ResponseRun) (i : RecordCalls) : Option ResponseRun := do
  let begun ← s.records.writer.flush
  let opened ← s.records.writer.startRecord i.qname i.qtype i.ttl i.qclass i.place
  let w ← i.rdata.foldlM RdataCall.apply opened
  some {
    records := {
      writer := w
      started := s.records.started ++
        [{ RecordRun.startedBy begun opened with rdata := w.d_record }] }
    d_rollbackmarker := UInt16.ofNat begun.d_content.length }

/-- The records one after the other. -/
def writeAll (s : ResponseRun) (rrs : List RecordCalls) : Option ResponseRun :=
  rrs.foldlM writeRecord s

/-- `rollback()`. -/
def rollBack (s : ResponseRun) : ResponseRun :=
  { s with
    records.writer := s.records.writer.rollback s.d_rollbackmarker
    records.started := s.records.started.dropLast }

/-- `commit()`. -/
def commitRecord (s : ResponseRun) : Option ResponseRun :=
  s.records.writer.commit.map fun w => { s with records.writer := w }

/-- `size()`. -/
def size (s : ResponseRun) : Nat :=
  (s.records.writer.d_content.length + s.records.writer.d_stuff +
    s.records.writer.d_record.length) % 65536

/-- The length of the packet with the record that is open, which `size` tells in 16 bits. -/
def length (s : ResponseRun) : Nat :=
  s.records.writer.d_content.length + s.records.writer.d_record.length +
    if s.records.writer.d_stuff = 10 then 10 else 0

/-! ### What the calls append -/

section Calls

variable {w w' : DNSPacketWriter}

theorem xfrParts_appends {label : Octets} {deDot unescaped compress : Bool} {parts : List (Nat × Nat)}
    {pos : Nat} {lmap lmap' : LabelMap} {record record' : Octets}
    (h : xfrParts label deDot unescaped compress parts pos lmap record = some (lmap', record')) :
    ∃ octets, record' = record ++ octets ∧ octets ≠ [] := by
  induction parts generalizing pos lmap record with
  | nil =>
    obtain ⟨-, rfl⟩ := Prod.mk.inj (some.inj h)
    exact ⟨[0], rfl, cons_ne_nil _ _⟩
  | cons i parts ih =>
    rw [xfrParts] at h
    dsimp only at h
    split at h
    · obtain ⟨-, rfl⟩ := Prod.mk.inj (some.inj h)
      exact ⟨pointerTo _, rfl, cons_ne_nil _ _⟩
    · split at h
      · split at h
        · cases h
        · obtain ⟨octets, rfl, hne⟩ := ih h
          exact ⟨_, append_assoc _ _ _, append_ne_nil_of_right_ne_nil _ hne⟩
      · obtain ⟨octets, rfl, hne⟩ := ih h
        exact ⟨_, append_assoc _ _ _, append_ne_nil_of_right_ne_nil _ hne⟩

/-- `xfrLabel` appends to the rdata, at least one octet, and to the label map. -/
theorem xfrLabel_appends {label : Octets} {compress : Bool} (h : w.xfrLabel label compress = some w') :
    ∃ octets lmap, w' = { w with d_record := w.d_record ++ octets, d_labelmap := lmap } ∧
      octets ≠ [] := by
  unfold DNSPacketWriter.xfrLabel at h
  dsimp only at h
  split at h
  · exact ⟨[0], w.d_labelmap, (some.inj h).symm, cons_ne_nil _ _⟩
  · obtain ⟨⟨lmap, record⟩, hparts, rfl⟩ := map_eq_some_iff.mp h
    obtain ⟨octets, rfl, hne⟩ := xfrParts_appends hparts
    exact ⟨octets, lmap, rfl, hne⟩

/-- The calls for the rdata append to it, unless they write nothing. -/
theorem rdata_appends {calls : List RdataCall} (h : calls.foldlM RdataCall.apply w = some w') :
    ∃ octets lmap, w' = { w with d_record := w.d_record ++ octets, d_labelmap := lmap } ∧
      (octets = [] ↔ Silent calls) := by
  induction calls generalizing w with
  | nil =>
    obtain rfl := some.inj h
    exact ⟨[], w.d_labelmap, by rw [append_nil], iff_of_true rfl (forall_mem_nil _)⟩
  | cons call calls ih =>
    obtain ⟨v, hv, h⟩ := bind_eq_some_iff.mp h
    obtain ⟨octets, lmap, rfl, hsilent⟩ := ih h
    unfold Silent at hsilent ⊢
    rw [forall_mem_cons, ← hsilent]
    cases call with
    | xfrLabel label compress =>
      obtain ⟨octets', lmap', rfl, hne⟩ := xfrLabel_appends hv
      refine ⟨octets' ++ octets, lmap, by rw [← append_assoc], iff_of_false ?_ ?_⟩
      · exact append_ne_nil_of_left_ne_nil hne _
      · exact fun h => RdataCall.noConfusion h.1
    | xfrBlob blob =>
      obtain rfl := some.inj hv
      refine ⟨blob ++ octets, lmap, by rw [← append_assoc]; rfl, ?_⟩
      rw [append_eq_nil_iff, RdataCall.xfrBlob.injEq]
    | throws => cases hv

/-- `startRecord` behind a flush appends the owner to the content, and opens the record. -/
theorem startRecord_appends {begun : DNSPacketWriter} (hflush : w.flush = some begun)
    (hrecord : begun.d_record = []) {qname : Octets} {qtype : UInt16} {ttl : UInt32} {qclass : UInt16}
    {place : WriterPlace} (h : w.startRecord qname qtype ttl qclass place = some w') :
    ∃ owner, w'.d_content = begun.d_content ++ owner ∧ w'.d_record = [] ∧ w'.d_stuff = 10 ∧
      w'.d_recordqtype = qtype ∧ w'.d_recordttl = ttl ∧ w'.d_recordqclass = qclass ∧
        w'.d_recordplace = place := by
  unfold startRecord at h
  rw [hflush] at h
  simp only [bind, Option.bind] at h
  split at h
  · cases h
  · next v hv =>
    obtain rfl := some.inj h
    unfold writeOwner at hv
    split at hv
    · obtain rfl := some.inj hv
      exact ⟨[0xc0, 0x0c], rfl, hrecord, rfl, rfl, rfl, rfl, rfl⟩
    · simp only [bind, Option.bind] at hv
      split at hv
      · cases hv
      · next u hu =>
        obtain ⟨octets, lmap, rfl, -⟩ := xfrLabel_appends hu
        obtain rfl := some.inj hv
        refine ⟨octets, ?_, rfl, rfl, rfl, rfl, rfl, rfl⟩
        rw [hrecord, nil_append]

end Calls

/-! ### Lengths of layouts -/

section Layout

variable {opcode : UInt8} {question : Octets} {rs : List StartedRecord} {r : StartedRecord}

theorem length_frame (r : StartedRecord) : r.frame.length = r.owner.length + 10 + r.rdata.length := by
  unfold StartedRecord.frame
  simp only [length_append]
  change r.owner.length + 2 + 2 + 4 + 2 + _ = _
  omega

theorem length_layout (opcode : UInt8) (question : Octets) (rs : List StartedRecord) :
    (layout opcode question rs).length = 12 + question.length + (rs.flatMap StartedRecord.frame).length := by
  unfold layout
  rw [length_append, length_append]
  change 12 + _ = _
  omega

theorem length_layout_append :
    (layout opcode question (rs ++ [r])).length =
      (layout opcode question rs).length + r.owner.length + 10 + r.rdata.length := by
  rw [length_layout, length_layout, flatMap_append, flatMap_singleton, length_append,
    length_frame]
  omega

/-- In a packet that 16 bits can measure, no field wraps. -/
theorem allFramed_of_length (h : (layout opcode question rs).length < 65536) :
    AllFramed opcode question (layout opcode question rs) rs := by
  rw [length_layout] at h
  have hrecords : ∀ rs : List StartedRecord, 10 * rs.length ≤ (rs.flatMap StartedRecord.frame).length := by
    intro rs
    induction rs with
    | nil => exact le_rfl
    | cons r rs ih =>
      rw [flatMap_cons, length_append, length_frame, length_cons]
      omega
  refine ⟨rfl, fun place => ?_, fun r hr => ?_⟩
  · have hle : sectionCount rs place ≤ rs.length := countP_le_length
    have hten := hrecords rs
    omega
  · obtain ⟨front, behind, rfl⟩ := append_of_mem hr
    rw [flatMap_append, flatMap_cons, length_append, length_append,
      length_frame] at h
    omega

end Layout

/-- The first four octets of a packet are put in front of the others in the end. -/
theorem headed_spec (header content packet : Octets) (hheader : header.length = 4)
    (hpacket : packet = header.take content.length ++ content.drop 4) :
    packet.length = content.length ∧ packet.drop 4 = content.drop 4 ∧
      (4 ≤ content.length → packet = header ++ content.drop 4) := by
  subst hpacket
  refine ⟨?_, ?_, fun hlong => ?_⟩
  · rw [length_append, length_take, length_drop, hheader]
    omega
  · rcases Nat.lt_or_ge content.length 4 with hshort | hlong
    · rw [drop_of_length_le (by rw [length_append, length_take, length_drop]; omega),
        drop_of_length_le hshort.le]
    · rw [take_of_length_le (hheader.trans_le hlong), ← hheader, drop_left]
  · rw [take_of_length_le (hheader.trans_le hlong)]

/-! ### Between two records -/

variable {opcode : UInt8} {question : Octets} {s t : ResponseRun} {front : List StartedRecord}
  {r : StartedRecord} {i : RecordCalls}

/-- The octets `content` are the layout of the records if all of them have rdata, and shorter if
not. -/
structure Behind (opcode : UInt8) (question : Octets) (rs : List StartedRecord) (content : Octets) :
    Prop where
  clean : (∀ r ∈ rs, r.rdata ≠ []) → content = layout opcode question rs
  short : (∃ r ∈ rs, r.rdata = []) → content.length < (layout opcode question rs).length

theorem Behind.length_le {rs : List StartedRecord} {content : Octets}
    (h : Behind opcode question rs content) : content.length ≤ (layout opcode question rs).length := by
  by_cases hall : ∀ r ∈ rs, r.rdata ≠ []
  · rw [h.clean hall]
  · simp only [not_forall, not_not] at hall
    obtain ⟨r, hr, hnil⟩ := hall
    exact (h.short ⟨r, hr, hnil⟩).le

/-- Where the writer is when the next record is started. -/
structure Ready (opcode : UInt8) (question : Octets) (s : ResponseRun) (begun : DNSPacketWriter) :
    Prop where
  flush : s.records.writer.flush = some begun
  record : begun.d_record = []
  behind : Behind opcode question s.records.started begun.d_content
  length_le : s.length ≤ begun.d_content.length + 10
  length_eq : (∀ r ∈ s.records.started, r.rdata ≠ []) → begun.d_content.length = s.length

/-- Where the writer is behind the rdata of a record. -/
structure Opened (opcode : UInt8) (question : Octets) (s : ResponseRun) (front : List StartedRecord)
    (r : StartedRecord) (before : Octets) : Prop where
  started : s.records.started = front ++ [r]
  stuff : s.records.writer.d_stuff = 10
  record : s.records.writer.d_record = r.rdata
  header : s.records.writer.d_recordqtype = r.qtype ∧ s.records.writer.d_recordttl = r.ttl ∧
    s.records.writer.d_recordqclass = r.qclass ∧ s.records.writer.d_recordplace = r.place
  content : s.records.writer.d_content = before ++ r.owner
  marker : s.d_rollbackmarker = UInt16.ofNat before.length
  behind : Behind opcode question front before

/-- A writer before its first record. -/
structure Fresh (opcode : UInt8) (question : Octets) (s : ResponseRun) : Prop where
  started : s.records.started = []
  stuff : s.records.writer.d_stuff = 0xffff
  record : s.records.writer.d_record = []
  content : s.records.writer.d_content = layout opcode question []

theorem Fresh.length_eq (h : Fresh opcode question s) :
    s.length = s.records.writer.d_content.length := by
  unfold length
  rw [h.stuff, h.record]
  rfl

theorem Fresh.ready (h : Fresh opcode question s) : Ready opcode question s s.records.writer where
  flush := if_neg (not_not.mpr h.record)
  record := h.record
  behind := by
    rw [h.started]
    refine ⟨fun _ => h.content, ?_⟩
    rintro ⟨r, hr, -⟩
    cases hr
  length_le := by
    rw [h.length_eq]
    omega
  length_eq _ := h.length_eq.symm

variable {before : Octets}

theorem Opened.length_eq (h : Opened opcode question s front r before) :
    s.length = before.length + r.owner.length + 10 + r.rdata.length := by
  unfold length
  rw [h.stuff, h.record, h.content, length_append, if_pos rfl]
  omega

theorem Opened.size_eq (h : Opened opcode question s front r before) :
    s.size = s.length % 65536 := by
  unfold size length
  rw [h.stuff, if_pos rfl, Nat.add_right_comm]

/-- **Committing the record that is open** frames it, if all others are. -/
theorem Opened.commit (h : Opened opcode question s front r before) :
    ∃ w, s.records.writer.commit = some w ∧ w.d_record = [] ∧ w.d_content.length = s.length ∧
      ((∀ r' ∈ front, r'.rdata ≠ []) → w.d_content = layout opcode question (front ++ [r])) ∧
      ((∃ r' ∈ front, r'.rdata = []) →
        w.d_content.length < (layout opcode question (front ++ [r])).length) := by
  obtain ⟨w, hw⟩ := exists_commit (w := s.records.writer) (by rw [h.stuff]; decide)
  have hlength : w.d_content.length = s.length := by
    have hcommit := hw
    unfold DNSPacketWriter.commit at hcommit
    split at hcommit
    · cases hcommit
    · rw [← some.inj hcommit]
      rw [length_incrementAt, length_append, length_append, length_recordHeader, length, h.stuff,
        if_pos rfl]
      omega
  refine ⟨w, hw, (commit_eq hw).1, hlength, fun hall => ?_, fun hsome => ?_⟩
  · obtain ⟨w', hw', hcontent, -⟩ := RecordRun.commit_writing h.stuff h.record h.header
      (h.content.trans (by rw [h.behind.clean hall]))
    rw [some.inj (hw.symm.trans hw')]
    exact hcontent
  · have hshort := h.behind.short hsome
    rw [hlength, h.length_eq, length_layout_append]
    omega

/-- The next record may be started. A record without rdata is not committed. -/
theorem Opened.ready (h : Opened opcode question s front r before) :
    ∃ begun, Ready opcode question s begun := by
  by_cases hrdata : r.rdata = []
  · have hrecord : s.records.writer.d_record = [] := h.record.trans hrdata
    have hmem : r ∈ s.records.started := h.started ▸ mem_append_right front mem_cons_self
    refine ⟨s.records.writer, if_neg (not_not.mpr hrecord), hrecord, ⟨fun hall => ?_, fun _ => ?_⟩, ?_, ?_⟩
    · exact absurd hrdata (hall r hmem)
    · have hle := h.behind.length_le
      rw [h.content, h.started, length_layout_append, length_append]
      omega
    · rw [h.length_eq, h.content, hrdata, length_append]
      exact le_rfl
    · exact fun hall => absurd hrdata (hall r hmem)
  · obtain ⟨w, hw, hempty, hlength, hclean, hshort⟩ := h.commit
    refine ⟨w, (if_pos (h.record ▸ hrdata)).trans hw, hempty, ⟨fun hall => ?_, ?_⟩, ?_, fun _ => hlength⟩
    · rw [h.started] at hall ⊢
      exact hclean fun r' hr' => hall r' (mem_append_left _ hr')
    · rintro ⟨r', hr', hnil⟩
      rw [h.started] at hr' ⊢
      rcases mem_append.mp hr' with hr' | hr'
      · exact hshort ⟨r', hr', hnil⟩
      · exact absurd (mem_singleton.mp hr' ▸ hnil) hrdata
    · omega

/-- A record with rdata may be committed before the next one is started. -/
theorem Opened.committed (h : Opened opcode question s front r before)
    (hrdata : r.rdata ≠ []) (hcommit : s.commitRecord = some t) :
    Ready opcode question t t.records.writer ∧ t.length = s.length ∧
      t.records.started = s.records.started := by
  obtain ⟨w, hw, hempty, hlength, hclean, hshort⟩ := h.commit
  obtain ⟨w', hw', rfl⟩ := map_eq_some_iff.mp hcommit
  obtain rfl := some.inj (hw.symm.trans hw')
  have hlength' : ({ s with records.writer := w } : ResponseRun).length = w.d_content.length := by
    unfold length
    rw [hempty, (commit_eq hw).2.1]
    rfl
  refine ⟨⟨if_neg (not_not.mpr hempty), hempty, ⟨fun hall => ?_, ?_⟩, ?_, fun _ => hlength'.symm⟩,
    hlength'.trans hlength, rfl⟩
  · change ∀ r' ∈ s.records.started, r'.rdata ≠ [] at hall
    rw [h.started] at hall ⊢
    exact hclean fun r' hr' => hall r' (mem_append_left _ hr')
  · rintro ⟨r', hr', hnil⟩
    rw [h.started] at hr' ⊢
    rcases mem_append.mp hr' with hr' | hr'
    · exact hshort ⟨r', hr', hnil⟩
    · exact absurd (mem_singleton.mp hr' ▸ hnil) hrdata
  · rw [hlength']
    exact Nat.le_add_right _ _

/-- A record is what the writer was told. -/
def Told (i : RecordCalls) (r : StartedRecord) : Prop :=
  r.qtype = i.qtype ∧ r.ttl = i.ttl ∧ r.qclass = i.qclass ∧ r.place = i.place

/-- **Writing a record** opens it behind the others. It has no rdata if the calls write none. -/
theorem writeRecord_opened {begun : DNSPacketWriter} (h : Ready opcode question s begun)
    (hwrite : s.writeRecord i = some t) :
    ∃ r, Opened opcode question t s.records.started r begun.d_content ∧ Told i r ∧
      (r.rdata = [] ↔ Silent i.rdata) := by
  unfold writeRecord at hwrite
  rw [h.flush] at hwrite
  obtain ⟨b, hb, hwrite⟩ := bind_eq_some_iff.mp hwrite
  obtain rfl := some.inj hb
  obtain ⟨opened, hopened, hwrite⟩ := bind_eq_some_iff.mp hwrite
  obtain ⟨w, hw, hwrite⟩ := bind_eq_some_iff.mp hwrite
  obtain ⟨owner, hcontent, hrecord, hstuff, hqtype, httl, hqclass, hplace⟩ :=
    startRecord_appends h.flush h.record hopened
  obtain ⟨octets, lmap, rfl, hsilent⟩ := rdata_appends hw
  obtain rfl := some.inj hwrite
  refine ⟨{ RecordRun.startedBy begun opened with rdata := opened.d_record ++ octets }, ?_,
    ⟨hqtype, httl, hqclass, hplace⟩, by rw [← hsilent, hrecord]; rfl⟩
  refine ⟨rfl, hstuff, rfl, ⟨rfl, rfl, rfl, rfl⟩, ?_, rfl, h.behind⟩
  have howner : opened.d_content.drop begun.d_content.length = owner := by
    rw [hcontent, drop_left]
  change opened.d_content = begun.d_content ++ opened.d_content.drop begun.d_content.length
  rw [howner, hcontent]

/-- Rolling back the record that is open. -/
theorem Opened.rollBack (h : Opened opcode question s front r before) :
    (rollBack s).records.started = front ∧
      (rollBack s).records.writer.d_content = before.take (before.length % 65536) := by
  refine ⟨?_, ?_⟩
  · change s.records.started.dropLast = front
    rw [h.started]
    exact dropLast_concat
  · change s.records.writer.d_content.take s.d_rollbackmarker.toNat ++ List.replicate
      (s.d_rollbackmarker.toNat - s.records.writer.d_content.length) 0 = _
    have hle : before.length % 65536 ≤ before.length := Nat.mod_le _ _
    rw [h.marker, UInt16.toNat_ofNat', h.content, length_append]
    rw [take_append_of_le_length hle, Nat.sub_eq_zero_of_le (by omega), replicate_zero,
      append_nil]

/-! ### Records one after the other -/

/-- The constructor leaves a writer before its first record. -/
theorem exists_fresh {qname : Octets} {qtype qclass : UInt16} {d_sor : Nat} {w : DNSPacketWriter}
    (h : create qname qtype qclass opcode d_sor = some w) (d_rollbackmarker : UInt16) :
    ∃ question, Fresh opcode question { records := { writer := w }, d_rollbackmarker } := by
  obtain ⟨v, hv, h⟩ := bind_eq_some_iff.mp h
  obtain ⟨octets, lmap, rfl, -⟩ := xfrLabel_appends hv
  obtain rfl := some.inj h
  refine ⟨octets ++ be16 qtype ++ be16 qclass, rfl, rfl, rfl, ?_⟩
  change questionHeader opcode ++ octets ++ be16 qtype ++ be16 qclass = _
  unfold layout
  rw [flatMap_nil, append_nil, append_assoc, append_assoc, append_assoc]
  rfl

theorem length_le_writeRecord {begun : DNSPacketWriter} (h : Ready opcode question s begun)
    (hwrite : s.writeRecord i = some t) : s.length ≤ t.length := by
  obtain ⟨r, hopened, -⟩ := writeRecord_opened h hwrite
  have hle := h.length_le
  rw [hopened.length_eq]
  omega

variable {rrs : List RecordCalls}

theorem writeAll_cons :
    s.writeAll (i :: rrs) = (s.writeRecord i).bind fun t => t.writeAll rrs :=
  foldlM_cons

theorem writeAll_append {rrs rrs' : List RecordCalls} :
    s.writeAll (rrs ++ rrs') = (s.writeAll rrs).bind fun t => t.writeAll rrs' :=
  foldlM_append

/-- What holds of the writer behind records that were written: the next one may be started, the
packet has not become shorter, and the records are those that were told. -/
theorem writeAll_ready (h : ∃ begun, Ready opcode question s begun)
    (hwrite : s.writeAll rrs = some t) :
    (∃ begun, Ready opcode question t begun) ∧ s.length ≤ t.length ∧
      ∃ rs, t.records.started = s.records.started ++ rs ∧ List.Forall₂ Told rrs rs := by
  induction rrs generalizing s with
  | nil =>
    obtain rfl := some.inj hwrite
    exact ⟨h, le_rfl, [], (append_nil _).symm, .nil⟩
  | cons i rrs ih =>
    obtain ⟨u, hu, hwrite⟩ := bind_eq_some_iff.mp hwrite
    obtain ⟨begun, hready⟩ := h
    obtain ⟨r, hopened, htold, -⟩ := writeRecord_opened hready hu
    obtain ⟨hlast, hle, rs, hstarted, hall⟩ := ih hopened.ready hwrite
    refine ⟨hlast, (length_le_writeRecord hready hu).trans hle, r :: rs, ?_, .cons htold hall⟩
    rw [hstarted, hopened.started, append_assoc]
    rfl

/-- Behind records that were written, the last of them is open. -/
theorem writeAll_opened (h : ∃ begun, Ready opcode question s begun)
    (hwrite : s.writeAll (rrs ++ [i]) = some t) :
    ∃ u r before, s.writeAll rrs = some u ∧ Opened opcode question t u.records.started r before := by
  rw [writeAll_append] at hwrite
  obtain ⟨u, hu, hwrite⟩ := bind_eq_some_iff.mp hwrite
  obtain ⟨v, hv, hwrite⟩ := bind_eq_some_iff.mp hwrite
  obtain rfl := some.inj hwrite
  obtain ⟨⟨begun, hready⟩, -⟩ := writeAll_ready h hu
  obtain ⟨r, hopened, -⟩ := writeRecord_opened hready hv
  exact ⟨u, r, begun.d_content, hu, hopened⟩

/-- A record that was started has the rdata with which the writer was left behind it. -/
theorem exists_of_mem_started (h : ∃ begun, Ready opcode question s begun)
    (hwrite : s.writeAll rrs = some t) (hmem : r ∈ t.records.started) :
    r ∈ s.records.started ∨ ∃ kept i rest v, rrs = kept ++ i :: rest ∧
      s.writeAll (kept ++ [i]) = some v ∧ v.records.writer.d_record = r.rdata := by
  induction rrs generalizing s with
  | nil =>
    obtain rfl := some.inj hwrite
    exact .inl hmem
  | cons i rrs ih =>
    obtain ⟨u, hu, hwrite⟩ := bind_eq_some_iff.mp hwrite
    obtain ⟨begun, hready⟩ := h
    obtain ⟨r', hopened, -⟩ := writeRecord_opened hready hu
    rcases ih hopened.ready hwrite with hr | ⟨kept, j, rest, v, rfl, hv, hrdata⟩
    · rw [hopened.started] at hr
      rcases mem_append.mp hr with hr | hr
      · exact .inl hr
      · refine .inr ⟨[], i, rrs, u, rfl, ?_, ?_⟩
        · rw [nil_append, writeAll_cons, hu]
          rfl
        · rw [mem_singleton.mp hr, hopened.record]
    · refine .inr ⟨i :: kept, j, rest, v, rfl, ?_, hrdata⟩
      rw [cons_append, writeAll_cons, hu]
      exact hv

/-- The rdata of the record that is open is that of the last record, wherever the writer goes. -/
theorem Opened.mem_of_writeAll (h : Opened opcode question s front r before)
    (hwrite : s.writeAll rrs = some t) : r ∈ t.records.started := by
  obtain ⟨-, -, rs, hstarted, -⟩ := writeAll_ready h.ready hwrite
  rw [hstarted, h.started]
  exact mem_append_left _ (mem_append_right _ mem_cons_self)

/-- The writer on the way: in front of a record, and behind it. -/
theorem writeAll_split {kept rest : List RecordCalls} (h : ∃ begun, Ready opcode question s begun)
    (hwrite : s.writeAll (kept ++ i :: rest) = some t) :
    ∃ u v, s.writeAll kept = some u ∧ u.writeRecord i = some v ∧ v.writeAll rest = some t ∧
      u.length ≤ v.length ∧ v.length ≤ t.length := by
  rw [writeAll_append] at hwrite
  obtain ⟨u, hu, hwrite⟩ := bind_eq_some_iff.mp hwrite
  obtain ⟨v, hv, hwrite⟩ := bind_eq_some_iff.mp hwrite
  obtain ⟨⟨begun, hready⟩, -⟩ := writeAll_ready h hu
  obtain ⟨r, hopened, -⟩ := writeRecord_opened hready hv
  exact ⟨u, v, hu, hv, hwrite, length_le_writeRecord hready hv, (writeAll_ready hopened.ready hwrite).2.1⟩

end ResponseRun

end PowerDNS
