import PowerDNS.Packet.MOADNSParser
import PowerDNS.Packet.RecordFraming

/-!
# Rolling back a record

`rollback` cuts the content back to where the last `startRecord` began and empties the rdata
buffer. The label map is not cut back: it keeps the suffixes of the record that is gone, with
places where something else will stand.

What `rollback` is for is said by a second writer that is run beside the first: it is saved
when a record is started, and a rollback puts the saved one in its place (`RollbackRun.kept`).
`Mirrors` relates the two. They need not have the same label map: `SameTargets` says that the
names written from now on find the same pointers in both. `rollback_leaves_no_trace` is the
theorem: as long as they do, the packet is the one of the kept records.
-/

namespace PowerDNS

open GuardedRun DNSPacketWriter Option List

namespace DNSPacketWriter

/-- `rollback()`, with the value of `d_rollbackmarker`; `resize` pads with zeroes. -/
def rollback (d_rollbackmarker : UInt16) (w : DNSPacketWriter) : DNSPacketWriter :=
  { w with
    d_content := w.d_content.take d_rollbackmarker.toNat ++
      List.replicate (d_rollbackmarker.toNat - w.d_content.length) 0
    d_record := []
    d_stuff := 0 }

end DNSPacketWriter

/-! ### Two label maps -/

/-- Looking up the labels of `label` one after the other, until one is found, gives the same
place in both maps every time. -/
def SameTargets (label : Octets) (deDot : Bool) (lw lv : LabelMap) : List (Nat × Nat) → Prop
  | [] => True
  | i :: is =>
    lw.lookup (chopped label deDot i.1) = lv.lookup (chopped label deDot i.1) ∧
      (lv.lookup (chopped label deDot i.1) = none → SameTargets label deDot lw lv is)

instance decidableSameTargets (label : Octets) (deDot : Bool) (lw lv : LabelMap) :
    ∀ parts, Decidable (SameTargets label deDot lw lv parts)
  | [] => isTrue trivial
  | i :: is =>
    have := decidableSameTargets label deDot lw lv is
    inferInstanceAs (Decidable (_ ∧ (lv.lookup (chopped label deDot i.1) = none → _)))

theorem LabelMap.lookup_append_eq (lmap pending : LabelMap) (key : Octets) :
    lookup (lmap ++ pending) key = (lmap.lookup key).or (lookup pending key) := by
  unfold lookup
  rw [find?_append]
  cases lmap.find? fun e => pdnsIequals e.1 key <;> rfl

/-- Entries added to both maps make no difference. -/
theorem SameTargets.append {label : Octets} {deDot : Bool} {lw lv : LabelMap}
    (pending : LabelMap) {parts : List (Nat × Nat)} (h : SameTargets label deDot lw lv parts) :
    SameTargets label deDot (lw ++ pending) (lv ++ pending) parts := by
  induction parts with
  | nil => trivial
  | cons i is ih =>
    obtain ⟨hsame, hrest⟩ := h
    refine ⟨?_, ?_⟩
    · rw [LabelMap.lookup_append_eq, LabelMap.lookup_append_eq, hsame]
    · intro hnone
      rw [LabelMap.lookup_append_eq, or_eq_none_iff] at hnone
      exact ih (hrest hnone.1)

/-- The octets that `xfrLabel` writes depend on the label map only through the places that it
finds. -/
theorem xfrParts_congr {label : Octets} {deDot unescaped compress : Bool}
    {parts : List (Nat × Nat)} {pos : Nat} {lw lv : LabelMap} {record : Octets}
    (h : compress = true → SameTargets label deDot lw lv parts) :
    (xfrParts label deDot unescaped compress parts pos lw record).map Prod.snd =
      (xfrParts label deDot unescaped compress parts pos lv record).map Prod.snd := by
  induction parts generalizing pos lw lv record with
  | nil => rfl
  | cons i is ih =>
    -- what is found for this label, and what is left to show when nothing is
    have hfound : (if compress then lw.lookup (chopped label deDot i.1) else none) =
        if compress then lv.lookup (chopped label deDot i.1) else none := by
      cases compress with
      | true => exact (h rfl).1
      | false => rfl
    have hrest : (if compress then lv.lookup (chopped label deDot i.1) else none) = none →
        ∀ pending, compress = true →
          SameTargets label deDot (lw ++ pending) (lv ++ pending) is := by
      rintro hnone pending rfl
      exact SameTargets.append pending ((h rfl).2 hnone)
    unfold xfrParts
    dsimp only
    rw [hfound]
    cases hlook : (if compress then lv.lookup (chopped label deDot i.1) else none) with
    | some li => rfl
    | none =>
      dsimp only
      -- the entry for this label goes into both maps, or into none
      have hnext : ∀ pos' record',
          (xfrParts label deDot unescaped compress is pos'
            (if pos < 16384 then lw ++ [(chopped label deDot i.1, pos)] else lw) record').map
              Prod.snd =
          (xfrParts label deDot unescaped compress is pos'
            (if pos < 16384 then lv ++ [(chopped label deDot i.1, pos)] else lv) record').map
              Prod.snd := by
        intro pos' record'
        split
        · exact ih (hrest hlook _)
        · exact ih (by simpa using hrest hlook [])
      split
      · split
        · rfl
        · exact hnext _ _
      · exact hnext _ _

/-! ### Two writers -/

/-- Two writers that differ in their label maps at most, and in what is set anew before it is
used. -/
structure Agree (w v : DNSPacketWriter) : Prop where
  content : w.d_content = v.d_content
  record : w.d_record = v.d_record
  qname : w.d_qname = v.d_qname
  canonic : w.d_canonic = v.d_canonic
  stuff : w.d_stuff = 10 ↔ v.d_stuff = 10
  header : w.d_stuff = 10 → w.d_recordqtype = v.d_recordqtype ∧ w.d_recordttl = v.d_recordttl ∧
    w.d_recordqclass = v.d_recordqclass ∧ w.d_recordplace = v.d_recordplace

/-- A compressed name finds the same places in the label maps of both writers. -/
def SameNames (w v : DNSPacketWriter) (n : Name) : Prop :=
  SameTargets n.text (n.text.getLast? == some dot) w.d_labelmap v.d_labelmap
    (labeltokUnescape n.text).1

instance (w v : DNSPacketWriter) (n : Name) : Decidable (SameNames w v n) :=
  decidableSameTargets _ _ _ _ _

/-- Both writers write the same octets for a name. -/
theorem xfrLabel_congr {w v : DNSPacketWriter} {n : Name} {compress : Bool}
    (hrecord : w.d_record = v.d_record) (hcanonic : w.d_canonic = v.d_canonic)
    (hpos : w.writePos = v.writePos) (hnames : compress = true → SameNames w v n) :
    (w.xfrLabel n.text compress).map d_record = (v.xfrLabel n.text compress).map d_record := by
  unfold xfrLabel
  dsimp only
  split
  · simp [hrecord]
  · have hcompress : (if v.d_canonic then false else compress) = true → compress = true := by
      cases v.d_canonic <;> simp
    have hparts := @xfrParts_congr n.text (n.text.getLast? == some dot)
      (labeltokUnescape n.text).2 (if v.d_canonic then false else compress)
      (labeltokUnescape n.text).1 v.writePos w.d_labelmap v.d_labelmap v.d_record
      fun h => hnames (hcompress h)
    rw [hrecord, hcanonic, hpos, Option.map_map, Option.map_map]
    exact hparts

variable {w v : DNSPacketWriter}

/-- A name in the rdata of the record that is open in both. -/
theorem Agree.xfrLabel (h : Agree w v) (hopen : w.d_stuff = 10)
    {n : Name} {compress : Bool} (hnames : compress = true → SameNames w v n) :
    ∃ w' v', w.xfrLabel n.text compress = some w' ∧ v.xfrLabel n.text compress = some v' ∧
      Agree w' v' ∧ w'.d_stuff = 10 ∧ w'.d_content = w.d_content := by
  obtain ⟨entries, octets, hw, -⟩ := exists_xfrLabel w n compress
  obtain ⟨entries', octets', hv, -⟩ := exists_xfrLabel v n compress
  have hpos : w.writePos = v.writePos := by
    unfold writePos
    rw [h.content, h.record, hopen, h.stuff.mp hopen]
  have hsame := xfrLabel_congr h.record h.canonic hpos hnames
  rw [hw, hv] at hsame
  refine ⟨_, _, hw, hv, ?_, hopen, rfl⟩
  exact ⟨h.content, some.inj hsame, h.qname, h.canonic, h.stuff, h.header⟩

theorem Agree.xfrBlob (h : Agree w v) (blob : Octets) :
    Agree (w.xfrBlob blob) (v.xfrBlob blob) := by
  refine ⟨h.content, ?_, h.qname, h.canonic, h.stuff, h.header⟩
  change w.d_record ++ blob = v.d_record ++ blob
  rw [h.record]

/-- Committing the record that is open in both. -/
theorem Agree.commit (h : Agree w v) (hopen : w.d_stuff = 10) :
    ∃ w' v', w.commit = some w' ∧ v.commit = some v' ∧ Agree w' v' ∧ w'.d_stuff = 0 ∧
      w'.d_record = [] := by
  obtain ⟨htype, httl, hclass, hplace⟩ := h.header hopen
  have hstuff : ∀ {u : DNSPacketWriter}, u.d_stuff = 10 → u.d_stuff ≠ 0xffff := by
    intro u hu
    rw [hu]
    decide
  refine ⟨_, _, if_neg fun hc => hstuff hopen hc.1, if_neg fun hc => hstuff (h.stuff.mp hopen) hc.1,
    ⟨?_, rfl, h.qname, h.canonic, Iff.rfl, nofun⟩, rfl, rfl⟩
  unfold recordHeader
  rw [h.content, h.record, htype, httl, hclass, hplace]

/-- The owner name is written the same by both. -/
theorem writeOwner_congr {w v : DNSPacketWriter} {n : Name} (hcontent : w.d_content = v.d_content)
    (hrecord : w.d_record = v.d_record) (hqname : w.d_qname = v.d_qname)
    (hcanonic : w.d_canonic = v.d_canonic) (hstuff : w.d_stuff = v.d_stuff)
    (hnames : pdnsIequals v.d_qname n.text = false → SameNames w v n) :
    (w.writeOwner n.text).map d_content = (v.writeOwner n.text).map d_content := by
  unfold writeOwner
  rw [hqname]
  split
  next => simp [hcontent]
  next hne =>
    have hpos : w.writePos = v.writePos := by
      unfold writePos
      rw [hcontent, hrecord, hstuff]
    have hsame := @xfrLabel_congr w v n true hrecord hcanonic hpos
      fun _ => hnames (Bool.eq_false_of_not_eq_true hne)
    obtain ⟨entries, octets, hw, -⟩ := exists_xfrLabel w n true
    obtain ⟨entries', octets', hv, -⟩ := exists_xfrLabel v n true
    rw [hw, hv] at hsame
    rw [hw, hv]
    change some (w.d_content ++ (w.d_record ++ octets)) = some (v.d_content ++ (v.d_record ++ octets'))
    rw [hcontent, show w.d_record ++ octets = v.d_record ++ octets' from some.inj hsame]

/-- Starting a record in two writers without pending rdata. -/
theorem Agree.startRecord (h : Agree w v) (hidle : w.d_record = [])
    {n : Name} (hnames : pdnsIequals v.d_qname n.text = false → SameNames w v n) (qtype : UInt16)
    (ttl : UInt32) (qclass : UInt16) (place : WriterPlace) :
    ∃ w' v', w.startRecord n.text qtype ttl qclass place = some w' ∧
      v.startRecord n.text qtype ttl qclass place = some v' ∧ Agree w' v' ∧ w'.d_stuff = 10 ∧
      w.d_content <+: w'.d_content := by
  have hidle' : v.d_record = [] := h.record ▸ hidle
  obtain ⟨owner, entries, hw⟩ := RecordRun.exists_startRecord hidle n qtype ttl qclass place
  obtain ⟨owner', entries', hv⟩ := RecordRun.exists_startRecord hidle' n qtype ttl qclass place
  -- the writers with the new record header, on which the owner is written
  let opened : DNSPacketWriter → DNSPacketWriter := fun u =>
    { u with
      d_recordqtype := qtype
      d_recordqclass := qclass
      d_recordttl := ttl
      d_recordplace := place
      d_stuff := 0 }
  have howner := @writeOwner_congr (opened w) (opened v) n h.content h.record h.qname h.canonic
    rfl hnames
  have hflush : ∀ {u u' : DNSPacketWriter}, u.d_record = [] →
      u.startRecord n.text qtype ttl qclass place = some u' →
      ((opened u).writeOwner n.text).map d_content = some u'.d_content := by
    intro u u' hu hstart
    have hnone : u.flush = some u := if_neg (not_not.mpr hu)
    unfold DNSPacketWriter.startRecord at hstart
    rw [hnone] at hstart
    simp only [bind, Option.bind] at hstart
    cases hname : (opened u).writeOwner n.text with
    | none =>
      rw [show writeOwner _ n.text = none from hname] at hstart
      cases hstart
    | some o =>
      rw [show writeOwner _ n.text = some o from hname] at hstart
      rw [← some.inj hstart]
      rfl
  rw [hflush hidle hw, hflush hidle' hv] at howner
  refine ⟨_, _, hw, hv, ⟨some.inj howner, h.record, h.qname, h.canonic, Iff.rfl,
    fun _ => ⟨rfl, rfl, rfl, rfl⟩⟩, rfl, prefix_append _ _⟩

/-- Committing what is pending in both. -/
theorem Agree.flush (h : Agree w v)
    (hopen : w.d_record ≠ [] → w.d_stuff = 10) :
    ∃ w' v', w.flush = some w' ∧ v.flush = some v' ∧ Agree w' v' ∧ w'.d_record = [] := by
  by_cases hrecord : w.d_record = []
  · exact ⟨w, v, if_neg (not_not.mpr hrecord), if_neg (not_not.mpr (h.record ▸ hrecord)), h,
      hrecord⟩
  · obtain ⟨w', v', hw, hv, hagree, -, hempty⟩ := h.commit (hopen hrecord)
    exact ⟨w', v', (if_pos hrecord).trans hw, (if_pos (h.record ▸ hrecord)).trans hv, hagree,
      hempty⟩

/-- A flush leaves alone what names are looked up with. -/
theorem flush_names {w w' : DNSPacketWriter} (h : w.flush = some w') :
    w'.d_labelmap = w.d_labelmap ∧ w'.d_qname = w.d_qname := by
  unfold DNSPacketWriter.flush at h
  split at h
  next =>
    obtain ⟨-, -, hmap, hqname, -⟩ := commit_eq h
    exact ⟨hmap, hqname⟩
  next =>
    cases h
    exact ⟨rfl, rfl⟩

/-! ### Runs with rollbacks -/

/-- A call of the writer, or a `rollback()`. -/
inductive RollbackOp
  | call (o : WriteOp)
  | rollback

/-- A writer with its `d_rollbackmarker`, and beside it the run that never makes the calls of a
record that is rolled back: as it is now, and as it was when the last record was started. -/
structure RollbackRun where
  writer : DNSPacketWriter
  d_rollbackmarker : UInt16
  kept : RecordRun
  saved : RecordRun

namespace RollbackRun

/-- A run whose pending rdata is committed, as `startRecord` does it. -/
def flushed (s : RecordRun) : Option RecordRun :=
  s.writer.flush.map fun w => { s with writer := w }

/-- One call or rollback. `none` stands for a run that has thrown. -/
def step (s : Option RollbackRun) (o : RollbackOp) : Option RollbackRun := do
  let s ← s
  match o with
  | .rollback =>
    some { s with writer := s.writer.rollback s.d_rollbackmarker, kept := s.saved }
  | .call o => do
    let w ← o.apply s.writer
    let kept ← RecordRun.step (some s.kept) o
    match o with
    | .startRecord .. => do
      let begun ← s.writer.flush
      let saved ← flushed s.kept
      some { writer := w
             d_rollbackmarker := UInt16.ofNat begun.d_content.length
             kept := kept
             saved := saved }
    | _ => some { s with writer := w, kept := kept }

/-- The run at its beginning. The constructor does not set `d_rollbackmarker`. -/
def start (qname : Name) (qtype qclass : UInt16) (opcode : UInt8) (d_sor : Nat)
    (d_rollbackmarker : UInt16) : Option RollbackRun :=
  (RecordRun.start qname qtype qclass opcode d_sor).map fun t =>
    { writer := t.writer, d_rollbackmarker := d_rollbackmarker, kept := t, saved := t }

/-- The name of a call, when it is written with compression, finds the same places in the label
map of the writer as in the one of the kept records. -/
def NamesOK (s : RollbackRun) : WriteOp → Prop
  | .startRecord n .. =>
    pdnsIequals s.kept.writer.d_qname n.text = false → SameNames s.writer s.kept.writer n
  | .xfrLabel n compress => compress = true → SameNames s.writer s.kept.writer n
  | _ => True

/-- The calls that leave no trace when they are rolled back: calls that keep the framing and
find no place of a record that is gone; a rollback while a record is open, in a packet whose
size the 16 bit marker can tell. -/
def TracelessOK (s : RollbackRun) : RollbackOp → Prop
  | .call o => RecordRun.FramingOK s.kept o ∧ NamesOK s o
  | .rollback => s.writer.d_stuff = 10 ∧ s.writer.d_content.length < 65536

instance decidableNamesOK (s : RollbackRun) : ∀ o, Decidable (NamesOK s o)
  | .startRecord n .. => inferInstanceAs (Decidable
      (pdnsIequals s.kept.writer.d_qname n.text = false → SameNames s.writer s.kept.writer n))
  | .xfrLabel n compress => inferInstanceAs (Decidable
      (compress = true → SameNames s.writer s.kept.writer n))
  | .xfrBlob _ => isTrue trivial
  | .commit => isTrue trivial

instance decidableTracelessOK (s : RollbackRun) : ∀ o, Decidable (TracelessOK s o)
  | .call o => inferInstanceAs (Decidable (RecordRun.FramingOK s.kept o ∧ NamesOK s o))
  | .rollback => inferInstanceAs (Decidable
      (s.writer.d_stuff = 10 ∧ s.writer.d_content.length < 65536))

/-- A call on a run is traceless when it is so in the state of the run. -/
def Traceless (s : Option RollbackRun) (o : RollbackOp) : Prop := ∀ t ∈ s, TracelessOK t o

instance decidableTraceless : ∀ (s : Option RollbackRun) (o : RollbackOp),
    Decidable (Traceless s o)
  | none, _ => isTrue nofun
  | some t, o => decidable_of_iff (TracelessOK t o) (by simp [Traceless])

/-- The writer is the one of the kept records, and when a record is open, cutting back to the
marker gives the one from before that record. -/
structure Mirrors (opcode : UInt8) (question : Octets) (s : RollbackRun) : Prop where
  agree : Agree s.writer s.kept.writer
  framed : RecordRun.FrameInv opcode question s.kept
  saved_idle : s.writer.d_stuff = 10 →
    s.saved.writer.d_stuff ≠ 10 ∧ s.saved.writer.d_record = [] ∧
      AllFramed opcode question s.saved.writer.d_content s.saved.started
  saved_names : s.writer.d_stuff = 10 →
    s.writer.d_qname = s.saved.writer.d_qname ∧ s.writer.d_canonic = s.saved.writer.d_canonic
  marker : s.writer.d_stuff = 10 → s.saved.writer.d_content <+: s.writer.d_content ∧
    s.d_rollbackmarker = UInt16.ofNat s.saved.writer.d_content.length

/-! ### One call -/

/-- What a call of the run does to its writer. -/
theorem apply_of_step {s t : RecordRun} {o : WriteOp} (h : RecordRun.step (some s) o = some t) :
    o.apply s.writer = some t.writer := by
  cases happly : o.apply s.writer with
  | none => simp [RecordRun.step, bind, Option.bind, happly] at h
  | some w =>
    cases o with
    | startRecord n qtype ttl qclass place =>
      cases hflush : s.writer.flush with
      | none => simp [RecordRun.step, bind, Option.bind, happly, hflush] at h
      | some f =>
        simp only [RecordRun.step, bind, Option.bind, happly, hflush, Option.some.injEq] at h
        rw [← h]
    | xfrLabel n compress | xfrBlob blob | commit =>
      simp only [RecordRun.step, bind, Option.bind, happly, Option.some.injEq] at h
      rw [← h]

variable {opcode : UInt8} {question : Octets} {s : RollbackRun}

/-- A rollback brings back the writer that was saved. -/
theorem rollback_mirrors
    (hinv : Mirrors opcode question s) (hopen : s.writer.d_stuff = 10)
    (hsize : s.writer.d_content.length < 65536) :
    Mirrors opcode question
      { s with writer := s.writer.rollback s.d_rollbackmarker, kept := s.saved } := by
  obtain ⟨hidle, hrecord, hframed⟩ := hinv.saved_idle hopen
  obtain ⟨hqname, hcanonic⟩ := hinv.saved_names hopen
  obtain ⟨hpre, hmarker⟩ := hinv.marker hopen
  have hle := hpre.length_le
  have htoNat : s.d_rollbackmarker.toNat = s.saved.writer.d_content.length := by
    rw [hmarker, UInt16.toNat_ofNat', Nat.mod_eq_of_lt (by omega)]
  have hcontent : (s.writer.rollback s.d_rollbackmarker).d_content =
      s.saved.writer.d_content := by
    change s.writer.d_content.take s.d_rollbackmarker.toNat ++ List.replicate _ 0 = _
    rw [htoNat, Nat.sub_eq_zero_of_le hle, replicate_zero, append_nil]
    exact (prefix_iff_eq_take.mp hpre).symm
  refine ⟨⟨hcontent, hrecord.symm, hqname, hcanonic, ?_, nofun⟩, .idle hidle hrecord hframed, nofun,
    nofun, nofun⟩
  exact iff_of_false (by change (0 : Nat) ≠ 10; decide) hidle

/-- A record is started in both. -/
theorem startRecord_mirrors
    (hinv : Mirrors opcode question s) {n : Name} {qtype : UInt16} {ttl : UInt32}
    {qclass : UInt16} {place : WriterPlace}
    (hok : TracelessOK s (.call (.startRecord n qtype ttl qclass place))) :
    ∃ t, step (some s) (.call (.startRecord n qtype ttl qclass place)) = some t ∧
      Mirrors opcode question t := by
  obtain ⟨hframing, hnames⟩ := hok
  obtain ⟨kept, hkept, hkeptInv⟩ := RecordRun.step_inv hinv.framed hframing
  obtain ⟨v, hv, hvrecord, hvframed⟩ :=
    RecordRun.flush_framed hinv.framed hframing.1 hframing.2.1
  -- what is pending is that of an open record, so both commit it alike
  have hopen : s.writer.d_record ≠ [] → s.writer.d_stuff = 10 := by
    intro hne
    rw [hinv.agree.stuff]
    cases hinv.framed with
    | idle stuff record framed => exact absurd (hinv.agree.record.trans record) hne
    | writing rs r started stuff => exact stuff
  obtain ⟨w, v', hw, hv', hagree, hwrecord⟩ := hinv.agree.flush hopen
  obtain rfl : v' = v := Option.some.inj (hv'.symm.trans hv)
  have hsame : pdnsIequals v'.d_qname n.text = false → SameNames w v' n := by
    unfold SameNames
    rw [(flush_names hw).1, (flush_names hv).1, (flush_names hv).2]
    exact hnames
  obtain ⟨w', u, hw', hu, hagree', hten, hpre⟩ :=
    hagree.startRecord hwrecord hsame qtype ttl qclass place
  have happly : s.writer.startRecord n.text qtype ttl qclass place = some w' :=
    (RecordRun.startRecord_of_flush hw hwrecord ..).trans hw'
  have hkeptWriter : kept.writer = u := by
    have happlyKept : s.kept.writer.startRecord n.text qtype ttl qclass place =
        some kept.writer := apply_of_step hkept
    have hstart : s.kept.writer.startRecord n.text qtype ttl qclass place = some u :=
      (RecordRun.startRecord_of_flush hv hvrecord ..).trans hu
    exact Option.some.inj (happlyKept.symm.trans hstart)
  -- a record that was open without rdata would not have been committed
  have hvidle : v'.d_stuff ≠ 10 := by
    by_cases hrec : s.kept.writer.d_record = []
    · rw [show s.kept.writer.flush = some s.kept.writer from if_neg (not_not.mpr hrec)] at hv
      obtain rfl := Option.some.inj hv
      exact fun hc => hframing.1 hc hrec
    · rw [show s.kept.writer.flush = s.kept.writer.commit from if_pos hrec] at hv
      rw [(commit_eq hv).2.1]
      decide
  have hwfields : w'.d_qname = w.d_qname ∧ w'.d_canonic = w.d_canonic := by
    obtain ⟨owner, entries, heq⟩ := RecordRun.exists_startRecord hwrecord n qtype ttl qclass place
    rw [Option.some.inj (hw'.symm.trans heq)]
    exact ⟨rfl, rfl⟩
  refine ⟨_, by simp only [step, bind, Option.bind, WriteOp.apply, happly, hkept, hw, flushed, hv,
    Option.map_some]; rfl, ?_⟩
  refine ⟨hkeptWriter ▸ hagree', hkeptInv, fun _ => ⟨hvidle, hvrecord, hvframed⟩, fun _ => ?_,
    fun _ => ?_⟩
  · exact ⟨hwfields.1.trans hagree.qname, hwfields.2.trans hagree.canonic⟩
  · exact ⟨hagree.content ▸ hpre, by rw [hagree.content]⟩

/-- A call that leaves the record open, and the content as it is, is made by both. -/
theorem rdata_mirrors {w : DNSPacketWriter}
    {kept : RecordRun} (hinv : Mirrors opcode question s) (hopen : s.writer.d_stuff = 10)
    (hagree : Agree w kept.writer) (hframed : RecordRun.FrameInv opcode question kept)
    (hcontent : w.d_content = s.writer.d_content) (hqname : w.d_qname = s.writer.d_qname)
    (hcanonic : w.d_canonic = s.writer.d_canonic) :
    Mirrors opcode question { s with writer := w, kept := kept } := by
  refine ⟨hagree, hframed, fun _ => hinv.saved_idle hopen, fun _ => ?_, fun _ => ?_⟩
  · obtain ⟨hq, hc⟩ := hinv.saved_names hopen
    exact ⟨hqname.trans hq, hcanonic.trans hc⟩
  · obtain ⟨hpre, hmarker⟩ := hinv.marker hopen
    exact ⟨hcontent ▸ hpre, hmarker⟩

/-- **One traceless call** keeps the two writers together, and does not throw. -/
theorem step_mirrors {o : RollbackOp}
    (hinv : Mirrors opcode question s) (hok : TracelessOK s o) :
    ∃ t, step (some s) o = some t ∧ Mirrors opcode question t := by
  cases o with
  | rollback => exact ⟨_, rfl, rollback_mirrors hinv hok.1 hok.2⟩
  | call o =>
    cases o with
    | startRecord n qtype ttl qclass place => exact startRecord_mirrors hinv hok
    | xfrLabel n compress =>
      obtain ⟨hframing, hnames⟩ := hok
      have hopen : s.writer.d_stuff = 10 := hinv.agree.stuff.mpr hframing
      obtain ⟨kept, hkept, hkeptInv⟩ := RecordRun.step_inv hinv.framed hframing
      obtain ⟨w, v, hw, hv, hagree, -, hcontent⟩ := hinv.agree.xfrLabel hopen hnames
      have happlyKept : s.kept.writer.xfrLabel n.text compress = some kept.writer :=
        apply_of_step hkept
      obtain rfl : kept.writer = v := some.inj (happlyKept.symm.trans hv)
      obtain ⟨entries, octets, heq, -⟩ := exists_xfrLabel s.writer n compress
      have hfields : w.d_qname = s.writer.d_qname ∧ w.d_canonic = s.writer.d_canonic := by
        rw [some.inj (hw.symm.trans heq)]
        exact ⟨rfl, rfl⟩
      exact ⟨_, by simp only [step, bind, Option.bind, WriteOp.apply, hw, hkept],
        rdata_mirrors hinv hopen hagree hkeptInv hcontent hfields.1 hfields.2⟩
    | xfrBlob blob =>
      have hopen : s.writer.d_stuff = 10 := hinv.agree.stuff.mpr hok.1
      obtain ⟨kept, hkept, hkeptInv⟩ := RecordRun.step_inv hinv.framed hok.1
      have happlyKept : some (s.kept.writer.xfrBlob blob) = some kept.writer :=
        apply_of_step hkept
      have hagree : Agree (s.writer.xfrBlob blob) kept.writer :=
        some.inj happlyKept ▸ hinv.agree.xfrBlob blob
      exact ⟨_, by simp only [step, bind, Option.bind, WriteOp.apply, hkept],
        rdata_mirrors hinv hopen hagree hkeptInv rfl rfl rfl⟩
    | commit =>
      have hopen : s.writer.d_stuff = 10 := hinv.agree.stuff.mpr hok.1.1
      obtain ⟨kept, hkept, hkeptInv⟩ := RecordRun.step_inv hinv.framed hok.1
      obtain ⟨w, v, hw, hv, hagree, hstuff, -⟩ := hinv.agree.commit hopen
      have happlyKept : s.kept.writer.commit = some kept.writer := apply_of_step hkept
      obtain rfl : kept.writer = v := some.inj (happlyKept.symm.trans hv)
      have hidle : w.d_stuff ≠ 10 := by
        rw [hstuff]
        decide
      exact ⟨_, by simp only [step, bind, Option.bind, WriteOp.apply, hw, hkept]; rfl,
        ⟨hagree, hkeptInv, fun h => absurd h hidle, fun h => absurd h hidle,
          fun h => absurd h hidle⟩⟩

/-! ### Whole runs -/

theorem start_mirrors (qname : Name) (qtype qclass : UInt16) (opcode : UInt8) (d_sor : Nat)
    (d_rollbackmarker : UInt16) :
    ∃ s, start qname qtype qclass opcode d_sor d_rollbackmarker = some s ∧
      Mirrors opcode (RecordRun.question qname qtype qclass) s := by
  obtain ⟨t, ht, hinv⟩ := RecordRun.start_inv qname qtype qclass opcode d_sor
  have hidle : t.writer.d_stuff ≠ 10 := by
    rw [(RecordRun.start_eq ht).2]
    decide
  exact ⟨_, by rw [start, ht]; rfl, ⟨⟨rfl, rfl, rfl, rfl, Iff.rfl, fun _ => ⟨rfl, rfl, rfl, rfl⟩⟩,
    hinv, fun h => absurd h hidle, fun h => absurd h hidle, fun h => absurd h hidle⟩⟩

theorem traceless_step {q : Octets} (s : Option RollbackRun) (o : RollbackOp)
    (hinv : ∃ t, s = some t ∧ Mirrors opcode q t) (hok : Traceless s o) :
    ∃ t, step s o = some t ∧ Mirrors opcode q t := by
  obtain ⟨t, rfl, ht⟩ := hinv
  exact step_mirrors ht (hok t rfl)

/-- **Rollback leaves no trace.** In a run of traceless calls the content and the pending rdata
are those of the writer that never wrote the records that were rolled back; and whenever no
record is open, the packet consists of the header that counts the kept records, the question,
and the kept records. -/
theorem rollback_leaves_no_trace (qname : Name) (qtype qclass : UInt16) (opcode : UInt8)
    (d_sor : Nat) (d_rollbackmarker : UInt16) {ops : List RollbackOp}
    (h : Guarded step Traceless (start qname qtype qclass opcode d_sor d_rollbackmarker) ops) :
    ∃ s, run step (start qname qtype qclass opcode d_sor d_rollbackmarker) ops = some s ∧
      s.writer.d_content = s.kept.writer.d_content ∧ s.writer.d_record = s.kept.writer.d_record ∧
      (s.writer.d_stuff ≠ 10 → AllFramed opcode (RecordRun.question qname qtype qclass)
        s.writer.d_content s.kept.started) := by
  obtain ⟨s, hs, hinv⟩ := run_invariant traceless_step
    (start_mirrors qname qtype qclass opcode d_sor d_rollbackmarker) h
  refine ⟨s, hs, hinv.agree.content, hinv.agree.record, fun hidle => ?_⟩
  cases hinv.framed with
  | idle stuff record framed => exact hinv.agree.content ▸ framed
  | writing rs r started stuff => exact absurd (hinv.agree.stuff.mpr stuff) hidle

/-! ### A suffix of a record that is gone -/

/-- An address record of this name, and the rollback of it. -/
def rolledBack (name : Name) : List RollbackOp :=
  [.call (.startRecord name QType.A 60 1 .ANSWER), .call (.xfrBlob [192, 0, 2, 1]), .rollback]

/-- An address record of this name, and its commit. -/
def committed (name : Name) : List RollbackOp :=
  [.call (.startRecord name QType.A 60 1 .ANSWER), .call (.xfrBlob [192, 0, 2, 1]), .call .commit]

/-- The names `x.b.` and `b.`. -/
def hostName : Name where
  labels := [[120], [98]]
  dotted := true
  wf := by decide

def domainName : Name where
  labels := [[98]]
  dotted := true
  wf := by decide

/-- After `b.` the longer name can be written and rolled back. -/
theorem rollback_of_longer_name :
    ∃ s, run step (start RecordRun.questionName QType.A 1 0 0 0)
        (committed domainName ++ rolledBack hostName) = some s ∧
      s.writer.d_content = s.kept.writer.d_content ∧ s.writer.d_record = s.kept.writer.d_record ∧
      (s.writer.d_stuff ≠ 10 → AllFramed 0 (RecordRun.question RecordRun.questionName QType.A 1)
        s.writer.d_content s.kept.started) :=
  rollback_leaves_no_trace RecordRun.questionName QType.A 1 0 0 0 (by decide)

/-- The owner names of the records that the parser finds in a packet. -/
def ownersOf (packet : Octets) : Option (List Octets) :=
  (MOADNSParser.init reportAllTypes packet).toOption.map fun p =>
    p.d_answers.map fun r => r.1.d_label

/-- When `x.b.` was rolled back, the name `b.` is written as a pointer to where it stood, and
the parser finds the root there. -/
theorem rollback_leaves_pointer :
    ∃ s, run step (start RecordRun.questionName QType.A 1 0 0 0)
        (rolledBack hostName ++ committed domainName) = some s ∧
      s.writer.d_stuff ≠ 10 ∧ s.writer.d_content ≠ s.kept.writer.d_content ∧
      ownersOf s.kept.writer.d_content = some [ascii "b."] ∧
      ownersOf s.writer.d_content = some [ascii "."] :=
  ⟨_, rfl, by decide⟩

end RollbackRun

end PowerDNS
