import PowerDNS.Packet.PacketAging
import PowerDNS.Packet.Rollback

/-!
# The packets of a writer that rolls back

The recursor writes its answers with `startRecord`, rdata, `commit`, and a `rollback` of the
record that made the packet too large. `RollbackRun` compares such a writer with one that never
wrote the record, and so asks that names find the same places in both. Here the question is only
whether the packet is framed: names may point anywhere, as long as they are names
(`NameOctets`).

`response_framed` is the theorem: when every call keeps the framing, a packet in which no record
is open consists of header, question and records, and every owner is a name that can be skipped.
-/

namespace PowerDNS

open GuardedRun CompressedName DNSPacketWriter List Option UInt16

/-! ### Names that can be skipped -/

theorem nameOctets_wireLabels {ls : List Octets} (hls : ∀ l ∈ ls, IsLabel l) :
    NameOctets (wireLabels ls) := by
  induction ls with
  | nil => exact .root
  | cons l ls ih =>
    obtain ⟨hl, hls⟩ := forall_mem_cons.mp hls
    exact .label hl (ih hls)

/-- A pointer is one wherever it points to. -/
theorem nameOctets_pointerTo (li : Nat) : NameOctets (pointerTo li) := by
  refine .pointer ?_
  have hor : 2 ^ 14 * 3 ≤ (UInt16.ofNat li ||| 0xc000).toNat := by
    exact Nat.right_le_or
  have hlt := (UInt16.ofNat li ||| 0xc000).toNat_lt
  rw [UInt8.le_iff_toNat_le, UInt16.toNat_toUInt8, UInt16.toNat_shiftRight,
    show (8 : UInt16).toNat % 16 = 8 from rfl, Nat.shiftRight_eq_div_pow,
    show (0xc0 : UInt8).toNat = 192 from rfl]
  omega

/-- The loop of `xfrLabel` writes labels, and the root or a pointer. -/
theorem nameOctets_xfrParts {label : Octets} {dotted unescaped compress : Bool} (deDot : Bool)
    {ls : List Octets} {p pos : Nat} {lmap : LabelMap} {record : Octets}
    (hls : ∀ l ∈ ls, IsLabel l) (hdrop : label.drop p = labelsText dotted ls)
    (hunescaped : unescaped = true ∨ ∀ l ∈ ls, escapeLabel l = l) {lmap' : LabelMap}
    {record' : Octets}
    (h : xfrParts label deDot unescaped compress (labelOffsets p ls) pos lmap record =
      some (lmap', record')) :
    ∃ octets, record' = record ++ octets ∧ NameOctets octets := by
  induction ls generalizing p pos lmap record with
  | nil =>
    obtain ⟨-, rfl⟩ := Prod.mk.inj (some.inj h)
    exact ⟨[0], rfl, .root⟩
  | cons l ls ih =>
    obtain ⟨hl, hls⟩ := forall_mem_cons.mp hls
    rw [xfrParts_cons deDot hl.1 (hl.2.trans (by decide)) hdrop
      (hunescaped.imp_right fun h => h l mem_cons_self)] at h
    split at h
    next li _ =>
      obtain ⟨-, rfl⟩ := Prod.mk.inj (some.inj h)
      exact ⟨pointerTo li, rfl, nameOctets_pointerTo li⟩
    next =>
      have hrest : label.drop (p + (escapeLabel l).length + 1) = labelsText dotted ls := by
        rw [Nat.add_assoc, ← drop_drop, hdrop, drop_labelsText]
      obtain ⟨octets, rfl, hoctets⟩ := ih hls hrest
        (hunescaped.imp_right fun h l' hl' => h l' (mem_cons_of_mem _ hl')) h
      exact ⟨UInt8.ofNat l.length :: (l ++ octets), by simp, .label hl hoctets⟩

/-- `xfrLabel` writes a name. -/
theorem nameOctets_xfrLabel {w w' : DNSPacketWriter} {n : Name} {compress : Bool}
    (h : w.xfrLabel n.text compress = some w') :
    ∃ octets, w'.d_record = w.d_record ++ octets ∧ NameOctets octets := by
  obtain ⟨labels, dotted, hwf⟩ := n
  cases labels with
  | nil =>
    -- the root is one octet
    have hroot : w.xfrLabel (Name.text ⟨[], dotted, hwf⟩) compress = some (w.xfrBlob [0]) := by
      unfold DNSPacketWriter.xfrLabel xfrBlob
      cases dotted with
      | true => simp [Name.text]
      | false => simp [Name.text, labeltokUnescape, labeltokUnescapeFrom, xfrParts]
    rw [← some.inj (hroot.symm.trans h)]
    exact ⟨[0], rfl, .root⟩
  | cons l ls =>
    rw [show Name.text ⟨l :: ls, dotted, hwf⟩ = labelsText dotted (l :: ls) from
        if_neg (cons_ne_nil l ls),
      xfrLabel_labelsText w dotted compress fun l' hl' => (hwf l' hl').1] at h
    obtain ⟨⟨lmap', record'⟩, hr, rfl⟩ := map_eq_some_iff.mp h
    exact nameOctets_xfrParts _ hwf drop_zero (any_escaped_or (l :: ls)) hr

/-- The owner that `startRecord` writes is a name. -/
theorem nameOctets_startRecord {w w' : DNSPacketWriter} (hrecord : w.d_record = []) {n : Name}
    {qtype : UInt16} {ttl : UInt32} {qclass : UInt16} {place : WriterPlace}
    (h : w.startRecord n.text qtype ttl qclass place = some w') :
    ∃ owner, w'.d_content = w.d_content ++ owner ∧ NameOctets owner := by
  unfold startRecord at h
  rw [show w.flush = some w from if_neg (not_not.mpr hrecord)] at h
  simp only [bind, Option.bind] at h
  split at h
  next => cases h
  next v hv =>
    rw [← some.inj h]
    unfold writeOwner at hv
    split at hv
    next =>
      rw [← some.inj hv]
      exact ⟨[0xc0, 0x0c], rfl, .pointer (by decide)⟩
    next =>
      simp only [bind, Option.bind] at hv
      split at hv
      next => cases hv
      next u hu =>
        obtain ⟨octets, hoctets, hname⟩ := nameOctets_xfrLabel hu
        have hcontent : u.d_content = w.d_content := by
          obtain ⟨entries, octets', heq, -⟩ := exists_xfrLabel _ n true
          rw [some.inj (hu.symm.trans heq)]
          rfl
        rw [← some.inj hv]
        refine ⟨octets, ?_, hname⟩
        rw [hcontent, hoctets]
        rw [hrecord, nil_append]

/-! ### Runs -/

/-- A writer with the records it has started and not rolled back, and its
`d_rollbackmarker`. -/
structure ResponseRun where
  records : RecordRun
  d_rollbackmarker : UInt16

namespace ResponseRun

/-- One call or rollback. `none` stands for a run that has thrown. -/
def step (s : Option ResponseRun) (o : RollbackOp) : Option ResponseRun := do
  let s ← s
  match o with
  | .rollback =>
    some { s with
      records.writer := s.records.writer.rollback s.d_rollbackmarker
      records.started := s.records.started.dropLast }
  | .call o => do
    let t ← RecordRun.step (some s.records) o
    match o with
    | .startRecord .. => do
      let begun ← s.records.writer.flush
      some { records := t, d_rollbackmarker := UInt16.ofNat begun.d_content.length }
    | _ => some { s with records := t }

/-- The run at its beginning. The constructor does not set `d_rollbackmarker`. -/
def start (qname : Name) (qtype qclass : UInt16) (opcode : UInt8) (d_sor : Nat)
    (d_rollbackmarker : UInt16) : Option ResponseRun :=
  (RecordRun.start qname qtype qclass opcode d_sor).map fun t =>
    { records := t, d_rollbackmarker := d_rollbackmarker }

/-- The calls that keep the framing: those of a writer without rollbacks, and a rollback while a
record is open, in a packet whose size the 16 bit marker can tell. -/
def FramingOK (s : ResponseRun) : RollbackOp → Prop
  | .call o => RecordRun.FramingOK s.records o
  | .rollback => s.records.writer.d_stuff = 10 ∧ s.records.writer.d_content.length < 65536

instance decidableFramingOK (s : ResponseRun) : ∀ o, Decidable (FramingOK s o)
  | .call o => inferInstanceAs (Decidable (RecordRun.FramingOK s.records o))
  | .rollback => inferInstanceAs (Decidable
      (s.records.writer.d_stuff = 10 ∧ s.records.writer.d_content.length < 65536))

/-- A call on a run keeps the framing when it does so in the state of the run. -/
def KeepsFraming (s : Option ResponseRun) (o : RollbackOp) : Prop := ∀ t ∈ s, FramingOK t o

instance decidableKeepsFraming : ∀ (s : Option ResponseRun) (o : RollbackOp),
    Decidable (KeepsFraming s o)
  | none, _ => isTrue nofun
  | some t, o => decidable_of_iff (FramingOK t o) (by simp [KeepsFraming])

/-- The records are framed, their owners are names, and the marker is where the record that is
open begins. -/
structure Framed (opcode : UInt8) (question : Octets) (s : ResponseRun) : Prop where
  frames : RecordRun.FrameInv opcode question s.records
  owners : ∀ r ∈ s.records.started, NameOctets r.owner
  marker : s.records.writer.d_stuff = 10 →
    s.d_rollbackmarker = UInt16.ofNat (layout opcode question s.records.started.dropLast).length

/-! ### One call -/

/-- Rdata changes neither the owners nor the records in front. -/
theorem addRdata_frame (octets : Octets) (rs : List StartedRecord) :
    (RecordRun.addRdata octets rs).dropLast = rs.dropLast ∧
      (RecordRun.addRdata octets rs).map StartedRecord.owner = rs.map StartedRecord.owner := by
  rcases eq_nil_or_concat rs with rfl | ⟨rs, r, rfl⟩
  · exact ⟨rfl, rfl⟩
  · rw [concat_eq_append, RecordRun.addRdata_append]
    simp

/-- A call that starts no record leaves the owners, and a record that is open stays the last. -/
theorem started_of_step {s t : RecordRun} {o : WriteOp}
    (h : RecordRun.step (some s) o = some t)
    (ho : ∀ n qtype ttl qclass place, o ≠ .startRecord n qtype ttl qclass place) :
    t.started.dropLast = s.started.dropLast ∧
      t.started.map StartedRecord.owner = s.started.map StartedRecord.owner ∧
        (t.writer.d_stuff = 10 → s.writer.d_stuff = 10) := by
  have happly := RollbackRun.apply_of_step h
  cases o with
  | startRecord n qtype ttl qclass place => exact absurd rfl (ho n qtype ttl qclass place)
  | commit =>
    have hcommit : s.writer.commit = some t.writer := happly
    simp only [RecordRun.step, bind, Option.bind, WriteOp.apply, hcommit, Option.some.injEq] at h
    refine ⟨by rw [← h], by rw [← h], fun hopen => ?_⟩
    rw [(commit_eq hcommit).2.1] at hopen
    cases hopen
  | xfrLabel n compress =>
    have hlabel : s.writer.xfrLabel n.text compress = some t.writer := happly
    obtain ⟨entries, octets, heq, -⟩ := exists_xfrLabel s.writer n compress
    have hstuff : t.writer.d_stuff = s.writer.d_stuff := by
      rw [some.inj (hlabel.symm.trans heq)]
      rfl
    simp only [RecordRun.step, bind, Option.bind, WriteOp.apply, hlabel, Option.some.injEq] at h
    rw [← h]
    exact ⟨(addRdata_frame _ _).1, (addRdata_frame _ _).2, fun hopen => by rwa [← hstuff]⟩
  | xfrBlob blob =>
    have hblob : some (s.writer.xfrBlob blob) = some t.writer := happly
    have hstuff : t.writer.d_stuff = s.writer.d_stuff := by
      rw [← some.inj hblob]
      rfl
    simp only [RecordRun.step, bind, Option.bind, WriteOp.apply, hblob, Option.some.injEq] at h
    rw [← h]
    exact ⟨(addRdata_frame _ _).1, (addRdata_frame _ _).2, fun hopen => by rwa [← hstuff]⟩

variable {opcode : UInt8} {question : Octets} {s : ResponseRun}

/-- A rollback takes the record that is open out of the packet. -/
theorem rollback_framed
    (hinv : Framed opcode question s) (hopen : s.records.writer.d_stuff = 10)
    (hsize : s.records.writer.d_content.length < 65536) :
    ∃ t, step (some s) .rollback = some t ∧ Framed opcode question t := by
  refine ⟨_, rfl, ?_, ?_, fun h => absurd h (by change (0 : Nat) ≠ 10; decide)⟩
  · cases hinv.frames with
    | idle stuff record framed => exact absurd hopen stuff
    | writing rs r started stuff record header content counts rdlength =>
      have hlast : s.records.started.dropLast = rs := by
        rw [started]
        exact dropLast_concat
      have hmarker := hinv.marker hopen
      rw [hlast] at hmarker
      have hlen : (layout opcode question rs).length < 65536 := by
        rw [content, length_append] at hsize
        omega
      refine .idle (by change (0 : Nat) ≠ 10; decide) rfl ⟨?_, ?_, ?_⟩
      · -- the marker is where the owner of the open record begins
        change s.records.writer.d_content.take s.d_rollbackmarker.toNat ++ List.replicate
          (s.d_rollbackmarker.toNat - s.records.writer.d_content.length) 0 =
            layout opcode question s.records.started.dropLast
        rw [hmarker, toNat_ofNat', Nat.mod_eq_of_lt hlen, hlast, content, take_left,
          length_append, Nat.sub_eq_zero_of_le (Nat.le_add_right ..), replicate_zero,
          append_nil]
      · intro place
        change sectionCount s.records.started.dropLast place < 65536
        have hcount := counts place
        rw [sectionCount_append] at hcount
        rw [hlast]
        split at hcount <;> omega
      · intro r' hr'
        rw [hlast] at hr'
        exact rdlength r' hr'
  · intro r hr
    exact hinv.owners r (mem_of_mem_dropLast hr)

/-- A record that is started has a name for its owner, and begins at the marker. -/
theorem startRecord_framed
    (hinv : Framed opcode question s) {n : Name} {qtype : UInt16} {ttl : UInt32}
    {qclass : UInt16} {place : WriterPlace}
    (hok : RecordRun.FramingOK s.records (.startRecord n qtype ttl qclass place)) :
    ∃ t, step (some s) (.call (.startRecord n qtype ttl qclass place)) = some t ∧
      Framed opcode question t := by
  obtain ⟨t, ht, htinv⟩ := RecordRun.step_inv hinv.frames hok
  obtain ⟨w, hflush, hrecord, hframed⟩ := RecordRun.flush_framed hinv.frames hok.1 hok.2.1
  have hstarted : t.started = s.records.started ++ [RecordRun.startedBy w t.writer] := by
    have happly := RollbackRun.apply_of_step ht
    simp only [RecordRun.step, bind, Option.bind, happly, hflush, Option.some.injEq] at ht
    rw [← ht]
  obtain ⟨owner, howner, hname⟩ : ∃ owner, t.writer.d_content = w.d_content ++ owner ∧
      NameOctets owner := by
    have happly : s.records.writer.startRecord n.text qtype ttl qclass place = some t.writer :=
      RollbackRun.apply_of_step ht
    rw [RecordRun.startRecord_of_flush hflush hrecord] at happly
    exact nameOctets_startRecord hrecord happly
  refine ⟨_, by simp only [step, bind, Option.bind, ht, hflush]; rfl, htinv, ?_, fun _ => ?_⟩
  · intro r hr
    rw [hstarted] at hr
    rcases mem_append.mp hr with h | h
    · exact hinv.owners r h
    · rw [mem_singleton.mp h]
      change NameOctets (t.writer.d_content.drop w.d_content.length)
      rw [howner, drop_left]
      exact hname
  · change UInt16.ofNat w.d_content.length = _
    rw [hframed.content, hstarted, dropLast_concat]

/-- **One call keeps the packet framed**, and does not throw. -/
theorem step_framed {o : RollbackOp}
    (hinv : Framed opcode question s) (hok : FramingOK s o) :
    ∃ t, step (some s) o = some t ∧ Framed opcode question t := by
  cases o with
  | rollback => exact rollback_framed hinv hok.1 hok.2
  | call o =>
    by_cases hstart : ∃ n qtype ttl qclass place, o = .startRecord n qtype ttl qclass place
    · obtain ⟨n, qtype, ttl, qclass, place, rfl⟩ := hstart
      exact startRecord_framed hinv hok
    · obtain ⟨t, ht, htinv⟩ := RecordRun.step_inv hinv.frames hok
      have ho : ∀ n qtype ttl qclass place, o ≠ .startRecord n qtype ttl qclass place :=
        fun n qtype ttl qclass place heq => hstart ⟨n, qtype, ttl, qclass, place, heq⟩
      obtain ⟨hlast, howners, hopen⟩ := started_of_step ht ho
      have hstep : step (some s) (.call o) = some { s with records := t } := by
        simp only [step, bind, Option.bind, ht]
      refine ⟨_, hstep, htinv, ?_, fun h => ?_⟩
      · intro r hr
        have hmem : r.owner ∈ s.records.started.map StartedRecord.owner := by
          rw [← howners]
          exact mem_map_of_mem hr
        obtain ⟨r', hr', heq⟩ := mem_map.mp hmem
        exact heq ▸ hinv.owners r' hr'
      · change s.d_rollbackmarker = UInt16.ofNat (layout opcode question t.started.dropLast).length
        rw [hlast]
        exact hinv.marker (hopen h)

/-! ### Whole runs -/

theorem start_framed (qname : Name) (qtype qclass : UInt16) (opcode : UInt8) (d_sor : Nat)
    (d_rollbackmarker : UInt16) :
    ∃ s, start qname qtype qclass opcode d_sor d_rollbackmarker = some s ∧
      Framed opcode (RecordRun.question qname qtype qclass) s := by
  obtain ⟨t, ht, hinv⟩ := RecordRun.start_inv qname qtype qclass opcode d_sor
  obtain ⟨hstarted, hstuff⟩ := RecordRun.start_eq ht
  refine ⟨_, by rw [start, ht]; rfl, hinv, ?_, fun h => ?_⟩
  · intro r hr
    rw [hstarted] at hr
    cases hr
  · change t.writer.d_stuff = 10 at h
    rw [hstuff] at h
    cases h

/-- Every call of a run that keeps the framing finds a run that has not thrown. -/
theorem keepsFraming_step {q : Octets} (s : Option ResponseRun) (o : RollbackOp)
    (hinv : ∃ t, s = some t ∧ Framed opcode q t) (hok : KeepsFraming s o) :
    ∃ t, step s o = some t ∧ Framed opcode q t := by
  obtain ⟨t, rfl, ht⟩ := hinv
  exact step_framed ht (hok t rfl)

/-- **The packets of a writer that rolls back.** When every call keeps the framing and no record
is open in the end, the packet consists of the header with the number of records of every
section, the question, and the frames of the records that were not rolled back. -/
theorem response_framed (qname : Name) (qtype qclass : UInt16) (opcode : UInt8) (d_sor : Nat)
    (d_rollbackmarker : UInt16) {ops : List RollbackOp}
    (h : Guarded step KeepsFraming (start qname qtype qclass opcode d_sor d_rollbackmarker) ops) :
    ∃ s, run step (start qname qtype qclass opcode d_sor d_rollbackmarker) ops = some s ∧
      (∀ r ∈ s.records.started, NameOctets r.owner) ∧
      (s.records.writer.d_stuff ≠ 10 → AllFramed opcode (RecordRun.question qname qtype qclass)
        s.records.writer.d_content s.records.started) := by
  obtain ⟨s, hs, hinv⟩ := run_invariant keepsFraming_step
    (start_framed qname qtype qclass opcode d_sor d_rollbackmarker) h
  refine ⟨s, hs, hinv.owners, fun hidle => ?_⟩
  cases hinv.frames with
  | idle stuff record framed => exact framed
  | writing rs r started stuff => exact absurd stuff hidle

end ResponseRun

end PowerDNS
