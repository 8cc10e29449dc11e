import PowerDNS.Lib.GuardedRun
import PowerDNS.Packet.LabelWriting
import PowerDNS.Packet.NameReading

/-!
# Name compression: the writer against the reader

What the writer knows about the finished packet is a memory (`DNSPacketWriter.mem`): the
octets of `d_content`, then `d_stuff` octets of which nothing is known yet, then those of
`d_record`. No call changes an octet behind the packet header once it is determined, so
every call extends the memory, and what a name decodes to, once written, is settled.

`SessionInv` says of a run that all entries of the label map and all names written so far
decode in the memory of the moment. `names_read_back` concludes that the reader finds every
name of the finished packet where it was written. It needs every call to be `Sound`:

* a pointer is never written to a name that itself takes ten pointers to read, since the
  reader gives up at the eleventh. The writer does not count;
* a text without a dot at its end has no NUL octet (its key would be cut there);
* rdata is written between `startRecord` and `commit`.

`nested_names_do_not_read_back` is a packet with twelve names, each one label below the one
before, whose last name the reader refuses.
-/

namespace PowerDNS

open CompressedName GuardedRun List

namespace DNSPacketWriter

/-! ### The octets that are determined -/

/-- The octets of the finished packet behind its header, as far as the calls so far
determine them. -/
def mem (w : DNSPacketWriter) : Memory := fun p =>
  if p < 12 then none
  else if p < w.d_content.length then w.d_content[p]?
  else if p < w.d_content.length + w.d_stuff then none
  else w.d_record[p - w.d_content.length - w.d_stuff]?

variable {w : DNSPacketWriter}

theorem mem_eq_some {p : Nat} {b : UInt8} :
    w.mem p = some b ↔ 12 ≤ p ∧ (w.d_content[p]? = some b ∨
      w.d_content.length + w.d_stuff ≤ p ∧
        w.d_record[p - w.d_content.length - w.d_stuff]? = some b) := by
  unfold mem
  constructor
  · intro h
    split at h
    next => exact absurd h (by simp)
    next h12 =>
      refine ⟨by omega, ?_⟩
      split at h
      next => exact .inl h
      next =>
        split at h
        next => exact absurd h (by simp)
        next => exact .inr ⟨by omega, h⟩
  · rintro ⟨h12, hcontent | ⟨hle, hrecord⟩⟩
    · have hlt := (List.getElem?_eq_some_iff.mp hcontent).1
      rw [if_neg (by omega), if_pos hlt, hcontent]
    · rw [if_neg (by omega), if_neg (by omega), if_neg (by omega), hrecord]

/-- Without pending rdata the memory is that of the content. -/
theorem mem_eq_some_of_idle (hidle : w.d_record = []) {p : Nat}
    {b : UInt8} : w.mem p = some b ↔ 12 ≤ p ∧ w.d_content[p]? = some b := by
  rw [mem_eq_some, hidle]
  simp

theorem extends_xfrBlob (w : DNSPacketWriter) (blob : Octets) :
    Extends w.mem (w.xfrBlob blob).mem := by
  intro p b hp
  rw [mem_eq_some] at hp ⊢
  refine ⟨hp.1, hp.2.imp_right fun ⟨hle, hget⟩ => ⟨hle, ?_⟩⟩
  have hlt := (List.getElem?_eq_some_iff.mp hget).1
  exact (getElem?_append_left hlt).trans hget

/-- The octets written next stand at `writePos`. -/
theorem holds_xfrBlob {w : DNSPacketWriter} (hheader : 12 ≤ w.d_content.length)
    (blob : Octets) : Holds (w.xfrBlob blob).mem w.writePos blob := by
  refine holds_of_getElem? fun i b hget => mem_eq_some.mpr ?_
  unfold writePos xfrBlob
  refine ⟨by omega, .inr ⟨by dsimp only; omega, ?_⟩⟩
  rw [getElem?_append_right (by dsimp only; omega)]
  dsimp only
  rw [← hget]
  congr 1
  omega

theorem getElem?_incrementAt {content : Octets} {off p : Nat} (h : off + 1 < p) :
    (incrementAt content off)[p]? = content[p]? := by
  unfold incrementAt
  rw [getElem?_set_ne (by omega), getElem?_set_ne (by omega)]

theorem length_incrementAt (content : Octets) (off : Nat) :
    (incrementAt content off).length = content.length := by
  unfold incrementAt
  rw [length_set, length_set]

theorem countOffset_le (place : WriterPlace) : countOffset place ≤ 10 := by
  cases place <;> decide

theorem length_recordHeader (w : DNSPacketWriter) : w.recordHeader.length = 10 := rfl

/-- The record header fills the gap in front of the pending rdata. -/
theorem commit_extends {w w' : DNSPacketWriter} (h : w.commit = some w')
    (hstuff : w.d_stuff = 10 ∨ w.d_record = []) : Extends w.mem w'.mem := by
  unfold commit at h
  split at h
  next => exact absurd h (by simp)
  next =>
    obtain rfl := Option.some.inj h
    intro p b hp
    rw [mem_eq_some] at hp ⊢
    obtain ⟨h12, hget⟩ := hp
    refine ⟨h12, .inl ?_⟩
    have hoff := countOffset_le w.d_recordplace
    rw [getElem?_incrementAt (by omega)]
    rcases hget with hcontent | ⟨hle, hrecord⟩
    · have hlt := (List.getElem?_eq_some_iff.mp hcontent).1
      rw [append_assoc, getElem?_append_left hlt, hcontent]
    · rcases hstuff with hten | hnil
      · rw [hten] at hle hrecord
        have hlen : (w.d_content ++ w.recordHeader).length = w.d_content.length + 10 := by
          rw [length_append, length_recordHeader]
        rw [getElem?_append_right (by omega), hlen, ← Nat.sub_sub]
        exact hrecord
      · rw [hnil] at hrecord
        exact absurd hrecord (by simp)

theorem commit_eq {w w' : DNSPacketWriter} (h : w.commit = some w') :
    w'.d_record = [] ∧ w'.d_stuff = 0 ∧ w'.d_labelmap = w.d_labelmap ∧ w'.d_qname = w.d_qname ∧
      w.d_content.length ≤ w'.d_content.length := by
  unfold commit at h
  split at h
  next => exact absurd h (by simp)
  next =>
    obtain rfl := Option.some.inj h
    refine ⟨rfl, rfl, rfl, rfl, ?_⟩
    simp only [length_incrementAt, length_append]
    omega

/-- Only a writer without `startRecord` refuses to commit. -/
theorem exists_commit (h : w.d_stuff ≠ 0xffff) :
    ∃ w', w.commit = some w' := by
  unfold commit
  rw [if_neg fun hc => h hc.1]
  exact ⟨_, rfl⟩

end DNSPacketWriter

open DNSPacketWriter

/-! ### Writing one name -/

/-- The text of the name is not cut short in the label map. -/
def Name.NulSafe (n : Name) : Prop := n.dotted = true ∨ 0 ∉ n.text

instance (n : Name) : Decidable n.NulSafe := inferInstanceAs (Decidable (_ ∨ _))

/-- The pointer `xfrLabel` would write leads to a name that takes fewer than ten. -/
def PointerSafe (w : DNSPacketWriter) (n : Name) (compress : Bool) : Prop :=
  ∀ li ∈ compressionTarget n.text compress w.d_labelmap (labeltokUnescape n.text).1,
    Shallow w.mem li

/-- It leads to a name that takes fewer than `k` pointers. -/
def PointerWithin (k : Nat) (w : DNSPacketWriter) (n : Name) (compress : Bool) : Prop :=
  ∀ li ∈ compressionTarget n.text compress w.d_labelmap (labeltokUnescape n.text).1,
    ∀ ls hops, Decodes w.mem li ls hops → hops < k

theorem PointerWithin.of_false (k : Nat) (w : DNSPacketWriter) (n : Name) : PointerWithin k w n false :=
  fun _ h => absurd h (by simp [compressionTarget])

theorem PointerWithin.and {k : Nat} {w : DNSPacketWriter} {n : Name} {compress : Bool} (c : Bool)
    (h : PointerWithin k w n compress) : PointerWithin k w n (if c then false else compress) := by
  cases c with
  | true => exact PointerWithin.of_false k w n
  | false => exact h

theorem PointerSafe.of_false (w : DNSPacketWriter) (n : Name) : PointerSafe w n false :=
  PointerWithin.of_false 10 w n

/-- **Writing a name.** `xfrLabel` accepts the text of every name; it appends octets that
decode to the labels of the name, in every memory that has them at `writePos`, and so do
the entries it adds to the label map. -/
theorem xfrLabel_hops {k k' : Nat} {w : DNSPacketWriter} {n : Name} {compress : Bool} (hnul : n.NulSafe)
    (hentries : ∀ e ∈ w.d_labelmap, EntryAt k w.mem e) (hsafe : PointerWithin k' w n compress) :
    ∃ (entries : LabelMap) (octets : Octets),
      w.xfrLabel n.text compress =
        some { w.xfrBlob octets with d_labelmap := w.d_labelmap ++ entries } ∧
      ∀ m', Extends w.mem m' → Holds m' w.writePos octets →
        NameAt m' (if compress then k' else 0) w.writePos n.labels ∧
          ∀ e ∈ entries, EntryAt k' m' e := by
  replace hsafe := hsafe.and w.d_canonic
  have hbound : (if (if w.d_canonic then false else compress) then k' else 0) ≤
      if compress then k' else 0 := by
    cases w.d_canonic <;> simp
  unfold xfrLabel
  generalize (if w.d_canonic then false else compress) = compress' at hsafe hbound ⊢
  obtain ⟨labels, dotted, hwf⟩ := n
  have hroot : ∀ m', Holds m' w.writePos [0] →
      NameAt m' (if compress then k' else 0) w.writePos [] ∧ ∀ e ∈ ([] : LabelMap), EntryAt k' m' e :=
    fun m' hholds => ⟨⟨[], 0, Decodes.of_root hholds, Nat.zero_le _, rfl⟩, by simp⟩
  cases labels with
  | nil =>
    refine ⟨[], [0], ?_, fun m' _ hholds => hroot m' hholds⟩
    cases dotted with
    | true => simp [Name.text, xfrBlob]
    | false =>
      simp [Name.text, xfrBlob, labeltokUnescape, labeltokUnescapeFrom, xfrParts]
  | cons l ls =>
    have htext : Name.text ⟨l :: ls, dotted, hwf⟩ = labelsText dotted (l :: ls) :=
      if_neg (cons_ne_nil l ls)
    unfold Name.NulSafe at hnul
    unfold PointerWithin at hsafe
    have hne : ∀ l' ∈ l :: ls, l' ≠ [] := fun l' hl' => (hwf l' hl').1
    have hunescaped := any_escaped_or (l :: ls)
    have hparts : labeltokUnescape (labelsText dotted (l :: ls)) =
        (labelOffsets 0 (l :: ls), (l :: ls).any fun l => escapeLabel l != l) :=
      labeltokUnescape_labelsText dotted 0 hne
    rw [htext] at hnul hsafe ⊢
    rw [hparts] at hsafe ⊢
    rw [if_neg (labelsText_ne_root (hne l mem_cons_self))]
    have hloop := @xfrParts_hops _ dotted _ compress' w.mem w.d_labelmap k k' (l :: ls) 0 w.writePos []
      w.d_record hwf drop_zero hnul hunescaped hentries (by simp) hsafe
    rw [append_nil] at hloop
    obtain ⟨entries, octets, heq, hspec⟩ := hloop
    refine ⟨entries, octets, ?_, fun m' hm hholds => ?_⟩
    · dsimp only
      rw [heq]
      rfl
    · obtain ⟨hname, hadded⟩ := hspec m' hm hholds
      exact ⟨hname.mono (Extends.refl m') hbound, hadded⟩

theorem xfrLabel_spec {w : DNSPacketWriter} {n : Name} {compress : Bool} (hnul : n.NulSafe)
    (hentries : ∀ e ∈ w.d_labelmap, EntryOK w.mem e) (hsafe : PointerSafe w n compress) :
    ∃ (entries : LabelMap) (octets : Octets),
      w.xfrLabel n.text compress =
        some { w.xfrBlob octets with d_labelmap := w.d_labelmap ++ entries } ∧
      ∀ m', Extends w.mem m' → Holds m' w.writePos octets →
        NameAt m' (if compress then 10 else 0) w.writePos n.labels ∧
          ∀ e ∈ entries, EntryOK m' e :=
  @xfrLabel_hops 10 10 w n compress hnul hentries hsafe

/-! ### Runs of the writer -/

/-- A call of the writer. -/
inductive WriteOp
  | startRecord (name : Name) (qtype : UInt16) (ttl : UInt32) (qclass : UInt16)
      (place : WriterPlace)
  | xfrLabel (name : Name) (compress : Bool)
  | xfrBlob (blob : Octets)
  | commit

/-- The writer after a call. -/
def WriteOp.apply (w : DNSPacketWriter) : WriteOp → Option DNSPacketWriter
  | .startRecord name qtype ttl qclass place => w.startRecord name.text qtype ttl qclass place
  | .xfrLabel name compress => w.xfrLabel name.text compress
  | .xfrBlob blob => some (w.xfrBlob blob)
  | .commit => w.commit

/-- The name a call writes, with its place in the packet. -/
def WriteOp.written (w : DNSPacketWriter) : WriteOp → List (Nat × List Octets)
  | .startRecord name .. => w.flush.toList.map fun w => (w.d_content.length, name.labels)
  | .xfrLabel name _ => [(w.writePos, name.labels)]
  | .xfrBlob _ => []
  | .commit => []

/-- A writer and the names it has written. -/
structure Session where
  writer : DNSPacketWriter
  written : List (Nat × List Octets)

namespace Session

/-- The constructor of the writer writes the question name behind the header. -/
def start (qname : Name) (qtype qclass : UInt16) (opcode : UInt8) (d_sor : Nat) :
    Option Session :=
  (create qname.text qtype qclass opcode d_sor).map fun w => ⟨w, [(12, qname.labels)]⟩

/-- One call. `none` stands for a session that has thrown. -/
def step (s : Option Session) (o : WriteOp) : Option Session := do
  let s ← s
  let w ← o.apply s.writer
  some ⟨w, s.written ++ o.written s.writer⟩

end Session

/-- The calls after which everything written can be read. -/
def WriteOp.SoundOn (w : DNSPacketWriter) : WriteOp → Prop
  | .startRecord name .. => name.NulSafe ∧ PointerSafe w name true
  | .xfrLabel name compress => w.d_stuff = 10 ∧ name.NulSafe ∧ PointerSafe w name compress
  | .xfrBlob _ => w.d_stuff = 10
  | .commit => w.d_stuff ≠ 0xffff

/-- A call on a session is sound when it is on its writer. -/
def Sound (s : Option Session) (o : WriteOp) : Prop := ∀ t ∈ s, o.SoundOn t.writer

/-- What holds throughout a session about `qname`. -/
structure SessionInv (qname : Name) (s : Session) : Prop where
  header : 12 ≤ s.writer.d_content.length
  idle : s.writer.d_stuff ≠ 10 → s.writer.d_record = []
  qname_text : s.writer.d_qname = qname.text
  /-- The question name is written without pointers. -/
  question : NameAt s.writer.mem 0 12 qname.labels
  entries : ∀ e ∈ s.writer.d_labelmap, EntryOK s.writer.mem e
  names : ∀ n ∈ s.written, NameAt s.writer.mem 10 n.1 n.2

variable {ls : List Octets}

theorem NameAt.shallow_mono {m m' : Memory} {k li : Nat} (hm : Extends m m')
    (hname : NameAt m k li ls) (h : Shallow m li) : Shallow m' li := by
  obtain ⟨ls', hops, hdec, _, _⟩ := hname
  intro ls'' hops' hdec'
  obtain ⟨_, rfl⟩ := (hdec.mono hm).unique hdec'
  exact h ls' hops hdec

/-- A pointer goes to an entry of the label map, so what is safe stays safe as the memory
grows. -/
theorem PointerSafe.mono {w w' : DNSPacketWriter} {n : Name} {compress : Bool}
    (hmap : w'.d_labelmap = w.d_labelmap) (hentries : ∀ e ∈ w.d_labelmap, EntryOK w.mem e)
    (hm : Extends w.mem w'.mem) (h : PointerSafe w n compress) : PointerSafe w' n compress := by
  intro li hli
  rw [hmap] at hli
  have hshallow := h li hli
  unfold compressionTarget at hli
  split at hli
  next =>
    obtain ⟨i, _, hi⟩ := exists_of_findSome?_eq_some hli
    obtain ⟨e, he, _, rfl⟩ := LabelMap.exists_of_lookup hi
    exact (hentries e he).2.shallow_mono hm hshallow
  next => exact absurd hli (by simp)

section Steps

variable {qname : Name} {s : Session}

namespace SessionInv

/-- A name written into the rdata of the record that is open. -/
theorem xfrLabel (hinv : SessionInv qname s) {n : Name} {compress : Bool}
    (hopen : s.writer.d_stuff = 10) (hnul : n.NulSafe) (hsafe : PointerSafe s.writer n compress) :
    ∃ w, s.writer.xfrLabel n.text compress = some w ∧
      SessionInv qname ⟨w, s.written ++ [(s.writer.writePos, n.labels)]⟩ := by
  obtain ⟨entries, octets, heq, hspec⟩ := xfrLabel_spec hnul hinv.entries hsafe
  refine ⟨_, heq, ?_⟩
  have hm : Extends s.writer.mem (s.writer.xfrBlob octets).mem := extends_xfrBlob _ _
  have hten : (if compress then 10 else 0) ≤ 10 := by split <;> omega
  obtain ⟨hname, hentries⟩ := hspec _ hm (holds_xfrBlob hinv.header octets)
  constructor
  · exact hinv.header
  · intro hstuff
    exact absurd hopen hstuff
  · exact hinv.qname_text
  · exact hinv.question.mono hm le_rfl
  · intro e he
    rcases mem_append.mp he with he | he
    · exact (hinv.entries e he).mono hm
    · exact hentries e he
  · intro nm hnm
    rcases mem_append.mp hnm with hnm | hnm
    · exact (hinv.names nm hnm).mono hm le_rfl
    · rw [mem_singleton.mp hnm]
      exact hname.mono (Extends.refl _) hten

theorem commit (hinv : SessionInv qname s) (hstuff : s.writer.d_stuff ≠ 0xffff) :
    ∃ w, s.writer.commit = some w ∧ SessionInv qname ⟨w, s.written⟩ := by
  obtain ⟨w, hw⟩ := exists_commit hstuff
  obtain ⟨hrecord, _, hmap, hqname, hlen⟩ := commit_eq hw
  have hm : Extends s.writer.mem w.mem := by
    refine commit_extends hw ?_
    by_cases h : s.writer.d_stuff = 10
    · exact .inl h
    · exact .inr (hinv.idle h)
  refine ⟨w, hw, ?_⟩
  constructor
  · exact hinv.header.trans hlen
  · exact fun _ => hrecord
  · exact hqname.trans hinv.qname_text
  · exact hinv.question.mono hm le_rfl
  · intro e he
    exact (hinv.entries e (hmap ▸ he)).mono hm
  · intro nm hnm
    exact (hinv.names nm hnm).mono hm le_rfl

/-- Pending rdata is committed by the next `startRecord`; it cannot fail. -/
theorem flush (hinv : SessionInv qname s) :
    ∃ w, s.writer.flush = some w ∧ SessionInv qname ⟨w, s.written⟩ ∧ w.d_record = [] ∧
      w.d_labelmap = s.writer.d_labelmap ∧ Extends s.writer.mem w.mem := by
  unfold DNSPacketWriter.flush
  by_cases hrecord : s.writer.d_record = []
  · rw [if_neg (not_not.mpr hrecord)]
    exact ⟨_, rfl, hinv, hrecord, rfl, Extends.refl _⟩
  · have hopen : s.writer.d_stuff = 10 := by
      by_contra h
      exact hrecord (hinv.idle h)
    obtain ⟨w, hw, hinv'⟩ := hinv.commit (by omega)
    obtain ⟨hnil, _, hmap, _, _⟩ := commit_eq hw
    rw [if_pos hrecord]
    exact ⟨w, hw, hinv', hnil, hmap, commit_extends hw (.inl hopen)⟩

/-- The owner name of a record goes to the end of the content, where nothing is pending. -/
theorem writeOwner {w : DNSPacketWriter} {written : List (Nat × List Octets)}
    (hinv : SessionInv qname ⟨w, written⟩) (hrecord : w.d_record = []) (hstuff : w.d_stuff = 0)
    {n : Name} (hnul : n.NulSafe) (hsafe : PointerSafe w n true) :
    ∃ w', w.writeOwner n.text = some w' ∧ w'.d_record = [] ∧
      SessionInv qname ⟨w', written ++ [(w.d_content.length, n.labels)]⟩ := by
  have hpos : w.writePos = w.d_content.length := by
    simp [writePos, hrecord, hstuff]
  have hheader : 12 ≤ w.d_content.length := hinv.header
  unfold DNSPacketWriter.writeOwner
  -- the owner is appended to the content directly
  have happend : ∀ (octets : Octets) (lmap : LabelMap),
      (∀ m', Extends w.mem m' → Holds m' w.d_content.length octets →
        NameAt m' 10 w.d_content.length n.labels ∧
        ∀ e ∈ lmap, e ∈ w.d_labelmap ∨ EntryOK m' e) →
      SessionInv qname ⟨{ w with
        d_content := w.d_content ++ octets, d_record := [], d_labelmap := lmap },
        written ++ [(w.d_content.length, n.labels)]⟩ := by
    intro octets lmap hspec
    set w' : DNSPacketWriter := { w with
      d_content := w.d_content ++ octets, d_record := [], d_labelmap := lmap } with hw'
    have hm : Extends w.mem w'.mem := by
      intro p b hp
      rw [mem_eq_some_of_idle hrecord] at hp
      rw [mem_eq_some_of_idle rfl]
      refine ⟨hp.1, ?_⟩
      rw [hw', getElem?_append_left (List.getElem?_eq_some_iff.mp hp.2).1]
      exact hp.2
    have hholds : Holds w'.mem w.d_content.length octets := by
      refine holds_of_getElem? fun i b hget => ?_
      rw [mem_eq_some_of_idle rfl]
      refine ⟨by omega, ?_⟩
      rw [hw', getElem?_append_right (Nat.le_add_right _ _), Nat.add_sub_cancel_left]
      exact hget
    obtain ⟨hname, hentries⟩ := hspec _ hm hholds
    constructor
    · show 12 ≤ (w.d_content ++ octets).length
      rw [length_append]
      omega
    · exact fun _ => rfl
    · exact hinv.qname_text
    · exact hinv.question.mono hm le_rfl
    · intro e he
      rcases hentries e he with hold | hnew
      · exact (hinv.entries e hold).mono hm
      · exact hnew
    · intro nm hnm
      rcases mem_append.mp hnm with hnm | hnm
      · exact (hinv.names nm hnm).mono hm le_rfl
      · rw [mem_singleton.mp hnm]
        exact hname
  by_cases hsame : pdnsIequals w.d_qname n.text = true
  · -- "see question"
    rw [if_pos hsame]
    refine ⟨_, rfl, hrecord, ?_⟩
    have hmarker := happend [0xc0, 0x0c] w.d_labelmap fun m' hm hholds => by
      obtain ⟨ls', hops, hdec, hhops, hlabels⟩ := hinv.question
      refine ⟨⟨ls', hops + 1, ?_, by omega, ?_⟩, fun e he => .inl he⟩
      · exact Decodes.of_pointer (show 12 < 16384 by omega) hholds (hdec.mono hm)
      · rw [show w.d_qname = qname.text from hinv.qname_text, pdnsIequals_iff] at hsame
        rw [hlabels, ← qname.labelsOf_text, lowerLabels_congr hsame, n.labelsOf_text]
    have hshape : ({ w with d_content := w.d_content ++ [0xc0, 0x0c] } : DNSPacketWriter) =
        { w with d_content := w.d_content ++ [0xc0, 0x0c], d_record := [],
                 d_labelmap := w.d_labelmap } := by
      simp [hrecord]
    rw [hshape]
    exact hmarker
  · rw [if_neg hsame]
    obtain ⟨entries, octets, heq, hspec⟩ := xfrLabel_spec hnul hinv.entries hsafe
    rw [hpos] at hspec
    rw [heq]
    refine ⟨_, rfl, rfl, ?_⟩
    have hlabel := happend octets (w.d_labelmap ++ entries) fun m' hm hholds => by
      obtain ⟨hname, hentries⟩ := hspec m' hm hholds
      refine ⟨hname, fun e he => ?_⟩
      rcases mem_append.mp he with he | he
      · exact .inl he
      · exact .inr (hentries e he)
    have hoctets : (w.xfrBlob octets).d_record = octets := by
      simp [xfrBlob, hrecord]
    rw [hoctets]
    exact hlabel

/-- Nothing but the memory behind a pending gap depends on the bookkeeping fields. -/
theorem of_idle {w w' : DNSPacketWriter} {written : List (Nat × List Octets)}
    (hinv : SessionInv qname ⟨w, written⟩) (hrecord : w.d_record = [])
    (hcontent : w'.d_content = w.d_content) (hrecord' : w'.d_record = [])
    (hqname : w'.d_qname = w.d_qname) (hmap : w'.d_labelmap = w.d_labelmap) :
    SessionInv qname ⟨w', written⟩ := by
  have hm : Extends w.mem w'.mem := by
    intro p b hp
    rw [mem_eq_some_of_idle hrecord] at hp
    rw [mem_eq_some_of_idle hrecord', hcontent]
    exact hp
  constructor
  · exact hcontent ▸ hinv.header
  · exact fun _ => hrecord'
  · exact hqname.trans hinv.qname_text
  · exact hinv.question.mono hm le_rfl
  · intro e he
    exact (hinv.entries e (hmap ▸ he)).mono hm
  · intro nm hnm
    exact (hinv.names nm hnm).mono hm le_rfl

/-- **Every sound call succeeds and keeps the invariant.** -/
theorem step (hinv : SessionInv qname s) (o : WriteOp) (hsound : o.SoundOn s.writer) :
    ∃ t, Session.step (some s) o = some t ∧ SessionInv qname t := by
  cases o with
  | startRecord name qtype ttl qclass place =>
    obtain ⟨hnul, hsafe⟩ := hsound
    obtain ⟨w₁, hflush, hinv₁, hrecord₁, hmap₁, hm₁⟩ := hinv.flush
    -- the writer `writeOwner` is called on
    set w₂ : DNSPacketWriter := { w₁ with
      d_recordqtype := qtype, d_recordqclass := qclass, d_recordttl := ttl,
      d_recordplace := place, d_stuff := 0 } with hw₂
    have hinv₂ : SessionInv qname ⟨w₂, s.written⟩ :=
      hinv₁.of_idle hrecord₁ rfl hrecord₁ rfl rfl
    have hm₂ : Extends w₁.mem w₂.mem := by
      intro p b hp
      rw [mem_eq_some_of_idle hrecord₁] at hp
      exact (mem_eq_some_of_idle (show w₂.d_record = [] from hrecord₁)).mpr hp
    have hsafe₂ : PointerSafe w₂ name true :=
      hsafe.mono hmap₁ hinv.entries (hm₁.trans hm₂)
    obtain ⟨w₃, howner, hrecord₃, hinv₃⟩ := hinv₂.writeOwner hrecord₁ rfl hnul hsafe₂
    refine ⟨⟨{ w₃ with d_stuff := 10, d_sor := w₃.d_content.length + 10 },
      s.written ++ [(w₁.d_content.length, name.labels)]⟩, ?_, ?_⟩
    · simp [Session.step, WriteOp.apply, WriteOp.written, startRecord, hflush, ← hw₂, howner]
    · exact hinv₃.of_idle hrecord₃ rfl hrecord₃ rfl rfl
  | xfrLabel name compress =>
    obtain ⟨hopen, hnul, hsafe⟩ := hsound
    obtain ⟨w, hw, hinv'⟩ := hinv.xfrLabel hopen hnul hsafe
    exact ⟨_, by simp [Session.step, WriteOp.apply, WriteOp.written, hw], hinv'⟩
  | xfrBlob blob =>
    refine ⟨_, rfl, ?_⟩
    have hm : Extends s.writer.mem (s.writer.xfrBlob blob).mem := extends_xfrBlob _ _
    constructor
    · exact hinv.header
    · intro hstuff
      exact absurd hsound hstuff
    · exact hinv.qname_text
    · exact hinv.question.mono hm le_rfl
    · exact fun e he => (hinv.entries e he).mono hm
    · intro nm hnm
      rw [WriteOp.written, append_nil] at hnm
      exact (hinv.names nm hnm).mono hm le_rfl
  | commit =>
    obtain ⟨w, hw, hinv'⟩ := hinv.commit hsound
    exact ⟨_, by simp [Session.step, WriteOp.apply, WriteOp.written, hw], hinv'⟩

end SessionInv

end Steps

/-! ### The finished packet -/

/-- A new writer meets the invariant. -/
theorem sessionInv_start {qname : Name} (hnul : qname.NulSafe) (qtype qclass : UInt16)
    (opcode : UInt8) (d_sor : Nat) :
    ∃ s, Session.start qname qtype qclass opcode d_sor = some s ∧ SessionInv qname s := by
  set w₀ : DNSPacketWriter :=
    { d_content := questionHeader opcode, d_qname := qname.text, d_sor := d_sor } with hw₀
  have hlen : (questionHeader opcode).length = 12 := rfl
  obtain ⟨entries, octets, heq, hspec⟩ :=
    @xfrLabel_spec w₀ qname false hnul (by simp [hw₀]) (PointerSafe.of_false _ _)
  set w : DNSPacketWriter := { w₀ with
    d_content := questionHeader opcode ++ octets ++ be16 qtype ++ be16 qclass
    d_record := [], d_stuff := 0xffff, d_labelmap := entries } with hw
  have hstart : Session.start qname qtype qclass opcode d_sor = some ⟨w, [(12, qname.labels)]⟩ := by
    have hcontent : w₀.d_content = questionHeader opcode := rfl
    have hrecord : w₀.d_record = [] := rfl
    have hmap : w₀.d_labelmap = [] := rfl
    simp [Session.start, create, ← hw₀, heq, hw, xfrBlob, hcontent, hrecord, hmap]
  have hm : Extends w₀.mem w.mem := by
    intro p b hp
    rw [mem_eq_some_of_idle rfl] at hp
    have hlt := (List.getElem?_eq_some_iff.mp hp.2).1
    -- the header is all there is
    rw [hw₀, hlen] at hlt
    omega
  have hholds : Holds w.mem 12 octets := by
    refine holds_of_getElem? fun i b hget => ?_
    rw [mem_eq_some_of_idle rfl]
    have hi := (List.getElem?_eq_some_iff.mp hget).1
    refine ⟨by omega, ?_⟩
    show (questionHeader opcode ++ octets ++ be16 qtype ++ be16 qclass)[12 + i]? = some b
    rw [append_assoc, append_assoc, getElem?_append_right (by omega), hlen,
      Nat.add_sub_cancel_left, getElem?_append_left hi, hget]
  obtain ⟨hname, hentries⟩ := hspec w.mem hm hholds
  refine ⟨_, hstart, ?_⟩
  constructor
  · show 12 ≤ (questionHeader opcode ++ octets ++ be16 qtype ++ be16 qclass).length
    rw [length_append, length_append, length_append, hlen]
    omega
  · exact fun _ => rfl
  · rfl
  · exact hname
  · exact hentries
  · intro nm hnm
    rw [mem_singleton.mp hnm]
    exact hname.mono (Extends.refl _) (Nat.zero_le 10)

/-- The reader, put at `off` in a packet, returns a text with the labels `ls`, up to
case. -/
def ReadsBack (packet : Octets) (off : Nat) (ls : List Octets) : Prop :=
  ∃ text, lowerLabels (labelsOf text) = lowerLabels ls ∧ ∃ n, ∀ fuel ≥ n, ∃ frompos,
    getLabelFromContent (packet.drop 12) fuel (UInt16.ofNat (off - 12)) [] 0 = .ok (text, frompos)

theorem readText_eq (hls : ∀ l ∈ ls, IsLabel l) :
    readText [] ls = Name.text ⟨ls, true, hls⟩ := by
  unfold readText Name.text labelsText
  cases ls <;> simp

/-- A name in the memory of a finished packet is read back. -/
theorem readsBack_of_nameAt {w : DNSPacketWriter} {off : Nat}
    (hfinished : w.d_record = []) (hsize : w.d_content.length ≤ 2 ^ 16 + 12)
    (h : NameAt w.mem 10 off ls) : ReadsBack w.d_content off ls := by
  obtain ⟨ls', hops, hdec, hhops, hlabels⟩ := h
  have hm : Readable (w.d_content.drop 12) w.mem := by
    intro p b hp
    rw [mem_eq_some_of_idle hfinished] at hp
    refine ⟨hp.1, ?_⟩
    rw [getElem?_drop, Nat.add_sub_cancel' hp.1]
    exact hp.2
  have hlen : (w.d_content.drop 12).length ≤ 65536 := by
    rw [length_drop]
    omega
  refine ⟨readText [] ls', ?_, getLabelFromContent_of_decodes hlen hm hdec [] (by omega)⟩
  rw [readText_eq hdec.isLabel, Name.labelsOf_text]
  exact hlabels

/-- **Compression round trip.** A sound session never throws, and in its finished packet
the reader finds every name at the place where it was written. -/
theorem names_read_back (qname : Name) (hnul : qname.NulSafe) (qtype qclass : UInt16)
    (opcode : UInt8) (d_sor : Nat) (ops : List WriteOp)
    (hsound : Guarded Session.step Sound (Session.start qname qtype qclass opcode d_sor) ops) :
    ∃ s, run Session.step (Session.start qname qtype qclass opcode d_sor) ops = some s ∧
      (s.writer.d_record = [] → s.writer.d_content.length ≤ 2 ^ 16 + 12 →
        ∀ n ∈ s.written, ReadsBack s.writer.d_content n.1 n.2) := by
  obtain ⟨s₀, hstart, hinv₀⟩ := sessionInv_start hnul qtype qclass opcode d_sor
  have hstep : ∀ (t : Option Session) (o : WriteOp),
      (∃ s, t = some s ∧ SessionInv qname s) → Sound t o →
      ∃ s, Session.step t o = some s ∧ SessionInv qname s := by
    rintro _ o ⟨s, rfl, hinv⟩ ho
    exact hinv.step o (ho s rfl)
  obtain ⟨s, hrun, hinv⟩ := run_invariant hstep ⟨s₀, hstart, hinv₀⟩ hsound
  exact ⟨s, hrun, fun hfinished hsize n hn =>
    readsBack_of_nameAt hfinished hsize (hinv.names n hn)⟩

/-- The question name takes no pointer to read, so a pointer to it is always safe. -/
theorem SessionInv.shallow_question {qname : Name} {s : Session} (hinv : SessionInv qname s) :
    Shallow s.writer.mem 12 := by
  intro ls hops hdec
  obtain ⟨ls', hops', hdec', hhops', _⟩ := hinv.question
  obtain ⟨_, rfl⟩ := hdec'.unique hdec
  omega

/-- The name `l.….c.b.a.` with `k + 1` labels. -/
def nestedName (k : Nat) : Name where
  labels := (List.range (k + 1)).reverse.map fun i => [UInt8.ofNat (97 + i)]
  dotted := true
  wf := by
    intro l hl
    obtain ⟨i, _, rfl⟩ := mem_map.mp hl
    exact ⟨cons_ne_nil _ _, by simp⟩

/-- A question for `a.` answered with an address of `b.a.`. -/
def oneRecord : List WriteOp :=
  [.startRecord (nestedName 1) 1 3600 1 .ANSWER, .xfrBlob [192, 0, 2, 1], .commit]

theorem one_record_reads_back :
    ∃ s, run Session.step (Session.start (nestedName 0) 1 1 0 0) oneRecord = some s ∧
      ∀ n ∈ s.written, ReadsBack s.writer.d_content n.1 n.2 := by
  have hnul : (nestedName 0).NulSafe := .inl rfl
  obtain ⟨s₀, hstart, hinv₀⟩ := sessionInv_start hnul 1 1 0 0
  have hsound : Guarded Session.step Sound (Session.start (nestedName 0) 1 1 0 0) oneRecord := by
    refine ⟨fun t ht => ⟨.inl rfl, fun li hli => ?_⟩, ?_, ?_, trivial⟩
    · -- the pointer goes to the question name
      have htarget : ∀ t ∈ Session.start (nestedName 0) 1 1 0 0,
          compressionTarget (nestedName 1).text true t.writer.d_labelmap
            (labeltokUnescape (nestedName 1).text).1 = some 12 := by decide
      rw [htarget t ht] at hli
      obtain rfl := Option.some.inj hli
      rw [hstart] at ht
      obtain rfl := Option.some.inj ht
      exact hinv₀.shallow_question
    · have hopen : ∀ t ∈ Session.step (Session.start (nestedName 0) 1 1 0 0)
          (.startRecord (nestedName 1) 1 3600 1 .ANSWER), t.writer.d_stuff = 10 := by
        decide
      exact hopen
    · have hopen : ∀ t ∈ Session.step (Session.step (Session.start (nestedName 0) 1 1 0 0)
          (.startRecord (nestedName 1) 1 3600 1 .ANSWER)) (.xfrBlob [192, 0, 2, 1]),
          t.writer.d_stuff ≠ 0xffff := by decide
      exact hopen
  obtain ⟨s, hrun, hall⟩ := names_read_back (nestedName 0) hnul 1 1 0 0 oneRecord hsound
  have hfinished : ∀ t ∈ run Session.step (Session.start (nestedName 0) 1 1 0 0) oneRecord,
      t.writer.d_record = [] ∧ t.writer.d_content.length ≤ 2 ^ 16 + 12 := by decide
  obtain ⟨hrecord, hsize⟩ := hfinished s hrun
  exact ⟨s, hrun, hall hrecord hsize⟩

/-- Eleven records, each owned by a name one label below the one before. -/
def nestedOps : List WriteOp :=
  (List.range 11).flatMap fun k =>
    [.startRecord (nestedName (k + 1)) 1 3600 1 .ANSWER, .xfrBlob [192, 0, 2, 1], .commit]

/-- **A packet the reader refuses.** The question is `a.`, the answers are owned by `b.a.`,
`c.b.a.` and so on. Every owner is one label and a pointer to the owner before it, so the
last one takes eleven pointers to read, and the reader throws. -/
theorem nested_names_do_not_read_back :
    ∃ s, run Session.step (Session.start (nestedName 0) 1 1 0 0) nestedOps = some s ∧
      s.writer.d_record = [] ∧ ∃ n ∈ s.written, ¬ReadsBack s.writer.d_content n.1 n.2 := by
  have hrun : (run Session.step (Session.start (nestedName 0) 1 1 0 0) nestedOps).any (fun s =>
      s.writer.d_record == [] && s.written.any fun n =>
        decide (getLabelFromContent (s.writer.d_content.drop 12) 40 (UInt16.ofNat (n.1 - 12)) [] 0
          = .error (.moadns "Loop"))) = true := by decide +kernel
  obtain ⟨s, hs, hthrows⟩ := (Option.any_eq_true _ _).mp hrun
  simp only [Bool.and_eq_true, beq_iff_eq, any_eq_true, decide_eq_true_eq] at hthrows
  obtain ⟨hrecord, n, hn, hloop⟩ := hthrows
  refine ⟨s, hs, hrecord, n, hn, ?_⟩
  rintro ⟨text, _, k, hreads⟩
  obtain ⟨frompos, hok⟩ := hreads (k + 40) (Nat.le_add_right k 40)
  rw [Nat.add_comm k 40, getLabelFromContent_add_fuel hloop (by simp)] at hok
  exact absurd hok (by simp)

end PowerDNS
