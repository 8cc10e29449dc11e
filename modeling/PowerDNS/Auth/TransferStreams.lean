import PowerDNS.Auth.TransferredChain
import PowerDNS.Auth.WrittenReplies

/-!
# The stream of an outgoing zone transfer: `TCPNameserver::doAXFR`

`doAXFR` sends one message after the other. A message is wrapped up like any reply, and `sendPacket`
writes its length in two octets, and then as many octets as that says: `len` is a number of 16 bits, so
a longer message is cut. What goes into the messages does not depend on how long they are, nor on whether
the zone has keys: there is a message for each 100 records, and all NSEC records are in the last one but
one.

The records of a zone have labels for names here and `RData` for contents, as for the packet handler;
`inText` gives the texts that the writer gets. `stream_right_iff` says which transfers come out right.
-/

namespace PowerDNS

open CyclicChain DNSPacket PacketHandler ResponseRun StoppedRun List
open OrderedChain (points)

/-! ### The code -/

/-- What `doAXFR` finds around it. -/
structure TransferServer where
  env : ReplyEnv
  /-- The content of a record as a text. -/
  content : RData → Octets
  strictRfcAxfrs : Bool

/-- A record of a zone, as `get` fills it in: `d_place` is what the constructor has set. -/
abbrev ZoneRow := { rr : ReplyRR // rr.d_place = .ANSWER }

/-- The records of a message, and what it has from the query. -/
structure TransferPacket where
  q : DNSPacket
  rrs : List ReplyRR
  deriving DecidableEq

/-- What is sent: two octets, the octets behind them, and what these were wrapped up from. -/
structure SentMessage where
  buf : Octets
  octets : Octets
  reply : WrittenReply
  rrs : List ReplyRR
  deriving DecidableEq

/-- The SOA record of a transfer. -/
def soaRecord (target : DName) (sd : SOAData) : ReplyRR where
  qtype := QType.SOA
  qname := target
  wildcardname := []
  content := .soa sd
  ttl := sd.ttl
  domain_id := sd.domain_id
  auth := true

namespace TransferServer

variable (S : TransferServer)

/-- A record with its names and its content as texts. -/
def inText (rr : ReplyRR) : TextRR where
  qtype := rr.qtype
  qclass := rr.qclass
  qname := joinDots rr.qname
  wildcardname := joinDots rr.wildcardname
  content := S.content rr.content
  priority := rr.priority
  ttl := rr.ttl
  domain_id := rr.domain_id
  last_modified := rr.last_modified
  d_place := rr.d_place
  auth := rr.auth

/-- What is put into the messages. -/
def zoneTransfer : ZoneTransfer DName RData := outgoingAXFR S.strictRfcAxfrs

/-- The packet that is wrapped up for a message. -/
def packet (p : TransferPacket) : DNSPacket := { p.q with d_rrs := p.rrs.map S.inText }

/-- The messages of a transfer. All but the last have the DO bit, whether the client asked for that or
not. -/
def packets (q : DNSPacket) (soa : ReplyRR) (rows : List ZoneRow) : List TransferPacket :=
  (S.zoneTransfer.transfer soa (rows.map Subtype.val)).map
      (fun rrs => { q := { q with d_tcp := true, d_dnssecOk := true }, rrs := rrs }) ++
    [{ q := { q with d_tcp := true }, rrs := [{ soa with priority := 1234 }] }]

/-- `sendPacket`. -/
def sendPacket (out : WrittenReply) (rrs : List ReplyRR) : SentMessage :=
  let len := UInt16.ofNat out.stringbuffer.length
  { buf := be16 len, octets := out.stringbuffer.take len.toNat, reply := out, rrs := rrs }

/-- `sendPacket` one after the other. When `wrapup` throws, the transfer is over. The writers are given
with the fields that their constructor does not set. -/
def sendPackets (head : ReplyHead) (fields : Nat → Nat × UInt16) : Nat → List TransferPacket →
    List SentMessage
  | _, [] => []
  | i, p :: ps =>
    match S.env.wrapup head (S.packet p) (fields i).1 (fields i).2 with
    | none => []
    | some out => sendPacket out p.rrs :: sendPackets head fields (i + 1) ps

/-- A reply without records, with a code. -/
def refuse (head : ReplyHead) (fields : Nat → Nat × UInt16) (q : DNSPacket) (rcode : UInt8) :
    List SentMessage :=
  S.sendPackets { head with d := { head.d with rcode := rcode } } fields 0
    [{ q := { q with d_tcp := true }, rrs := [] }]

/-- `doAXFR`: what is sent for the zone `target`. The reply packets have `head` in front, and what `q`
has from the query; `sd` is what `getSOA` finds, and `rows` is what `list` and `get` come up with. -/
def doAXFR (head : ReplyHead) (fields : Nat → Nat × UInt16) (q : DNSPacket) (target : DName)
    (canDoAXFR : Bool) (sd : Option SOAData) (rows : Option (List ZoneRow)) : List SentMessage :=
  if !canDoAXFR then S.refuse head fields q 5
  else
    match sd with
    -- 'NOTAUTH'
    | none => S.refuse head fields q 9
    | some sd =>
      match rows with
      -- 'SERVFAIL'
      | none => S.refuse head fields q 2
      | some rows => S.sendPackets head fields 0 (S.packets q (soaRecord target sd) rows)

end TransferServer

/-! ### What is right -/

/-- The names of a zone that have an NSEC record: the owners of authoritative records, and those of
delegations. -/
def ownerNames (rows : List ReplyRR) : List DName :=
  (rows.filter ZoneTransfer.counts).map DNSResourceRecord.qname

/-- The records that are sent between the SOA records, without those of the NSEC chain. -/
def withoutSOA (rows : List ReplyRR) : List ReplyRR := rows.filter fun rr => rr.qtype ≠ QType.SOA

/-- **A closed ring**: the NSEC records have the names for their owners, each name once, and each leads
to the name that comes next in canonical order. -/
structure ClosedRing (names : List DName) (nsecs : List ReplyRR) : Prop where
  types : ∀ rr ∈ nsecs, rr.qtype = QType.NSEC
  owners : points canonicalKey (nsecs.map DNSResourceRecord.qname) = points canonicalKey names
  once : nsecs.Pairwise fun a b => ¬ sameName a.qname b.qname
  next : ∀ rr ∈ nsecs, ∃ nrc, rr.content = .nsec nrc ∧
    IsSucc (points canonicalKey names) (canonicalKey rr.qname) (canonicalKey nrc.d_next)

/-- The question, as it is in front of the records of all messages. -/
def ReplyHead.question (head : ReplyHead) : Octets :=
  ((ReplyEnv.newWriter head 0 0).map fun s => s.writer.records.writer.d_content.drop 12).getD []

namespace TransferServer

variable (S : TransferServer)

/-- A record as the writer gets it. -/
def writtenRR (rr : ReplyRR) : TextRR := written (S.inText rr)

/-- **A message is right**: its length is in front of it, it consists of header, question and records,
with their numbers in the header, and the records that are no signatures are those of the message. -/
structure MessageRight (head : ReplyHead) (m : SentMessage) : Prop where
  length : m.octets.length ≤ 65535
  buf : m.buf = be16 (UInt16.ofNat m.octets.length)
  framed : ReplyEnv.FramedBehind head.question m.octets m.reply.started
  wrote : List.Forall₂ S.env.Wrote m.reply.items m.reply.started
  records : recordsOf m.reply.items = m.rrs.map S.writtenRR

/-- The zone is secured: there is a key for it. -/
def Secured (target : DName) : Prop := S.env.haveKSKFor (joinDots target) = true

/-- **A transfer is right**: all messages are, and together they have the SOA record, the other records
of the zone, a closed ring of NSEC records if and only if the zone is secured, and the SOA record
again. -/
structure StreamRight (head : ReplyHead) (target : DName) (sd : SOAData) (rows : List ZoneRow)
    (ms : List SentMessage) : Prop where
  messages : ∀ m ∈ ms, S.MessageRight head m
  stream : ∃ nsecs, ms.flatMap SentMessage.rrs =
      soaRecord target sd :: withoutSOA (rows.map Subtype.val) ++ nsecs ++
        [{ soaRecord target sd with priority := 1234 }] ∧
    (S.Secured target → ClosedRing (ownerNames (rows.map Subtype.val)) nsecs) ∧
      (¬ S.Secured target → nsecs = [])

/-! ### The condition -/

/-- The writer with everything that is in a message, whatever its length. -/
def whole (head : ReplyHead) (p : DNSPacket) (d_sor : Nat) (d_rollbackmarker : UInt16) :
    Option ReplyRun :=
  (ReplyEnv.newWriter head d_sor d_rollbackmarker).bind fun s =>
    (through (S.env.writeOne p) s (arranged S.env.toWrapupEnv p)).bind (S.env.finish p)

/-- **When a transfer is right.**
* Each of its messages can be written, and has less than 65536 octets.
* All its records have rdata.
* There is more than the SOA record at the end: a record that is not SOA, or one that counts for the
  NSEC chain.
* The zone is secured, or no record counts for the NSEC chain.
* In a secured zone no two of the names in the chain differ in case alone, and the name that follows
  another one octet by octet is the one that follows it in canonical order. -/
structure StreamHolds (head : ReplyHead) (fields : Nat → Nat × UInt16) (q : DNSPacket) (target : DName)
    (sd : SOAData) (rows : List ZoneRow) : Prop where
  fits : ∀ i p, (S.packets q (soaRecord target sd) rows)[i]? = some p →
    ∃ u, S.whole head (S.packet p) (fields i).1 (fields i).2 = some u ∧ u.writer.length < 65536
  rdata : ∀ p ∈ S.packets q (soaRecord target sd) rows, ∀ rr ∈ p.rrs, S.env.HasRdata (S.writtenRR rr)
  something : ∃ rr ∈ rows.map Subtype.val, rr.qtype ≠ QType.SOA ∨ ZoneTransfer.counts rr = true
  secured : S.Secured target ∨ ∀ rr ∈ rows.map Subtype.val, ZoneTransfer.counts rr = false
  ring : S.Secured target → (∀ n ∈ ownerNames (rows.map Subtype.val),
      ∀ m ∈ ownerNames (rows.map Subtype.val), sameName n m → n = m) ∧
    ∀ n ∈ ownerNames (rows.map Subtype.val), ∀ m ∈ ownerNames (rows.map Subtype.val),
      IsSucc (points octetKey (ownerNames (rows.map Subtype.val))) (octetKey n) (octetKey m) →
        IsSucc (points canonicalKey (ownerNames (rows.map Subtype.val))) (canonicalKey n) (canonicalKey m)

end TransferServer

/-! ### What is put into the messages -/

namespace ZoneTransfer

variable {N C : Type} {T : ZoneTransfer N C} {soa rr : DNSResourceRecord N C}
  {packet rows : List (DNSResourceRecord N C)} {count : Nat}

/-- SOA records are skipped. -/
theorem putRows_soa (h : ∀ rr ∈ rows, rr.qtype = QType.SOA) :
    T.putRows packet count rows = ([], packet, count) := by
  induction rows with
  | nil => rfl
  | cons rr rows ih =>
    rw [putRows, if_pos (h rr mem_cons_self)]
    exact ih fun rr' hrr' => h rr' (mem_cons_of_mem _ hrr')

/-- The loop puts the records that are no SOA records into the messages, one after the other. -/
theorem putRows_flatten : (T.putRows packet count rows).1.flatten ++ (T.putRows packet count rows).2.1 =
    packet ++ rows.filter fun rr => rr.qtype ≠ QType.SOA := by
  induction rows generalizing packet count with
  | nil => exact (append_nil packet).symm
  | cons rr rows ih =>
    rw [putRows]
    by_cases hsoa : rr.qtype = QType.SOA
    · rw [if_pos hsoa, ih, filter_cons_of_neg (by simp [hsoa])]
    · rw [if_neg hsoa, filter_cons_of_pos (by simp [hsoa])]
      by_cases hchunk : (count + 1) % T.chunk = 0
      · rw [if_pos hchunk]
        change (packet ++ [rr] ++ (T.putRows [] 0 rows).1.flatten) ++ (T.putRows [] 0 rows).2.1 = _
        rw [append_assoc, ih, nil_append, append_assoc]
        rfl
      · rw [if_neg hchunk, ih, append_assoc]
        rfl

/-- Messages are not empty, and what is counted is in the next one. -/
theorem putRows_count (h : count ≤ packet.length) :
    (∀ m ∈ (T.putRows packet count rows).1, m ≠ []) ∧
      (T.putRows packet count rows).2.2 ≤ (T.putRows packet count rows).2.1.length := by
  induction rows generalizing packet count with
  | nil => exact ⟨forall_mem_nil _, h⟩
  | cons rr rows ih =>
    rw [putRows]
    by_cases hsoa : rr.qtype = QType.SOA
    · rw [if_pos hsoa]
      exact ih h
    · rw [if_neg hsoa]
      by_cases hchunk : (count + 1) % T.chunk = 0
      · rw [if_pos hchunk]
        obtain ⟨hall, hcount⟩ := @ih [] 0 (Nat.le_refl 0)
        refine ⟨forall_mem_cons.mpr ⟨?_, hall⟩, hcount⟩
        exact append_ne_nil_of_right_ne_nil _ (cons_ne_nil _ _)
      · rw [if_neg hchunk]
        refine ih ?_
        rw [length_append]
        exact Nat.succ_le_succ h

/-- When nothing is counted, the next message is empty, or nothing was put anywhere. -/
theorem putRows_rest (h : (T.putRows packet count rows).2.2 = 0) :
    (T.putRows packet count rows).2.1 = [] ∨
      (T.putRows packet count rows).1 = [] ∧ ∀ rr ∈ rows, rr.qtype = QType.SOA := by
  induction rows generalizing packet count with
  | nil => exact .inr ⟨rfl, forall_mem_nil _⟩
  | cons rr rows ih =>
    rw [putRows] at h ⊢
    by_cases hsoa : rr.qtype = QType.SOA
    · rw [if_pos hsoa] at h ⊢
      exact (ih h).imp_right fun hnone => ⟨hnone.1, forall_mem_cons.mpr ⟨hsoa, hnone.2⟩⟩
    · rw [if_neg hsoa] at h ⊢
      by_cases hchunk : (count + 1) % T.chunk = 0
      · rw [if_pos hchunk] at h ⊢
        refine .inl ?_
        rcases ih h with hnil | ⟨hnone, hall⟩
        · exact hnil
        · -- nothing follows, and the next message has just been begun
          have hflatten := @putRows_flatten N C T [] rows 0
          rw [hnone, filter_eq_nil_iff.mpr (fun rr hrr => by simp [hall rr hrr])] at hflatten
          exact hflatten
      · rw [if_neg hchunk] at h ⊢
        rcases ih h with hnil | ⟨hnone, hall⟩
        · exact .inl hnil
        · -- `count` has not been set back, so it is not zero
          rw [putRows_soa hall] at h
          exact absurd h (Nat.succ_ne_zero count)

/-- The messages in front of the last one are not empty. -/
theorem ne_nil_of_mem_transfer : ∀ m ∈ T.transfer soa rows, m ≠ [] := by
  intro m hm
  obtain ⟨hall, hcount⟩ := @putRows_count N C T [soa] rows 0 (Nat.zero_le _)
  rcases mem_append.mp hm with hm | hm
  · exact hall m hm
  · by_cases hsome : (T.putRows [soa] 0 rows).2.2 + (T.nsecRecords rows).length ≠ 0
    · rw [if_pos hsome] at hm
      rw [mem_singleton.mp hm, Ne, append_eq_nil_iff, ← length_eq_zero_iff,
        ← length_eq_zero_iff]
      omega
    · rw [if_neg hsome] at hm
      cases hm

/-- **What is in front of the last message**: the SOA record, the other records, and the NSEC records,
unless there are none of these two. -/
theorem transfer_flatten (h : (∃ rr ∈ rows, rr.qtype ≠ QType.SOA) ∨ T.nsecRecords rows ≠ []) :
    (T.transfer soa rows).flatten =
      soa :: (rows.filter fun rr => rr.qtype ≠ QType.SOA) ++ T.nsecRecords rows := by
  have hflatten := @putRows_flatten N C T [soa] rows 0
  unfold transfer
  rw [flatten_append]
  by_cases hsome : (T.putRows [soa] 0 rows).2.2 + (T.nsecRecords rows).length ≠ 0
  · rw [if_pos hsome, flatten_singleton, ← append_assoc, hflatten]
    rfl
  · rw [if_neg hsome, flatten_nil, append_nil]
    obtain ⟨hcount, hnsecs⟩ := Nat.add_eq_zero_iff.mp (not_not.mp hsome)
    rw [length_eq_zero_iff] at hnsecs
    rw [hnsecs, append_nil]
    rcases putRows_rest hcount with hnil | ⟨-, hall⟩
    · rw [hnil, append_nil] at hflatten
      exact hflatten
    · rcases h with ⟨rr, hrr, hsoa⟩ | hne
      · exact absurd (hall rr hrr) hsoa
      · exact absurd hnsecs hne

/-- Without other records and NSEC records there is only the last message. -/
theorem transfer_eq_nil (h : ∀ rr ∈ rows, rr.qtype = QType.SOA) (hnsecs : T.nsecRecords rows = []) :
    T.transfer soa rows = [] := by
  unfold transfer
  rw [putRows_soa h, hnsecs]
  rfl

/-- The NSEC records have the names of `nsecrepo` for their owners. -/
theorem nsecRecords_names :
    (T.nsecRecords rows).map DNSResourceRecord.qname = (T.nsecrepo rows).items.map Prod.fst := by
  unfold nsecRecords
  cases hlast : rows.getLast? with
  | none =>
    rw [getLast?_eq_none_iff.mp hlast]
    rfl
  | some last =>
    rw [map_zipWith]
    rw [← map_uncurry_zip_eq_zipWith]
    change List.map (Prod.fst ∘ Prod.fst) _ = _
    rw [← map_map, map_fst_zip (by rw [length_rotate])]

/-- NSEC records are answers. -/
theorem nsecRecords_form (h : rr ∈ T.nsecRecords rows) :
    rr.qtype = QType.NSEC ∧ rr.d_place = .ANSWER := by
  unfold nsecRecords at h
  cases hlast : rows.getLast? with
  | none =>
    rw [hlast] at h
    cases h
  | some last =>
    rw [hlast] at h
    dsimp only at h
    rw [← map_uncurry_zip_eq_zipWith] at h
    obtain ⟨⟨e, next⟩, -, rfl⟩ := mem_map.mp h
    exact ⟨rfl, rfl⟩

end ZoneTransfer

/-! ### The ring -/

section Ring

variable {strictRfcAxfrs : Bool} {rows : List ReplyRR}

theorem mem_ownerNames {n : DName} :
    n ∈ ownerNames rows ↔ ∃ rr ∈ rows, ZoneTransfer.counts rr = true ∧ rr.qname = n := by
  unfold ownerNames
  rw [mem_map]
  simp only [mem_filter, and_assoc]

/-- The names in `nsecrepo` are those that have an NSEC record. -/
theorem mem_nsecrepo_names {n : DName} :
    n ∈ ((outgoingAXFR strictRfcAxfrs).nsecrepo rows).items.map Prod.fst ↔ n ∈ ownerNames rows := by
  have hholds := (outgoingAXFR strictRfcAxfrs).nsecrepo_holds (fun _ _ => same_canonicalLess) rows
  rw [mem_ownerNames]
  constructor
  · intro h
    obtain ⟨e, he, rfl⟩ := mem_map.mp h
    exact hholds.owned e he
  · rintro ⟨rr, hrr, hcounts, rfl⟩
    obtain ⟨e, he, hname⟩ := hholds.named rr hrr hcounts
    exact mem_map.mpr ⟨e, he, hname⟩

theorem points_nsecrepo {α : Type*} (key : DName → α) :
    points (fun e : DName × List UInt16 => key e.1)
      ((outgoingAXFR strictRfcAxfrs).nsecrepo rows).items = points key (ownerNames rows) := by
  ext k
  constructor
  · rintro ⟨e, he, rfl⟩
    exact ⟨e.1, mem_nsecrepo_names.mp (mem_map_of_mem he), rfl⟩
  · rintro ⟨n, hn, rfl⟩
    obtain ⟨e, he, rfl⟩ := mem_map.mp ((@mem_nsecrepo_names strictRfcAxfrs rows n).mpr hn)
    exact ⟨e, he, rfl⟩

/-- The owners of the NSEC records are in ascending order, octet by octet. -/
theorem nsecRecords_ascending : ((outgoingAXFR strictRfcAxfrs).nsecRecords rows).Pairwise
    fun a b => octetKey a.qname < octetKey b.qname := by
  have h := @nsecrepo_ascending strictRfcAxfrs rows
  rw [← pairwise_map (f := Prod.fst) (R := fun n m : DName => octetKey n < octetKey m),
    ← ZoneTransfer.nsecRecords_names, pairwise_map] at h
  exact h

theorem mem_nsecRecords_names {n : DName} :
    (∃ rr ∈ (outgoingAXFR strictRfcAxfrs).nsecRecords rows, rr.qname = n) ↔ n ∈ ownerNames rows := by
  rw [← @mem_nsecrepo_names strictRfcAxfrs rows n, ← ZoneTransfer.nsecRecords_names, mem_map]

/-- Without a record that counts there are no NSEC records. -/
theorem nsecRecords_eq_nil_iff : (outgoingAXFR strictRfcAxfrs).nsecRecords rows = [] ↔
    ∀ rr ∈ rows, ZoneTransfer.counts rr = false := by
  constructor
  · intro hnil rr hrr
    by_contra hcounts
    obtain ⟨ns, hns, -⟩ := (@mem_nsecRecords_names strictRfcAxfrs rows rr.qname).mpr
      (mem_ownerNames.mpr ⟨rr, hrr, (Bool.not_eq_false _).mp hcounts, rfl⟩)
    rw [hnil] at hns
    cases hns
  · intro hall
    refine eq_nil_iff_forall_not_mem.mpr fun ns hns => ?_
    obtain ⟨rr, hrr, hcounts, -⟩ := mem_ownerNames.mp (mem_nsecRecords_names.mp ⟨ns, hns, rfl⟩)
    rw [hall rr hrr] at hcounts
    cases hcounts

/-- An NSEC record leads to the name that comes next octet by octet. -/
theorem nsecRecords_next {rr : ReplyRR} (h : rr ∈ (outgoingAXFR strictRfcAxfrs).nsecRecords rows) :
    rr.qtype = QType.NSEC ∧ ∃ nrc, rr.content = .nsec nrc ∧ nrc.d_next ∈ ownerNames rows ∧
      IsSucc (points octetKey (ownerNames rows)) (octetKey rr.qname) (octetKey nrc.d_next) := by
  obtain ⟨e, next, hmem, hname, hcontent⟩ := ZoneTransfer.mem_nsecRecords h
  obtain ⟨-, hnext, hsucc⟩ := isSucc_of_mem_zip_rotate (nsecrepo_ascending rows) hmem
  rw [points_nsecrepo octetKey] at hsucc
  exact ⟨(ZoneTransfer.nsecRecords_form h).1, _, hcontent, mem_nsecrepo_names.mp (mem_map_of_mem hnext), hname ▸ hsucc⟩

/-- **When the NSEC records are a closed ring.** -/
theorem closedRing_iff :
    ClosedRing (ownerNames rows) ((outgoingAXFR strictRfcAxfrs).nsecRecords rows) ↔
      (∀ n ∈ ownerNames rows, ∀ m ∈ ownerNames rows, sameName n m → n = m) ∧
        ∀ n ∈ ownerNames rows, ∀ m ∈ ownerNames rows,
          IsSucc (points octetKey (ownerNames rows)) (octetKey n) (octetKey m) →
            IsSucc (points canonicalKey (ownerNames rows)) (canonicalKey n) (canonicalKey m) := by
  constructor
  · intro hring
    refine ⟨fun n hn m hm hsame => ?_, fun n hn m hm hsucc => ?_⟩
    · obtain ⟨a, ha, rfl⟩ := (@mem_nsecRecords_names strictRfcAxfrs rows n).mpr hn
      obtain ⟨b, hb, rfl⟩ := (@mem_nsecRecords_names strictRfcAxfrs rows m).mpr hm
      have hsymm : Std.Symm fun a b : ReplyRR => ¬ sameName a.qname b.qname :=
        ⟨fun a b h hba => h (Eq.symm hba)⟩
      by_contra hne
      exact hring.once.forall ha hb (fun heq => hne (heq ▸ rfl)) hsame
    · obtain ⟨a, ha, rfl⟩ := (@mem_nsecRecords_names strictRfcAxfrs rows n).mpr hn
      obtain ⟨-, nrc, hcontent, -, hnext⟩ := nsecRecords_next ha
      obtain ⟨nrc', hcontent', hcanonical⟩ := hring.next a ha
      rw [hcontent, RData.nsec.injEq] at hcontent'
      rw [← octetKey_inj.mp (hnext.unique hsucc), hcontent']
      exact hcanonical
  · rintro ⟨honce, hsucc⟩
    refine ⟨fun rr hrr => (nsecRecords_next hrr).1, ?_, ?_, fun rr hrr => ?_⟩
    · rw [ZoneTransfer.nsecRecords_names]
      ext k
      constructor
      · rintro ⟨n, hn, rfl⟩
        exact ⟨n, mem_nsecrepo_names.mp hn, rfl⟩
      · rintro ⟨n, hn, rfl⟩
        exact ⟨n, mem_nsecrepo_names.mpr hn, rfl⟩
    · refine nsecRecords_ascending.imp_of_mem fun {a b} ha hb hlt hsame => ?_
      have heq := honce _ (mem_nsecRecords_names.mp ⟨a, ha, rfl⟩) _
        (mem_nsecRecords_names.mp ⟨b, hb, rfl⟩) hsame
      rw [heq] at hlt
      exact lt_irrefl _ hlt
    · obtain ⟨-, nrc, hcontent, hmem, hnext⟩ := nsecRecords_next hrr
      exact ⟨nrc, hcontent, hsucc _ (mem_nsecRecords_names.mp ⟨rr, hrr, rfl⟩) _ hmem hnext⟩

/-- Names in lower case have one order. -/
theorem closedRing_of_lower (h : ∀ n ∈ ownerNames rows, lowerLabels n = n) :
    ClosedRing (ownerNames rows) ((outgoingAXFR strictRfcAxfrs).nsecRecords rows) := by
  refine closedRing_iff.mpr ⟨fun n hn m hm hsame => ?_, fun n hn m hm hsucc => ?_⟩
  · rw [← h n hn, ← h m hm]
    exact hsame
  · have hpoints : points canonicalKey (ownerNames rows) = points octetKey (ownerNames rows) := by
      ext k
      constructor
      · rintro ⟨n, hn, rfl⟩
        exact ⟨n, hn, octetKey_eq_canonicalKey (h n hn)⟩
      · rintro ⟨n, hn, rfl⟩
        exact ⟨n, hn, (octetKey_eq_canonicalKey (h n hn)).symm⟩
    rw [hpoints, ← octetKey_eq_canonicalKey (h n hn), ← octetKey_eq_canonicalKey (h m hm)]
    exact hsucc

end Ring

/-! ### One message -/

namespace TransferServer

section Message

open ReplyEnv

variable {S : TransferServer} {head : ReplyHead} {p : DNSPacket} {d_sor : Nat} {d_rollbackmarker : UInt16}
  {s u : ReplyRun} {rrs : List ReplyRR}

/-- The octets that the constructor writes do not depend on what it leaves as it was. -/
theorem create_d_sor (qname : Octets) (qtype qclass : UInt16) (opcode : UInt8) (d_sor : Nat) :
    DNSPacketWriter.create qname qtype qclass opcode d_sor =
      (DNSPacketWriter.create qname qtype qclass opcode 0).map fun w => { w with d_sor } := by
  unfold DNSPacketWriter.create DNSPacketWriter.xfrLabel
  by_cases hdot : qname = [dot]
  · rw [if_pos hdot, if_pos hdot]
    rfl
  · rw [if_neg hdot, if_neg hdot]
    change Option.bind (Option.map _ (xfrParts qname _ _ false _ 12 [] [])) _ =
      Option.map _ (Option.bind (Option.map _ (xfrParts qname _ _ false _ 12 [] [])) _)
    cases xfrParts qname (qname.getLast? == some dot) (labeltokUnescape qname).2 false
      (labeltokUnescape qname).1 12 [] [] <;> rfl

/-- All messages have the same question. -/
theorem newWriter_question (hs : newWriter head d_sor d_rollbackmarker = some s) :
    Fresh 0 head.question s.writer ∧ s.items = [] := by
  obtain ⟨hfresh, hempty⟩ := newWriter_fresh hs
  have hquestion : s.writer.records.writer.d_content.drop 12 = head.question := by
    unfold newWriter at hs
    rw [create_d_sor] at hs
    unfold ReplyHead.question newWriter
    cases hw : DNSPacketWriter.create head.qdomain head.qtype head.qclass 0 0 with
    | none =>
      rw [hw] at hs
      cases hs
    | some w =>
      rw [hw] at hs
      rw [← Option.some.inj hs]
      rfl
  exact ⟨hquestion ▸ hfresh, hempty⟩

/-- Over TCP nothing is looked at. -/
theorem wrapup_tcp (htcp : p.d_tcp = true) (hrrs : p.d_rrs ≠ []) :
    S.env.wrapup head p d_sor d_rollbackmarker =
      (S.whole head p d_sor d_rollbackmarker).map fun u => reply head.d u false := by
  have hnever : ∀ t, stops p t = false := by
    intro t
    unfold stops
    rw [htcp]
    rfl
  unfold ReplyEnv.wrapup whole
  cases hs : newWriter head d_sor d_rollbackmarker with
  | none => rfl
  | some s =>
    have hwritten : S.env.writeAll p s =
        ((through (S.env.writeOne p) s (arranged S.env.toWrapupEnv p)).bind (S.env.finish p)).map
          fun u => (u, false) := by
      unfold ReplyEnv.writeAll
      rw [if_neg (fun h => hrrs h.1), writeRecords_eq, runUntil_of_never hnever, Option.bind_map,
        Option.map_bind]
      rfl
    change (S.env.writeAll p s).bind _ = Option.map _ (Option.bind _ _)
    rw [hwritten, Option.bind_map, Option.map_eq_bind]
    rfl

/-- Over TCP, records of one section are left in their order. -/
theorem arranged_tcp (htcp : p.d_tcp = true) (hplaces : ∀ rr ∈ p.d_rrs, rr.d_place = .ANSWER) :
    arranged S.env.toWrapupEnv p = p.d_rrs.map written := by
  have hsorted : sortSections p.d_rrs = p.d_rrs := by
    refine List.Pairwise.insertionSort_eq ?_
    refine pairwise_of_forall_mem_list fun a ha b hb => ?_
    rw [hplaces a ha, hplaces b hb]
  unfold arranged
  rw [htcp, hsorted]
  rfl

/-- **What the writer comes to** with everything that is in a message. -/
theorem whole_spec (hrrs : p.d_rrs ≠ []) (hwhole : S.whole head p d_sor d_rollbackmarker = some u) :
    ∃ front r, u.writer.records.started = front ++ [r] ∧
      List.Forall₂ S.env.Wrote u.items u.writer.records.started ∧
      recordsOf u.items = arranged S.env.toWrapupEnv p ∧
      u.writer.records.writer.d_content.length = u.writer.length ∧
      ((∀ r' ∈ front, r'.rdata ≠ []) → u.writer.records.writer.d_content =
        layout 0 head.question (front ++ [r])) ∧
      ((∃ r' ∈ front, r'.rdata = []) → u.writer.records.writer.d_content.length <
        (layout 0 head.question (front ++ [r])).length) ∧
      ((∀ r' ∈ front, r'.rdata ≠ []) ↔ ∀ kept rr rest,
        arranged S.env.toWrapupEnv p = kept ++ rr :: rest →
          rest ≠ [] ∨ optItems S.env.toWrapupEnv p ≠ [] → S.env.HasRdata rr) := by
  obtain ⟨s, hs, hwhole⟩ := Option.bind_eq_some_iff.mp hwhole
  obtain ⟨t, ht, hu⟩ := Option.bind_eq_some_iff.mp hwhole
  obtain ⟨hfresh, hempty⟩ := newWriter_question hs
  have harranged : arranged S.env.toWrapupEnv p ≠ [] := fun h => hrrs (arranged_eq_nil.mp h)
  obtain ⟨v, front, r, before, hopened, hcommit, hwrote, hrecords, -, hrdata⟩ :=
    finish_opened (sound_of_fresh hfresh hempty) hempty (.inl harranged) ht hu
  have hlength := commit_length hopened hcommit
  obtain ⟨w, hw, -, hwlength, hclean, hshort⟩ := hopened.commit
  obtain ⟨writer, hwriter, rfl⟩ := Option.map_eq_some_iff.mp hcommit
  obtain ⟨w', hw', rfl⟩ := Option.map_eq_some_iff.mp hwriter
  obtain rfl := Option.some.inj (hw.symm.trans hw')
  have hstarted : v.writer.records.started = front ++ [r] := hopened.started
  refine ⟨front, r, hstarted, ?_, hrecords, hwlength.trans hlength.symm, hclean, hshort, hrdata⟩
  rw [hstarted]
  exact hwrote

/-- Two octets are the length of what is behind them. -/
theorem sendPacket_length (out : WrittenReply) (rrs : List ReplyRR) :
    (sendPacket out rrs).octets.length = out.stringbuffer.length % 65536 := by
  change (out.stringbuffer.take (UInt16.ofNat out.stringbuffer.length).toNat).length = _
  rw [UInt16.toNat_ofNat', length_take]
  exact Nat.min_eq_left (Nat.mod_le _ _)

/-- **When a message is right**: it has less than 65536 octets, and all records that something follows
have rdata. -/
theorem messageRight_iff (htcp : p.d_tcp = true) (hd_rrs : p.d_rrs = rrs.map S.inText)
    (hrrs : rrs ≠ []) (hplaces : ∀ rr ∈ rrs, rr.d_place = .ANSWER)
    (hwhole : S.whole head p d_sor d_rollbackmarker = some u) :
    S.MessageRight head (sendPacket (reply head.d u false) rrs) ↔
      u.writer.length < 65536 ∧ ∀ kept rr rest, rrs.map S.writtenRR = kept ++ rr :: rest →
        rest ≠ [] ∨ optItems S.env.toWrapupEnv p ≠ [] → S.env.HasRdata rr := by
  have hne : p.d_rrs ≠ [] := by
    rw [hd_rrs]
    exact fun h => hrrs (map_eq_nil_iff.mp h)
  have harranged : arranged S.env.toWrapupEnv p = rrs.map S.writtenRR := by
    rw [arranged_tcp htcp, hd_rrs, map_map]
    · rfl
    · intro rr hrr
      rw [hd_rrs] at hrr
      obtain ⟨rr', hrr', rfl⟩ := mem_map.mp hrr
      exact hplaces rr' hrr'
  obtain ⟨front, r, hstarted, hwrote, hrecords, hlength, hclean, hshort, hrdata⟩ := whole_spec hne hwhole
  rw [harranged] at hrecords hrdata
  rw [← hrdata]
  obtain ⟨hbuffer, hframed, -⟩ := reply_spec head.question u.writer.records.started head.d u false
  rw [hlength] at hbuffer
  have hoctets := sendPacket_length (reply head.d u false) rrs
  constructor
  · intro hright
    have heq := hright.framed.length_eq
    change _ = (layout 0 head.question u.writer.records.started).length at heq
    have hall : ∀ r' ∈ front, r'.rdata ≠ [] := by
      intro r' hr' hnil
      have hless := hshort ⟨r', hr', hnil⟩
      rw [← hstarted] at hless
      omega
    have hsame := congrArg List.length (hclean hall)
    rw [← hstarted] at hsame
    exact ⟨by omega, hall⟩
  · rintro ⟨hsmall, hall⟩
    have hmod := Nat.mod_eq_of_lt hsmall
    have hwholebuffer : (sendPacket (reply head.d u false) rrs).octets =
        (reply head.d u false).stringbuffer := by
      change (reply head.d u false).stringbuffer.take
        (UInt16.ofNat (reply head.d u false).stringbuffer.length).toNat = _
      rw [UInt16.toNat_ofNat', hbuffer, hmod, ← hbuffer, take_length]
    refine ⟨?_, ?_, ?_, hwrote, hrecords⟩
    · rw [hoctets]
      omega
    · rw [hwholebuffer]
      rfl
    · rw [hwholebuffer]
      refine hframed.mpr ?_
      rw [hclean hall, hstarted]
      refine framedBehind_layout ?_
      rw [← hclean hall, hlength]
      exact hsmall

end Message

/-! ### All messages -/

section Stream

variable {S : TransferServer} {head : ReplyHead} {fields : Nat → Nat × UInt16} {q : DNSPacket}
  {target : DName} {sd : SOAData} {rows : List ZoneRow}

/-- **How a transfer goes**: all messages are sent, or one cannot be written and there are none from
there on. -/
theorem sendPackets_cases (ps : List TransferPacket) (i : Nat) :
    (S.sendPackets head fields i ps).map SentMessage.rrs = ps.map TransferPacket.rrs ∧
        (∀ k p, ps[k]? = some p → ∃ out, S.env.wrapup head (S.packet p) (fields (i + k)).1
          (fields (i + k)).2 = some out ∧ sendPacket out p.rrs ∈ S.sendPackets head fields i ps) ∨
      (S.sendPackets head fields i ps).map SentMessage.rrs <+: (ps.map TransferPacket.rrs).dropLast ∧
        ∃ k p, ps[k]? = some p ∧
          S.env.wrapup head (S.packet p) (fields (i + k)).1 (fields (i + k)).2 = none := by
  induction ps generalizing i with
  | nil => exact .inl ⟨rfl, fun k p hp => absurd hp (by simp)⟩
  | cons p ps ih =>
    rw [sendPackets]
    cases hout : S.env.wrapup head (S.packet p) (fields i).1 (fields i).2 with
    | none => exact .inr ⟨ nil_prefix, 0, p, rfl, hout⟩
    | some out =>
      rcases ih (i + 1) with ⟨hrrs, hsent⟩ | ⟨hfront, k, p', hp', hnone⟩
      · refine .inl ⟨congrArg (p.rrs :: ·) hrrs, fun k p' hp' => ?_⟩
        cases k with
        | zero =>
          obtain rfl : p = p' := Option.some.inj hp'
          exact ⟨out, hout, mem_cons_self⟩
        | succ k =>
          obtain ⟨out', hout', hmem⟩ := hsent k p' hp'
          rw [Nat.add_assoc, Nat.add_comm 1] at hout'
          exact ⟨out', hout', mem_cons_of_mem _ hmem⟩
      · refine .inr ⟨?_, k + 1, p', hp', ?_⟩
        · have hne : ps.map TransferPacket.rrs ≠ [] := by
            rintro hnil
            rw [map_eq_nil_iff.mp hnil] at hp'
            cases hp'
          rw [map_cons, map_cons, dropLast_cons_of_ne_nil hne]
          exact cons_prefix_cons.mpr ⟨rfl, hfront⟩
        · rw [Nat.add_assoc, Nat.add_comm 1] at hnone
          exact hnone

/-- A message that is sent was wrapped up from a packet. -/
theorem mem_sendPackets {ps : List TransferPacket} {i : Nat} {m : SentMessage}
    (hm : m ∈ S.sendPackets head fields i ps) : ∃ k p out, ps[k]? = some p ∧
      S.env.wrapup head (S.packet p) (fields (i + k)).1 (fields (i + k)).2 = some out ∧
        m = sendPacket out p.rrs := by
  induction ps generalizing i with
  | nil => cases hm
  | cons p ps ih =>
    rw [sendPackets] at hm
    cases hout : S.env.wrapup head (S.packet p) (fields i).1 (fields i).2 with
    | none =>
      rw [hout] at hm
      cases hm
    | some out =>
      rw [hout] at hm
      rcases mem_cons.mp hm with rfl | hm
      · exact ⟨0, p, out, rfl, hout, rfl⟩
      · obtain ⟨k, p', out', hp', hout', rfl⟩ := ih hm
        rw [Nat.add_assoc, Nat.add_comm 1] at hout'
        exact ⟨k + 1, p', out', hp', hout', rfl⟩

theorem packets_rrs : (S.packets q (soaRecord target sd) rows).map TransferPacket.rrs =
    S.zoneTransfer.transfer (soaRecord target sd) (rows.map Subtype.val) ++
      [[{ soaRecord target sd with priority := 1234 }]] := by
  unfold packets
  rw [map_append, map_map]
  exact congrArg (· ++ _) (map_id _)

/-- What is in front of the last message is there: the SOA record, other records of the zone, and NSEC
records. -/
theorem mem_transfer {m : List ReplyRR} {rr : ReplyRR}
    (hm : m ∈ S.zoneTransfer.transfer (soaRecord target sd) (rows.map Subtype.val)) (hrr : rr ∈ m) :
    rr = soaRecord target sd ∨ rr.qtype ≠ QType.SOA ∧ rr.d_place = .ANSWER := by
  by_cases hsomething : (∃ rr ∈ rows.map Subtype.val, rr.qtype ≠ QType.SOA) ∨
      S.zoneTransfer.nsecRecords (rows.map Subtype.val) ≠ []
  · have hmem := mem_flatten.mpr ⟨m, hm, hrr⟩
    rw [ZoneTransfer.transfer_flatten hsomething] at hmem
    rcases mem_append.mp hmem with hmem | hmem
    · rcases mem_cons.mp hmem with rfl | hmem
      · exact .inl rfl
      · obtain ⟨hrow, hsoa⟩ := mem_filter.mp hmem
        obtain ⟨row, -, rfl⟩ := mem_map.mp hrow
        exact .inr ⟨of_decide_eq_true hsoa, row.property⟩
    · obtain ⟨htype, hplace⟩ := ZoneTransfer.nsecRecords_form hmem
      exact .inr ⟨fun h => absurd (htype.symm.trans h) (by decide), hplace⟩
  · obtain ⟨hrows, hnsecs⟩ := not_or.mp hsomething
    rw [ZoneTransfer.transfer_eq_nil (by push Not at hrows; exact hrows) (not_not.mp hnsecs)] at hm
    cases hm

/-- In front of the last message, all packets have an OPT record behind the others. -/
theorem packet_of_transfer {rrs : List ReplyRR}
    (hrrs : rrs ∈ S.zoneTransfer.transfer (soaRecord target sd) (rows.map Subtype.val)) :
    ∃ p ∈ S.packets q (soaRecord target sd) rows,
      p.rrs = rrs ∧ optItems S.env.toWrapupEnv (S.packet p) ≠ [] := by
  refine ⟨_, mem_append_left _ (mem_map_of_mem hrrs), rfl, ?_⟩
  have hdnssecOk : ∀ p : DNSPacket, p.d_dnssecOk = true → optItems S.env.toWrapupEnv p ≠ [] := by
    intro p hp
    unfold optItems
    rw [if_pos (.inr hp)]
    exact cons_ne_nil _ _
  exact hdnssecOk _ rfl

/-- What a packet of a transfer is. -/
theorem mem_packets {p : TransferPacket} (hp : p ∈ S.packets q (soaRecord target sd) rows) :
    (S.packet p).d_tcp = true ∧ p.rrs ≠ [] ∧ (∀ rr ∈ p.rrs, rr.d_place = .ANSWER) ∧
      (p.rrs ∈ S.zoneTransfer.transfer (soaRecord target sd) (rows.map Subtype.val) ∨
        p.rrs = [{ soaRecord target sd with priority := 1234 }]) := by
  rcases mem_append.mp hp with hp | hp
  · obtain ⟨rrs, hrrs, rfl⟩ := mem_map.mp hp
    refine ⟨rfl, ZoneTransfer.ne_nil_of_mem_transfer rrs hrrs, fun rr hrr => ?_, .inl hrrs⟩
    rcases mem_transfer hrrs hrr with rfl | ⟨-, hplace⟩
    · rfl
    · exact hplace
  · rw [mem_singleton.mp hp]
    refine ⟨rfl, cons_ne_nil _ _, fun rr hrr => ?_, .inr rfl⟩
    rw [mem_singleton.mp hrr]
    rfl

/-- **A packet that is sent**: whether the message is right depends on its length and on the records that
something follows. -/
theorem sent_packet_iff {p : TransferPacket} (hp : p ∈ S.packets q (soaRecord target sd) rows)
    {d_sor : Nat} {d_rollbackmarker : UInt16} {out : WrittenReply}
    (hout : S.env.wrapup head (S.packet p) d_sor d_rollbackmarker = some out) :
    ∃ u, S.whole head (S.packet p) d_sor d_rollbackmarker = some u ∧
      (S.MessageRight head (sendPacket out p.rrs) ↔ u.writer.length < 65536 ∧
        ∀ kept rr rest, p.rrs.map S.writtenRR = kept ++ rr :: rest →
          rest ≠ [] ∨ optItems S.env.toWrapupEnv (S.packet p) ≠ [] → S.env.HasRdata rr) := by
  obtain ⟨htcp, hne, hplaces, -⟩ := mem_packets hp
  rw [wrapup_tcp htcp (fun h => hne (map_eq_nil_iff.mp h))] at hout
  obtain ⟨u, hu, rfl⟩ := Option.map_eq_some_iff.mp hout
  exact ⟨u, hu, messageRight_iff htcp rfl hne hplaces hu⟩

/-- The record that is sent last is nowhere else. -/
theorem all_sent (hlast : { soaRecord target sd with priority := 1234 } ∈
    (S.sendPackets head fields 0 (S.packets q (soaRecord target sd) rows)).flatMap SentMessage.rrs) :
    (S.sendPackets head fields 0 (S.packets q (soaRecord target sd) rows)).map SentMessage.rrs =
        (S.packets q (soaRecord target sd) rows).map TransferPacket.rrs ∧
      ∀ k p, (S.packets q (soaRecord target sd) rows)[k]? = some p →
        ∃ out, S.env.wrapup head (S.packet p) (fields k).1 (fields k).2 = some out ∧
          sendPacket out p.rrs ∈
            S.sendPackets head fields 0 (S.packets q (soaRecord target sd) rows) := by
  rcases @sendPackets_cases S head fields (S.packets q (soaRecord target sd) rows) 0 with
    ⟨hrrs, hsent⟩ | ⟨hfront, -⟩
  · refine ⟨hrrs, fun k p hp => ?_⟩
    obtain ⟨out, hout, hmem⟩ := hsent k p hp
    rw [Nat.zero_add] at hout
    exact ⟨out, hout, hmem⟩
  · rw [packets_rrs, dropLast_concat] at hfront
    obtain ⟨m, hm, hrr⟩ := mem_flatMap.mp hlast
    have hmem := hfront.subset (mem_map_of_mem hm)
    rcases mem_transfer hmem hrr with heq | ⟨hsoa, -⟩
    · have hpriority := congrArg DNSResourceRecord.priority heq
      exact absurd hpriority (by decide : (1234 : UInt16) ≠ 0)
    · exact absurd rfl hsoa

/-- The messages together, when all are sent. -/
theorem stream_of_all {ms : List SentMessage}
    (hrrs : ms.map SentMessage.rrs = (S.packets q (soaRecord target sd) rows).map TransferPacket.rrs) :
    ms.flatMap SentMessage.rrs =
      (S.zoneTransfer.transfer (soaRecord target sd) (rows.map Subtype.val)).flatten ++
        [{ soaRecord target sd with priority := 1234 }] := by
  rw [flatMap_def, hrrs, packets_rrs, flatten_append]
  rfl

/-- What is in front of the last message, when there is more than that. -/
theorem transfer_stream (hsomething : ∃ rr ∈ rows.map Subtype.val,
    rr.qtype ≠ QType.SOA ∨ ZoneTransfer.counts rr = true) :
    (S.zoneTransfer.transfer (soaRecord target sd) (rows.map Subtype.val)).flatten =
      soaRecord target sd :: withoutSOA (rows.map Subtype.val) ++
        S.zoneTransfer.nsecRecords (rows.map Subtype.val) := by
  refine ZoneTransfer.transfer_flatten ?_
  obtain ⟨rr, hrr, hsoa | hcounts⟩ := hsomething
  · exact .inl ⟨rr, hrr, hsoa⟩
  · refine .inr fun hnil => ?_
    rw [nsecRecords_eq_nil_iff.mp hnil rr hrr] at hcounts
    cases hcounts

/-- The record that is sent last has the rdata of the first. -/
theorem rdata_of_front (hsomething : ∃ rr ∈ rows.map Subtype.val,
      rr.qtype ≠ QType.SOA ∨ ZoneTransfer.counts rr = true)
    (hfront : ∀ p ∈ S.packets q (soaRecord target sd) rows,
      optItems S.env.toWrapupEnv (S.packet p) ≠ [] → ∀ rr ∈ p.rrs, S.env.HasRdata (S.writtenRR rr)) :
    ∀ p ∈ S.packets q (soaRecord target sd) rows, ∀ rr ∈ p.rrs, S.env.HasRdata (S.writtenRR rr) := by
  intro p hp rr hrr
  obtain ⟨-, -, -, hmem | hlast⟩ := mem_packets hp
  · obtain ⟨p', hp', hsame, hopt⟩ := packet_of_transfer (q := q) hmem
    rw [← hsame] at hrr
    exact hfront p' hp' hopt rr hrr
  · have hsoa : soaRecord target sd ∈
        (S.zoneTransfer.transfer (soaRecord target sd) (rows.map Subtype.val)).flatten := by
      rw [transfer_stream hsomething]
      exact mem_append_left _ mem_cons_self
    obtain ⟨rrs, hrrs, hmem⟩ := mem_flatten.mp hsoa
    obtain ⟨p', hp', rfl, hopt⟩ := packet_of_transfer (q := q) hrrs
    rw [hlast] at hrr
    rw [mem_singleton.mp hrr]
    exact hfront p' hp' hopt (soaRecord target sd) hmem

/-- **When transfers are right**: for every zone, with any records, keys and contents. -/
theorem stream_right_iff (S : TransferServer) (head : ReplyHead) (fields : Nat → Nat × UInt16)
    (q : DNSPacket) (target : DName) (sd : SOAData) (rows : List ZoneRow) :
    S.StreamRight head target sd rows (S.doAXFR head fields q target true (some sd) (some rows)) ↔
      S.StreamHolds head fields q target sd rows := by
  change S.StreamRight head target sd rows
    (S.sendPackets head fields 0 (S.packets q (soaRecord target sd) rows)) ↔ _
  constructor
  · rintro ⟨hmessages, nsecs, hstream, hsecured, hunsecured⟩
    have hlast : { soaRecord target sd with priority := 1234 } ∈
        (S.sendPackets head fields 0 (S.packets q (soaRecord target sd) rows)).flatMap
          SentMessage.rrs := by
      rw [hstream]
      exact mem_append_right _ mem_cons_self
    obtain ⟨hrrs, hsent⟩ := all_sent hlast
    rw [stream_of_all hrrs] at hstream
    replace hstream := append_cancel_right hstream
    have hsomething : ∃ rr ∈ rows.map Subtype.val,
        rr.qtype ≠ QType.SOA ∨ ZoneTransfer.counts rr = true := by
      by_contra hnone
      push Not at hnone
      rw [ZoneTransfer.transfer_eq_nil (T := S.zoneTransfer) (fun rr hrr => (hnone rr hrr).1)
        (nsecRecords_eq_nil_iff.mpr fun rr hrr => Bool.eq_false_iff.mpr (hnone rr hrr).2)] at hstream
      cases hstream
    rw [transfer_stream hsomething] at hstream
    have hnsecs := append_cancel_left hstream
    have hfits : ∀ k p, (S.packets q (soaRecord target sd) rows)[k]? = some p →
        ∃ u, S.whole head (S.packet p) (fields k).1 (fields k).2 = some u ∧
          u.writer.length < 65536 ∧ ∀ kept rr rest, p.rrs.map S.writtenRR = kept ++ rr :: rest →
            rest ≠ [] ∨ optItems S.env.toWrapupEnv (S.packet p) ≠ [] → S.env.HasRdata rr := by
      intro k p hp
      obtain ⟨out, hout, hmem⟩ := hsent k p hp
      obtain ⟨u, hu, hright⟩ := sent_packet_iff (mem_of_getElem? hp) hout
      exact ⟨u, hu, hright.mp (hmessages _ hmem)⟩
    refine ⟨fun k p hp => ?_, rdata_of_front hsomething fun p hp hopt rr hrr => ?_, hsomething, ?_, ?_⟩
    · obtain ⟨u, hu, hsmall, -⟩ := hfits k p hp
      exact ⟨u, hu, hsmall⟩
    · -- behind the records there is an OPT record
      obtain ⟨k, hk⟩ := mem_iff_getElem?.mp hp
      obtain ⟨u, -, -, hrdata⟩ := hfits k p hk
      obtain ⟨kept, rest, hsplit⟩ := append_of_mem hrr
      refine hrdata (kept.map S.writtenRR) _ (rest.map S.writtenRR) ?_ (.inr hopt)
      rw [hsplit, map_append, map_cons]
    · by_cases hkey : S.Secured target
      · exact .inl hkey
      · exact .inr (nsecRecords_eq_nil_iff.mp (hnsecs.trans (hunsecured hkey)))
    · intro hkey
      have hring := hsecured hkey
      rw [← hnsecs] at hring
      exact closedRing_iff.mp hring
  · intro hholds
    have hright : ∀ k p, (S.packets q (soaRecord target sd) rows)[k]? = some p →
        ∀ out, S.env.wrapup head (S.packet p) (fields k).1 (fields k).2 = some out →
          S.MessageRight head (sendPacket out p.rrs) := by
      intro k p hp out hout
      obtain ⟨u, hu, hright⟩ := sent_packet_iff (mem_of_getElem? hp) hout
      obtain ⟨u', hu', hsmall⟩ := hholds.fits k p hp
      obtain rfl := Option.some.inj (hu.symm.trans hu')
      refine hright.mpr ⟨hsmall, fun kept rr rest hsplit _ => ?_⟩
      have hmem : rr ∈ p.rrs.map S.writtenRR := by
        rw [hsplit]
        exact mem_append_right _ mem_cons_self
      obtain ⟨rr', hrr', rfl⟩ := mem_map.mp hmem
      exact hholds.rdata p (mem_of_getElem? hp) rr' hrr'
    refine ⟨fun m hm => ?_, S.zoneTransfer.nsecRecords (rows.map Subtype.val), ?_, fun hkey => ?_,
      fun hkey => ?_⟩
    · obtain ⟨k, p, out, hp, hout, rfl⟩ := mem_sendPackets hm
      rw [Nat.zero_add] at hout
      exact hright k p hp out hout
    · rcases @sendPackets_cases S head fields (S.packets q (soaRecord target sd) rows) 0 with
        ⟨hrrs, -⟩ | ⟨-, k, p, hp, hnone⟩
      · rw [stream_of_all hrrs, transfer_stream hholds.something]
      · rw [Nat.zero_add] at hnone
        obtain ⟨htcp, hne, -, -⟩ := mem_packets (mem_of_getElem? hp)
        obtain ⟨u, hu, -⟩ := hholds.fits k p hp
        rw [wrapup_tcp htcp (fun h => hne (map_eq_nil_iff.mp h)), hu] at hnone
        cases hnone
    · exact closedRing_iff.mpr (hholds.ring hkey)
    · exact nsecRecords_eq_nil_iff.mpr (hholds.secured.resolve_left hkey)

end Stream

/-! ### A zone with an address -/

/-- The server has a key for `a`, and for no other zone. -/
def keyedServer : TransferServer where
  env := ReplyEnv.keyedEnv
  content := fun _ => ascii "192.0.2.1"
  strictRfcAxfrs := false

/-- The header and the question of a transfer of `zone`. -/
def transferHead (zone : DName) : ReplyHead where
  d := { id := 0x1235 }
  qdomain := joinDots zone
  qtype := 252
  qclass := 1

def transferQuery : DNSPacket where
  d_tcp := true
  d_dnssecOk := false
  d_maxreplylen := 65535
  d_rrs := []

def zoneSOA (zone : DName) : SOAData where
  qname := zone
  content := []
  ttl := 3600
  domain_id := 1

/-- The zone has one record, its address. -/
def addressRows (zone : DName) : List ZoneRow :=
  [⟨{ qtype := QType.A, qname := zone, wildcardname := [], content := .text (ascii "192.0.2.1"),
      ttl := 3600, domain_id := 1, auth := true }, rfl⟩]

/-- A zone with a key. -/
theorem keyed_zone_right : keyedServer.StreamRight (transferHead [ascii "a"]) [ascii "a"]
    (zoneSOA [ascii "a"]) (addressRows [ascii "a"])
    (keyedServer.doAXFR (transferHead [ascii "a"]) (fun _ => (0, 0)) transferQuery [ascii "a"] true
      (some (zoneSOA [ascii "a"])) (some (addressRows [ascii "a"]))) := by
  refine (stream_right_iff keyedServer _ _ _ _ _ _).mpr ⟨?_, ?_, ?_, ?_, ?_⟩
  · have hsmall : ∀ p ∈ keyedServer.packets transferQuery (soaRecord [ascii "a"] (zoneSOA [ascii "a"]))
        (addressRows [ascii "a"]), ((keyedServer.whole (transferHead [ascii "a"])
          (keyedServer.packet p) 0 0).map fun u => decide (u.writer.length < 65536)) = some true := by
      decide +kernel
    intro i p hp
    obtain ⟨u, hu, hlength⟩ := Option.map_eq_some_iff.mp (hsmall p (mem_of_getElem? hp))
    exact ⟨u, hu, of_decide_eq_true hlength⟩
  · intro p _ rr _
    change ¬ Silent [.xfrBlob [192, 0, 2, 1]]
    decide
  · exact ⟨_, mem_cons_self, .inr rfl⟩
  · exact .inl (by unfold Secured; decide)
  · intro _
    refine (@closedRing_iff false _).mp (closedRing_of_lower ?_)
    decide

/-- **A zone without keys**: one address, and there is an NSEC record. -/
theorem unsecured_zone_has_nsec : ¬ keyedServer.Secured [ascii "b"] ∧
    ¬ keyedServer.StreamRight (transferHead [ascii "b"]) [ascii "b"]
      (zoneSOA [ascii "b"]) (addressRows [ascii "b"])
      (keyedServer.doAXFR (transferHead [ascii "b"]) (fun _ => (0, 0)) transferQuery [ascii "b"] true
        (some (zoneSOA [ascii "b"])) (some (addressRows [ascii "b"]))) := by
  have hunsecured : ¬ keyedServer.Secured [ascii "b"] := by
    unfold Secured
    decide
  refine ⟨hunsecured, fun hright => ?_⟩
  obtain ⟨nsecs, hstream, -, hnone⟩ := hright.stream
  have htypes : ((keyedServer.doAXFR (transferHead [ascii "b"]) (fun _ => (0, 0)) transferQuery
      [ascii "b"] true (some (zoneSOA [ascii "b"])) (some (addressRows [ascii "b"]))).flatMap
        SentMessage.rrs).map (fun rr => rr.qtype) =
          [QType.SOA, QType.A, QType.NSEC, QType.SOA] := by
    decide
  rw [hstream, hnone hunsecured] at htypes
  exact absurd htypes (by decide)

end TransferServer

end PowerDNS
