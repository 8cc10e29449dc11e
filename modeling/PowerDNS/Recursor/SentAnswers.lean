import PowerDNS.Lib.StoppedRun
import PowerDNS.Packet.FramedWriting
import PowerDNS.Packet.Framing
import PowerDNS.Recursor.StoredAnswers

/-!
# The reply that is sent: `startDoResolve`

`startDoResolve` writes the records one after the other. Over UDP it stops at the first one that
makes the packet larger than `maxudpsize`, rolls it back, and sets TC if it is one of the answer
section. Over TCP it writes all of them, and puts the length of the packet in two octets in front.

The size that is looked at is a number of 16 bits, and what an OPT record allows is raised to 1280
octets. A record without rdata is not committed when another one is started. And whether TC is set
depends on the first record that is left out alone. `sent_right_iff` says which answers come out
right.
-/

namespace PowerDNS

open ResponseRun List Option

/-! ### The code -/

/-- A record that was found; it is in one of the three sections that a reply has. -/
abbrev FoundRR := { rr : TextRR // rr.d_place ≠ .QUESTION }

/-- `(DNSPacketWriter::Place)i->d_place`. -/
def FoundRR.place (i : FoundRR) : WriterPlace :=
  match h : i.1.d_place with
  | .QUESTION => absurd h i.2
  | .ANSWER => .ANSWER
  | .AUTHORITY => .AUTHORITY
  | .ADDITIONAL => .ADDITIONAL

namespace SentAnswer

/-- What `mastermake` and `toPacket` do with the content of a record of a type and class. -/
abbrev ContentCalls := UInt16 → UInt16 → Octets → List RdataCall

/-- A record as it is written. -/
def recordCalls (content : ContentCalls) (i : FoundRR) : RecordCalls where
  qname := i.1.qname
  qtype := i.1.qtype
  ttl := i.1.ttl
  qclass := i.1.qclass
  place := i.place
  rdata := content i.1.qtype i.1.qclass i.1.content

/-- The loop over the records, with the `commit` behind it, and whether TC is set. -/
def writeRecords (d_tcp : Bool) (maxudpsize : Nat) :
    ResponseRun → List RecordCalls → Option (ResponseRun × Bool)
  | s, [] => s.commitRecord.map fun t => (t, false)
  | s, i :: ret => do
    let t ← s.writeRecord i
    -- only truncate if we actually omitted parts of the answer; need to jump over `pw.commit`
    if !d_tcp && decide (maxudpsize < t.size) then some (t.rollBack, decide (i.place = .ANSWER))
    else writeRecords d_tcp maxudpsize t ret

/-- Without records nothing is committed. -/
def writeReply (d_tcp : Bool) (maxudpsize : Nat) (s : ResponseRun) (ret : List RecordCalls) :
    Option (ResponseRun × Bool) :=
  if ret = [] then some (s, false) else writeRecords d_tcp maxudpsize s ret

/-- The writer for a query; the constructor leaves two of its fields as they are. -/
def writerFor (mdp : MOADNSParser) (d_sor : Nat) (d_rollbackmarker : UInt16) : Option ResponseRun :=
  (DNSPacketWriter.create mdp.d_qname mdp.d_qtype mdp.d_qclass 0 d_sor).map fun w =>
    { records := { writer := w }, d_rollbackmarker }

end SentAnswer

/-- What is sent: the octets in front, the packet, and the records that are in it. -/
structure SentAnswer where
  buf : Octets
  packet : Octets
  records : List StartedRecord
  deriving DecidableEq

namespace SentAnswer

/-- `startDoResolve`, for a query that can be parsed, when `beginResolve` and the scripts came back
with `res` and `ret`, in the order that `shuffle` leaves; `none` when something throws, and nothing
is sent. -/
def startDoResolve (types : TypeMap) (content : ContentCalls) (query : Octets) (d_tcp : Bool)
    (res : Int) (ret : List FoundRR) (d_sor : Nat) (d_rollbackmarker : UInt16) : Option SentAnswer := do
  let mdp ← (MOADNSParser.init types query).toOption
  let maxudpsize ← maxudpsize types query
  let s ← writerFor mdp d_sor d_rollbackmarker
  let records := if res < 0 then [] else ret.map (recordCalls content)
  let reply ← writeReply d_tcp maxudpsize s records
  let d_content := reply.1.records.writer.d_content
  let packet := (AnswerWriter.answerHeader query res reply.2).take d_content.length ++ d_content.drop 4
  some {
    buf := if d_tcp then [UInt8.ofNat (packet.length / 256), UInt8.ofNat (packet.length % 256)] else []
    packet := packet
    records := reply.1.records.started }

/-! ### What is right -/

/-- The octets that a query allows for its reply: 512, or what its OPT record says if that is more. -/
def allowedSize (types : TypeMap) (mdp : MOADNSParser) : Nat :=
  match ednsPacketSize types mdp with
  | some d_packetsize => max d_packetsize.toNat 512
  | none => 512

/-- **A reply over UDP is right**: it is not larger than allowed, it consists of header, question and
records, with their numbers in the header, and TC is set if and only if an answer record is not in
it. -/
structure UDPRight (allowed : Nat) (question : Octets) (rrs : List RecordCalls) (sent : SentAnswer) :
    Prop where
  fits : sent.packet.length ≤ allowed
  framed : ∃ content, AllFramed 0 question content sent.records ∧
    sent.packet.length = content.length ∧ sent.packet.drop 4 = content.drop 4
  told : List.Forall₂ Told (rrs.take sent.records.length) sent.records
  tc : AnswerWriter.truncated sent.packet = true ↔
    ∃ i ∈ rrs.drop sent.records.length, i.place = .ANSWER

/-- **A reply over TCP is right**: the two octets in front are the length of the message. -/
def TCPRight (sent : SentAnswer) : Prop :=
  ∃ hi lo, sent.buf = [hi, lo] ∧ 256 * hi.toNat + lo.toNat = sent.packet.length

/-- A reply is right. -/
def Right (d_tcp : Bool) (allowed : Nat) (question : Octets) (rrs : List RecordCalls)
    (sent : SentAnswer) : Prop :=
  if d_tcp then sent.TCPRight else sent.UDPRight allowed question rrs

/-- When a reply over UDP is right, from the lengths that the packet has behind each record: the
question is not larger than allowed; the first record that makes the packet larger than allowed makes
it larger than `maxudpsize` in 16 bits; a record that fits has rdata unless it is the last of all;
and if the first record that does not fit is not one of the answer section, no later one is. -/
structure UDPFits (allowed maxudpsize : Nat) (s : ResponseRun) (rrs : List RecordCalls) : Prop where
  question : s.length ≤ allowed
  stops : ∀ kept i rest u v, rrs = kept ++ i :: rest → s.writeAll kept = some u →
    u.writeRecord i = some v → u.length ≤ allowed → allowed < v.length → maxudpsize < v.size
  rdata : ∀ kept i j rest v, rrs = kept ++ i :: j :: rest → s.writeAll (kept ++ [i]) = some v →
    v.length ≤ allowed → v.records.writer.d_record ≠ []
  answers : ∀ kept i rest u v, rrs = kept ++ i :: rest → s.writeAll kept = some u →
    u.writeRecord i = some v → u.length ≤ allowed → allowed < v.length → i.place ≠ .ANSWER →
      ∀ j ∈ rest, j.place ≠ .ANSWER

/-- When a reply over TCP is right: 16 bits can tell the length of the packet with all records. -/
def TCPFits (s : ResponseRun) (rrs : List RecordCalls) : Prop :=
  ∀ t, s.writeAll rrs = some t → t.length < 65536

/-- When a reply is right. -/
def Fits (d_tcp : Bool) (allowed maxudpsize : Nat) (s : ResponseRun) (rrs : List RecordCalls) : Prop :=
  if d_tcp then TCPFits s rrs else UDPFits allowed maxudpsize s rrs

/-! ### The loop -/

section Loop

variable {maxudpsize : Nat} {s t : ResponseRun} {rrs : List RecordCalls} {tc : Bool}

/-- No record makes the packet too large. -/
def NoneTooLarge (maxudpsize : Nat) (s : ResponseRun) (rrs : List RecordCalls) : Prop :=
  ∀ kept i rest u v, rrs = kept ++ i :: rest → s.writeAll kept = some u → u.writeRecord i = some v →
    v.size ≤ maxudpsize

theorem NoneTooLarge.cons {i : RecordCalls} {u : ResponseRun} (hwrite : s.writeRecord i = some u)
    (hsize : u.size ≤ maxudpsize) (h : NoneTooLarge maxudpsize u rrs) :
    NoneTooLarge maxudpsize s (i :: rrs) := by
  intro kept j rest v w heq hv hw
  cases kept with
  | nil =>
    obtain ⟨rfl, -⟩ := List.cons.inj heq
    obtain rfl := some.inj hv
    rw [← some.inj (hwrite.symm.trans hw)]
    exact hsize
  | cons k kept =>
    obtain ⟨rfl, hrest⟩ := List.cons.inj heq
    rw [writeAll_cons, hwrite] at hv
    exact h kept j rest v w hrest hv hw

/-- Over TCP all records are written. -/
theorem writeRecords_tcp :
    writeRecords true maxudpsize s rrs = (s.writeAll rrs).bind fun t => t.commitRecord.map (·, false) := by
  induction rrs generalizing s with
  | nil => rfl
  | cons i rrs ih =>
    rw [writeAll_cons, writeRecords]
    cases hwrite : s.writeRecord i with
    | none => rfl
    | some u => exact ih

/-- Over UDP they are written up to the first one that makes the packet too large. -/
theorem writeRecords_udp (h : writeRecords false maxudpsize s rrs = some (t, tc)) :
    (∃ u, s.writeAll rrs = some u ∧ u.commitRecord = some t ∧ tc = false ∧
        NoneTooLarge maxudpsize s rrs) ∨
      ∃ kept i rest u v, rrs = kept ++ i :: rest ∧ s.writeAll kept = some u ∧
        u.writeRecord i = some v ∧ maxudpsize < v.size ∧ t = v.rollBack ∧
          tc = decide (i.place = .ANSWER) ∧ NoneTooLarge maxudpsize s kept := by
  induction rrs generalizing s with
  | nil =>
    obtain ⟨t', ht', heq⟩ := map_eq_some_iff.mp h
    obtain ⟨rfl, rfl⟩ := Prod.mk.inj heq
    refine .inl ⟨s, rfl, ht', rfl, ?_⟩
    intro kept i rest u v heq
    exact absurd heq (by simp)
  | cons i rrs ih =>
    obtain ⟨u, hu, h⟩ := bind_eq_some_iff.mp h
    by_cases hlarge : maxudpsize < u.size
    · rw [if_pos (by simp [hlarge])] at h
      obtain ⟨rfl, rfl⟩ := Prod.mk.inj (some.inj h)
      refine .inr ⟨[], i, rrs, s, u, rfl, rfl, hu, hlarge, rfl, rfl, ?_⟩
      intro kept j rest v w heq
      exact absurd heq (by simp)
    · rw [if_neg (by simp [hlarge])] at h
      have hsize := Nat.le_of_not_lt hlarge
      rcases ih h with ⟨v, hv, hcommit, htc, hnone⟩ | ⟨kept, j, rest, v, w, rfl, hv, hw, hj, ht, htc, hnone⟩
      · refine .inl ⟨v, ?_, hcommit, htc, hnone.cons hu hsize⟩
        rw [writeAll_cons, hu]
        exact hv
      · refine .inr ⟨i :: kept, j, rest, v, w, rfl, ?_, hw, hj, ht, htc, hnone.cons hu hsize⟩
        rw [writeAll_cons, hu]
        exact hv

end Loop

/-! ### Replies over UDP -/

section UDP

variable {allowed maxudpsize : Nat} {question : Octets} {s t u v : ResponseRun}
  {rrs kept rest : List RecordCalls} {i : RecordCalls} {tc : Bool}

/-- Without a record that is too large, the packet stays as small as allowed. -/
theorem length_le_allowed (hfits : UDPFits allowed maxudpsize s rrs) (hrrs : rrs = kept ++ rest)
    (hnone : NoneTooLarge maxudpsize s kept) (hwrite : s.writeAll kept = some u) : u.length ≤ allowed := by
  induction kept using List.reverseRecOn generalizing rest u with
  | nil =>
    obtain rfl := some.inj hwrite
    exact hfits.question
  | append_singleton kept i ih =>
    rw [writeAll_append] at hwrite
    obtain ⟨w, hw, hwrite⟩ := bind_eq_some_iff.mp hwrite
    obtain ⟨v, hv, hwrite⟩ := bind_eq_some_iff.mp hwrite
    obtain rfl := some.inj hwrite
    have hrrs' : rrs = kept ++ i :: rest := by rw [hrrs, append_assoc]; rfl
    have hbefore := ih hrrs' (fun front j behind x y heq => hnone front j (behind ++ [i]) x y
      (by rw [heq, append_assoc]; rfl)) hw
    by_contra hlarge
    exact absurd (hfits.stops kept i rest w v hrrs' hw hv hbefore (Nat.lt_of_not_le hlarge))
      (Nat.not_lt_of_le (hnone kept i [] w v rfl hw hv))

/-- All records in front of another one that fit have rdata. -/
theorem rdata_of_fits (hfits : UDPFits allowed maxudpsize s rrs) (hfresh : Fresh 0 question s)
    (hrrs : rrs = kept ++ i :: rest) (hwrite : s.writeAll kept = some u) (hle : u.length ≤ allowed) :
    ∀ r ∈ u.records.started, r.rdata ≠ [] := by
  intro r hr
  rcases exists_of_mem_started ⟨_, hfresh.ready⟩ hwrite hr with hr | ⟨front, j, behind, w, rfl, hw, hrdata⟩
  · rw [hfresh.started] at hr
    cases hr
  · obtain ⟨x, y, hx, hy, -, -, hyu⟩ := writeAll_split ⟨_, hfresh.ready⟩ hwrite
    have hyw : y = w := by
      rw [writeAll_append, hx] at hw
      exact some.inj ((writeAll_cons.trans (by rw [hy]; rfl)).symm.trans hw)
    rw [← hrdata]
    have hrrs' : ∃ j' rest', rrs = front ++ j :: j' :: rest' := by
      rw [hrrs]
      cases behind with
      | nil => exact ⟨i, rest, by rw [append_assoc]; rfl⟩
      | cons j' behind => exact ⟨j', behind ++ i :: rest, by rw [append_assoc]; rfl⟩
    obtain ⟨j', rest', hrrs'⟩ := hrrs'
    exact hfits.rdata front j j' rest' w hrrs' hw (hyw ▸ hyu.trans hle)

/-- What was put into the packet that is sent. -/
structure Carries (sent : SentAnswer) (t : ResponseRun) (tc : Bool) : Prop where
  records : sent.records = t.records.started
  length : sent.packet.length = t.records.writer.d_content.length
  octets : sent.packet.drop 4 = t.records.writer.d_content.drop 4
  truncated : 12 ≤ t.records.writer.d_content.length → AnswerWriter.truncated sent.packet = tc

variable {sent : SentAnswer}

/-- A packet that is the layout of its records is framed. -/
theorem Carries.framed (h : Carries sent t tc)
    (hlayout : t.records.writer.d_content = layout 0 question t.records.started)
    (hlength : t.records.writer.d_content.length < 65536) :
    ∃ content, AllFramed 0 question content sent.records ∧ sent.packet.length = content.length ∧
      sent.packet.drop 4 = content.drop 4 := by
  refine ⟨layout 0 question t.records.started, ?_, hlayout ▸ h.length, hlayout ▸ h.octets⟩
  rw [h.records]
  exact allFramed_of_length (hlayout ▸ hlength)

/-- A framed packet is as long as the layout of its records. -/
theorem Carries.length_eq (h : Carries sent t tc)
    (hframed : ∃ content, AllFramed 0 question content sent.records ∧
      sent.packet.length = content.length ∧ sent.packet.drop 4 = content.drop 4) :
    t.records.writer.d_content.length = (layout 0 question t.records.started).length := by
  obtain ⟨content, hframed, hlength, -⟩ := hframed
  rw [← h.length, hlength, hframed.content, h.records]

theorem twelve_le_layout (question : Octets) (rs : List StartedRecord) :
    12 ≤ (layout 0 question rs).length := by
  rw [length_layout]
  omega

/-- A reply without records. -/
theorem noRecords_right_iff (hfresh : Fresh 0 question s) (hbound : allowed < 65536)
    (hsent : Carries sent s false) :
    sent.UDPRight allowed question [] ↔ UDPFits allowed maxudpsize s [] := by
  have hlength : sent.packet.length = s.length := by rw [hsent.length, hfresh.length_eq]
  have hlayout : s.records.writer.d_content = layout 0 question s.records.started := by
    rw [hfresh.started]
    exact hfresh.content
  constructor
  · intro hright
    refine ⟨hlength ▸ hright.fits, ?_, ?_, ?_⟩
    · exact fun kept i rest u v heq => absurd heq (by simp)
    · exact fun kept i j rest v heq => absurd heq (by simp)
    · exact fun kept i rest u v heq => absurd heq (by simp)
  · intro hfits
    have hle := hfits.question
    refine ⟨hlength ▸ hle, hsent.framed hlayout (by rw [← hfresh.length_eq]; omega), ?_, ?_⟩
    · rw [hsent.records, hfresh.started]
      exact .nil
    · rw [hsent.truncated (by rw [hlayout]; exact twelve_le_layout _ _)]
      simp

/-- A reply with all records. -/
theorem allRecords_right_iff (hfresh : Fresh 0 question s) (hbound : allowed < 65536)
    (hwrite : s.writeAll (rrs ++ [i]) = some u) (hcommit : u.commitRecord = some t)
    (hnone : NoneTooLarge maxudpsize s (rrs ++ [i])) (hsent : Carries sent t false) :
    sent.UDPRight allowed question (rrs ++ [i]) ↔ UDPFits allowed maxudpsize s (rrs ++ [i]) := by
  have hready : ∃ begun, Ready 0 question s begun := ⟨_, hfresh.ready⟩
  obtain ⟨u₀, r, before, hu₀, hopened⟩ := writeAll_opened hready hwrite
  obtain ⟨w, hw, -, hwlength, hclean, hshort⟩ := hopened.commit
  obtain ⟨w', hw', rfl⟩ := map_eq_some_iff.mp hcommit
  obtain rfl := some.inj (hw.symm.trans hw')
  obtain ⟨-, hsu, rs, hstarted, htold⟩ := writeAll_ready hready hwrite
  rw [hfresh.started, nil_append] at hstarted
  have hrecords : sent.records = u.records.started := hsent.records
  have hcount : sent.records.length = (rrs ++ [i]).length := by
    rw [hrecords, hstarted, htold.length_eq]
  have hlength : sent.packet.length = u.length := hsent.length.trans hwlength
  constructor
  · intro hright
    have hfit : u.length ≤ allowed := hlength ▸ hright.fits
    have hrdata : ∀ r' ∈ u₀.records.started, r'.rdata ≠ [] := by
      intro r' hr' hnil
      have heq := hsent.length_eq hright.framed
      change w.d_content.length = (layout 0 question u.records.started).length at heq
      rw [hopened.started] at heq
      have hlt := hshort ⟨r', hr', hnil⟩
      omega
    -- nothing gets larger than allowed on the way
    have hway : ∀ kept j rest x y, rrs ++ [i] = kept ++ j :: rest → s.writeAll kept = some x →
        x.writeRecord j = some y → y.length ≤ allowed := by
      intro kept j rest x y heq hx hy
      obtain ⟨x', y', hx', hy', -, -, hle⟩ := writeAll_split hready (heq ▸ hwrite)
      obtain rfl := some.inj (hx.symm.trans hx')
      obtain rfl := some.inj (hy.symm.trans hy')
      exact hle.trans hfit
    refine ⟨hsu.trans hfit, ?_, ?_, ?_⟩
    · intro kept j rest x y heq hx hy _ hlarge
      exact absurd (hway kept j rest x y heq hx hy) (Nat.not_le_of_lt hlarge)
    · intro kept j j' rest y heq hy _
      -- the record is not the last one
      obtain ⟨rest', hrest⟩ : ∃ rest', j' :: rest = rest' ++ [i] ∧ rrs = kept ++ j :: rest' := by
        rcases eq_nil_or_concat (j' :: rest) with hnil | ⟨rest', i', hconcat⟩
        · cases hnil
        · rw [concat_eq_append] at hconcat
          rw [hconcat, ← cons_append, ← append_assoc] at heq
          obtain ⟨hrrs, hi⟩ := append_inj' heq rfl
          rw [← (List.cons.inj hi).1] at hconcat
          exact ⟨rest', hconcat, hrrs⟩
      obtain ⟨x', y', hx', hy', hyu₀, -⟩ := writeAll_split hready (hrest.2 ▸ hu₀)
      have hsame : y' = y := by
        rw [writeAll_append, hx'] at hy
        exact some.inj ((writeAll_cons.trans (by rw [hy']; rfl)).symm.trans hy)
      obtain ⟨x, r', before', -, hopened'⟩ := writeAll_opened hready hy
      rw [hopened'.record]
      exact hrdata r' (hopened'.mem_of_writeAll (hsame ▸ hyu₀))
    · intro kept j rest x y heq hx hy _ hlarge
      exact absurd (hway kept j rest x y heq hx hy) (Nat.not_le_of_lt hlarge)
  · intro hfits
    have hfit : u.length ≤ allowed := length_le_allowed hfits (append_nil _).symm hnone hwrite
    obtain ⟨x, y, hx, hy, hyu, hxy, hle⟩ := writeAll_split hready hwrite
    obtain rfl := some.inj (hu₀.symm.trans hx)
    have hrdata := rdata_of_fits hfits hfresh rfl hu₀ ((hxy.trans hle).trans hfit)
    have hlayout : w.d_content = layout 0 question u.records.started := by
      rw [hopened.started]
      exact hclean hrdata
    refine ⟨hlength ▸ hfit, hsent.framed hlayout ?_, ?_, ?_⟩
    · change w.d_content.length < 65536
      omega
    · rw [hcount, take_length, hrecords, hstarted]
      exact htold
    · rw [hsent.truncated, hcount, drop_length]
      · simp
      · change 12 ≤ w.d_content.length
        rw [hlayout]
        exact twelve_le_layout _ _

/-- A reply that ends in front of a record that is too large. -/
theorem cutRecords_right_iff (hfresh : Fresh 0 question s) (hmax : allowed ≤ maxudpsize)
    (hbound : maxudpsize < 65536) (hwrite : s.writeAll kept = some u) (hlast : u.writeRecord i = some v)
    (hlarge : maxudpsize < v.size) (hnone : NoneTooLarge maxudpsize s kept)
    (hsent : Carries sent v.rollBack (decide (i.place = .ANSWER))) :
    sent.UDPRight allowed question (kept ++ i :: rest) ↔
      UDPFits allowed maxudpsize s (kept ++ i :: rest) := by
  have hready : ∃ begun, Ready 0 question s begun := ⟨_, hfresh.ready⟩
  obtain ⟨⟨begun, hbegun⟩, hsu, rs, hstarted, htold⟩ := writeAll_ready hready hwrite
  rw [hfresh.started, nil_append] at hstarted
  obtain ⟨r, hopened, -⟩ := writeRecord_opened hbegun hlast
  obtain ⟨hrolled, hcontent⟩ := hopened.rollBack
  have hrecords : sent.records = u.records.started := hsent.records.trans hrolled
  have hcount : sent.records.length = kept.length := by rw [hrecords, hstarted, htold.length_eq]
  have hmod : begun.d_content.length % 65536 ≤ begun.d_content.length := Nat.mod_le _ _
  have hlength : sent.packet.length = begun.d_content.length % 65536 := by
    rw [hsent.length, hcontent, length_take, min_eq_left hmod]
  have hvlarge : allowed < v.length := by
    have hsize := hopened.size_eq
    omega
  have hdrop : (kept ++ i :: rest).drop sent.records.length = i :: rest := by
    rw [hcount, drop_left]
  constructor
  · intro hright
    have heq := hsent.length_eq hright.framed
    rw [hrolled, hcontent, length_take, min_eq_left hmod] at heq
    have hbehind := hbegun.behind.length_le
    have hrdata : ∀ r' ∈ u.records.started, r'.rdata ≠ [] := by
      intro r' hr' hnil
      have hlt := hbegun.behind.short ⟨r', hr', hnil⟩
      omega
    have hubegun := hbegun.length_eq hrdata
    have hfit : u.length ≤ allowed := by
      have hfits := hright.fits
      omega
    -- what lies behind the record is larger than allowed
    have hlater : ∀ m j x y, s.writeAll (kept ++ i :: m) = some x → x.writeRecord j = some y →
        ¬ x.length ≤ allowed := by
      intro m j x y hx _ hle
      obtain ⟨u', v', hu', hv', -, -, hvx⟩ := writeAll_split hready hx
      obtain rfl := some.inj (hwrite.symm.trans hu')
      obtain rfl := some.inj (hlast.symm.trans hv')
      omega
    -- what lies in front of it is not
    have hearlier : ∀ front j m x y, kept = front ++ j :: m → s.writeAll front = some x →
        x.writeRecord j = some y → y.length ≤ allowed ∧ y.writeAll m = some u := by
      intro front j m x y hk hx hy
      obtain ⟨x', y', hx', hy', hyu, -, hle⟩ := writeAll_split hready (hk ▸ hwrite)
      obtain rfl := some.inj (hx.symm.trans hx')
      obtain rfl := some.inj (hy.symm.trans hy')
      exact ⟨hle.trans hfit, hyu⟩
    refine ⟨hsu.trans hfit, ?_, ?_, ?_⟩
    · intro front j behind x y hsplit hx hy hxle hylarge
      rcases StoppedRun.split_cases hsplit with ⟨m, hk⟩ | ⟨rfl, rfl, -⟩ | ⟨m, rfl⟩
      · exact absurd (hearlier front j m x y hk hx hy).1 (Nat.not_le_of_lt hylarge)
      · obtain rfl := some.inj (hwrite.symm.trans hx)
        obtain rfl := some.inj (hlast.symm.trans hy)
        exact hlarge
      · exact absurd hxle (hlater m j x y hx hy)
    · intro front j j' behind y hsplit hy hyle
      obtain ⟨x, r', before', hx, hopened'⟩ := writeAll_opened hready hy
      have hxy : x.writeRecord j = some y := by
        obtain ⟨x', y', hx', hy', hyy, -⟩ := writeAll_split hready hy
        rw [some.inj (hx.symm.trans hx'), hy']
        exact hyy
      rcases StoppedRun.split_cases hsplit with ⟨m, hk⟩ | ⟨rfl, rfl, -⟩ | ⟨m, rfl⟩
      · obtain ⟨-, hyu⟩ := hearlier front j m x y hk hx hxy
        rw [hopened'.record]
        exact hrdata r' (hopened'.mem_of_writeAll hyu)
      · obtain rfl := some.inj (hwrite.symm.trans hx)
        obtain rfl := some.inj (hlast.symm.trans hxy)
        exact absurd hyle (Nat.not_le_of_lt hvlarge)
      · have hle : x.length ≤ y.length := by
          obtain ⟨⟨b, hb⟩, -⟩ := writeAll_ready hready hx
          exact length_le_writeRecord hb hxy
        exact absurd (hle.trans hyle) (hlater m j x y hx hxy)
    · intro front j behind x y hsplit hx hy hxle hylarge hplace j' hj' hanswer
      rcases StoppedRun.split_cases hsplit with ⟨m, hk⟩ | ⟨rfl, rfl, rfl⟩ | ⟨m, rfl⟩
      · exact absurd (hearlier front j m x y hk hx hy).1 (Nat.not_le_of_lt hylarge)
      · have htc := hright.tc
        rw [hdrop, hsent.truncated] at htc
        · exact absurd (htc.mpr ⟨j', mem_cons_of_mem _ hj', hanswer⟩) (by simp [hplace])
        · rw [hcontent, length_take, min_eq_left hmod, heq]
          exact twelve_le_layout _ _
      · exact absurd hxle (hlater m j x y hx hy)
  · intro hfits
    have hfit : u.length ≤ allowed := length_le_allowed hfits rfl hnone hwrite
    have hrdata := rdata_of_fits hfits hfresh rfl hwrite hfit
    have hubegun := hbegun.length_eq hrdata
    have hsmall : begun.d_content.length % 65536 = begun.d_content.length :=
      Nat.mod_eq_of_lt (by omega)
    have hlayout : v.rollBack.records.writer.d_content =
        layout 0 question v.rollBack.records.started := by
      rw [hcontent, hsmall, take_length, hrolled]
      exact hbegun.behind.clean hrdata
    refine ⟨by omega, hsent.framed hlayout ?_, ?_, ?_⟩
    · rw [hcontent, hsmall, take_length]
      omega
    · rw [hcount, take_left, hrecords, hstarted]
      exact htold
    · rw [hdrop, hsent.truncated (by rw [hlayout]; exact twelve_le_layout _ _), decide_eq_true_eq]
      constructor
      · exact fun hplace => ⟨i, mem_cons_self, hplace⟩
      · rintro ⟨j, hj, hanswer⟩
        by_contra hplace
        rcases mem_cons.mp hj with rfl | hj
        · exact hplace hanswer
        · exact hfits.answers kept i rest u v rfl hwrite hlast hfit hvlarge hplace j hj hanswer

end UDP

/-! ### Every reply -/

section Every

variable {types : TypeMap} {content : ContentCalls} {query : Octets} {mdp : MOADNSParser} {d_tcp : Bool}
  {res : Int} {ret : List FoundRR} {d_sor : Nat} {d_rollbackmarker : UInt16} {s : ResponseRun}
  {sent : SentAnswer}

theorem allowedSize_bounds (types : TypeMap) (mdp : MOADNSParser) : allowedSize types mdp < 65536 := by
  unfold allowedSize
  split
  · next d_packetsize _ =>
    have hlt := d_packetsize.toNat_lt
    omega
  · decide

/-- What the code takes for the size that is allowed is at least that. -/
theorem allowedSize_le (hparsed : MOADNSParser.init types query = .ok mdp) {n : Nat}
    (hmax : maxudpsize types query = some n) : allowedSize types mdp ≤ n := by
  unfold maxudpsize at hmax
  rw [hparsed] at hmax
  unfold allowedSize
  dsimp only at hmax
  cases hsize : ednsPacketSize types mdp with
  | none =>
    rw [hsize] at hmax
    exact (some.inj hmax).le
  | some d_packetsize =>
    rw [hsize] at hmax
    have heq := some.inj hmax
    dsimp only
    omega

/-- The octets of the length in front of a message. -/
theorem be_length (n : Nat) :
    256 * (UInt8.ofNat (n / 256)).toNat + (UInt8.ofNat (n % 256)).toNat = n % 65536 := by
  rw [UInt8.toNat_ofNat', UInt8.toNat_ofNat']
  omega

/-- The records that are written. -/
def foundCalls (content : ContentCalls) (res : Int) (ret : List FoundRR) : List RecordCalls :=
  if res < 0 then [] else ret.map (recordCalls content)

/-- What `startDoResolve` comes to. -/
theorem startDoResolve_eq (hparsed : MOADNSParser.init types query = .ok mdp) {n : Nat}
    (hmax : maxudpsize types query = some n) (hwriter : writerFor mdp d_sor d_rollbackmarker = some s)
    (hsent : startDoResolve types content query d_tcp res ret d_sor d_rollbackmarker = some sent) :
    ∃ t tc, writeReply d_tcp n s (foundCalls content res ret) = some (t, tc) ∧ Carries sent t tc ∧
      (d_tcp = true → sent.buf =
        [UInt8.ofNat (sent.packet.length / 256), UInt8.ofNat (sent.packet.length % 256)]) := by
  unfold startDoResolve at hsent
  rw [hparsed] at hsent
  obtain ⟨mdp', hmdp', hsent⟩ := bind_eq_some_iff.mp hsent
  obtain rfl : mdp = mdp' := some.inj hmdp'
  rw [hmax, hwriter] at hsent
  obtain ⟨n', hn', hsent⟩ := bind_eq_some_iff.mp hsent
  obtain rfl := some.inj hn'
  obtain ⟨s', hs', hsent⟩ := bind_eq_some_iff.mp hsent
  obtain rfl := some.inj hs'
  obtain ⟨⟨t, tc⟩, hreply, hsent⟩ := bind_eq_some_iff.mp hsent
  obtain rfl := some.inj hsent
  have hheader : (AnswerWriter.answerHeader query res tc).length = 4 := rfl
  refine ⟨t, tc, hreply, ⟨rfl, ?_, ?_, fun hlong => ?_⟩, fun htcp => if_pos htcp⟩
  · dsimp only
    rw [length_append, length_take, length_drop, hheader]
    omega
  · dsimp only
    rcases Nat.lt_or_ge t.records.writer.d_content.length 4 with hshort | hlong
    · rw [drop_of_length_le (by rw [length_append, length_take, length_drop]; omega),
        drop_of_length_le hshort.le]
    · rw [take_of_length_le (hheader.trans_le hlong), ← hheader, drop_left]
  · unfold AnswerWriter.truncated
    dsimp only
    rw [take_of_length_le (by rw [hheader]; omega)]
    exact AnswerWriter.tc_of_flags tc _

/-- **When a reply is right**: for every query, and all records and every code that were found, the
reply that is sent is right if and only if the condition holds. -/
theorem sent_right_iff (hparsed : MOADNSParser.init types query = .ok mdp) {n : Nat}
    (hmax : maxudpsize types query = some n) (hwriter : writerFor mdp d_sor d_rollbackmarker = some s)
    (hsent : startDoResolve types content query d_tcp res ret d_sor d_rollbackmarker = some sent) :
    sent.Right d_tcp (allowedSize types mdp) (s.records.writer.d_content.drop 12)
        (foundCalls content res ret) ↔
      Fits d_tcp (allowedSize types mdp) n s (foundCalls content res ret) := by
  obtain ⟨t, tc, hreply, hcarries, hbuf⟩ := startDoResolve_eq hparsed hmax hwriter hsent
  obtain ⟨question, hfresh, hquestion⟩ : ∃ question, Fresh 0 question s ∧
      s.records.writer.d_content.drop 12 = question := by
    obtain ⟨w, hw, rfl⟩ := map_eq_some_iff.mp hwriter
    obtain ⟨question, hfresh⟩ := exists_fresh hw d_rollbackmarker
    refine ⟨question, hfresh, ?_⟩
    rw [hfresh.content]
    exact append_nil question
  rw [hquestion]
  have hallowed := allowedSize_bounds types mdp
  have hle := allowedSize_le hparsed hmax
  have hbound := (maxudpsize_bounds hmax).2
  generalize foundCalls content res ret = rrs at hreply ⊢
  unfold writeReply at hreply
  cases d_tcp with
  | false =>
    by_cases hnil : rrs = []
    · rw [if_pos hnil] at hreply
      obtain ⟨rfl, rfl⟩ := Prod.mk.inj (some.inj hreply)
      rw [hnil]
      exact noRecords_right_iff hfresh hallowed hcarries
    · rw [if_neg hnil] at hreply
      rcases writeRecords_udp hreply with ⟨u, hu, hcommit, rfl, hnone⟩ |
        ⟨kept, i, rest, u, v, rfl, hu, hv, hlarge, rfl, rfl, hnone⟩
      · rcases eq_nil_or_concat rrs with hnil' | ⟨init, i, rfl⟩
        · exact absurd hnil' hnil
        · rw [concat_eq_append] at hu hnone ⊢
          exact allRecords_right_iff hfresh hallowed hu hcommit hnone hcarries
      · exact cutRecords_right_iff hfresh hle hbound hu hv hlarge hnone hcarries
  | true =>
    -- the message is as long as the packet with all records
    have hlength : ∃ u, s.writeAll rrs = some u ∧ sent.packet.length = u.length := by
      by_cases hnil : rrs = []
      · rw [if_pos hnil] at hreply
        obtain ⟨rfl, rfl⟩ := Prod.mk.inj (some.inj hreply)
        rw [hnil]
        exact ⟨s, rfl, by rw [hcarries.length, hfresh.length_eq]⟩
      · rw [if_neg hnil, writeRecords_tcp] at hreply
        obtain ⟨u, hu, hreply⟩ := bind_eq_some_iff.mp hreply
        obtain ⟨t', hcommit, heq⟩ := map_eq_some_iff.mp hreply
        obtain ⟨rfl, rfl⟩ := Prod.mk.inj heq
        refine ⟨u, hu, ?_⟩
        rcases eq_nil_or_concat rrs with hnil' | ⟨init, i, rfl⟩
        · exact absurd hnil' hnil
        · rw [concat_eq_append] at hu
          obtain ⟨u₀, r, before, -, hopened⟩ := writeAll_opened ⟨_, hfresh.ready⟩ hu
          obtain ⟨w, hw, -, hwlength, -⟩ := hopened.commit
          obtain ⟨w', hw', rfl⟩ := map_eq_some_iff.mp hcommit
          obtain rfl := some.inj (hw.symm.trans hw')
          exact hcarries.length.trans hwlength
    obtain ⟨u, hu, hlength⟩ := hlength
    have hbe := be_length sent.packet.length
    constructor
    · rintro ⟨hi, lo, hbuf', heq⟩ t' ht'
      obtain rfl := some.inj (hu.symm.trans ht')
      rw [hbuf rfl] at hbuf'
      obtain ⟨rfl, hlo⟩ := List.cons.inj hbuf'
      obtain ⟨rfl, -⟩ := List.cons.inj hlo
      omega
    · intro hfits
      have hlt := hfits u hu
      exact ⟨_, _, hbuf rfl, by omega⟩

end Every

/-! ### Addresses -/

/-- Contents that are addresses. -/
def addressContent : ContentCalls := fun _ _ _ => [.xfrBlob [192, 0, 2, 1]]

/-- Addresses of `a`. -/
def foundAddresses (n : Nat) : List FoundRR :=
  List.replicate n
    ⟨{ qtype := QType.A, qname := ascii "a.", wildcardname := [], content := ascii "192.0.2.1",
       ttl := 3600 }, by decide⟩

/-- A query for the address of `a`, with EDNS, for 512 octets. -/
def smallQuery : Octets :=
  [0x12, 0x35, 1, 0, 0, 1, 0, 0, 0, 0, 0, 1, 1, 97, 0, 0, 1, 0, 1, 0, 0, 41, 2, 0, 0, 0, 0, 0, 0, 0]

/-- One address in a reply over UDP. -/
theorem one_address_right :
    ∃ mdp s sent, MOADNSParser.init reportAllTypes smallQuery = .ok mdp ∧
      writerFor mdp 0 0 = some s ∧
      startDoResolve reportAllTypes addressContent smallQuery false 0 (foundAddresses 1) 0 0 = some sent ∧
      sent.Right false (allowedSize reportAllTypes mdp) (s.records.writer.d_content.drop 12)
        (foundCalls addressContent 0 (foundAddresses 1)) := by
  have hwriter : ((MOADNSParser.init reportAllTypes smallQuery).toOption.bind fun mdp =>
      (writerFor mdp 0 0).bind fun s => (s.writeAll (foundCalls addressContent 0 (foundAddresses 1))).map
        fun t => (s.length, t.length, allowedSize reportAllTypes mdp)) = some (19, 35, 512) := by
    decide
  have hsent : (startDoResolve reportAllTypes addressContent smallQuery false 0 (foundAddresses 1) 0
      0).isSome = true := by decide
  obtain ⟨mdp, hmdp, hwriter⟩ := bind_eq_some_iff.mp hwriter
  obtain ⟨s, hs, hwriter⟩ := bind_eq_some_iff.mp hwriter
  obtain ⟨t, ht, hlengths⟩ := map_eq_some_iff.mp hwriter
  obtain ⟨hslength, hlengths⟩ := Prod.mk.inj hlengths
  obtain ⟨htlength, hallowed⟩ := Prod.mk.inj hlengths
  obtain ⟨sent, hsent⟩ := isSome_iff_exists.mp hsent
  have hparsed := eq_ok_of_toOption hmdp
  refine ⟨mdp, s, sent, hparsed, hs, hsent,
    (sent_right_iff (n := 1280) hparsed (by decide) hs hsent).mpr ?_⟩
  -- the only record leaves the packet at 35 octets
  have hall : ∀ kept i rest u v, foundCalls addressContent 0 (foundAddresses 1) = kept ++ i :: rest →
      s.writeAll kept = some u → u.writeRecord i = some v → ¬ allowedSize reportAllTypes mdp < v.length := by
    intro kept i rest u v heq hu hv hlarge
    cases kept with
    | nil =>
      have hrest : [] = rest := (List.cons.inj heq).2
      obtain rfl := some.inj hu
      rw [heq, ← hrest, nil_append, writeAll_cons, hv] at ht
      obtain rfl := some.inj ht
      omega
    | cons j kept => exact absurd (List.cons.inj heq).2 (by simp)
  refine ⟨by omega, ?_, ?_, ?_⟩
  · exact fun kept i rest u v heq hu hv _ hlarge => absurd hlarge (hall kept i rest u v heq hu hv)
  · intro kept i j rest v heq
    have hlen := congrArg List.length heq
    rw [length_append] at hlen
    change 1 = kept.length + (rest.length + 1 + 1) at hlen
    omega
  · exact fun kept i rest u v heq hu hv _ hlarge => absurd hlarge (hall kept i rest u v heq hu hv)

/-- **Forty addresses for a client that takes 512 octets**: the reply has 659. -/
theorem forty_addresses_sent :
    ∃ mdp s sent, MOADNSParser.init reportAllTypes smallQuery = .ok mdp ∧
      writerFor mdp 0 0 = some s ∧ allowedSize reportAllTypes mdp = 512 ∧
      startDoResolve reportAllTypes addressContent smallQuery false 0 (foundAddresses 40) 0 0 = some sent ∧
      sent.packet.length = 659 ∧
      ¬ sent.Right false (allowedSize reportAllTypes mdp) (s.records.writer.d_content.drop 12)
        (foundCalls addressContent 0 (foundAddresses 40)) := by
  have hlength : (startDoResolve reportAllTypes addressContent smallQuery false 0 (foundAddresses 40) 0 0).map
      (fun sent => sent.packet.length) = some 659 := by decide +kernel
  have hwriter : ((MOADNSParser.init reportAllTypes smallQuery).toOption.bind fun mdp =>
      (writerFor mdp 0 0).map fun _ => allowedSize reportAllTypes mdp) = some 512 := by decide +kernel
  obtain ⟨sent, hsent, hlen⟩ := map_eq_some_iff.mp hlength
  obtain ⟨mdp, hmdp, hwriter⟩ := bind_eq_some_iff.mp hwriter
  obtain ⟨s, hs, hallowed⟩ := map_eq_some_iff.mp hwriter
  refine ⟨mdp, s, sent, eq_ok_of_toOption hmdp, hs, hallowed, hsent, hlen, fun hright => ?_⟩
  have hfits := UDPRight.fits hright
  omega

end SentAnswer

end PowerDNS
