import PowerDNS.Packet.ResponseFraming

/-!
# The packet cache of the recursor: `RecursorPacketCache`

The cache keeps whole answers, each with the time it was made and the time until which it may be
used, both in 32 bits. A query that finds an answer of its question gets it with its own id and
with TTLs that are as much lower as the answer is old (`answerFromCache`, the first lines of
`doProcessUDPQuestion`).

The container is a Boost one, ordered by `Entry::operator<`. Of it only what the code relies on
is assumed (`PacketContainer`): it finds entries that are there, and adds, changes and removes
no others than it is told to.

`aged_answer` is the theorem. In a history in which every stored packet was written by a writer
that keeps the framing, with a time to live no larger than the TTLs of its records, and the
clock stays below 2^32, every answer is the stored packet but for the id and the TTLs of the
records before the first OPT record, and each of these is lower by the age, not wrapped.
`class_of_address_aged` is a packet that the writer does not frame, which comes back damaged.
-/

namespace PowerDNS

open GuardedRun DNSPacketWriter Option UInt32 List

/-! ### The order of packets -/

/-- `BoundsCheckingPointer::operator[]`. `none` stands for the `runtime_error`. -/
def boundsChecked (packet : Octets) (offset : Nat) : Option UInt8 := packet[offset]?

/-- The loop over the octets of a label: the first difference of the two `char`s in the first
`n` octets, 0 when there is none. -/
def compareLabels (a b : Octets) : Nat → Nat → Nat → Option Int
  | 0, _, _ => some 0
  | n + 1, aPos, bPos => do
    let x ← boundsChecked a aPos
    let y ← boundsChecked b bPos
    if x.toInt8.toInt - y.toInt8.toInt ≠ 0 then some (x.toInt8.toInt - y.toInt8.toInt)
    else compareLabels a b n (aPos + 1) (bPos + 1)

/-- The 16 bit number at `pos` as `dnspacketLessThan` makes it from two `char`s. -/
def signedInt16 (packet : Octets) (pos : Nat) : Option UInt16 := do
  let hi ← boundsChecked packet pos
  let lo ← boundsChecked packet (pos + 1)
  some (UInt16.ofInt (hi.toInt8.toInt * 256 + lo.toInt8.toInt))

/-- The loop of `dnspacketLessThan` over the labels of both questions, and what follows it.
Every turn takes a unit of fuel. -/
def questionLessThan (a b : Octets) : Nat → Nat → Nat → Option Bool
  | 0, _, _ => none
  | fuel + 1, aPos, bPos => do
    let aLabelLen ← boundsChecked a aPos
    let bLabelLen ← boundsChecked b bPos
    let result ← compareLabels a b (min aLabelLen.toNat bLabelLen.toNat) (aPos + 1) (bPos + 1)
    if result < 0 then some true
    else if 0 < result then some false
    -- shortest wins
    else if aLabelLen < bLabelLen then some true
    else if bLabelLen < aLabelLen then some false
    else if aLabelLen ≠ 0 then
      questionLessThan a b fuel (aPos + 1 + aLabelLen.toNat) (bPos + 1 + bLabelLen.toNat)
    else do
      let aQtype ← signedInt16 a (aPos + 1)
      let bQtype ← signedInt16 b (bPos + 1)
      let aQclass ← signedInt16 a (aPos + 3)
      let bQclass ← signedInt16 b (bPos + 3)
      some (decide (aQtype < bQtype ∨ (aQtype = bQtype ∧ aQclass < bQclass)))

/-- `dnspacketLessThan(a, b)`. -/
def dnspacketLessThan (a b : Octets) : Option Bool :=
  if a.length < 12 ∨ b.length < 12 then some (decide (a.length < b.length))
  else questionLessThan a b (a.length + 1) 12 12

namespace RecursorPacketCache

/-- `RecursorPacketCache::Entry`. -/
structure Entry where
  d_ttd : UInt32
  d_creation : UInt32
  d_packet : Octets
  deriving DecidableEq

/-- What `Entry::operator<` looks at in the header: `opcode`, `rd`, and `qdcount` in the order of
the host. -/
def headerKey (packet : Octets) : Nat × Nat × Nat :=
  let flags := packet.getD 2 0
  (((flags >>> 3) &&& 15).toNat, (flags &&& 1).toNat,
    (packet.getD 4 0).toNat + 256 * (packet.getD 5 0).toNat)

/-- `make_tuple(..) < make_tuple(..)`. -/
def headerLess (a b : Octets) : Bool :=
  let x := headerKey a
  let y := headerKey b
  decide (x.1 < y.1 ∨ (x.1 = y.1 ∧ (x.2.1 < y.2.1 ∨ (x.2.1 = y.2.1 ∧ x.2.2 < y.2.2))))

/-- `Entry::operator<`. -/
def entryLess (a b : Octets) : Option Bool :=
  if headerLess a b then some true else dnspacketLessThan a b

/-! ### The container -/

/-- The `multi_index_container` as far as the code relies on it. Comparing entries can throw;
`none` stands for that. -/
structure PacketContainer (T : Type) where
  items : T → List Entry
  empty : T
  /-- `find` by the question of a packet. -/
  find : T → Octets → Option (Option Entry)
  /-- `insert`, which may find that there is such an entry. -/
  insert : T → Entry → Option T
  /-- The assignments to the members of the first entry, which make it the second one. -/
  assign : T → Entry → Entry → T
  /-- `moveCacheItemToFront` (`true`) and `moveCacheItemToBack`. -/
  relocate : T → Entry → Bool → T
  items_empty : items empty = []
  mem_of_find : ∀ {c q e}, find c q = some (some e) → e ∈ items c
  mem_insert : ∀ {c c' e x}, insert c e = some c' → x ∈ items c' → x ∈ items c ∨ x = e
  mem_assign : ∀ {c e e' x}, x ∈ items (assign c e e') → x ∈ items c ∨ x = e'
  mem_relocate : ∀ {c e front x}, x ∈ items (relocate c e front) → x ∈ items c

variable {T : Type} (k : PacketContainer T)

/-- `getResponsePacket(queryPacket, now)`, with the packet and its age. -/
def getResponsePacket (d_packetCache : T) (queryPacket : Octets) (now : Nat) :
    Option (T × Option (Octets × UInt32)) := do
  match ← k.find d_packetCache queryPacket with
  | none => some (d_packetCache, none)
  | some e =>
    if UInt32.ofNat now < e.d_ttd then
      let response := queryPacket.getD 0 0 :: queryPacket.getD 1 0 :: e.d_packet.drop 2
      some (k.relocate d_packetCache e false, some (response, UInt32.ofNat now - e.d_creation))
    else some (k.relocate d_packetCache e true, none)

/-- `insertResponsePacket(responsePacket, now, ttl)`. -/
def insertResponsePacket (d_packetCache : T) (responsePacket : Octets) (now : Nat) (ttl : UInt32) :
    Option T := do
  let e : Entry :=
    { d_packet := responsePacket, d_ttd := UInt32.ofNat now + ttl, d_creation := UInt32.ofNat now }
  match ← k.find d_packetCache responsePacket with
  | some iter => some (k.assign d_packetCache iter e)
  | none => k.insert d_packetCache e

/-- The answer that `doProcessUDPQuestion` sends from the cache. -/
def answerFromCache (d_packetCache : T) (question : Octets) (now : Nat) : Option Octets :=
  match getResponsePacket k d_packetCache question now with
  | some (_, some (response, age)) => some (ageDNSPacket response age)
  | _ => none

/-! ### Histories -/

/-- An answer as it is written: the constructor's arguments, the calls of the writer, and the
first four octets, which the caller sets in the header. -/
structure WrittenAnswer where
  qname : Name
  qtype : UInt16
  qclass : UInt16
  opcode : UInt8
  d_sor : Nat
  d_rollbackmarker : UInt16
  calls : List RollbackOp
  header : Octets
  header_length : header.length = 4

namespace WrittenAnswer

variable (a : WrittenAnswer)

/-- The writer when the constructor is done. -/
def start : Option ResponseRun :=
  ResponseRun.start a.qname a.qtype a.qclass a.opcode a.d_sor a.d_rollbackmarker

/-- The writer in the end. -/
def finish : Option ResponseRun := run ResponseRun.step a.start a.calls

/-- The packet. -/
def packet : Option Octets := a.finish.map fun s => withHeader a.header s.records.writer.d_content

/-- The records that were started and not rolled back. -/
def records : List StartedRecord := (a.finish.map fun s => s.records.started).getD []

/-- The question as it stands in the packet. -/
def question : Octets := RecordRun.question a.qname a.qtype a.qclass

/-- The packet with other records and another header. -/
def withRecords (header : Octets) (rs : List StartedRecord) : Octets :=
  withHeader header (layout a.opcode a.question rs)

/-- Every call keeps the framing, and no record is open in the end. -/
def WellFramed : Prop :=
  Guarded ResponseRun.step ResponseRun.KeepsFraming a.start a.calls ∧
    ∀ s ∈ a.finish, s.records.writer.d_stuff ≠ 10

instance : Decidable a.WellFramed := by
  unfold WellFramed
  infer_instance

end WrittenAnswer

/-- A well framed answer is the packet of its records. -/
theorem WrittenAnswer.WellFramed.framed {a : WrittenAnswer} (h : a.WellFramed) :
    a.packet = some (a.withRecords a.header a.records) ∧
      (∃ content, AllFramed a.opcode a.question content a.records) ∧
        ∀ r ∈ a.records, NameOctets r.owner := by
  obtain ⟨hcalls, hidle⟩ := h
  obtain ⟨s, hs, howners, hframed⟩ := ResponseRun.response_framed a.qname a.qtype a.qclass a.opcode
    a.d_sor a.d_rollbackmarker hcalls
  have hfinish : a.finish = some s := hs
  have hrecords : a.records = s.records.started := by
    unfold WrittenAnswer.records
    rw [hfinish]
    rfl
  have hall := hframed (hidle s hfinish)
  rw [hrecords]
  refine ⟨?_, ⟨_, hall⟩, howners⟩
  unfold WrittenAnswer.packet WrittenAnswer.withRecords
  rw [hfinish, map_some, hall.content]
  rfl

/-- A call of the cache. -/
inductive CacheOp
  | insertResponsePacket (answer : WrittenAnswer) (now : Nat) (ttl : UInt32)
  | getResponsePacket (queryPacket : Octets) (now : Nat)

/-- The cache, the time of the last call, and the answers that were stored, with the time. -/
structure CacheRun (T : Type) where
  d_packetCache : T
  clock : Nat := 0
  stored : List (WrittenAnswer × Nat) := []

namespace CacheRun

/-- One call. What throws leaves the cache as it is. -/
def step (s : CacheRun T) : CacheOp → CacheRun T
  | .insertResponsePacket a now ttl =>
    match a.packet.bind fun packet => insertResponsePacket k s.d_packetCache packet now ttl with
    | some c => { d_packetCache := c, clock := now, stored := s.stored ++ [(a, now)] }
    | none => { s with clock := now }
  | .getResponsePacket query now =>
    match getResponsePacket k s.d_packetCache query now with
    | some (c, _) => { s with d_packetCache := c, clock := now }
    | none => { s with clock := now }

/-- The cache at the beginning. -/
def initial : CacheRun T := { d_packetCache := k.empty }

/-- The calls that ageing can rely on. The clock does not go back, and a packet is stored for no
longer than the TTL of any of its records; the packet is framed, and the clock stays below 2^32
when an answer is looked for. -/
def Ageable (s : CacheRun T) : CacheOp → Prop
  | .insertResponsePacket a now ttl =>
    s.clock ≤ now ∧ (∀ r ∈ a.records, ttl ≤ r.ttl) ∧ a.WellFramed
  | .getResponsePacket _ now => s.clock ≤ now ∧ now < 2 ^ 32

instance decidableAgeable (s : CacheRun T) : ∀ o, Decidable (Ageable s o)
  | .insertResponsePacket a now ttl => inferInstanceAs (Decidable
      (s.clock ≤ now ∧ (∀ r ∈ a.records, ttl ≤ r.ttl) ∧ a.WellFramed))
  | .getResponsePacket _ now => inferInstanceAs (Decidable (s.clock ≤ now ∧ now < 2 ^ 32))

/-- What is known of an entry: it is an answer that was stored at a time not after the last call,
in a framed packet, and for no longer than the TTLs of its records. -/
structure EntryOf (s : CacheRun T) (e : Entry) (a : WrittenAnswer) (stored : Nat) : Prop where
  mem : (a, stored) ∈ s.stored
  le_clock : stored ≤ s.clock
  packet : e.d_packet = a.withRecords a.header a.records
  owners : ∀ r ∈ a.records, NameOctets r.owner
  framed : ∃ content, AllFramed a.opcode a.question content a.records
  creation : e.d_creation = UInt32.ofNat stored
  ttd : ∃ ttl, e.d_ttd = UInt32.ofNat stored + ttl ∧ ∀ r ∈ a.records, ttl ≤ r.ttl

/-- Every entry is an answer that was stored. -/
def AllStored (s : CacheRun T) : Prop :=
  ∀ e ∈ k.items s.d_packetCache, ∃ a stored, EntryOf s e a stored

/-! ### One call -/

variable {k}

/-- Entries stay what they are when time passes and more is stored. -/
theorem EntryOf.later {s s' : CacheRun T} {e : Entry} {a : WrittenAnswer} {stored : Nat}
    (h : EntryOf s e a stored) (hclock : s.clock ≤ s'.clock) (hstored : s.stored <+: s'.stored) :
    EntryOf s' e a stored :=
  ⟨hstored.subset h.mem, h.le_clock.trans hclock, h.packet, h.owners, h.framed, h.creation, h.ttd⟩

/-- Everything that looking for an answer can do: nothing is found, or an entry that is fresh, or
one that is not. -/
theorem getResponsePacket_cases {c c' : T} {query : Octets} {now : Nat}
    {response : Option (Octets × UInt32)}
    (h : RecursorPacketCache.getResponsePacket k c query now = some (c', response)) :
    (c' = c ∧ response = none) ∨ ∃ e, k.find c query = some (some e) ∧
      ((UInt32.ofNat now < e.d_ttd ∧ c' = k.relocate c e false ∧
          response = some (query.getD 0 0 :: query.getD 1 0 :: e.d_packet.drop 2,
            UInt32.ofNat now - e.d_creation)) ∨
        (c' = k.relocate c e true ∧ response = none)) := by
  obtain ⟨found, hfound, h⟩ := bind_eq_some_iff.mp h
  cases found with
  | none =>
    obtain ⟨rfl, rfl⟩ := Prod.mk.inj (some.inj h)
    exact .inl ⟨rfl, rfl⟩
  | some e =>
    dsimp only at h
    split at h
    next hfresh =>
      obtain ⟨rfl, rfl⟩ := Prod.mk.inj (some.inj h)
      exact .inr ⟨e, hfound, .inl ⟨hfresh, rfl, rfl⟩⟩
    next =>
      obtain ⟨rfl, rfl⟩ := Prod.mk.inj (some.inj h)
      exact .inr ⟨e, hfound, .inr ⟨rfl, rfl⟩⟩

/-- Nothing is found that is not there, so looking for an answer adds no entries. -/
theorem mem_getResponsePacket {c c' : T} {query : Octets} {now : Nat}
    {response : Option (Octets × UInt32)} {x : Entry}
    (h : RecursorPacketCache.getResponsePacket k c query now = some (c', response))
    (hx : x ∈ k.items c') : x ∈ k.items c := by
  rcases getResponsePacket_cases h with ⟨rfl, -⟩ | ⟨e, -, ⟨-, rfl, -⟩ | ⟨rfl, -⟩⟩
  · exact hx
  · exact k.mem_relocate hx
  · exact k.mem_relocate hx

/-- The only entry that is added is the new one. -/
theorem mem_insertResponsePacket {c c' : T} {packet : Octets} {now : Nat} {ttl : UInt32} {x : Entry}
    (h : RecursorPacketCache.insertResponsePacket k c packet now ttl = some c')
    (hx : x ∈ k.items c') :
    x ∈ k.items c ∨ x = { d_packet := packet, d_ttd := UInt32.ofNat now + ttl,
                          d_creation := UInt32.ofNat now } := by
  obtain ⟨found, -, h⟩ := bind_eq_some_iff.mp h
  cases found with
  | none => exact k.mem_insert h hx
  | some iter =>
    obtain rfl := some.inj h
    exact k.mem_assign hx

/-- **One call** leaves only entries that are answers that were stored. -/
theorem step_allStored {s : CacheRun T} {o : CacheOp} (hinv : AllStored k s) (hok : Ageable s o) :
    AllStored k (step k s o) := by
  -- an entry that was there before
  have hold : ∀ {e : Entry} {s' : CacheRun T}, e ∈ k.items s.d_packetCache → s.clock ≤ s'.clock →
      s.stored <+: s'.stored → ∃ a stored, EntryOf s' e a stored := by
    intro e s' he hclock hstored
    obtain ⟨a, stored, h⟩ := hinv e he
    exact ⟨a, stored, h.later hclock hstored⟩
  cases o with
  | getResponsePacket query now =>
    simp only [step]
    split
    next c response hget =>
      exact fun e he => hold (mem_getResponsePacket hget he) hok.1 (prefix_refl _)
    next => exact fun e he => hold he hok.1 (prefix_refl _)
  | insertResponsePacket a now ttl =>
    obtain ⟨hclock, httl, hwell⟩ := hok
    obtain ⟨hpacket, hframed, howners⟩ := hwell.framed
    simp only [step, hpacket, bind_some]
    split
    next c hinsert =>
      intro e he
      rcases mem_insertResponsePacket hinsert he with hbefore | rfl
      · exact hold hbefore hclock (prefix_append _ _)
      · exact ⟨a, now, mem_append_right _ (mem_singleton.mpr rfl), le_rfl, rfl, howners,
          hframed, rfl, ttl, rfl, httl⟩
    next => exact fun e he => hold he hclock (prefix_refl _)

/-! ### Answers -/

variable (k)

/-- The answer to `query` at `now` is an answer that was stored at an earlier time, with the id
of the query, and with the age taken from the TTLs of the records before the first OPT record;
the TTL of no record is less than the age. -/
structure AgedAnswer (s : CacheRun T) (query : Octets) (now : Nat) (response : Octets)
    (e : Entry) (a : WrittenAnswer) (stored : Nat) : Prop where
  found : k.find s.d_packetCache query = some (some e)
  mem : (a, stored) ∈ s.stored
  stored_le : stored ≤ now
  packet : e.d_packet = a.withRecords a.header a.records
  response : response =
    a.withRecords (query.getD 0 0 :: query.getD 1 0 :: a.header.drop 2)
      (agedRecords (UInt32.ofNat (now - stored)) a.records)
  no_wrap : ∀ r ∈ a.records,
    (r.ttl - UInt32.ofNat (now - stored)).toNat + (now - stored) = r.ttl.toNat

variable {k}

/-- The age of an entry that is fresh is less than its time to live, as long as the clock is
below 2^32. -/
theorem age_lt_ttl {stored now : Nat} {ttl : UInt32} (hle : stored ≤ now) (hnow : now < 2 ^ 32)
    (hfresh : UInt32.ofNat now < UInt32.ofNat stored + ttl) : now - stored < ttl.toNat := by
  rw [UInt32.lt_iff_toNat_lt, UInt32.toNat_add, UInt32.toNat_ofNat', UInt32.toNat_ofNat',
    Nat.mod_eq_of_lt hnow, Nat.mod_eq_of_lt (show stored < 2 ^ 32 by omega)] at hfresh
  have hlt := ttl.toNat_lt
  -- a sum that wraps is below `stored`, so nothing is fresh
  by_cases hwrap : stored + ttl.toNat < 2 ^ 32
  · rw [Nat.mod_eq_of_lt hwrap] at hfresh
    omega
  · rw [Nat.mod_eq_sub_mod (not_lt.mp hwrap), Nat.mod_eq_of_lt (by omega)] at hfresh
    omega

/-- The age in 32 bits. -/
theorem ofNat_sub_ofNat {stored now : Nat} (hle : stored ≤ now) :
    UInt32.ofNat now - UInt32.ofNat stored = UInt32.ofNat (now - stored) := by
  rw [← UInt32.toNat_inj, UInt32.toNat_sub, UInt32.toNat_ofNat', UInt32.toNat_ofNat',
    UInt32.toNat_ofNat']
  omega

/-- The id is put into the header of a packet. -/
theorem withId_withRecords (a : WrittenAnswer) (x y : UInt8) :
    x :: y :: (a.withRecords a.header a.records).drop 2 =
      a.withRecords (x :: y :: a.header.drop 2) a.records := by
  unfold WrittenAnswer.withRecords withHeader
  rw [drop_append_of_le_length (by rw [a.header_length]; decide)]
  rfl

/-- **One answer** is aged. -/
theorem answer_aged {s : CacheRun T} {query : Octets} {now : Nat} {response : Octets}
    (hinv : AllStored k s) (hclock : s.clock ≤ now) (hnow : now < 2 ^ 32)
    (h : answerFromCache k s.d_packetCache query now = some response) :
    ∃ e a stored, AgedAnswer k s query now response e a stored := by
  unfold answerFromCache at h
  split at h
  next c packet age hget =>
    rcases getResponsePacket_cases hget with ⟨-, hnone⟩ | ⟨e, hfound, ⟨hfresh, -, hsome⟩ | ⟨-, hnone⟩⟩
    · cases hnone
    · obtain ⟨rfl, rfl⟩ := Prod.mk.inj (some.inj hsome)
      obtain ⟨a, stored, hmem, hle, hpacket, howners, ⟨content, hframed⟩, hcreation, ttl, httd, httl⟩ :=
        hinv e (k.mem_of_find hfound)
      have hstored : stored ≤ now := hle.trans hclock
      rw [httd] at hfresh
      have hlt := age_lt_ttl hstored hnow hfresh
      refine ⟨e, a, stored, hfound, hmem, hstored, hpacket, ?_, ?_⟩
      · rw [← some.inj h, hpacket, hcreation, withId_withRecords, ofNat_sub_ofNat hstored]
        have hheader : (query.getD 0 0 :: query.getD 1 0 :: a.header.drop 2).length = 4 := by
          simp [a.header_length]
        have hqname : NameOctets (wireLabels a.qname.labels) := nameOctets_wireLabels a.qname.wf
        unfold WrittenAnswer.withRecords
        rw [← hframed.content]
        exact ageDNSPacket_layout hheader hqname a.qtype a.qclass hframed howners _
      · intro r hr
        have hage : now - stored < r.ttl.toNat :=
          hlt.trans_le (le_iff_toNat_le.mp (httl r hr))
        have htoNat : (UInt32.ofNat (now - stored)).toNat = now - stored := by
          rw [toNat_ofNat', Nat.mod_eq_of_lt (hage.trans r.ttl.toNat_lt)]
        have hle : UInt32.ofNat (now - stored) ≤ r.ttl := by
          rw [le_iff_toNat_le, htoNat]
          exact hage.le
        rw [UInt32.toNat_sub_of_le _ _ hle, htoNat]
        exact Nat.sub_add_cancel hage.le
    · cases hnone
  next => cases h

/-- **Aged answers.** In a history that ageing can rely on, an answer from the cache is a packet
that was stored: it has the id of the query, the TTL of every record before the first OPT record
is lower by the age, and no other octet is changed. No access is made outside a packet,
whatever the packet is. -/
theorem aged_answer (k : PacketContainer T) {ops : List CacheOp} {query : Octets} {now : Nat}
    (h : Guarded (step k) Ageable (initial k) (ops ++ [.getResponsePacket query now])) :
    (∀ response,
      answerFromCache k (run (step k) (initial k) ops).d_packetCache query now = some response →
        ∃ e a stored, AgedAnswer k (run (step k) (initial k) ops) query now response e a stored) ∧
    ∀ (packet : Octets) (seconds : UInt32) (e : MangleError), ¬packet.length < 12 →
      ((agePacket seconds).run { d_packet := packet }).1 = .error e → e = .rangeError := by
  refine ⟨fun response hresponse => ?_, fun packet seconds e hlen herror =>
    ageDNSPacket_never_outside hlen seconds herror⟩
  rw [guarded_append] at h
  obtain ⟨hops, ⟨hclock, hnow⟩, -⟩ := h
  have hempty : AllStored k (initial k) := by
    intro e he
    change e ∈ k.items k.empty at he
    rw [k.items_empty] at he
    cases he
  exact answer_aged (run_invariant (fun _ _ => step_allStored) hempty hops) hclock hnow hresponse

/-! ### A record without rdata -/

/-- A container that is a list, in which the first entry that is neither before nor behind a
packet is found. -/
def listContainer : PacketContainer (List Entry) where
  items := id
  empty := []
  find c q := some (c.find? fun e =>
    entryLess e.d_packet q = some false ∧ entryLess q e.d_packet = some false)
  insert c e := some (c ++ [e])
  assign c old new := c.map fun x => if x = old then new else x
  relocate c _ _ := c
  items_empty := rfl
  mem_of_find h := mem_of_find?_eq_some (some.inj h)
  mem_insert h hx := by
    rw [← some.inj h] at hx
    exact (mem_append.mp hx).imp_right mem_singleton.mp
  mem_assign hx := by
    obtain ⟨y, hy, rfl⟩ := mem_map.mp hx
    split
    · exact .inr rfl
    · exact .inl hy
  mem_relocate hx := hx

/-- The answer to `a. ANY` with the records that these calls write. -/
def answerTo (calls : List RollbackOp) : WrittenAnswer where
  qname := RecordRun.questionName
  qtype := QType.ANY
  qclass := 1
  opcode := 0
  d_sor := 0
  d_rollbackmarker := 0
  calls := calls
  header := [0, 1, 0x80, 0x80]
  header_length := rfl

/-- A query for `a. ANY`. -/
def query : Octets := [0x12, 0x34, 0, 0, 0, 1, 0, 0, 0, 0, 0, 0, 1, 97, 0, 0, 255, 0, 1]

/-- An address with a TTL of a minute. -/
def addressCalls : List RollbackOp :=
  [.call (.startRecord RecordRun.questionName QType.A 60 1 .ANSWER),
    .call (.xfrBlob [192, 0, 2, 1]), .call .commit]

/-- An address is ten seconds older after ten seconds. -/
theorem address_aged :
    (∀ response, answerFromCache listContainer (run (step listContainer) (initial listContainer)
        [.insertResponsePacket (answerTo addressCalls) 100 60]).d_packetCache query 110 =
          some response →
        ∃ e a stored, AgedAnswer listContainer (run (step listContainer) (initial listContainer)
          [.insertResponsePacket (answerTo addressCalls) 100 60]) query 110 response e a stored) ∧
    ∀ (packet : Octets) (seconds : UInt32) (e : MangleError), ¬packet.length < 12 →
      ((agePacket seconds).run { d_packet := packet }).1 = .error e → e = .rangeError :=
  aged_answer listContainer (by decide)

/-- The same address behind a record of an unknown type with empty rdata. -/
def emptyRecordCalls : List RollbackOp :=
  .call (.startRecord RecordRun.questionName 65280 60 1 .ANSWER) :: addressCalls

/-- The record of the address. -/
def addressRecord : StartedRecord where
  qtype := QType.A
  ttl := 60
  qclass := 1
  place := .ANSWER
  owner := [0xc0, 0x0c]
  rdata := [192, 0, 2, 1]

/-- The writer leaves the record without rdata out of the count and writes only its owner, so the
walk takes the octets of the address for others: what the cache gives after ten seconds has an
address whose class is 0 and whose TTL has gone up. -/
theorem class_of_address_aged :
    ∃ packet response, (answerTo emptyRecordCalls).packet = some packet ∧
      (∀ r ∈ (answerTo emptyRecordCalls).records, 60 ≤ r.ttl) ∧
      answerFromCache listContainer (run (step listContainer) (initial listContainer)
        [.insertResponsePacket (answerTo emptyRecordCalls) 100 60]).d_packetCache query 110 =
          some response ∧
      packet.drop 21 = addressRecord.frame ∧
      response.drop 21 = ({ addressRecord with qclass := 0, ttl := 0xfff6003c } : StartedRecord).frame :=
  ⟨_, _, rfl, by decide, rfl, by decide, by decide⟩

end CacheRun

end RecursorPacketCache

end PowerDNS
