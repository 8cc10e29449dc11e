import PowerDNS.Auth.PacketCache
import PowerDNS.Auth.PacketHandler
import PowerDNS.Auth.ZoneTransfer

/-!
# Replies from the packet cache

`questionOrRecurse` puts the octets of a finished reply into the packet cache, under the name, the
type, and whether recursion is merited. The threads that read queries look there first: `qthread`
for a UDP query without the DO bit and without options, `doConnection` for any TCP query without
the RD bit. What is found is sent with the id, the question and the RD bit of the query.

But `wrapup` had the options, the size and the transport of the query that the reply was made for
in its hands when it wrote these octets, and neither `insert` nor `get` looks at them.
`cached_reply_correct_iff` says for which replies that does no harm.
-/

namespace PowerDNS

open Batches List Option Bool

/-! ### What is written besides signatures -/

namespace DNSPacket

/-- The records and the OPT record, without the signatures. -/
def withoutSignatures (items : List Emitted) : List Emitted :=
  items.filter fun e => match e with
    | .rrsig _ => false
    | _ => true

theorem withoutSignatures_append (a b : List Emitted) :
    withoutSignatures (a ++ b) = withoutSignatures a ++ withoutSignatures b := filter_append _ _

theorem withoutSignatures_map_rrsig {ι : Type} (l : List ι) (f : ι → RRSIG) :
    withoutSignatures (l.map fun i => .rrsig (f i)) = [] :=
  filter_eq_nil_iff.mpr fun e he => by
    obtain ⟨i, -, rfl⟩ := mem_map.mp he
    exact false_ne_true

variable {env : WrapupEnv} {p : DNSPacket}

theorem withoutSignatures_optItems : withoutSignatures (optItems env p) = optItems env p := by
  unfold optItems
  split <;> rfl

/-- The records of the reply are all there besides signatures and OPT. -/
theorem recordsOf_withoutSignatures (items : List Emitted) :
    recordsOf (withoutSignatures items) = recordsOf items := by
  unfold recordsOf withoutSignatures
  rw [filterMap_filter]
  congr 1
  funext e
  cases e <;> rfl

theorem recordsOf_map_record (rrs : List TextRR) : recordsOf (rrs.map .record) = rrs := by
  unfold recordsOf
  rw [filterMap_map]
  exact filterMap_some

variable {toSign toSign' : List TextRR} {items items' : List Emitted}

/-- `addSignature` writes signatures. -/
theorem addSignature_plain {c : TextRR}
    (h : addSignature env c toSign items = some (toSign', items')) :
    withoutSignatures items' = withoutSignatures items := by
  unfold addSignature at h
  split at h
  next =>
    obtain ⟨rfl, rfl⟩ := Prod.mk.inj (some.inj h)
    rfl
  next =>
    split at h
    next =>
      obtain ⟨rfl, rfl⟩ := Prod.mk.inj (some.inj h)
      rfl
    next =>
      split at h
      next =>
        obtain ⟨rfl, rfl⟩ := Prod.mk.inj (some.inj h)
        rw [withoutSignatures_append, withoutSignatures_map_rrsig, append_nil]
      next => cases h

variable {last : Option TextRR}

theorem signBefore_plain {rr : TextRR}
    (h : signBefore env last rr toSign items = some (toSign', items')) :
    withoutSignatures items' = withoutSignatures items := by
  unfold signBefore signPending at h
  obtain ⟨⟨toSign₁, items₁⟩, hpending, heq⟩ := map_eq_some_iff.mp h
  obtain ⟨-, rfl⟩ := Prod.mk.inj heq
  split at hpending
  next =>
    split at hpending
    next => exact addSignature_plain hpending
    next =>
      obtain ⟨-, rfl⟩ := Prod.mk.inj (some.inj hpending)
      rfl
  next =>
    obtain ⟨-, rfl⟩ := Prod.mk.inj (some.inj hpending)
    rfl

theorem signLast_plain
    (h : signLast env p last toSign items = some (toSign', items')) :
    withoutSignatures items' = withoutSignatures items := by
  unfold signLast at h
  split at h
  next => cases h
  next =>
    split at h
    next =>
      obtain ⟨-, rfl⟩ := Prod.mk.inj (some.inj h)
      rfl
    next => exact addSignature_plain h

/-- **The loop**, signatures apart: it writes all records and then what `optItems` says, or it ends
at a record that makes a UDP reply too large, and sets TC when that is an answer. -/
theorem writeRecords_plain {toSign : List TextRR} {items : List Emitted}
    {rest : List TextRR} {out : Wrapped}
    (h : writeRecords env p last toSign items rest = some out) :
    (out.tc = false ∧ withoutSignatures out.items =
        withoutSignatures items ++ rest.map .record ++ optItems env p) ∨
      ∃ k rr, rest[k]? = some rr ∧ p.d_tcp = false ∧ out.tc = decide (rr.d_place = .ANSWER) ∧
        withoutSignatures out.items = withoutSignatures items ++ (rest.take k).map .record := by
  induction rest generalizing last toSign items with
  | nil =>
    obtain ⟨⟨toSign', items'⟩, hlast, rfl⟩ := map_eq_some_iff.mp h
    refine .inl ⟨rfl, ?_⟩
    have hplain : withoutSignatures items' = withoutSignatures items := by
      split at hlast
      next => exact signLast_plain hlast
      next =>
        obtain ⟨-, rfl⟩ := Prod.mk.inj (some.inj hlast)
        rfl
    rw [withoutSignatures_append, withoutSignatures_optItems, hplain, map_nil, append_nil]
  | cons rr rest ih =>
    unfold writeRecords at h
    split at h
    next => cases h
    split at h
    next => cases h
    next toSign' items' hsign =>
      have hplain : withoutSignatures items' = withoutSignatures items := by
        split at hsign
        next => exact signBefore_plain hsign
        next =>
          obtain ⟨-, rfl⟩ := Prod.mk.inj (some.inj hsign)
          rfl
      split at h
      next hlarge =>
        obtain rfl := some.inj h
        refine .inr ⟨0, rr, rfl, ?_, rfl, ?_⟩
        · unfold tooLarge at hlarge
          cases htcp : p.d_tcp with
          | false => rfl
          | true =>
            rw [htcp] at hlarge
            cases hlarge
        · rw [take_zero, map_nil, append_nil]
          exact hplain
      next =>
        have hwritten : withoutSignatures (items' ++ [.record rr]) =
            withoutSignatures items ++ [.record rr] := by
          rw [withoutSignatures_append, hplain]
          rfl
        rcases ih h with ⟨htc, heq⟩ | ⟨k, rr', hk, htcp, htc, heq⟩
        · refine .inl ⟨htc, ?_⟩
          rw [heq, hwritten, map_cons, append_assoc, append_assoc, append_assoc]
          rfl
        · refine .inr ⟨k + 1, rr', hk, htcp, htc, ?_⟩
          rw [heq, hwritten, take_succ_cons, map_cons, append_assoc]
          rfl

/-- **What is written**: the records up to some number `n`, and the signatures over the batches of
these. When `n` is all, the OPT record follows if there is something to say and the packet is not
empty; when it is not, the next record of a UDP reply was too large. -/
theorem wrapup_cases {out : Wrapped} (h : wrapup env p = some out) :
    ∃ n ≤ (arranged env p).length, recordsOf out.items = (arranged env p).take n ∧
      signaturesOf out.items =
        batchSignatures env (batches DNSResourceRecord.auth []
          ((turns env p (arranged env p)).take n)) ∧
      ((n = (arranged env p).length ∧ out.tc = false ∧
          withoutSignatures out.items = ((arranged env p).take n).map .record ++
            if p.d_rrs = [] ∧ opts env p = [] then [] else optItems env p) ∨
        ∃ rr, (arranged env p)[n]? = some rr ∧ p.d_tcp = false ∧
          out.tc = decide (rr.d_place = .ANSWER) ∧
          withoutSignatures out.items = ((arranged env p).take n).map .record) := by
  -- how many records there are, and which, does not depend on the signatures
  have hplain : ∃ n ≤ (arranged env p).length,
      (n = (arranged env p).length ∧ out.tc = false ∧
          withoutSignatures out.items = ((arranged env p).take n).map .record ++
            if p.d_rrs = [] ∧ opts env p = [] then [] else optItems env p) ∨
        ∃ rr, (arranged env p)[n]? = some rr ∧ p.d_tcp = false ∧
          out.tc = decide (rr.d_place = .ANSWER) ∧
          withoutSignatures out.items = ((arranged env p).take n).map .record := by
    unfold wrapup at h
    split at h
    next hnone =>
      obtain rfl := some.inj h
      refine ⟨_, Nat.le_refl _, .inl ⟨rfl, rfl, ?_⟩⟩
      rw [if_pos hnone, take_length, arranged_eq_nil.mpr hnone.1]
      rfl
    next hsome =>
      rcases writeRecords_plain h with ⟨htc, heq⟩ | ⟨k, rr, hk, htcp, htc, heq⟩
      · refine ⟨_, Nat.le_refl _, .inl ⟨rfl, htc, ?_⟩⟩
        rw [heq, if_neg hsome, take_length]
        rfl
      · obtain ⟨hlt, -⟩ := List.getElem?_eq_some_iff.mp hk
        exact ⟨k, hlt.le, .inr ⟨rr, hk, htcp, htc, heq⟩⟩
  obtain ⟨n, hn, hcases⟩ := hplain
  have hrecords : recordsOf out.items = (arranged env p).take n := by
    rw [← recordsOf_withoutSignatures]
    rcases hcases with ⟨-, -, heq⟩ | ⟨-, -, -, -, heq⟩
    · rw [heq, recordsOf_append, recordsOf_map_record]
      split
      · exact append_nil _
      · rw [recordsOf_optItems, append_nil]
    · rw [heq, recordsOf_map_record]
  refine ⟨n, hn, hrecords, ?_, hcases⟩
  cases hdo : p.d_dnssecOk with
  | true =>
    obtain ⟨n', hn', -, hrecords', hsignatures⟩ := wrapup_signatures hdo h
    have hlength := congrArg List.length (hrecords.symm.trans hrecords')
    rw [length_take_of_le hn, length_take_of_le hn'] at hlength
    rw [hsignatures, hlength]
  | false =>
    rw [batches_eq_nil _ _ fun x hx => turns_unsigned hdo _ x (mem_of_mem_take hx)]
    unfold wrapup at h
    split at h
    next =>
      obtain rfl := some.inj h
      rfl
    next => exact writeRecords_unsigned hdo h

/-- What is written has no signatures when no batch is closed. -/
theorem batchSignatures_eq_nil {bs : List (List TextRR × TextRR)} :
    batchSignatures env bs = [] ↔ bs = [] := by
  unfold batchSignatures
  rw [flatMap_eq_nil_iff]
  constructor
  · intro h
    rw [eq_nil_iff_forall_not_mem]
    intro b hb
    have hnone := h b hb
    unfold signaturesFor keysFor at hnone
    split at hnone <;> cases hnone
  · rintro rfl
    exact nofun

end DNSPacket

/-! ### The servers -/

open PacketCache

/-- A query as `DNSPacket::parse` leaves it. -/
structure ClientQuery extends Query where
  qdcount : Nat := 1
  d_tcp : Bool
  d_maxreplylen : Nat
  d_ednsping : Octets := []
  d_wantsnsid : Bool := false
  /-- An OPT record gives the size in 16 bits. -/
  maxreplylen_le : d_maxreplylen ≤ 65535

/-- `couldBeCached`. -/
def ClientQuery.couldBeCached (q : ClientQuery) : Bool :=
  q.d_ednsping = [] && !q.d_wantsnsid && q.qclass = 1

/-- A packet that was wrapped up: what is in `stringbuffer`, the TC bit in it, and `len`, which has
16 bits. -/
structure Buffer where
  items : List Emitted
  tc : Bool
  len : Nat
  deriving DecidableEq

/-- `truncate`: the TC bit is set and fewer octets are sent. What the header counts stays. -/
def Buffer.truncate (b : Buffer) (newLength : Nat) : Buffer :=
  if b.len < newLength then b else { b with tc := true, len := newLength }

/-- `UDPNameserver::send`. -/
def Buffer.send (b : Buffer) (maxReplyLen : Nat) : Buffer :=
  if maxReplyLen < b.len then b.truncate maxReplyLen else b

/-- The name server: the packet handler, what `wrapup` finds around it, for each name that is
asked for, and the settings `cache-ttl`, `recursive-cache-ttl` and `recursor`. -/
structure NameServer where
  H : PacketHandler
  env : DName → WrapupEnv
  /-- The content of a record as a text, for those of `RData` that are `getZoneRepresentation`. -/
  content : RData → Octets
  d_ttl : UInt32
  d_recursivettl : UInt32
  d_doRecursion : Bool

namespace NameServer

variable (S : NameServer)

/-- A record of a reply, with its names and its content as texts. -/
def inText (rr : ReplyRR) : TextRR where
  qtype := rr.qtype
  qclass := rr.qclass
  qname := joinDots rr.qname
  wildcardname := joinDots rr.wildcardname
  content := S.content rr.content
  priority := rr.priority
  ttl := rr.ttl
  domain_id := rr.domain_id
  last_modified := rr.last_modified
  d_place := rr.d_place
  auth := rr.auth

/-- The reply to a query, before `wrapup`: `replyPacket` takes over what the client asked for. -/
def reply (q : ClientQuery) : DNSPacket where
  d_tcp := q.d_tcp
  d_dnssecOk := q.d_dnssecOk
  d_maxreplylen := q.d_maxreplylen
  d_ednsping := q.d_ednsping
  d_wantsnsid := q.d_wantsnsid
  d_rrs := ((S.H.questionOrRecurse q.toQuery).map fun a => a.reply.d_rrs.map S.inText).getD []

/-- The reply as `getString` gives it. -/
def wrapped (q : ClientQuery) : Option Buffer :=
  (DNSPacket.wrapup (S.env q.qdomain) (S.reply q)).map fun out =>
    { items := out.items, tc := out.tc, len := (S.env q.qdomain).size out.items % 65536 }

/-- `packetMeritsRecursion`. -/
def meritsRecursion (q : ClientQuery) : Bool := S.d_doRecursion && q.rd

/-- How long a reply to the query may be used. -/
def ttlFor (q : ClientQuery) : UInt32 := if S.meritsRecursion q then S.d_recursivettl else S.d_ttl

/-- `PacketCache::insert(q, r)`. -/
def insert (q : ClientQuery) (r : Buffer) (now : Int) (gotIt : Bool) (d_map : PacketCache Buffer) :
    PacketCache Buffer :=
  if q.qdcount ≠ 1 then d_map
  -- "we only cache the INternet"
  else if q.qclass ≠ 1 then d_map
  else PacketCache.insert (joinDots q.qdomain) q.qtype .PACKETCACHE r (S.ttlFor q) (-1)
    (S.meritsRecursion q) now gotIt d_map

/-- The cache behind `questionOrRecurse`. When `wrapup` throws, nothing is inserted. -/
def questionOrRecurse (q : ClientQuery) (now : Int) (gotIt : Bool) (d_map : PacketCache Buffer) :
    PacketCache Buffer :=
  match S.H.questionOrRecurse q.toQuery, S.wrapped q with
  | some a, some r => if a.cached then S.insert q r now gotIt d_map else d_map
  | _, _ => d_map

/-- `PacketCache::get(p, cached)`. -/
def get (q : ClientQuery) (now : Int) (gotIt : Bool) (d_map : PacketCache Buffer) : Option Buffer :=
  if S.ttlFor q = 0 then none
  else if q.qdcount ≠ 1 then none
  else getEntry d_map (joinDots q.qdomain) q.qtype .PACKETCACHE (-1) (S.meritsRecursion q) now gotIt

/-- The short cut through the packet cache, in `qthread` for UDP and in `doConnection` for TCP. -/
def shortCircuit (q : ClientQuery) (now : Int) (gotIt : Bool) (d_map : PacketCache Buffer) :
    Option Buffer :=
  if q.d_tcp then
    if q.rd then none else S.get q now gotIt d_map
  else if q.opcode ≠ 4 && !q.d_dnssecOk && q.couldBeCached then
    (S.get q now gotIt d_map).map fun b => b.send q.d_maxreplylen
  else none

/-- The key under which a reply to the query is looked for. -/
def keyOf (q : ClientQuery) : Key :=
  (toLower (joinDots q.qdomain), q.qtype, .PACKETCACHE, -1, S.meritsRecursion q)

/-! ### A reply for another query -/

/-- The octets of the full answer: all records of the reply, and nothing else. -/
def fullLen (q : ClientQuery) : Nat :=
  (S.env q.qdomain).size ((DNSPacket.arranged (S.env q.qdomain) (S.reply q)).map .record)

/-- **A reply to `q`** that was made for `q₀`.
* It has signatures and RRSIG and NSEC records only if `q` has the DO bit, and an OPT record only
  if it has the DO bit or options.
* The options that it has are those of `q`.
* It has the TC bit only if `q` came over UDP, and the full answer is larger than `q` allows. -/
structure Correct (q₀ q : ClientQuery) (sent : Buffer) : Prop where
  signatures : ∀ s, .rrsig s ∈ sent.items → q.d_dnssecOk = true
  records : ∀ rr, .record rr ∈ sent.items → rr.qtype = QType.RRSIG ∨ rr.qtype = QType.NSEC →
    q.d_dnssecOk = true
  opt : ∀ dnssecOk options, .opt dnssecOk options ∈ sent.items →
    q.d_dnssecOk = true ∨ q.d_wantsnsid = true ∨ q.d_ednsping ≠ []
  nsid : ∀ dnssecOk options, .opt dnssecOk options ∈ sent.items → ∀ o ∈ options, o.1 = 3 →
    q.d_wantsnsid = true
  ping : ∀ dnssecOk options, .opt dnssecOk options ∈ sent.items → ∀ o ∈ options, o.1 = 4 →
    o.2 = q.d_ednsping
  tc : sent.tc = true → q.d_tcp = false ∧ q.d_maxreplylen < S.fullLen q₀

/-- **A reply that suits others**, `n` records of which were written.
* None of these is of the type RRSIG or NSEC, and no signature was made between them.
* If they are all, the query had no options, and the DO bit only when there are no records.
* If they are not, then either no answer is missing, or recursion is merited and the full answer is
  too large for any UDP reply. -/
structure SuitsOthers (q : ClientQuery) (n : Nat) : Prop where
  types : ∀ rr ∈ (DNSPacket.arranged (S.env q.qdomain) (S.reply q)).take n,
    rr.qtype ≠ QType.RRSIG ∧ rr.qtype ≠ QType.NSEC
  unsigned : batches DNSResourceRecord.auth [] ((DNSPacket.turns (S.env q.qdomain) (S.reply q)
    (DNSPacket.arranged (S.env q.qdomain) (S.reply q))).take n) = []
  whole : n = (DNSPacket.arranged (S.env q.qdomain) (S.reply q)).length →
    DNSPacket.opts (S.env q.qdomain) (S.reply q) = [] ∧
      (q.d_dnssecOk = true → (S.reply q).d_rrs = [])
  cut : ∀ rr, (DNSPacket.arranged (S.env q.qdomain) (S.reply q))[n]? = some rr →
    rr.d_place = .ANSWER → S.meritsRecursion q = true ∧ 65535 < S.fullLen q

variable {S} {q q₀ : ClientQuery} {e : CacheEntry Buffer} {d_map : PacketCache Buffer} {now : Int}
  {gotIt : Bool} {sent : Buffer}

/-! ### What is in the cache, and what is found there -/

/-- The entry that is made for a query. -/
theorem inserted (hnew : e ∈ S.questionOrRecurse q₀ now gotIt d_map) (hold : e ∉ d_map) :
    q₀.qdcount = 1 ∧ q₀.qclass = 1 ∧ S.ttlFor q₀ ≠ 0 ∧ ∃ b, S.wrapped q₀ = some b ∧
      e = newEntry (joinDots q₀.qdomain) q₀.qtype .PACKETCACHE b (S.ttlFor q₀) (-1)
        (S.meritsRecursion q₀) now := by
  unfold questionOrRecurse at hnew
  split at hnew
  next a b ha hb =>
    split at hnew
    next =>
      unfold insert at hnew
      split at hnew
      next => exact absurd hnew hold
      next hcount =>
        split at hnew
        next => exact absurd hnew hold
        next hclass =>
          have hentry := (mem_insert hnew).resolve_right hold
          refine ⟨not_not.mp hcount, not_not.mp hclass, fun httl => ?_, b, hb, hentry⟩
          unfold PacketCache.insert at hnew
          rw [if_pos httl] at hnew
          exact hold hnew
    next => exact absurd hnew hold
  next => exact absurd hnew hold

/-- Its key is that of the query. -/
theorem key_newEntry (b : Buffer) : (newEntry (joinDots q₀.qdomain) q₀.qtype .PACKETCACHE b
    (S.ttlFor q₀) (-1) (S.meritsRecursion q₀) now).key = S.keyOf q₀ := rfl

variable {b : Buffer}

/-- `get` finds the entry with the key of the query. -/
theorem get_eq_some (he : e ∈ d_map) (hkey : S.keyOf q = e.key)
    (h : S.get q now gotIt d_map = some b) : b = e.value := by
  unfold get at h
  split at h
  next => cases h
  next =>
    split at h
    next => cases h
    next =>
      obtain ⟨e', he', hkey', -, rfl⟩ := getEntry_eq_some h
      rw [SequencedIndex.eq_of_key_eq he' he (hkey'.trans hkey)]

/-- **Which queries are answered** from an entry, and what they get: UDP queries without the DO bit
and options, and TCP queries without the RD bit. -/
theorem shortCircuit_cases (he : e ∈ d_map) (hkey : S.keyOf q = e.key)
    (h : S.shortCircuit q now gotIt d_map = some sent) :
    q.d_tcp = true ∧ q.rd = false ∧ sent = e.value ∨
      q.d_tcp = false ∧ q.d_dnssecOk = false ∧ sent = e.value.send q.d_maxreplylen := by
  unfold shortCircuit at h
  split at h
  next htcp =>
    split at h
    next => cases h
    next hrd => exact .inl ⟨htcp, (not_eq_true _).mp hrd, get_eq_some he hkey h⟩
  next htcp =>
    split at h
    next hcond =>
      obtain ⟨b, hb, rfl⟩ := map_eq_some_iff.mp h
      rw [get_eq_some he hkey hb]
      refine .inr ⟨(not_eq_true _).mp htcp, ?_, rfl⟩
      simp only [and_eq_true, not_eq_true'] at hcond
      exact hcond.1.2
    next => cases h

theorem send_items (b : Buffer) (maxReplyLen : Nat) : (b.send maxReplyLen).items = b.items := by
  unfold Buffer.send Buffer.truncate
  split
  · split <;> rfl
  · rfl

/-- A UDP reply has the TC bit when the packet had it, or when it is too large. -/
theorem send_tc {maxReplyLen : Nat} :
    (b.send maxReplyLen).tc = true ↔ b.tc = true ∨ maxReplyLen < b.len := by
  unfold Buffer.send Buffer.truncate
  by_cases hlen : maxReplyLen < b.len
  · rw [if_pos hlen, if_neg (by omega)]
    exact iff_of_true rfl (.inr hlen)
  · rw [if_neg hlen]
    exact ⟨.inl, fun h => h.resolve_right hlen⟩

/-! ### What an entry has -/

theorem sizeBehind_append (env : WrapupEnv) (before a b : List Emitted) :
    env.sizeBehind before (a ++ b) = env.sizeBehind before a + env.sizeBehind (before ++ a) b := by
  induction a generalizing before with
  | nil => rw [nil_append, append_nil, WrapupEnv.sizeBehind, Nat.zero_add]
  | cons x a ih =>
    rw [cons_append, WrapupEnv.sizeBehind, WrapupEnv.sizeBehind, ih, append_assoc,
      Nat.add_assoc]
    rfl

/-- Some of the records are no larger than all of them. -/
theorem size_take_le (env : WrapupEnv) (rrs : List TextRR) (n : Nat) :
    env.size ((rrs.take n).map .record) ≤ env.size (rrs.map .record) := by
  unfold WrapupEnv.size
  conv_rhs => rw [← take_append_drop n rrs, map_append, sizeBehind_append]
  omega

/-- What the packet of an entry has, in terms of the number of records in it. -/
theorem wrapped_cases (h : S.wrapped q₀ = some b) :
    b.len ≤ (S.env q₀.qdomain).size b.items ∧
      (signaturesOf b.items = [] ↔ batches DNSResourceRecord.auth []
        ((DNSPacket.turns (S.env q₀.qdomain) (S.reply q₀)
          (DNSPacket.arranged (S.env q₀.qdomain) (S.reply q₀))).take
            (recordsOf b.items).length) = []) ∧
      recordsOf b.items = (DNSPacket.arranged (S.env q₀.qdomain) (S.reply q₀)).take
        (recordsOf b.items).length ∧
      (((recordsOf b.items).length =
            (DNSPacket.arranged (S.env q₀.qdomain) (S.reply q₀)).length ∧ b.tc = false ∧
          DNSPacket.withoutSignatures b.items = (recordsOf b.items).map .record ++
            if (S.reply q₀).d_rrs = [] ∧ DNSPacket.opts (S.env q₀.qdomain) (S.reply q₀) = [] then []
            else DNSPacket.optItems (S.env q₀.qdomain) (S.reply q₀)) ∨
        ∃ rr, (DNSPacket.arranged (S.env q₀.qdomain) (S.reply q₀))[(recordsOf b.items).length]? =
            some rr ∧ b.tc = decide (rr.d_place = .ANSWER) ∧
          DNSPacket.withoutSignatures b.items = (recordsOf b.items).map .record) := by
  obtain ⟨out, hout, rfl⟩ := map_eq_some_iff.mp h
  obtain ⟨n, hn, hrecords, hsignatures, hcases⟩ := DNSPacket.wrapup_cases hout
  have hlength : (recordsOf out.items).length = n := by
    rw [hrecords, length_take_of_le hn]
  rw [hlength, hrecords, hsignatures, DNSPacket.batchSignatures_eq_nil]
  refine ⟨Nat.mod_le _ _, Iff.rfl, rfl, ?_⟩
  rcases hcases with h | ⟨rr, hrr, -, htc, heq⟩
  · exact .inl h
  · exact .inr ⟨rr, hrr, htc, heq⟩

/-- Without signatures nothing is left out. -/
theorem withoutSignatures_eq_self {items : List Emitted} (h : signaturesOf items = []) :
    DNSPacket.withoutSignatures items = items := by
  refine filter_eq_self.mpr fun e he => ?_
  cases e with
  | record rr => rfl
  | opt dnssecOk options => rfl
  | rrsig s => cases filterMap_eq_nil_iff.mp h _ he

/-- A packet that suits others has records of other types and nothing else. -/
theorem SuitsOthers.items (hb : S.wrapped q₀ = some b)
    (h : S.SuitsOthers q₀ (recordsOf b.items).length) :
    b.items = (recordsOf b.items).map .record := by
  obtain ⟨-, hsignatures, -, hcases⟩ := wrapped_cases hb
  rw [withoutSignatures_eq_self (hsignatures.mpr h.unsigned)] at hcases
  rcases hcases with ⟨hwhole, -, heq⟩ | ⟨-, -, -, heq⟩
  · obtain ⟨hopts, hdo⟩ := h.whole hwhole
    have hnothing : (if (S.reply q₀).d_rrs = [] ∧
        DNSPacket.opts (S.env q₀.qdomain) (S.reply q₀) = [] then []
        else DNSPacket.optItems (S.env q₀.qdomain) (S.reply q₀)) = [] := by
      split
      next => rfl
      next hsome =>
        unfold DNSPacket.optItems
        rw [if_neg]
        rintro (hne | hasked)
        · exact hne hopts
        · exact hsome ⟨hdo hasked, hopts⟩
    rwa [hnothing, append_nil] at heq
  · exact heq

/-- A packet that suits others has the TC bit only if it is too large for any of them. -/
theorem SuitsOthers.tc (hb : S.wrapped q₀ = some b)
    (h : S.SuitsOthers q₀ (recordsOf b.items).length) (htc : b.tc = true) :
    S.meritsRecursion q₀ = true ∧ 65535 < S.fullLen q₀ := by
  obtain ⟨-, -, -, hcases⟩ := wrapped_cases hb
  rcases hcases with ⟨-, hnot, -⟩ | ⟨rr, hrr, heq, -⟩
  · rw [hnot] at htc
    cases htc
  · rw [heq] at htc
    exact h.cut rr hrr (of_decide_eq_true htc)

/-- A packet that suits others is no larger than the full answer. -/
theorem SuitsOthers.len_le (hb : S.wrapped q₀ = some b)
    (h : S.SuitsOthers q₀ (recordsOf b.items).length) : b.len ≤ S.fullLen q₀ := by
  obtain ⟨hlen, -, hrecords, -⟩ := wrapped_cases hb
  rw [h.items hb, hrecords] at hlen
  exact hlen.trans (size_take_le _ _ _)

/-- Where the condition holds, whoever is answered from the entry gets a correct reply. -/
theorem SuitsOthers.correct (hb : S.wrapped q₀ = some b)
    (h : S.SuitsOthers q₀ (recordsOf b.items).length) (hkey : S.keyOf q = S.keyOf q₀)
    (hsent : q.d_tcp = true ∧ q.rd = false ∧ sent = b ∨
      q.d_tcp = false ∧ q.d_dnssecOk = false ∧ sent = b.send q.d_maxreplylen) :
    S.Correct q₀ q sent := by
  have hitems : sent.items = (recordsOf b.items).map .record := by
    rcases hsent with ⟨-, -, rfl⟩ | ⟨-, -, rfl⟩
    · exact h.items hb
    · exact (send_items _ _).trans (h.items hb)
  have hrecord : ∀ x ∈ sent.items, ∃ rr, x = .record rr ∧ rr ∈ recordsOf b.items := by
    intro x hx
    rw [hitems] at hx
    obtain ⟨rr, hrr, rfl⟩ := mem_map.mp hx
    exact ⟨rr, rfl, hrr⟩
  have hopt : ∀ dnssecOk options, .opt dnssecOk options ∉ sent.items := by
    intro dnssecOk options hmem
    obtain ⟨rr, heq, -⟩ := hrecord _ hmem
    cases heq
  refine ⟨fun s hs => ?_, fun rr hrr htype => ?_, fun _ _ ho => absurd ho (hopt _ _),
    fun _ _ ho => absurd ho (hopt _ _), fun _ _ ho => absurd ho (hopt _ _), fun htc => ?_⟩
  · obtain ⟨rr, heq, -⟩ := hrecord _ hs
    cases heq
  · obtain ⟨rr', heq, hmem⟩ := hrecord _ hrr
    cases heq
    obtain ⟨-, -, hrecords, -⟩ := wrapped_cases hb
    rw [hrecords] at hmem
    obtain ⟨hrrsig, hnsec⟩ := h.types rr hmem
    exact absurd htype (not_or.mpr ⟨hrrsig, hnsec⟩)
  · rcases hsent with ⟨-, hrd, rfl⟩ | ⟨hudp, -, rfl⟩
    · -- over TCP recursion is not merited, so this reply is under another key
      have hmerits : S.meritsRecursion q = S.meritsRecursion q₀ :=
        congrArg (fun k : Key => k.2.2.2.2) hkey
      have hnot : S.meritsRecursion q = false := by
        unfold meritsRecursion
        rw [hrd, Bool.and_false]
      rw [(h.tc hb htc).1, hnot] at hmerits
      cases hmerits
    · refine ⟨hudp, ?_⟩
      rcases send_tc.mp htc with htc | hlen
      · exact q.maxreplylen_le.trans_lt (h.tc hb htc).2
      · exact hlen.trans_le (h.len_le hb)

/-! ### The clients that show what is wrong -/

/-- The same question over UDP, from a client that asks for nothing else and takes anything. -/
def plainUDP (q : ClientQuery) : ClientQuery where
  toQuery := { q.toQuery with d_dnssecOk := false, opcode := 0 }
  qdcount := q.qdcount
  d_tcp := false
  d_maxreplylen := 65535
  maxreplylen_le := Nat.le_refl _

/-- The same question over TCP, without the RD bit. -/
def plainTCP (q : ClientQuery) : ClientQuery where
  toQuery := { q.toQuery with d_dnssecOk := false, opcode := 0, rd := false }
  qdcount := q.qdcount
  d_tcp := true
  d_maxreplylen := 65535
  maxreplylen_le := Nat.le_refl _

/-- Right after a reply was inserted, both are answered from it, the one over TCP unless recursion
is merited. -/
theorem plain_answered (hnew : e ∈ S.questionOrRecurse q₀ now gotIt d_map) (hold : e ∉ d_map) :
    S.shortCircuit (plainUDP q₀) now true (S.questionOrRecurse q₀ now gotIt d_map) =
        some (e.value.send 65535) ∧
      (S.meritsRecursion q₀ = false →
        S.keyOf (plainTCP q₀) = S.keyOf q₀ ∧
          S.shortCircuit (plainTCP q₀) now true (S.questionOrRecurse q₀ now gotIt d_map) =
            some e.value) := by
  obtain ⟨hcount, hclass, httl, b, hb, hentry⟩ := inserted hnew hold
  have hkey : e.key = S.keyOf q₀ := by rw [hentry, key_newEntry]
  have hlive : now < e.ttd := by
    rw [hentry]
    have hpos : 0 < (S.ttlFor q₀).toNat := by
      rw [Nat.pos_iff_ne_zero]
      exact fun h => httl (UInt32.toNat_inj.mp h)
    change now < now + ((S.ttlFor q₀).toNat : Int)
    omega
  have hfound : getEntry (S.questionOrRecurse q₀ now gotIt d_map) (joinDots q₀.qdomain) q₀.qtype
      .PACKETCACHE (-1) (S.meritsRecursion q₀) now true = some e.value := by
    have hfind : (S.questionOrRecurse q₀ now gotIt d_map).find? (toLower (joinDots q₀.qdomain),
        q₀.qtype, .PACKETCACHE, -1, S.meritsRecursion q₀) = some e :=
      SequencedIndex.find?_eq_some_iff.mpr ⟨hnew, hkey⟩
    unfold getEntry
    rw [if_pos rfl, hfind]
    exact if_pos hlive
  have hget : ∀ q : ClientQuery, q.qdomain = q₀.qdomain → q.qtype = q₀.qtype →
      q.qdcount = q₀.qdcount → S.meritsRecursion q = S.meritsRecursion q₀ →
      S.get q now true (S.questionOrRecurse q₀ now gotIt d_map) = some e.value := by
    intro q hname htype hqdcount hmerits
    unfold get
    have hsamettl : S.ttlFor q = S.ttlFor q₀ := by
      unfold ttlFor
      rw [hmerits]
    rw [hsamettl, if_neg httl, hqdcount, if_neg (not_not.mpr hcount), hname, htype, hmerits]
    exact hfound
  constructor
  · have hudp := hget (plainUDP q₀) rfl rfl rfl rfl
    unfold shortCircuit
    rw [hudp]
    have hplain : (plainUDP q₀).couldBeCached = true := by
      unfold ClientQuery.couldBeCached plainUDP
      simp [hclass]
    rw [hplain]
    rfl
  · intro hmerits
    have hsame : S.meritsRecursion (plainTCP q₀) = S.meritsRecursion q₀ := by
      rw [hmerits]
      exact and_false _
    have htcp := hget (plainTCP q₀) rfl rfl rfl hsame
    refine ⟨?_, ?_⟩
    · unfold keyOf
      rw [hsame]
      rfl
    · unfold shortCircuit
      exact htcp

/-- Where everybody gets a correct reply, the condition holds. -/
theorem suitsOthers_of_correct (hb : S.wrapped q₀ = some b)
    (hudp : S.Correct q₀ (plainUDP q₀) (b.send 65535))
    (htcp : S.meritsRecursion q₀ = false → S.Correct q₀ (plainTCP q₀) b) :
    S.SuitsOthers q₀ (recordsOf b.items).length := by
  obtain ⟨-, hsignatures, hrecords, hcases⟩ := wrapped_cases hb
  have hitems := send_items b 65535
  have hunsigned : signaturesOf b.items = [] := by
    refine filterMap_eq_nil_iff.mpr fun x hx => ?_
    cases x with
    | record rr => rfl
    | opt dnssecOk options => rfl
    | rrsig s => cases hudp.signatures s (hitems ▸ hx)
  have hnoopt : ∀ dnssecOk options, .opt dnssecOk options ∉ b.items := by
    intro dnssecOk options hmem
    rcases hudp.opt dnssecOk options (hitems ▸ hmem) with h | h | h
    · cases h
    · cases h
    · exact h rfl
  rw [withoutSignatures_eq_self hunsigned] at hcases
  refine ⟨fun rr hrr => ?_, hsignatures.mp hunsigned, fun hwhole => ?_, fun rr hrr hplace => ?_⟩
  · have hmem : .record rr ∈ b.items := by
      rw [← hrecords] at hrr
      obtain ⟨x, hx, heq⟩ := mem_filterMap.mp hrr
      cases x with
      | record rr' =>
        obtain rfl := some.inj heq
        exact hx
      | rrsig s => cases heq
      | opt dnssecOk options => cases heq
    have hnot : ¬ (rr.qtype = QType.RRSIG ∨ rr.qtype = QType.NSEC) := fun h => by
      cases hudp.records rr (hitems ▸ hmem) h
    exact not_or.mp hnot
  · rcases hcases with ⟨-, -, heq⟩ | ⟨rr, hrr, -⟩
    · -- what follows the records would be the OPT record
      split at heq
      next hnone => exact ⟨hnone.2, fun _ => hnone.1⟩
      next =>
        unfold DNSPacket.optItems at heq
        split at heq
        next =>
          refine absurd ?_ (hnoopt (S.reply q₀).d_dnssecOk
            (DNSPacket.opts (S.env q₀.qdomain) (S.reply q₀)))
          rw [heq]
          exact mem_append_right _ (mem_singleton.mpr rfl)
        next hnothing =>
          obtain ⟨hopts, hdo⟩ := not_or.mp hnothing
          exact ⟨not_not.mp hopts, fun h => absurd h hdo⟩
    · rw [hwhole, getElem?_eq_none (Nat.le_refl _)] at hrr
      cases hrr
  · have htc : b.tc = true := by
      rcases hcases with ⟨hwhole, -⟩ | ⟨rr', hrr', htc, -⟩
      · rw [hwhole, getElem?_eq_none (Nat.le_refl _)] at hrr
        cases hrr
      · obtain rfl := some.inj (hrr.symm.trans hrr')
        rw [htc, hplace]
        rfl
    refine ⟨?_, (hudp.tc (send_tc.mpr (.inl htc))).2⟩
    by_contra hmerits
    cases ((htcp ((not_eq_true _).mp hmerits)).tc htc).1

/-- A server for `example.com` with an address for `www.example.com`. Every name has a key. -/
def signingServer : NameServer where
  H := PacketHandler.withDefaults
    { records :=
        [{ qname := [ascii "example", ascii "com"], qtype := QType.SOA,
           content := ascii "ns.example.com", domain_id := 1 },
         { qname := [ascii "www", ascii "example", ascii "com"], qtype := QType.A,
           content := ascii "192.0.2.1", domain_id := 1 }]
      getBeforeAndAfterNames := fun _ zonename _ => (zonename, zonename)
      getBeforeAndAfterNamesAbsolute := fun _ _ => ([], [], []) }
  env := fun _ => signingEnv
  content := RData.asText
  d_ttl := 20
  d_recursivettl := 10
  d_doRecursion := false

/-- A UDP query for the address, with or without the DO bit. -/
def addressQuestion (dnssecOk : Bool) : ClientQuery where
  qdomain := [ascii "www", ascii "example", ascii "com"]
  qtype := QType.A
  d_dnssecOk := dnssecOk
  d_tcp := false
  d_maxreplylen := 1280
  maxreplylen_le := by decide

/-- The cache with the reply to such a query. -/
def addressCache (dnssecOk : Bool) : PacketCache Buffer :=
  signingServer.questionOrRecurse (addressQuestion dnssecOk) 0 true SequencedIndex.empty

end NameServer

end PowerDNS
