import Mathlib.Data.List.Rotate
import PowerDNS.Auth.SignedReplies
import PowerDNS.Lib.OrderedUnique

/-!
# Outgoing zone transfers: `TCPNameserver::doAXFR`

Once the zone is found and listed, `doAXFR` puts its records into messages: a message is sent when
it has `chunk` records, SOA records are left out, and the NSEC records are made from `nsecrepo`, a
map from owner names to the types that were seen there. The SOA record that the transfer begins
with is not counted, the one it ends with has a message of its own and the priority 1234, which
tells `wrapup` not to sign it.

Names and contents are parameters, for the texts that go to the writer and for the labels that
the packet handler works on.

`never_halved_iff` is about the signatures in all messages of a transfer together.
-/

namespace PowerDNS

open OrderedUnique List Option UInt8

/-! ### Names in canonical order -/

/-- `stringtok` with the dot for a delimiter. -/
def stringtok (name : Octets) : List Octets := (name.splitOn dot).filter fun l => !l.isEmpty

/-- Octets are compared by their values. -/
def octetLess (a b : UInt8) : Bool := decide (a < b)

instance : StrictWeakOrder octetLess where
  asymm := by
    intro a b h
    exact decide_eq_false (UInt8.lt_asymm (of_decide_eq_true h))
  neg_trans := by
    intro a c h b
    have hac : a < c := of_decide_eq_true h
    rcases UInt8.lt_or_le a b with hab | hba
    · exact Or.inl (decide_eq_true hab)
    · exact Or.inr (decide_eq_true (UInt8.lt_of_le_of_lt hba hac))

/-- The labels of two names are compared from the last one on. -/
def canonicalLess : List Octets → List Octets → Bool :=
  onPart (lexList (lexList octetLess)) List.reverse

instance : StrictWeakOrder canonicalLess :=
  inferInstanceAs (StrictWeakOrder (onPart (lexList (lexList octetLess)) List.reverse))

/-- `CanonicalCompare`. -/
def canonicalCompare : Octets → Octets → Bool := onPart canonicalLess stringtok

instance : StrictWeakOrder canonicalCompare :=
  inferInstanceAs (StrictWeakOrder (onPart canonicalLess stringtok))

/-! ### What is put into the messages -/

/-- What a transfer depends on: how names are compared, what an NSEC record says, and the setting
`strict-rfc-axfrs`. -/
structure ZoneTransfer (N C : Type) where
  canonicalCompare : N → N → Bool
  ordered : StrictWeakOrder canonicalCompare
  /-- The content of an NSEC record, `getZoneRepresentation`. -/
  nsec : N → List UInt16 → C
  strictRfcAxfrs : Bool

namespace ZoneTransfer

variable {N C : Type} (T : ZoneTransfer N C)

instance : StrictWeakOrder T.canonicalCompare := T.ordered

/-- `nsecrepo_t`. -/
abbrev NsecRepo (T : ZoneTransfer N C) : Type :=
  Table (Prod.fst : N × List UInt16 → N) T.canonicalCompare

/-- `nsecrepo[name].insert(type)`, on an entry. -/
def noteAt (name : N) (type : UInt16) (e : N × List UInt16) : N × List UInt16 :=
  if same T.canonicalCompare e.1 name then (e.1, setInsert (fun a b => decide (a < b)) type e.2)
  else e

theorem noteAt_fst (name : N) (type : UInt16) (e : N × List UInt16) :
    (T.noteAt name type e).1 = e.1 := by
  unfold noteAt
  split <;> rfl

/-- `nsecrepo[name].insert(type)`; a name that is not there is put there first. -/
def note (name : N) (type : UInt16) (repo : T.NsecRepo) : T.NsecRepo :=
  (repo.insert (name, [])).modify (T.noteAt name type) fun a b => by
    rw [noteAt_fst, noteAt_fst]

/-- The records that count for the NSEC records. -/
def counts (rr : DNSResourceRecord N C) : Bool := rr.auth || rr.qtype = QType.NS

/-- `nsecrepo`, when the records of the zone were read. -/
def nsecrepo (rows : List (DNSResourceRecord N C)) : T.NsecRepo :=
  rows.foldl (fun repo rr => if counts rr then T.note rr.qname rr.qtype repo else repo) Table.empty

/-- The types of an NSEC record. -/
def nsecTypes (types : List UInt16) : List UInt16 :=
  setInsert (fun a b => decide (a < b)) QType.NSEC
    (setInsert (fun a b => decide (a < b)) QType.RRSIG types)

/-- The NSEC record of an entry, when the next one has the name `next`. What is not set is still
that of the record that was read last. -/
def nsecRecord (last : DNSResourceRecord N C) (e : N × List UInt16) (next : N) :
    DNSResourceRecord N C :=
  { last with
    qname := e.1
    ttl := 3600
    content := T.nsec next (nsecTypes e.2)
    qtype := QType.NSEC
    d_place := .ANSWER }

/-- The NSEC records. Behind the last name comes the first. -/
def nsecRecords (rows : List (DNSResourceRecord N C)) : List (DNSResourceRecord N C) :=
  match rows.getLast? with
  | none => []
  | some last =>
    let repo := (T.nsecrepo rows).items
    List.zipWith (fun e next => T.nsecRecord last e next.1) repo (repo.rotate 1)

/-- `chunk`. -/
def chunk : Nat := if T.strictRfcAxfrs then 1 else 100

/-- The loop over the records of the zone: the messages that are sent, what is in the next one,
and `count`. -/
def putRows (packet : List (DNSResourceRecord N C)) (count : Nat) :
    List (DNSResourceRecord N C) →
      List (List (DNSResourceRecord N C)) × List (DNSResourceRecord N C) × Nat
  | [] => ([], packet, count)
  | rr :: rows =>
    -- "skip SOA - would indicate end of AXFR"
    if rr.qtype = QType.SOA then putRows packet count rows
    else if (count + 1) % T.chunk = 0 then
      let rest := putRows [] 0 rows
      ((packet ++ [rr]) :: rest.1, rest.2)
    else putRows (packet ++ [rr]) (count + 1) rows

/-- The messages in front of the last one, with the SOA record that the transfer begins with. -/
def transfer (soa : DNSResourceRecord N C) (rows : List (DNSResourceRecord N C)) :
    List (List (DNSResourceRecord N C)) :=
  let put := T.putRows [soa] 0 rows
  let nsecs := T.nsecRecords rows
  put.1 ++ if put.2.2 + nsecs.length ≠ 0 then [put.2.1 ++ nsecs] else []

end ZoneTransfer

/-! ### What is sent -/

open Batches DNSPacket

/-- The messages of a transfer. All but the last are signed whether the client asked for that or
not. -/
def axfrMessages (T : ZoneTransfer Octets Octets) (q : DNSPacket) (soa : TextRR)
    (rows : List TextRR) : List DNSPacket :=
  (T.transfer soa rows).map (fun rrs => { q with d_tcp := true, d_dnssecOk := true, d_rrs := rrs })
    ++ [{ q with d_tcp := true, d_rrs := [{ soa with priority := 1234 }] }]

/-- `sendPacket` one after the other. When `wrapup` throws, the transfer is over. -/
def sendPackets (env : WrapupEnv) : List DNSPacket → List Wrapped
  | [] => []
  | p :: ps =>
    match wrapup env p with
    | none => []
    | some out => out :: sendPackets env ps

/-- The signatures in messages. -/
def sentSignatures (outs : List Wrapped) : List RRSIG :=
  outs.flatMap fun out => signaturesOf out.items

/-- The records of messages, with the turns behind them. -/
def messageTurns (env : WrapupEnv) (ps : List DNSPacket) : List (TextRR × Turn) :=
  ps.flatMap fun p => turns env p (arranged env p)

/-- **When no RRset is halved**: two records of one RRset that are both signed are signed by the
same signature, so no signature is made between them, and no message ends there. -/
def KeptTogether (env : WrapupEnv) (ps : List DNSPacket) : Prop :=
  ∀ x ∈ number 0 (messageTurns env ps), ∀ y ∈ number 0 (messageTurns env ps),
    x.1.1.auth = true → y.1.1.auth = true →
      (∃ c, ClosedBehind (number 0 (messageTurns env ps)) x c) →
        (∃ c, ClosedBehind (number 0 (messageTurns env ps)) y c) →
          sameRRset x.1.1 y.1.1 = true → x.1.2 = y.1.2

section Transfers

variable {env : WrapupEnv} {p : DNSPacket}

/-- Without the DO bit nothing is signed. -/
theorem writeRecords_unsigned (hdo : p.d_dnssecOk = false) {last : Option TextRR}
    {toSign : List TextRR} {items : List Emitted} {rrs : List TextRR} {out : Wrapped}
    (h : writeRecords env p last toSign items rrs = some out) :
    signaturesOf out.items = signaturesOf items := by
  induction rrs generalizing last items with
  | nil =>
    unfold writeRecords finish at h
    rw [hdo, if_neg Bool.false_ne_true, map_some] at h
    obtain rfl := some.inj h
    rw [signaturesOf_append, signaturesOf_optItems, append_nil]
  | cons rr rrs ih =>
    unfold writeRecords at h
    rw [hdo, if_neg Bool.false_ne_true] at h
    split at h
    next => cases h
    dsimp only at h
    split at h
    next =>
      obtain rfl := some.inj h
      rfl
    next =>
      rw [ih h, signaturesOf_append]
      exact append_nil _

/-- The turns of a message that is not signed close nothing. -/
theorem turns_unsigned (hdo : p.d_dnssecOk = false) (rrs : List TextRR) :
    ∀ x ∈ turns env p rrs, x.2 ≠ .close := by
  induction rrs with
  | nil =>
    intro x hx
    cases hx
  | cons c rrs ih =>
    intro x hx
    rcases mem_cons.mp hx with rfl | hx
    · unfold turnBehind
      rw [hdo]
      cases rrs.head? <;> intro h <;> cases h
    · exact ih x hx

/-- Behind the last record of a message there is a turn. -/
theorem turns_last (rrs : List TextRR) : ∀ x ∈ (turns env p rrs).getLast?, x.2 ≠ .stay := by
  induction rrs with
  | nil => exact nofun
  | cons c rrs ih =>
    intro x hx
    cases rrs with
    | nil =>
      obtain rfl := some.inj hx
      change turnBehind env p c none ≠ .stay
      unfold turnBehind
      dsimp only
      split <;> exact nofun
    | cons c' rrs => exact ih x hx

/-- The signatures of a message over TCP, signed or not. -/
theorem wrapup_tcp_signatures (htcp : p.d_tcp = true) {out : Wrapped}
    (h : wrapup env p = some out) :
    signaturesOf out.items =
      batchSignatures env (batches DNSResourceRecord.auth [] (turns env p (arranged env p))) := by
  cases hdo : p.d_dnssecOk with
  | true =>
    obtain ⟨n, -, hn, -, hsignatures⟩ := wrapup_signatures hdo h
    rw [hsignatures, take_of_length_le]
    rw [hn htcp, ← length_map (f := Prod.fst), map_turns]
  | false =>
    rw [batches_eq_nil _ _ (turns_unsigned hdo _)]
    unfold wrapup at h
    split at h
    next =>
      obtain rfl := some.inj h
      rfl
    next => exact writeRecords_unsigned hdo h

/-- **The signatures of messages** are those over the batches of all of them. -/
theorem sendPackets_signatures {ps : List DNSPacket} (htcp : ∀ p ∈ ps, p.d_tcp = true) :
    sentSignatures (sendPackets env ps) =
      batchSignatures env (batches DNSResourceRecord.auth []
        (messageTurns env (ps.take (sendPackets env ps).length))) := by
  induction ps with
  | nil => rfl
  | cons p ps ih =>
    have htcp' : ∀ p ∈ ps, p.d_tcp = true := fun p hp => htcp p (mem_cons_of_mem _ hp)
    unfold sendPackets
    split
    next => rfl
    next out hout =>
      rw [length_cons, take_succ_cons]
      unfold messageTurns
      rw [flatMap_cons, batches_append _ (fun _ => rfl) (turns_last _)]
      unfold batchSignatures
      rw [flatMap_append]
      unfold sentSignatures
      rw [flatMap_cons, wrapup_tcp_signatures (htcp p mem_cons_self) hout]
      exact congrArg _ (ih htcp')

theorem axfrMessages_tcp (T : ZoneTransfer Octets Octets) (q : DNSPacket) (soa : TextRR)
    (rows : List TextRR) : ∀ p ∈ axfrMessages T q soa rows, p.d_tcp = true := by
  intro p hp
  rcases mem_append.mp hp with hp | hp
  · obtain ⟨rrs, -, rfl⟩ := mem_map.mp hp
    rfl
  · rw [mem_singleton.mp hp]

end Transfers

/-- **No RRset of a transfer is halved** if and only if its records are kept together. -/
theorem never_halved_iff (env : WrapupEnv) (T : ZoneTransfer Octets Octets) (q : DNSPacket)
    (soa : TextRR) (rows : List TextRR) :
    NeverHalved (sentSignatures (sendPackets env (axfrMessages T q soa rows))) ↔
      KeptTogether env ((axfrMessages T q soa rows).take
        (sendPackets env (axfrMessages T q soa rows)).length) := by
  rw [sendPackets_signatures (axfrMessages_tcp T q soa rows), neverHalved_iff,
    apart_iff sameRRset_symm]
  rfl

/-- **When RRsets are signed once and whole**, in replies and in transfers. -/
theorem signed_once_and_whole_iff (env : WrapupEnv) :
    (∀ p out, p.d_dnssecOk = true → wrapup env p = some out →
      (SignedWhole (recordsOf out.items) (signaturesOf out.items) ↔
        Signable env p (recordsOf out.items).length)) ∧
      ∀ T q soa rows,
        (NeverHalved (sentSignatures (sendPackets env (axfrMessages T q soa rows))) ↔
          KeptTogether env ((axfrMessages T q soa rows).take
            (sendPackets env (axfrMessages T q soa rows)).length)) :=
  ⟨fun _ _ hdo h => signedWhole_iff hdo h, fun T q soa rows => never_halved_iff env T q soa rows⟩

/-! ### A server that signs everything -/

/-- Every name has a key, and nothing is shuffled. -/
def signingEnv : WrapupEnv where
  noShuffle := true
  randomShuffle := fun _ rrs => rrs
  perm := fun _ _ => List.Perm.refl _
  serverId := []
  haveKSKFor := fun _ => true
  activeZSKFor := fun _ => true
  mastermake := fun _ _ => true
  start := 12
  octets := fun _ _ => 20

/-- An authoritative record of `a`. -/
def ownRecord (qtype : UInt16) (content : String) : TextRR where
  qtype := qtype
  qname := ascii "a"
  wildcardname := []
  content := ascii content
  ttl := 3600
  auth := true

/-- A reply over TCP, with the DO bit. -/
def signedReply (rrs : List TextRR) : DNSPacket where
  d_tcp := true
  d_dnssecOk := true
  d_maxreplylen := 512
  d_rrs := rrs

/-- A transfer with one record in each message. -/
def strictTransfer : ZoneTransfer Octets Octets where
  canonicalCompare := canonicalCompare
  ordered := inferInstance
  nsec := fun next _ => next
  strictRfcAxfrs := true

instance (env : WrapupEnv) (p : DNSPacket) (n : Nat) : Decidable (Signable env p n) := by
  unfold Signable
  infer_instance

/-- How many records a reply has. -/
theorem exists_wrapped {env : WrapupEnv} {p : DNSPacket} {n : Nat}
    (h : (wrapup env p).map (fun out => (recordsOf out.items).length) = some n) :
    ∃ out, wrapup env p = some out ∧ (recordsOf out.items).length = n :=
  map_eq_some_iff.mp h

/-- Two addresses in a row are signed together. -/
theorem signedWhole_of_run :
    ∃ out, wrapup signingEnv (signedReply [ownRecord QType.A "1.2.3.4", ownRecord QType.A "1.2.3.5"])
        = some out ∧ SignedWhole (recordsOf out.items) (signaturesOf out.items) := by
  obtain ⟨out, hout, hn⟩ := @exists_wrapped signingEnv (signedReply [ownRecord QType.A "1.2.3.4",
    ownRecord QType.A "1.2.3.5"]) 2 (by decide)
  refine ⟨out, hout, ((signed_once_and_whole_iff signingEnv).1 _ out rfl hout).mpr ?_⟩
  rw [hn]
  decide

/-- **RRsets are signed in parts**: the addresses on both sides of a text, and those on both sides
of the end of a message. -/
theorem signed_in_parts :
    (∃ out, wrapup signingEnv (signedReply [ownRecord QType.A "1.2.3.4", ownRecord QType.TXT "b",
        ownRecord QType.A "1.2.3.5"]) = some out ∧
      ¬SignedWhole (recordsOf out.items) (signaturesOf out.items)) ∧
    ¬NeverHalved (sentSignatures (sendPackets signingEnv (axfrMessages strictTransfer (signedReply [])
      (ownRecord QType.SOA "a b 1 2 3 4 5")
      [ownRecord QType.A "1.2.3.4", ownRecord QType.A "1.2.3.5"]))) := by
  constructor
  · obtain ⟨out, hout, hn⟩ := @exists_wrapped signingEnv (signedReply [ownRecord QType.A "1.2.3.4",
      ownRecord QType.TXT "b", ownRecord QType.A "1.2.3.5"]) 3 (by decide)
    refine ⟨out, hout, fun h => ?_⟩
    have hsignable := (signedWhole_iff rfl hout).mp h
    rw [hn] at hsignable
    revert hsignable
    decide
  · rw [sendPackets_signatures (axfrMessages_tcp _ _ _ _), neverHalved_iff]
    decide

end PowerDNS
