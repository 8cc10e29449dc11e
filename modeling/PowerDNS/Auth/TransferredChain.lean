import PowerDNS.Auth.CNAMEChains
import PowerDNS.Auth.ZoneTransfer
import PowerDNS.Lib.CyclicChain

/-!
# The NSEC chain in answers and in transfers

A zone has one NSEC record for each name of its chain, but it is made in two places. `emitNSEC`
makes it for an answer, with the next name from `getBeforeAndAfterNames` and with the types of all
records that the name has in any zone, and adds DNSKEY at the apex. `doAXFR` makes it from
`nsecrepo`, whose names are ordered and told apart octet by octet, with the types of the records
that count.

`nsec_agree_iff` says for which names of a chain the two say the same, and mention every type that
is answered.
-/

namespace PowerDNS

open OrderedUnique List

/-! ### What `nsecrepo` holds -/

namespace ZoneTransfer

variable {N C : Type} {T : ZoneTransfer N C}

/-- What `nsecrepo` holds when `rows` were read: an entry for each name with a record that counts,
and in it the types of these records. -/
structure Holds (rows : List (DNSResourceRecord N C)) (repo : T.NsecRepo) : Prop where
  named : ∀ rr ∈ rows, counts rr = true → ∃ e ∈ repo, e.1 = rr.qname
  owned : ∀ e ∈ repo, ∃ rr ∈ rows, counts rr = true ∧ rr.qname = e.1
  types : ∀ e ∈ repo, ∀ t, t ∈ e.2 ↔ ∃ rr ∈ rows, counts rr = true ∧ rr.qname = e.1 ∧ rr.qtype = t

variable (hsame : ∀ a b, same T.canonicalCompare a b = true ↔ a = b)
  {rows : List (DNSResourceRecord N C)} {rr : DNSResourceRecord N C} {repo : T.NsecRepo}

/-- A record that does not count changes nothing. -/
theorem Holds.skip (h : Holds rows repo) (hrr : counts rr = false) :
    Holds (rows ++ [rr]) repo := by
  have hiff : ∀ P : DNSResourceRecord N C → Prop,
      (∃ r ∈ rows ++ [rr], counts r = true ∧ P r) ↔ ∃ r ∈ rows, counts r = true ∧ P r := by
    intro P
    constructor
    · rintro ⟨r, hr, hcounts, hP⟩
      rcases mem_append.mp hr with hr | hr
      · exact ⟨r, hr, hcounts, hP⟩
      · rw [mem_singleton.mp hr, hrr] at hcounts
        cases hcounts
    · rintro ⟨r, hr, h⟩
      exact ⟨r, mem_append_left _ hr, h⟩
  refine ⟨fun r hr hcounts => ?_, fun e he => (hiff _).mpr (h.owned e he), fun e he t => ?_⟩
  · rcases mem_append.mp hr with hr | hr
    · exact h.named r hr hcounts
    · rw [mem_singleton.mp hr, hrr] at hcounts
      cases hcounts
  · rw [hiff]
    exact h.types e he t

include hsame

/-- The entry of the name gets the type. -/
theorem mem_noteAt {name : N} {type t : UInt16} {e : N × List UInt16} :
    t ∈ (T.noteAt name type e).2 ↔ t ∈ e.2 ∨ e.1 = name ∧ t = type := by
  unfold noteAt
  by_cases hname : e.1 = name
  · rw [if_pos ((hsame _ _).mpr hname), PacketHandler.mem_insertType]
    simp [hname, or_comm]
  · rw [if_neg (fun h => hname ((hsame _ _).mp h))]
    simp [hname]

/-- A record that counts is noted. -/
theorem Holds.note (h : Holds rows repo) (hrr : counts rr = true) :
    Holds (rows ++ [rr]) (T.note rr.qname rr.qtype repo) := by
  have hmod := @Table.mem_modify _ _ Prod.fst T.canonicalCompare (T.noteAt rr.qname rr.qtype)
    (fun a b => by rw [noteAt_fst, noteAt_fst])
  refine ⟨?_, ?_, ?_⟩
  · -- an entry stays where it is, and that of the record is put there first
    have hinserted : ∀ r ∈ rows ++ [rr], counts r = true →
        ∃ e ∈ repo.insert (rr.qname, []), e.1 = r.qname := by
      intro r hr hcounts
      rcases mem_append.mp hr with hr | hr
      · obtain ⟨e, he, hname⟩ := h.named r hr hcounts
        exact ⟨e, Table.mem_insertItem_of_mem he, hname⟩
      · obtain ⟨e, he, hkey, -⟩ := @Table.exists_same_insertItem _ _ Prod.fst T.canonicalCompare _
          ((rr.qname, []) : N × List UInt16) repo.items
        rw [mem_singleton.mp hr]
        exact ⟨e, he, (hsame _ _).mp hkey⟩
    intro r hr hcounts
    obtain ⟨e, he, hname⟩ := hinserted r hr hcounts
    exact ⟨T.noteAt rr.qname rr.qtype e, hmod.mpr ⟨e, he, rfl⟩, (T.noteAt_fst _ _ e).trans hname⟩
  · intro e' he'
    obtain ⟨e, he, rfl⟩ := hmod.mp he'
    rw [noteAt_fst]
    rcases Table.mem_insert_cases he with he | ⟨rfl, -⟩
    · obtain ⟨r, hr, hcounts⟩ := h.owned e he
      exact ⟨r, mem_append_left _ hr, hcounts⟩
    · exact ⟨rr, mem_append_right _ (mem_singleton.mpr rfl), hrr, rfl⟩
  · intro e' he' t
    obtain ⟨e, he, rfl⟩ := hmod.mp he'
    rw [mem_noteAt hsame, noteAt_fst]
    -- the entry had the types of the records in front, also when it is new and had none
    have hbefore : t ∈ e.2 ↔ ∃ r ∈ rows, counts r = true ∧ r.qname = e.1 ∧ r.qtype = t := by
      rcases Table.mem_insert_cases he with he | ⟨rfl, hnew⟩
      · exact h.types e he t
      · refine iff_of_false not_mem_nil ?_
        rintro ⟨r, hr, hcounts, hname, -⟩
        obtain ⟨e, he, hkey⟩ := h.named r hr hcounts
        have hne := Table.lookup_none hnew he
        rw [(hsame _ _).mpr (hkey.trans hname)] at hne
        cases hne
    rw [hbefore]
    constructor
    · rintro (⟨r, hr, hcounts⟩ | ⟨hname, rfl⟩)
      · exact ⟨r, mem_append_left _ hr, hcounts⟩
      · exact ⟨rr, mem_append_right _ (mem_singleton.mpr rfl), hrr, hname.symm, rfl⟩
    · rintro ⟨r, hr, hcounts, hname, htype⟩
      rcases mem_append.mp hr with hr | hr
      · exact .inl ⟨r, hr, hcounts, hname, htype⟩
      · obtain rfl := mem_singleton.mp hr
        exact .inr ⟨hname.symm, htype.symm⟩

/-- **What `nsecrepo` holds** when all records of the zone were read. -/
theorem nsecrepo_holds (rows : List (DNSResourceRecord N C)) : Holds rows (T.nsecrepo rows) := by
  induction rows using List.reverseRecOn with
  | nil => exact ⟨nofun, fun e he => absurd he (Table.not_mem_empty e),
      fun e he => absurd he (Table.not_mem_empty e)⟩
  | append_singleton rows rr ih =>
    unfold nsecrepo at ih ⊢
    rw [foldl_append, foldl_cons, foldl_nil]
    split
    next hrr => exact ih.note hsame hrr
    next hrr => exact ih.skip ((Bool.not_eq_true _).mp hrr)

omit hsame in
/-- The NSEC records come from successive entries. -/
theorem mem_nsecRecords {ax : DNSResourceRecord N C} (h : ax ∈ T.nsecRecords rows) :
    ∃ e next, (e, next) ∈ (T.nsecrepo rows).items.zip ((T.nsecrepo rows).items.rotate 1) ∧
      ax.qname = e.1 ∧ ax.content = T.nsec next.1 (nsecTypes e.2) := by
  unfold nsecRecords at h
  split at h
  next => cases h
  next last hlast =>
    rw [← map_uncurry_zip_eq_zipWith] at h
    obtain ⟨⟨e, next⟩, hmem, rfl⟩ := mem_map.mp h
    exact ⟨e, next, hmem, rfl, rfl⟩

omit hsame in
/-- Each two successive entries give one. -/
theorem exists_mem_nsecRecords {e next : N × List UInt16}
    (h : (e, next) ∈ (T.nsecrepo rows).items.zip ((T.nsecrepo rows).items.rotate 1)) :
    ∃ ax ∈ T.nsecRecords rows, ax.qname = e.1 ∧ ax.content = T.nsec next.1 (nsecTypes e.2) := by
  unfold nsecRecords
  split
  next hnone =>
    -- without records there are no entries
    rw [getLast?_eq_none_iff] at hnone
    subst hnone
    cases h
  next last hlast =>
    refine ⟨T.nsecRecord last e next.1, ?_, rfl, rfl⟩
    rw [← map_uncurry_zip_eq_zipWith]
    exact mem_map.mpr ⟨(e, next), h, rfl⟩

end ZoneTransfer

/-! ### Names octet by octet -/

/-- The sort key of a name as it is spelled: its labels, the most significant one first. -/
def octetKey (name : DName) : List (List Nat) := (name.map fun l => l.map UInt8.toNat).reverse

theorem octetKey_inj {a b : DName} : octetKey a = octetKey b ↔ a = b := by
  have hinj : Function.Injective fun l : Octets => l.map UInt8.toNat :=
    map_injective_iff.mpr fun _ _ => UInt8.toNat_inj.mp
  unfold octetKey
  rw [reverse_inj]
  exact (map_injective_iff.mpr hinj).eq_iff

/-- Names in lower case have one key. -/
theorem octetKey_eq_canonicalKey {name : DName} (h : lowerLabels name = name) :
    octetKey name = canonicalKey name := by
  unfold octetKey canonicalKey
  rw [h]

/-- `CanonicalCompare` orders names by their keys. -/
theorem canonicalLess_iff {a b : DName} : canonicalLess a b = true ↔ octetKey a < octetKey b := by
  have hoctets : ∀ x y : UInt8, octetLess x y = true ↔ x.toNat < y.toNat := fun x y =>
    decide_eq_true_iff.trans UInt8.lt_iff_toNat_lt
  have hlabels : ∀ l m : Octets, lexList octetLess l m = true ↔
      l.map UInt8.toNat < m.map UInt8.toNat := fun l m => lexList_iff_lt hoctets
  unfold octetKey
  rw [← map_reverse, ← map_reverse]
  exact lexList_iff_lt hlabels

/-- Only a name itself is the same to `CanonicalCompare`. -/
theorem same_canonicalLess {a b : DName} : same canonicalLess a b = true ↔ a = b := by
  rw [same_iff, ← Bool.not_eq_true, ← Bool.not_eq_true, canonicalLess_iff, canonicalLess_iff,
    ← octetKey_inj]
  constructor
  · rintro ⟨hab, hba⟩
    exact le_antisymm (not_lt.mp hba) (not_lt.mp hab)
  · intro h
    rw [h]
    exact ⟨lt_irrefl _, lt_irrefl _⟩

namespace PacketHandler

open OrderedChain (points)

/-! ### The two chains -/

/-- A transfer of the zones of the packet handler. -/
def outgoingAXFR (strictRfcAxfrs : Bool) : ZoneTransfer DName RData where
  canonicalCompare := canonicalLess
  ordered := inferInstance
  nsec next types := .nsec { d_next := next, d_set := types }
  strictRfcAxfrs := strictRfcAxfrs

/-- What `list` and the `get`s that follow it return for a zone. -/
def listed (H : PacketHandler) (sd : SOAData) : List ReplyRR :=
  (H.B.records.filter fun z => inZone sd z).map fun z => z.get.inReply

/-- The NSEC records in a transfer of the zone. -/
def transferredNSECs (H : PacketHandler) (strictRfcAxfrs : Bool) (sd : SOAData) : List ReplyRR :=
  (outgoingAXFR strictRfcAxfrs).nsecRecords (H.listed sd)

/-- The NSEC records that `emitNSEC` makes for answers from a zone: for the target itself or for
the name before it, and for the target of a query for NSEC, when `auth` stays empty. -/
inductive LiveNSEC (H : PacketHandler) (sd : SOAData) : ReplyRR → Prop
  | own (target : DName) (mode : Nat) (hunder : UnderName sd.qname target) :
      LiveNSEC H sd (H.emitNSEC target
        (H.B.getBeforeAndAfterNames sd.domain_id sd.qname target).2 sd.qname mode)
  | around (target : DName) (mode : Nat) (hunder : UnderName sd.qname target) :
      LiveNSEC H sd (H.emitNSEC (H.B.getBeforeAndAfterNames sd.domain_id sd.qname target).1
        (H.B.getBeforeAndAfterNames sd.domain_id sd.qname target).2 sd.qname mode)
  | direct (target : DName) (hauth : H.getAuth target = some sd) :
      LiveNSEC H sd (H.emitNSEC target
        (H.B.getBeforeAndAfterNames sd.domain_id [] target).2 [] 2)

/-- A query for the type gets a record of the type that the name owns. A record that is made from
a wildcard is not one. -/
def AnswersType (H : PacketHandler) (name : DName) (t : UInt16) : Prop :=
  ∃ p a, p.qclass = 1 ∧ p.qtype = t ∧ sameName p.qdomain name ∧ H.questionOrRecurse p = some a ∧
    ∃ rr ∈ a.reply.d_rrs, rr.d_place = .ANSWER ∧ rr.qtype = t ∧ sameName rr.qname name ∧
      rr.wildcardname = []

/-- **The chains agree at a name**: a transfer has an NSEC record for it, and whatever NSEC record
an answer has for it, the next name and the types are those of the transfer, and no type is
missing that is answered. -/
def NSECsAgree (H : PacketHandler) (strictRfcAxfrs : Bool) (sd : SOAData) (name : DName) : Prop :=
  (∃ ax ∈ H.transferredNSECs strictRfcAxfrs sd, sameName ax.qname name) ∧
    ∀ rr, LiveNSEC H sd rr → sameName rr.qname name →
      ∀ ax ∈ H.transferredNSECs strictRfcAxfrs sd, sameName ax.qname name →
        ∃ live sent, rr.content = .nsec live ∧ ax.content = .nsec sent ∧
          sameName live.d_next sent.d_next ∧ (∀ t, t ∈ live.d_set ↔ t ∈ sent.d_set) ∧
          ∀ t, H.AnswersType name t → t ∈ live.d_set

/-! ### The condition -/

/-- The types that a transfer has for a name as it is spelled: RRSIG, NSEC, and those of the
records of the zone that count. -/
def Counted (H : PacketHandler) (sd : SOAData) (name : DName) (t : UInt16) : Prop :=
  t = QType.RRSIG ∨ t = QType.NSEC ∨ ∃ z ∈ H.B.records, inZone sd z ∧
    (z.auth = true ∨ z.qtype = QType.NS) ∧ z.qname = name ∧ z.qtype = t

instance (H : PacketHandler) (sd : SOAData) (name : DName) (t : UInt16) :
    Decidable (H.Counted sd name t) :=
  inferInstanceAs (Decidable (_ ∨ _ ∨ ∃ z ∈ _, _))

/-- There are keys for the name, in some spelling that a query may have. -/
def Keyed (H : PacketHandler) (name : DName) : Prop :=
  ∃ owner, sameName owner name ∧ validDNSName owner = true ∧
    (H.haveKSKFor owner ≠ none ∨ H.getZSKsFor owner ≠ [])

/-- There are NSEC3 parameters for the name, in some spelling that a query may have. -/
def Hashed (H : PacketHandler) (name : DName) : Prop :=
  ∃ owner, sameName owner name ∧ validDNSName owner = true ∧ H.getNSEC3PARAM owner ≠ none

/-- **When the chains agree at a name.**
* The backend, asked with an empty zone name, gives the same next name as when it is asked with
  that of the zone.
* However the name is spelled in the zone, what follows it octet by octet is what follows it in
  canonical order.
* So spelled, the name has authoritative records, or NS records, of all the types that records of
  the name have in any zone, of the type DNSKEY if it is the apex or there are keys for it, and of
  the type NSEC3PARAM if there are parameters for it. -/
structure ChainsMeet (H : PacketHandler) (sd : SOAData) (name : DName) : Prop where
  direct : ∀ target, sameName target name → H.getAuth target = some sd →
    sameName (H.B.getBeforeAndAfterNames sd.domain_id [] target).2
      (H.B.getBeforeAndAfterNames sd.domain_id sd.qname target).2
  next : ∀ n ∈ H.chain sd, sameName n name → ∀ m ∈ H.chain sd,
    CyclicChain.IsSucc (points octetKey (H.chain sd)) (octetKey n) (octetKey m) →
      CyclicChain.IsSucc (H.chainPoints sd) (canonicalKey name) (canonicalKey m)
  types : ∀ n ∈ H.chain sd, sameName n name → ∀ z ∈ H.B.records, sameName z.qname name →
    H.Counted sd n z.qtype
  apex : ∀ n ∈ H.chain sd, sameName n name → sameName sd.qname name → H.Counted sd n QType.DNSKEY
  keys : ∀ n ∈ H.chain sd, sameName n name → H.Keyed name → H.Counted sd n QType.DNSKEY
  params : ∀ n ∈ H.chain sd, sameName n name → H.Hashed name → H.Counted sd n QType.NSEC3PARAM

variable {H : PacketHandler} {sd : SOAData} {name : DName} {strictRfcAxfrs : Bool}

/-! ### The chain of a transfer -/

theorem mem_chain {n : DName} : n ∈ H.chain sd ↔ ∃ z ∈ H.B.records, inZone sd z ∧
    (z.auth = true ∨ z.qtype = QType.NS) ∧ z.qname = n := by
  unfold chain
  simp [and_assoc]

/-- The records that count are those that put a name into the chain. -/
theorem exists_listed {P : DName → UInt16 → Prop} :
    (∃ rr ∈ H.listed sd, ZoneTransfer.counts rr = true ∧ P rr.qname rr.qtype) ↔
      ∃ z ∈ H.B.records, inZone sd z ∧ (z.auth = true ∨ z.qtype = QType.NS) ∧
        P z.qname z.qtype := by
  have hcounts : ∀ z : ZoneRecord, ZoneTransfer.counts z.get.inReply = true ↔
      z.auth = true ∨ z.qtype = QType.NS := by
    intro z
    unfold ZoneTransfer.counts
    rw [Bool.or_eq_true, decide_eq_true_eq]
    rfl
  constructor
  · rintro ⟨rr, hrr, hcount, hP⟩
    obtain ⟨z, hz, rfl⟩ := mem_map.mp hrr
    obtain ⟨hz, hzone⟩ := mem_filter.mp hz
    exact ⟨z, hz, of_decide_eq_true hzone, (hcounts z).mp hcount, hP⟩
  · rintro ⟨z, hz, hzone, hcount, hP⟩
    exact ⟨_, mem_map.mpr ⟨z, mem_filter.mpr ⟨hz, decide_eq_true hzone⟩, rfl⟩,
      (hcounts z).mpr hcount, hP⟩

/-- The names in `nsecrepo` are those of the chain. -/
theorem nsecrepo_names {n : DName} :
    n ∈ ((outgoingAXFR strictRfcAxfrs).nsecrepo (H.listed sd)).items.map Prod.fst ↔
      n ∈ H.chain sd := by
  have hholds := (outgoingAXFR strictRfcAxfrs).nsecrepo_holds (fun _ _ => same_canonicalLess)
    (H.listed sd)
  rw [mem_chain, ← exists_listed (P := fun q _ => q = n)]
  constructor
  · intro h
    obtain ⟨e, he, rfl⟩ := mem_map.mp h
    exact hholds.owned e he
  · rintro ⟨rr, hrr, hcounts, rfl⟩
    obtain ⟨e, he, hname⟩ := hholds.named rr hrr hcounts
    exact mem_map.mpr ⟨e, he, hname⟩

/-- The names in `nsecrepo` are in ascending order. -/
theorem nsecrepo_ascending (rows : List ReplyRR) :
    ((outgoingAXFR strictRfcAxfrs).nsecrepo rows).items.Pairwise fun a b =>
      octetKey a.1 < octetKey b.1 :=
  ((outgoingAXFR strictRfcAxfrs).nsecrepo rows).ordered.imp fun h => canonicalLess_iff.mp h

/-- An NSEC record of a transfer leads to the name that comes next octet by octet, and has the
types that are counted. -/
theorem transferred_spec {ax : ReplyRR} (h : ax ∈ H.transferredNSECs strictRfcAxfrs sd) :
    ax.qname ∈ H.chain sd ∧ ∃ sent, ax.content = .nsec sent ∧ sent.d_next ∈ H.chain sd ∧
      CyclicChain.IsSucc (points octetKey (H.chain sd)) (octetKey ax.qname)
        (octetKey sent.d_next) ∧ ∀ t, t ∈ sent.d_set ↔ H.Counted sd ax.qname t := by
  obtain ⟨e, next, hmem, hname, hcontent⟩ := ZoneTransfer.mem_nsecRecords h
  obtain ⟨he, hnext, hsucc⟩ := CyclicChain.isSucc_of_mem_zip_rotate (nsecrepo_ascending _) hmem
  have hholds := (outgoingAXFR strictRfcAxfrs).nsecrepo_holds (fun _ _ => same_canonicalLess)
    (H.listed sd)
  have hpoints : points (fun a : DName × List UInt16 => octetKey a.1)
      ((outgoingAXFR strictRfcAxfrs).nsecrepo (H.listed sd)).items =
        points octetKey (H.chain sd) := by
    ext k
    constructor
    · rintro ⟨a, ha, rfl⟩
      exact ⟨a.1, nsecrepo_names.mp (mem_map_of_mem ha), rfl⟩
    · rintro ⟨n, hn, rfl⟩
      obtain ⟨a, ha, rfl⟩ := mem_map.mp (nsecrepo_names.mpr hn)
      exact ⟨a, ha, rfl⟩
  rw [hpoints] at hsucc
  refine ⟨hname ▸ nsecrepo_names.mp (mem_map_of_mem he), _, hcontent,
    nsecrepo_names.mp (mem_map_of_mem hnext), hname ▸ hsucc, fun t => ?_⟩
  have htypes : t ∈ e.2 ↔ _ := (hholds.types e he t).trans
    (exists_listed (P := fun q type => q = e.1 ∧ type = t))
  unfold Counted
  rw [hname, ← htypes]
  exact mem_insertType.trans (by rw [mem_insertType]; tauto)

/-- Every name of the chain, as it is spelled, has an NSEC record in a transfer. -/
theorem exists_transferred {n : DName} (hn : n ∈ H.chain sd) :
    ∃ ax ∈ H.transferredNSECs strictRfcAxfrs sd, ax.qname = n := by
  obtain ⟨e, he, rfl⟩ := mem_map.mp ((@nsecrepo_names H sd strictRfcAxfrs n).mpr hn)
  obtain ⟨next, hmem⟩ := CyclicChain.exists_mem_zip_rotate he
  obtain ⟨ax, hax, hname, -⟩ := ZoneTransfer.exists_mem_nsecRecords hmem
  exact ⟨ax, hax, hname⟩

/-! ### The chain of the answers -/

/-- The types that an answer has for a name: RRSIG, NSEC, and those of all records of the name. -/
def LiveType (H : PacketHandler) (name : DName) (t : UInt16) : Prop :=
  t = QType.RRSIG ∨ t = QType.NSEC ∨ ∃ z ∈ H.B.records, sameName z.qname name ∧ z.qtype = t

/-- The types of an NSEC record, of which DNSKEY is one when `auth` is the owner. -/
theorem emitNSEC_types (H : PacketHandler) {begin next auth : DName} {mode : Nat}
    (hname : sameName begin name) :
    ∃ types, (H.emitNSEC begin next auth mode).content = .nsec ⟨next, types⟩ ∧
      ∀ t, t ∈ types ↔ H.LiveType name t ∨ auth = begin ∧ t = QType.DNSKEY := by
  obtain ⟨-, ⟨types, hcontent, htypes⟩, -⟩ := emitNSEC_spec H begin next auth mode
  refine ⟨types, hcontent, fun t => ?_⟩
  have hlookup : (∃ rr ∈ H.B.lookup QType.ANY begin (-1), rr.qtype = t) ↔
      ∃ z ∈ H.B.records, sameName z.qname name ∧ z.qtype = t := by
    rw [H.B.lookup_congr QType.ANY hname]
    constructor
    · rintro ⟨rr, hrr, rfl⟩
      obtain ⟨z, hz, ⟨hzname, -, -⟩, rfl⟩ := Backend.mem_lookup.mp hrr
      exact ⟨z, hz, hzname, rfl⟩
    · rintro ⟨z, hz, hzname, rfl⟩
      exact ⟨z.get, Backend.mem_lookup.mpr ⟨z, hz, ⟨hzname, .inl rfl, .inl rfl⟩, rfl⟩, rfl⟩
  rw [htypes, hlookup]
  constructor
  · rintro (e | e | e | e)
    · exact .inl (.inl e)
    · exact .inl (.inr (.inl e))
    · exact .inr e
    · exact .inl (.inr (.inr e))
  · rintro ((e | e | e) | e)
    · exact .inl e
    · exact .inr (.inl e)
    · exact .inr (.inr (.inr e))
    · exact .inr (.inr (.inl e))

section Signed

variable (hsigned : H.NSECSigned sd)

include hsigned

/-- The apex is the first name of the chain. -/
theorem NSECSigned.isLeast : IsLeast (H.chainPoints sd) (canonicalKey sd.qname) :=
  ⟨hsigned.pred_apex.1.1, hsigned.start⟩

/-- The next name that the backend gives comes next in canonical order. -/
theorem NSECSigned.next {target : DName} (hunder : UnderName sd.qname target)
    (hname : sameName target name) :
    CyclicChain.IsSucc (H.chainPoints sd) (canonicalKey name)
      (canonicalKey (H.B.getBeforeAndAfterNames sd.domain_id sd.qname target).2) := by
  rw [CyclicChain.isSucc_iff_of_start hsigned.isLeast, ← canonicalKey_eq_iff.mpr hname]
  exact hsigned.after target hunder

/-- What an NSEC record of an answer says: its types, and the next name in canonical order, for
which a query for NSEC gives the backend an empty zone name. -/
theorem liveNSEC_spec {rr : ReplyRR} (h : LiveNSEC H sd rr) (hname : sameName rr.qname name) :
    ∃ live apex, rr.content = .nsec live ∧ (apex = true → sameName sd.qname name) ∧
      (∀ t, t ∈ live.d_set ↔ H.LiveType name t ∨ apex = true ∧ t = QType.DNSKEY) ∧
      (CyclicChain.IsSucc (H.chainPoints sd) (canonicalKey name) (canonicalKey live.d_next) ∨
        ∃ target, sameName target name ∧ H.getAuth target = some sd ∧
          live.d_next = (H.B.getBeforeAndAfterNames sd.domain_id [] target).2) := by
  cases h with
  | own target mode hunder =>
    replace hname : sameName target name := hname
    obtain ⟨types, hcontent, htypes⟩ := H.emitNSEC_types hname
    refine ⟨_, decide (sd.qname = target), hcontent, fun happ => ?_, fun t => ?_,
      .inl (hsigned.next hunder hname)⟩
    · rw [of_decide_eq_true happ]
      exact hname
    · rw [htypes, decide_eq_true_eq]
  | around target mode hunder =>
    replace hname : sameName (H.B.getBeforeAndAfterNames sd.domain_id sd.qname target).1 name :=
      hname
    obtain ⟨types, hcontent, htypes⟩ := H.emitNSEC_types hname
    refine ⟨_, decide (sd.qname = (H.B.getBeforeAndAfterNames sd.domain_id sd.qname target).1),
      hcontent, fun happ => ?_, fun t => ?_, .inl ?_⟩
    · rw [of_decide_eq_true happ]
      exact hname
    · rw [htypes, decide_eq_true_eq]
    · -- what comes after the target comes after the name before it
      rw [CyclicChain.isSucc_iff_of_start hsigned.isLeast, ← canonicalKey_eq_iff.mpr hname]
      exact (hsigned.before target hunder).isSucc_iff.mp (hsigned.after target hunder)
  | direct target hauth =>
    replace hname : sameName target name := hname
    obtain ⟨types, hcontent, htypes⟩ := H.emitNSEC_types hname
    refine ⟨_, decide ([] = target), hcontent, fun happ => ?_, fun t => ?_,
      .inr ⟨target, hname, hauth, rfl⟩⟩
    · -- the zone of the root has the name of the root
      have hsuffix := (getAuth_eq_some hauth).1
      rw [← of_decide_eq_true happ, suffix_nil] at hsuffix
      rw [hsuffix, of_decide_eq_true happ]
      exact hname
    · rw [htypes, decide_eq_true_eq]

end Signed

/-! ### What is answered -/

theorem LiveType.congr {a b : DName} (h : sameName a b) {t : UInt16} (ht : H.LiveType a t) :
    H.LiveType b t := by
  rcases ht with e | e | ⟨z, hz, hname, e⟩
  · exact .inl e
  · exact .inr (.inl e)
  · exact .inr (.inr ⟨z, hz, Eq.trans hname h, e⟩)

/-- A record of the backend is of a type of its name. -/
theorem liveType_of_lookup {qtype : UInt16} {qname : DName} {zoneId : Int} {rr : StoredRR}
    (h : rr ∈ H.B.lookup qtype qname zoneId) : H.LiveType rr.qname rr.qtype := by
  obtain ⟨z, hz, -, rfl⟩ := Backend.mem_lookup.mp h
  exact .inr (.inr ⟨z, hz, sameName_refl _, rfl⟩)

variable {p : Query}

/-- The records of a wildcard have its name. -/
theorem wildcard_qname_ne_nil {target : DName} {rr : StoredRR}
    (h : rr ∈ H.getBestWildcard p sd target) : rr.qname ≠ [] := by
  induction target with
  | nil => cases h
  | cons l subdomain ih =>
    unfold getBestWildcard at h
    dsimp only at h
    split at h
    next =>
      obtain ⟨z, -, ⟨hname, -, -⟩, rfl⟩ := Backend.mem_lookup.mp (mem_filter.mp h).1
      intro hnil
      have hlabels : lowerLabels (wildcardName subdomain) = [] := by
        rw [← show lowerLabels z.qname = _ from hname, show z.qname = [] from hnil]
        rfl
      unfold wildcardName at hlabels
      split at hlabels <;> cases hlabels
    next =>
      split at h
      next => cases h
      next => exact ih h

/-- The records in the answer section that a pass adds, and that are not made from a wildcard, are
of types of their names. -/
theorem added_liveType {r : Reply} {target : DName} {rr : ReplyRR}
    (h : rr ∈ added r (H.pass p r target)) (hplace : rr.d_place = .ANSWER)
    (htype : rr.qtype = p.qtype) (hwild : rr.wildcardname = []) : H.LiveType rr.qname p.qtype := by
  have hexpansion : ∀ sd, rr ∉ expansion H p sd target := by
    intro sd hmem
    have hanswer : rr ∈ answers (expansion H p sd target) :=
      mem_filter.mpr ⟨hmem, decide_eq_true hplace⟩
    rw [answers_expansion] at hanswer
    obtain ⟨found, hfound, rfl⟩ := mem_map.mp hanswer
    exact wildcard_qname_ne_nil hfound hwild
  have hstored : ∀ (name : DName) (sd : SOAData) (found : StoredRR), found ∈ H.ownedBy sd name →
      found.inReply = rr → H.LiveType rr.qname p.qtype := by
    rintro name sd found hfound rfl
    rw [← htype]
    exact liveType_of_lookup hfound
  have hstep := H.pass_step p r target
  generalize H.pass p r target = outcome at hstep h
  cases hstep with
  | noZone =>
    split at h
    · unfold added at h
      simp [Pass.reply] at h
    · have hroot : rr ∈ H.addRootReferral := by
        have hadded : added r (.sendit ((r.setA false).addRecords H.addRootReferral)) =
            H.addRootReferral := drop_left
        rwa [hadded] at h
      exact absurd hplace (addRootReferral_place hroot)
  | apexSOA sd hauth hsoa =>
    rw [added_addRecords, mem_singleton] at h
    obtain ⟨-, z, hz, hztype, hzname, -⟩ := Backend.getSOA_eq_some (getAuth_eq_some hauth).2
    rw [h, hsoa]
    exact .inr (.inr ⟨z, hz, hzname, hztype⟩)
  | nsecQuery sd hauth hnsec => exact .inr (.inl hnsec)
  | rrsigQuery sd hauth hrrsig => exact .inl hrrsig
  | wildcardCNAME sd =>
    rw [added_retarget] at h
    exact absurd h (hexpansion sd)
  | wildcard sd =>
    rw [added_addRecords] at h
    exact absurd h (hexpansion sd)
  | emptyReferral => exact absurd hplace (referral_place h)
  | nxdomain =>
    have hmem : rr ∈ added r (.sendit (r.addRecords _)) := h
    rw [added_addRecords] at hmem
    exact absurd hplace (denial_place (by decide) hmem)
  | cname sd hlook found hcname =>
    rw [added_retarget, mem_singleton] at h
    exact hstored target sd found (redirection_eq_some hcname).2.1 h.symm
  | records sd =>
    rw [added_addRecords] at h
    rcases mem_append.mp h with h | h
    · obtain ⟨found, hfound, heq⟩ := mem_map.mp h
      exact hstored target sd found (mem_filter.mp hfound).1 heq
    · -- an NSEC record is no answer to a query for any type
      split at h
      next hany =>
        rw [hany] at htype
        rcases (mem_addNSECX h).1 with e | e <;> rw [e] at htype <;> cases htype
      next => cases h
  | referral => exact absurd hplace (referral_place h)
  | lost =>
    unfold added at h
    simp [Pass.reply] at h
  | nodata =>
    have hmem : rr ∈ added r (.sendit (r.addRecords _)) := h
    rw [added_addRecords] at hmem
    exact absurd hplace (denial_place (by decide) hmem)

theorem doDNSKEYRequest_ne_nil : H.doDNSKEYRequest p ≠ [] ↔
    p.qtype = QType.DNSKEY ∧ (H.haveKSKFor p.qdomain ≠ none ∨ H.getZSKsFor p.qdomain ≠ []) := by
  unfold doDNSKEYRequest
  by_cases htype : p.qtype = QType.DNSKEY
  · cases hksk : H.haveKSKFor p.qdomain <;> simp [htype]
  · simp [htype]

theorem doNSEC3PARAMRequest_ne_nil : H.doNSEC3PARAMRequest p ≠ [] ↔
    p.qtype = QType.NSEC3PARAM ∧ H.getNSEC3PARAM p.qdomain ≠ none := by
  unfold doNSEC3PARAMRequest
  by_cases htype : p.qtype = QType.NSEC3PARAM
  · cases hparam : H.getNSEC3PARAM p.qdomain <;> simp [htype]
  · simp [htype]

/-- A query for a name with other octets is refused. -/
theorem validDNSName_of_answer {a : Answer} (h : H.questionOrRecurse p = some a)
    (hne : a.reply.d_rrs ≠ []) : validDNSName p.qdomain = true := by
  by_contra hname
  unfold questionOrRecurse at h
  split at h
  next => cases h
  next =>
    rw [if_pos (by simpa using hname)] at h
    obtain rfl := Option.some.inj h
    exact hne rfl

/-- **What is answered** at a name are the types of its records, and those of the keys and
parameters that there are for it. -/
theorem answersType_cases {t : UInt16} (h : H.AnswersType name t) :
    H.LiveType name t ∨ t = QType.DNSKEY ∧ H.Keyed name ∨ t = QType.NSEC3PARAM ∧ H.Hashed name := by
  obtain ⟨p, a, hclass, rfl, hname, hquestion, rr, hrr, hplace, htype, hrname, hwild⟩ := h
  have hvalid := validDNSName_of_answer hquestion (ne_nil_of_mem hrr)
  have hanswer : rr ∈ answers a.reply.d_rrs := mem_filter.mpr ⟨hrr, decide_eq_true hplace⟩
  rcases questionOrRecurse_cases hquestion with ⟨rcode, rfl⟩ | ⟨rcode, -, rfl⟩ | ⟨r', hearly, rfl⟩ |
    ⟨hloop, rfl⟩
  · cases hrr
  · cases hrr
  · rw [answers_sendit] at hanswer
    unfold answerEarly at hearly
    split at hearly
    next hkeys =>
      obtain ⟨hdnskey, hkeys⟩ := doDNSKEYRequest_ne_nil.mp hkeys
      exact .inr (.inl ⟨hdnskey, p.qdomain, hname, hvalid, hkeys⟩)
    next =>
      split at hearly
      next hparam =>
        obtain ⟨hnsec3param, hparam⟩ := doNSEC3PARAMRequest_ne_nil.mp hparam
        exact .inr (.inr ⟨hnsec3param, p.qdomain, hname, hvalid, hparam⟩)
      next =>
        -- the query is not one for the version, which has another class
        have hversion : H.doVersionRequest p (H.replyPacket p) = none := by
          unfold doVersionRequest
          rw [hclass, if_neg]
          exact fun h => absurd h.1 (by decide)
        rw [hversion, hclass] at hearly
        cases hearly
  · rw [answers_retargeted] at hanswer
    obtain ⟨hadded, -⟩ := mem_filter.mp hanswer
    obtain ⟨s, -, hadded⟩ := mem_flatMap.mp hadded
    exact .inl ((added_liveType hadded hplace htype hwild).congr hrname)

/-- A query that is answered before any zone is looked for. -/
theorem questionOrRecurse_early {r : Reply} (hquery : p.qr = false ∧ p.opcode = 0)
    (hvalid : validDNSName p.qdomain = true)
    (htype : p.qtype = QType.DNSKEY ∨ p.qtype = QType.NSEC3PARAM)
    (hearly : H.answerEarly p (H.replyPacket p) = some r) :
    H.questionOrRecurse p = some (H.sendit p r) := by
  have hplain : p.qtype ≠ QType.IXFR ∧ p.qtype ≠ QType.URL ∧ p.qtype ≠ QType.CURL ∧
      p.qtype ≠ QType.MBOXFW := by
    rcases htype with e | e <;> rw [e] <;> decide
  have hfancy : ¬ (H.d_doFancyRecords = true ∧
      (p.qtype = QType.URL ∨ p.qtype = QType.CURL ∨ p.qtype = QType.MBOXFW)) := by
    rintro ⟨-, e | e | e⟩
    · exact hplain.2.1 e
    · exact hplain.2.2.1 e
    · exact hplain.2.2.2 e
  unfold questionOrRecurse
  rw [hquery.1, hvalid, hquery.2, if_neg Bool.false_ne_true, if_neg (by decide),
    if_neg (by decide), if_neg (by decide), if_neg hplain.1, if_neg hfancy, hearly]

/-- What a query for keys or parameters adds is answered. -/
theorem answersType_of_early (hquery : p.qr = false ∧ p.opcode = 0)
    (hclass : p.qclass = 1) (hvalid : validDNSName p.qdomain = true)
    (hname : sameName p.qdomain name)
    (htype : p.qtype = QType.DNSKEY ∨ p.qtype = QType.NSEC3PARAM) {rrs : List ReplyRR}
    (hearly : H.answerEarly p (H.replyPacket p) = some ((H.replyPacket p).addRecords rrs))
    {rr : ReplyRR} (hrr : rr ∈ rrs)
    (hspec : rr.d_place = .ANSWER ∧ rr.qtype = p.qtype ∧ rr.qname = p.qdomain ∧
      rr.wildcardname = []) : H.AnswersType name p.qtype := by
  obtain ⟨hplace, hrtype, hrname, hwild⟩ := hspec
  refine ⟨p, _, hclass, rfl, hname, questionOrRecurse_early hquery hvalid htype hearly, rr, ?_,
    hplace, hrtype, hrname ▸ hname, hwild⟩
  exact (sendit_finished H p _).extends.subset (mem_append_right _ hrr)

/-- The keys of a name are answered. -/
theorem answersType_of_keyed (h : H.Keyed name) : H.AnswersType name QType.DNSKEY := by
  obtain ⟨owner, hname, hvalid, hkeys⟩ := h
  let p : Query := { qdomain := owner, qtype := QType.DNSKEY }
  have hne : H.doDNSKEYRequest p ≠ [] := doDNSKEYRequest_ne_nil.mpr ⟨rfl, hkeys⟩
  obtain ⟨rr, hrr⟩ := exists_mem_of_ne_nil _ hne
  have hspec : rr.d_place = .ANSWER ∧ rr.qtype = p.qtype ∧ rr.qname = p.qdomain ∧
      rr.wildcardname = [] := by
    obtain ⟨content, -, rfl⟩ := mem_map.mp hrr
    exact ⟨rfl, rfl, rfl, rfl⟩
  exact answersType_of_early (p := p) ⟨rfl, rfl⟩ rfl hvalid hname (.inl rfl) (if_pos hne) hrr hspec

/-- The NSEC3 parameters of a name are answered. -/
theorem answersType_of_hashed (h : H.Hashed name) : H.AnswersType name QType.NSEC3PARAM := by
  obtain ⟨owner, hname, hvalid, hparam⟩ := h
  let p : Query := { qdomain := owner, qtype := QType.NSEC3PARAM }
  have hne : H.doNSEC3PARAMRequest p ≠ [] := doNSEC3PARAMRequest_ne_nil.mpr ⟨rfl, hparam⟩
  have hkeys : ¬ H.doDNSKEYRequest p ≠ [] := fun h =>
    absurd (show QType.NSEC3PARAM = QType.DNSKEY from (doDNSKEYRequest_ne_nil.mp h).1) (by decide)
  obtain ⟨rr, hrr⟩ := exists_mem_of_ne_nil _ hne
  have hspec : rr.d_place = .ANSWER ∧ rr.qtype = p.qtype ∧ rr.qname = p.qdomain ∧
      rr.wildcardname = [] := by
    obtain ⟨ns3prc, -, rfl⟩ := mem_map.mp hrr
    exact ⟨rfl, rfl, rfl, rfl⟩
  exact answersType_of_early (p := p) ⟨rfl, rfl⟩ rfl hvalid hname (.inr rfl)
    ((if_neg hkeys).trans (if_pos hne)) hrr hspec

/-! ### Both chains -/

theorem exists_spelling (h : H.InChain sd name) : ∃ n ∈ H.chain sd, sameName n name := by
  obtain ⟨z, hz, hzone, hcounts, hname⟩ := inChain_iff.mp h
  exact ⟨z.qname, mem_chain.mpr ⟨z, hz, hzone, hcounts, rfl⟩, hname⟩

/-- What is counted for a spelling of the name is a type of the name. -/
theorem Counted.liveType {n : DName} (hname : sameName n name) {t : UInt16}
    (h : H.Counted sd n t) : H.LiveType name t := by
  rcases h with e | e | ⟨z, hz, -, -, rfl, e⟩
  · exact .inl e
  · exact .inr (.inl e)
  · exact .inr (.inr ⟨z, hz, hname, e⟩)

/-- Where the condition holds, the chains agree. -/
theorem ChainsMeet.agree (hsigned : H.NSECSigned sd) (hin : H.InChain sd name)
    (h : H.ChainsMeet sd name) : H.NSECsAgree strictRfcAxfrs sd name := by
  refine ⟨?_, fun rr hlive hrname ax hax haxname => ?_⟩
  · obtain ⟨n, hn, hname⟩ := exists_spelling hin
    obtain ⟨ax, hax, rfl⟩ := @exists_transferred H sd strictRfcAxfrs n hn
    exact ⟨ax, hax, hname⟩
  obtain ⟨live, apex, hlivenrc, happ, hlivetypes, hlivenext⟩ := liveNSEC_spec hsigned hlive hrname
  obtain ⟨hn, sent, hsentnrc, hm, hsucc, hsenttypes⟩ := transferred_spec hax
  have hnext := h.next _ hn haxname _ hm hsucc
  have hcounted : ∀ t, H.LiveType name t → H.Counted sd ax.qname t := by
    rintro t (e | e | ⟨z, hz, hname, rfl⟩)
    · exact .inl e
    · exact .inr (.inl e)
    · exact h.types _ hn haxname z hz hname
  have htypes : ∀ t, t ∈ live.d_set ↔ t ∈ sent.d_set := by
    intro t
    rw [hlivetypes, hsenttypes]
    constructor
    · rintro (ht | ⟨hapex, rfl⟩)
      · exact hcounted t ht
      · exact h.apex _ hn haxname (happ hapex)
    · exact fun ht => .inl (ht.liveType haxname)
  refine ⟨live, sent, hlivenrc, hsentnrc, ?_, htypes, fun t ht => ?_⟩
  · rcases hlivenext with hlivenext | ⟨target, hname, hauth, heq⟩
    · exact canonicalKey_eq_iff.mp (hlivenext.unique hnext)
    · -- the backend was asked with an empty zone name
      have hunder : UnderName sd.qname target := underName_of_suffix (getAuth_eq_some hauth).1
      rw [heq]
      exact Eq.trans (h.direct target hname hauth)
        (canonicalKey_eq_iff.mp ((hsigned.next hunder hname).unique hnext))
  · rcases answersType_cases ht with ht | ⟨rfl, hkeyed⟩ | ⟨rfl, hhashed⟩
    · exact (hlivetypes t).mpr (.inl ht)
    · exact (htypes _).mpr ((hsenttypes _).mpr (h.keys _ hn haxname hkeyed))
    · exact (htypes _).mpr ((hsenttypes _).mpr (h.params _ hn haxname hhashed))

/-- What agreement says about one NSEC record of an answer and one spelling of its name. -/
theorem NSECsAgree.at (h : H.NSECsAgree strictRfcAxfrs sd name) {rr : ReplyRR} {live : NSECData}
    (hlive : LiveNSEC H sd rr) (hrname : sameName rr.qname name) (hcontent : rr.content = .nsec live)
    {n : DName} (hn : n ∈ H.chain sd) (hname : sameName n name) :
    (∀ t, t ∈ live.d_set → H.Counted sd n t) ∧ (∀ t, H.AnswersType name t → H.Counted sd n t) ∧
      ∃ m ∈ H.chain sd, sameName live.d_next m ∧
        CyclicChain.IsSucc (points octetKey (H.chain sd)) (octetKey n) (octetKey m) := by
  obtain ⟨ax, hax, rfl⟩ := @exists_transferred H sd strictRfcAxfrs n hn
  obtain ⟨live', sent', hlive', hsent', hnext, htypes, hanswered⟩ :=
    h.2 rr hlive hrname ax hax hname
  obtain ⟨-, sent, hsent, hm, hsucc, hcounted⟩ := transferred_spec hax
  obtain rfl := RData.nsec.inj (hlive'.symm.trans hcontent)
  obtain rfl := RData.nsec.inj (hsent'.symm.trans hsent)
  refine ⟨fun t ht => (hcounted t).mp ((htypes t).mp ht), fun t ht => ?_, _, hm, hnext, hsucc⟩
  exact (hcounted t).mp ((htypes t).mp (hanswered t ht))

/-- Where the chains agree, the condition holds. -/
theorem NSECsAgree.meet (hsigned : H.NSECSigned sd) (hin : H.InChain sd name)
    (h : H.NSECsAgree strictRfcAxfrs sd name) : H.ChainsMeet sd name := by
  have hunder : UnderName sd.qname name := by
    obtain ⟨z, hz, hzone, -, hname⟩ := inChain_iff.mp hin
    exact (hsigned.under z hz hzone).congr hname
  -- all but two conditions come from the record that is made for the name itself
  have hown := @LiveNSEC.own H sd name 0 hunder
  obtain ⟨types, hcontent, htypes⟩ := @emitNSEC_types name H name
    (H.B.getBeforeAndAfterNames sd.domain_id sd.qname name).2 sd.qname 0 (sameName_refl name)
  have hat := fun (n : DName) (hn : n ∈ H.chain sd) (hname : sameName n name) =>
    h.at hown (sameName_refl name) hcontent hn hname
  refine ⟨fun target hname hauth => ?_, fun n hn hname m hm hsucc => ?_,
    fun n hn hname z hz hzname => ?_, fun n hn hname happ => ?_, fun n hn hname hkeyed => ?_,
    fun n hn hname hhashed => ?_⟩
  · -- the records for a query for NSEC and for another query lead to one name
    have htarget : UnderName sd.qname target := underName_of_suffix (getAuth_eq_some hauth).1
    obtain ⟨n, hn, hspelled⟩ := exists_spelling hin
    obtain ⟨_, hdirect, -⟩ := @emitNSEC_types name H target
      (H.B.getBeforeAndAfterNames sd.domain_id [] target).2 [] 2 hname
    obtain ⟨_, hasked, -⟩ := @emitNSEC_types name H target
      (H.B.getBeforeAndAfterNames sd.domain_id sd.qname target).2 sd.qname 0 hname
    obtain ⟨-, -, m, -, hnext, hsucc⟩ := h.at (.direct target hauth) hname hdirect hn hspelled
    obtain ⟨-, -, m', -, hnext', hsucc'⟩ := h.at (.own target 0 htarget) hname hasked hn hspelled
    obtain rfl := octetKey_inj.mp (hsucc.unique hsucc')
    exact Eq.trans hnext (Eq.symm hnext')
  · obtain ⟨-, -, m', -, hnext, hsucc'⟩ := hat n hn hname
    obtain rfl := octetKey_inj.mp (hsucc.unique hsucc')
    rw [← canonicalKey_eq_iff.mpr hnext]
    exact hsigned.next hunder (sameName_refl name)
  · exact (hat n hn hname).1 _ ((htypes _).mpr (.inl (.inr (.inr ⟨z, hz, hzname, rfl⟩))))
  · -- the record for the apex is one that is made for every denial
    obtain ⟨_, hcontent', htypes'⟩ := @emitNSEC_types name H sd.qname
      (H.B.getBeforeAndAfterNames sd.domain_id sd.qname sd.qname).2 sd.qname 0 happ
    exact (h.at (.own sd.qname 0 (underName_of_suffix suffix_rfl)) happ hcontent' hn hname).1 _
      ((htypes' _).mpr (.inr ⟨rfl, rfl⟩))
  · exact (hat n hn hname).2.1 _ (answersType_of_keyed hkeyed)
  · exact (hat n hn hname).2.1 _ (answersType_of_hashed hhashed)

/-- Where all names of the chain are in lower case, octets make no difference to its order. -/
theorem next_of_lower (hlower : ∀ n ∈ H.chain sd, lowerLabels n = n) {n m : DName}
    (hn : n ∈ H.chain sd) (hname : sameName n name) (hm : m ∈ H.chain sd)
    (hsucc : CyclicChain.IsSucc (points octetKey (H.chain sd)) (octetKey n) (octetKey m)) :
    CyclicChain.IsSucc (H.chainPoints sd) (canonicalKey name) (canonicalKey m) := by
  have hpoints : points octetKey (H.chain sd) = H.chainPoints sd := by
    ext k
    constructor
    · rintro ⟨q, hq, rfl⟩
      exact ⟨q, hq, (octetKey_eq_canonicalKey (hlower q hq)).symm⟩
    · rintro ⟨q, hq, rfl⟩
      exact ⟨q, hq, octetKey_eq_canonicalKey (hlower q hq)⟩
  rwa [hpoints, octetKey_eq_canonicalKey (hlower n hn), octetKey_eq_canonicalKey (hlower m hm),
    canonicalKey_eq_iff.mpr hname] at hsucc

/-- A server with a key for `example.com`. -/
def keyedHandler (records : List ZoneRecord) : PacketHandler :=
  { withDefaults (orderedBackend records) with
    haveKSKFor := fun name => if name = exampleApex then some (ascii "257 3 5 AwEAAa") else none }

/-- The SOA record of `example.com` and an address. -/
def unkeyedRecords : List ZoneRecord :=
  [{ qname := exampleApex, qtype := QType.SOA, content := ascii "ns.example.com", domain_id := 1 },
   { qname := exampleWWW, qtype := QType.A, content := ascii "192.0.2.1", domain_id := 1 }]

/-- The same with the key among the records of the zone. -/
def keyedRecords : List ZoneRecord :=
  { qname := exampleApex, qtype := QType.DNSKEY, content := ascii "257 3 5 AwEAAa",
    domain_id := 1 } :: unkeyedRecords

theorem keyedHandler_signed {records : List ZoneRecord}
    (hunder : ∀ z ∈ records, inZone exampleSOA z → UnderName exampleApex z.qname)
    (hapex : exampleApex ∈ (keyedHandler records).chain exampleSOA) :
    (keyedHandler records).NSECSigned exampleSOA :=
  orderedBackend_signed rfl (by decide) rfl hunder hapex

end PacketHandler

end PowerDNS
