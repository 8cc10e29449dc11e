import PowerDNS.Auth.Wrapup

/-!
# Signatures over RRsets

A signature is made over an RRset, all records of one owner, type and section, and `wrapup` makes
it over what has gathered since the last one. So it depends on the order of the records whether
the RRsets of a reply are signed, each of them once and whole.

`SignedWhole` is that they are, `Signable` is when: between two authoritative records of the reply
a signature is made if and only if they are of different RRsets, and the next signature behind
each is made behind a record of its RRset. `signedWhole_iff` says that these are the same, for
every reply, in whatever order its records are.
-/

namespace PowerDNS

open Batches DNSPacket List

/-! ### RRsets -/

/-- Two records are of one RRset. -/
def sameRRset (a b : TextRR) : Bool :=
  pdnsIequals a.qname b.qname && a.qtype = b.qtype && a.d_place = b.d_place

theorem sameRRset_iff {a b : TextRR} :
    sameRRset a b = true ↔
      toLower a.qname = toLower b.qname ∧ a.qtype = b.qtype ∧ a.d_place = b.d_place := by
  simp [sameRRset, pdnsIequals_iff, and_assoc]

theorem sameRRset_refl (a : TextRR) : sameRRset a a = true := sameRRset_iff.mpr ⟨rfl, rfl, rfl⟩

theorem sameRRset_symm (a b : TextRR) (h : sameRRset a b = true) : sameRRset b a = true := by
  rw [sameRRset_iff] at h ⊢
  exact ⟨h.1.symm, h.2.1.symm, h.2.2.symm⟩

theorem sameRRset_trans (a b c : TextRR) (h : sameRRset a b = true) (h' : sameRRset b c = true) :
    sameRRset a c = true := by
  rw [sameRRset_iff] at h h' ⊢
  exact ⟨h.1.trans h'.1, h.2.1.trans h'.2.1, h.2.2.trans h'.2.2⟩

/-- The authoritative records of an RRset. -/
def rrsetOf (records : List TextRR) (r : TextRR) : List TextRR :=
  (records.filter fun r => r.auth).filter (sameRRset r)

/-- A signature made behind the record `c` names the RRset of `a`; those over DNSKEY records are
always put into the answer section. -/
def namedBehind (a c : TextRR) : Bool :=
  pdnsIequals a.qname c.qname && a.qtype = c.qtype &&
    (a.qtype = QType.DNSKEY || a.d_place = c.d_place)

theorem namedBehind_iff {a c : TextRR} :
    namedBehind a c = true ↔
      toLower a.qname = toLower c.qname ∧ a.qtype = c.qtype ∧
        (a.qtype = QType.DNSKEY ∨ a.d_place = c.d_place) := by
  simp [namedBehind, pdnsIequals_iff, and_assoc]

theorem namedBehind_of_same (a b c : TextRR) (h : sameRRset a b = true)
    (hc : namedBehind a c = true) : namedBehind b c = true := by
  rw [sameRRset_iff] at h
  rw [namedBehind_iff] at hc ⊢
  rw [← h.1, ← h.2.1, ← h.2.2]
  exact hc

/-- The signature has the owner, the type and the section of the RRset of `r`. -/
structure RRSIG.Names (s : RRSIG) (r : TextRR) : Prop where
  owner : toLower s.owner = toLower r.qname
  type : s.type = r.qtype
  place : s.place = if r.qtype = QType.DNSKEY then .ANSWER else r.d_place

/-! ### Replies that are signed -/

/-- No RRset is signed in two parts by one key. -/
def NeverHalved (signatures : List RRSIG) : Prop :=
  signatures.Pairwise fun s t =>
    s.ksk = t.ksk → ∀ r ∈ s.signed, ∀ r' ∈ t.signed, sameRRset r r' = false

/-- **Every RRset is signed once and whole**: every signature is made over all authoritative
records of an RRset and names it, and every authoritative record is signed with each of the keys,
once. -/
structure SignedWhole (records : List TextRR) (signatures : List RRSIG) : Prop where
  whole : ∀ s ∈ signatures, ∃ r ∈ records, r.auth = true ∧ s.Names r ∧ s.ksk ∈ keysFor r.qtype ∧
    s.signed.Perm (rrsetOf records r)
  found : ∀ r ∈ records, r.auth = true → ∀ ksk ∈ keysFor r.qtype,
    ∃ s ∈ signatures, s.ksk = ksk ∧ r ∈ s.signed
  once : NeverHalved signatures

/-- **When a reply can be signed**: the turns behind its first `n` records separate the RRsets. -/
def Signable (env : WrapupEnv) (p : DNSPacket) (n : Nat) : Prop :=
  Separated DNSResourceRecord.auth sameRRset namedBehind ((turns env p (arranged env p)).take n)

section Signatures

variable {env : WrapupEnv} {l : List (TextRR × Turn)}

theorem map_turns (env : WrapupEnv) (p : DNSPacket) (rrs : List TextRR) :
    (turns env p rrs).map Prod.fst = rrs := by
  induction rrs with
  | nil => rfl
  | cons c rrs ih => rw [turns, map_cons, ih]

theorem zsk_mem_keysFor (type : UInt16) : false ∈ keysFor type := by
  unfold keysFor
  split <;> exact mem_cons_self

theorem keysFor_nodup (type : UInt16) : (keysFor type).Nodup := by
  unfold keysFor
  split <;> decide

theorem mem_batchSignatures {bs : List (List TextRR × TextRR)} {s : RRSIG} :
    s ∈ batchSignatures env bs ↔
      ∃ b ∈ bs, ∃ ksk ∈ keysFor b.2.qtype,
        signature b.2 ((env.getSignerFor (signedName b.2)).getD []) b.1 ksk = s := by
  unfold batchSignatures signaturesFor
  rw [mem_flatMap]
  simp only [mem_map]

/-- What the signatures over a batch are named after. -/
theorem names_iff {a c : TextRR} {signer : Octets} {toSign : List TextRR} {ksk : Bool} :
    (signature c signer toSign ksk).Names a ↔ namedBehind a c = true := by
  rw [namedBehind_iff]
  constructor
  · rintro ⟨howner, htype, hplace⟩
    have htype' : a.qtype = c.qtype := htype.symm
    refine ⟨howner.symm, htype', or_iff_not_imp_left.mpr fun hne => ?_⟩
    have hplace' : (if c.qtype = QType.DNSKEY then Place.ANSWER else c.d_place) = _ := hplace
    rw [if_neg hne, if_neg (by rwa [← htype'])] at hplace'
    exact hplace'.symm
  · rintro ⟨howner, htype, hor⟩
    refine ⟨howner.symm, htype.symm, ?_⟩
    change (if c.qtype = QType.DNSKEY then Place.ANSWER else c.d_place) = _
    rw [← htype]
    split
    next => rfl
    next hne => exact (hor.resolve_left hne).symm

/-- **No RRset is halved** if and only if none comes into two batches. -/
theorem neverHalved_iff :
    NeverHalved (batchSignatures env (batches DNSResourceRecord.auth [] l)) ↔
      Apart DNSResourceRecord.auth sameRRset l := by
  unfold NeverHalved batchSignatures Apart
  rw [pairwise_flatMap]
  constructor
  · rintro ⟨-, h⟩
    refine h.imp fun {b b'} hb r hr r' hr' => ?_
    exact hb _ (mem_map_of_mem (zsk_mem_keysFor _)) _
      (mem_map_of_mem (zsk_mem_keysFor _)) rfl r hr r' hr'
  · intro h
    refine ⟨fun b _ => ?_, h.imp fun {b b'} hb s hs t ht _ r hr r' hr' => ?_⟩
    · -- the keys are different
      unfold signaturesFor
      rw [pairwise_map]
      exact (keysFor_nodup _).imp fun hne heq => absurd heq hne
    · obtain ⟨k, -, rfl⟩ := mem_map.mp hs
      obtain ⟨k', -, rfl⟩ := mem_map.mp ht
      exact hb r hr r' hr'

/-- **The RRsets are signed whole** if and only if they are the batches. -/
theorem signedWhole_iff_whole :
    SignedWhole (l.map Prod.fst) (batchSignatures env (batches DNSResourceRecord.auth [] l)) ↔
      Whole DNSResourceRecord.auth sameRRset namedBehind l := by
  have hkept : ∀ {r}, r ∈ kept DNSResourceRecord.auth l ↔ r ∈ l.map Prod.fst ∧ r.auth = true :=
    mem_filter
  constructor
  · rintro ⟨hwhole, hfound, honce⟩
    refine ⟨fun b hb => ?_, fun a ha => ?_, neverHalved_iff.mp honce⟩
    · obtain ⟨r, hr, hauth, hnames, -, hperm⟩ := hwhole _ (mem_batchSignatures.mpr
        ⟨b, hb, false, zsk_mem_keysFor _, rfl⟩)
      exact ⟨r, hkept.mpr ⟨hr, hauth⟩, names_iff.mp hnames, hperm⟩
    · obtain ⟨hmem, hauth⟩ := hkept.mp ha
      obtain ⟨s, hs, -, hsigned⟩ := hfound a hmem hauth false (zsk_mem_keysFor _)
      obtain ⟨b, hb, ksk, -, rfl⟩ := mem_batchSignatures.mp hs
      exact ⟨b, hb, hsigned⟩
  · rintro ⟨hwhole, hfound, honce⟩
    refine ⟨fun s hs => ?_, fun r hr hauth ksk hksk => ?_, neverHalved_iff.mpr honce⟩
    · obtain ⟨b, hb, ksk, hksk, rfl⟩ := mem_batchSignatures.mp hs
      obtain ⟨r, hr, hnamed, hperm⟩ := hwhole b hb
      obtain ⟨hmem, hauth⟩ := hkept.mp hr
      refine ⟨r, hmem, hauth, names_iff.mpr hnamed, ?_, hperm⟩
      rw [(namedBehind_iff.mp hnamed).2.1]
      exact hksk
    · obtain ⟨b, hb, hrb⟩ := hfound r (hkept.mpr ⟨hr, hauth⟩)
      obtain ⟨a, -, hnamed, hperm⟩ := hwhole b hb
      -- the batch was closed behind a record of the type
      have htype : r.qtype = b.2.qtype := by
        have hsame := (mem_filter.mp (hperm.mem_iff.mp hrb)).2
        exact (sameRRset_iff.mp hsame).2.1.symm.trans (namedBehind_iff.mp hnamed).2.1
      exact ⟨_, mem_batchSignatures.mpr ⟨b, hb, ksk, htype ▸ hksk, rfl⟩, rfl, hrb⟩

/-- **Replies are signed whole** if and only if the signatures that are made separate the
RRsets. -/
theorem signedWhole_iff {p : DNSPacket} {out : Wrapped} (hdo : p.d_dnssecOk = true)
    (h : wrapup env p = some out) :
    SignedWhole (recordsOf out.items) (signaturesOf out.items) ↔
      Signable env p (recordsOf out.items).length := by
  obtain ⟨n, hn, -, hrecords, hsignatures⟩ := wrapup_signatures hdo h
  have hlength : (recordsOf out.items).length = n := by
    rw [hrecords, length_take, Nat.min_eq_left hn]
  have hmap : recordsOf out.items = ((turns env p (arranged env p)).take n).map Prod.fst := by
    rw [hrecords, map_take, map_turns]
  rw [hlength, hsignatures, hmap, signedWhole_iff_whole]
  exact whole_iff_separated sameRRset_refl sameRRset_symm sameRRset_trans namedBehind_of_same

end Signatures

end PowerDNS
