import PowerDNS.Auth.DenialRuns
import PowerDNS.Lib.CyclicChain

/-!
# Denial of existence with NSEC3

In an NSEC3 zone the chain is that of the hashes of the names, closed to a ring, and what has to
be proved is spread over more records: NXDOMAIN needs one that matches the closest encloser of
the name, one that covers the next closer name and one that covers the wildcard at the closest
encloser; NODATA one that matches the name (`ProvesHashed`).

`addNSEC3` does not look for the closest encloser. Whatever is denied, it takes the neighbours of
three hashes, those of the apex, of the query name and of the wildcard at the apex (`asked`).
`HashedDenialRight` is the condition under which these are the right ones, and
`hashed_denial_proved_iff` the theorem.
-/

namespace PowerDNS

open CyclicChain List

namespace PacketHandler

variable {H : PacketHandler} {p : Query} {sd : SOAData} {target : DName}
  {ns3prc : NSEC3PARAMData}

/-! ### Hashes -/

/-- A hash as a point of the hash order. -/
def hashKey (hash : Octets) : List Nat := hash.map UInt8.toNat

theorem hashKey_inj {h h' : Octets} : hashKey h = hashKey h' ↔ h = h' :=
  (map_injective_iff.mpr fun _ _ => UInt8.toNat_inj.mp).eq_iff

/-- The hash of a name with the parameters of the zone. -/
def hashOf (H : PacketHandler) (ns3prc : NSEC3PARAMData) (name : DName) : Octets :=
  H.hashQNameWithSalt ns3prc.d_iterations ns3prc.d_salt name

/-- A name as a point of the hash order. -/
def pointOf (H : PacketHandler) (ns3prc : NSEC3PARAMData) (name : DName) : List Nat :=
  hashKey (H.hashOf ns3prc name)

/-- The chain of the zone as points of the hash order. -/
def hashPoints (H : PacketHandler) (sd : SOAData) (ns3prc : NSEC3PARAMData) : Set (List Nat) :=
  OrderedChain.points (H.pointOf ns3prc) (H.chain sd)

/-- What the backend finds for the hash of a name: `unhashed`, `before` and `after`. -/
def foundFor (H : PacketHandler) (sd : SOAData) (ns3prc : NSEC3PARAMData) (name : DName) :
    DName × Octets × Octets :=
  H.B.getBeforeAndAfterNamesAbsolute sd.domain_id (H.toBase32Hex (H.hashOf ns3prc name))

/-- The zone is signed with NSEC3. Different names have different hashes, base 32 loses nothing
of a hash, and `getBeforeAndAfterNamesAbsolute` gives the cyclic neighbours in hash order. -/
structure NSEC3Signed (H : PacketHandler) (sd : SOAData) (ns3prc : NSEC3PARAMData) : Prop where
  param : H.getNSEC3PARAM sd.qname = some ns3prc
  injective : ∀ a b, H.hashOf ns3prc a = H.hashOf ns3prc b ↔ sameName a b
  base32 : ∀ name, H.fromBase32Hex (H.toBase32Hex (H.hashOf ns3prc name)) = H.hashOf ns3prc name
  unhashed : ∀ name, H.hashOf ns3prc (H.foundFor sd ns3prc name).1 =
    H.fromBase32Hex (H.foundFor sd ns3prc name).2.1
  before : ∀ name, IsPred (H.hashPoints sd ns3prc) (H.pointOf ns3prc name)
    (hashKey (H.fromBase32Hex (H.foundFor sd ns3prc name).2.1))
  after : ∀ name, IsSucc (H.hashPoints sd ns3prc) (H.pointOf ns3prc name)
    (hashKey (H.fromBase32Hex (H.foundFor sd ns3prc name).2.2))

/-- The names whose hashes `addNSEC3` takes. -/
def asked (p : Query) (auth : DName) : List DName := [auth, p.qdomain, star :: auth]

/-- The hash in the owner name of an NSEC3 record. -/
def ownerHash (H : PacketHandler) (rr : ReplyRR) : Octets := H.fromBase32Hex (rr.qname.headD [])

/-! ### What an answer has to prove -/

/-- The NSEC3 record matches the name. -/
def MatchesName (H : PacketHandler) (ns3prc : NSEC3PARAMData) (rr : ReplyRR) (name : DName) : Prop :=
  ∃ n3rc, rr.content = .nsec3 n3rc ∧ H.ownerHash rr = H.hashOf ns3prc name

/-- The NSEC3 record covers the name. -/
def CoversHash (H : PacketHandler) (ns3prc : NSEC3PARAMData) (rr : ReplyRR) (name : DName) : Prop :=
  ∃ n3rc, rr.content = .nsec3 n3rc ∧
    Covers (hashKey (H.ownerHash rr)) (hashKey n3rc.d_nexthash) (H.pointOf ns3prc name)

/-- The next closer name: one label longer than the closest encloser. -/
def nextCloser (ce name : DName) : DName := name.drop (name.length - (ce.length + 1))

/-- The records `rrs` that a pass adds, with its result code, prove what they answer for the
target. -/
structure ProvesHashed (H : PacketHandler) (p : Query) (sd : SOAData) (ns3prc : NSEC3PARAMData)
    (target : DName) (rcode : Nat) (rrs : List ReplyRR) : Prop where
  nxdomain : rcode = RCode.NXDomain →
    (∃ rr ∈ rrs, H.MatchesName ns3prc rr (H.closestEncloser sd target)) ∧
      (∃ rr ∈ rrs, H.CoversHash ns3prc rr (nextCloser (H.closestEncloser sd target) target)) ∧
        ∃ rr ∈ rrs, H.CoversHash ns3prc rr (star :: H.closestEncloser sd target)
  nodata : rcode ≠ RCode.NXDomain →
    (∃ rr ∈ rrs, rr.d_place = .AUTHORITY ∧ rr.qtype = QType.SOA) →
      ∃ rr ∈ rrs, ∃ n3rc, rr.content = .nsec3 n3rc ∧ H.ownerHash rr = H.hashOf ns3prc target ∧
        p.qtype ∉ n3rc.d_set

/-- The name is in the chain, and no hash of the chain separates it from one that is asked for. -/
def Found (H : PacketHandler) (p : Query) (sd : SOAData) (ns3prc : NSEC3PARAMData)
    (name : DName) : Prop :=
  H.InChain sd name ∧ ∃ x ∈ asked p sd.qname,
    SameGap (H.hashPoints sd ns3prc) (H.pointOf ns3prc x) (H.pointOf ns3prc name)

/-- The name is not in the chain, and no hash of the chain separates it from one that is asked
for. -/
def Missed (H : PacketHandler) (p : Query) (sd : SOAData) (ns3prc : NSEC3PARAMData)
    (name : DName) : Prop :=
  ¬H.InChain sd name ∧ ∃ x ∈ asked p sd.qname,
    SameGap (H.hashPoints sd ns3prc) (H.pointOf ns3prc x) (H.pointOf ns3prc name)

/-- A pass with this target ends with NXDOMAIN. -/
structure DeniesName (H : PacketHandler) (p : Query) (sd : SOAData) (target : DName) : Prop where
  looksUp : LooksUp H p target sd
  owned : H.ownedBy sd target = []
  wildcard : H.getBestWildcard p sd target = []
  referral : H.getBestReferralNS sd target = []

/-- A pass with this target ends with NODATA. -/
structure DeniesType (H : PacketHandler) (p : Query) (sd : SOAData) (target : DName) : Prop where
  looksUp : LooksUp H p target sd
  owned : H.ownedBy sd target ≠ []
  redirected : redirection p (H.ownedBy sd target) = none
  done : weDone p (H.ownedBy sd target) = false
  unauth : weHaveUnauth p (H.ownedBy sd target) = false

/-- When the NSEC3 records that a pass adds prove its answer.
* For NXDOMAIN the closest encloser is in the chain, the next closer name and the wildcard are
  not, and each has its place in the hash order where the apex, the query name or the wildcard
  at the apex has it.
* For NODATA the same is so of the target, which is in the chain; no zone has a record of the
  type there; and a query for NSEC3PARAM is not for the apex. -/
structure HashedDenialRight (H : PacketHandler) (p : Query) (sd : SOAData)
    (ns3prc : NSEC3PARAMData) (target : DName) : Prop where
  nxdomain : H.DeniesName p sd target →
    H.Found p sd ns3prc (H.closestEncloser sd target) ∧
      H.Missed p sd ns3prc (nextCloser (H.closestEncloser sd target) target) ∧
        H.Missed p sd ns3prc (star :: H.closestEncloser sd target)
  nodata : H.DeniesType p sd target →
    H.InChain sd target ∧ (∀ rr ∈ H.B.lookup QType.ANY target (-1), rr.qtype ≠ p.qtype) ∧
      ∃ x ∈ asked p sd.qname,
        SameGap (H.hashPoints sd ns3prc) (H.pointOf ns3prc x) (H.pointOf ns3prc target) ∧
          ¬(p.qtype = QType.NSEC3PARAM ∧ (H.foundFor sd ns3prc x).1 = sd.qname)

/-! ### The records that are added -/

/-- A name is in the chain when its hash is. -/
theorem NSEC3Signed.mem_hashPoints (h : H.NSEC3Signed sd ns3prc) {name : DName} :
    H.pointOf ns3prc name ∈ H.hashPoints sd ns3prc ↔ H.InChain sd name := by
  apply exists_congr
  intro n
  apply and_congr_right
  intro _
  rw [pointOf, pointOf, hashKey_inj, h.injective, canonicalKey_eq_iff]

/-- The NSEC3 record for one of the names. -/
def recordFor (H : PacketHandler) (sd : SOAData) (ns3prc : NSEC3PARAMData) (mode : Nat)
    (name : DName) : ReplyRR :=
  H.emitNSEC3 ns3prc sd.qname (H.foundFor sd ns3prc name).1
    (H.fromBase32Hex (H.foundFor sd ns3prc name).2.1)
    (H.fromBase32Hex (H.foundFor sd ns3prc name).2.2) mode

theorem addNSECX_hashed (hauth : H.getAuth target = some sd) (hsigned : H.NSEC3Signed sd ns3prc)
    (name : DName) (mode : Nat) :
    H.addNSECX p name sd.qname mode = (asked p sd.qname).map (H.recordFor sd ns3prc mode) := by
  have hsoa := (getAuth_eq_some hauth).2
  unfold addNSECX
  rw [hsigned.param]
  unfold addNSEC3
  rw [hsoa]
  rfl

/-- The record joins the neighbours of the hash. Its types are those found at the name of the
first of them. -/
theorem recordFor_spec (hsigned : H.NSEC3Signed sd ns3prc) (mode : Nat) (name : DName) :
    H.ownerHash (H.recordFor sd ns3prc mode name) =
        H.fromBase32Hex (H.foundFor sd ns3prc name).2.1 ∧
      ∃ n3rc, (H.recordFor sd ns3prc mode name).content = .nsec3 n3rc ∧
        n3rc.d_nexthash = H.fromBase32Hex (H.foundFor sd ns3prc name).2.2 ∧
        ∀ t, t ∈ n3rc.d_set ↔ t = QType.RRSIG ∨
          (∃ rr ∈ H.B.lookup QType.ANY (H.foundFor sd ns3prc name).1 (-1), rr.qtype = t) ∨
          ((H.foundFor sd ns3prc name).1 = sd.qname ∧ t = QType.NSEC3PARAM) := by
  refine ⟨?_, _, rfl, rfl, fun t => ?_⟩
  · change H.fromBase32Hex (H.toBase32Hex _) = _
    rw [← hsigned.unhashed, hsigned.base32]
  · rw [mem_typeSet]
    by_cases hapex : (H.foundFor sd ns3prc name).1 = sd.qname
    · simp [hapex]
    · simp [hapex]

/-- The names that the records for the asked names match. -/
theorem exists_matches_iff (hsigned : H.NSEC3Signed sd ns3prc) {mode : Nat} {name : DName} :
    (∃ rr ∈ (asked p sd.qname).map (H.recordFor sd ns3prc mode), H.MatchesName ns3prc rr name) ↔
      H.Found p sd ns3prc name := by
  have hiff : ∀ x, H.MatchesName ns3prc (H.recordFor sd ns3prc mode x) name ↔
      H.InChain sd name ∧
        SameGap (H.hashPoints sd ns3prc) (H.pointOf ns3prc x) (H.pointOf ns3prc name) := by
    intro x
    obtain ⟨howner, n3rc, hcontent, -⟩ := recordFor_spec hsigned mode x
    rw [← hsigned.mem_hashPoints, ← eq_pred_iff (hsigned.before x), pointOf, hashKey_inj]
    unfold MatchesName
    rw [howner]
    exact ⟨fun ⟨_, _, h⟩ => h, fun h => ⟨n3rc, hcontent, h⟩⟩
  simp only [mem_map, exists_exists_and_eq_and, hiff]
  exact ⟨fun ⟨x, hx, hin, hgap⟩ => ⟨hin, x, hx, hgap⟩,
    fun ⟨hin, x, hx, hgap⟩ => ⟨x, hx, hin, hgap⟩⟩

/-- The names that they cover. -/
theorem exists_covers_iff (hsigned : H.NSEC3Signed sd ns3prc) {mode : Nat} {name : DName} :
    (∃ rr ∈ (asked p sd.qname).map (H.recordFor sd ns3prc mode), H.CoversHash ns3prc rr name) ↔
      H.Missed p sd ns3prc name := by
  have hiff : ∀ x, H.CoversHash ns3prc (H.recordFor sd ns3prc mode x) name ↔
      ¬H.InChain sd name ∧
        SameGap (H.hashPoints sd ns3prc) (H.pointOf ns3prc x) (H.pointOf ns3prc name) := by
    intro x
    obtain ⟨howner, n3rc, hcontent, hnext, -⟩ := recordFor_spec hsigned mode x
    rw [← hsigned.mem_hashPoints, ← covers_iff (hsigned.before x) (hsigned.after x)]
    unfold CoversHash
    rw [howner, ← hnext]
    constructor
    · rintro ⟨n3rc', hcontent', hcovers⟩
      obtain rfl := RData.nsec3.inj (hcontent.symm.trans hcontent')
      exact hcovers
    · exact fun hcovers => ⟨n3rc, hcontent, hcovers⟩
  simp only [mem_map, exists_exists_and_eq_and, hiff]
  exact ⟨fun ⟨x, hx, hout, hgap⟩ => ⟨hout, x, hx, hgap⟩,
    fun ⟨hout, x, hx, hgap⟩ => ⟨x, hx, hout, hgap⟩⟩

/-! ### The answers -/

/-- The SOA record in front proves nothing. -/
theorem exists_mem_soa_cons {P : ReplyRR → Prop} {place : Place} {rrs : List ReplyRR}
    (hsoa : ¬P (soaRecord sd place)) :
    (∃ rr ∈ soaRecord sd place :: rrs, P rr) ↔ ∃ rr ∈ rrs, P rr := by
  constructor
  · rintro ⟨rr, hrr, hP⟩
    rcases mem_cons.mp hrr with rfl | hrr
    · exact absurd hP hsoa
    · exact ⟨rr, hrr, hP⟩
  · exact fun ⟨rr, hrr, hP⟩ => ⟨rr, mem_cons_of_mem _ hrr, hP⟩

section Answers

variable (hauth : H.getAuth target = some sd) (hsigned : H.NSEC3Signed sd ns3prc)

include hauth hsigned

/-- NXDOMAIN. -/
theorem hashed_nxdomain_iff :
    H.ProvesHashed p sd ns3prc target RCode.NXDomain
        (soaRecord sd .AUTHORITY :: H.addNSECX p target sd.qname 1) ↔
      H.Found p sd ns3prc (H.closestEncloser sd target) ∧
        H.Missed p sd ns3prc (nextCloser (H.closestEncloser sd target) target) ∧
          H.Missed p sd ns3prc (star :: H.closestEncloser sd target) := by
  have hmatches : ∀ name, (∃ rr ∈ soaRecord sd .AUTHORITY :: H.addNSECX p target sd.qname 1,
      H.MatchesName ns3prc rr name) ↔ H.Found p sd ns3prc name := by
    intro name
    have hsoa : ¬H.MatchesName ns3prc (soaRecord sd .AUTHORITY) name :=
      fun ⟨_, hcontent, _⟩ => nomatch hcontent
    rw [exists_mem_soa_cons hsoa, addNSECX_hashed hauth hsigned, exists_matches_iff hsigned]
  have hcovers : ∀ name, (∃ rr ∈ soaRecord sd .AUTHORITY :: H.addNSECX p target sd.qname 1,
      H.CoversHash ns3prc rr name) ↔ H.Missed p sd ns3prc name := by
    intro name
    have hsoa : ¬H.CoversHash ns3prc (soaRecord sd .AUTHORITY) name :=
      fun ⟨_, hcontent, _⟩ => nomatch hcontent
    rw [exists_mem_soa_cons hsoa, addNSECX_hashed hauth hsigned, exists_covers_iff hsigned]
  constructor
  · intro h
    obtain ⟨hencloser, hcloser, hwildcard⟩ := h.nxdomain rfl
    exact ⟨(hmatches _).mp hencloser, (hcovers _).mp hcloser, (hcovers _).mp hwildcard⟩
  · rintro ⟨hencloser, hcloser, hwildcard⟩
    exact ⟨fun _ => ⟨(hmatches _).mpr hencloser, (hcovers _).mpr hcloser,
      (hcovers _).mpr hwildcard⟩, fun hne => absurd rfl hne⟩

/-- NODATA. -/
theorem hashed_nodata_iff (hdo : p.d_dnssecOk = true) (hlook : LooksUp H p target sd) {rcode : Nat}
    (hrcode : rcode ≠ RCode.NXDomain) :
    H.ProvesHashed p sd ns3prc target rcode
        (soaRecord sd .AUTHORITY :: H.addNSECX p target sd.qname 0) ↔
      H.InChain sd target ∧ (∀ rr ∈ H.B.lookup QType.ANY target (-1), rr.qtype ≠ p.qtype) ∧
        ∃ x ∈ asked p sd.qname,
          SameGap (H.hashPoints sd ns3prc) (H.pointOf ns3prc x) (H.pointOf ns3prc target) ∧
            ¬(p.qtype = QType.NSEC3PARAM ∧ (H.foundFor sd ns3prc x).1 = sd.qname) := by
  have hnotRRSIG : p.qtype ≠ QType.RRSIG := fun e => hlook.notRRSIG ⟨e, hdo⟩
  -- one record proves it when it starts at the target and lacks the type
  have hiff : ∀ x, (∃ n3rc, (H.recordFor sd ns3prc 0 x).content = .nsec3 n3rc ∧
        H.ownerHash (H.recordFor sd ns3prc 0 x) = H.hashOf ns3prc target ∧ p.qtype ∉ n3rc.d_set) ↔
      H.InChain sd target ∧ (∀ rr ∈ H.B.lookup QType.ANY target (-1), rr.qtype ≠ p.qtype) ∧
        SameGap (H.hashPoints sd ns3prc) (H.pointOf ns3prc x) (H.pointOf ns3prc target) ∧
          ¬(p.qtype = QType.NSEC3PARAM ∧ (H.foundFor sd ns3prc x).1 = sd.qname) := by
    intro x
    obtain ⟨howner, n3rc, hcontent, -, hset⟩ := recordFor_spec hsigned 0 x
    have hstarts := @eq_pred_iff _ _ _ _ (H.pointOf ns3prc target) _ (hsigned.before x)
    rw [hsigned.mem_hashPoints, pointOf, hashKey_inj, ← pointOf] at hstarts
    have hlookup : H.fromBase32Hex (H.foundFor sd ns3prc x).2.1 = H.hashOf ns3prc target →
        H.B.lookup QType.ANY (H.foundFor sd ns3prc x).1 (-1) = H.B.lookup QType.ANY target (-1) := by
      intro heq
      rw [← hsigned.unhashed] at heq
      exact Backend.lookup_congr H.B QType.ANY ((hsigned.injective _ _).mp heq) (-1)
    rw [howner]
    constructor
    · rintro ⟨n3rc', hcontent', heq, htype⟩
      obtain rfl := RData.nsec3.inj (hcontent.symm.trans hcontent')
      obtain ⟨hin, hgap⟩ := hstarts.mp heq
      rw [hset, hlookup heq] at htype
      refine ⟨hin, fun rr hrr hqtype => htype (.inr (.inl ⟨rr, hrr, hqtype⟩)), hgap, ?_⟩
      rintro ⟨hparam, hapex⟩
      exact htype (.inr (.inr ⟨hapex, hparam⟩))
    · rintro ⟨hin, htypes, hgap, hparam⟩
      have heq := hstarts.mpr ⟨hin, hgap⟩
      refine ⟨n3rc, hcontent, heq, ?_⟩
      rw [hset, hlookup heq]
      rintro (hrrsig | ⟨rr, hrr, hqtype⟩ | ⟨hapex, hqtype⟩)
      · exact hnotRRSIG hrrsig
      · exact htypes rr hrr hqtype
      · exact hparam ⟨hqtype, hapex⟩
  have hsoa : ¬∃ n3rc, (soaRecord sd .AUTHORITY).content = .nsec3 n3rc ∧
      H.ownerHash (soaRecord sd .AUTHORITY) = H.hashOf ns3prc target ∧ p.qtype ∉ n3rc.d_set :=
    fun ⟨_, hcontent, _⟩ => nomatch hcontent
  rw [addNSECX_hashed hauth hsigned]
  constructor
  · intro h
    have hproof := h.nodata hrcode ⟨_, mem_cons_self, rfl, rfl⟩
    rw [exists_mem_soa_cons hsoa] at hproof
    obtain ⟨rr, hrr, hproof⟩ := hproof
    obtain ⟨x, hx, rfl⟩ := mem_map.mp hrr
    obtain ⟨hin, htypes, hgap, hparam⟩ := (hiff x).mp hproof
    exact ⟨hin, htypes, x, hx, hgap, hparam⟩
  · rintro ⟨hin, htypes, x, hx, hgap, hparam⟩
    refine ⟨fun h => absurd h hrcode, fun _ _ => ?_⟩
    exact ⟨_, mem_cons_of_mem _ (mem_map.mpr ⟨x, hx, rfl⟩),
      (hiff x).mpr ⟨hin, htypes, hgap, hparam⟩⟩

end Answers

/-! ### One pass -/

/-- What is in the authority section of an answer that does not deny. -/
def NoDenial (rcode : Nat) (rrs : List ReplyRR) : Prop :=
  rcode ≠ RCode.NXDomain ∧ ∀ rr ∈ rrs, rr.d_place = .AUTHORITY → rr.qtype ≠ QType.SOA

theorem noDenial_answers {rcode : Nat} (hrcode : rcode ≠ RCode.NXDomain) {rrs : List ReplyRR}
    (hplace : ∀ rr ∈ rrs, rr.d_place = .ANSWER) : NoDenial rcode rrs := by
  refine ⟨hrcode, fun rr hrr hauthority => ?_⟩
  rw [hplace rr hrr] at hauthority
  cases hauthority

theorem addNSECX_not_soa {name auth : DName} {mode : Nat} {rr : ReplyRR}
    (h : rr ∈ H.addNSECX p name auth mode) : rr.qtype ≠ QType.SOA := by
  obtain ⟨htype, -⟩ := mem_addNSECX h
  rcases htype with e | e <;> rw [e] <;> decide

/-- The records of a wildcard stand in the answer section. -/
theorem noDenial_expansion {rcode : Nat} (hrcode : rcode ≠ RCode.NXDomain) :
    NoDenial rcode (expansion H p sd target) := by
  refine ⟨hrcode, fun rr hrr hauthority => ?_⟩
  rcases mem_append.mp hrr with hrr | hrr
  · obtain ⟨found, -, rfl⟩ := mem_map.mp hrr
    cases hauthority
  · split at hrr
    · exact addNSECX_not_soa hrr
    · cases hrr

/-- NS records and what goes with them. -/
theorem noDenial_referral {rcode : Nat} (hrcode : rcode ≠ RCode.NXDomain) {ns : StoredRR}
    {rest : List StoredRR} (hns : H.getBestReferralNS sd target = ns :: rest) :
    NoDenial rcode ((ns :: rest).map (fun rr => { rr.inReply with d_place := .AUTHORITY }) ++
      referralExtra H p sd ns.qname) := by
  refine ⟨hrcode, fun rr hrr _ => ?_⟩
  rcases mem_append.mp hrr with hrr | hrr
  · obtain ⟨found, hfound, rfl⟩ := mem_map.mp hrr
    rw [getBestReferralNS_eq] at hns
    obtain ⟨s, -, heq, -⟩ := SuffixSearch.firstAnswer_mem (hns ▸ cons_ne_nil ns rest)
    rw [← hns, heq] at hfound
    obtain ⟨z, -, ⟨-, htype, -⟩, rfl⟩ := Backend.mem_lookup.mp (mem_filter.mp hfound).1
    change z.qtype ≠ QType.SOA
    rw [htype.resolve_left (by decide)]
    decide
  · exact (mem_referralExtra hrr).2.2

/-- **Which passes deny.** A pass ends with NXDOMAIN, with NODATA, or denies nothing. -/
theorem pass_denies (hauth : H.getAuth target = some sd) {r : Reply}
    (hr : r.rcode ≠ RCode.NXDomain) :
    H.DeniesName p sd target ∧ H.pass p r target = .sendit (H.makeNXDomain p r target sd) ∨
      H.DeniesType p sd target ∧ H.pass p r target = .sendit (H.makeNOError p r target sd) ∨
        ¬H.DeniesName p sd target ∧ ¬H.DeniesType p sd target ∧
          NoDenial (H.pass p r target).reply.rcode (added r (H.pass p r target)) := by
  have hstep := H.pass_step p r target
  generalize H.pass p r target = outcome at hstep ⊢
  have hsame : ∀ {sd'}, H.getAuth target = some sd' → sd' = sd := fun h =>
    Option.some.inj (h.symm.trans hauth)
  cases hstep with
  | noZone hnone => rw [hauth] at hnone; cases hnone
  | apexSOA sd' hauth' hT happ =>
    obtain rfl := hsame hauth'
    refine .inr (.inr ⟨fun h => h.looksUp.notApexSOA ⟨hT, happ⟩,
      fun h => h.looksUp.notApexSOA ⟨hT, happ⟩, ?_⟩)
    rw [added_addRecords]
    exact noDenial_answers hr fun rr hrr => by rw [mem_singleton.mp hrr]; rfl
  | nsecQuery sd' hauth' hT hdo =>
    refine .inr (.inr ⟨fun h => h.looksUp.notNSEC ⟨hT, hdo⟩,
      fun h => h.looksUp.notNSEC ⟨hT, hdo⟩, ?_⟩)
    rw [added_addRecords]
    exact noDenial_answers hr fun rr hrr => (mem_addNSEC hrr).2
  | rrsigQuery sd' hauth' hT hdo =>
    refine .inr (.inr ⟨fun h => h.looksUp.notRRSIG ⟨hT, hdo⟩,
      fun h => h.looksUp.notRRSIG ⟨hT, hdo⟩, ?_⟩)
    rw [added_addRecords]
    refine noDenial_answers hr fun rr hrr => ?_
    obtain ⟨t, -, hrr⟩ := mem_flatMap.mp hrr
    obtain ⟨ksk, -, rfl⟩ := mem_map.mp hrr
    rfl
  | wildcardCNAME sd' hlook howned hwild target' hnext =>
    obtain rfl := hsame hlook.auth
    refine .inr (.inr ⟨fun h => hwild h.wildcard, fun h => h.owned howned, ?_⟩)
    rw [added_retarget]
    exact noDenial_expansion hr
  | wildcard sd' hlook howned hwild hnext =>
    obtain rfl := hsame hlook.auth
    refine .inr (.inr ⟨fun h => hwild h.wildcard, fun h => h.owned howned, ?_⟩)
    rw [added_addRecords]
    exact noDenial_expansion hr
  | emptyReferral sd' hlook howned hwild ns rest hns =>
    obtain rfl := hsame hlook.auth
    refine .inr (.inr ⟨fun h => ?_, fun h => h.owned howned, ?_⟩)
    · have hnil := h.referral
      rw [hns] at hnil
      cases hnil
    · rw [added_referralReply]
      exact noDenial_referral hr hns
  | nxdomain sd' hlook howned hwild hns =>
    obtain rfl := hsame hlook.auth
    exact .inl ⟨⟨hlook, howned, hwild, hns⟩, rfl⟩
  | cname sd' hlook rr hcname =>
    obtain rfl := hsame hlook.auth
    obtain ⟨-, hmem, -⟩ := redirection_eq_some hcname
    refine .inr (.inr ⟨fun h => not_mem_nil (h.owned ▸ hmem), fun h => ?_, ?_⟩)
    · have hnone := h.redirected
      rw [hcname] at hnone
      cases hnone
    · rw [added_retarget]
      refine noDenial_answers hr fun rr' hrr' => ?_
      rw [mem_singleton.mp hrr', StoredRR.inReply_d_place]
      exact Backend.lookup_d_place hmem
  | records sd' hlook hcname hdone =>
    obtain rfl := hsame hlook.auth
    obtain ⟨found, hfound, -⟩ := weDone_eq_true.mp hdone
    refine .inr (.inr ⟨fun h => not_mem_nil (h.owned ▸ hfound), fun h => ?_, ?_⟩)
    · have hnot := h.done
      rw [hdone] at hnot
      cases hnot
    · rw [added_addRecords]
      refine noDenial_answers hr fun rr hrr => ?_
      rcases mem_append.mp hrr with hrr | hrr
      · obtain ⟨stored, hstored, rfl⟩ := mem_map.mp hrr
        exact Backend.lookup_d_place (mem_filter.mp hstored).1
      · split at hrr
        · exact (mem_addNSECX hrr).2
        · cases hrr
  | referral sd' hlook hcname hdone hunauth ns rest hns =>
    obtain rfl := hsame hlook.auth
    obtain ⟨found, hfound, -⟩ := weHaveUnauth_eq_true.mp hunauth
    refine .inr (.inr ⟨fun h => not_mem_nil (h.owned ▸ hfound), fun h => ?_, ?_⟩)
    · have hnot := h.unauth
      rw [hunauth] at hnot
      cases hnot
    · rw [added_referralReply]
      exact noDenial_referral hr hns
  | lost sd' hlook hcname hdone hunauth hns =>
    obtain rfl := hsame hlook.auth
    obtain ⟨found, hfound, -⟩ := weHaveUnauth_eq_true.mp hunauth
    refine .inr (.inr ⟨fun h => not_mem_nil (h.owned ▸ hfound), fun h => ?_, ?_⟩)
    · have hnot := h.unauth
      rw [hunauth] at hnot
      cases hnot
    · rw [show added r (.sendit r) = [] from drop_length]
      exact noDenial_answers hr nofun
  | nodata sd' hlook howned hcname hdone hunauth =>
    obtain rfl := hsame hlook.auth
    exact .inr (.inl ⟨⟨hlook, howned, hcname, hdone, hunauth⟩, rfl⟩)

/-- **One pass.** What the pass adds proves its answer exactly when `HashedDenialRight` holds. -/
theorem pass_proves_hashed_iff (hdo : p.d_dnssecOk = true) (hauth : H.getAuth target = some sd)
    (hsigned : H.NSEC3Signed sd ns3prc) {r : Reply} (hr : r.rcode = RCode.NoError) :
    H.ProvesHashed p sd ns3prc target (H.pass p r target).reply.rcode
        (added r (H.pass p r target)) ↔ H.HashedDenialRight p sd ns3prc target := by
  have hok : r.rcode ≠ RCode.NXDomain := by
    rw [hr]
    decide
  rcases pass_denies hauth hok with ⟨hname, hpass⟩ | ⟨htype, hpass⟩ | ⟨hname, htype, hnone⟩
  · have hadded : added r (.sendit (H.makeNXDomain p r target sd)) =
        soaRecord sd .AUTHORITY :: H.addNSECX p target sd.qname 1 := by
      unfold makeNXDomain
      rw [if_pos hdo]
      exact drop_left
    rw [hpass, hadded]
    rw [show (Pass.sendit (H.makeNXDomain p r target sd)).reply.rcode = RCode.NXDomain from rfl,
      hashed_nxdomain_iff hauth hsigned]
    exact ⟨fun h => ⟨fun _ => h, fun h' => absurd hname.owned h'.owned⟩, fun h => h.nxdomain hname⟩
  · have hadded : added r (.sendit (H.makeNOError p r target sd)) =
        soaRecord sd .AUTHORITY :: H.addNSECX p target sd.qname 0 := by
      unfold makeNOError
      rw [if_pos hdo]
      exact drop_left
    rw [hpass, hadded]
    rw [show (Pass.sendit (H.makeNOError p r target sd)).reply.rcode = r.rcode from rfl,
      hashed_nodata_iff hauth hsigned hdo htype.looksUp hok]
    exact ⟨fun h => ⟨fun h' => absurd h'.owned htype.owned, fun _ => h⟩, fun h => h.nodata htype⟩
  · refine iff_of_true ⟨fun h => absurd h hnone.1, ?_⟩
      ⟨fun h => absurd h hname, fun h => absurd h htype⟩
    rintro - ⟨rr, hrr, hplace, hsoa⟩
    exact absurd hsoa (hnone.2 rr hrr hplace)

/-- A hash for the examples: the labels in lower case, every octet behind a 1, and a 0 behind
every label. No two names have the same. -/
def plainHash (name : DName) : Octets :=
  (lowerLabels name).flatMap fun l => l.flatMap (fun c => [1, c]) ++ [0]

theorem plainHash_label {l l' t t' : Octets}
    (h : l.flatMap (fun c => [1, c]) ++ 0 :: t = l'.flatMap (fun c => [1, c]) ++ 0 :: t') :
    l = l' ∧ t = t' := by
  induction l generalizing l' with
  | nil =>
    cases l' with
    | nil => exact ⟨rfl, tail_eq_of_cons_eq h⟩
    | cons c l' => simp at h
  | cons c l ih =>
    cases l' with
    | nil => simp at h
    | cons c' l' =>
      simp only [flatMap_cons, cons_append, nil_append, List.cons.injEq,
        true_and] at h
      obtain ⟨hl, ht⟩ := ih h.2
      exact ⟨by rw [h.1, hl], ht⟩

theorem plainHash_eq_iff {a b : DName} : plainHash a = plainHash b ↔ sameName a b := by
  unfold plainHash sameName
  refine ⟨fun h => ?_, fun h => by rw [h]⟩
  generalize lowerLabels a = la at h
  generalize lowerLabels b = lb at h
  induction la generalizing lb with
  | nil =>
    cases lb with
    | nil => rfl
    | cons l lb => simp at h
  | cons l la ih =>
    cases lb with
    | nil => simp at h
    | cons l' lb =>
      simp only [flatMap_cons, append_assoc, singleton_append] at h
      obtain ⟨hl, ht⟩ := plainHash_label h
      rw [hl, ih lb ht]

/-- A backend that finds the cyclic neighbours by going through the whole zone. -/
def hashedBackend (records : List ZoneRecord) : Backend where
  records := records
  getBeforeAndAfterNames _ _ _ := ([], [])
  getBeforeAndAfterNamesAbsolute id hashed :=
    let key : DName → List Nat := fun n => hashKey (plainHash n)
    let before := (predOf key (chainOf records id) (hashKey hashed)).getD []
    let after := (succOf key (chainOf records id) (hashKey hashed)).getD []
    (before, plainHash before, plainHash after)

/-- A handler for these records, with this hash. -/
def hashedHandler (records : List ZoneRecord) (ns3prc : NSEC3PARAMData) : PacketHandler :=
  { withDefaults (hashedBackend records) with
    getNSEC3PARAM := fun _ => some ns3prc
    hashQNameWithSalt := fun _ _ name => plainHash name }

/-- Such a handler keeps the assumptions of `NSEC3Signed`. -/
theorem hashedHandler_signed {records : List ZoneRecord} (hid : sd.domain_id ≠ -1)
    (hapex : sd.qname ∈ (hashedHandler records ns3prc).chain sd) :
    (hashedHandler records ns3prc).NSEC3Signed sd ns3prc := by
  have hchain : chainOf records sd.domain_id = (hashedHandler records ns3prc).chain sd := by
    unfold chainOf chain inZone
    simp only [hid, false_or]
    rfl
  refine ⟨rfl, fun a b => plainHash_eq_iff, fun _ => rfl, fun _ => rfl, fun name => ?_,
    fun name => ?_⟩
  · change IsPred _ _ (hashKey (plainHash ((predOf (fun n => hashKey (plainHash n))
      (chainOf records sd.domain_id) (hashKey (plainHash name))).getD [])))
    rw [hchain]
    cases hpred : predOf (fun n => hashKey (plainHash n))
      ((hashedHandler records ns3prc).chain sd) (hashKey (plainHash name)) with
    | none => exact absurd hpred (predOf_ne_none hapex)
    | some n => exact isPred_of_predOf hpred
  · change IsSucc _ _ (hashKey (plainHash ((succOf (fun n => hashKey (plainHash n))
      (chainOf records sd.domain_id) (hashKey (plainHash name))).getD [])))
    rw [hchain]
    cases hsucc : succOf (fun n => hashKey (plainHash n))
      ((hashedHandler records ns3prc).chain sd) (hashKey (plainHash name)) with
    | none => exact absurd hsucc (succOf_ne_none hapex)
    | some n => exact isSucc_of_succOf hsucc

/-- The NSEC3 parameters of the example, without a salt. -/
def hashedParam : NSEC3PARAMData :=
  { d_algorithm := 1, d_flags := 0, d_iterations := 0, d_salt := [] }

/-- The zone `example.com` with addresses for `w.example.com`, `sub.example.com` and
`m.sub.example.com`. -/
def hashedZone : PacketHandler :=
  hashedHandler
    [{ qname := exampleApex, qtype := QType.SOA, content := ascii "ns.example.com", domain_id := 1 },
     { qname := ascii "w" :: exampleApex, qtype := QType.A, content := ascii "192.0.2.1",
       domain_id := 1 },
     { qname := exampleCut, qtype := QType.A, content := ascii "192.0.2.2", domain_id := 1 },
     { qname := ascii "m" :: exampleCut, qtype := QType.A, content := ascii "192.0.2.3",
       domain_id := 1 }]
    hashedParam

theorem hashedZone_signed : hashedZone.NSEC3Signed exampleSOA hashedParam :=
  hashedHandler_signed (by decide) (by decide)

end PacketHandler

end PowerDNS
