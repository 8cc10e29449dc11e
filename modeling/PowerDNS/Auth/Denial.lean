import Mathlib.Data.List.Lex
import PowerDNS.Auth.Lookup
import PowerDNS.Lib.OrderedChain

/-!
# Denial of existence with NSEC

The names of a signed zone, in canonical order, form a chain, and an NSEC record is a link
of it: it shows that no name lies between its owner and its next name. The answers that need
a proof are NXDOMAIN (the query name and the wildcard at its closest encloser do not exist),
NODATA (the types at the name) and the expansion of a wildcard (the name itself does not
exist). `ProvesAnswer` says what the NSEC records added by one pass have to show.

`addNSEC` takes the neighbours of the query name and, for NXDOMAIN, of the apex ("this stuff
is wrong", says a comment there). `DenialRight` is the condition under which that is enough;
here this is shown for each kind of answer by itself.
-/

namespace PowerDNS

open OrderedChain List

/-! ### Canonical order -/

/-- The sort key of a name: its labels in lower case, the most significant one first. -/
def canonicalKey (name : DName) : List (List Nat) :=
  ((lowerLabels name).map fun l => l.map UInt8.toNat).reverse

theorem canonicalKey_eq_iff {a b : DName} : canonicalKey a = canonicalKey b ↔ sameName a b := by
  have hinj : Function.Injective fun l : Octets => l.map UInt8.toNat :=
    map_injective_iff.mpr fun _ _ => UInt8.toNat_inj.mp
  unfold canonicalKey sameName
  rw [reverse_inj]
  exact (map_injective_iff.mpr hinj).eq_iff

/-- A name comes before its descendants. -/
theorem canonicalKey_le {a b : DName} (h : UnderName a b) : canonicalKey a ≤ canonicalKey b := by
  have hprefix : canonicalKey a <+: canonicalKey b := by
    unfold canonicalKey
    rw [ reverse_prefix]
    exact List.IsSuffix.map _ h
  exact le_of_not_gt hprefix.le

namespace PacketHandler

/-! ### The chain of a zone -/

/-- The names in the chain: the owners of authoritative records and of NS records. -/
def chain (H : PacketHandler) (sd : SOAData) : List DName :=
  (H.B.records.filter fun z => inZone sd z ∧ (z.auth = true ∨ z.qtype = QType.NS)).map (·.qname)

/-- The chain as points of the canonical order. -/
def chainPoints (H : PacketHandler) (sd : SOAData) : Set (List (List Nat)) :=
  points canonicalKey (H.chain sd)

/-- The name is in the chain. -/
def InChain (H : PacketHandler) (sd : SOAData) (name : DName) : Prop :=
  canonicalKey name ∈ H.chainPoints sd

/-- The zone is signed with NSEC, its owners are at or below its apex, and
`getBeforeAndAfterNames` gives the canonical neighbours of every name in it. -/
structure NSECSigned (H : PacketHandler) (sd : SOAData) : Prop where
  noNSEC3 : H.getNSEC3PARAM sd.qname = none
  under : ∀ z ∈ H.B.records, inZone sd z → UnderName sd.qname z.qname
  before : ∀ target, UnderName sd.qname target →
    IsPred (H.chainPoints sd) (canonicalKey target)
      (canonicalKey (H.B.getBeforeAndAfterNames sd.domain_id sd.qname target).1)
  after : ∀ target, UnderName sd.qname target →
    IsSucc (H.chainPoints sd) (canonicalKey sd.qname) (canonicalKey target)
      (canonicalKey (H.B.getBeforeAndAfterNames sd.domain_id sd.qname target).2)

/-! ### What an answer has to prove -/

/-- The record is an NSEC record that joins two neighbours of the chain. -/
def Joins (H : PacketHandler) (sd : SOAData) (owner : DName) (nrc : NSECData) : Prop :=
  Adjacent (H.chainPoints sd) (canonicalKey sd.qname) (canonicalKey owner)
    (canonicalKey nrc.d_next)

/-- The NSEC record covers the name. -/
def CoversName (sd : SOAData) (rr : ReplyRR) (name : DName) : Prop :=
  ∃ nrc, rr.content = .nsec nrc ∧
    Covers (canonicalKey sd.qname) (canonicalKey rr.qname) (canonicalKey nrc.d_next)
      (canonicalKey name)

/-- The records `rrs` that a pass adds, with its result code, prove what they answer for the
target: every NSEC record joins neighbours; NXDOMAIN comes with records that cover the
target and the wildcard at its closest encloser; NODATA (a SOA record in the authority
section) with one owned by the target that has neither the type nor CNAME; a record from a
wildcard with one that covers the target. -/
structure ProvesAnswer (H : PacketHandler) (p : Query) (sd : SOAData) (target : DName)
    (rcode : Nat) (rrs : List ReplyRR) : Prop where
  joins : ∀ rr ∈ rrs, ∀ nrc, rr.content = .nsec nrc → H.Joins sd rr.qname nrc
  nxdomain : rcode = RCode.NXDomain → (∃ rr ∈ rrs, CoversName sd rr target) ∧
    ∃ rr ∈ rrs, CoversName sd rr (star :: H.closestEncloser sd target)
  nodata : rcode ≠ RCode.NXDomain →
    (∃ rr ∈ rrs, rr.d_place = .AUTHORITY ∧ rr.qtype = QType.SOA) →
      ∃ rr ∈ rrs, ∃ nrc, rr.content = .nsec nrc ∧ sameName rr.qname target ∧
        p.qtype ∉ nrc.d_set ∧ QType.CNAME ∉ nrc.d_set
  wildcard : (∃ rr ∈ rrs, rr.wildcardname ≠ []) → ∃ rr ∈ rrs, CoversName sd rr target

/-- The records that a pass adds to the reply it starts with. -/
def added (r : Reply) (outcome : Pass) : List ReplyRR :=
  outcome.reply.d_rrs.drop r.d_rrs.length

/-- When the records that a pass adds for a DNSSEC query prove its answer.
* For a direct NSEC query the target is in the chain, and the backend, asked with an empty
  zone name, gives the same next name as when it is asked with that of the zone.
* For a wildcard expansion the backend gives for the query name the same neighbours as for
  the target of the pass.
* For NXDOMAIN the wildcard at the closest encloser is not in the chain, and no name of the
  chain separates it from the target, or none from the apex.
* For NODATA the target is in the chain, the query is not for the DNSKEY of the apex, and no
  zone has a record of the type or a CNAME at the target. -/
structure DenialRight (H : PacketHandler) (p : Query) (sd : SOAData) (target : DName) : Prop where
  direct : p.qtype = QType.NSEC → H.InChain sd target ∧
    sameName (H.B.getBeforeAndAfterNames sd.domain_id [] target).2
      (H.B.getBeforeAndAfterNames sd.domain_id sd.qname target).2
  wildcard : LooksUp H p target sd → H.ownedBy sd target = [] →
    H.getBestWildcard p sd target ≠ [] →
    ∃ sd', (if sd.qname = [] then H.getAuth p.qdomain else some sd) = some sd' ∧
      sameName (H.B.getBeforeAndAfterNames sd'.domain_id sd.qname p.qdomain).1
        (H.B.getBeforeAndAfterNames sd.domain_id sd.qname target).1 ∧
      sameName (H.B.getBeforeAndAfterNames sd'.domain_id sd.qname p.qdomain).2
        (H.B.getBeforeAndAfterNames sd.domain_id sd.qname target).2
  nxdomain : LooksUp H p target sd → H.ownedBy sd target = [] →
    H.getBestWildcard p sd target = [] → H.getBestReferralNS sd target = [] →
    ¬ H.InChain sd (star :: H.closestEncloser sd target) ∧
      (SameGap (H.chainPoints sd) (canonicalKey target)
          (canonicalKey (star :: H.closestEncloser sd target)) ∨
        SameGap (H.chainPoints sd) (canonicalKey sd.qname)
          (canonicalKey (star :: H.closestEncloser sd target)))
  nodata : LooksUp H p target sd → H.ownedBy sd target ≠ [] →
    redirection p (H.ownedBy sd target) = none → weDone p (H.ownedBy sd target) = false →
    weHaveUnauth p (H.ownedBy sd target) = false →
    H.InChain sd target ∧ ¬ (p.qtype = QType.DNSKEY ∧ target = sd.qname) ∧
      ∀ rr ∈ H.B.lookup QType.ANY target (-1), rr.qtype ≠ p.qtype ∧ rr.qtype ≠ QType.CNAME

/-! ### Names in the chain -/

variable {H : PacketHandler} {p : Query} {sd : SOAData} {target : DName}

variable {name : DName}

theorem inChain_iff :
    H.InChain sd name ↔ ∃ z ∈ H.B.records, inZone sd z ∧ (z.auth = true ∨ z.qtype = QType.NS) ∧
      sameName z.qname name := by
  unfold InChain chainPoints points chain
  constructor
  · rintro ⟨n, hn, hkey⟩
    obtain ⟨z, hz, rfl⟩ := mem_map.mp hn
    rw [mem_filter, decide_eq_true_eq] at hz
    exact ⟨z, hz.1, hz.2.1, hz.2.2, canonicalKey_eq_iff.mp hkey⟩
  · rintro ⟨z, hz, hzone, hauth, hname⟩
    exact ⟨z.qname, mem_map.mpr ⟨z, mem_filter.mpr
      ⟨hz, decide_eq_true ⟨hzone, hauth⟩⟩, rfl⟩, canonicalKey_eq_iff.mpr hname⟩

/-- A name without records is not in the chain. -/
theorem not_inChain_of_owned_nil (h : H.ownedBy sd name = []) :
    ¬ H.InChain sd name := by
  rw [inChain_iff]
  rintro ⟨z, hz, hzone, -, hname⟩
  have hmem := mem_ownedBy.mpr ⟨z, hz, hname, hzone, rfl⟩
  rw [h] at hmem
  cases hmem

/-- The apex is the first name of the chain. -/
theorem NSECSigned.start (h : H.NSECSigned sd) :
    ∀ k ∈ H.chainPoints sd, canonicalKey sd.qname ≤ k := by
  rintro k ⟨n, hn, rfl⟩
  obtain ⟨z, hz, rfl⟩ := mem_map.mp hn
  rw [mem_filter, decide_eq_true_eq] at hz
  exact canonicalKey_le (h.under z hz.1 hz.2.1)

/-- The apex is its own predecessor. -/
theorem NSECSigned.pred_apex (h : H.NSECSigned sd) :
    IsPred (H.chainPoints sd) (canonicalKey sd.qname) (canonicalKey sd.qname) := by
  have hpred := h.before sd.qname (underName_of_suffix suffix_rfl)
  have heq := le_antisymm hpred.1.2 (h.start _ hpred.1.1)
  rwa [heq] at hpred

/-- A link that starts at a name and ends at the next name the backend gives is a link of the
chain exactly when the name is in the chain. -/
theorem NSECSigned.joins_iff (h : H.NSECSigned sd) (hunder : UnderName sd.qname target)
    {next : DName} {types : List UInt16} :
    H.Joins sd target ⟨next, types⟩ ↔ H.InChain sd target ∧
      sameName next (H.B.getBeforeAndAfterNames sd.domain_id sd.qname target).2 := by
  have hafter := h.after target hunder
  unfold Joins Adjacent InChain
  apply and_congr_right
  intro _
  rw [← canonicalKey_eq_iff]
  constructor
  · exact fun hnext => hnext.unique hafter
  · intro heq
    rw [heq]
    exact hafter

/-! ### The records that are added -/

/-- A record that is not an NSEC record written by the handler. -/
def NotNSEC (rr : ReplyRR) : Prop := ∀ nrc, rr.content ≠ .nsec nrc

theorem notNSEC_inReply (rr : StoredRR) : NotNSEC rr.inReply := fun _ => nofun

theorem CoversName.exists_nsec {rr : ReplyRR} (h : CoversName sd rr name) :
    ¬ NotNSEC rr := by
  obtain ⟨nrc, hcontent, -⟩ := h
  exact fun hnot => hnot nrc hcontent

/-- Records with nothing to prove: none is an NSEC record, a SOA record in the authority
section or from a wildcard. -/
theorem provesAnswer_of_plain {rcode : Nat} {rrs : List ReplyRR} (hrcode : rcode ≠ RCode.NXDomain)
    (hjoins : ∀ rr ∈ rrs, ∀ nrc, rr.content = .nsec nrc → H.Joins sd rr.qname nrc)
    (hsoa : ∀ rr ∈ rrs, rr.d_place = .AUTHORITY → rr.qtype ≠ QType.SOA)
    (hwild : ∀ rr ∈ rrs, rr.wildcardname = []) : H.ProvesAnswer p sd target rcode rrs where
  joins := hjoins
  nxdomain h := absurd h hrcode
  nodata := by
    rintro - ⟨rr, hrr, hplace, htype⟩
    exact absurd htype (hsoa rr hrr hplace)
  wildcard := by
    rintro ⟨rr, hrr, hne⟩
    exact absurd (hwild rr hrr) hne

theorem inReply_wildcardname {qtype : UInt16} {zoneId : Int} {rr : StoredRR}
    (h : rr ∈ H.B.lookup qtype name zoneId) : rr.wildcardname = [] := by
  obtain ⟨z, -, -, rfl⟩ := Backend.mem_lookup.mp h
  rfl

/-- What is left over from the last record has no wildcard name. -/
theorem lastGot_wildcardname {qtype : UInt16} {zoneId : Int} :
    (lastGot (H.B.lookup qtype name zoneId)).wildcardname = [] := by
  unfold lastGot
  cases hlast : (H.B.lookup qtype name zoneId).getLast? with
  | none => rfl
  | some rr => exact inReply_wildcardname (mem_of_getLast? hlast)

/-- The NSEC record for a target. -/
theorem emitNSEC_spec (H : PacketHandler) (begin next auth : DName) (mode : Nat) :
    (H.emitNSEC begin next auth mode).qname = begin ∧
      (∃ types, (H.emitNSEC begin next auth mode).content = .nsec ⟨next, types⟩ ∧
        ∀ t, t ∈ types ↔ t = QType.RRSIG ∨ t = QType.NSEC ∨ (auth = begin ∧ t = QType.DNSKEY) ∨
          ∃ rr ∈ H.B.lookup QType.ANY begin (-1), rr.qtype = t) ∧
      (H.emitNSEC begin next auth mode).qtype = QType.NSEC ∧
      (H.emitNSEC begin next auth mode).wildcardname = [] := by
  refine ⟨rfl, ⟨_, rfl, fun t => ?_⟩, rfl, lastGot_wildcardname⟩
  rw [mem_typeSet]
  by_cases h : auth = begin
  · simp [h, or_assoc]
  · simp [h, or_assoc]

theorem addNSEC_own (hdo : p.d_dnssecOk = true) {auth : DName} {mode : Nat}
    (hmode : mode = 0 ∨ mode = 2)
    (hzone : (if auth = [] then H.getAuth target else H.B.getSOA auth) = some sd) :
    H.addNSEC p target auth mode =
      [H.emitNSEC target (H.B.getBeforeAndAfterNames sd.domain_id auth target).2 auth mode] := by
  unfold addNSEC
  rw [hdo, hzone]
  rcases hmode with rfl | rfl <;> rfl

theorem addNSEC_covering (hdo : p.d_dnssecOk = true) {auth : DName}
    (hzone : (if auth = [] then H.getAuth target else H.B.getSOA auth) = some sd) :
    H.addNSEC p target auth 3 =
      [H.emitNSEC (H.B.getBeforeAndAfterNames sd.domain_id auth target).1
        (H.B.getBeforeAndAfterNames sd.domain_id auth target).2 auth 3] := by
  unfold addNSEC
  rw [hdo, hzone]
  rfl

theorem addNSEC_nxdomain (hdo : p.d_dnssecOk = true) {auth : DName}
    (hzone : (if auth = [] then H.getAuth target else H.B.getSOA auth) = some sd) :
    H.addNSEC p target auth 1 =
      [H.emitNSEC (H.B.getBeforeAndAfterNames sd.domain_id auth target).1
        (H.B.getBeforeAndAfterNames sd.domain_id auth target).2 auth 1,
       H.emitNSEC auth (H.B.getBeforeAndAfterNames sd.domain_id auth auth).2 auth 1] := by
  unfold addNSEC
  rw [hdo, hzone]
  rfl

/-- `addNSEC` finds the zone again. -/
theorem zoneAsked (hauth : H.getAuth target = some sd) :
    (if sd.qname = [] then H.getAuth target else H.B.getSOA sd.qname) = some sd := by
  by_cases h : sd.qname = []
  · rw [if_pos h]
    exact hauth
  · rw [if_neg h]
    exact (getAuth_eq_some hauth).2

theorem addNSECX_eq (hsigned : H.NSECSigned sd) (name : DName) (mode : Nat) :
    H.addNSECX p name sd.qname mode = H.addNSEC p name sd.qname mode := by
  unfold addNSECX
  rw [hsigned.noNSEC3]

/-- The names from the target up to the apex are in the same zone. -/
theorem getAuth_ancestor {s : DName} (hauth : H.getAuth target = some sd) (hs : s <:+ target)
    (htop : sd.qname <:+ s) : H.getAuth s = some sd := by
  induction target with
  | nil => rwa [suffix_nil.mp hs]
  | cons l rest ih =>
    rcases suffix_cons_iff.mp hs with rfl | hs'
    · exact hauth
    · unfold getAuth at hauth
      cases hsoa : H.B.getSOA (l :: rest) with
      | none =>
        rw [hsoa] at hauth
        exact ih hauth hs'
      | some found =>
        -- a zone at the target itself would lie below the ancestor
        rw [hsoa] at hauth
        obtain rfl := Option.some.inj hauth
        have hname := (Backend.getSOA_eq_some hsoa).1
        rw [hname] at htop
        exact absurd (htop.length_le.trans hs'.length_le) (by simp)

/-- For the root zone the search does not depend on the spelling of the name. -/
theorem getAuth_root_congr {s n : DName} (hroot : sd.qname = []) (h : H.getAuth s = some sd)
    (hsame : sameName n s) : H.getAuth n = some sd := by
  induction s generalizing n with
  | nil =>
    obtain rfl : n = [] := map_eq_nil_iff.mp hsame
    exact h
  | cons l s ih =>
    cases n with
    | nil => cases hsame
    | cons m n =>
      unfold getAuth at h ⊢
      have hlook := Backend.lookup_congr H.B QType.SOA hsame (-1)
      cases hsoa : H.B.getSOA (l :: s) with
      | some found =>
        rw [hsoa] at h
        obtain rfl := Option.some.inj h
        rw [(Backend.getSOA_eq_some hsoa).1] at hroot
        cases hroot
      | none =>
        rw [hsoa] at h
        have hnone : H.B.getSOA (m :: n) = none := by
          unfold Backend.getSOA at hsoa ⊢
          rw [hlook]
          exact Option.map_eq_none_iff.mpr (Option.map_eq_none_iff.mp hsoa)
        rw [hnone]
        exact ih h (List.cons.inj hsame).2

/-! ### The answers one by one -/

section Answers

variable (hdo : p.d_dnssecOk = true) (hauth : H.getAuth target = some sd)
  (hsigned : H.NSECSigned sd)

variable {rcode : Nat}

/-- An NSEC record and nothing else. -/
theorem proves_single_iff (hrcode : rcode ≠ RCode.NXDomain) {next auth : DName}
    {mode : Nat} (hunder : UnderName sd.qname target) (hsigned : H.NSECSigned sd) :
    H.ProvesAnswer p sd target rcode [H.emitNSEC target next auth mode] ↔
      H.InChain sd target ∧
        sameName next (H.B.getBeforeAndAfterNames sd.domain_id sd.qname target).2 := by
  obtain ⟨hname, ⟨types, hcontent, -⟩, htype, hwild⟩ := emitNSEC_spec H target next auth mode
  constructor
  · intro h
    have hjoins := h.joins _ (mem_singleton.mpr rfl) _ hcontent
    rw [hname] at hjoins
    exact (hsigned.joins_iff hunder).mp hjoins
  · intro h
    refine provesAnswer_of_plain hrcode ?_ ?_ ?_
    · intro rr hrr nrc hnrc
      rw [mem_singleton.mp hrr] at hnrc ⊢
      obtain rfl := RData.nsec.inj (hcontent.symm.trans hnrc)
      rw [hname]
      exact (hsigned.joins_iff hunder).mpr h
    · intro rr hrr _
      rw [mem_singleton.mp hrr, htype]
      decide
    · intro rr hrr
      rw [mem_singleton.mp hrr]
      exact hwild

include hdo hauth hsigned

/-- NXDOMAIN: the proof is complete exactly when the link at the target or the link at the
apex covers the wildcard. -/
theorem proves_nxdomain_iff (howned : H.ownedBy sd target = []) :
    H.ProvesAnswer p sd target RCode.NXDomain
        (soaRecord sd .AUTHORITY :: H.addNSECX p target sd.qname 1) ↔
      ¬ H.InChain sd (star :: H.closestEncloser sd target) ∧
        (SameGap (H.chainPoints sd) (canonicalKey target)
            (canonicalKey (star :: H.closestEncloser sd target)) ∨
          SameGap (H.chainPoints sd) (canonicalKey sd.qname)
            (canonicalKey (star :: H.closestEncloser sd target))) := by
  have hunder : UnderName sd.qname target := underName_of_suffix (getAuth_eq_some hauth).1
  have hapex : UnderName sd.qname sd.qname := underName_of_suffix suffix_rfl
  set w := star :: H.closestEncloser sd target
  rw [addNSECX_eq hsigned, addNSEC_nxdomain hdo (zoneAsked hauth)]
  set around := H.B.getBeforeAndAfterNames sd.domain_id sd.qname target
  set next := (H.B.getBeforeAndAfterNames sd.domain_id sd.qname sd.qname).2
  obtain ⟨hname₁, ⟨types₁, hcontent₁, -⟩, -, hwild₁⟩ :=
    emitNSEC_spec H around.1 around.2 sd.qname 1
  obtain ⟨hname₂, ⟨types₂, hcontent₂, -⟩, -, hwild₂⟩ := emitNSEC_spec H sd.qname next sd.qname 1
  have hlink₁ : Adjacent (H.chainPoints sd) (canonicalKey sd.qname) (canonicalKey around.1)
      (canonicalKey around.2) :=
    adjacent_of_neighbours (hsigned.before target hunder) (hsigned.after target hunder)
  have hlink₂ : Adjacent (H.chainPoints sd) (canonicalKey sd.qname) (canonicalKey sd.qname)
      (canonicalKey next) :=
    adjacent_of_neighbours hsigned.pred_apex (hsigned.after sd.qname hapex)
  -- what the two records cover
  have hcovers : ∀ name, (∃ rr ∈ soaRecord sd .AUTHORITY ::
      [H.emitNSEC around.1 around.2 sd.qname 1, H.emitNSEC sd.qname next sd.qname 1],
        CoversName sd rr name) ↔
      ¬ H.InChain sd name ∧ (SameGap (H.chainPoints sd) (canonicalKey target) (canonicalKey name) ∨
        SameGap (H.chainPoints sd) (canonicalKey sd.qname) (canonicalKey name)) := by
    intro name
    have h₁ := @covers_of_pred_iff _ _ _ _ _ (canonicalKey name) _ _ hsigned.start
      (hsigned.before target hunder) (hsigned.after target hunder)
    have h₂ := @covers_of_pred_iff _ _ _ _ _ (canonicalKey name) _ _ hsigned.start
      hsigned.pred_apex (hsigned.after sd.qname hapex)
    unfold InChain
    rw [and_or_left, ← h₁, ← h₂]
    constructor
    · rintro ⟨rr, hrr, nrc, hnrc, hcov⟩
      simp only [mem_cons, not_mem_nil, or_false] at hrr
      rcases hrr with rfl | rfl | rfl
      · cases hnrc
      · obtain rfl := RData.nsec.inj (hcontent₁.symm.trans hnrc)
        exact .inl hcov
      · obtain rfl := RData.nsec.inj (hcontent₂.symm.trans hnrc)
        exact .inr hcov
    · rintro (hcov | hcov)
      · exact ⟨_, mem_cons_of_mem _ mem_cons_self, _, hcontent₁, hcov⟩
      · exact ⟨_, mem_cons_of_mem _ (mem_cons_of_mem _ mem_cons_self), _,
          hcontent₂, hcov⟩
  constructor
  · intro h
    exact (hcovers w).mp (h.nxdomain rfl).2
  · intro h
    refine ⟨?_, fun _ => ⟨(hcovers target).mpr ⟨not_inChain_of_owned_nil howned,
      .inl fun _ _ => Iff.rfl⟩, (hcovers w).mpr h⟩, fun hne => absurd rfl hne, ?_⟩
    · intro rr hrr nrc hnrc
      simp only [mem_cons, not_mem_nil, or_false] at hrr
      rcases hrr with rfl | rfl | rfl
      · cases hnrc
      · obtain rfl := RData.nsec.inj (hcontent₁.symm.trans hnrc)
        exact hlink₁
      · obtain rfl := RData.nsec.inj (hcontent₂.symm.trans hnrc)
        exact hlink₂
    · rintro ⟨rr, hrr, hne⟩
      simp only [mem_cons, not_mem_nil, or_false] at hrr
      rcases hrr with rfl | rfl | rfl
      · exact absurd rfl hne
      · exact absurd hwild₁ hne
      · exact absurd hwild₂ hne

/-- NODATA: the NSEC record of the target is one of the chain and shows that there is nothing
of the type. -/
theorem proves_nodata_iff (hlook : LooksUp H p target sd)
    (hrcode : rcode ≠ RCode.NXDomain) :
    H.ProvesAnswer p sd target rcode (soaRecord sd .AUTHORITY :: H.addNSECX p target sd.qname 0) ↔
      H.InChain sd target ∧ ¬ (p.qtype = QType.DNSKEY ∧ target = sd.qname) ∧
        ∀ rr ∈ H.B.lookup QType.ANY target (-1), rr.qtype ≠ p.qtype ∧ rr.qtype ≠ QType.CNAME := by
  have hunder : UnderName sd.qname target := underName_of_suffix (getAuth_eq_some hauth).1
  have hnotNSEC : p.qtype ≠ QType.NSEC := fun e => hlook.notNSEC ⟨e, hdo⟩
  have hnotRRSIG : p.qtype ≠ QType.RRSIG := fun e => hlook.notRRSIG ⟨e, hdo⟩
  rw [addNSECX_eq hsigned, addNSEC_own hdo (.inl rfl) (zoneAsked hauth)]
  set next := (H.B.getBeforeAndAfterNames sd.domain_id sd.qname target).2
  obtain ⟨hname, ⟨types, hcontent, htypes⟩, -, hwild⟩ := emitNSEC_spec H target next sd.qname 0
  -- the two types are missing from the set exactly when nothing of them is there
  have hlacks : (p.qtype ∉ types ∧ QType.CNAME ∉ types) ↔
      ¬ (p.qtype = QType.DNSKEY ∧ target = sd.qname) ∧
        ∀ rr ∈ H.B.lookup QType.ANY target (-1),
          rr.qtype ≠ p.qtype ∧ rr.qtype ≠ QType.CNAME := by
    have hCNAME : QType.CNAME ≠ QType.RRSIG ∧ QType.CNAME ≠ QType.NSEC ∧
        QType.CNAME ≠ QType.DNSKEY := by decide
    rw [htypes, htypes]
    constructor
    · rintro ⟨htype, hcname⟩
      refine ⟨fun h => htype (.inr (.inr (.inl ⟨h.2.symm, h.1⟩))), fun rr hrr => ⟨?_, ?_⟩⟩
      · exact fun e => htype (.inr (.inr (.inr ⟨rr, hrr, e⟩)))
      · exact fun e => hcname (.inr (.inr (.inr ⟨rr, hrr, e⟩)))
    · rintro ⟨hkey, hall⟩
      constructor
      · rintro (e | e | ⟨happ, e⟩ | ⟨rr, hrr, e⟩)
        · exact hnotRRSIG e
        · exact hnotNSEC e
        · exact hkey ⟨e, happ.symm⟩
        · exact (hall rr hrr).1 e
      · rintro (e | e | ⟨-, e⟩ | ⟨rr, hrr, e⟩)
        · exact hCNAME.1 e
        · exact hCNAME.2.1 e
        · exact hCNAME.2.2 e
        · exact (hall rr hrr).2 e
  rw [← hlacks]
  constructor
  · intro h
    have hjoins := h.joins _ (mem_cons_of_mem _ mem_cons_self) _ hcontent
    rw [hname] at hjoins
    refine ⟨((hsigned.joins_iff hunder).mp hjoins).1, ?_⟩
    obtain ⟨rr, hrr, nrc, hnrc, -, hout⟩ :=
      h.nodata hrcode ⟨_, mem_cons_self, rfl, rfl⟩
    simp only [mem_cons, not_mem_nil, or_false] at hrr
    rcases hrr with rfl | rfl
    · cases hnrc
    · obtain rfl := RData.nsec.inj (hcontent.symm.trans hnrc)
      exact hout
  · rintro ⟨hin, hout⟩
    refine ⟨?_, fun h => absurd h hrcode, fun _ _ => ⟨_, mem_cons_of_mem _
      mem_cons_self, _, hcontent, hname ▸ sameName_refl _, hout⟩, ?_⟩
    · intro rr hrr nrc hnrc
      simp only [mem_cons, not_mem_nil, or_false] at hrr
      rcases hrr with rfl | rfl
      · cases hnrc
      · obtain rfl := RData.nsec.inj (hcontent.symm.trans hnrc)
        rw [hname]
        exact (hsigned.joins_iff hunder).mpr ⟨hin, sameName_refl _⟩
    · rintro ⟨rr, hrr, hne⟩
      simp only [mem_cons, not_mem_nil, or_false] at hrr
      rcases hrr with rfl | rfl
      · exact absurd rfl hne
      · exact absurd hwild hne

/-- A wildcard expansion: the NSEC record is the link around the query name, which has to be
the link around the target. -/
theorem proves_wildcard_iff (howned : H.ownedBy sd target = [])
    (hwild : H.getBestWildcard p sd target ≠ [])
    (hrcode : rcode ≠ RCode.NXDomain) :
    H.ProvesAnswer p sd target rcode (expansion H p sd target) ↔
      ∃ sd', (if sd.qname = [] then H.getAuth p.qdomain else some sd) = some sd' ∧
        sameName (H.B.getBeforeAndAfterNames sd'.domain_id sd.qname p.qdomain).1
          (H.B.getBeforeAndAfterNames sd.domain_id sd.qname target).1 ∧
        sameName (H.B.getBeforeAndAfterNames sd'.domain_id sd.qname p.qdomain).2
          (H.B.getBeforeAndAfterNames sd.domain_id sd.qname target).2 := by
  have happ := (getAuth_eq_some hauth).1
  have hunder : UnderName sd.qname target := underName_of_suffix happ
  have hbefore := hsigned.before target hunder
  have hafter := hsigned.after target hunder
  have habsent : canonicalKey target ∉ H.chainPoints sd := not_inChain_of_owned_nil howned
  -- the zone that `addNSEC` asks for the neighbours
  have hasked : (if sd.qname = [] then H.getAuth p.qdomain else H.B.getSOA sd.qname) =
      if sd.qname = [] then H.getAuth p.qdomain else some sd := by
    rw [(getAuth_eq_some hauth).2]
  -- a record made from the wildcard is there, and it is no NSEC record
  have hfrom : ∃ rr ∈ expansion H p sd target, rr.wildcardname ≠ [] := by
    obtain ⟨rr, hrr⟩ := exists_mem_of_ne_nil _ hwild
    refine ⟨_, mem_append_left _ (mem_map.mpr ⟨rr, hrr, rfl⟩), ?_⟩
    have hne : target ≠ sd.qname := by
      intro e
      obtain ⟨soa, hsoa, -⟩ := owned_apex hauth
      rw [← e, howned] at hsoa
      cases hsoa
    obtain ⟨l, subdomain, rfl, hsub⟩ := exists_cons_of_below happ hne
    rw [getBestWildcard_eq H p sd hsub] at hrr hwild
    obtain ⟨s, -, heq, -⟩ := SuffixSearch.firstAnswer_mem hwild
    rw [heq] at hrr
    obtain ⟨z, -, ⟨hname, -, -⟩, rfl⟩ := Backend.mem_lookup.mp (mem_filter.mp hrr).1
    intro hnil
    have hlen : z.qname.length = (wildcardName s).length := by
      simpa [lowerLabels] using congrArg List.length (show lowerLabels z.qname = _ from hname)
    rw [show z.qname = [] from hnil] at hlen
    unfold wildcardName at hlen
    split at hlen <;> cases hlen
  have hexpanded : expansion H p sd target = (H.getBestWildcard p sd target).map (fun rr =>
      { rr.inReply with wildcardname := rr.qname, qname := p.qdomain, d_place := .ANSWER }) ++
      H.addNSEC p p.qdomain sd.qname 3 := by
    unfold expansion
    rw [if_pos hdo, addNSECX_eq hsigned]
  rw [hexpanded] at hfrom ⊢
  set copies : List ReplyRR := (H.getBestWildcard p sd target).map fun rr =>
    { rr.inReply with wildcardname := rr.qname, qname := p.qdomain, d_place := .ANSWER }
  have hcopies : ∀ rr ∈ copies, NotNSEC rr ∧ rr.d_place = .ANSWER := by
    intro rr hrr
    obtain ⟨found, -, rfl⟩ := mem_map.mp hrr
    exact ⟨notNSEC_inReply found, rfl⟩
  cases hz : (if sd.qname = [] then H.getAuth p.qdomain else H.B.getSOA sd.qname) with
  | none =>
    have hnothing : H.addNSEC p p.qdomain sd.qname 3 = [] := by
      unfold addNSEC
      rw [hdo, hz]
      rfl
    rw [hnothing, append_nil] at hfrom ⊢
    constructor
    · intro h
      obtain ⟨rr, hrr, hcov⟩ := h.wildcard hfrom
      exact absurd (hcopies rr hrr).1 hcov.exists_nsec
    · rintro ⟨sd', hsome, -⟩
      rw [← hasked, hz] at hsome
      cases hsome
  | some sd' =>
    rw [addNSEC_covering hdo hz] at hfrom ⊢
    set around := H.B.getBeforeAndAfterNames sd'.domain_id sd.qname p.qdomain
    obtain ⟨hname, ⟨types, hcontent, -⟩, htype, -⟩ :=
      emitNSEC_spec H around.1 around.2 sd.qname 3
    have hmem : ∀ rr ∈ copies ++ [H.emitNSEC around.1 around.2 sd.qname 3],
        rr ∈ copies ∨ rr = H.emitNSEC around.1 around.2 sd.qname 3 := by
      intro rr hrr
      simpa using hrr
    constructor
    · intro h
      have hlink : Adjacent (H.chainPoints sd) (canonicalKey sd.qname) (canonicalKey around.1)
          (canonicalKey around.2) := by
        have hjoins := h.joins _ (mem_append_right _ (mem_singleton.mpr rfl)) _ hcontent
        rwa [hname] at hjoins
      obtain ⟨rr, hrr, hcov⟩ := h.wildcard hfrom
      rcases hmem rr hrr with hrr | rfl
      · exact absurd (hcopies rr hrr).1 hcov.exists_nsec
      · obtain ⟨nrc, hnrc, hcov⟩ := hcov
        obtain rfl := RData.nsec.inj (hcontent.symm.trans hnrc)
        rw [hname] at hcov
        -- a link that covers the target starts at its predecessor
        have hpred := ((covers_iff hsigned.start hlink).mp hcov).2
        refine ⟨sd', hasked ▸ hz, canonicalKey_eq_iff.mp (hpred.unique hbefore), ?_⟩
        exact canonicalKey_eq_iff.mp ((hpred.isSucc_iff.mpr hlink.2).unique hafter)
    · rintro ⟨sd'', hsome, hsame₁, hsame₂⟩
      rw [← hasked, hz] at hsome
      obtain rfl := Option.some.inj hsome
      rw [← canonicalKey_eq_iff] at hsame₁ hsame₂
      have hlink : Adjacent (H.chainPoints sd) (canonicalKey sd.qname) (canonicalKey around.1)
          (canonicalKey around.2) := by
        rw [hsame₁, hsame₂]
        exact adjacent_of_neighbours hbefore hafter
      refine ⟨?_, fun h => absurd h hrcode, ?_, fun _ => ⟨_, mem_append_right _
        (mem_singleton.mpr rfl), _, hcontent, ?_⟩⟩
      · intro rr hrr nrc hnrc
        rcases hmem rr hrr with hrr | rfl
        · exact absurd hnrc ((hcopies rr hrr).1 nrc)
        · obtain rfl := RData.nsec.inj (hcontent.symm.trans hnrc)
          exact hlink
      · rintro - ⟨rr, hrr, hplace, hsoa⟩
        rcases hmem rr hrr with hrr | rfl
        · rw [(hcopies rr hrr).2] at hplace
          cases hplace
        · rw [htype] at hsoa
          exact absurd hsoa (by decide)
      · rw [hname, hsame₁, hsame₂]
        exact covers_self hsigned.start hbefore hafter habsent

/-- Records that go into the answer section as they are, and an NSEC record of the target for
a query for any type. -/
theorem proves_records (hrcode : rcode ≠ RCode.NXDomain) {rrs : List StoredRR}
    {name : DName} {zoneId : Int} (hrrs : ∀ rr ∈ rrs, rr ∈ H.B.lookup QType.ANY name zoneId)
    (hin : H.InChain sd target) :
    H.ProvesAnswer p sd target rcode (rrs.map StoredRR.inReply ++
      if p.qtype = QType.ANY then H.addNSECX p target sd.qname 2 else []) := by
  have hunder : UnderName sd.qname target := underName_of_suffix (getAuth_eq_some hauth).1
  obtain ⟨hname, ⟨types, hcontent, -⟩, htype, hwild⟩ := emitNSEC_spec H target
    (H.B.getBeforeAndAfterNames sd.domain_id sd.qname target).2 sd.qname 2
  have hmem : ∀ rr ∈ rrs.map StoredRR.inReply ++
      (if p.qtype = QType.ANY then H.addNSECX p target sd.qname 2 else []),
      (∃ found ∈ rrs, found.inReply = rr) ∨ rr = H.emitNSEC target
        (H.B.getBeforeAndAfterNames sd.domain_id sd.qname target).2 sd.qname 2 := by
    intro rr hrr
    rcases mem_append.mp hrr with hrr | hrr
    · exact .inl (mem_map.mp hrr)
    · split at hrr
      · rw [addNSECX_eq hsigned, addNSEC_own hdo (.inr rfl) (zoneAsked hauth)] at hrr
        exact .inr (mem_singleton.mp hrr)
      · cases hrr
  refine provesAnswer_of_plain hrcode ?_ ?_ ?_
  · intro rr hrr nrc hnrc
    rcases hmem rr hrr with ⟨found, -, rfl⟩ | rfl
    · cases hnrc
    · obtain rfl := RData.nsec.inj (hcontent.symm.trans hnrc)
      rw [hname]
      exact (hsigned.joins_iff hunder).mpr ⟨hin, sameName_refl _⟩
  · intro rr hrr hplace
    rcases hmem rr hrr with ⟨found, hfound, rfl⟩ | rfl
    · rw [StoredRR.inReply_d_place, Backend.lookup_d_place (hrrs found hfound)] at hplace
      cases hplace
    · rw [htype]
      decide
  · intro rr hrr
    rcases hmem rr hrr with ⟨found, hfound, rfl⟩ | rfl
    · exact inReply_wildcardname (hrrs found hfound)
    · exact hwild

/-- A referral: the NSEC record that shows the absence of DS records belongs to the cut,
which is in the chain. -/
theorem proves_referral (hrcode : rcode ≠ RCode.NXDomain) {ns : StoredRR}
    {rest : List StoredRR} (hns : H.getBestReferralNS sd target = ns :: rest) :
    H.ProvesAnswer p sd target rcode ((ns :: rest).map (fun rr =>
      { rr.inReply with d_place := .AUTHORITY }) ++ referralExtra H p sd ns.qname) := by
  have happ := (getAuth_eq_some hauth).1
  -- the NS records come from one name between the target and the apex
  obtain ⟨s, hs, htop, hall⟩ : ∃ s, s <:+ target ∧ sd.qname <:+ s ∧
      ∀ rr ∈ ns :: rest, rr ∈ H.B.lookup QType.NS s sd.domain_id := by
    rw [getBestReferralNS_eq] at hns
    obtain ⟨s, hs, heq, -⟩ := SuffixSearch.firstAnswer_mem (hns ▸ cons_ne_nil ns rest)
    obtain ⟨hs, htop, -⟩ := (SuffixSearch.mem_upTo happ).mp hs
    refine ⟨s, hs, htop, fun rr hrr => ?_⟩
    rw [← hns, heq] at hrr
    exact (mem_filter.mp hrr).1
  obtain ⟨z, hz, ⟨hzname, hztype, hzzone⟩, hget⟩ :=
    Backend.mem_lookup.mp (hall ns mem_cons_self)
  have hzNS : z.qtype = QType.NS := hztype.resolve_left (by decide)
  have hcut : sameName ns.qname s := by
    rw [← hget]
    exact hzname
  have hin : H.InChain sd ns.qname := by
    rw [inChain_iff]
    refine ⟨z, hz, hzzone, .inr hzNS, ?_⟩
    rw [← hget]
    exact sameName_refl _
  have hunder : UnderName sd.qname ns.qname := by
    unfold UnderName
    rw [show lowerLabels ns.qname = lowerLabels s from hcut]
    exact underName_of_suffix htop
  have hzone : (if sd.qname = [] then H.getAuth ns.qname else H.B.getSOA sd.qname) = some sd := by
    by_cases hroot : sd.qname = []
    · rw [if_pos hroot]
      exact getAuth_root_congr hroot (getAuth_ancestor hauth hs htop) hcut
    · rw [if_neg hroot]
      exact (getAuth_eq_some hauth).2
  have hextra : ∀ rr ∈ referralExtra H p sd ns.qname, (NotNSEC rr ∧ rr.wildcardname = []) ∨
      rr = H.emitNSEC ns.qname (H.B.getBeforeAndAfterNames sd.domain_id sd.qname ns.qname).2
        sd.qname 0 := by
    intro rr hrr
    unfold referralExtra at hrr
    split at hrr
    · obtain ⟨ds, hds, rfl⟩ := mem_map.mp hrr
      exact .inl ⟨fun _ => nofun, inReply_wildcardname hds⟩
    · rw [addNSECX_eq hsigned, addNSEC_own hdo (.inl rfl) hzone] at hrr
      exact .inr (mem_singleton.mp hrr)
  obtain ⟨hname, ⟨types, hcontent, -⟩, -, hwild⟩ := emitNSEC_spec H ns.qname
    (H.B.getBeforeAndAfterNames sd.domain_id sd.qname ns.qname).2 sd.qname 0
  refine provesAnswer_of_plain hrcode ?_ ?_ ?_
  · intro rr hrr nrc hnrc
    rcases mem_append.mp hrr with hrr | hrr
    · obtain ⟨found, -, rfl⟩ := mem_map.mp hrr
      cases hnrc
    · rcases hextra rr hrr with ⟨hnot, -⟩ | rfl
      · exact absurd hnrc (hnot nrc)
      · obtain rfl := RData.nsec.inj (hcontent.symm.trans hnrc)
        rw [hname]
        exact (hsigned.joins_iff hunder).mpr ⟨hin, sameName_refl _⟩
  · intro rr hrr hplace
    rcases mem_append.mp hrr with hrr | hrr
    · obtain ⟨found, hfound, rfl⟩ := mem_map.mp hrr
      obtain ⟨z', -, ⟨-, htype', -⟩, rfl⟩ := Backend.mem_lookup.mp (hall found hfound)
      change z'.qtype ≠ QType.SOA
      rw [htype'.resolve_left (by decide)]
      decide
    · exact (mem_referralExtra hrr).2.2
  · intro rr hrr
    rcases mem_append.mp hrr with hrr | hrr
    · obtain ⟨found, hfound, rfl⟩ := mem_map.mp hrr
      exact inReply_wildcardname (hall found hfound)
    · rcases hextra rr hrr with ⟨-, hnil⟩ | rfl
      · exact hnil
      · exact hwild

end Answers

end PacketHandler

end PowerDNS
