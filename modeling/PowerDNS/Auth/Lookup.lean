import PowerDNS.Auth.ZoneCuts

/-!
# The lookup algorithm

What a name server answers for a name of a zone without delegations is laid down in RFC 1034
and RFC 4592: the answer depends on whether the name exists, itself or through a name below
it, and if it does not, on the wildcard child of its closest encloser and on no other
wildcard. `dnsLookup` is that algorithm over the content of the zone.

`getBestWildcard` climbs over all names above the query name until it finds a wildcard *with
records of the type* and never asks which of these names exist. `lookup_right_iff` says for
which zones and queries this comes to the same.
-/

namespace PowerDNS

open SuffixSearch List

namespace PacketHandler

/-! ### The algorithm -/

/-- A name exists when it or a name below it owns a record. -/
def NameExists (H : PacketHandler) (sd : SOAData) (name : DName) : Prop :=
  ∃ z ∈ H.B.records, inZone sd z ∧ UnderName name z.qname

instance (H : PacketHandler) (sd : SOAData) : DecidablePred (H.NameExists sd) :=
  fun _ => inferInstanceAs (Decidable (∃ z ∈ _, _ ∧ _))

/-- The closest encloser: the deepest existing name at or above the query name. -/
def closestEncloser (H : PacketHandler) (sd : SOAData) (name : DName) : DName :=
  closest (H.NameExists sd) name

/-- The outcomes of the algorithm. -/
inductive LookupResult
  /-- The records of the type. -/
  | records (rrs : List StoredRR)
  /-- The CNAME, which is followed. -/
  | cname (rr : StoredRR)
  /-- The name exists without records of the type. -/
  | nodata
  /-- The records of the type, or the CNAME, of the wildcard. -/
  | wildcard (rrs : List StoredRR)
  /-- The name does not exist. -/
  | nxdomain
  deriving DecidableEq

/-- Records that answer a query for the type, directly or as a CNAME. -/
def suitable (p : Query) (rrs : List StoredRR) : List StoredRR :=
  rrs.filter fun rr => rr.qtype = p.qtype ∨ rr.qtype = QType.CNAME

/-- The answer for a name that does not exist: that of the wildcard child `w` of the closest
encloser. -/
def wildcardLookup (H : PacketHandler) (p : Query) (sd : SOAData) (w : DName) : LookupResult :=
  if ¬ H.NameExists sd w then .nxdomain
  else if suitable p (H.ownedBy sd w) = [] then .nodata
  else .wildcard (suitable p (H.ownedBy sd w))

/-- **The lookup algorithm** of RFC 1034, section 4.3.2, and RFC 4592, for a zone without
delegations. -/
def dnsLookup (H : PacketHandler) (p : Query) (sd : SOAData) : LookupResult :=
  let owned := H.ownedBy sd p.qdomain
  if owned ≠ [] then
    match owned.find? fun rr => p.qtype ≠ QType.CNAME ∧ rr.qtype = QType.CNAME with
    | some rr => .cname rr
    | none =>
      let rrs := owned.filter fun rr => rr.qtype = p.qtype
      if rrs ≠ [] then .records rrs else .nodata
  else if H.NameExists sd p.qdomain then .nodata
  else H.wildcardLookup p sd (star :: H.closestEncloser sd p.qdomain)

/-- Where a wildcard sends the query on to: its CNAME, unless that is what was asked for. -/
def followed (p : Query) (rrs : List StoredRR) : Option DName :=
  if p.qtype = QType.CNAME then none
  else ((rrs.filter fun rr => rr.qtype = QType.CNAME).getLast?).map fun rr => splitDots rr.content

/-- What `questionOrRecurse` makes of an outcome at the query name. The SOA record of the
apex is written anew. -/
def present (H : PacketHandler) (p : Query) (sd : SOAData) : LookupResult → Pass
  | .records rrs =>
    .sendit ((startReply H p).addRecords
      (if p.qtype = QType.SOA ∧ sameName sd.qname p.qdomain then [soaRecord sd .ANSWER]
        else rrs.map StoredRR.inReply))
  | .cname rr => .retarget ((startReply H p).addRecords [rr.inReply]) (splitDots rr.content)
  | .nodata => .sendit (H.makeNOError p (startReply H p) p.qdomain sd)
  | .wildcard rrs =>
    let r := (startReply H p).addRecords (rrs.map (fun rr =>
        { rr.inReply with wildcardname := rr.qname, qname := p.qdomain, d_place := .ANSWER }) ++
      if p.d_dnssecOk then H.addNSECX p p.qdomain sd.qname 3 else [])
    match followed p rrs with
    | some target => .retarget r target
    | none => .sendit r
  | .nxdomain => .sendit (H.makeNXDomain p (startReply H p) p.qdomain sd)

/-! ### The claim's setting and the condition -/

/-- A zone without delegations: no cuts, so every record is authoritative, and all owners
are proper names at or below the apex. -/
structure Undelegated (H : PacketHandler) (sd : SOAData) : Prop where
  noCuts : H.cuts sd = []
  auth : ∀ z ∈ H.B.records, inZone sd z → z.auth = true
  under : ∀ z ∈ H.B.records, inZone sd z → UnderName sd.qname z.qname
  labels : ∀ z ∈ H.B.records, inZone sd z → [] ∉ z.qname

/-- A query for a type of data: not for any type, nor for the records that DNSSEC adds when
DNSSEC is asked for. -/
structure OrdinaryType (p : Query) : Prop where
  notANY : p.qtype ≠ QType.ANY
  notNSEC : ¬ (p.qtype = QType.NSEC ∧ p.d_dnssecOk = true)
  notRRSIG : ¬ (p.qtype = QType.RRSIG ∧ p.d_dnssecOk = true)

/-- When the code follows the algorithm. Either the query name owns records (and the query
is not for the SOA record of an apex that owns a CNAME as well); or it does not exist, also
not through a name below it, and
* the wildcard at its closest encloser has suitable records, and the type is not CNAME, or
* that wildcard does not exist, and no wildcard further up has suitable records. -/
def LookupRight (H : PacketHandler) (p : Query) (sd : SOAData) : Prop :=
  let ce := H.closestEncloser sd p.qdomain
  (H.ownedBy sd p.qdomain ≠ [] ∧ ¬ (p.qtype = QType.SOA ∧ sameName sd.qname p.qdomain ∧
      ∃ rr ∈ H.ownedBy sd p.qdomain, rr.qtype = QType.CNAME)) ∨
    ¬ H.NameExists sd p.qdomain ∧
      (p.qtype ≠ QType.CNAME ∧ suitable p (H.ownedBy sd (wildcardName ce)) ≠ [] ∨
        ¬ H.NameExists sd (star :: ce) ∧
          ∀ s, s <:+ ce → s ≠ ce → sd.qname <:+ s →
            suitable p (H.ownedBy sd (wildcardName s)) = [])

/-! ### Existing names -/

variable {H : PacketHandler} {p : Query} {sd : SOAData}

theorem NameExists.mono {a b : DName} (h : H.NameExists sd b) (hab : UnderName a b) :
    H.NameExists sd a := by
  obtain ⟨z, hz, hzone, hunder⟩ := h
  exact ⟨z, hz, hzone, hab.trans hunder⟩

theorem nameExists_of_owned {name : DName} (h : H.ownedBy sd name ≠ []) :
    H.NameExists sd name := by
  obtain ⟨rr, hrr⟩ := exists_mem_of_ne_nil _ h
  obtain ⟨z, hz, hname, hzone, -⟩ := mem_ownedBy.mp hrr
  refine ⟨z, hz, hzone, ?_⟩
  unfold UnderName
  rw [show lowerLabels z.qname = lowerLabels name from hname]

/-- The apex owns its SOA record. -/
theorem owned_apex {target : DName} (hauth : H.getAuth target = some sd) :
    ∃ rr ∈ H.ownedBy sd sd.qname, rr.qtype = QType.SOA := by
  obtain ⟨-, z, hz, htype, hname, hid⟩ := Backend.getSOA_eq_some (getAuth_eq_some hauth).2
  exact ⟨z.get, mem_ownedBy.mpr ⟨z, hz, hname, .inr hid, rfl⟩, htype⟩

theorem nameExists_apex {target : DName} (hauth : H.getAuth target = some sd) :
    H.NameExists sd sd.qname := by
  obtain ⟨rr, hrr, -⟩ := owned_apex hauth
  exact nameExists_of_owned (ne_nil_of_mem hrr)

theorem wildcardRecords_eq (H : PacketHandler) (p : Query) (sd : SOAData) (s : DName) :
    H.wildcardRecords p sd s = suitable p (H.ownedBy sd (wildcardName s)) := by
  apply filter_congr
  intro rr _
  rw [Bool.eq_iff_iff]
  simp

/-- The name `*.` that is looked up at the root is no name of a zone. -/
theorem ownedBy_wildcardName_root (hzone : H.Undelegated sd) :
    H.ownedBy sd (wildcardName []) = [] := by
  rw [eq_nil_iff_forall_not_mem]
  intro rr hrr
  obtain ⟨z, hz, hname, hin, -⟩ := mem_ownedBy.mp hrr
  apply hzone.labels z hz hin
  have hlower : lowerLabels z.qname = [star, []] := hname
  have hmem : ([] : Octets) ∈ lowerLabels z.qname := by
    rw [hlower]
    simp
  obtain ⟨l, hl, hnil⟩ := mem_map.mp hmem
  rwa [(toLower_eq_nil l).mp hnil] at hl

/-- A wildcard that owns records makes the name above it exist. -/
theorem nameExists_of_wildcard (hzone : H.Undelegated sd) {s : DName}
    (h : H.ownedBy sd (wildcardName s) ≠ []) :
    s ≠ [] ∧ wildcardName s = star :: s ∧ H.NameExists sd s := by
  have hs : s ≠ [] := by
    rintro rfl
    exact h (ownedBy_wildcardName_root hzone)
  have hname : wildcardName s = star :: s := if_neg hs
  refine ⟨hs, hname, ?_⟩
  rw [hname] at h
  exact (nameExists_of_owned h).mono (underName_of_suffix (suffix_cons star s))

section Absent

variable (hauth : H.getAuth p.qdomain = some sd) (hzone : H.Undelegated sd)
  (habsent : ¬ H.NameExists sd p.qdomain)

include hauth

/-- The closest encloser lies at or below the apex and exists. -/
theorem closestEncloser_spec : H.closestEncloser sd p.qdomain <:+ p.qdomain ∧
    sd.qname <:+ H.closestEncloser sd p.qdomain ∧
    H.NameExists sd (H.closestEncloser sd p.qdomain) := by
  have happ := (getAuth_eq_some hauth).1
  have hexists := nameExists_apex hauth
  exact ⟨closest_suffix _ _, suffix_closest happ hexists, closest_holds happ hexists⟩

include hzone habsent

/-- Between the query name and its closest encloser there is no wildcard, so the climb may
as well start at the closest encloser. -/
theorem getBestWildcard_absent :
    H.getBestWildcard p sd p.qdomain = firstAnswer (H.wildcardRecords p sd)
      (upTo sd.qname (H.closestEncloser sd p.qdomain) ++ [sd.qname]) := by
  obtain ⟨hce, htop, hexists⟩ := closestEncloser_spec hauth
  have happ := (getAuth_eq_some hauth).1
  have hne : p.qdomain ≠ sd.qname := fun e => habsent (e ▸ nameExists_apex hauth)
  obtain ⟨l, subdomain, hq, hsub⟩ := exists_cons_of_below happ hne
  have hce' : H.closestEncloser sd p.qdomain <:+ subdomain := by
    have hcons : H.closestEncloser sd p.qdomain <:+ l :: subdomain :=
      hce.trans (hq ▸ suffix_rfl)
    refine (suffix_cons_iff.mp hcons).resolve_left fun e => habsent ?_
    rw [hq, ← e]
    exact hexists
  have hbelow : subdomain <:+ p.qdomain := hq ▸ suffix_cons l subdomain
  rw [show H.getBestWildcard p sd p.qdomain = H.getBestWildcard p sd (l :: subdomain) by rw [hq],
    getBestWildcard_eq H p sd hsub]
  apply firstAnswer_upTo_start htop hce'
  intro t ht hcet htne
  -- an ancestor of the query name below the closest encloser does not exist
  rw [wildcardRecords_eq]
  by_contra hwild
  have hown : H.ownedBy sd (wildcardName t) ≠ [] := fun hnil => hwild (by rw [hnil]; rfl)
  have htexists := (nameExists_of_wildcard hzone hown).2.2
  have hup := suffix_closest (ht.trans hbelow) htexists
  exact htne (hup.eq_of_length_le hcet.length_le)

/-- The wildcard at the closest encloser answers first. -/
theorem getBestWildcard_of_suitable
    (h : suitable p (H.ownedBy sd (wildcardName (H.closestEncloser sd p.qdomain))) ≠ []) :
    H.getBestWildcard p sd p.qdomain =
      suitable p (H.ownedBy sd (wildcardName (H.closestEncloser sd p.qdomain))) := by
  obtain ⟨-, htop, -⟩ := closestEncloser_spec hauth
  rw [getBestWildcard_absent hauth hzone habsent]
  rw [← wildcardRecords_eq] at h ⊢
  exact firstAnswer_upTo_self h htop

/-- No wildcard answers exactly when none at or above the closest encloser is suitable. -/
theorem getBestWildcard_absent_eq_nil :
    H.getBestWildcard p sd p.qdomain = [] ↔
      ∀ s, s <:+ H.closestEncloser sd p.qdomain → sd.qname <:+ s →
        suitable p (H.ownedBy sd (wildcardName s)) = [] := by
  obtain ⟨-, htop, -⟩ := closestEncloser_spec hauth
  rw [getBestWildcard_absent hauth hzone habsent, firstAnswer_eq_nil_iff]
  constructor
  · intro hall s hs htops
    rw [← wildcardRecords_eq]
    apply hall s
    rw [mem_append, mem_upTo htop, mem_singleton]
    by_cases heq : s = sd.qname
    · exact .inr heq
    · exact .inl ⟨hs, htops, heq⟩
  · intro hall s hs
    rw [mem_append, mem_upTo htop, mem_singleton] at hs
    rw [wildcardRecords_eq]
    rcases hs with ⟨hs, htops, -⟩ | rfl
    · exact hall s hs htops
    · exact hall _ htop suffix_rfl

end Absent

/-! ### The code against the algorithm -/

/-- NXDOMAIN is told apart by its result code. -/
theorem present_ne_nxdomain {res : LookupResult} (h : res ≠ .nxdomain) :
    present H p sd .nxdomain ≠ present H p sd res := by
  have hrcode : (present H p sd res).reply.rcode = RCode.NoError := by
    cases res with
    | records => rfl
    | cname => rfl
    | nodata => rfl
    | wildcard rrs =>
      unfold present
      dsimp only
      split <;> rfl
    | nxdomain => exact absurd rfl h
  intro e
  rw [← e] at hrcode
  cases hrcode

/-- The denials put nothing into the answer section. -/
theorem denial_no_answer (H : PacketHandler) (p : Query) (sd : SOAData) {res : LookupResult}
    (h : res = .nodata ∨ res = .nxdomain) {rr : ReplyRR}
    (hrr : rr ∈ (present H p sd res).reply.d_rrs) : rr.d_place ≠ .ANSWER := by
  have hcases : ∃ mode, (mode = 0 ∨ mode = 1) ∧ rr ∈ soaRecord sd .AUTHORITY ::
      (if p.d_dnssecOk then H.addNSECX p p.qdomain sd.qname mode else []) := by
    rcases h with rfl | rfl
    · exact ⟨0, .inl rfl, hrr⟩
    · exact ⟨1, .inr rfl, hrr⟩
  obtain ⟨mode, hmode, hmem⟩ := hcases
  rcases mem_cons.mp hmem with rfl | hmem
  · exact nofun
  · split at hmem
    · rw [(mem_addNSECX hmem).2]
      rcases hmode with rfl | rfl <;> decide
    · cases hmem

/-- A wildcard expansion is no denial. -/
theorem expansion_ne_denial {res : LookupResult} (h : res = .nodata ∨ res = .nxdomain)
    {outcome : Pass} {r : Reply} (hreply : outcome.reply = r.addRecords (expansion H p sd p.qdomain))
    (hwild : H.getBestWildcard p sd p.qdomain ≠ []) : outcome ≠ present H p sd res := by
  intro e
  obtain ⟨rr, hrr, hplace⟩ := exists_mem_expansion hwild
  refine denial_no_answer H p sd h ?_ hplace
  rw [← e, hreply]
  exact mem_append_right _ hrr

/-! ### What the algorithm gives -/

section Absent

variable (howned : H.ownedBy sd p.qdomain = [])

include howned

/-- A name that exists only through names below it. -/
theorem dnsLookup_emptyNonTerminal (hexists : H.NameExists sd p.qdomain) :
    H.dnsLookup p sd = .nodata := by
  unfold dnsLookup
  rw [howned]
  rw [if_neg (not_not.mpr rfl), if_pos hexists]

/-- A name that does not exist. -/
theorem dnsLookup_absent (habsent : ¬ H.NameExists sd p.qdomain) :
    H.dnsLookup p sd = H.wildcardLookup p sd (star :: H.closestEncloser sd p.qdomain) := by
  unfold dnsLookup
  rw [howned]
  rw [if_neg (not_not.mpr rfl), if_neg habsent]

end Absent

/-- The wildcard of a name without suitable records gives a denial, or belongs to the
root. -/
theorem wildcardLookup_denial {s : DName}
    (h : suitable p (H.ownedBy sd (wildcardName s)) = []) (hs : s ≠ []) :
    H.wildcardLookup p sd (star :: s) = .nodata ∨ H.wildcardLookup p sd (star :: s) = .nxdomain := by
  have hname : wildcardName s = star :: s := if_neg hs
  rw [hname] at h
  unfold wildcardLookup
  by_cases hw : H.NameExists sd (star :: s)
  · rw [if_neg (not_not.mpr hw), if_pos h]
    exact .inl rfl
  · rw [if_pos hw]
    exact .inr rfl

/-- The outcome is NXDOMAIN only when the wildcard does not exist. -/
theorem wildcardLookup_ne_nxdomain {w : DName} (h : H.NameExists sd w) :
    H.wildcardLookup p sd w ≠ .nxdomain := by
  unfold wildcardLookup
  rw [if_neg (not_not.mpr h)]
  split <;> exact nofun

/-! ### The condition is exact -/

section Cases

variable (hauth : H.getAuth p.qdomain = some sd) (hzone : H.Undelegated sd)

include hauth hzone

/-- The query name owns nothing, and the climb found a wildcard. -/
theorem lookup_right_of_wildcard {outcome : Pass}
    (howned : H.ownedBy sd p.qdomain = []) (hwild : H.getBestWildcard p sd p.qdomain ≠ [])
    (houtcome : outcome = match expansionTarget H p sd p.qdomain with
      | some target => .retarget ((startReply H p).addRecords (expansion H p sd p.qdomain)) target
      | none => .sendit ((startReply H p).addRecords (expansion H p sd p.qdomain))) :
    outcome = present H p sd (H.dnsLookup p sd) ↔ H.LookupRight p sd := by
  have hreply : outcome.reply =
      (startReply H p).addRecords (expansion H p sd p.qdomain) := by
    rw [houtcome]
    split <;> rfl
  -- a name that exists through names below it gets NODATA from the algorithm
  by_cases habsent : H.NameExists sd p.qdomain
  · rw [dnsLookup_emptyNonTerminal howned habsent]
    refine ⟨fun e => absurd e (expansion_ne_denial (.inl rfl) hreply hwild), ?_⟩
    rintro (⟨hne, -⟩ | ⟨hnot, -⟩)
    · exact absurd howned hne
    · exact absurd habsent hnot
  rw [dnsLookup_absent howned habsent]
  set ce := H.closestEncloser sd p.qdomain with hce
  by_cases hsuit : suitable p (H.ownedBy sd (wildcardName ce)) = []
  · -- the wildcard that answered is further up
    have hup : ∃ s, s <:+ ce ∧ s ≠ ce ∧ sd.qname <:+ s ∧
        suitable p (H.ownedBy sd (wildcardName s)) ≠ [] := by
      by_contra hno
      apply hwild
      rw [getBestWildcard_absent_eq_nil hauth hzone habsent]
      intro s hs htop
      by_cases heq : s = ce
      · rw [heq]
        exact hsuit
      · by_contra hne
        exact hno ⟨s, hs, heq, htop, hne⟩
    obtain ⟨s, hs, hne, htop, hssuit⟩ := hup
    have hceroot : ce ≠ [] := by
      intro e
      rw [e] at hs hne
      exact hne (suffix_nil.mp hs)
    have hdenial := wildcardLookup_denial hsuit hceroot
    refine ⟨fun e => absurd e (expansion_ne_denial hdenial hreply hwild), ?_⟩
    rintro (⟨hown, -⟩ | ⟨-, ⟨-, hce'⟩ | ⟨-, hall⟩⟩)
    · exact absurd howned hown
    · exact absurd hsuit hce'
    · exact absurd (hall s hs hne htop) hssuit
  · -- the wildcard at the closest encloser answered
    have hfound := getBestWildcard_of_suitable hauth hzone habsent hsuit
    have hown : H.ownedBy sd (wildcardName ce) ≠ [] := fun hnil => hsuit (by rw [hnil]; rfl)
    obtain ⟨-, hname, -⟩ := nameExists_of_wildcard hzone hown
    have hexists : H.NameExists sd (star :: ce) := hname ▸ nameExists_of_owned hown
    have hlookup : H.wildcardLookup p sd (star :: ce) =
        .wildcard (suitable p (H.ownedBy sd (wildcardName ce))) := by
      unfold wildcardLookup
      rw [if_neg (not_not.mpr hexists), ← hname, if_neg hsuit]
    have hright : H.LookupRight p sd ↔ p.qtype ≠ QType.CNAME := by
      constructor
      · rintro (⟨hne, -⟩ | ⟨-, ⟨htype, -⟩ | ⟨hnot, -⟩⟩)
        · exact absurd howned hne
        · exact htype
        · exact absurd hexists hnot
      · exact fun htype => .inr ⟨habsent, .inl ⟨htype, hsuit⟩⟩
    have hexpand : expansion H p sd p.qdomain =
        (suitable p (H.ownedBy sd (wildcardName ce))).map (fun rr =>
          { rr.inReply with wildcardname := rr.qname, qname := p.qdomain, d_place := .ANSWER }) ++
        if p.d_dnssecOk then H.addNSECX p p.qdomain sd.qname 3 else [] := by
      unfold expansion
      rw [hfound]
    rw [hright, hlookup, houtcome]
    unfold present
    dsimp only
    rw [← hexpand]
    by_cases htype : p.qtype = QType.CNAME
    · -- every suitable record is a CNAME, and the code follows the last one
      obtain ⟨target, htarget⟩ : ∃ target, expansionTarget H p sd p.qdomain = some target := by
        unfold expansionTarget
        rw [hfound]
        obtain ⟨rr, hrr⟩ := exists_mem_of_ne_nil _ hsuit
        have hcname : rr.qtype = QType.CNAME := by
          have := (mem_filter.mp hrr).2
          simpa [htype] using this
        have hne : (suitable p (H.ownedBy sd (wildcardName ce))).filter
            (fun rr => rr.qtype = QType.CNAME) ≠ [] :=
          ne_nil_of_mem (mem_filter.mpr ⟨hrr, decide_eq_true hcname⟩)
        obtain ⟨last, hlast⟩ := Option.isSome_iff_exists.mp
          (getLast?_isSome.mpr hne)
        exact ⟨_, by rw [hlast]; rfl⟩
      rw [htarget, followed, if_pos htype]
      refine ⟨fun e => ?_, fun hne => absurd htype hne⟩
      cases e
    · have hnext : expansionTarget H p sd p.qdomain =
          followed p (suitable p (H.ownedBy sd (wildcardName ce))) := by
        unfold expansionTarget followed
        rw [if_neg htype, hfound]
      rw [hnext]
      exact ⟨fun _ => htype, fun _ => rfl⟩

/-- The query name owns nothing, and neither a wildcard nor a cut was found. -/
theorem lookup_right_of_nxdomain
    (howned : H.ownedBy sd p.qdomain = []) (hwild : H.getBestWildcard p sd p.qdomain = []) :
    present H p sd .nxdomain = present H p sd (H.dnsLookup p sd) ↔ H.LookupRight p sd := by
  by_cases habsent : H.NameExists sd p.qdomain
  · rw [dnsLookup_emptyNonTerminal howned habsent]
    refine ⟨fun e => absurd e (present_ne_nxdomain nofun), ?_⟩
    rintro (⟨hne, -⟩ | ⟨hnot, -⟩)
    · exact absurd howned hne
    · exact absurd habsent hnot
  rw [dnsLookup_absent howned habsent]
  have hall := (getBestWildcard_absent_eq_nil hauth hzone habsent).mp hwild
  obtain ⟨-, htop, -⟩ := closestEncloser_spec hauth
  by_cases hexists : H.NameExists sd (star :: H.closestEncloser sd p.qdomain)
  · -- NXDOMAIN although the wildcard exists
    refine ⟨fun e => absurd e (present_ne_nxdomain (wildcardLookup_ne_nxdomain hexists)), ?_⟩
    rintro (⟨hne, -⟩ | ⟨-, ⟨-, hsuit⟩ | ⟨hnot, -⟩⟩)
    · exact absurd howned hne
    · exact absurd (hall _ suffix_rfl htop) hsuit
    · exact absurd hexists hnot
  · have hnx : H.wildcardLookup p sd (star :: H.closestEncloser sd p.qdomain) = .nxdomain :=
      if_pos hexists
    rw [hnx]
    exact ⟨fun _ => .inr ⟨habsent, .inr ⟨hexists, fun s hs _ hs' => hall s hs hs'⟩⟩,
      fun _ => rfl⟩

end Cases

/-- The test for a redirection is the algorithm's. -/
theorem redirection_eq_find? (p : Query) (rrset : List StoredRR) :
    redirection p rrset =
      rrset.find? fun rr => p.qtype ≠ QType.CNAME ∧ rr.qtype = QType.CNAME := by
  unfold redirection
  by_cases htype : p.qtype = QType.CNAME
  · rw [if_pos htype]
    symm
    rw [find?_eq_none]
    intro rr _ h
    exact (of_decide_eq_true h).1 htype
  · rw [if_neg htype]
    congr 1
    funext rr
    rw [Bool.eq_iff_iff]
    simp [htype]

theorem dnsLookup_of_owned (howned : H.ownedBy sd p.qdomain ≠ []) :
    H.dnsLookup p sd =
      match redirection p (H.ownedBy sd p.qdomain) with
      | some rr => .cname rr
      | none =>
        if (H.ownedBy sd p.qdomain).filter (fun rr => rr.qtype = p.qtype) ≠ [] then
          .records ((H.ownedBy sd p.qdomain).filter fun rr => rr.qtype = p.qtype)
        else .nodata := by
  unfold dnsLookup
  rw [if_pos howned, redirection_eq_find?]

/-- In a zone without delegations every record of the type is wanted. -/
theorem wanted_eq (hzone : H.Undelegated sd) (hany : p.qtype ≠ QType.ANY) (name : DName) :
    wanted p (H.ownedBy sd name) = (H.ownedBy sd name).filter fun rr => rr.qtype = p.qtype := by
  apply filter_congr
  intro rr hrr
  obtain ⟨z, hz, -, hin, rfl⟩ := mem_ownedBy.mp hrr
  have hzauth : z.get.auth = true := hzone.auth z hz hin
  rw [Bool.eq_iff_iff]
  simp [hany, hzauth]

theorem wanted_eq_nil_iff {rrset : List StoredRR} :
    wanted p rrset = [] ↔ weDone p rrset = false := by
  unfold wanted weDone
  rw [filter_eq_nil_iff, any_eq_false]

/-- Nothing in a zone without delegations asks for a referral. -/
theorem unauthNS_eq_nil (hzone : H.Undelegated sd) (name : DName) : H.unauthNS sd name = [] := by
  unfold unauthNS
  rw [filter_eq_nil_iff]
  intro rr hrr
  rw [Backend.lookup_eq_filter H.B (by decide)] at hrr
  obtain ⟨z, hz, -, hin, rfl⟩ := mem_ownedBy.mp (mem_filter.mp hrr).1
  have hzauth : z.get.auth = true := hzone.auth z hz hin
  rw [hzauth]
  decide

theorem weHaveUnauth_eq_false (hzone : H.Undelegated sd) (name : DName) :
    weHaveUnauth p (H.ownedBy sd name) = false := by
  rw [← Bool.not_eq_true, weHaveUnauth_eq_true]
  rintro ⟨rr, hrr, -, hunauth⟩
  obtain ⟨z, hz, -, hin, rfl⟩ := mem_ownedBy.mp hrr
  have hzauth : z.get.auth = true := hzone.auth z hz hin
  rw [hzauth] at hunauth
  cases hunauth

/-- A SOA query for the apex, which is answered before anything is looked up. -/
theorem lookup_right_of_apexSOA (hauth : H.getAuth p.qdomain = some sd)
    (htype : p.qtype = QType.SOA) (happ : sameName sd.qname p.qdomain) :
    Pass.sendit ((startReply H p).addRecords [soaRecord sd .ANSWER]) =
      present H p sd (H.dnsLookup p sd) ↔ H.LookupRight p sd := by
  obtain ⟨soa, hsoa, hsoatype⟩ := owned_apex hauth
  have hmem : soa ∈ H.ownedBy sd p.qdomain := by
    unfold ownedBy
    rw [← Backend.lookup_congr H.B QType.ANY happ]
    exact hsoa
  have howned := ne_nil_of_mem hmem
  have hexists := nameExists_of_owned howned
  rw [dnsLookup_of_owned howned]
  cases hcname : redirection p (H.ownedBy sd p.qdomain) with
  | some rr =>
    obtain ⟨-, hrr, hrrtype⟩ := redirection_eq_some hcname
    constructor
    · intro e
      cases e
    · rintro (⟨-, hnot⟩ | ⟨hnot, -⟩)
      · exact absurd ⟨htype, happ, rr, hrr, hrrtype⟩ hnot
      · exact absurd hexists hnot
  | none =>
    have hne : (H.ownedBy sd p.qdomain).filter (fun rr => rr.qtype = p.qtype) ≠ [] :=
      ne_nil_of_mem (mem_filter.mpr ⟨hmem, decide_eq_true (hsoatype.trans htype.symm)⟩)
    have hright : H.LookupRight p sd := by
      refine .inl ⟨howned, ?_⟩
      rintro ⟨-, -, rr, hrr, hrrtype⟩
      exact redirection_eq_none.mp hcname (by rw [htype]; decide) rr hrr hrrtype
    rw [if_pos hne]
    refine ⟨fun _ => hright, fun _ => ?_⟩
    unfold present
    dsimp only
    rw [if_pos ⟨htype, happ⟩]

/-- **The lookup algorithm.** For a query of an ordinary type at a name of a zone without
delegations, what `questionOrRecurse` does there is what the algorithm says exactly when
`LookupRight` holds. -/
theorem lookup_right_iff (H : PacketHandler) (p : Query) (sd : SOAData)
    (hauth : H.getAuth p.qdomain = some sd) (htype : OrdinaryType p)
    (hzone : H.Undelegated sd) :
    H.pass p (startReply H p) p.qdomain = present H p sd (H.dnsLookup p sd) ↔
      H.LookupRight p sd := by
  -- a name with records: the flags of the code against the algorithm
  have hright : H.ownedBy sd p.qdomain ≠ [] → LooksUp H p p.qdomain sd → H.LookupRight p sd :=
    fun howned hlook => .inl ⟨howned, fun h => hlook.notApexSOA ⟨h.1, h.2.1⟩⟩
  have hnoref : H.getBestReferralNS sd p.qdomain = [] := by
    rw [getBestReferralNS_eq, firstAnswer_eq_nil_iff]
    exact fun s _ => unauthNS_eq_nil hzone s
  have hnounauth := @weHaveUnauth_eq_false H p sd hzone p.qdomain
  have hstep := H.pass_step p (startReply H p) p.qdomain
  generalize H.pass p (startReply H p) p.qdomain = outcome at hstep
  cases hstep with
  | noZone hnone => rw [hauth] at hnone; cases hnone
  | apexSOA sd' hauth' hT happ =>
    obtain rfl : sd' = sd := Option.some.inj (hauth'.symm.trans hauth)
    exact lookup_right_of_apexSOA hauth hT happ
  | nsecQuery sd' hauth' hT hdo => exact absurd ⟨hT, hdo⟩ htype.notNSEC
  | rrsigQuery sd' hauth' hT hdo => exact absurd ⟨hT, hdo⟩ htype.notRRSIG
  | wildcardCNAME sd' hlook howned hwild target' hnext =>
    obtain rfl : sd' = sd := Option.some.inj (hlook.auth.symm.trans hauth)
    exact lookup_right_of_wildcard hauth hzone howned hwild (by rw [hnext])
  | wildcard sd' hlook howned hwild hnext =>
    obtain rfl : sd' = sd := Option.some.inj (hlook.auth.symm.trans hauth)
    exact lookup_right_of_wildcard hauth hzone howned hwild (by rw [hnext])
  | emptyReferral sd' hlook howned hwild ns rest hns =>
    obtain rfl : sd' = sd := Option.some.inj (hlook.auth.symm.trans hauth)
    rw [hnoref] at hns
    cases hns
  | nxdomain sd' hlook howned hwild hns =>
    obtain rfl : sd' = sd := Option.some.inj (hlook.auth.symm.trans hauth)
    exact lookup_right_of_nxdomain hauth hzone howned hwild
  | cname sd' hlook rr hcname =>
    obtain rfl : sd' = sd := Option.some.inj (hlook.auth.symm.trans hauth)
    have howned := ne_nil_of_mem (redirection_eq_some hcname).2.1
    rw [dnsLookup_of_owned howned, hcname]
    exact ⟨fun _ => hright howned hlook, fun _ => rfl⟩
  | records sd' hlook hcname hdone =>
    obtain rfl : sd' = sd := Option.some.inj (hlook.auth.symm.trans hauth)
    have hne : wanted p (H.ownedBy sd' p.qdomain) ≠ [] := by
      intro e
      rw [wanted_eq_nil_iff.mp e] at hdone
      cases hdone
    have howned : H.ownedBy sd' p.qdomain ≠ [] := fun e => hne (by rw [e]; rfl)
    rw [wanted_eq hzone htype.notANY] at hne ⊢
    rw [dnsLookup_of_owned howned, hcname, if_neg htype.notANY, append_nil]
    rw [if_pos hne]
    refine ⟨fun _ => hright howned hlook, fun _ => ?_⟩
    unfold present
    dsimp only
    rw [if_neg hlook.notApexSOA]
  | referral sd' hlook hcname hdone hunauth ns rest hns =>
    obtain rfl : sd' = sd := Option.some.inj (hlook.auth.symm.trans hauth)
    rw [hnoref] at hns
    cases hns
  | lost sd' hlook hcname hdone hunauth hns =>
    obtain rfl : sd' = sd := Option.some.inj (hlook.auth.symm.trans hauth)
    rw [hnounauth] at hunauth
    cases hunauth
  | nodata sd' hlook howned hcname hdone hunauth =>
    obtain rfl : sd' = sd := Option.some.inj (hlook.auth.symm.trans hauth)
    have hnone := wanted_eq_nil_iff.mpr hdone
    rw [wanted_eq hzone htype.notANY] at hnone
    rw [dnsLookup_of_owned howned, hcname]
    rw [if_neg (not_not.mpr hnone)]
    exact ⟨fun _ => hright howned hlook, fun _ => rfl⟩

/-! ### A zone with a wildcard -/

/-- The zone `example.com` with an address for `*.example.com`. -/
def wildcardZone : Backend where
  records :=
    [{ qname := exampleApex, qtype := QType.SOA, content := ascii "ns.example.com", domain_id := 1 },
     { qname := star :: exampleApex, qtype := QType.A, content := ascii "192.0.2.1",
       domain_id := 1 }]
  getBeforeAndAfterNames _ _ _ := (exampleApex, star :: exampleApex)
  getBeforeAndAfterNamesAbsolute _ _ := (exampleApex, [], [])

/-- The name `www.example.com`, which the zone has only through the wildcard. -/
def exampleWWW : DName := ascii "www" :: exampleApex

theorem wildcardZone_undelegated : (withDefaults wildcardZone).Undelegated exampleSOA where
  noCuts := by decide
  auth := by decide
  under := by decide
  labels := by decide

/-- An address query is answered from the wildcard, as the algorithm says. -/
theorem wildcard_address_right :
    (withDefaults wildcardZone).pass { qdomain := exampleWWW, qtype := QType.A }
        (startReply (withDefaults wildcardZone) { qdomain := exampleWWW, qtype := QType.A })
        exampleWWW =
      present (withDefaults wildcardZone) { qdomain := exampleWWW, qtype := QType.A } exampleSOA
        (dnsLookup (withDefaults wildcardZone) { qdomain := exampleWWW, qtype := QType.A }
          exampleSOA) :=
  (lookup_right_iff (withDefaults wildcardZone) { qdomain := exampleWWW, qtype := QType.A }
      exampleSOA (by decide) ⟨by decide, by decide, by decide⟩
      wildcardZone_undelegated).mpr
    (.inr ⟨by decide, .inl ⟨by decide, by decide⟩⟩)

/-- A query for an IPv6 address gets NXDOMAIN, where the algorithm says NODATA: the wildcard
at the closest encloser exists. -/
theorem wildcard_without_type_wrong :
    let H := withDefaults wildcardZone
    let p : Query := { qdomain := exampleWWW, qtype := QType.AAAA }
    H.getAuth p.qdomain = some exampleSOA ∧ OrdinaryType p ∧ H.Undelegated exampleSOA ∧
      H.dnsLookup p exampleSOA = .nodata ∧
      H.pass p (startReply H p) p.qdomain = present H p exampleSOA .nxdomain ∧
      H.pass p (startReply H p) p.qdomain ≠ present H p exampleSOA (H.dnsLookup p exampleSOA) := by
  refine ⟨by decide, ⟨by decide, by decide, by decide⟩, wildcardZone_undelegated,
    by decide, by decide, by decide⟩

end PacketHandler

end PowerDNS
