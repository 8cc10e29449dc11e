import PowerDNS.Auth.Passes

/-!
# Zone cuts

A query at or below a delegation belongs to another zone, and the answer to it is a
referral: the NS records of the cut, without AA (`IsReferral`). `questionOrRecurse` decides
between a referral and an answer of its own by what the query name itself owns, so a
referral is given only under conditions on the records at the query name and on the
wildcards above it: `ReferralDue` says which, and `zone_cut_referral` that these are all.

Backends mark the records at and below a cut as not authoritative (`PromisesAuth`); the
proof goes through what this makes of the flags `weDone` and `weHaveUnauth`.
-/

namespace PowerDNS

open SuffixSearch List

namespace PacketHandler

/-! ### Cuts and referrals -/

/-- A question about zone `sd` takes the record into account. -/
def inZone (sd : SOAData) (z : ZoneRecord) : Prop :=
  sd.domain_id = -1 ∨ z.domain_id = sd.domain_id

instance (sd : SOAData) (z : ZoneRecord) : Decidable (inZone sd z) :=
  inferInstanceAs (Decidable (_ ∨ _))

/-- The zone cuts: owners of NS records strictly below the apex. -/
def cuts (H : PacketHandler) (sd : SOAData) : List DName :=
  (H.B.records.filter fun z => z.qtype = QType.NS ∧ inZone sd z ∧
    UnderName sd.qname z.qname ∧ ¬ sameName sd.qname z.qname).map (·.qname)

/-- What the backends promise: a record at or below a cut is not authoritative, unless it is
a DS record at the cut. -/
def PromisesAuth (H : PacketHandler) (sd : SOAData) : Prop :=
  ∀ z ∈ H.B.records, inZone sd z → z.auth = true →
    ∀ c ∈ H.cuts sd, UnderName c z.qname → z.qtype = QType.DS ∧ sameName z.qname c

instance (H : PacketHandler) (sd : SOAData) : Decidable (H.PromisesAuth sd) :=
  inferInstanceAs (Decidable (∀ z ∈ _, _ → _ → ∀ c ∈ _, _ → _))

/-- The reply is a referral to a cut at or above the query name: AA clear, no error, nothing
in the answer section, no SOA record in the authority section, and there exactly the NS
records of the cut. -/
structure IsReferral (H : PacketHandler) (p : Query) (sd : SOAData) (r : Reply) : Prop where
  aa : r.aa = false
  rcode : r.rcode = RCode.NoError
  noAnswer : ∀ rr ∈ r.d_rrs, rr.d_place ≠ .ANSWER
  noSOA : ∀ rr ∈ r.d_rrs, rr.d_place = .AUTHORITY → rr.qtype ≠ QType.SOA
  nameservers : ∃ c ∈ H.cuts sd, UnderName c p.qdomain ∧
    r.d_rrs.filter (fun rr => rr.d_place = .AUTHORITY ∧ rr.qtype = QType.NS) =
      (H.B.lookup QType.NS c sd.domain_id).map fun rr =>
        { rr.inReply with d_place := .AUTHORITY }

/-- The query is answered, and the answer is a referral. -/
def Refers (H : PacketHandler) (p : Query) (sd : SOAData) : Prop :=
  ∃ a, H.questionOrRecurse p = some a ∧ H.IsReferral p sd a.reply

/-- No wildcard between the query name and the apex has records that answer the query. -/
def NoWildcardAbove (H : PacketHandler) (p : Query) (sd : SOAData) : Prop :=
  ∀ s, s <:+ p.qdomain → s ≠ p.qdomain → sd.qname <:+ s →
    ∀ rr ∈ H.ownedBy sd (wildcardName s), rr.qtype ≠ p.qtype ∧ rr.qtype ≠ QType.CNAME

/-- When a query at or below a cut does get a referral: it is none of those answered from
the keys or the version, and either the query name owns nothing and no wildcard above it
answers, or it owns NS records or records of the type, no CNAME in the way, and for a query
for any type no authoritative (DS) record. -/
def ReferralDue (H : PacketHandler) (p : Query) (sd : SOAData) : Prop :=
  ReachesLoop H p ∧
  ¬ (p.d_dnssecOk = true ∧ (p.qtype = QType.NSEC ∨ p.qtype = QType.RRSIG)) ∧
  (H.ownedBy sd p.qdomain = [] ∧ H.NoWildcardAbove p sd ∨
    (∃ rr ∈ H.ownedBy sd p.qdomain, rr.qtype = p.qtype ∨ rr.qtype = QType.NS) ∧
    (p.qtype ≠ QType.CNAME → ∀ rr ∈ H.ownedBy sd p.qdomain, rr.qtype ≠ QType.CNAME) ∧
    (p.qtype = QType.ANY → ∀ rr ∈ H.ownedBy sd p.qdomain, rr.auth = false))

/-! ### Records at a cut -/

variable {H : PacketHandler} {p : Query} {sd : SOAData} {c : DName}

theorem mem_cuts :
    c ∈ H.cuts sd ↔ ∃ z ∈ H.B.records, z.qtype = QType.NS ∧ inZone sd z ∧
      UnderName sd.qname c ∧ ¬ sameName sd.qname c ∧ z.qname = c := by
  unfold cuts
  rw [mem_map]
  constructor
  · rintro ⟨z, hz, rfl⟩
    rw [mem_filter, decide_eq_true_eq] at hz
    obtain ⟨hmem, htype, hzone, hunder, hapex⟩ := hz
    exact ⟨z, hmem, htype, hzone, hunder, hapex, rfl⟩
  · rintro ⟨z, hmem, htype, hzone, hunder, hapex, rfl⟩
    exact ⟨z, mem_filter.mpr ⟨hmem, decide_eq_true ⟨htype, hzone, hunder, hapex⟩⟩, rfl⟩

variable {name : DName} {rr : StoredRR}

theorem mem_ownedBy :
    rr ∈ H.ownedBy sd name ↔
      ∃ z ∈ H.B.records, sameName z.qname name ∧ inZone sd z ∧ z.get = rr := by
  unfold ownedBy
  rw [Backend.mem_lookup]
  constructor
  · rintro ⟨z, hz, ⟨hname, -, hzone⟩, rfl⟩
    exact ⟨z, hz, hname, hzone, rfl⟩
  · rintro ⟨z, hz, hname, hzone, rfl⟩
    exact ⟨z, hz, ⟨hname, .inl rfl, hzone⟩, rfl⟩

/-- The promise, read at a name: an authoritative record at or below a cut is a DS record at
the cut. -/
theorem PromisesAuth.owned (hpromise : H.PromisesAuth sd)
    (hrr : rr ∈ H.ownedBy sd name) (hauth : rr.auth = true) (hc : c ∈ H.cuts sd)
    (hunder : UnderName c name) : rr.qtype = QType.DS ∧ sameName name c := by
  obtain ⟨z, hz, hname, hzone, rfl⟩ := mem_ownedBy.mp hrr
  have hzunder : UnderName c z.qname := by
    unfold UnderName
    rw [show lowerLabels z.qname = lowerLabels name from hname]
    exact hunder
  obtain ⟨htype, hsame⟩ := hpromise z hz hzone hauth c hc hzunder
  exact ⟨htype, hname.symm.trans hsame⟩

/-- NS records of a name at or below a cut are never authoritative. -/
theorem unauthNS_eq (hpromise : H.PromisesAuth sd) (hc : c ∈ H.cuts sd)
    (hunder : UnderName c name) :
    H.unauthNS sd name = H.B.lookup QType.NS name sd.domain_id := by
  unfold unauthNS
  rw [filter_eq_self]
  intro rr hrr
  rw [Backend.lookup_eq_filter H.B (by decide), mem_filter, decide_eq_true_eq] at hrr
  by_contra hauth
  have hDS := (hpromise.owned hrr.1 (by simpa using hauth) hc hunder).1
  rw [hrr.2] at hDS
  exact absurd hDS (by decide)

/-- A cut has NS records, in whatever spelling it is asked for. -/
theorem lookup_cut_ne_nil (hc : c ∈ H.cuts sd) (hname : sameName name c) :
    H.B.lookup QType.NS name sd.domain_id ≠ [] := by
  obtain ⟨z, hz, htype, hzone, -, -, rfl⟩ := mem_cuts.mp hc
  exact ne_nil_of_mem
    (Backend.mem_lookup.mpr ⟨z, hz, ⟨hname.symm, .inr htype, hzone⟩, rfl⟩)

/-- A name with NS records strictly below the apex is a cut. -/
theorem exists_cut_of_lookup (htop : sd.qname <:+ name) (hne : name ≠ sd.qname)
    (h : H.B.lookup QType.NS name sd.domain_id ≠ []) : ∃ c ∈ H.cuts sd, sameName name c := by
  obtain ⟨rr, hrr⟩ := exists_mem_of_ne_nil _ h
  obtain ⟨z, hz, ⟨hname, htype, hzone⟩, -⟩ := Backend.mem_lookup.mp hrr
  refine ⟨z.qname, mem_cuts.mpr ⟨z, hz, htype.resolve_left (by decide), hzone, ?_, ?_, rfl⟩,
    hname.symm⟩
  · unfold UnderName
    rw [show lowerLabels z.qname = lowerLabels name from hname]
    exact underName_of_suffix htop
  · intro hsame
    exact hne (eq_of_sameName_of_suffix suffix_rfl htop (hname.symm.trans hsame.symm))

/-- The cut as an ancestor of the query name, spelled as the query spells it. -/
theorem exists_ancestor_cut (hauth : H.getAuth p.qdomain = some sd) (hc : c ∈ H.cuts sd)
    (hunder : UnderName c p.qdomain) :
    ∃ s, s <:+ p.qdomain ∧ sd.qname <:+ s ∧ s ≠ sd.qname ∧ sameName s c := by
  obtain ⟨-, -, -, -, htop, hapex, -⟩ := mem_cuts.mp hc
  obtain ⟨s, hs, hsame⟩ := hunder.exists_suffix
  have happ := (getAuth_eq_some hauth).1
  refine ⟨s, hs, ?_, fun e => hapex (e ▸ hsame), hsame⟩
  apply suffix_of_suffix_length_le happ hs
  have hlen : s.length = c.length := by simpa [lowerLabels] using congrArg List.length hsame
  rw [hlen]
  simpa [lowerLabels] using htop.length_le

/-- The climb finds NS records, and what it finds are all NS records of one cut at or above
the query name. -/
theorem getBestReferralNS_at_cut (hauth : H.getAuth p.qdomain = some sd)
    (hpromise : H.PromisesAuth sd) (hc : c ∈ H.cuts sd) (hunder : UnderName c p.qdomain) :
    ∃ c' ∈ H.cuts sd, UnderName c' p.qdomain ∧
      H.getBestReferralNS sd p.qdomain = H.B.lookup QType.NS c' sd.domain_id := by
  obtain ⟨s, hs, htop, hne, hsame⟩ := exists_ancestor_cut hauth hc hunder
  have happ := (getAuth_eq_some hauth).1
  have hfound : H.getBestReferralNS sd p.qdomain ≠ [] := by
    rw [getBestReferralNS_eq, ne_eq, firstAnswer_eq_nil_iff]
    intro hnone
    have hs' := hnone s ((mem_upTo happ).mpr ⟨hs, htop, hne⟩)
    have hcs : UnderName c s := by
      unfold UnderName
      rw [show lowerLabels s = lowerLabels c from hsame]
    rw [unauthNS_eq hpromise hc hcs] at hs'
    exact lookup_cut_ne_nil hc hsame hs'
  rw [getBestReferralNS_eq] at hfound ⊢
  obtain ⟨t, ht, heq, hne'⟩ := firstAnswer_mem hfound
  obtain ⟨ht, httop, htne⟩ := (mem_upTo happ).mp ht
  -- the name where the climb stops has NS records, so it is a cut itself
  have hlook : H.B.lookup QType.NS t sd.domain_id ≠ [] := by
    intro hnil
    rw [unauthNS, hnil] at hne'
    exact hne' rfl
  obtain ⟨c', hc', hsame'⟩ := exists_cut_of_lookup httop htne hlook
  have hct : UnderName c' t := by
    unfold UnderName
    rw [show lowerLabels t = lowerLabels c' from hsame']
  refine ⟨c', hc', hct.trans (underName_of_suffix ht), ?_⟩
  rw [heq, unauthNS_eq hpromise hc' hct, Backend.lookup_congr H.B QType.NS hsame']

/-! ### The referral -/

/-- The reply of a referral found at the query name is a referral, also after the additional
processing. -/
theorem referralReply_isReferral (hauth : H.getAuth p.qdomain = some sd)
    (hpromise : H.PromisesAuth sd) (hc : c ∈ H.cuts sd) (hunder : UnderName c p.qdomain)
    {r r'' : Reply} (hr : r.d_rrs = []) (hrcode : r.rcode = RCode.NoError) {ns : StoredRR}
    {rest : List StoredRR} (hns : H.getBestReferralNS sd p.qdomain = ns :: rest)
    (hfin : Finished (referralReply H p r sd ns rest) r'') : H.IsReferral p sd r'' := by
  obtain ⟨c', hc', hunder', hfound⟩ := getBestReferralNS_at_cut hauth hpromise hc hunder
  unfold referralReply at hfin
  rw [← hns, hfound, hr, nil_append] at hfin
  obtain ⟨extra, hrrs, hplace⟩ := hfin.d_rrs
  set nss := (H.B.lookup QType.NS c' sd.domain_id).map fun rr =>
    ({ rr.inReply with d_place := .AUTHORITY } : ReplyRR) with hnss
  have hnsType : ∀ rr ∈ nss, rr.d_place = .AUTHORITY ∧ rr.qtype = QType.NS := by
    intro rr hrr
    obtain ⟨found, hmem, rfl⟩ := mem_map.mp hrr
    obtain ⟨z, -, ⟨-, htype, -⟩, rfl⟩ := Backend.mem_lookup.mp hmem
    exact ⟨rfl, htype.resolve_left (by decide)⟩
  -- the three parts of the reply: NS records, DS or NSEC records, additional records
  have hmem : ∀ rr ∈ r''.d_rrs, rr ∈ nss ∨ rr ∈ referralExtra H p sd ns.qname ∨ rr ∈ extra := by
    intro rr hrr
    rw [hrrs] at hrr
    simpa [or_assoc] using hrr
  refine ⟨?_, hfin.rcode.trans hrcode, ?_, ?_, c', hc', hunder', ?_⟩
  · exact Bool.eq_false_iff.mpr fun haa => absurd (hfin.aa haa) nofun
  · intro rr hrr
    rcases hmem rr hrr with h | h | h
    · rw [(hnsType rr h).1]
      decide
    · rw [(mem_referralExtra h).1]
      decide
    · rw [hplace rr h]
      decide
  · intro rr hrr hauthority
    rcases hmem rr hrr with h | h | h
    · rw [(hnsType rr h).2]
      decide
    · exact (mem_referralExtra h).2.2
    · rw [hplace rr h] at hauthority
      cases hauthority
  · rw [hrrs, filter_append, filter_append]
    have hself : nss.filter (fun rr => rr.d_place = .AUTHORITY ∧ rr.qtype = QType.NS) = nss :=
      filter_eq_self.mpr fun rr hrr => decide_eq_true (hnsType rr hrr)
    have hnone : (referralExtra H p sd ns.qname).filter
        (fun rr => rr.d_place = .AUTHORITY ∧ rr.qtype = QType.NS) = [] := by
      rw [filter_eq_nil_iff]
      intro rr hrr h
      exact (mem_referralExtra hrr).2.1 (of_decide_eq_true h).2
    have hnone' : extra.filter
        (fun rr => rr.d_place = .AUTHORITY ∧ rr.qtype = QType.NS) = [] := by
      rw [filter_eq_nil_iff]
      intro rr hrr h
      have := (of_decide_eq_true h).1
      rw [hplace rr hrr] at this
      cases this
    rw [hself, hnone, hnone', append_nil, append_nil]

/-- What keeps a reply from being a referral, whatever is appended to it later. -/
inductive Answers (r : Reply) : Prop
  | answer (rr : ReplyRR) (hmem : rr ∈ r.d_rrs) (hplace : rr.d_place = .ANSWER)
  | denial (rr : ReplyRR) (hmem : rr ∈ r.d_rrs) (hplace : rr.d_place = .AUTHORITY)
      (htype : rr.qtype = QType.SOA)
  | error (h : r.rcode ≠ RCode.NoError)
  | nothing (h : ∀ rr ∈ r.d_rrs, rr.d_place ≠ .AUTHORITY)

theorem Answers.not_isReferral {r r' : Reply} (h : Answers r) (hfin : Finished r r') :
    ¬ H.IsReferral p sd r' := by
  intro href
  have hext : ∀ rr ∈ r.d_rrs, rr ∈ r'.d_rrs := fun rr hrr => hfin.extends.subset hrr
  cases h with
  | answer rr hmem hplace => exact href.noAnswer rr (hext rr hmem) hplace
  | denial rr hmem hplace htype => exact href.noSOA rr (hext rr hmem) hplace htype
  | error h => exact h (hfin.rcode ▸ href.rcode)
  | nothing h =>
    obtain ⟨c, hc, -, hns⟩ := href.nameservers
    obtain ⟨rr, hrr⟩ := exists_mem_of_ne_nil _ (lookup_cut_ne_nil hc (sameName_refl c))
    have hns' : ({ rr.inReply with d_place := .AUTHORITY } : ReplyRR) ∈
        r'.d_rrs.filter fun rr => rr.d_place = .AUTHORITY ∧ rr.qtype = QType.NS := by
      rw [hns]
      exact mem_map.mpr ⟨rr, hrr, rfl⟩
    -- an authority record of the finished reply was there before
    obtain ⟨hmem, -⟩ := mem_filter.mp hns'
    obtain ⟨extra, hrrs, hplace⟩ := hfin.d_rrs
    rw [hrrs, mem_append] at hmem
    rcases hmem with hmem | hmem
    · exact h _ hmem rfl
    · cases hplace _ hmem

/-! ### Queries that do not reach the loop -/

theorem answerEarly_answers {r r' : Reply} (hr : r.d_rrs = [])
    (h : H.answerEarly p r = some r') : Answers r' := by
  -- a nonempty list of records for the answer section
  have hadd : ∀ rrs : List ReplyRR, rrs ≠ [] → (∀ rr ∈ rrs, rr.d_place = .ANSWER) →
      Answers (r.addRecords rrs) := by
    intro rrs hne hplace
    obtain ⟨rr, hrr⟩ := exists_mem_of_ne_nil _ hne
    exact .answer rr (mem_append_right _ hrr) (hplace rr hrr)
  unfold answerEarly at h
  split at h
  · next hkeys =>
    obtain rfl := Option.some.inj h
    refine hadd _ hkeys fun rr hrr => ?_
    unfold doDNSKEYRequest at hrr
    split at hrr
    · cases hrr
    · obtain ⟨content, -, rfl⟩ := mem_map.mp hrr
      rfl
  · split at h
    · next hparam =>
      obtain rfl := Option.some.inj h
      refine hadd _ hparam fun rr hrr => ?_
      unfold doNSEC3PARAMRequest at hrr
      split at hrr
      · cases hrr
      · obtain ⟨ns3prc, -, rfl⟩ := mem_map.mp hrr
        rfl
    · split at h
      · next r'' hversion =>
        obtain rfl := Option.some.inj h
        unfold doVersionRequest at hversion
        split at hversion
        · split at hversion
          · obtain rfl := Option.some.inj hversion
            refine .error ?_
            rw [Reply.setRcode_rcode]
            decide
          · obtain rfl := Option.some.inj hversion
            refine hadd _ (cons_ne_nil _ _) fun rr hrr => ?_
            rw [mem_singleton.mp hrr]
            rfl
        · cases hversion
      · split at h
        · obtain rfl := Option.some.inj h
          exact .nothing fun rr hrr => absurd (hr ▸ hrr) not_mem_nil
        · cases h

theorem reachesLoop_of_answerEarly {r : Reply} (hqr : p.qr = false) (hopcode : p.opcode = 0)
    (hname : validDNSName p.qdomain = true) (hixfr : p.qtype ≠ QType.IXFR)
    (hfancy : ¬ (H.d_doFancyRecords = true ∧
      (p.qtype = QType.URL ∨ p.qtype = QType.CURL ∨ p.qtype = QType.MBOXFW)))
    (h : H.answerEarly p r = none) : ReachesLoop H p := by
  unfold answerEarly at h
  split at h
  · cases h
  · next hkeys =>
    split at h
    · cases h
    · next hparam =>
      split at h
      · cases h
      · split at h
        · cases h
        · next hclass =>
          refine ⟨⟨hqr, hopcode⟩, hname, ?_, hixfr, hfancy, not_not.mp hkeys, not_not.mp hparam⟩
          by_cases h1 : p.qclass = 1
          · exact .inl h1
          · exact .inr (not_not.mp fun h255 => hclass ⟨h255, h1⟩)

/-- How a query is answered: it is refused, or answered before any zone is looked for, or it
reaches the loop. -/
theorem questionOrRecurse_cases {a : Answer} (h : H.questionOrRecurse p = some a) :
    (∃ rcode, a = ⟨{ opcode := p.opcode, rcode := rcode }, false⟩) ∨
      (∃ rcode, rcode ≠ RCode.NoError ∧ a = ⟨(H.replyPacket p).setRcode rcode, false⟩) ∨
      (∃ r', H.answerEarly p (H.replyPacket p) = some r' ∧ a = H.sendit p r') ∨
      ReachesLoop H p ∧ a = H.retargeted p 11 (startReply H p) p.qdomain := by
  have hquestion := h
  unfold questionOrRecurse at h
  by_cases hqr : p.qr = true
  · rw [if_pos hqr] at h
    cases h
  rw [if_neg hqr] at h
  by_cases hname : (!validDNSName p.qdomain) = true
  · rw [if_pos hname] at h
    exact .inl ⟨_, (Option.some.inj h).symm⟩
  rw [if_neg hname] at h
  by_cases hnotify : p.opcode = 4
  · rw [if_pos hnotify] at h
    obtain ⟨rcode, -, ha⟩ := Option.map_eq_some_iff.mp h
    exact .inl ⟨rcode, ha.symm⟩
  rw [if_neg hnotify] at h
  by_cases hopcode : p.opcode ≠ 0
  · rw [if_pos hopcode] at h
    exact .inl ⟨_, (Option.some.inj h).symm⟩
  rw [if_neg hopcode] at h
  by_cases hixfr : p.qtype = QType.IXFR
  · rw [if_pos hixfr] at h
    exact .inr (.inl ⟨_, by decide, (Option.some.inj h).symm⟩)
  rw [if_neg hixfr] at h
  by_cases hfancy : H.d_doFancyRecords = true ∧
      (p.qtype = QType.URL ∨ p.qtype = QType.CURL ∨ p.qtype = QType.MBOXFW)
  · rw [if_pos hfancy] at h
    exact .inr (.inl ⟨_, by decide, (Option.some.inj h).symm⟩)
  rw [if_neg hfancy] at h
  cases hearly : H.answerEarly p (H.replyPacket p) with
  | some r' =>
    rw [hearly] at h
    exact .inr (.inr (.inl ⟨r', rfl, (Option.some.inj h).symm⟩))
  | none =>
    have hloop : ReachesLoop H p := reachesLoop_of_answerEarly (Bool.eq_false_iff.mpr hqr)
      (not_not.mp hopcode) (by simpa using hname) hixfr hfancy hearly
    rw [questionOrRecurse_eq hloop] at hquestion
    exact .inr (.inr (.inr ⟨hloop, (Option.some.inj hquestion).symm⟩))

/-- Only queries that reach the loop are answered with a referral. -/
theorem Refers.reachesLoop (h : H.Refers p sd) : ReachesLoop H p := by
  obtain ⟨a, hq, href⟩ := h
  rcases questionOrRecurse_cases hq with ⟨rcode, rfl⟩ | ⟨rcode, hne, rfl⟩ | ⟨r', hearly, rfl⟩ |
    ⟨hloop, -⟩
  · exact absurd href.aa nofun
  · exact absurd href.rcode hne
  · exact absurd href ((answerEarly_answers rfl hearly).not_isReferral (sendit_finished H p r'))
  · exact hloop

/-! ### The first pass -/

/-- The reply the loop starts with is empty and without an error. -/
theorem startReply_empty (H : PacketHandler) (p : Query) :
    (startReply H p).d_rrs = [] ∧ (startReply H p).rcode = RCode.NoError := ⟨rfl, rfl⟩

/-- When the first pass is the last one, what it sends decides. -/
theorem refers_iff_of_sendit (hloop : ReachesLoop H p) {r' : Reply}
    (hp : H.pass p (startReply H p) p.qdomain = .sendit r') :
    H.Refers p sd ↔ H.IsReferral p sd (H.sendit p r').reply := by
  unfold Refers
  rw [questionOrRecurse_eq hloop, retargeted, hp]
  constructor
  · rintro ⟨a, ha, href⟩
    rwa [← Option.some.inj ha] at href
  · intro href
    exact ⟨_, rfl, href⟩

/-- A record for the answer section in the first pass excludes a referral, wherever the
query goes from there. -/
theorem not_refers_of_answer (sd : SOAData) (hloop : ReachesLoop H p) {outcome : Pass}
    (hp : H.pass p (startReply H p) p.qdomain = outcome) {rr : ReplyRR}
    (hmem : rr ∈ outcome.reply.d_rrs) (hplace : rr.d_place = .ANSWER) : ¬ H.Refers p sd := by
  rintro ⟨a, ha, href⟩
  rw [questionOrRecurse_eq hloop, retargeted, hp] at ha
  have hext : Extends outcome.reply a.reply := by
    cases outcome with
    | sendit r' =>
      rw [← Option.some.inj ha]
      exact (sendit_finished H p r').extends
    | retarget r' target' =>
      rw [← Option.some.inj ha]
      exact retargeted_extends H p 10 r' target'
  exact href.noAnswer rr (hext.subset hmem) hplace

/-- A wildcard expansion puts a record into the answer section. -/
theorem exists_mem_expansion {target : DName} (h : H.getBestWildcard p sd target ≠ []) :
    ∃ rr ∈ expansion H p sd target, rr.d_place = .ANSWER := by
  obtain ⟨rr, hrr⟩ := exists_mem_of_ne_nil _ h
  exact ⟨_, mem_append_left _ (mem_map.mpr ⟨rr, hrr, rfl⟩), rfl⟩

/-- The NSEC record for a direct query. -/
theorem exists_mem_addNSEC_direct {target : DName} (hauth : H.getAuth target = some sd)
    (hdo : p.d_dnssecOk = true) : ∃ rr ∈ H.addNSEC p target [] 2, rr.d_place = .ANSWER := by
  unfold addNSEC
  rw [hdo, if_pos rfl, hauth]
  exact ⟨_, mem_append_left _ (mem_append_left _ (mem_singleton.mpr rfl)), rfl⟩

/-- The signatures made up for a direct query. -/
theorem exists_mem_synthesiseRRSIGs (H : PacketHandler) (p : Query) :
    ∃ rr ∈ H.synthesiseRRSIGs p, rr.d_place = .ANSWER := by
  unfold synthesiseRRSIGs
  refine ⟨synthesisedRRSIG p (H.B.lookup QType.ANY p.qdomain (-1)) QType.NSEC false, ?_, rfl⟩
  exact mem_flatMap.mpr ⟨QType.NSEC, mem_typeSet.mpr mem_cons_self,
    mem_map.mpr ⟨false, mem_cons_self, rfl⟩⟩

variable {rrset : List StoredRR}

/-- The redirecting CNAME is one of the records of the name. -/
theorem redirection_eq_some
    (h : redirection p rrset = some rr) :
    p.qtype ≠ QType.CNAME ∧ rr ∈ rrset ∧ rr.qtype = QType.CNAME := by
  unfold redirection at h
  split at h
  · cases h
  · next hne => exact ⟨hne, mem_of_find?_eq_some h, by simpa using find?_some h⟩

theorem redirection_eq_none :
    redirection p rrset = none ↔
      (p.qtype ≠ QType.CNAME → ∀ rr ∈ rrset, rr.qtype ≠ QType.CNAME) := by
  unfold redirection
  by_cases h : p.qtype = QType.CNAME
  · simp [h]
  · rw [if_neg h, find?_eq_none]
    simp [h]

theorem weDone_eq_true :
    weDone p rrset = true ↔
      ∃ rr ∈ rrset, (p.qtype = QType.ANY ∨ rr.qtype = p.qtype) ∧ rr.auth = true := by
  simp [weDone]

theorem weHaveUnauth_eq_true :
    weHaveUnauth p rrset = true ↔
      ∃ rr ∈ rrset, (rr.qtype = p.qtype ∨ rr.qtype = QType.NS) ∧ rr.auth = false := by
  simp [weHaveUnauth]

/-- No wildcard answers exactly when none above the query name has suitable records. -/
theorem noWildcardAbove_iff (hauth : H.getAuth p.qdomain = some sd)
    (hne : p.qdomain ≠ sd.qname) :
    H.NoWildcardAbove p sd ↔ H.getBestWildcard p sd p.qdomain = [] := by
  rw [getBestWildcard_eq_nil_iff (getAuth_eq_some hauth).1 hne]
  unfold NoWildcardAbove wildcardRecords ownedBy
  simp [filter_eq_nil_iff]

section AtCut

variable (hauth : H.getAuth p.qdomain = some sd) (hpromise : H.PromisesAuth sd)
  (hc : c ∈ H.cuts sd) (hunder : UnderName c p.qdomain)
  (hds : ¬ (p.qtype = QType.DS ∧ sameName p.qdomain c))

include hc hunder in
/-- A query name at or below a cut is not the apex, in any spelling. -/
theorem not_apex : ¬ sameName sd.qname p.qdomain := by
  obtain ⟨-, -, -, -, htop, hapex, -⟩ := mem_cuts.mp hc
  intro hsame
  apply hapex
  have hlen : (lowerLabels p.qdomain).length ≤ (lowerLabels c).length := by
    rw [← show lowerLabels sd.qname = lowerLabels p.qdomain from hsame]
    exact htop.length_le
  exact Eq.trans hsame (hunder.eq_of_length_le hlen).symm

include hpromise hc hunder hds in
/-- The records of the type at the query name are not authoritative. -/
theorem not_auth_of_type {rr : StoredRR} (hrr : rr ∈ H.ownedBy sd p.qdomain)
    (htype : rr.qtype = p.qtype ∨ rr.qtype = QType.NS) : rr.auth = false := by
  by_contra hrrauth
  obtain ⟨hDS, hsame⟩ := hpromise.owned hrr (by simpa using hrrauth) hc hunder
  rcases htype with htype | htype
  · exact hds ⟨htype ▸ hDS, hsame⟩
  · rw [hDS] at htype
    exact absurd htype (by decide)

include hpromise hc hunder hds in
/-- At a query name that owns something, the flags of the first pass come to a referral
exactly when the condition on its records holds. -/
theorem owned_due_iff (howned : H.ownedBy sd p.qdomain ≠ []) :
    (H.ownedBy sd p.qdomain = [] ∧ H.NoWildcardAbove p sd ∨
      (∃ rr ∈ H.ownedBy sd p.qdomain, rr.qtype = p.qtype ∨ rr.qtype = QType.NS) ∧
      (p.qtype ≠ QType.CNAME → ∀ rr ∈ H.ownedBy sd p.qdomain, rr.qtype ≠ QType.CNAME) ∧
      (p.qtype = QType.ANY → ∀ rr ∈ H.ownedBy sd p.qdomain, rr.auth = false)) ↔
    redirection p (H.ownedBy sd p.qdomain) = none ∧
      weDone p (H.ownedBy sd p.qdomain) = false ∧
      weHaveUnauth p (H.ownedBy sd p.qdomain) = true := by
  rw [redirection_eq_none, weHaveUnauth_eq_true, ← Bool.not_eq_true, weDone_eq_true]
  have hunauth := @not_auth_of_type H p sd c hpromise hc hunder hds
  constructor
  · rintro (⟨hnil, -⟩ | ⟨⟨rr, hrr, htype⟩, hcname, hany⟩)
    · exact absurd hnil howned
    · refine ⟨hcname, ?_, rr, hrr, htype, hunauth hrr htype⟩
      rintro ⟨rr', hrr', htype' | htype', hauth'⟩
      · rw [hany htype' rr' hrr'] at hauth'
        cases hauth'
      · rw [hunauth hrr' (.inl htype')] at hauth'
        cases hauth'
  · rintro ⟨hcname, hdone, rr, hrr, htype, -⟩
    refine .inr ⟨⟨rr, hrr, htype⟩, hcname, ?_⟩
    intro hany rr' hrr'
    by_contra hauth'
    exact hdone ⟨rr', hrr', .inl hany, by simpa using hauth'⟩

end AtCut

/-- `example.com`. -/
def exampleApex : DName := [ascii "example", ascii "com"]

/-- The delegated name `sub.example.com`. -/
def exampleCut : DName := ascii "sub" :: exampleApex

/-- The name server `ns.sub.example.com`, whose address is glue. -/
def exampleGlue : DName := ascii "ns" :: exampleCut

/-- The zone `example.com` with the delegation of `sub.example.com` and its glue. -/
def glueZone : Backend where
  records :=
    [{ qname := exampleApex, qtype := QType.SOA, content := ascii "ns.example.com", domain_id := 1 },
     { qname := exampleApex, qtype := QType.NS, content := ascii "ns.example.com", domain_id := 1 },
     { qname := exampleCut, qtype := QType.NS, content := ascii "ns.sub.example.com",
       domain_id := 1, auth := false },
     { qname := exampleGlue, qtype := QType.A, content := ascii "192.0.2.1", domain_id := 1,
       auth := false }]
  getBeforeAndAfterNames _ _ _ := (exampleApex, exampleCut)
  getBeforeAndAfterNamesAbsolute _ _ := (exampleApex, [], [])

/-- The SOA data of the example zone. -/
def exampleSOA : SOAData :=
  { qname := exampleApex, content := ascii "ns.example.com", ttl := 3600, domain_id := 1 }

end PacketHandler

end PowerDNS
