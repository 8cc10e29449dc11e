import PowerDNS.Auth.DenialRuns

/-!
# CNAME chains in the answer section

A CNAME, of the zone or of a wildcard, sends the handler on to another name, and what is found
there goes behind it. `FollowsCNAMEs` says that the answer section can be read that way: as long
as there is a CNAME, the owner of the next record is its target, and the records at the end are all
owned by the last target.

`tryWildcard` gives the records of a wildcard the name that was asked for, wherever the CNAMEs have
led to. `answer_follows` is about the runs in which this does no harm.
-/

namespace PowerDNS

open List Option

namespace PacketHandler

variable {H : PacketHandler} {p : Query} {sd : SOAData} {target : DName}

/-! ### Reading an answer section -/

/-- The records of the answer section. -/
def answers (rrs : List ReplyRR) : List ReplyRR := rrs.filter fun rr => rr.d_place = .ANSWER

/-- The name that a CNAME record stands for. -/
def cnameTarget (rr : ReplyRR) : DName := splitDots rr.content.asText

/-- All records are owned by the name, and none is a CNAME that should have been followed. -/
def AllAt (p : Query) (name : DName) (rrs : List ReplyRR) : Prop :=
  ∀ rr ∈ rrs, sameName rr.qname name ∧ (rr.qtype = QType.CNAME → p.qtype = QType.CNAME)

/-- The records start at the name, and follow the CNAMEs among them. -/
def FollowsCNAMEs (p : Query) : DName → List ReplyRR → Prop
  | _, [] => True
  | name, rr :: rrs => AllAt p name (rr :: rrs) ∨
      (rr.qtype = QType.CNAME ∧ sameName rr.qname name ∧ FollowsCNAMEs p (cnameTarget rr) rrs)

/-- **When a pass keeps to the chain.**
* If a wildcard answers, the pass is about the name that was asked for, and the records of the
  wildcard are a single CNAME, or there is no CNAME among them.
* The NSEC or NSEC3 records that go with the answer to an ANY query are owned by the target. For
  NSEC records this is always so. -/
structure ChainRight (H : PacketHandler) (p : Query) (target : DName) : Prop where
  wildcard : ∀ sd, LooksUp H p target sd → H.ownedBy sd target = [] →
    H.getBestWildcard p sd target ≠ [] → sameName p.qdomain target ∧
      ((∃ rr, H.getBestWildcard p sd target = [rr] ∧ rr.qtype = QType.CNAME) ∨
        ∀ rr ∈ H.getBestWildcard p sd target, rr.qtype ≠ QType.CNAME)
  any : ∀ sd, LooksUp H p target sd → redirection p (H.ownedBy sd target) = none →
    weDone p (H.ownedBy sd target) = true → p.qtype = QType.ANY →
    ∀ rr ∈ H.addNSECX p target sd.qname 2, sameName rr.qname target

theorem answers_append (rrs rrs' : List ReplyRR) :
    answers (rrs ++ rrs') = answers rrs ++ answers rrs' := filter_append _ _

variable {rrs : List ReplyRR}

theorem answers_eq_self (h : ∀ rr ∈ rrs, rr.d_place = .ANSWER) :
    answers rrs = rrs := filter_eq_self.2 fun rr hrr => decide_eq_true (h rr hrr)

theorem answers_eq_nil (h : ∀ rr ∈ rrs, rr.d_place ≠ .ANSWER) :
    answers rrs = [] :=
  filter_eq_nil_iff.2 fun rr hrr hplace => h rr hrr (of_decide_eq_true hplace)

variable {name : DName}

theorem AllAt.follows (h : AllAt p name rrs) :
    FollowsCNAMEs p name rrs := by
  cases rrs with
  | nil => trivial
  | cons rr rrs => exact .inl h

theorem AllAt.append {rrs rrs' : List ReplyRR} (h : AllAt p name rrs)
    (h' : AllAt p name rrs') : AllAt p name (rrs ++ rrs') := fun rr hrr =>
  (mem_append.1 hrr).elim (h rr) (h' rr)

/-- Records of other sections do not matter. -/
theorem allAt_of_no_answer
    (h : ∀ rr ∈ rrs, rr.d_place ≠ .ANSWER) : AllAt p name (answers rrs) := by
  rw [answers_eq_nil h]
  exact nofun

/-! ### One pass -/

/-- The pass is the first one, or a query for this name was not answered by its type alone. -/
def Reached (H : PacketHandler) (p : Query) (target : DName) : Prop :=
  target = p.qdomain ∨ ∃ sd, LooksUp H p p.qdomain sd

/-- A query for the SOA record of a zone is answered in the first pass. -/
theorem reached_apexSOA (h : Reached H p target) (hauth : H.getAuth target = some sd)
    (htype : p.qtype = QType.SOA) (happ : sameName sd.qname p.qdomain) : target = p.qdomain := by
  rcases h with heq | ⟨sd₀, hlook⟩
  · exact heq
  · -- the zone of the query name is the query name itself, so the first pass has answered
    exfalso
    obtain ⟨-, hsoa⟩ := getAuth_eq_some hauth
    have hsome : H.B.getSOA p.qdomain ≠ none := by
      unfold Backend.getSOA at hsoa ⊢
      rw [← H.B.lookup_congr QType.SOA happ (-1)]
      intro hnone
      rw [map_eq_none_iff] at hnone
      rw [hnone] at hsoa
      cases hsoa
    obtain ⟨sd₁, hsd₁⟩ := ne_none_iff_exists'.1 hsome
    have hfirst : H.getAuth p.qdomain = some sd₁ := by
      unfold getAuth
      split
      next heq => rwa [heq] at hsd₁
      next heq =>
        rw [heq] at hsd₁
        rw [hsd₁]
    obtain rfl : sd₁ = sd₀ := some.inj (hfirst.symm.trans hlook.auth)
    refine hlook.notApexSOA ⟨htype, ?_⟩
    rw [(Backend.getSOA_eq_some hsd₁).1]
    exact sameName_refl _

/-- The records that a wildcard adds to the answer section have the name that was asked for. -/
theorem answers_expansion (H : PacketHandler) (p : Query) (sd : SOAData) (target : DName) :
    answers (expansion H p sd target) = (H.getBestWildcard p sd target).map fun rr =>
      { rr.inReply with wildcardname := rr.qname, qname := p.qdomain, d_place := .ANSWER } := by
  unfold expansion
  rw [answers_append, answers_eq_self, answers_eq_nil, append_nil]
  · intro rr hrr
    split at hrr
    · rw [(mem_addNSECX hrr).2]
      decide
    · cases hrr
  · intro rr hrr
    obtain ⟨rr', -, rfl⟩ := mem_map.1 hrr
    rfl

variable {rr : ReplyRR}

/-- A referral has nothing in the answer section. -/
theorem referral_place {r : Reply} {ns : StoredRR} {rest : List StoredRR}
    (h : rr ∈ added r (.sendit (referralReply H p r sd ns rest))) : rr.d_place ≠ .ANSWER := by
  rw [added_referralReply] at h
  rcases mem_append.1 h with h | h
  · obtain ⟨rr', -, rfl⟩ := mem_map.1 h
    exact nofun
  · rw [(mem_referralExtra h).1]
    exact nofun

/-- Nor has a denial. -/
theorem denial_place {name auth : DName} {mode : Nat} (hmode : mode ≠ 2)
    (h : rr ∈ soaRecord sd .AUTHORITY ::
      if p.d_dnssecOk then H.addNSECX p name auth mode else []) : rr.d_place ≠ .ANSWER := by
  rcases mem_cons.1 h with rfl | h
  · exact nofun
  · split at h
    · rw [(mem_addNSECX h).2, if_neg hmode]
      exact nofun
    · cases h

/-- Nor has the referral to the root servers. -/
theorem addRootReferral_place (h : rr ∈ H.addRootReferral) :
    rr.d_place ≠ .ANSWER := by
  rcases mem_append.1 h with h | h
  · obtain ⟨s, -, rfl⟩ := mem_map.1 h
    exact nofun
  · split at h
    · cases h
    · obtain ⟨s, -, rfl⟩ := mem_map.1 h
      exact nofun

/-- What a name owns is at this name, and is meant for the answer section. -/
theorem ownedBy_at {rr : StoredRR} (h : rr ∈ H.ownedBy sd target) :
    sameName rr.qname target ∧ rr.d_place = .ANSWER := by
  obtain ⟨z, -, ⟨hname, -, -⟩, rfl⟩ := Backend.mem_lookup.1 h
  exact ⟨hname, rfl⟩

/-- The records of the answer are at the target. -/
theorem wanted_allAt (h : redirection p (H.ownedBy sd target) = none) :
    AllAt p target ((wanted p (H.ownedBy sd target)).map StoredRR.inReply) := by
  intro rr hrr
  obtain ⟨rr', hrr', rfl⟩ := mem_map.1 hrr
  have hmem := (mem_filter.1 hrr').1
  refine ⟨(ownedBy_at hmem).1, fun htype => ?_⟩
  by_contra hasked
  exact redirection_eq_none.1 h hasked rr' hmem htype

/-- The records of a query for NSEC are at the target. -/
theorem addNSEC_allAt {auth : DName} : AllAt p target (H.addNSEC p target auth 2) := by
  intro rr hrr
  unfold addNSEC at hrr
  split at hrr
  · cases hrr
  · split at hrr
    · cases hrr
    · dsimp only at hrr
      rw [if_pos (.inr rfl), if_neg (by decide), if_neg (by decide), append_nil,
        append_nil, mem_singleton] at hrr
      subst hrr
      exact ⟨sameName_refl _, fun h => absurd (show QType.NSEC = QType.CNAME from h) (by decide)⟩

theorem synthesiseRRSIGs_allAt : AllAt p p.qdomain (H.synthesiseRRSIGs p) := by
  intro rr hrr
  obtain ⟨t, -, hrr⟩ := mem_flatMap.1 hrr
  obtain ⟨ksk, -, rfl⟩ := mem_map.1 hrr
  exact ⟨sameName_refl _, fun h => absurd (show QType.RRSIG = QType.CNAME from h) (by decide)⟩

/-- The records that a wildcard has for a query are of the type asked for, or CNAMEs. -/
theorem expansionTarget_eq_none (h : expansionTarget H p sd target = none) :
    ∀ rr ∈ H.getBestWildcard p sd target, rr.qtype ≠ QType.CNAME := by
  intro rr hrr htype
  unfold expansionTarget at h
  rw [map_eq_none_iff, getLast?_eq_none_iff, filter_eq_nil_iff] at h
  exact h rr hrr (decide_eq_true htype)

/-- **The last pass**: what it adds to the answer section is at its target. -/
theorem sendit_follows {r r' : Reply} (hreached : Reached H p target)
    (hright : ChainRight H p target) (hpass : H.pass p r target = .sendit r') :
    AllAt p target (answers (added r (.sendit r'))) := by
  have hstep := H.pass_step p r target
  rw [hpass] at hstep
  cases hstep with
  | noZone =>
    refine allAt_of_no_answer fun rr hrr => ?_
    split at hrr
    · rw [show added r (.sendit ((r.setA false).setRcode RCode.ServFail)) = []
        from drop_length] at hrr
      cases hrr
    · rw [show added r (.sendit ((r.setA false).addRecords H.addRootReferral)) = H.addRootReferral
        from drop_left] at hrr
      exact addRootReferral_place hrr
  | apexSOA sd hauth htype happ =>
    obtain rfl := reached_apexSOA hreached hauth htype happ
    rw [added_addRecords, answers_eq_self (by simp [soaRecord])]
    intro rr hrr
    rw [mem_singleton.1 hrr]
    exact ⟨happ, fun h => absurd (show QType.SOA = QType.CNAME from h) (by decide)⟩
  | nsecQuery sd _ htype hdo =>
    rw [added_addRecords, answers_eq_self fun rr hrr => by rw [(mem_addNSEC hrr).2, if_pos rfl]]
    exact addNSEC_allAt
  | rrsigQuery sd _ htype hdo =>
    have heq : target = p.qdomain :=
      hreached.resolve_right fun ⟨_, hlook⟩ => hlook.notRRSIG ⟨htype, hdo⟩
    rw [added_addRecords, heq]
    exact fun rr hrr => synthesiseRRSIGs_allAt rr (mem_filter.1 hrr).1
  | wildcard sd hlook howned hwild hnext =>
    obtain ⟨hname, -⟩ := hright.wildcard sd hlook howned hwild
    rw [added_addRecords, answers_expansion]
    intro rr hrr
    obtain ⟨rr', hrr', rfl⟩ := mem_map.1 hrr
    exact ⟨hname, fun htype => absurd htype (expansionTarget_eq_none hnext rr' hrr')⟩
  | emptyReferral => exact allAt_of_no_answer fun rr hrr => referral_place hrr
  | nxdomain sd =>
    rw [show added r (.sendit (H.makeNXDomain p r target sd)) = _ from drop_left]
    exact allAt_of_no_answer fun rr hrr => denial_place (by decide) hrr
  | records sd hlook hcname hdone =>
    have hnsec : AllAt p target (if p.qtype = QType.ANY then H.addNSECX p target sd.qname 2
        else []) := by
      intro rr hrr
      split at hrr
      next hany =>
        refine ⟨hright.any sd hlook hcname hdone hany rr hrr, fun htype => ?_⟩
        rcases (mem_addNSECX hrr).1 with h | h <;> rw [h] at htype <;> exact absurd htype (by decide)
      next => cases hrr
    rw [added_addRecords]
    intro rr hrr
    exact (wanted_allAt hcname).append hnsec rr (mem_filter.1 hrr).1
  | referral => exact allAt_of_no_answer fun rr hrr => referral_place hrr
  | lost =>
    rw [show added r (.sendit r) = [] from drop_length]
    exact nofun
  | nodata sd =>
    rw [show added r (.sendit (H.makeNOError p r target sd)) = _ from drop_left]
    exact allAt_of_no_answer fun rr hrr => denial_place (by decide) hrr

/-- **A pass that follows a CNAME**: what it adds to the answer section is this CNAME, and what is
at the new target goes behind it. -/
theorem retarget_follows {r r' : Reply} {target' : DName} (hright : ChainRight H p target)
    (hpass : H.pass p r target = .retarget r' target') :
    (∃ sd, LooksUp H p target sd) ∧ ∃ rr, rr.qtype = QType.CNAME ∧ sameName rr.qname target ∧
      cnameTarget rr = target' ∧ answers (added r (.retarget r' target')) = [rr] := by
  have hstep := H.pass_step p r target
  rw [hpass] at hstep
  cases hstep with
  | wildcardCNAME sd hlook howned hwild _ hnext =>
    obtain ⟨hname, ⟨rr, hone, htype⟩ | hnone⟩ := hright.wildcard sd hlook howned hwild
    · refine ⟨⟨sd, hlook⟩, ?_⟩
      rw [added_retarget, answers_expansion, hone]
      refine ⟨_, ?_, hname, ?_, rfl⟩
      · exact htype
      · have hfilter : [rr].filter (fun rr => decide (rr.qtype = QType.CNAME)) = [rr] :=
          filter_cons_of_pos (decide_eq_true htype)
        unfold expansionTarget at hnext
        rw [hone, hfilter] at hnext
        exact some.inj hnext
    · -- without a CNAME there is no new target
      unfold expansionTarget at hnext
      rw [filter_eq_nil_iff.2 fun rr hrr h => hnone rr hrr (of_decide_eq_true h)] at hnext
      cases hnext
  | cname sd hlook rr hcname =>
    obtain ⟨-, hmem, htype⟩ := redirection_eq_some hcname
    refine ⟨⟨sd, hlook⟩, rr.inReply, htype, (ownedBy_at hmem).1, rfl, ?_⟩
    rw [added_retarget, answers_eq_self]
    intro rr' hrr'
    rw [mem_singleton.1 hrr']
    exact (ownedBy_at hmem).2

/-! ### The whole answer -/

/-- **The passes**: when each keeps to the chain, the answer section follows the CNAMEs. -/
theorem passes_follow (left : Nat) (r : Reply) (hreached : Reached H p target)
    (hright : ∀ s ∈ H.passes p left r target, ChainRight H p s.2) :
    FollowsCNAMEs p target (answers ((H.passes p left r target).flatMap (H.addedBy p))) := by
  induction left generalizing r target with
  | zero => trivial
  | succ left ih =>
    unfold passes at hright ⊢
    have hfirst := hright _ mem_cons_self
    rw [flatMap_cons, answers_append]
    unfold addedBy
    cases hpass : H.pass p r target with
    | sendit r' =>
      rw [flatMap_nil, show answers [] = [] from rfl, append_nil]
      exact (sendit_follows hreached hfirst hpass).follows
    | retarget r' target' =>
      rw [hpass] at hright
      obtain ⟨⟨sd, hlook⟩, rr, htype, hname, rfl, hadded⟩ := retarget_follows hfirst hpass
      rw [hadded]
      refine .inr ⟨htype, hname, ih r' ?_ fun s hs => hright s (mem_cons_of_mem _ hs)⟩
      -- the first pass looked the query name up, or this one did and is the first
      rcases hreached with rfl | hreached
      · exact .inr ⟨sd, hlook⟩
      · exact .inr hreached

/-- The records of a query that is answered before any zone is looked for have its name. -/
theorem answerEarly_follows {r r' : Reply} (hr : r.d_rrs = []) (h : H.answerEarly p r = some r') :
    AllAt p p.qdomain r'.d_rrs := by
  have hkeys : AllAt p p.qdomain (H.doDNSKEYRequest p) := by
    intro rr hrr
    unfold doDNSKEYRequest at hrr
    split at hrr
    · cases hrr
    · obtain ⟨content, -, rfl⟩ := mem_map.1 hrr
      exact ⟨sameName_refl _, fun h => absurd (show QType.DNSKEY = QType.CNAME from h) (by decide)⟩
  have hparam : AllAt p p.qdomain (H.doNSEC3PARAMRequest p) := by
    intro rr hrr
    unfold doNSEC3PARAMRequest at hrr
    split at hrr
    · cases hrr
    · obtain ⟨ns3prc, -, rfl⟩ := mem_map.1 hrr
      exact ⟨sameName_refl _,
        fun h => absurd (show QType.NSEC3PARAM = QType.CNAME from h) (by decide)⟩
  have hversion : ∀ r'', H.doVersionRequest p r = some r'' → AllAt p p.qdomain r''.d_rrs := by
    intro r'' h
    unfold doVersionRequest at h
    split at h
    · split at h
      · obtain rfl := some.inj h
        rw [Reply.setRcode_d_rrs, hr]
        exact nofun
      · obtain rfl := some.inj h
        rw [Reply.addRecords_d_rrs, hr]
        intro rr hrr
        rw [nil_append, mem_singleton] at hrr
        subst hrr
        exact ⟨sameName_refl _, fun h => absurd (show QType.TXT = QType.CNAME from h) (by decide)⟩
    · cases h
  unfold answerEarly at h
  split at h
  · obtain rfl := some.inj h
    rwa [Reply.addRecords_d_rrs, hr, nil_append]
  · split at h
    · obtain rfl := some.inj h
      rwa [Reply.addRecords_d_rrs, hr, nil_append]
    · split at h
      next r'' heq =>
        obtain rfl := some.inj h
        exact hversion _ heq
      next =>
        split at h
        · obtain rfl := some.inj h
          rw [hr]
          exact nofun
        · cases h

/-- What follows the label `sendit` adds nothing to the answer section. -/
theorem answers_sendit (r : Reply) : answers (H.sendit p r).reply.d_rrs = answers r.d_rrs := by
  obtain ⟨extra, heq, hplace⟩ := (sendit_finished H p r).d_rrs
  have hnone : answers extra = [] := answers_eq_nil fun rr hrr => by
    rw [hplace rr hrr]
    decide
  rw [heq, answers_append, hnone, append_nil]

/-- The answer section is what the passes add to it. -/
theorem answers_retargeted (H : PacketHandler) (p : Query) :
    answers (H.retargeted p 11 (startReply H p) p.qdomain).reply.d_rrs =
      answers ((H.allPasses p).flatMap (H.addedBy p)) := by
  obtain ⟨extra, hplace, heq⟩ := H.retargeted_d_rrs p 11 (startReply H p) p.qdomain
  have hnone : answers extra = [] := answers_eq_nil fun rr hrr => by
    rw [hplace rr hrr]
    decide
  rw [heq, answers_append, hnone, append_nil, (startReply_empty H p).1, nil_append]
  rfl

/-- The records start at the name. -/
theorem FollowsCNAMEs.head {name : DName} {rr : ReplyRR} {rrs : List ReplyRR}
    (h : FollowsCNAMEs p name (rr :: rrs)) : sameName rr.qname name := by
  rcases h with hall | ⟨-, hname, -⟩
  · exact (hall rr mem_cons_self).1
  · exact hname

/-- A CNAME that was not asked for is followed. -/
theorem FollowsCNAMEs.tail
    (h : FollowsCNAMEs p name (rr :: rrs)) (htype : rr.qtype = QType.CNAME)
    (hasked : p.qtype ≠ QType.CNAME) : FollowsCNAMEs p (cnameTarget rr) rrs := by
  rcases h with hall | ⟨-, -, hrest⟩
  · exact absurd ((hall rr mem_cons_self).2 htype) hasked
  · exact hrest

/-! ### A zone with CNAMEs -/

/-- The name `host.example.com`, and `b.wild.example.com`, which is covered by a wildcard. -/
def exampleHost : DName := ascii "host" :: exampleApex

def exampleWild : DName := ascii "b" :: ascii "wild" :: exampleApex

/-- The zone `example.com`, in which `www.example.com` is a CNAME, and `host.example.com` and
`*.wild.example.com` have addresses. -/
def cnameZone (target : DName) : PacketHandler := withDefaults
  { records :=
      [{ qname := exampleApex, qtype := QType.SOA, content := ascii "ns.example.com",
         domain_id := 1 },
       { qname := exampleWWW, qtype := QType.CNAME, content := joinDots target, domain_id := 1 },
       { qname := exampleHost, qtype := QType.A, content := ascii "192.0.2.1", domain_id := 1 },
       { qname := star :: ascii "wild" :: exampleApex, qtype := QType.A,
         content := ascii "192.0.2.2", domain_id := 1 }]
    getBeforeAndAfterNames := fun _ _ _ => (exampleApex, exampleApex)
    getBeforeAndAfterNamesAbsolute := fun _ _ => (exampleApex, [], []) }

/-- A query for the address of `www.example.com`. -/
def addressQuery : Query := { qdomain := exampleWWW, qtype := QType.A }

end PacketHandler

end PowerDNS
