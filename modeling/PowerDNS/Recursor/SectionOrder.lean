import PowerDNS.Recursor.LWRes
import PowerDNS.Recursor.ResolutionRules

/-!
# The sections of a recursive answer

The writer of a packet puts records one after the other and only counts them by section, so they
have to be handed to it in the order of the sections. `startDoResolve` hands it `ret` as
`beginResolve` left it, shuffled within the sections, and everything that answers a question
appends to `ret`: answers first, and a SOA for the authority section as the last thing.

Two steps put a SOA into `ret` and then go on. `doResolveAt` keeps the SOA of a reply that has
neither an answer nor a CNAME also when the NS records next to it make it ask further servers
(`DeniesAndRefers`). `doCacheCheck` keeps the fresh ones of a set of SOA records also when it
returns `false` because another had expired. `beginResolve_inSectionOrder` says that these are the
only ways to lose the order.
-/

namespace PowerDNS

open GuardedRun LoggedRun SyncM List

/-! ### Sections -/

theorem inSectionOrder_iff_map {rrs : List TextRR} :
    InSectionOrder rrs ↔ (rrs.map fun rr => rr.d_place).Pairwise fun a b => a.index ≤ b.index := by
  rw [pairwise_map]
  rfl

/-- The counts of the packet say which records are in which section. -/
def CountsDescribe (rrs : List TextRR) : Prop :=
  (rrs.map fun rr => rr.d_place) =
    List.replicate (rrs.countP fun rr => rr.d_place = .ANSWER) Place.ANSWER ++
    List.replicate (rrs.countP fun rr => rr.d_place = .AUTHORITY) Place.AUTHORITY ++
    List.replicate (rrs.countP fun rr => rr.d_place = .ADDITIONAL) Place.ADDITIONAL

instance (rrs : List TextRR) : Decidable (CountsDescribe rrs) :=
  inferInstanceAs (Decidable (_ = _))

theorem countsDescribe_of_inSectionOrder {rrs : List TextRR} (h : InSectionOrder rrs)
    (hquestion : ∀ rr ∈ rrs, rr.d_place ≠ .QUESTION) : CountsDescribe rrs := by
  induction rrs with
  | nil => rfl
  | cons rr rrs ih =>
    obtain ⟨hfirst, hrest⟩ := pairwise_cons.mp h
    have ih := ih hrest fun r hr => hquestion r (mem_cons_of_mem _ hr)
    have hnone : ∀ place : Place, place.index < rr.d_place.index →
        rrs.countP (fun r => r.d_place = place) = 0 := by
      intro place hlt
      refine countP_eq_zero.mpr fun r hr => ?_
      have := hfirst r hr
      simp only [decide_eq_true_eq]
      rintro rfl
      omega
    unfold CountsDescribe at ih ⊢
    rw [map_cons, ih]
    simp only [countP_cons]
    cases hplace : rr.d_place with
    | QUESTION => exact absurd hplace (hquestion rr mem_cons_self)
    | ANSWER => simp [replicate_succ]
    | AUTHORITY =>
      rw [hnone .ANSWER (by rw [hplace]; decide)]
      simp [replicate_succ]
    | ADDITIONAL =>
      rw [hnone .ANSWER (by rw [hplace]; decide), hnone .AUTHORITY (by rw [hplace]; decide)]
      simp [replicate_succ]

/-! ### The sections of a parsed reply -/

theorem parseRecord_place {types : TypeMap} {content : Octets} {place : RecordPlace}
    {d_pos : UInt16} {r : DNSRecord × UInt16}
    (h : parseRecord types content place d_pos = .ok r) : r.1.d_place = place := by
  unfold parseRecord at h
  cases hlabel : getLabel content d_pos with
  | error e => simp [hlabel, bind, Except.bind] at h
  | ok label =>
    cases hheader : readOctets content 10 label.2 with
    | error e => simp [hlabel, hheader, bind, Except.bind] at h
    | ok header =>
      cases hmake : mastermake types content (DnsRecordHeader.ofOctets header.1) header.2 with
      | error e => simp [hlabel, hheader, hmake, bind, Except.bind] at h
      | ok made =>
        simp only [hlabel, hheader, hmake, bind, Except.bind, pure, Except.pure,
          Except.ok.injEq] at h
        rw [← h]

/-- The records of a packet are counted off by section. -/
theorem parseRecords_places (types : TypeMap) (content : Octets) {place : Nat → RecordPlace}
    (hplace : ∀ m n, m ≤ n → (place m).toPlace.index ≤ (place n).toPlace.index)
    (left n : Nat) (d_pos : UInt16) :
    let rs := (parseRecords types content place left n d_pos).1
    (∀ r ∈ rs, (place n).toPlace.index ≤ r.1.d_place.toPlace.index) ∧
      rs.Pairwise fun a b => a.1.d_place.toPlace.index ≤ b.1.d_place.toPlace.index := by
  induction left generalizing n d_pos with
  | zero => simp [parseRecords]
  | succ left ih =>
    rw [parseRecords]
    cases hr : parseRecord types content (place n) d_pos with
    | error e => simp
    | ok r =>
      obtain ⟨hbound, hpairs⟩ := ih (n + 1) r.2
      have hfirst := parseRecord_place hr
      have hnext := hplace n (n + 1) (Nat.le_succ n)
      refine ⟨fun r' hr' => ?_, pairwise_cons.mpr ⟨fun r' hr' => ?_, hpairs⟩⟩
      · rcases mem_cons.mp hr' with rfl | hr'
        · exact (congrArg (fun p : RecordPlace => p.toPlace.index) hfirst).ge
        · exact hnext.trans (hbound r' hr')
      · rw [hfirst]
        exact hnext.trans (hbound r' hr')

theorem Dnsheader.place_mono (h : Dnsheader) (m n : Nat) (hmn : m ≤ n) :
    (h.place m).toPlace.index ≤ (h.place n).toPlace.index := by
  unfold Dnsheader.place
  split
  · split
    · exact le_rfl
    split <;> decide
  · rw [if_neg (by omega : ¬ n < h.ancount.toNat)]
    split
    · split <;> decide
    · rw [if_neg (by omega)]

theorem answers_ordered {types : TypeMap} {packet : Octets} {p : MOADNSParser}
    (h : MOADNSParser.init types packet = .ok p) :
    p.d_answers.Pairwise fun a b => a.1.d_place.toPlace.index ≤ b.1.d_place.toPlace.index := by
  unfold MOADNSParser.init at h
  dsimp only at h
  split at h
  · cases h
  split at h
  · cases h
  split at h
  · cases h
  · cases h
  next q hq =>
    have hrecords := (parseRecords_places types (packetContent packet)
      (Dnsheader.ofPacket packet).place_mono (Dnsheader.ofPacket packet).recordCount 0 q.2).2
    split at h
    · next answers hparsed =>
      rw [hparsed] at hrecords
      cases h
      exact hrecords
    · next answers hparsed =>
      -- a truncated packet, whose counts are adjusted
      rw [hparsed] at hrecords
      split at h
      · cases h
        exact hrecords
      · cases h
    · cases h

theorem pushRecords_ordered {getZoneRepresentation : DNSRecord → Except String Octets}
    {rs : List (DNSRecord × UInt16)}
    (h : rs.Pairwise fun a b => a.1.d_place.toPlace.index ≤ b.1.d_place.toPlace.index) :
    (∀ i ∈ (pushRecords getZoneRepresentation rs).1, ∃ r ∈ rs, i.d_place = r.1.d_place.toPlace) ∧
      InSectionOrder (pushRecords getZoneRepresentation rs).1 := by
  induction rs with
  | nil => exact ⟨by simp [pushRecords], .nil⟩
  | cons r rs ih =>
    obtain ⟨hfirst, hrest⟩ := pairwise_cons.mp h
    obtain ⟨hfrom, hordered⟩ := ih hrest
    rw [pushRecords]
    split
    · exact ⟨by simp, .nil⟩
    · refine ⟨fun i hi => ?_, pairwise_cons.mpr ⟨fun i hi => ?_, hordered⟩⟩
      · rcases mem_cons.mp hi with rfl | hi
        · exact ⟨r, mem_cons_self, rfl⟩
        · obtain ⟨r', hr', hplace⟩ := hfrom i hi
          exact ⟨r', mem_cons_of_mem _ hr', hplace⟩
      · obtain ⟨r', hr', hplace⟩ := hfrom i hi
        rw [hplace]
        exact hfirst r' hr'

/-- **What `asyncresolve` delivers is in order**, whatever came over the wire: a reply is a
`ParsedReply`. -/
theorem asyncresolve_ordered (types : TypeMap)
    (getZoneRepresentation : DNSRecord → Except String Octets) (domain : Octets)
    (EDNS0Level : Nat) (ping buf : Octets) (lwr : LWReply) :
    InSectionOrder
      (asyncresolve types getZoneRepresentation domain EDNS0Level ping buf lwr).2.d_result := by
  unfold asyncresolve
  dsimp only
  split
  · exact .nil
  · next mdp hmdp =>
    have hordered := (@pushRecords_ordered getZoneRepresentation _ (answers_ordered hmdp)).2
    split
    · exact .nil
    split
    · exact .nil
    split
    · exact hordered
    split
    · split <;> exact hordered
    · exact hordered

/-! ### What a reply puts into `ret` -/

/-- A CNAME that is followed. -/
def Redirects (qname : Octets) (qtype : UInt16) (i : TextRR) : Prop :=
  i.d_place = .ANSWER ∧ pdnsIequals i.qname qname ∧ i.qtype = QType.CNAME ∧ qtype ≠ QType.CNAME

/-- A record that answers the question. -/
def Answers (qname : Octets) (qtype : UInt16) (lwr : LWResult) (i : TextRR) : Prop :=
  ¬ Redirects qname qtype i ∧ i.d_place = .ANSWER ∧ pdnsIequals i.qname qname ∧
    (i.qtype = qtype ∨ (lwr.d_aabit ∧ (qtype = QType.ANY ∨ magicAddrMatch qtype i.qtype)))

/-- A SOA record above the name. -/
def Denies (qname : Octets) (i : TextRR) : Prop :=
  i.d_place = .AUTHORITY ∧ dottedEndsOn qname i.qname ∧ i.qtype = QType.SOA

/-- An NS record above the name. -/
def Refers (qname : Octets) (i : TextRR) : Prop :=
  i.d_place = .AUTHORITY ∧ dottedEndsOn qname i.qname ∧ i.qtype = QType.NS

section Decidable

variable (qname : Octets) (qtype : UInt16) (lwr : LWResult)

instance : DecidablePred (Redirects qname qtype) := fun _ => inferInstanceAs (Decidable (_ ∧ _))

instance : DecidablePred (Answers qname qtype lwr) := fun _ => inferInstanceAs (Decidable (_ ∧ _))

instance : DecidablePred (Denies qname) := fun _ => inferInstanceAs (Decidable (_ ∧ _))

instance : DecidablePred (Refers qname) := fun _ => inferInstanceAs (Decidable (_ ∧ _))

end Decidable

/-- The content of the last CNAME that is followed, or nothing. -/
def newtargetOf (qname : Octets) (qtype : UInt16) (result : List TextRR) (newtarget : Octets) :
    Octets :=
  ((result.filter fun i => Redirects qname qtype i).getLast?.map fun i => i.content).getD newtarget

/-- A reply without an answer that has both a SOA, which is kept, and NS records, which are
followed or make the server lame. -/
def DeniesAndRefers (qname : Octets) (qtype : UInt16) (lwr : LWResult) : Prop :=
  lwr.d_rcode = RCode.NoError ∧ (∃ i ∈ lwr.d_result, Denies qname i) ∧
    (∃ i ∈ lwr.d_result, Refers qname i) ∧ (∀ i ∈ lwr.d_result, ¬ Answers qname qtype lwr i) ∧
    newtargetOf qname qtype lwr.d_result [] = []

instance (qname : Octets) (qtype : UInt16) (lwr : LWResult) :
    Decidable (DeniesAndRefers qname qtype lwr) :=
  inferInstanceAs (Decidable (_ ∧ _))

section Classify

variable {cfg : ResolverConfig} {qname : Octets} {qtype : UInt16} {auth : Octets} {lwr : LWResult}

/-- **One record of a reply.** What it adds to `ret`, and what it changes about the status. -/
theorem classify_cases (st : ReplyState) (i : TextRR) :
    let st' := classify cfg qname qtype auth lwr st i
    (st'.ret = st.ret ∨ ∃ t, st'.ret = st.ret ++ [{ i with ttl := t }] ∧
      (i.d_place = .ANSWER ∨ Denies qname i ∧ (lwr.d_rcode = RCode.NXDomain ∨
        lwr.d_rcode = RCode.NoError ∧ st.newtarget = []))) ∧
    st'.newtarget = (if Redirects qname qtype i then i.content else st.newtarget) ∧
    st'.done = (st.done || decide (Answers qname qtype lwr i)) ∧
    (st'.nsset ≠ [] → st.nsset ≠ [] ∨ Refers qname i) := by
  unfold classify
  split
  · next hdenied =>
    have hplace : i.d_place ≠ .ANSWER := by simp [hdenied.1]
    refine ⟨.inr ⟨_, rfl, .inr ⟨⟨hdenied.1, hdenied.2.1, hdenied.2.2.1⟩, .inl hdenied.2.2.2⟩⟩,
      ?_, ?_, .inl⟩
    · simp [Redirects, hplace]
    · simp [Answers, hplace]
  split
  · next hredirects =>
    have hredirects : Redirects qname qtype i := hredirects
    refine ⟨.inr ⟨i.ttl, rfl, .inl hredirects.1⟩, ?_, ?_, .inl⟩
    · rw [if_pos hredirects]
    · simp [Answers, hredirects]
  next hredirects =>
  have hredirects : ¬ Redirects qname qtype i := hredirects
  split
  · next hanswers =>
    refine ⟨.inr ⟨i.ttl, rfl, .inl hanswers.1⟩, rfl, ?_, .inl⟩
    simp [show Answers qname qtype lwr i from ⟨hredirects, hanswers⟩]
  next hanswers =>
  have hanswers : ¬ Answers qname qtype lwr i := fun h => hanswers h.2
  simp only [hanswers, decide_false, Bool.or_false]
  split
  · next hrefers =>
    split
    · exact ⟨.inl rfl, rfl, rfl, fun _ => .inr hrefers⟩
    · exact ⟨.inl rfl, rfl, rfl, fun _ => .inr hrefers⟩
  split
  · next hdenies =>
    split
    · exact ⟨.inl rfl, rfl, rfl, .inl⟩
    · next htarget =>
      refine ⟨.inr ⟨_, rfl, .inr ⟨⟨hdenies.2.1, hdenies.2.2.1, hdenies.2.2.2.1⟩,
        .inr ⟨hdenies.2.2.2.2, not_not.mp htarget⟩⟩⟩, rfl, rfl, .inl⟩
  · exact ⟨.inl rfl, rfl, rfl, .inl⟩

/-- The status after all records of a reply. -/
theorem run_classify_status (result : List TextRR) (st : ReplyState) :
    let st' := run (classify cfg qname qtype auth lwr) st result
    st'.newtarget = newtargetOf qname qtype result st.newtarget ∧
    st'.done = (st.done || decide (∃ i ∈ result, Answers qname qtype lwr i)) ∧
    (st'.nsset ≠ [] → st.nsset ≠ [] ∨ ∃ i ∈ result, Refers qname i) := by
  induction result generalizing st with
  | nil => simp [newtargetOf]
  | cons i result ih =>
    obtain ⟨-, htarget, hdone, hnsset⟩ :=
      @classify_cases cfg qname qtype auth lwr st i
    obtain ⟨htarget', hdone', hnsset'⟩ := ih (classify cfg qname qtype auth lwr st i)
    refine ⟨?_, ?_, fun h => ?_⟩
    · rw [run_cons, htarget', htarget]
      by_cases hi : Redirects qname qtype i
      · simp only [newtargetOf, hi, if_true, filter_cons_of_pos, decide_true]
        cases hlast : (result.filter fun i => Redirects qname qtype i).getLast? with
        | none => simp [getLast?_cons, hlast]
        | some j => simp [getLast?_cons, hlast]
      · simp [newtargetOf, hi]
    · rw [run_cons, hdone', hdone]
      simp [Bool.or_assoc]
    · rcases hnsset' h with h | ⟨j, hj, hrefers⟩
      · exact (hnsset h).imp_right fun hi => ⟨i, mem_cons_self, hi⟩
      · exact .inr ⟨j, mem_cons_of_mem _ hj, hrefers⟩

/-- What `ret` is like while the records of a reply are gone through: answers, and once there is
anything else no answers are to come. -/
structure Appending (ret rest : List TextRR) : Prop where
  ordered : InSectionOrder ret
  places : ∀ rr ∈ ret, rr.d_place = .ANSWER ∨ rr.d_place = .AUTHORITY
  authority : (∃ rr ∈ ret, rr.d_place = .AUTHORITY) → ∀ i ∈ rest, i.d_place ≠ .ANSWER

theorem Appending.of_answers {ret rest : List TextRR} (h : ∀ rr ∈ ret, rr.d_place = .ANSWER) :
    Appending ret rest where
  ordered := SyncRes.inSectionOrder_of_place h
  places rr hrr := .inl (h rr hrr)
  authority := by
    rintro ⟨rr, hrr, hplace⟩
    rw [h rr hrr] at hplace
    cases hplace

theorem Appending.step {st : ReplyState} {i : TextRR} {rest : List TextRR}
    (h : Appending st.ret (i :: rest)) (hordered : InSectionOrder (i :: rest)) :
    Appending (classify cfg qname qtype auth lwr st i).ret rest := by
  obtain ⟨hafter, -⟩ := pairwise_cons.mp hordered
  rcases (@classify_cases cfg qname qtype auth lwr st i).1 with hret | ⟨t, hret, hplace⟩
  · rw [hret]
    exact ⟨h.ordered, h.places, fun hauthority j hj =>
      h.authority hauthority j (mem_cons_of_mem _ hj)⟩
  · rw [hret]
    have hplace : i.d_place = .ANSWER ∨ i.d_place = .AUTHORITY := hplace.imp_right fun h => h.1.1
    refine ⟨pairwise_append.mpr ⟨h.ordered, pairwise_singleton _ _, ?_⟩, ?_, ?_⟩
    · intro rr hrr i' hi'
      obtain rfl := mem_singleton.mp hi'
      rcases hplace with hanswer | hauthority
      · -- an answer only comes behind answers
        have hrr : rr.d_place = .ANSWER := (h.places rr hrr).resolve_right fun hrr' =>
          h.authority ⟨rr, hrr, hrr'⟩ i mem_cons_self hanswer
        simp [hrr, hanswer]
      · rcases h.places rr hrr with hrr | hrr
        · simp [hrr, hauthority, Place.index]
        · simp [hrr, hauthority]
    · intro rr hrr
      rcases mem_append.mp hrr with hrr | hrr
      · exact h.places rr hrr
      · obtain rfl := mem_singleton.mp hrr
        exact hplace
    · rintro ⟨rr, hrr, hauthority⟩ j hj
      rcases mem_append.mp hrr with hrr | hrr
      · exact h.authority ⟨rr, hrr, hauthority⟩ j (mem_cons_of_mem _ hj)
      · obtain rfl := mem_singleton.mp hrr
        have hle := hafter j hj
        intro hanswer
        rw [hanswer, show i.d_place = .AUTHORITY from hauthority] at hle
        exact absurd hle (by decide)

theorem Appending.run {st : ReplyState} {result : List TextRR}
    (h : Appending st.ret result) (hordered : InSectionOrder result) :
    Appending (run (classify cfg qname qtype auth lwr) st result).ret [] := by
  induction result generalizing st with
  | nil => exact h
  | cons i result ih => exact ih (h.step hordered) (pairwise_cons.mp hordered).2

/-- A SOA gets into `ret` behind answers only from a reply that says the name exists, and after
all the CNAMEs there are. -/
theorem run_classify_answers {result : List TextRR} {st : ReplyState}
    (hret : ∀ rr ∈ st.ret, rr.d_place = .ANSWER) (hordered : InSectionOrder result)
    (hrcode : lwr.d_rcode ≠ RCode.NXDomain) :
    let st' := run (classify cfg qname qtype auth lwr) st result
    (∀ rr ∈ st'.ret, rr.d_place = .ANSWER) ∨
      lwr.d_rcode = RCode.NoError ∧ (∃ i ∈ result, Denies qname i) ∧ st'.newtarget = [] := by
  induction result generalizing st with
  | nil => exact .inl hret
  | cons i result ih =>
    obtain ⟨hafter, hrest⟩ := pairwise_cons.mp hordered
    obtain ⟨hpushed, htarget, -⟩ := @classify_cases cfg qname qtype auth lwr st i
    have hgo : (∀ rr ∈ (classify cfg qname qtype auth lwr st i).ret, rr.d_place = .ANSWER) →
        let st' := run (classify cfg qname qtype auth lwr) st (i :: result)
        (∀ rr ∈ st'.ret, rr.d_place = .ANSWER) ∨
          lwr.d_rcode = RCode.NoError ∧ (∃ j ∈ i :: result, Denies qname j) ∧
            st'.newtarget = [] := by
      intro hret
      refine (ih hret hrest).imp_right ?_
      rintro ⟨hnoerror, ⟨j, hj, hdenies⟩, htarget⟩
      exact ⟨hnoerror, ⟨j, mem_cons_of_mem _ hj, hdenies⟩, htarget⟩
    rcases hpushed with hsame | ⟨t, hpush, hanswer | ⟨hdenies, hnx | ⟨hnoerror, hnotarget⟩⟩⟩
    · exact hgo (hsame ▸ hret)
    · refine hgo fun rr hrr => ?_
      rw [hpush] at hrr
      rcases mem_append.mp hrr with hrr | hrr
      · exact hret rr hrr
      · obtain rfl := mem_singleton.mp hrr
        exact hanswer
    · exact absurd hnx hrcode
    · -- no CNAME comes behind a SOA of the authority section
      refine .inr ⟨hnoerror, ⟨i, mem_cons_self, hdenies⟩, ?_⟩
      have hnone : ∀ j ∈ i :: result, ¬ Redirects qname qtype j := by
        intro j hj hredirects
        have hle : i.d_place.index ≤ j.d_place.index := by
          rcases mem_cons.mp hj with rfl | hj
          · exact le_rfl
          · exact hafter j hj
        rw [hdenies.1, hredirects.1] at hle
        exact absurd hle (by decide)
      rw [(@run_classify_status cfg qname qtype auth lwr (i :: result) st).1, newtargetOf,
        filter_eq_nil_iff.mpr (by simpa using hnone)]
      exact hnotarget

/-- **A reply that settles nothing leaves only answers in `ret`**, unless it has both a SOA and NS
records. -/
theorem goesOn_answers {depth : Nat} {tns : Octets} {ret : List TextRR}
    (hret : ∀ rr ∈ ret, rr.d_place = .ANSWER) (hordered : InSectionOrder lwr.d_result)
    (hclean : ¬ DeniesAndRefers qname qtype lwr)
    (hgoes : ∀ res, verdict qname depth tns lwr (afterReply cfg qname qtype auth lwr ret) ≠
      .answered res) :
    ∀ rr ∈ (afterReply cfg qname qtype auth lwr ret).ret, rr.d_place = .ANSWER := by
  obtain ⟨htarget, hdone, hnsset⟩ :=
    @run_classify_status cfg qname qtype auth lwr lwr.d_result { ret := ret }
  change (afterReply cfg qname qtype auth lwr ret).newtarget = _ at htarget
  change (afterReply cfg qname qtype auth lwr ret).done = _ at hdone
  change (afterReply cfg qname qtype auth lwr ret).nsset ≠ [] → _ at hnsset
  have hrun := @run_classify_answers cfg qname qtype auth lwr lwr.d_result { ret := ret } hret
    hordered
  change _ → (∀ rr ∈ (afterReply cfg qname qtype auth lwr ret).ret, _) ∨
    _ ∧ _ ∧ (afterReply cfg qname qtype auth lwr ret).newtarget = [] at hrun
  generalize afterReply cfg qname qtype auth lwr ret = st at *
  unfold verdict at hgoes
  split at hgoes
  · exact absurd rfl (hgoes 0)
  next hnotdone =>
  split at hgoes
  · exact absurd rfl (hgoes _)
  next hrcode =>
  refine (hrun hrcode).resolve_right fun ⟨hnoerror, hdenies, hnotarget⟩ => ?_
  rw [if_neg (not_not.mpr hnotarget)] at hgoes
  split at hgoes
  · exact absurd rfl (hgoes 0)
  next hns =>
  have hns : st.nsset ≠ [] := fun h => hns ⟨h, hnoerror⟩
  have hrefers := (hnsset hns).resolve_left (not_not.mpr rfl)
  have hanswers : ¬ ∃ i ∈ lwr.d_result, Answers qname qtype lwr i := by
    simpa [hnotdone] using hdone
  refine hclean ⟨hnoerror, hdenies, hrefers, fun i hi h => hanswers ⟨i, hi, h⟩, ?_⟩
  rw [← htarget, hnotarget]

end Classify

/-! ### A whole resolution -/

/-- The step leaves nothing in `ret` that an answer may not come behind, or the answer is
complete. -/
def Step.Clean : Step → Prop
  | .reply qname qtype lwr => ¬ DeniesAndRefers qname qtype lwr
  | .cached now giveNegative cset => giveNegative = true →
      (∀ j ∈ cset, j.ttl > now) ∨ ∀ j ∈ cset, ¬ j.ttl > now

instance : DecidablePred Step.Clean
  | .reply _ _ _ => inferInstanceAs (Decidable (¬ _))
  | .cached _ _ _ => inferInstanceAs (Decidable (_ → _))

namespace SyncRes

variable {W : Type} {R : SyncRes W}

/-- While the answer is looked for, `ret` holds answers. -/
def Answering : Pred := fun ret steps _ =>
  (∀ step ∈ steps, Step.Clean step) → ∀ rr ∈ ret, rr.d_place = .ANSWER

/-- In the end it is in order. -/
def InOrder : Pred := fun ret steps _ =>
  (∀ step ∈ steps, Step.Clean step) → InSectionOrder ret ∧ ∀ rr ∈ ret, rr.d_place ≠ .QUESTION

theorem Answering.inOrder {ret : List TextRR} {steps : List Step} {ended : Bool}
    (h : Answering ret steps ended) : InOrder ret steps ended := by
  intro hclean
  refine ⟨inSectionOrder_of_place (h hclean), fun rr hrr => ?_⟩
  rw [h hclean rr hrr]
  decide

/-- Behind answers, records of one section are in order. -/
theorem inOrder_append {ret more : List TextRR} {place : Place} (hplace : place ≠ .QUESTION)
    (hret : ∀ rr ∈ ret, rr.d_place = .ANSWER) (hmore : ∀ rr ∈ more, rr.d_place = place) :
    InSectionOrder (ret ++ more) ∧ ∀ rr ∈ ret ++ more, rr.d_place ≠ .QUESTION := by
  constructor
  · refine pairwise_append.mpr ⟨inSectionOrder_of_place hret, inSectionOrder_of_place hmore, ?_⟩
    intro a ha b hb
    rw [hret a ha, hmore b hb]
    cases place <;> first | exact absurd rfl hplace | decide
  · intro rr hrr
    rcases mem_append.mp hrr with hrr | hrr
    · rw [hret rr hrr]
      decide
    · rw [hmore rr hrr]
      exact hplace

theorem clean_of_snoc {steps : List Step} {step : Step}
    (h : ∀ step' ∈ steps ++ [step], Step.Clean step') :
    (∀ step' ∈ steps, Step.Clean step') ∧ Step.Clean step :=
  ⟨fun step' hstep' => h step' (mem_append_left _ hstep'), h step (by simp)⟩

/-- A record out of the cache is an answer, or it goes with a negative entry. -/
theorem fromCache_place {now : UInt32} {ne : Option NegCacheEntry} {cset : List TextRR}
    (h : ∀ j ∈ cset, j.d_place = .ANSWER) :
    ∀ rr ∈ cset.map (fromCache now ne),
      rr.d_place = if ne.isSome then .AUTHORITY else .ANSWER := by
  intro rr hrr
  obtain ⟨j, hj, rfl⟩ := mem_map.mp hrr
  cases ne with
  | some ni => rfl
  | none => exact h j hj

theorem answering_fromCache : FromCache Answering InOrder where
  hit {ret steps ended now ne cset} hplaces hI hfresh := by
    intro hclean
    obtain ⟨hclean, -⟩ := clean_of_snoc hclean
    refine inOrder_append ?_ (hI hclean) (fromCache_place hplaces)
    split <;> decide
  stale {ret steps ended now ne cset} hplaces hI hstale := by
    intro hclean
    obtain ⟨hclean, hstep⟩ := clean_of_snoc hclean
    intro rr hrr
    rcases mem_append.mp hrr with hrr | hrr
    · exact hI hclean rr hrr
    have hplace := fromCache_place (fun j hj => hplaces j (mem_of_mem_filter hj)) rr hrr
    cases ne with
    | none => exact hplace
    | some ni =>
      -- with a negative entry nothing was fresh
      obtain ⟨j, hj, -⟩ := mem_map.mp hrr
      obtain ⟨hj, hfresh⟩ := mem_filter.mp hj
      have hfresh : j.ttl > now := by simpa using hfresh
      rcases hstep rfl with hall | hnone
      · obtain ⟨j', hj', hexpired⟩ := hstale (ne_nil_of_mem hj)
        exact absurd (hall j' hj') hexpired
      · exact absurd hfresh (hnone j hj)

/-- Reaping caps TTLs, and changes no section. -/
theorem inSectionOrder_reap {cfg : ResolverConfig} {auth : Octets} {lwr : LWResult}
    {result : List TextRR} {tcache : TCache} (h : InSectionOrder lwr.d_result)
    (hreap : reap cfg auth lwr lwr.d_result [] = .ok (result, tcache)) : InSectionOrder result := by
  have hsame : List.Forall₂ SameButTTL lwr.d_result result := reap_result hreap
  have hplaces : (result.map fun rr => rr.d_place) = lwr.d_result.map fun rr => rr.d_place := by
    refine (forall₂_eq_eq_eq ▸ forall₂_map_left_iff.mpr
      (forall₂_map_right_iff.mpr (hsame.imp ?_)) : _ = _).symm
    rintro i j ⟨t, rfl⟩
    rfl
  rw [inSectionOrder_iff_map, hplaces, ← inSectionOrder_iff_map]
  exact h

/-- What `doOOBResolve` finds is in order. -/
theorem doOOBResolve_inOrder (qname : Octets) (qtype : UInt16) (res : Int) :
    InSectionOrder (R.doOOBResolve qname qtype [] res).1 ∧
      ∀ rr ∈ (R.doOOBResolve qname qtype [] res).1, rr.d_place ≠ .QUESTION := by
  refine ⟨doOOBResolve_ordered qname qtype res, ?_⟩
  unfold doOOBResolve
  split
  · simp
  · next authdomain iter _ =>
    intro rr hrr
    rcases answer_places iter.2 iter.1 authdomain qname qtype with h | h
    · rw [h rr hrr]
      decide
    · rw [h rr hrr]
      decide

theorem appending_inOrder {cfg : ResolverConfig} {qname : Octets} {qtype : UInt16}
    {auth : Octets} {lwr : LWResult} {ret : List TextRR}
    (hret : ∀ rr ∈ ret, rr.d_place = .ANSWER) (hordered : InSectionOrder lwr.d_result) :
    InSectionOrder (afterReply cfg qname qtype auth lwr ret).ret ∧
      ∀ rr ∈ (afterReply cfg qname qtype auth lwr ret).ret, rr.d_place ≠ .QUESTION := by
  have hstart : Appending ({ ret := ret } : ReplyState).ret lwr.d_result :=
    Appending.of_answers hret
  have happend : Appending (afterReply cfg qname qtype auth lwr ret).ret [] := hstart.run hordered
  refine ⟨happend.ordered, fun rr hrr => ?_⟩
  rcases happend.places rr hrr with h | h <;> rw [h] <;> decide

/-- `doResolve` is handed answers, and returns with `ret` in order. -/
theorem doResolve_inOrder (levels : Nat) (qname : Octets) (qtype : UInt16) (ret : List TextRR)
    (depth : Nat) :
    Triple (Answering.on ret) (fun _ => True) (R.doResolve levels qname qtype ret depth)
      fun r => InOrder.on r.2 := by
  induction levels generalizing qname qtype ret depth with
  | zero => exact .bind (.call fun s hI => hI) fun _ => .pure fun s hI => Answering.inOrder hI
  | succ levels ih =>
    refine doResolve_step ?_ (fun _ => ?_) ret
    · exact
        { answering_fromCache with
          stop := Answering.inOrder
          served := fun _ _ _ => doOOBResolve_inOrder qname qtype 0
          forwarded := fun result _ hI hclean =>
            @inOrder_append _ _ .ANSWER (by decide) (hI hclean) fun rr hrr => by
              simpa using (mem_filter.mp hrr).2
          cname := fun hplace hI hclean rr hrr => by
            rcases mem_append.mp hrr with hrr | hrr
            · exact hI hclean rr hrr
            · exact mem_singleton.mp hrr ▸ hplace
          follow := fun newtarget _ => ih newtarget qtype _ _ }
    · exact
        { stop := Answering.inOrder
          getAs := fun _ hI => hI
          settled := fun hordered hreap hI _ hclean =>
            appending_inOrder (hI (clean_of_snoc hclean).1) (inSectionOrder_reap hordered hreap)
          goesOn := fun hordered hreap hI hgoes hclean =>
            goesOn_answers (hI (clean_of_snoc hclean).1) (inSectionOrder_reap hordered hreap)
              (clean_of_snoc hclean).2 hgoes
          follow := fun newtarget _ => ih newtarget qtype _ _ }

/-! ### The answer to a client -/

/-- The look for additional records leaves the steps alone, and only appends such records. -/
theorem addCruft_appends (levels : Nat) (ret : List TextRR) (s : SyncState W) :
    ((R.addCruft levels ret).final s).steps = s.steps ∧
      ∃ more, (R.addCruft levels ret).value s = ret ++ more ∧
        ∀ rr ∈ more, rr.d_place = .ADDITIONAL := by
  unfold addCruft
  split
  · exact ⟨rfl, [], by simp, by simp⟩
  · have hfold : ∀ (hosts : List Octets) (addit : List TextRR) (s : SyncState W),
        ((hosts.foldlM (fun addit host => do
          let answer ← aside (withBeenthere
            (R.doResolve levels host (if R.l_doIPv6AP then QType.ADDR else QType.A) addit 1))
          return answer.2) addit).final s).steps = s.steps := by
      intro hosts
      induction hosts with
      | nil => exact fun _ _ => rfl
      | cons host hosts ih =>
        intro addit s
        exact (ih _ _).trans rfl
    refine ⟨(hfold _ _ _ : _), _, rfl, fun rr hrr => ?_⟩
    obtain ⟨k, -, rfl⟩ := mem_map.mp hrr
    rfl

theorem addCruft_inOrder (levels : Nat) (ret : List TextRR) :
    Triple (InOrder.on ret) (fun _ => True) (R.addCruft levels ret) fun ret' => InOrder.on ret' := by
  intro s hret
  refine ⟨fun _ _ => trivial, fun hclean => ?_⟩
  obtain ⟨hsteps, more, hvalue, hmore⟩ := @addCruft_appends W R levels ret s
  rw [hsteps] at hclean
  obtain ⟨hordered, hquestion⟩ := hret hclean
  rw [hvalue]
  constructor
  · refine pairwise_append.mpr ⟨hordered, inSectionOrder_of_place hmore, ?_⟩
    intro a ha b hb
    rw [hmore b hb]
    cases a.d_place <;> decide
  · intro rr hrr
    rcases mem_append.mp hrr with hrr | hrr
    · exact hquestion rr hrr
    · rw [hmore rr hrr]
      decide

theorem ownAnswer_inOrder (qname : Octets) (qtype qclass : UInt16) (content : Octets)
    (s : SyncState W) : InOrder.on (ownAnswer qname qtype qclass content) s := by
  refine Answering.inOrder fun _ rr hrr => ?_
  obtain rfl := mem_singleton.mp hrr
  rfl

theorem beginResolve_inOrder (levels : Nat) (qname : Octets) (qtype qclass : UInt16) :
    Triple (fun _ => True) (fun _ => True) (R.beginResolve levels qname qtype qclass [])
      fun r => InOrder.on r.2 := by
  have hnothing : ∀ s : SyncState W, InOrder.on [] s :=
    fun s => Answering.inOrder (fun _ _ h => absurd h not_mem_nil)
  unfold beginResolve
  split
  · exact .pure fun s _ => hnothing s
  split
  · exact .pure fun s _ => ownAnswer_inOrder _ _ _ _ s
  split
  · exact .pure fun s _ => ownAnswer_inOrder _ _ _ _ s
  split
  · exact .pure fun s _ => ownAnswer_inOrder _ _ _ _ s
  split
  · exact .pure fun s _ => ownAnswer_inOrder _ _ _ _ s
  split
  · exact .pure fun s _ => hnothing s
  refine .bind (Q := fun r => InOrder.on r.2) ?_ fun ⟨res, ret⟩ => ?_
  · exact fun s _ => ⟨fun _ _ => trivial, (doResolve_inOrder levels qname qtype [] 0
      { s with beenthere := [] } fun _ _ h => absurd h not_mem_nil).2⟩
  · dsimp only
    split
    · exact .bind (addCruft_inOrder levels ret) fun ret' => .pure fun s hret => hret
    · exact .pure fun s hret => hret

/-- **The order of the sections.** When every step on the way to the answer is clean, what
`beginResolve` hands to `startDoResolve` is in the order of the sections, it is so after the
shuffle, and the counts of the packet describe where the records are. -/
theorem beginResolve_inSectionOrder (R : SyncRes W) (levels : Nat) (qname : Octets)
    (qtype qclass : UInt16) (s : SyncState W)
    (hclean : ∀ step ∈ ((R.beginResolve levels qname qtype qclass []).final s).steps,
      Step.Clean step) (env : WrapupEnv) :
    let ret := ((R.beginResolve levels qname qtype qclass []).value s).2
    InSectionOrder ret ∧ InSectionOrder (shuffle env ret) ∧ CountsDescribe (shuffle env ret) := by
  obtain ⟨hordered, hquestion⟩ := (beginResolve_inOrder levels qname qtype qclass s trivial).2 hclean
  have hshuffled := hordered
  rw [inSectionOrder_iff_map, ← map_place_shuffle env, ← inSectionOrder_iff_map] at hshuffled
  refine ⟨hordered, hshuffled, countsDescribe_of_inSectionOrder hshuffled fun rr hrr => ?_⟩
  exact hquestion rr ((DNSPacket.shuffle_perm env _).mem_iff.mp hrr)

/-! ### A referral with a SOA -/

/-- A shuffle that reverses. -/
def reversingEnv : WrapupEnv where
  noShuffle := false
  randomShuffle := fun _ rrs => rrs.reverse
  perm := fun _ rrs => rrs.reverse_perm
  serverId := []
  haveKSKFor := fun _ => false
  activeZSKFor := fun _ => false
  mastermake := fun _ _ => true
  start := 12
  octets := fun _ _ => 20

/-- The server of everything refers to `ns.example.com` for `www.example.com`, with these records
in front, and has an address of that server, which has two of `www.example.com`. -/
def wireOf (front : List TextRR) (remoteIP : ComboAddress) (qname : Octets) : LWResult :=
  if remoteIP.addr = ascii "192.0.2.53" then
    reply RCode.NoError [replyRR "www.example.com." QType.A "192.0.2.80" .ANSWER,
      replyRR "www.example.com." QType.A "192.0.2.81" .ANSWER]
  else if qname = ascii "www.example.com." then
    reply RCode.NoError (front ++ [replyRR "example.com." QType.NS "ns.example.com." .AUTHORITY])
  else reply RCode.NoError [replyRR "ns.example.com." QType.A "192.0.2.53" .ANSWER]

theorem no_records : ∀ rr ∈ ([] : List TextRR), rr.d_place = .ANSWER := by simp

/-- A resolver that forwards everything it has no servers for. -/
def forwardingResolver (front : List TextRR)
    (ordered : ∀ remoteIP qname, InSectionOrder (wireOf front remoteIP qname).d_result) :
    SyncRes Unit where
  settings := defaultConfig
  d_cacheonly := false
  d_nocache := false
  s_doIPv6 := false
  l_doIPv6AP := false
  versionString := []
  s_serverID := []
  domainmap := [([dot],
    { d_servers := [⟨ascii "192.0.2.1:53", 53⟩]
      d_rdForward := false
      d_records := []
      places := no_records })]
  toStringWithPort server := server.addr
  comboAddress content := ⟨content, 53⟩
  now _ := 0
  get _ _ w := (w, -1, [])
  negcache _ _ := []
  moveCacheItemToFront _ w := w
  moveCacheItemToBack _ w := w
  primeHints w := w
  shuffleInSpeedOrder nameservers w := (w, nameservers)
  shuffleAddresses _ addresses w := (w, addresses)
  shouldThrottle _ _ _ w := (w, false)
  asyncresolveWrapper remoteIP qname _ _ _ w := (w, 1, ⟨wireOf front remoteIP qname, ordered _ _⟩)
  observe _ w := w

theorem wireOf_ordered {front : List TextRR} (h : ∀ rr ∈ front, rr.d_place = .AUTHORITY)
    (remoteIP : ComboAddress) (qname : Octets) :
    InSectionOrder (wireOf front remoteIP qname).d_result := by
  unfold wireOf
  split
  · exact @inSectionOrder_of_place _ .ANSWER (by decide)
  split
  · refine @inSectionOrder_of_place _ .AUTHORITY fun rr hrr => ?_
    rcases mem_append.mp hrr with hrr | hrr
    · exact h rr hrr
    · exact mem_singleton.mp hrr ▸ rfl
  · exact .cons (by simp) .nil

/-- The answer about `www.example.com`. -/
def exampleAnswer (front : List TextRR) (h : ∀ rr ∈ front, rr.d_place = .AUTHORITY) :
    SyncM Unit (Int × List TextRR) :=
  (forwardingResolver front (wireOf_ordered h)).beginResolve 13 (ascii "www.example.com.") QType.A 1 []

/-- The answer by way of a plain referral is in order, also when it is shuffled. -/
theorem referral_in_order :
    let ret := ((exampleAnswer [] (by decide)).value ⟨(), [], [], true⟩).2
    InSectionOrder ret ∧ InSectionOrder (shuffle reversingEnv ret) ∧
      CountsDescribe (shuffle reversingEnv ret) :=
  beginResolve_inSectionOrder _ 13 _ _ _ _ (by decide) reversingEnv

/-- **A referral with a SOA.** The SOA of the referral stays in front of the answer that the
servers of the zone give, and the packet counts it among the answers' section. -/
theorem soa_in_front :
    let ret := ((exampleAnswer [replyRR "example.com." QType.SOA "ns hm 1 2 3 4 5" .AUTHORITY]
      (by decide)).value ⟨(), [], [], true⟩).2
    (ret.map fun rr => rr.d_place) = [.AUTHORITY, .ANSWER, .ANSWER] ∧ ¬ InSectionOrder ret ∧
      ¬ CountsDescribe (shuffle reversingEnv ret) := by
  decide

end SyncRes

end PowerDNS
