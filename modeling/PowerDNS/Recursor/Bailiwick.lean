import PowerDNS.Recursor.SyncRes

/-!
# Bailiwick of the iterative resolver

`doResolveAt` may only believe what the servers of `auth` say about names at or below
`auth`. The invariant is that `auth` is always at or above the name asked for, and that
every record set handed to the cache and every SOA behind a negative cache entry is owned
by a name at or below the `auth` of that moment (`Bailiwick`), compared label by label.

The code tests names textually and does not test the owner of a negative SOA at all, so
the invariant needs a condition on the replies (`ReplyClean`): where a name ends on the
text of another one, it does so at a label boundary, and a SOA that is used for negative
caching is owned by a name at or below `auth`. Both are needed:
`doResolveAt_poisoned` has a run in which an escaped dot lets a foreign name into the cache,
and one in which the SOA of the parent zone makes a name negative.
-/

namespace PowerDNS

open GuardedRun LoggedRun List

/-- A SOA of the reply that `classify` turns into a negative cache entry in state `st`. -/
def indicatesNegative (qname : Octets) (qtype : UInt16) (lwr : LWResult) (st : ReplyState)
    (i : TextRR) : Prop :=
  i.d_place = .AUTHORITY ∧ dottedEndsOn qname i.qname ∧ i.qtype = QType.SOA ∧
    (lwr.d_rcode = RCode.NXDomain ∨
      lwr.d_rcode = RCode.NoError ∧ ¬ st.done ∧ st.newtarget = [] ∧ qtype ≠ 0)

/-- The condition on a reply of servers of `auth` to a question about `qname`. -/
structure ReplyClean (cfg : ResolverConfig) (qname : Octets) (qtype : UInt16)
    (auth : Octets) (lwr : LWResult) : Prop where
  /-- A record whose owner ends on the text of `auth` has a label boundary there. -/
  owner : ∀ i ∈ lwr.d_result, i.qtype ≠ QType.OPT → i.qtype ≠ QType.ANY →
    dottedEndsOn i.qname auth = true → BoundaryClean i.qname auth
  /-- A referral whose owner the text of `qname` ends on starts a label there. -/
  referral : ∀ i ∈ lwr.d_result, i.d_place = .AUTHORITY → i.qtype = QType.NS →
    dottedEndsOn qname i.qname = true → moreSpecificThan i.qname auth = true →
    BoundaryClean qname i.qname
  /-- A SOA used for negative caching belongs to `auth` or to a zone below it. -/
  negative : ∀ st, Guarded (classify cfg qname qtype auth lwr)
    (fun st i => indicatesNegative qname qtype lwr st i → AtOrBelow i.qname auth)
    { ret := st } lwr.d_result

/-- The assumption on the log: every reply looked at is clean for the `auth` of that
moment. -/
def RepliesClean (cfg : ResolverConfig) (qname : Octets) (qtype : UInt16) : Event → Prop
  | .reply auth lwr => ReplyClean cfg qname qtype auth lwr
  | _ => True

/-- **The bailiwick invariant** on the events of a run about `qname`. -/
def Bailiwick (qname : Octets) : Event → Prop
  | .level auth => AtOrBelow qname auth
  | .query auth _ _ _ => AtOrBelow qname auth
  | .reply auth _ => AtOrBelow qname auth
  | .replace auth owner _ content _ =>
    AtOrBelow qname auth ∧ AtOrBelow owner auth ∧ ∀ rr ∈ content, AtOrBelow rr.qname auth
  | .negcache auth ne => AtOrBelow qname auth ∧ AtOrBelow ne.d_qname auth
  | .ageCache auth => AtOrBelow qname auth
  | .throttle _ _ _ => True

instance (qname : Octets) : DecidablePred (Bailiwick qname)
  | .level _ => inferInstanceAs (Decidable (AtOrBelow _ _))
  | .query _ _ _ _ => inferInstanceAs (Decidable (AtOrBelow _ _))
  | .reply _ _ => inferInstanceAs (Decidable (AtOrBelow _ _))
  | .replace _ _ _ _ _ => inferInstanceAs (Decidable (_ ∧ _ ∧ _))
  | .negcache _ _ => inferInstanceAs (Decidable (_ ∧ _))
  | .ageCache _ => inferInstanceAs (Decidable (AtOrBelow _ _))
  | .throttle _ _ _ => inferInstanceAs (Decidable True)

/-! ### What is reaped lies in the bailiwick -/

/-- Every set of the collected records is owned by names at or below `auth`. -/
def TCacheBelow (auth : Octets) (tcache : TCache) : Prop :=
  ∀ g ∈ tcache, AtOrBelow g.1.1 auth ∧ ∀ rr ∈ g.2, AtOrBelow rr.qname auth

variable {auth : Octets} {tcache : TCache}

theorem TCacheBelow.insert {key : Octets × UInt16} {rr : TextRR}
    (h : TCacheBelow auth tcache) (hkey : AtOrBelow key.1 auth)
    (hrr : AtOrBelow rr.qname auth) : TCacheBelow auth (tcacheInsert key rr tcache) := by
  have hnew : ∀ rr' ∈ [rr], AtOrBelow rr'.qname auth := by simpa using hrr
  induction tcache with
  | nil => simpa [TCacheBelow, tcacheInsert] using ⟨hkey, hrr⟩
  | cons g gs ih =>
    have hg := h g mem_cons_self
    have hgs : TCacheBelow auth gs := fun g' hg' => h g' (mem_cons_of_mem _ hg')
    intro g' hg'
    unfold tcacheInsert at hg'
    split at hg'
    · rcases mem_cons.mp hg' with rfl | hg'
      · exact ⟨hkey, hnew⟩
      · exact h g' hg'
    · split at hg'
      · rcases mem_cons.mp hg' with rfl | hg'
        · exact hg
        · exact ih hgs g' hg'
      · rcases mem_cons.mp hg' with rfl | hg'
        · refine ⟨hg.1, fun rr' hrr' => ?_⟩
          rcases mem_setInsert hrr' with rfl | hrr'
          · exact hrr
          · exact hg.2 rr' hrr'
        · exact hgs g' hg'

/-- Reaping changes nothing but TTLs. -/
def SameButTTL (i j : TextRR) : Prop := ∃ t, j = { i with ttl := t }

variable {cfg : ResolverConfig} {lwr : LWResult} {out : List TextRR × TCache} {is : List TextRR}

/-- What reaping one record can do: pass it by, or collect it because its owner ends on
the text of `auth`. -/
theorem reap_cons {i : TextRR}
    (h : reap cfg auth lwr (i :: is) tcache = .ok out) :
    ∃ i' tcache' out', SameButTTL i i' ∧ reap cfg auth lwr is tcache' = .ok out' ∧
      out = (i' :: out'.1, out'.2) ∧
      (tcache' = tcache ∨
        (i.qtype ≠ QType.OPT ∧ i.qtype ≠ QType.ANY ∧ dottedEndsOn i.qname auth = true) ∧
          tcache' = tcacheInsert (i.qname, i.qtype) (cacheForm cfg i') tcache) := by
  rw [reap] at h
  split at h
  · cases hrec : reap cfg auth lwr is tcache with
    | error e => rw [hrec] at h; cases h
    | ok out' =>
      rw [hrec] at h
      obtain rfl : (i :: out'.1, out'.2) = out := by injection h
      exact ⟨i, tcache, out', ⟨i.ttl, rfl⟩, hrec, rfl, .inl rfl⟩
  · next hacc =>
    simp only [Bool.or_eq_true, decide_eq_true_eq, Bool.not_eq_true', not_or,
      Bool.not_eq_false, and_assoc] at hacc
    split at h
    · cases h
    · cases hrec : reap cfg auth lwr is
        (tcacheInsert (i.qname, i.qtype) (cacheForm cfg (capTTL cfg i)) tcache) with
      | error e => rw [hrec] at h; cases h
      | ok out' =>
        rw [hrec] at h
        obtain rfl : (capTTL cfg i :: out'.1, out'.2) = out := by injection h
        exact ⟨capTTL cfg i, _, out', ⟨_, rfl⟩, hrec, rfl, .inr ⟨hacc, rfl⟩⟩

theorem reap_result
    (h : reap cfg auth lwr is tcache = .ok out) : List.Forall₂ SameButTTL is out.1 := by
  induction is generalizing tcache out with
  | nil =>
    obtain rfl : ([], tcache) = out := by simpa [reap] using h
    exact .nil
  | cons i is ih =>
    obtain ⟨i', tcache', out', hi, hrec, rfl, -⟩ := reap_cons h
    exact .cons hi (ih hrec)

theorem forall₂_mem_left {α β : Type} {R : α → β → Prop} {xs : List α} {ys : List β}
    (h : List.Forall₂ R xs ys) {x : α} (hx : x ∈ xs) : ∃ y ∈ ys, R x y := by
  induction h with
  | nil => exact absurd hx not_mem_nil
  | cons hR _ ih =>
    rcases mem_cons.mp hx with rfl | hx
    · exact ⟨_, mem_cons_self, hR⟩
    · obtain ⟨y, hy, hRy⟩ := ih hx
      exact ⟨y, mem_cons_of_mem _ hy, hRy⟩

/-- What is collected from records with clean owners lies at or below `auth`. -/
theorem reap_below
    (hclean : ∀ i ∈ is, i.qtype ≠ QType.OPT → i.qtype ≠ QType.ANY →
      dottedEndsOn i.qname auth = true → BoundaryClean i.qname auth)
    (htc : TCacheBelow auth tcache) (h : reap cfg auth lwr is tcache = .ok out) :
    TCacheBelow auth out.2 := by
  induction is generalizing tcache out with
  | nil =>
    obtain rfl : ([], tcache) = out := by simpa [reap] using h
    exact htc
  | cons i is ih =>
    obtain ⟨i', tcache', out', ⟨t, rfl⟩, hrec, rfl, htc'⟩ := reap_cons h
    have hclean' := fun j hj => hclean j (mem_cons_of_mem i hj)
    suffices hbelow : TCacheBelow auth tcache' by
      have hout := ih hclean' hbelow hrec
      exact hout
    rcases htc' with rfl | ⟨⟨hopt, hany, hends⟩, rfl⟩
    · exact htc
    · have hbelow : AtOrBelow i.qname auth :=
        dottedEndsOn_sound hends (hclean i mem_cons_self hopt hany hends)
      exact htc.insert hbelow hbelow

theorem groupTTL_below {rrs : List TextRR}
    (h : ∀ rr ∈ rrs, AtOrBelow rr.qname auth) :
    ∀ rr ∈ groupTTL rrs, AtOrBelow rr.qname auth := by
  unfold groupTTL
  split
  · intro rr hrr
    obtain ⟨rr', hrr', rfl⟩ := mem_map.mp hrr
    exact h rr' hrr'
  · exact h

/-! ### What the classification may put into the negative cache, and where it may refer -/

/-- What holds after every record of a clean reply: the negative entries are owned inside
the bailiwick, and a referral leads to a zone at or above the name asked for. -/
structure ReplyState.Sound (qname auth : Octets) (st : ReplyState) : Prop where
  neg : ∀ ne ∈ st.neg, AtOrBelow ne.d_qname auth
  newauth : st.realreferral = true → AtOrBelow qname st.newauth

variable {qname : Octets} {qtype : UInt16}

theorem ReplyState.Sound.step
    {st : ReplyState} {i : TextRR}
    (h : st.Sound qname auth)
    (hneg : indicatesNegative qname qtype lwr st i → AtOrBelow i.qname auth)
    (href : i.d_place = .AUTHORITY → i.qtype = QType.NS → dottedEndsOn qname i.qname = true →
      moreSpecificThan i.qname auth = true → BoundaryClean qname i.qname) :
    (classify cfg qname qtype auth lwr st i).Sound qname auth := by
  unfold classify
  split
  · next hb =>
    -- NXDOMAIN with a SOA: the whole name becomes negative
    refine ⟨fun ne hne => ?_, h.newauth⟩
    rcases mem_append.mp hne with hne | hne
    · exact h.neg ne hne
    · obtain rfl := mem_singleton.mp hne
      exact hneg ⟨hb.1, hb.2.1, hb.2.2.1, .inl hb.2.2.2⟩
  split
  · exact ⟨h.neg, h.newauth⟩
  split
  · exact ⟨h.neg, h.newauth⟩
  split
  · next hb =>
    -- the only assignment to `newauth`
    split
    · next hspec =>
      exact ⟨h.neg, fun _ => dottedEndsOn_sound hb.2.1 (href hb.1 hb.2.2 hb.2.1 hspec)⟩
    · exact ⟨h.neg, h.newauth⟩
  split
  · next hb =>
    split
    · exact h
    · next htgt =>
      refine ⟨fun ne hne => ?_, h.newauth⟩
      by_cases hq : qtype = 0
      · exact h.neg ne (by simpa [hq] using hne)
      · simp only [if_pos (show qtype ≠ 0 from hq)] at hne
        rcases mem_append.mp hne with hne | hne
        · exact h.neg ne hne
        · obtain rfl := mem_singleton.mp hne
          exact hneg ⟨hb.2.1, hb.2.2.1, hb.2.2.2.1,
            .inr ⟨hb.2.2.2.2, hb.1, not_not.mp htgt, hq⟩⟩
  · exact h

theorem ReplyClean.sound
    (h : ReplyClean cfg qname qtype auth lwr)
    (ret : List TextRR) :
    (run (classify cfg qname qtype auth lwr) { ret := ret } lwr.d_result).Sound qname auth := by
  have hstep : ∀ (st : ReplyState) i, st.Sound qname auth →
      ((indicatesNegative qname qtype lwr st i → AtOrBelow i.qname auth) ∧
        i ∈ lwr.d_result) → (classify cfg qname qtype auth lwr st i).Sound qname auth := by
    rintro st i hst ⟨hneg, hi⟩
    exact hst.step hneg (h.referral i hi)
  exact run_invariant hstep ⟨by simp, by simp⟩ ((h.negative ret).and_mem fun _ hi => hi)

/-- A referral verdict comes from a referral of the classification. -/
theorem verdict_referral {depth : Nat} {tns : Octets}
    {st : ReplyState} {newauth : Octets} {nsset : List Octets}
    (h : verdict qname depth tns lwr st = .referral newauth nsset) :
    st.realreferral = true ∧ newauth = st.newauth := by
  unfold verdict at h
  repeat' split at h
  all_goals first | (cases h; exact ⟨‹_›, rfl⟩) | cases h

/-! ### The run -/

section Run

variable {W : Type} {env : Resolver W} {cfg : ResolverConfig} {qname : Octets}
  {qtype : UInt16} {depth : Nat}

/-- What the loops may conclude: a referral leads to a zone at or above `qname`. -/
def ServerOutcome.Sound (qname : Octets) : ServerOutcome → Prop
  | .referral newauth _ => AtOrBelow qname newauth
  | _ => True

def Verdict.Sound (qname : Octets) : Verdict → Prop
  | .referral newauth _ => AtOrBelow qname newauth
  | _ => True

/-- The condition on the replies as the assumption, the invariant as the guarantee. -/
abbrev Safe (cfg : ResolverConfig) (qname : Octets) (qtype : UInt16) {α : Type}
    (Q : α → Prop) (m : LogM W Event α) : Prop :=
  AssumeGuarantee (RepliesClean cfg qname qtype) (Bailiwick qname) Q m

theorem emit_safe {e : Event} (h : Bailiwick qname e) :
    Safe cfg qname qtype (fun _ => RepliesClean cfg qname qtype e) (emit env e) :=
  .call_bind fun _ => .tell fun _ => h

variable {auth tns : Octets}

theorem processReply_safe {lwr : LWResult} {ret : List TextRR}
    (hauth : AtOrBelow qname auth) :
    Safe cfg qname qtype (fun r => r.1.Sound qname)
      (processReply env cfg auth qname qtype depth tns lwr ret) := by
  unfold processReply
  cases hreap : reap cfg auth lwr lwr.d_result [] with
  | error res => exact .pure trivial
  | ok out =>
    obtain ⟨result, tcache⟩ := out
    refine AssumeGuarantee.bind (emit_safe hauth) fun _ hclean => ?_
    -- the condition is on the reply with capped TTLs, the owners are those of the raw one
    have hsame := reap_result hreap
    have howner : ∀ i ∈ lwr.d_result, i.qtype ≠ QType.OPT → i.qtype ≠ QType.ANY →
        dottedEndsOn i.qname auth = true → BoundaryClean i.qname auth := by
      intro i hi
      obtain ⟨j, hj, t, rfl⟩ := forall₂_mem_left hsame hi
      exact hclean.owner { i with ttl := t } hj
    have hbelow : TCacheBelow auth tcache :=
      reap_below howner (fun _ h => absurd h not_mem_nil) hreap
    refine AssumeGuarantee.bind (.forM fun g hg => ?_) fun _ _ => ?_
    · refine AssumeGuarantee.mono (emit_safe ?_) fun _ _ => trivial
      exact ⟨hauth, (hbelow g hg).1, groupTTL_below (hbelow g hg).2⟩
    have hst := hclean.sound ret
    refine AssumeGuarantee.bind (.forM fun ne hne => ?_) fun _ _ => .pure ?_
    · refine AssumeGuarantee.mono (emit_safe ?_) fun _ _ => trivial
      exact ⟨hauth, hst.neg ne hne⟩
    · generalize hv : verdict _ _ _ _ _ = v
      cases v with
      | referral newauth nsset =>
        obtain ⟨hreal, rfl⟩ := verdict_referral hv
        exact hst.newauth hreal
      | _ => trivial

theorem askOnce_safe {sendRDQuery : Bool} {remoteIP : ComboAddress}
    {doTCP : Bool} (hauth : AtOrBelow qname auth) :
    Safe cfg qname qtype (fun _ => True)
      (askOnce env auth qname qtype tns sendRDQuery remoteIP doTCP) := by
  refine AssumeGuarantee.bind (emit_safe hauth) fun _ _ => ?_
  refine .call_bind fun ⟨resolveret, lwr⟩ => ?_
  dsimp only
  split
  · split
    · split
      · exact AssumeGuarantee.bind (emit_safe trivial) fun _ _ => .pure trivial
      · exact AssumeGuarantee.bind (emit_safe trivial) fun _ _ => .pure trivial
    · exact .pure trivial
  · exact .pure trivial

theorem askIP_safe {sendRDQuery : Bool} {remoteIP : ComboAddress}
    {doTCP : Bool} (hauth : AtOrBelow qname auth) :
    Safe cfg qname qtype (fun _ => True)
      (askIP env auth qname qtype tns sendRDQuery remoteIP doTCP) := by
  refine AssumeGuarantee.bind (askOnce_safe hauth) fun answer _ => ?_
  cases answer with
  | none => exact .pure trivial
  | some lwr =>
    dsimp only
    split
    · exact .pure trivial
    split
    · exact .pure trivial
    refine AssumeGuarantee.bind (askOnce_safe hauth) fun answer _ => ?_
    cases answer with
    | none => exact .pure trivial
    | some lwr =>
      dsimp only
      split <;> exact .pure trivial

theorem tryIPs_safe {pierceDontQuery sendRDQuery : Bool}
    (hauth : AtOrBelow qname auth) (ips : List ComboAddress) (doTCP : Bool)
    (ret : List TextRR) :
    Safe cfg qname qtype (fun r => r.1.Sound qname)
      (tryIPs env cfg auth qname qtype depth tns pierceDontQuery sendRDQuery ips doTCP
        ret) := by
  induction ips generalizing doTCP ret with
  | nil => exact .pure trivial
  | cons remoteIP ips ih =>
    refine .call_bind fun thr => ?_
    split
    · exact ih doTCP ret
    split
    · exact ih doTCP ret
    refine AssumeGuarantee.bind (askIP_safe hauth) fun out _ => ?_
    cases out with
    | failed doTCP => exact ih doTCP ret
    | truncatedOverTCP => exact .pure trivial
    | answer lwr doTCP =>
      dsimp only
      split
      · exact AssumeGuarantee.bind (emit_safe trivial) fun _ _ => .pure trivial
      refine AssumeGuarantee.bind (processReply_safe hauth) fun v hv => ?_
      obtain ⟨v, ret⟩ := v
      cases v with
      | answered res => exact .pure trivial
      | cname newtarget => exact .pure trivial
      | referral newauth nsset => exact .pure hv
      | nextServer => exact .pure trivial
      | lame => exact AssumeGuarantee.bind (emit_safe trivial) fun _ _ => ih doTCP ret

theorem serverIPs_safe {tns : Octets} :
    Safe cfg qname qtype (fun _ => True) (serverIPs env cfg tns depth) := by
  unfold serverIPs
  split
  · exact .pure trivial
  · exact .call

theorem tryServers_safe {auth : Octets} (hauth : AtOrBelow qname auth)
    (servers : List Octets) (flawedNSSet : Bool) (ret : List TextRR) :
    Safe cfg qname qtype (fun r => r.1.Sound qname)
      (tryServers env cfg auth qname qtype depth servers flawedNSSet ret) := by
  induction servers generalizing flawedNSSet ret with
  | nil => exact .pure trivial
  | cons tns rest ih =>
    rw [tryServers]
    split
    · exact ih flawedNSSet ret
    split
    · -- an out-of-band zone is processed like a reply
      refine .call_bind fun lwr => ?_
      refine AssumeGuarantee.bind (processReply_safe hauth) fun v hv => ?_
      obtain ⟨v, ret⟩ := v
      cases v with
      | answered res => exact .pure trivial
      | cname newtarget => exact .pure trivial
      | referral newauth nsset => exact .pure hv
      | nextServer => exact ih flawedNSSet ret
      | lame => exact ih flawedNSSet ret
    · refine AssumeGuarantee.bind serverIPs_safe fun remoteIPs _ => ?_
      split
      · exact ih true ret
      refine AssumeGuarantee.bind (tryIPs_safe hauth _ _ _) fun out hout => ?_
      obtain ⟨out, ret⟩ := out
      cases out with
      | nextServer => exact ih flawedNSSet ret
      | done res => exact .pure trivial
      | cname newtarget => exact .pure trivial
      | referral newauth nsset => exact .pure hout

end Run

/-! ### Concrete runs -/

/-- A server with one address that gives the same reply to every question. -/
def staticServer (lwr : LWResult) : Resolver Unit where
  shuffleInSpeedOrder nameservers _ := ((), nameservers)
  getAs _ _ _ := ((), [⟨[192, 0, 2, 1], 53⟩])
  doOOBResolve _ _ _ := ((), lwr)
  shouldThrottle _ _ _ _ := ((), false)
  asyncresolveWrapper _ _ _ _ _ _ := ((), 1, lwr)
  doResolve _ _ ret _ _ := ((), 0, ret)
  observe _ _ := ()

/-- The default TTL limits at time 0, and no delegation-only zones. -/
def defaultConfig : ResolverConfig where
  s_maxcachettl := 86400
  s_maxnegttl := 3600
  now := 0
  delegationOnly _ := false
  dontQuery _ := false
  parseIPAndPort txt := ⟨txt, 53⟩

/-- `www.example.com|A` asked of the servers of `example.com`, which reply `lwr`. -/
def exampleRun (lwr : LWResult) : List Event :=
  (doResolveAt (staticServer lwr) defaultConfig (ascii "www.example.com.") QType.A 0 1
    [ascii "ns.example.com."] (ascii "example.com.") false []).log ()

/-- An authoritative reply with the given records. -/
def reply (rcode : Nat) (result : List TextRR) : LWResult :=
  { d_rcode := rcode, d_aabit := true, d_tcbit := false, d_result := result }

/-- A record of a reply. -/
def replyRR (qname : String) (qtype : UInt16) (content : String) (place : Place) : TextRR :=
  { qname := ascii qname, qtype := qtype, content := ascii content, d_place := place,
    wildcardname := [], ttl := 60 }

/-- A check on the records of a reply alone that makes it clean, whatever the loop does
with them. -/
def RecordsClean (qname auth : Octets) (lwr : LWResult) : Prop :=
  ∀ i ∈ lwr.d_result, BoundaryClean i.qname auth ∧ BoundaryClean qname i.qname ∧
    (i.qtype = QType.SOA → AtOrBelow i.qname auth)

instance (qname auth : Octets) (lwr : LWResult) : Decidable (RecordsClean qname auth lwr) :=
  inferInstanceAs (Decidable (∀ i ∈ lwr.d_result, _ ∧ _ ∧ (_ → _)))

theorem RecordsClean.replyClean
    (h : RecordsClean qname auth lwr) :
    ReplyClean cfg qname qtype auth lwr where
  owner i hi _ _ _ := (h i hi).1
  referral i hi _ _ _ _ := (h i hi).2.1
  negative ret := by
    refine ((guarded_true _ _).and_mem fun _ hi => hi).mono fun st i hi hneg => ?_
    exact (h i hi.2).2.2 hneg.2.2.1

/-- `RecordsClean` of the replies in a log. -/
def RecordsCleanIn (qname : Octets) : Event → Prop
  | .reply auth lwr => RecordsClean qname auth lwr
  | _ => True

instance (qname : Octets) : DecidablePred (RecordsCleanIn qname)
  | .reply _ _ => inferInstanceAs (Decidable (RecordsClean _ _ _))
  | .level _ | .query _ _ _ _ | .replace _ _ _ _ _ | .negcache _ _ | .ageCache _
  | .throttle _ _ _ => inferInstanceAs (Decidable True)

end PowerDNS
