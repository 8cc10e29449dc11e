import Mathlib.Data.List.Chain
import PowerDNS.Recursor.Bailiwick

/-!
# What a run of `doResolveAt` carries along

`doResolveAt` appends to `ret` as it looks at one reply after the other, and goes on to another
address, server or zone as long as none of them settles the question. A statement about its run
is a pair of facts about `ret` and the world: `I` at every moment it goes on, `F` when it returns.
`Carries` says what has to be checked of a pair: that what `doResolveAt` calls keeps `I`, and what
one reply makes of it. `Carries.doResolveAt` is the rule for the loops.

The rule needs no assumption on the number of referrals: each leads to a zone with more labels
that the name ends on (`verdict_closer`), so there are no more of them than the name has dots.
-/

namespace PowerDNS

open GuardedRun LoggedRun List

/-! ### Referrals lead closer to the name -/

/-- What `moreSpecificThan` compares. -/
def specificity (s : Octets) : Nat := (if s ≠ [dot] then 1 else 0) + s.count dot

theorem moreSpecificThan_iff {a b : Octets} :
    moreSpecificThan a b = true ↔ specificity b < specificity a := by
  simp [moreSpecificThan, specificity]

theorem count_dot_toLower (s : Octets) : (toLower s).count dot = s.count dot := by
  induction s with
  | nil => rfl
  | cons c s ih =>
    rw [toLower_cons, count_cons, count_cons, ih]
    by_cases hc : c = dot
    · simp [hc, show dnsTolower dot = dot from rfl]
    · have hc' : dnsTolower c ≠ dot := fun h => hc ((dnsTolower_eq_dot c).mp h)
      simp [hc, hc']

/-- A name that another one ends on has no more dots than that one. -/
theorem specificity_le_of_dottedEndsOn {qname auth : Octets} (h : dottedEndsOn qname auth = true) :
    specificity auth ≤ qname.count dot + 1 := by
  by_cases hroot : auth = [dot]
  · subst hroot
    simp [specificity]
  have hcount : auth.count dot ≤ qname.count dot := by
    by_cases heq : ciEqual qname auth = true
    · rw [← count_dot_toLower auth, ← (ciEqual_iff _ _).mp heq, count_dot_toLower]
    · have hends : endsOnAfterDot qname auth = true := by
        simpa [dottedEndsOn, hroot, heq] using h
      obtain ⟨t, hcut, -, ht⟩ := (endsOnAfterDot_iff _ _).mp hends
      calc auth.count dot = t.count dot := by rw [← count_dot_toLower, ← ht, count_dot_toLower]
        _ ≤ (qname.take (qname.length - auth.length - 1) ++ dot :: t).count dot := by
            rw [count_append, count_cons]
            omega
        _ = qname.count dot := by rw [← hcut]
  simp only [specificity, ne_eq, hroot, not_false_eq_true, if_true]
  omega

/-- From one `auth` to the next: strictly more specific, and towards the name. -/
def Closer (qname auth newauth : Octets) : Prop :=
  moreSpecificThan newauth auth = true ∧ dottedEndsOn qname newauth = true

variable {cfg : ResolverConfig} {qname : Octets} {qtype : UInt16}

theorem classify_closer {auth : Octets}
    {lwr : LWResult} {st : ReplyState} (i : TextRR)
    (h : st.realreferral = true → Closer qname auth st.newauth) :
    (classify cfg qname qtype auth lwr st i).realreferral = true →
      Closer qname auth (classify cfg qname qtype auth lwr st i).newauth := by
  unfold classify
  split
  · exact h
  split
  · exact h
  split
  · exact h
  split
  · next hns =>
    -- the only assignment to `newauth`
    split
    · next hspec => exact fun _ => ⟨hspec, hns.2.1⟩
    · exact h
  split
  · split
    · exact h
    · exact h
  · exact h

theorem run_classify_closer
    {auth : Octets} {lwr : LWResult} (ret result : List TextRR) :
    (run (classify cfg qname qtype auth lwr) { ret := ret } result).realreferral = true →
      Closer qname auth (run (classify cfg qname qtype auth lwr) { ret := ret } result).newauth := by
  refine run_invariant
    (I := fun st : ReplyState => st.realreferral = true → Closer qname auth st.newauth)
    (fun st i hst _ => classify_closer i hst) (by simp) (guarded_true _ _)

/-- **Referrals.** A referral that is followed leads to a zone that is strictly more specific than
`auth`, and that the name ends on. -/
theorem verdict_closer {depth : Nat}
    {auth tns newauth : Octets} {nsset : List Octets} {lwr lwr' : LWResult}
    {ret result : List TextRR}
    (h : verdict qname depth tns lwr'
      (run (classify cfg qname qtype auth lwr) { ret := ret } result) = .referral newauth nsset) :
    Closer qname auth newauth := by
  obtain ⟨hreal, rfl⟩ := verdict_referral h
  exact run_classify_closer ret result hreal

/-! ### The conditions of the rule -/

/-- The state after a reply has been classified. -/
def afterReply (cfg : ResolverConfig) (qname : Octets) (qtype : UInt16) (auth : Octets)
    (lwr : LWResult) (ret : List TextRR) : ReplyState :=
  run (classify cfg qname qtype auth lwr) { ret := ret } lwr.d_result

/-- `I` holds of `ret` and the world as long as `doResolveAt` goes on, `F` when it returns, and
`L` of the replies it gets. -/
structure Carries {W : Type} (env : Resolver W) (cfg : ResolverConfig) (qname : Octets)
    (qtype : UInt16) (depth : Nat) (I F : List TextRR → W → Prop) (L : LWResult → Prop) :
    Prop where
  stop {ret w} : I ret w → F ret w
  shuffle {ret w} (nameservers) : I ret w → I ret (env.shuffleInSpeedOrder nameservers w).1
  getAs {ret w} (tns) : I ret w → I ret (env.getAs tns (depth + 1) w).1
  shouldThrottle {ret w} (remoteIP) : I ret w → I ret (env.shouldThrottle remoteIP qname qtype w).1
  outOfBand {ret w} : I ret w → I ret (env.doOOBResolve qname qtype w).1 ∧
    L { (env.doOOBResolve qname qtype w).2 with d_tcbit := false, d_aabit := true }
  wire {ret w} (remoteIP qtype doTCP sendRDQuery) : I ret w →
    I ret (env.asyncresolveWrapper remoteIP qname qtype doTCP sendRDQuery w).1 ∧
      L (env.asyncresolveWrapper remoteIP qname qtype doTCP sendRDQuery w).2.2
  observe {ret w e} : (∀ auth lwr, e ≠ .reply auth lwr) → I ret w → I ret (env.observe e w)
  observe_end {ret w e} : (∀ auth lwr, e ≠ .reply auth lwr) → F ret w → F ret (env.observe e w)
  /-- A reply that settles the question. -/
  settled {ret w auth tns lwr result tcache res} :
    L lwr → reap cfg auth lwr lwr.d_result [] = .ok (result, tcache) → I ret w →
      let lwr := { lwr with d_result := result }
      verdict qname depth tns lwr (afterReply cfg qname qtype auth lwr ret) = .answered res →
      F (afterReply cfg qname qtype auth lwr ret).ret (env.observe (.reply auth lwr) w)
  /-- A reply that does not. -/
  goesOn {ret w auth tns lwr result tcache} :
    L lwr → reap cfg auth lwr lwr.d_result [] = .ok (result, tcache) → I ret w →
      let lwr := { lwr with d_result := result }
      (∀ res, verdict qname depth tns lwr (afterReply cfg qname qtype auth lwr ret) ≠
        .answered res) →
      I (afterReply cfg qname qtype auth lwr ret).ret (env.observe (.reply auth lwr) w)
  /-- A CNAME is followed. -/
  follow {ret w} (newtarget) : depth ≤ 10 → I ret w →
    F (env.doResolve newtarget qtype ret (depth + 1) w).2.2
      (env.doResolve newtarget qtype ret (depth + 1) w).1

/-- Only the top of `for(;;)` says at which `auth` it is. -/
def NotLevel : Event → Prop
  | .level _ => False
  | _ => True

section Rule

variable {W : Type} {env : Resolver W} {cfg : ResolverConfig} {qname : Octets} {qtype : UInt16}
  {depth : Nat} {I F : List TextRR → W → Prop} {L : LWResult → Prop}

/-- What holds when a reply has been looked at. -/
def Verdict.Holds (qname : Octets) (depth : Nat) (auth : Octets) (I F : List TextRR → W → Prop) :
    Verdict × List TextRR → W → Prop
  | (.answered _, ret), w => F ret w
  | (.cname _, ret), w => depth ≤ 10 ∧ I ret w
  | (.referral newauth _, ret), w => Closer qname auth newauth ∧ I ret w
  | (.lame, ret), w | (.nextServer, ret), w => I ret w

/-- What holds when an address, a server or all of them have been tried. -/
def ServerOutcome.Holds (qname : Octets) (depth : Nat) (auth : Octets)
    (I F : List TextRR → W → Prop) : ServerOutcome × List TextRR → W → Prop
  | (.done _, ret), w => F ret w
  | (.cname _, ret), w => depth ≤ 10 ∧ I ret w
  | (.referral newauth _, ret), w => Closer qname auth newauth ∧ I ret w
  | (.nextServer, ret), w => I ret w

theorem verdict_cname {tns newtarget : Octets} {lwr : LWResult} {st : ReplyState}
    (h : verdict qname depth tns lwr st = .cname newtarget) : depth ≤ 10 := by
  unfold verdict at h
  split at h
  · cases h
  split at h
  · cases h
  split at h
  · split at h
    · cases h
    split at h
    · cases h
    next hdepth => exact Nat.le_of_not_lt hdepth
  split at h
  · cases h
  split at h
  · cases h
  split at h <;> cases h

namespace Carries

variable (h : Carries env cfg qname qtype depth I F L)

include h

variable {ret : List TextRR}

theorem emit {e : Event} (he : ∀ auth lwr, e ≠ .reply auth lwr)
    (hlevel : NotLevel e) :
    Triple (I ret) NotLevel (emit env e) fun _ => I ret :=
  .call_bind (Q := fun _ => I ret) (fun _ hI => h.observe he hI) fun _ => .tell hlevel

theorem emit_end {e : Event} (he : ∀ auth lwr, e ≠ .reply auth lwr)
    (hlevel : NotLevel e) :
    Triple (F ret) NotLevel (PowerDNS.emit env e) fun _ => F ret :=
  .call_bind (Q := fun _ => F ret) (fun _ hF => h.observe_end he hF) fun _ => .tell hlevel

variable {auth tns : Octets}

theorem processReply {lwr : LWResult} (hL : L lwr) :
    Triple (I ret) NotLevel (processReply env cfg auth qname qtype depth tns lwr ret)
      (Verdict.Holds qname depth auth I F) := by
  unfold PowerDNS.processReply
  cases hreap : reap cfg auth lwr lwr.d_result [] with
  | error res => exact .pure fun _ hI => h.stop hI
  | ok out =>
    obtain ⟨result, tcache⟩ := out
    let lwr' : LWResult := { lwr with d_result := result }
    let st := afterReply cfg qname qtype auth lwr' ret
    -- what is stored changes nothing about what holds after the reply
    have hstored : ∀ K : List TextRR → W → Prop,
        (∀ w, I ret w → K st.ret (env.observe (.reply auth lwr') w)) →
        (∀ e, (∀ auth lwr, e ≠ .reply auth lwr) → NotLevel e →
          Triple (K st.ret) NotLevel (PowerDNS.emit env e) fun _ => K st.ret) →
        (∀ w, K st.ret w →
          Verdict.Holds qname depth auth I F (verdict qname depth tns lwr' st, st.ret) w) →
        Triple (I ret) NotLevel (do
            PowerDNS.emit env (.reply auth lwr')
            tcache.forM fun g =>
              PowerDNS.emit env (.replace auth g.1.1 g.1.2 (groupTTL g.2) lwr'.d_aabit)
            st.neg.forM fun ne => PowerDNS.emit env (.negcache auth ne)
            pure (verdict qname depth tns lwr' st, st.ret))
          (Verdict.Holds qname depth auth I F) := by
      intro K hreply hemit hholds
      refine .bind (Q := fun _ => K st.ret) (.call_bind hreply fun _ => .tell trivial) fun _ => ?_
      refine .bind (.forM fun g _ => hemit _ (by simp) trivial) fun _ => ?_
      exact .bind (.forM fun ne _ => hemit _ (by simp) trivial) fun _ => .pure hholds
    have hgoesOn : (∀ res, verdict qname depth tns lwr' st ≠ .answered res) →
        ∀ w, I ret w → I st.ret (env.observe (.reply auth lwr') w) :=
      fun hv w hI => h.goesOn hL hreap hI hv
    cases hv : verdict qname depth tns lwr' st with
    | answered res =>
      refine hstored F (fun w hI => h.settled hL hreap hI hv) (fun e => h.emit_end) fun w hF => ?_
      rwa [hv]
    | cname newtarget =>
      refine hstored I (hgoesOn (by simp [hv])) (fun e => h.emit) fun w hI => ?_
      rw [hv]
      exact ⟨verdict_cname hv, hI⟩
    | referral newauth nsset =>
      refine hstored I (hgoesOn (by simp [hv])) (fun e => h.emit) fun w hI => ?_
      rw [hv]
      exact ⟨verdict_closer hv, hI⟩
    | lame | nextServer =>
      refine hstored I (hgoesOn (by simp [hv])) (fun e => h.emit) fun w hI => ?_
      rwa [hv]

/-- One question keeps what holds, and what comes back is a reply that `L` holds of. -/
theorem askOnce {sendRDQuery doTCP : Bool} {remoteIP : ComboAddress}
    :
    Triple (I ret) NotLevel (askOnce env auth qname qtype tns sendRDQuery remoteIP doTCP)
      fun answer w => (∀ lwr, answer = some lwr → L lwr) ∧ I ret w := by
  refine .bind (h.emit (by simp) trivial) fun _ => ?_
  refine .call_bind (Q := fun r w => L r.2 ∧ I ret w) (fun w hI => (h.wire _ _ _ _ hI).symm) ?_
  rintro ⟨resolveret, lwr⟩
  have hnone : Triple (I ret) NotLevel (pure none : LogM W Event (Option LWResult))
      fun answer w => (∀ lwr, answer = some lwr → L lwr) ∧ I ret w :=
    .pure fun w hI => ⟨by simp, hI⟩
  dsimp only
  split
  · -- no reply: the server may be throttled
    refine .pre (P := I ret) ?_ fun w hw => hw.2
    split
    · split
      · exact .bind (h.emit (by simp) trivial) fun _ => hnone
      · exact .bind (h.emit (by simp) trivial) fun _ => hnone
    · exact hnone
  · exact .pure fun w hw => ⟨fun _ hsome => Option.some.inj hsome ▸ hw.1, hw.2⟩

theorem askIP {sendRDQuery doTCP : Bool} {remoteIP : ComboAddress}
    :
    Triple (I ret) NotLevel (askIP env auth qname qtype tns sendRDQuery remoteIP doTCP)
      fun out w => (∀ lwr doTCP, out = .answer lwr doTCP → L lwr) ∧ I ret w := by
  refine .bind h.askOnce fun answer => ?_
  cases answer with
  | none => exact .pure fun w hw => ⟨by simp, hw.2⟩
  | some lwr =>
    dsimp only
    split
    · exact .pure fun w hw => ⟨by simpa using hw.1, hw.2⟩
    split
    · exact .pure fun w hw => ⟨by simp, hw.2⟩
    -- truncated: once more over TCP
    refine .bind (h.askOnce.pre fun w hw => hw.2) fun answer => ?_
    cases answer with
    | none => exact .pure fun w hw => ⟨by simp, hw.2⟩
    | some lwr =>
      dsimp only
      split
      · exact .pure fun w hw => ⟨by simp, hw.2⟩
      · exact .pure fun w hw => ⟨by simpa using hw.1, hw.2⟩

theorem tryIPs {pierceDontQuery sendRDQuery : Bool}
    (ips : List ComboAddress) (doTCP : Bool) (ret : List TextRR) :
    Triple (I ret) NotLevel
      (tryIPs env cfg auth qname qtype depth tns pierceDontQuery sendRDQuery ips doTCP ret)
      (ServerOutcome.Holds qname depth auth I F) := by
  induction ips generalizing doTCP ret with
  | nil => exact .pure fun _ hI => hI
  | cons remoteIP ips ih =>
    refine .call_bind (Q := fun _ => I ret) (fun w hI => h.shouldThrottle _ hI) fun throttled => ?_
    split
    · exact ih doTCP ret
    split
    · exact ih doTCP ret
    refine .bind h.askIP fun out => ?_
    cases out with
    | failed doTCP => exact (ih doTCP ret).pre fun w hw => hw.2
    | truncatedOverTCP => exact .pure fun w hw => h.stop hw.2
    | answer lwr doTCP =>
      refine .given fun hL => ?_
      dsimp only
      split
      · exact .bind (h.emit (by simp) trivial) fun _ => .pure fun w hI => hI
      refine .bind (h.processReply (hL lwr doTCP rfl)) fun v => ?_
      obtain ⟨v, ret⟩ := v
      cases v with
      | answered res => exact .pure fun w hF => hF
      | cname newtarget => exact .pure fun w hw => hw
      | referral newauth nsset => exact .pure fun w hw => hw
      | nextServer => exact .pure fun w hI => hI
      | lame => exact .bind (h.emit (by simp) trivial) fun _ => ih doTCP ret

theorem serverIPs {tns : Octets} :
    Triple (I ret) NotLevel (serverIPs env cfg tns depth) fun _ => I ret := by
  unfold PowerDNS.serverIPs
  split
  · exact .pure fun w hI => hI
  · exact .call fun w hI => h.getAs tns hI

theorem tryServers {auth : Octets} (servers : List Octets) (flawedNSSet : Bool)
    (ret : List TextRR) :
    Triple (I ret) NotLevel (tryServers env cfg auth qname qtype depth servers flawedNSSet ret)
      fun r => ServerOutcome.Holds qname depth auth I F (r.1, r.2.2) := by
  induction servers generalizing flawedNSSet ret with
  | nil => exact .pure fun _ hI => hI
  | cons tns rest ih =>
    rw [PowerDNS.tryServers]
    split
    · exact ih flawedNSSet ret
    split
    · -- an out-of-band zone is processed like a reply
      refine .call_bind
        (Q := fun lwr w => L { lwr with d_tcbit := false, d_aabit := true } ∧ I ret w)
        (fun w hI => (h.outOfBand hI).symm) fun lwr => .given fun hL => ?_
      refine .bind (h.processReply hL) fun v => ?_
      obtain ⟨v, ret⟩ := v
      cases v with
      | answered res => exact .pure fun w hF => hF
      | cname newtarget => exact .pure fun w hw => hw
      | referral newauth nsset => exact .pure fun w hw => hw
      | nextServer => exact ih flawedNSSet ret
      | lame => exact ih flawedNSSet ret
    · refine .bind h.serverIPs fun remoteIPs => ?_
      split
      · exact ih true ret
      refine .bind (h.tryIPs _ _ _) fun out => ?_
      obtain ⟨out, ret⟩ := out
      cases out with
      | nextServer => exact ih flawedNSSet ret
      | done res => exact .pure fun w hF => hF
      | cname newtarget => exact .pure fun w hw => hw
      | referral newauth nsset => exact .pure fun w hw => hw

/-- **The rule for `doResolveAt`.** With as much fuel as the name has dots, the run ends by itself,
and `F` holds of what it returns. -/
theorem doResolveAt {fuel : Nat} {nameservers : List Octets} {auth : Octets} {flawedNSSet : Bool}
    (hfuel : 0 < fuel ∧ qname.count dot + 2 ≤ fuel + specificity auth) :
    Triple (I ret) (fun _ => True)
      (doResolveAt env cfg qname qtype depth fuel nameservers auth flawedNSSet ret)
      fun r w => r.1.isSome ∧ F r.2 w := by
  induction fuel generalizing nameservers auth flawedNSSet ret with
  | zero => exact absurd hfuel.1 (Nat.lt_irrefl 0)
  | succ fuel ih =>
    refine .bind (Q := fun _ => I ret) ?_ fun _ => ?_
    · exact .call_bind (Q := fun _ => I ret) (fun w hI => h.observe (by simp) hI)
        fun _ => .tell trivial
    refine .call_bind (Q := fun _ => I ret) (fun w hI => h.shuffle _ hI) fun rnameservers => ?_
    refine .bind ((h.tryServers _ _ _).weaken fun _ _ => trivial) fun out => ?_
    obtain ⟨out, flawedNSSet, ret⟩ := out
    cases out with
    | done res => exact .pure fun w hF => ⟨rfl, hF⟩
    | cname newtarget =>
      refine .given fun hdepth => .call_bind (Q := fun r => F r.2)
        (fun w hI => h.follow newtarget hdepth hI) fun r => ?_
      exact .pure fun w hF => ⟨rfl, hF⟩
    | referral newauth nsset =>
      refine .given fun hcloser => ih ?_
      have hmore := moreSpecificThan_iff.mp hcloser.1
      have hbound := specificity_le_of_dottedEndsOn hcloser.2
      omega
    | nextServer =>
      dsimp only
      split
      · refine .bind (Q := fun _ => F ret) ?_ fun _ => .pure fun w hF => ⟨rfl, hF⟩
        exact .call_bind (fun w hI => h.observe_end (by simp) (h.stop hI)) fun _ => .tell trivial
      · exact .pure fun w hI => ⟨rfl, h.stop hI⟩

end Carries

/-! ### The zones of a run -/

/-- The `auth` of every round of `for(;;)`. -/
def authLevels (log : List Event) : List Octets :=
  log.filterMap fun e =>
    match e with
    | .level auth => some auth
    | _ => none

theorem authLevels_of_notLevel {log : List Event} (h : ∀ e ∈ log, NotLevel e) :
    authLevels log = [] := by
  unfold authLevels
  rw [filterMap_eq_nil_iff]
  intro e he
  cases e with
  | level auth => exact absurd (h _ he) id
  | _ => rfl

/-- Every run carries along nothing. -/
theorem carries_true : Carries env cfg qname qtype depth (fun _ _ => True) (fun _ _ => True)
    fun _ => True := by
  constructor <;> simp

/-- **Every referral leads closer.** In every run each `auth` is strictly more specific than the
one before it, and the name ends on it. -/
theorem doResolveAt_closer (fuel : Nat) (nameservers : List Octets) (auth : Octets)
    (flawedNSSet : Bool) (ret : List TextRR) (w : W) :
    let levels := authLevels ((doResolveAt env cfg qname qtype depth fuel nameservers auth
      flawedNSSet ret).log w)
    (∀ first ∈ levels.head?, first = auth) ∧ levels.IsChain (Closer qname) := by
  induction fuel generalizing nameservers auth flawedNSSet ret w with
  | zero => exact ⟨by simp [doResolveAt, authLevels], by simp [doResolveAt, authLevels]⟩
  | succ fuel ih =>
    rw [doResolveAt, LogM.log_bind, LogM.log_bind, LogM.log_bind]
    have hemit : ∀ (e : Event) (w : W), (emit env e).log w = [e] := fun _ _ => rfl
    simp only [hemit, LogM.log_call, nil_append, singleton_append]
    -- the servers of this round, and the world they are asked in
    generalize LogM.value (LogM.call _) _ = rnameservers
    generalize LogM.final (LogM.call _) _ = w₁
    obtain ⟨hlog, hout⟩ : (∀ e ∈ (tryServers env cfg auth qname qtype depth rnameservers
        flawedNSSet ret).log w₁, NotLevel e) ∧ _ := carries_true.tryServers _ _ _ w₁ trivial
    -- nothing in between says at which `auth` the run is
    have hcons : ∀ rest, authLevels (.level auth :: ((tryServers env cfg auth qname qtype depth
        rnameservers flawedNSSet ret).log w₁ ++ rest)) = auth :: authLevels rest := by
      intro rest
      have hnone := authLevels_of_notLevel hlog
      simp only [authLevels, filterMap_cons, filterMap_append] at hnone ⊢
      rw [hnone, nil_append]
    rw [hcons]
    refine ⟨by simp, isChain_cons.mpr ?_⟩
    revert hout
    generalize LogM.final (tryServers _ _ _ _ _ _ _ _ _) w₁ = w₂
    generalize LogM.value (tryServers _ _ _ _ _ _ _ _ _) w₁ = out
    intro hout
    obtain ⟨out, flawedNSSet, ret⟩ := out
    cases out with
    | done res => simp [authLevels]
    | cname newtarget => simp [authLevels, LogM.log_bind]
    | nextServer =>
      dsimp only
      split
      · simp [authLevels, LogM.log_bind, hemit]
      · simp [authLevels]
    | referral newauth nsset =>
      obtain ⟨hfirst, hchain⟩ := ih nsset newauth flawedNSSet ret w₂
      exact ⟨fun y hy => hfirst y hy ▸ hout.1, hchain⟩

end Rule

end PowerDNS
