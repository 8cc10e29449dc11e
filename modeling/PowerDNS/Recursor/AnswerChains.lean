import PowerDNS.Recursor.ResolutionRules

/-!
# The chain of CNAMEs in front of an answer

When `doResolve` follows a CNAME it calls itself with the chain so far in `ret`, and the answer is
to come behind it. `doResolveAt` and the caches only append. What does not is the branch for
questions without the RD bit whose name is in a zone served here: it empties `ret` before
`doOOBResolve` fills it. The call for the target of a cached CNAME gets there like any other, and
the client receives the records of the target without the CNAMEs that led to it
(`chain_lost`). `doResolve_keeps_iff` says that nothing else is lost.
-/

namespace PowerDNS

open GuardedRun LoggedRun SyncM List

namespace SyncRes

variable {W : Type} {R : SyncRes W}

/-! ### Asking servers only appends -/

/-- `ret` begins with these records. -/
def Extends (before : List TextRR) : Pred := fun ret _ _ => before <+: ret

theorem classify_extends {cfg : ResolverConfig} {qname : Octets} {qtype : UInt16} {auth : Octets}
    {lwr : LWResult} (st : ReplyState) (i : TextRR) :
    st.ret <+: (classify cfg qname qtype auth lwr st i).ret := by
  unfold classify
  split
  · exact prefix_append _ _
  split
  · exact prefix_append _ _
  split
  · exact prefix_append _ _
  split
  · split <;> exact prefix_rfl
  split
  · split
    · exact prefix_rfl
    · exact prefix_append _ _
  · exact prefix_rfl

theorem prefix_afterReply {cfg : ResolverConfig} {qname : Octets} {qtype : UInt16} {auth : Octets}
    {lwr : LWResult} (ret : List TextRR) :
    ret <+: (afterReply cfg qname qtype auth lwr ret).ret :=
  run_invariant (I := fun st : ReplyState => ret <+: st.ret)
    (fun st i hst _ => hst.trans (classify_extends st i)) prefix_rfl (guarded_true _ _)

theorem extends_fromCache (before : List TextRR) : FromCache (Extends before) (Extends before) where
  hit _ hI _ := hI.trans (prefix_append _ _)
  stale _ hI _ := hI.trans (prefix_append _ _)

theorem doCacheCheck_extends (qname : Octets) (qtype : UInt16) (ret : List TextRR)
    (s : SyncState W) : ret <+: ((R.doCacheCheck qname qtype ret).value s).2 := by
  have hfound := ((extends_fromCache ret).doCacheCheck (R := R) qname qtype ret s
    prefix_rfl).2
  revert hfound
  generalize LogM.value (R.doCacheCheck qname qtype ret) s = r
  obtain ⟨res, ret'⟩ := r
  cases res with
  | some res => exact id
  | none => exact And.right

/-- When recursion is desired, nothing is taken out of `ret`. -/
theorem doResolve_extends (hrecurse : R.d_cacheonly = false) (before : List TextRR) (levels : Nat)
    (qname : Octets) (qtype : UInt16) (ret : List TextRR) (depth : Nat) :
    Triple ((Extends before).on ret) (fun _ => True) (R.doResolve levels qname qtype ret depth)
      fun r => (Extends before).on r.2 := by
  induction levels generalizing qname qtype ret depth with
  | zero => exact .bind (.call fun s hI => hI) fun _ => .pure fun s hI => hI
  | succ levels ih =>
    refine doResolve_step ?_ (fun _ => ?_) ret
    · exact
        { extends_fromCache before with
          stop := id
          served := fun h => absurd h (by simp [hrecurse])
          forwarded := fun _ h => absurd h (by simp [hrecurse])
          cname := fun _ hI => hI.trans (prefix_append _ _)
          follow := fun newtarget _ => ih newtarget qtype _ _ }
    · exact
        { stop := id
          getAs := fun _ hI => hI
          settled := fun _ _ hI _ => hI.trans (prefix_afterReply _)
          goesOn := fun _ _ hI _ => hI.trans (prefix_afterReply _)
          follow := fun newtarget _ => ih newtarget qtype _ _ }

/-! ### Without recursion -/

/-- The state once the cache has been asked for a CNAME. -/
def afterLookup (R : SyncRes W) (qname : Octets) (s : SyncState W) : SyncState W :=
  { s with world := (R.get qname QType.CNAME s.world).1 }

/-- The CNAME that the cache has for a name. -/
def cachedCNAME (R : SyncRes W) (qname : Octets) (w : W) : Option TextRR :=
  let r := R.get qname QType.CNAME w
  freshCNAME (R.now r.1) r.2.1 r.2.2

/-- The chain of cached CNAMEs from `qname` on, as far as it is followed, ends at a name in a zone
that is served here. -/
def leadsToServedZone (R : SyncRes W) : Nat → Octets → UInt16 → Nat → W → Bool
  | 0, _, _, _, _ => false
  | levels + 1, qname, qtype, depth, w =>
    if R.skipsCaches qname qtype then false
    else
      match R.getBestAuthZone qname with
      | some (_, iter) => iter.2.d_servers.isEmpty
      | none =>
        if depth > 10 then false
        else
          match R.cachedCNAME qname w with
          | none => false
          | some j => qtype ≠ QType.CNAME &&
              leadsToServedZone R levels j.content qtype (depth + 1) (R.get qname QType.CNAME w).1

/-- What `doResolve` makes of `doCNAMECacheCheck`. -/
def afterCNAMECheck (R : SyncRes W) (qname : Octets) (qtype : UInt16) :
    Option Int × List TextRR → SyncM W (Option Int × List TextRR)
  | (some res, ret) => return (some res, ret)
  | (none, ret) => R.doCacheCheck qname qtype ret

/-- What `doCNAMECacheCheck` comes to while the depth is not exceeded. -/
theorem doCNAMECacheCheck_eq {doResolve : ResolveFn W} {qname : Octets} {qtype : UInt16}
    {ret : List TextRR} {depth : Nat} (hdepth : ¬ depth > 10) (s : SyncState W) :
    R.doCNAMECacheCheck doResolve qname qtype ret depth s =
      (match R.cachedCNAME qname s.world with
      | none => pure (none, ret)
      | some j => do
        let ret := ret ++ [{ j with ttl := j.ttl - R.now (R.afterLookup qname s).world }]
        if qtype ≠ QType.CNAME then
          let (res, ret) ← withBeenthere (doResolve j.content qtype ret (depth + 1))
          return (some res, ret)
        else return (some 0, ret)) (R.afterLookup qname s) := by
  rw [doCNAMECacheCheck, if_neg hdepth]
  rfl

/-- What one call does when recursion is not desired: hand out the records of a zone served here,
whatever was in `ret`; append to `ret`; or push a CNAME and follow it. -/
theorem cacheonly_cases (hcacheonly : R.d_cacheonly = true) (levels : Nat) (qname : Octets)
    (qtype : UInt16) (depth : Nat) (s : SyncState W) :
    (R.leadsToServedZone (levels + 1) qname qtype depth s.world = true ∧
      ∀ ret, ((R.doResolve (levels + 1) qname qtype ret depth).value s).2 =
        (R.doOOBResolve qname qtype [] 0).1) ∨
    (R.leadsToServedZone (levels + 1) qname qtype depth s.world = false ∧
      ∀ ret, ret <+: ((R.doResolve (levels + 1) qname qtype ret depth).value s).2) ∨
    ∃ target j s', R.leadsToServedZone (levels + 1) qname qtype depth s.world =
        R.leadsToServedZone levels target qtype (depth + 1) s'.world ∧
      ∀ ret, ((R.doResolve (levels + 1) qname qtype ret depth).value s).2 =
        ((R.doResolve levels target qtype (ret ++ [j]) (depth + 1)).value s').2 := by
  -- a call that finds nothing returns what it has
  have hfound : ∀ ret, ((R.doResolve (levels + 1) qname qtype ret depth).value s).2 =
      ((R.consultCaches (R.doResolve levels) qname qtype ret depth).value s).2 := by
    intro ret
    rw [SyncRes.doResolve, LogM.value_bind]
    cases hr : (R.consultCaches (R.doResolve levels) qname qtype ret depth).value s with
    | mk res ret' =>
      cases res with
      | some res => rfl
      | none => simp [hcacheonly]
  simp only [hfound]
  by_cases hskip : R.skipsCaches qname qtype = true
  · refine .inr (.inl ⟨by simp [leadsToServedZone, hskip], fun ret => ?_⟩)
    simp [consultCaches, hskip]
  cases hzone : R.getBestAuthZone qname with
  | some found =>
    obtain ⟨authdomain, iter⟩ := found
    cases hservers : iter.2.d_servers with
    | nil =>
      refine .inl ⟨by simp [leadsToServedZone, hskip, hzone, hservers], fun ret => ?_⟩
      have hpeek : R.peekAuthZones qname qtype ret =
          pure (some (R.doOOBResolve qname qtype [] 0).2, (R.doOOBResolve qname qtype [] 0).1) := by
        simp [peekAuthZones, hcacheonly, hzone, hservers]
      rw [consultCaches, if_neg hskip, LogM.value_bind, hpeek]
      rfl
    | cons remoteIP servers =>
      refine .inr (.inl ⟨by simp [leadsToServedZone, hskip, hzone, hservers], fun ret => ?_⟩)
      have hpeek : R.peekAuthZones qname qtype ret = (do
          let answer ← onWorld (R.asyncresolveWrapper remoteIP qname qtype false false)
          return (some answer.1,
            ret ++ answer.2.d_result.filter fun i => i.d_place = .ANSWER)) := by
        simp [peekAuthZones, hcacheonly, hzone, hservers]
      rw [consultCaches, if_neg hskip, LogM.value_bind, hpeek]
      exact prefix_append _ _
  | none =>
    have hpeek : ∀ ret, R.peekAuthZones qname qtype ret = pure (none, ret) := by
      intro ret
      simp [peekAuthZones, hzone]
    by_cases hdepth : depth > 10
    · refine .inr (.inl ⟨by simp [leadsToServedZone, hskip, hzone, hdepth], fun ret => ?_⟩)
      rw [consultCaches, if_neg hskip, LogM.value_bind, hpeek]
      simp [LogM.value_bind, doCNAMECacheCheck, hdepth]
    have hconsult : ∀ ret, R.consultCaches (R.doResolve levels) qname qtype ret depth =
        R.doCNAMECacheCheck (R.doResolve levels) qname qtype ret depth >>=
          R.afterCNAMECheck qname qtype := by
      intro ret
      rw [consultCaches, if_neg hskip, hpeek]
      rfl
    have hleads : R.leadsToServedZone (levels + 1) qname qtype depth s.world =
        match R.cachedCNAME qname s.world with
        | none => false
        | some j => qtype ≠ QType.CNAME && R.leadsToServedZone levels j.content qtype (depth + 1)
            (R.afterLookup qname s).world := by
      simp only [leadsToServedZone, hskip, hzone, hdepth, if_false, Bool.false_eq_true]
      rfl
    rw [hleads]
    -- what comes after the look for a CNAME
    have hrun : ∀ ret, R.consultCaches (R.doResolve levels) qname qtype ret depth s = _ :=
      fun ret => (congrFun (hconsult ret) s).trans (LogM.bind_congr (doCNAMECacheCheck_eq hdepth s))
    simp only [LogM.value, hrun]
    cases hcached : R.cachedCNAME qname s.world with
    | none =>
      refine .inr (.inl ⟨rfl, fun ret => ?_⟩)
      exact doCacheCheck_extends qname qtype ret (R.afterLookup qname s)
    | some j =>
      by_cases hcname : qtype = QType.CNAME
      · refine .inr (.inl ⟨by simp [hcname], fun ret => ?_⟩)
        simp only [hcname, ne_eq, not_true, if_false]
        exact prefix_append _ _
      · refine .inr (.inr ⟨j.content,
          { j with ttl := j.ttl - R.now (R.afterLookup qname s).world },
          { R.afterLookup qname s with beenthere := [] }, by simp [hcname], fun ret => ?_⟩)
        simp only [hcname, ne_eq, not_false_eq_true, if_true]
        rfl

/-! ### What is kept -/

theorem keeps_of_not_leads (hcacheonly : R.d_cacheonly = true) (levels : Nat) (qname : Octets)
    (qtype : UInt16) (depth : Nat) (s : SyncState W)
    (h : R.leadsToServedZone levels qname qtype depth s.world = false) (ret : List TextRR) :
    ret <+: ((R.doResolve levels qname qtype ret depth).value s).2 := by
  induction levels generalizing qname depth s ret with
  | zero => exact prefix_rfl
  | succ levels ih =>
    rcases cacheonly_cases hcacheonly levels qname qtype depth s with
      ⟨hleads, -⟩ | ⟨-, hkeeps⟩ | ⟨target, j, s', hleads, hvalue⟩
    · rw [h] at hleads
      cases hleads
    · exact hkeeps ret
    · rw [hvalue]
      exact (prefix_append ret [j]).trans (ih target (depth + 1) s' (hleads ▸ h) _)

/-- What was in `ret` makes no difference once the chain has led to a zone served here. -/
theorem forgets_of_leads (hcacheonly : R.d_cacheonly = true) (levels : Nat) (qname : Octets)
    (qtype : UInt16) (depth : Nat) (s : SyncState W)
    (h : R.leadsToServedZone levels qname qtype depth s.world = true) :
    ∃ answer, ∀ ret, ((R.doResolve levels qname qtype ret depth).value s).2 = answer := by
  induction levels generalizing qname depth s with
  | zero => cases h
  | succ levels ih =>
    rcases cacheonly_cases hcacheonly levels qname qtype depth s with
      ⟨-, hvalue⟩ | ⟨hleads, -⟩ | ⟨target, j, s', hleads, hvalue⟩
    · exact ⟨_, hvalue⟩
    · rw [h] at hleads
      cases hleads
    · obtain ⟨answer, hanswer⟩ := ih target (depth + 1) s' (hleads ▸ h)
      exact ⟨answer, fun ret => (hvalue ret).trans (hanswer _)⟩

/-- **What a call keeps.** A call of `doResolve` leaves the records that were in `ret` at the
front of the result unless recursion is not desired, and the cached CNAMEs from the name on lead
to a name in a zone that is served here. -/
theorem doResolve_keeps_iff (R : SyncRes W) (levels : Nat) (qname : Octets) (qtype : UInt16)
    (depth : Nat) (s : SyncState W) :
    (∀ ret, ret <+: ((R.doResolve levels qname qtype ret depth).value s).2) ↔
      ¬ (R.d_cacheonly = true ∧ R.leadsToServedZone levels qname qtype depth s.world = true) := by
  constructor
  · rintro hkeeps ⟨hcacheonly, hleads⟩
    obtain ⟨answer, hanswer⟩ := forgets_of_leads hcacheonly levels qname qtype depth s hleads
    -- a longer list is not at its front
    have hlong := (hkeeps (answer ++ ownAnswer qname qtype 1 [])).length_le
    rw [hanswer, length_append, ownAnswer, length_singleton] at hlong
    omega
  · intro hcond ret
    cases hcacheonly : R.d_cacheonly with
    | false =>
      exact (doResolve_extends hcacheonly ret levels qname qtype ret depth s prefix_rfl).2
    | true =>
      have hleads : R.leadsToServedZone levels qname qtype depth s.world = false := by
        simpa [hcacheonly] using hcond
      exact keeps_of_not_leads hcacheonly levels qname qtype depth s hleads ret

/-! ### A chain that is lost -/

/-- A resolver that serves the zone `local`, and that has cached that `www.example.com` is
`host.local`. It is asked by a client that does not desire recursion. -/
def localResolver : SyncRes Unit where
  settings := defaultConfig
  d_cacheonly := true
  d_nocache := false
  s_doIPv6 := false
  l_doIPv6AP := false
  versionString := []
  s_serverID := []
  domainmap := [(ascii "local.",
    { d_servers := []
      d_rdForward := false
      d_records := [replyRR "host.local." QType.A "192.0.2.1" .ANSWER]
      places := by decide })]
  toStringWithPort _ := []
  comboAddress content := ⟨content, 53⟩
  now _ := 0
  get qname qtype w :=
    if qname = ascii "www.example.com." ∧ qtype = QType.CNAME then
      (w, 60, [⟨replyRR "www.example.com." QType.CNAME "host.local." .ANSWER, rfl⟩])
    else (w, -1, [])
  negcache _ _ := []
  moveCacheItemToFront _ w := w
  moveCacheItemToBack _ w := w
  primeHints w := w
  shuffleInSpeedOrder nameservers w := (w, nameservers)
  shuffleAddresses _ addresses w := (w, addresses)
  shouldThrottle _ _ _ w := (w, false)
  asyncresolveWrapper _ _ _ _ _ w := (w, 0, ⟨reply RCode.ServFail [], .nil⟩)
  observe _ w := w

/-- **A chain that is lost.** The call for `host.local` is made with the CNAME in `ret`, and
returns without it; the client gets an address of a name it did not ask for. -/
theorem chain_lost :
    ¬ ([replyRR "www.example.com." QType.CNAME "host.local." .ANSWER] <+:
        ((localResolver.doResolve 12 (ascii "host.local.") QType.A
          [replyRR "www.example.com." QType.CNAME "host.local." .ANSWER] 1).value ⟨(), [], [], true⟩).2) ∧
      ((localResolver.beginResolve 13 (ascii "www.example.com.") QType.A 1 []).value
        ⟨(), [], [], true⟩) = (0, [replyRR "host.local." QType.A "192.0.2.1" .ANSWER]) := by
  decide

end SyncRes

end PowerDNS
