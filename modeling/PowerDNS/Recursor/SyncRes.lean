import PowerDNS.Base.Record
import PowerDNS.Lib.GuardedRun
import PowerDNS.Lib.LoggedRun
import PowerDNS.Names.Text

/-!
# The iterative resolver: `SyncRes::doResolveAt`

`doResolveAt` asks the servers of one zone for a question, follows referrals to the
servers of more specific zones, and stores what it may of every reply. Everything it talks
to (the wire, the throttle, the order of the servers, the resolution of server names and of
CNAME targets, which are runs of their own) is an environment `Resolver W` whose answers
are arbitrary, so that statements about a run hold against servers that answer anything,
and differently every time. What a run does to the caches is in its log (`Event`).

The loops follow the source: `doResolveAt` is `for(;;)` over referrals, `tryServers` the
loop over the name servers, `tryIPs` the loop over the addresses of one server (into which
`goto wasLame` jumps back), `askIP` the part from `TryTCP:` to the truncation check,
`processReply` the rest of the body.
-/

namespace PowerDNS

open GuardedRun LoggedRun

/-- `ComboAddress`. -/
structure ComboAddress where
  addr : Octets
  port : UInt16
  deriving DecidableEq

/-- `LWResult`: a parsed reply. -/
structure LWResult where
  d_rcode : Nat
  d_aabit : Bool
  d_tcbit : Bool
  d_result : List TextRR
  deriving DecidableEq

/-- `NegCacheEntry`. Type 0 stands for the whole name. -/
structure NegCacheEntry where
  d_name : Octets
  d_qtype : UInt16
  d_qname : Octets
  d_ttd : UInt32
  deriving DecidableEq

/-- What a run of `doResolveAt` does, each with the `auth` of that moment. -/
inductive Event
  /-- The top of `for(;;)`. -/
  | level (auth : Octets)
  /-- A question goes out to a server. -/
  | query (auth tns : Octets) (remoteIP : ComboAddress) (doTCP : Bool)
  /-- A reply is looked at; its TTLs are already capped. -/
  | reply (auth : Octets) (lwr : LWResult)
  /-- `t_RC->replace`. -/
  | replace (auth qname : Octets) (qtype : UInt16) (content : List TextRR) (aabit : Bool)
  /-- `replacing_insert` into the negative cache. -/
  | negcache (auth : Octets) (ne : NegCacheEntry)
  /-- `t_sstorage->throttle.throttle`. -/
  | throttle (remoteIP : ComboAddress) (ttl tries : Nat)
  /-- `t_RC->doAgeCache` on the NS set of `auth`. -/
  | ageCache (auth : Octets)

/-- The settings and the clock `doResolveAt` reads. -/
structure ResolverConfig where
  s_maxcachettl : UInt32
  s_maxnegttl : UInt32
  /-- `d_now.tv_sec`. -/
  now : UInt32
  /-- `::arg().contains("delegation-only", auth)`. -/
  delegationOnly : Octets → Bool
  /-- `g_dontQuery->match`. -/
  dontQuery : ComboAddress → Bool
  /-- `parseIPAndPort(txtAddr, 53)`. -/
  parseIPAndPort : Octets → ComboAddress

/-- What `doResolveAt` calls, as steps of a world `W`. -/
structure Resolver (W : Type) where
  /-- `shuffleInSpeedOrder`. -/
  shuffleInSpeedOrder : List Octets → W → W × List Octets
  /-- `getAs(tns, depth)`. -/
  getAs : Octets → Nat → W → W × List ComboAddress
  /-- `doOOBResolve`. -/
  doOOBResolve : Octets → UInt16 → W → W × LWResult
  /-- `throttle.shouldThrottle`. -/
  shouldThrottle : ComboAddress → Octets → UInt16 → W → W × Bool
  /-- `asyncresolveWrapper(remoteIP, qname, qtype, doTCP, sendRDQuery)`: the return code
  and the reply. -/
  asyncresolveWrapper : ComboAddress → Octets → UInt16 → Bool → Bool → W → W × (Int × LWResult)
  /-- `doResolve(newtarget, qtype, ret, depth)` at the end of a CNAME. -/
  doResolve : Octets → UInt16 → List TextRR → Nat → W → W × (Int × List TextRR)
  /-- The world takes note of an effect. -/
  observe : Event → W → W

/-! ### Reaping the records of a reply -/

/-- `TCacheComp`. -/
def tcacheComp (a b : Octets × UInt16) : Bool :=
  if pdnsIlexicographicalCompare a.1 b.1 then true
  else if pdnsIlexicographicalCompare b.1 a.1 then false
  else decide (a.2 < b.2)

/-- `tcache_t`: the acceptable records of a reply, by owner and type. -/
abbrev TCache := List ((Octets × UInt16) × List TextRR)

/-- `tcache[key].insert(rr)`. -/
def tcacheInsert (key : Octets × UInt16) (rr : TextRR) : TCache → TCache
  | [] => [(key, [rr])]
  | g :: gs =>
    if tcacheComp key g.1 then (key, [rr]) :: g :: gs
    else if tcacheComp g.1 key then g :: tcacheInsert key rr gs
    else (g.1, setInsert rrLess rr g.2) :: gs

/-- `i->ttl=min(s_maxcachettl, i->ttl)`. -/
def capTTL (cfg : ResolverConfig) (i : TextRR) : TextRR :=
  { i with ttl := min cfg.s_maxcachettl i.ttl }

/-- The form in which an accepted record goes into the cache: an ANSWER with an absolute
expiry, the content of NS records in lower case. -/
def cacheForm (cfg : ResolverConfig) (i : TextRR) : TextRR :=
  { i with
    d_place := .ANSWER
    ttl := i.ttl + cfg.now
    content := if i.qtype = QType.NS then toLower i.content else i.content }

/-- "reap all answers from this packet that are acceptable": collects the records at or
below `auth` and caps their TTL in place. An authoritative answer from a delegation-only
zone ends the whole resolution with NXDOMAIN (`.error`). -/
def reap (cfg : ResolverConfig) (auth : Octets) (lwr : LWResult) :
    List TextRR → TCache → Except Nat (List TextRR × TCache)
  | [], tcache => .ok ([], tcache)
  | i :: is, tcache =>
    if i.qtype = QType.OPT || i.qtype = QType.ANY || !dottedEndsOn i.qname auth then do
      let (is', tcache') ← reap cfg auth lwr is tcache
      return (i :: is', tcache')
    else if lwr.d_aabit && lwr.d_rcode == RCode.NoError && i.d_place == .ANSWER &&
        cfg.delegationOnly auth then
      .error RCode.NXDomain
    else do
      let (is', tcache') ← reap cfg auth lwr is
        (tcacheInsert (i.qname, i.qtype) (cacheForm cfg (capTTL cfg i)) tcache)
      return (capTTL cfg i :: is', tcache')

/-- The TTL of a record set becomes the lowest of its records (RFC 2181, 5.2). -/
def groupTTL (rrs : List TextRR) : List TextRR :=
  if rrs.length > 1 then
    let lowestTTL := rrs.foldl (fun t rr => min t rr.ttl) 0xffffffff
    rrs.map fun rr => { rr with ttl := lowestTTL }
  else rrs

/-! ### Determining the status of a reply -/

/-- The variables of the loop that classifies the records of a reply. -/
structure ReplyState where
  ret : List TextRR
  done : Bool := false
  realreferral : Bool := false
  negindic : Bool := false
  newauth : Octets := []
  newtarget : Octets := []
  nsset : List Octets := []
  /-- The entries put into the negative cache so far. -/
  neg : List NegCacheEntry := []

/-- `magicAddrMatch`. -/
def magicAddrMatch (query answer : UInt16) : Bool :=
  query == QType.ADDR && (answer == QType.A || answer == QType.AAAA)

/-- One turn of the loop that determines the status of a reply. -/
def classify (cfg : ResolverConfig) (qname : Octets) (qtype : UInt16) (auth : Octets)
    (lwr : LWResult) (st : ReplyState) (i : TextRR) : ReplyState :=
  if i.d_place = .AUTHORITY ∧ dottedEndsOn qname i.qname ∧ i.qtype = QType.SOA ∧
      lwr.d_rcode = RCode.NXDomain then
    let i := { i with ttl := min i.ttl cfg.s_maxnegttl }
    let ne : NegCacheEntry :=
      { d_qname := i.qname, d_ttd := cfg.now + i.ttl, d_name := qname, d_qtype := 0 }
    { st with ret := st.ret ++ [i], negindic := true, neg := st.neg ++ [ne] }
  else if i.d_place = .ANSWER ∧ pdnsIequals i.qname qname ∧ i.qtype = QType.CNAME ∧
      qtype ≠ QType.CNAME then
    { st with ret := st.ret ++ [i], newtarget := i.content }
  -- for ANY answers we *must* have an authoritative answer
  else if i.d_place = .ANSWER ∧ pdnsIequals i.qname qname ∧
      (i.qtype = qtype ∨ (lwr.d_aabit ∧ (qtype = QType.ANY ∨ magicAddrMatch qtype i.qtype))) then
    { st with ret := st.ret ++ [i], done := true }
  else if i.d_place = .AUTHORITY ∧ dottedEndsOn qname i.qname ∧ i.qtype = QType.NS then
    let st := if moreSpecificThan i.qname auth then
      { st with newauth := i.qname, realreferral := true } else st
    { st with nsset := setInsert pdnsIlexicographicalCompare i.content st.nsset }
  else if ¬ st.done ∧ i.d_place = .AUTHORITY ∧ dottedEndsOn qname i.qname ∧
      i.qtype = QType.SOA ∧ lwr.d_rcode = RCode.NoError then
    if st.newtarget ≠ [] then st
    else
      let i := { i with ttl := min cfg.s_maxnegttl i.ttl }
      let ne : NegCacheEntry :=
        { d_qname := i.qname, d_ttd := cfg.now + i.ttl, d_name := qname, d_qtype := qtype }
      { st with
        ret := st.ret ++ [i]
        neg := if qtype ≠ 0 then st.neg ++ [ne] else st.neg
        negindic := true }
  else st

/-- How the body of the server loop ends once a reply has been classified. -/
inductive Verdict
  | answered (res : Int)
  | cname (newtarget : Octets)
  | referral (newauth : Octets) (nsset : List Octets)
  | lame
  | nextServer

/-- The decisions after the classifying loop. -/
def verdict (qname : Octets) (depth : Nat) (tns : Octets) (lwr : LWResult)
    (st : ReplyState) : Verdict :=
  if st.done then .answered 0
  else if lwr.d_rcode = RCode.NXDomain then .answered RCode.NXDomain
  else if st.newtarget ≠ [] then
    if pdnsIequals st.newtarget qname then .answered RCode.ServFail
    else if depth > 10 then .answered RCode.ServFail
    else .cname st.newtarget
  else if st.nsset = [] ∧ lwr.d_rcode = 0 then .answered 0
  else if st.realreferral then .referral st.newauth st.nsset
  else if isCanonical tns then .lame
  else .nextServer

/-! ### The loops -/

section Loops

variable {W : Type} (env : Resolver W) (cfg : ResolverConfig)

/-- An effect: the world takes note of it and it goes into the log. -/
def emit (e : Event) : LogM W Event Unit := do
  LogM.call fun w => (env.observe e w, ())
  LogM.tell e

/-- From "reap all answers" to the decisions. -/
def processReply (auth qname : Octets) (qtype : UInt16) (depth : Nat) (tns : Octets)
    (lwr : LWResult) (ret : List TextRR) : LogM W Event (Verdict × List TextRR) :=
  match reap cfg auth lwr lwr.d_result [] with
  | .error res => pure (.answered res, ret)
  | .ok (result, tcache) => do
    let lwr := { lwr with d_result := result }
    emit env (.reply auth lwr)
    tcache.forM fun g => emit env (.replace auth g.1.1 g.1.2 (groupTTL g.2) lwr.d_aabit)
    let st := run (classify cfg qname qtype auth lwr) { ret := ret } result
    st.neg.forM fun ne => emit env (.negcache auth ne)
    pure (verdict qname depth tns lwr st, st.ret)

/-- How asking one address ended; `doTCP` keeps its value for the next address. -/
inductive AskOutcome
  | failed (doTCP : Bool)
  | truncatedOverTCP
  | answer (lwr : LWResult) (doTCP : Bool)

/-- One `asyncresolveWrapper` call, with the throttling of a server that does not
answer. -/
def askOnce (auth qname : Octets) (qtype : UInt16) (tns : Octets) (sendRDQuery : Bool)
    (remoteIP : ComboAddress) (doTCP : Bool) : LogM W Event (Option LWResult) := do
  emit env (.query auth tns remoteIP doTCP)
  let (resolveret, lwr) ← LogM.call (env.asyncresolveWrapper remoteIP qname
    (if qtype = QType.ADDR then QType.ANY else qtype) doTCP sendRDQuery)
  if resolveret ≠ 1 then
    if resolveret ≠ -2 then
      if resolveret = -1 then emit env (.throttle remoteIP 60 100)
      else emit env (.throttle remoteIP 20 5)
    return none
  else return some lwr

/-- From `TryTCP:` to the truncation check: a truncated reply is asked for again over TCP,
once. -/
def askIP (auth qname : Octets) (qtype : UInt16) (tns : Octets) (sendRDQuery : Bool)
    (remoteIP : ComboAddress) (doTCP : Bool) : LogM W Event AskOutcome := do
  match ← askOnce env auth qname qtype tns sendRDQuery remoteIP doTCP with
  | none => return .failed doTCP
  | some lwr =>
    if !lwr.d_tcbit then return .answer lwr doTCP
    else if doTCP then return .truncatedOverTCP
    else
      match ← askOnce env auth qname qtype tns sendRDQuery remoteIP true with
      | none => return .failed true
      | some lwr => if lwr.d_tcbit then return .truncatedOverTCP else return .answer lwr true

/-- How the attempt with one server, or with all of them, ended. -/
inductive ServerOutcome
  | done (res : Int)
  | cname (newtarget : Octets)
  | referral (newauth : Octets) (nsset : List Octets)
  | nextServer

/-- The loop over the addresses of one server. -/
def tryIPs (auth qname : Octets) (qtype : UInt16) (depth : Nat) (tns : Octets)
    (pierceDontQuery sendRDQuery : Bool) :
    List ComboAddress → Bool → List TextRR → LogM W Event (ServerOutcome × List TextRR)
  | [], _, ret => pure (.nextServer, ret)
  | remoteIP :: ips, doTCP, ret => do
    if ← LogM.call (env.shouldThrottle remoteIP qname qtype) then
      tryIPs auth qname qtype depth tns pierceDontQuery sendRDQuery ips doTCP ret
    else if !pierceDontQuery && cfg.dontQuery remoteIP then
      tryIPs auth qname qtype depth tns pierceDontQuery sendRDQuery ips doTCP ret
    else
      match ← askIP env auth qname qtype tns sendRDQuery remoteIP doTCP with
      | .failed doTCP =>
        tryIPs auth qname qtype depth tns pierceDontQuery sendRDQuery ips doTCP ret
      | .truncatedOverTCP => return (.done RCode.ServFail, ret)
      | .answer lwr doTCP =>
        if lwr.d_rcode = RCode.ServFail then
          emit env (.throttle remoteIP 60 3)
          return (.nextServer, ret)
        else
          match ← processReply env cfg auth qname qtype depth tns lwr ret with
          | (.answered res, ret) => return (.done res, ret)
          | (.cname newtarget, ret) => return (.cname newtarget, ret)
          | (.referral newauth nsset, ret) => return (.referral newauth nsset, ret)
          | (.nextServer, ret) => return (.nextServer, ret)
          | (.lame, ret) =>
            emit env (.throttle remoteIP 60 100)
            tryIPs auth qname qtype depth tns pierceDontQuery sendRDQuery ips doTCP ret

/-- The addresses of a server: a name ending in a dot is resolved, anything else is a
hardcoded address behind a `+` or `-`. -/
def serverIPs (tns : Octets) (depth : Nat) : LogM W Event (List ComboAddress) :=
  if !isCanonical tns then pure [cfg.parseIPAndPort (tns.drop 1)]
  else LogM.call (env.getAs tns (depth + 1))

/-- The loop over the name servers. The flag is `flawedNSSet`. -/
def tryServers (auth qname : Octets) (qtype : UInt16) (depth : Nat) :
    List Octets → Bool → List TextRR →
      LogM W Event (ServerOutcome × Bool × List TextRR)
  | [], flawedNSSet, ret => pure (.nextServer, flawedNSSet, ret)
  | tns :: rest, flawedNSSet, ret => do
    if qname = tns ∧ qtype = QType.A then -- not using a NS to resolve itself
      tryServers auth qname qtype depth rest flawedNSSet ret
    else if tns = [] then -- the domain is out-of-band
      let lwr ← LogM.call (env.doOOBResolve qname qtype)
      match ← processReply env cfg auth qname qtype depth tns
          { lwr with d_tcbit := false, d_aabit := true } ret with
      | (.answered res, ret) => return (.done res, flawedNSSet, ret)
      | (.cname newtarget, ret) => return (.cname newtarget, flawedNSSet, ret)
      | (.referral newauth nsset, ret) => return (.referral newauth nsset, flawedNSSet, ret)
      | (_, ret) => tryServers auth qname qtype depth rest flawedNSSet ret
    else
      let hardcoded := !isCanonical tns
      let remoteIPs ← serverIPs env cfg tns depth
      if remoteIPs = [] then tryServers auth qname qtype depth rest true ret
      else
        let sendRDQuery := hardcoded && tns.head? == some 43
        match ← tryIPs env cfg auth qname qtype depth tns hardcoded sendRDQuery
            remoteIPs false ret with
        | (.nextServer, ret) => tryServers auth qname qtype depth rest flawedNSSet ret
        | (out, ret) => return (out, flawedNSSet, ret)

/-- `SyncRes::doResolveAt`. The fuel bounds the referrals followed; `none` is a run that is
still under way when it is used up. -/
def doResolveAt (qname : Octets) (qtype : UInt16) (depth : Nat) :
    Nat → List Octets → Octets → Bool → List TextRR →
      LogM W Event (Option Int × List TextRR)
  | 0, _, _, _, ret => pure (none, ret)
  | fuel + 1, nameservers, auth, flawedNSSet, ret => do
    emit env (.level auth)
    let rnameservers ← LogM.call (env.shuffleInSpeedOrder nameservers)
    match ← tryServers env cfg auth qname qtype depth rnameservers flawedNSSet ret with
    | (.nextServer, flawedNSSet, ret) =>
      if auth ≠ [dot] ∧ flawedNSSet then emit env (.ageCache auth)
      return (some (-1), ret)
    | (.done res, _, ret) => return (some res, ret)
    | (.cname newtarget, _, ret) =>
      let (res, ret) ← LogM.call (env.doResolve newtarget qtype ret (depth + 1))
      return (some res, ret)
    | (.referral newauth nsset, flawedNSSet, ret) =>
      doResolveAt qname qtype depth fuel nsset newauth flawedNSSet ret

end Loops

end PowerDNS
