import PowerDNS.Auth.Wrapup
import PowerDNS.Recursor.SyncRes

/-!
# A resolution: `SyncRes::doResolve` and its callers

`doResolve` answers a question: out of a local zone or by way of a forwarder when recursion is
not desired, out of the caches, and by asking servers (`doResolveAt`). It is called again for the
target of a CNAME, and by `getAs` for the addresses of a name server. `beginResolve` calls it for
a client and adds the addresses that go with the answer.

What a resolution asks of others is in a `SyncRes W`: the caches, the wire, the throttle and the
clock are steps of a world `W` that answer anything, so other threads may have changed them in
between. The depth of the calls is bounded by `levels`, the referrals of one `doResolveAt` by the
dots of the name; a resolution that either bound cuts off has `ended = false`, and
`Recursor/Terminates.lean` shows that none is.
-/

namespace PowerDNS

open LoggedRun List

/-! ### What is around a resolution -/

/-- The records are in the order of their sections. -/
def InSectionOrder (rrs : List TextRR) : Prop :=
  rrs.Pairwise fun a b => a.d_place.index ≤ b.d_place.index

instance (rrs : List TextRR) : Decidable (InSectionOrder rrs) :=
  inferInstanceAs (Decidable (List.Pairwise _ _))

/-- A record out of the record cache: `String2DNSRR` fills in a fresh `DNSResourceRecord`. -/
abbrev CachedRR := { rr : TextRR // rr.d_place = .ANSWER }

/-- A reply as the parser leaves it: the sections come one after the other. -/
structure ParsedReply extends LWResult where
  ordered : InSectionOrder d_result

/-- `AuthDomain`: a zone served here, or one with forwarders. The records are in the order of
their index. -/
structure AuthDomain where
  d_servers : List ComboAddress
  d_rdForward : Bool
  d_records : List TextRR
  places : ∀ rr ∈ d_records, rr.d_place = .ANSWER

/-- `GetBestNSAnswer`. -/
structure GetBestNSAnswer where
  qname : Octets
  bestns : List TextRR
  deriving DecidableEq

/-- Neither is less than the other. `operator<` of a record looks at owner and content. -/
def GetBestNSAnswer.same (a b : GetBestNSAnswer) : Bool :=
  a.qname == b.qname &&
    a.bestns.map (fun rr => (rr.qname, rr.content)) == b.bestns.map fun rr => (rr.qname, rr.content)

/-- What the answer of a question is made of: the replies of the servers, and the record sets
of the cache, with the moment they were looked at and whether a negative entry led there. -/
inductive Step
  | reply (qname : Octets) (qtype : UInt16) (lwr : LWResult)
  | cached (now : UInt32) (giveNegative : Bool) (cset : List TextRR)

/-- The settings of a `SyncRes`, and what it calls as steps of a world `W`. -/
structure SyncRes (W : Type) where
  /-- The settings of `doResolveAt`. -/
  settings : ResolverConfig
  d_cacheonly : Bool
  d_nocache : Bool
  s_doIPv6 : Bool
  /-- `aaaa-additional-processing`. -/
  l_doIPv6AP : Bool
  /-- `version-string`. -/
  versionString : Octets
  s_serverID : Octets
  domainmap : List (Octets × AuthDomain)
  toStringWithPort : ComboAddress → Octets
  /-- `ComboAddress(content, 53)`. -/
  comboAddress : Octets → ComboAddress
  /-- `d_now.tv_sec`. -/
  now : W → UInt32
  /-- `t_RC->get`. -/
  get : Octets → UInt16 → W → W × (Int × List CachedRR)
  /-- `negcache.equal_range(tie(qname))`. -/
  negcache : Octets → W → List NegCacheEntry
  moveCacheItemToFront : NegCacheEntry → W → W
  moveCacheItemToBack : NegCacheEntry → W → W
  primeHints : W → W
  shuffleInSpeedOrder : List Octets → W → W × List Octets
  /-- `random_shuffle`, and then the best address of the server to the front. -/
  shuffleAddresses : Octets → List ComboAddress → W → W × List ComboAddress
  shouldThrottle : ComboAddress → Octets → UInt16 → W → W × Bool
  asyncresolveWrapper : ComboAddress → Octets → UInt16 → Bool → Bool → W → W × (Int × ParsedReply)
  /-- What `doResolveAt` does to caches and throttle. -/
  observe : Event → W → W

/-- The world, and what a resolution keeps for itself. -/
structure SyncState (W : Type) where
  world : W
  beenthere : List GetBestNSAnswer := []
  /-- What the records in `ret` were taken from. -/
  steps : List Step := []
  /-- No call was cut off. -/
  ended : Bool := true

/-- A part of a resolution. -/
abbrev SyncM (W : Type) := LogM (SyncState W) Event

/-- `doResolve` as its parts call it. -/
abbrev ResolveFn (W : Type) := Octets → UInt16 → List TextRR → Nat → SyncM W (Int × List TextRR)

namespace SyncM

variable {W : Type} {α : Type}

/-- A step of the world. -/
def onWorld (f : W → W × α) : SyncM W α :=
  LogM.call fun s => ({ s with world := (f s.world).1 }, (f s.world).2)

/-- A look at the world. -/
def look (f : W → α) : SyncM W α := LogM.call fun s => (s, f s.world)

/-- A step that `ret` owes records to. -/
def note (step : Step) : SyncM W Unit :=
  LogM.call fun s => ({ s with steps := s.steps ++ [step] }, ())

/-- The bound was too low. -/
def cutOff : SyncM W Unit := LogM.call fun s => ({ s with ended := false }, ())

/-- With a `beenthere` of its own. -/
def withBeenthere (m : SyncM W α) : SyncM W α := fun s =>
  let r := m { s with beenthere := [] }
  (r.1, { r.2.1 with beenthere := s.beenthere }, r.2.2)

/-- With a `ret` of its own. -/
def aside (m : SyncM W α) : SyncM W α := fun s =>
  let r := m s
  (r.1, { r.2.1 with steps := s.steps }, r.2.2)

/-- A part of a resolution as something that `doResolveAt` calls. -/
def toCall (m : SyncM W α) : SyncState W → SyncState W × α := fun s => ((m s).2.1, (m s).1)

end SyncM

/-! ### Climbing towards the root -/

/-- `chopOffDotted`; `none` is `false`. -/
def chopOffDotted (domain : Octets) : Option Octets :=
  if domain = [] ∨ domain = [dot] then none
  else
    match domain.idxOf? dot with
    | none => none
    | some fdot =>
      if fdot = domain.length - 1 then some [dot] else some (domain.drop (fdot + 1))

/-- The names that `do … while(chopOffDotted(domain))` goes through. -/
def chopsFrom : Nat → Octets → List Octets
  | 0, domain => [domain]
  | fuel + 1, domain =>
    match chopOffDotted domain with
    | none => [domain]
    | some domain' => domain :: chopsFrom fuel domain'

/-- A name never gets shorter more often than it has octets. -/
def chops (domain : Octets) : List Octets := chopsFrom domain.length domain

theorem length_of_chopOffDotted {domain domain' : Octets} (h : chopOffDotted domain = some domain') :
    domain'.length < domain.length := by
  unfold chopOffDotted at h
  split at h
  · cases h
  next hname =>
    rw [not_or] at hname
    split at h
    · cases h
    next fdot hfdot =>
      have hlt : 0 < domain.length := length_pos_iff.mpr hname.1
      split at h
      next hlast =>
        obtain rfl : [dot] = domain' := by simpa using h
        -- the text is longer than the root
        rcases Nat.lt_or_ge 1 domain.length with hlong | hshort
        · exact hlong
        · obtain ⟨c, rfl⟩ := length_eq_one_iff.mp (Nat.le_antisymm hshort hlt)
          have hmem : dot ∈ [c] := by
            by_contra hmem
            rw [idxOf?_eq_none_iff.mpr hmem] at hfdot
            cases hfdot
          rw [mem_singleton] at hmem
          exact absurd (hmem ▸ rfl) hname.2
      next =>
        obtain rfl : domain.drop (fdot + 1) = domain' := by simpa using h
        rw [length_drop]
        omega

/-! ### Zones served here -/

/-- `d_records.find(make_tuple(authdomain, SOA))`, as a record of the authority section. -/
def AuthDomain.soa (zone : AuthDomain) (authdomain : Octets) : List TextRR :=
  ((zone.d_records.find? fun rr =>
    pdnsIequals rr.qname authdomain && rr.qtype == QType.SOA).map fun rr =>
      { rr with d_place := .AUTHORITY }).toList

/-- What `doOOBResolve` makes of the zone that serves the name: `ret` and `res`. `apex` is how the
map spells the zone, `authdomain` how the name does. -/
def AuthDomain.answer (zone : AuthDomain) (apex authdomain qname : Octets) (qtype : UInt16) :
    List TextRR × Int :=
  let range := zone.d_records.filter fun rr => pdnsIequals rr.qname qname
  -- let rest of nameserver do the legwork on this one
  let exact := range.filter fun rr =>
    qtype == QType.ANY || rr.qtype == qtype || rr.qtype == QType.CNAME
  if exact ≠ [] then (exact, 0)
  else if range ≠ [] then (zone.soa authdomain, RCode.NoError)
  else
    let climbed := (chops qname).tail.takeWhile fun nsdomain => !pdnsIequals nsdomain apex
    let delegations := climbed.flatMap fun nsdomain =>
      (zone.d_records.filter fun rr => pdnsIequals rr.qname nsdomain && rr.qtype == QType.NS).map
        fun rr => { rr with d_place := .AUTHORITY }
    if delegations = [] then (zone.soa authdomain, RCode.NXDomain) else (delegations, 0)

namespace SyncRes

variable {W : Type} (R : SyncRes W)

open SyncM

/-- `getBestAuthZone`: the name it ends at, and the entry of the map. -/
def getBestAuthZone (qname : Octets) : Option (Octets × (Octets × AuthDomain)) :=
  (chops qname).findSome? fun name =>
    (R.domainmap.find? fun e => pdnsIequals e.1 name).map fun iter => (name, iter)

/-- `doOOBResolve`. Without a zone for the name it returns `false` and changes nothing. -/
def doOOBResolve (qname : Octets) (qtype : UInt16) (ret : List TextRR) (res : Int) :
    List TextRR × Int :=
  match R.getBestAuthZone qname with
  | none => (ret, res)
  | some (authdomain, iter) => iter.2.answer iter.1 authdomain qname qtype

/-! ### Name servers from the cache -/

/-- The loop over the NS records of `subdomain`: those that can be used without glue, or whose
glue is there, and whether one could not. -/
def usableNS (subdomain : Octets) : List TextRR → List TextRR → Bool → SyncM W (List TextRR × Bool)
  | [], bestns, flawedNSSet => pure (bestns, flawedNSSet)
  | k :: ns, bestns, flawedNSSet => do
    if k.ttl > (← look R.now) then
      if !dottedEndsOn k.content subdomain then
        usableNS subdomain ns (setInsert rrLess k bestns) flawedNSSet
      else
        let (ttd, _) ← onWorld (R.get k.content (if R.s_doIPv6 then QType.ADDR else QType.A))
        if ttd > 5 then usableNS subdomain ns (setInsert rrLess k bestns) flawedNSSet
        else usableNS subdomain ns bestns true
    else usableNS subdomain ns bestns flawedNSSet

/-- `getBestNSFromCache`, over the names that `subdomain` goes through. -/
def getBestNSFromCache (qname : Octets) : List Octets → Bool → SyncM W (List TextRR × Bool)
  | [], flawedNSSet => pure ([], flawedNSSet)
  | subdomain :: rest, _ => do
    let (ttd, ns) ← onWorld (R.get subdomain QType.NS)
    if ttd > 0 then
      let (bestns, flawedNSSet) ← R.usableNS subdomain (ns.map Subtype.val) [] false
      if bestns = [] then getBestNSFromCache qname rest flawedNSSet
      else
        let answer : GetBestNSAnswer := ⟨qname, bestns⟩
        let loop ← LogM.call fun s => (s, s.beenthere.any answer.same)
        -- part of a loop: a less specific set is tried
        if loop then getBestNSFromCache qname rest flawedNSSet
        else
          LogM.call fun s => ({ s with beenthere := s.beenthere ++ [answer] }, ())
          return (bestns, flawedNSSet)
    else getBestNSFromCache qname rest false

/-- `getBestNSNamesFromCache`: the zone, the names of its servers and `flawedNSSet`. The empty
name says that the zone is served here, `+` and `-` that it is forwarded. -/
def getBestNSNamesFromCache (qname : Octets) (flawedNSSet : Bool) :
    SyncM W (Octets × List Octets × Bool) := do
  match R.getBestAuthZone qname with
  | some (authdomain, iter) =>
    let servers := iter.2.d_servers.map fun server =>
      (if iter.2.d_rdForward then ascii "+" else ascii "-") ++ R.toStringWithPort server
    let nsset := if servers = [] then [[]] else
      servers.foldl (fun nsset server => setInsert pdnsIlexicographicalCompare server nsset) []
    return (authdomain, nsset, flawedNSSet)
  | none =>
    let (bestns, flawedNSSet) ← R.getBestNSFromCache qname (chops qname) flawedNSSet
    let nsset := bestns.foldl
      (fun nsset k => setInsert pdnsIlexicographicalCompare k.content nsset) []
    return ((bestns.head?.map fun k => k.qname).getD qname, nsset, flawedNSSet)

/-- The two tries of `doResolve` to find name servers; "must've lost root records". -/
def findServers : Nat → Octets → Bool → SyncM W (Octets × List Octets × Bool)
  | 0, subdomain, flawedNSSet => pure (subdomain, [], flawedNSSet)
  | tries + 1, subdomain, flawedNSSet => do
    let (subdomain, nsset, flawedNSSet) ← R.getBestNSNamesFromCache subdomain flawedNSSet
    if nsset = [] then
      let (ttd, _) ← onWorld (R.get [dot] QType.NS)
      if ttd ≤ 0 then onWorld fun w => (R.primeHints w, ())
      findServers tries subdomain flawedNSSet
    else return (subdomain, nsset, flawedNSSet)

/-! ### Answers without asking servers -/

/-- The "very limited OOB support" when recursion is not desired. In this part of `doResolve` as
in the ones below, `none` says that the answer has to be looked for further on. -/
def peekAuthZones (qname : Octets) (qtype : UInt16) (ret : List TextRR) :
    SyncM W (Option Int × List TextRR) :=
  if !R.d_cacheonly then pure (none, ret)
  else
    match R.getBestAuthZone qname with
    | none => pure (none, ret)
    | some (_, iter) =>
      match iter.2.d_servers with
      | [] =>
        -- `ret.clear()`
        let (ret, res) := R.doOOBResolve qname qtype [] 0
        pure (some res, ret)
      | remoteIP :: _ => do
        let (res, lwr) ← onWorld (R.asyncresolveWrapper remoteIP qname qtype false false)
        -- filter out the good stuff from lwr.result()
        return (some res, ret ++ lwr.d_result.filter fun i => i.d_place = .ANSWER)

/-- The first CNAME that has not expired, of what `t_RC->get` came up with. -/
def freshCNAME (now : UInt32) (ttd : Int) (cset : List CachedRR) : Option TextRR :=
  if ttd > 0 then (cset.map Subtype.val).find? fun j => j.ttl > now else none

/-- `doCNAMECacheCheck`; `none` is `false`. -/
def doCNAMECacheCheck (doResolve : ResolveFn W) (qname : Octets) (qtype : UInt16)
    (ret : List TextRR) (depth : Nat) : SyncM W (Option Int × List TextRR) := do
  if depth > 10 then return (some RCode.ServFail, ret) -- CNAME loop too deep
  else
    let (ttd, cset) ← onWorld (R.get qname QType.CNAME)
    let now ← look R.now
    match freshCNAME now ttd cset with
    | none => return (none, ret)
    | some j =>
      let ret := ret ++ [{ j with ttl := j.ttl - now }]
      if qtype ≠ QType.CNAME then
        let (res, ret) ← withBeenthere (doResolve j.content qtype ret (depth + 1))
        return (some res, ret)
      else return (some 0, ret) -- perhaps they really wanted a CNAME!

/-- The loop over the negative entries of the name: the first that is still valid. -/
def negativelyCached (qtype : UInt16) : List NegCacheEntry → SyncM W (Option NegCacheEntry)
  | [] => pure none
  | ni :: range => do
    if ni.d_qtype = 0 ∨ ni.d_qtype = qtype then
      if (← look R.now) < ni.d_ttd then
        onWorld fun w => (R.moveCacheItemToBack ni w, ())
        return some ni
      else
        onWorld fun w => (R.moveCacheItemToFront ni w, ())
        negativelyCached qtype range
    else negativelyCached qtype range

/-- How `doCacheCheck` hands out a record, in particular for a negative entry. -/
def fromCache (now : UInt32) (ne : Option NegCacheEntry) (j : TextRR) : TextRR :=
  match ne with
  | some ni => { j with d_place := .AUTHORITY, ttl := ni.d_ttd - now }
  | none => { j with ttl := j.ttl - now }

/-- `doCacheCheck`; `none` is `false`. The records it pushes stay in `ret` also then. -/
def doCacheCheck (qname : Octets) (qtype : UInt16) (ret : List TextRR) :
    SyncM W (Option Int × List TextRR) := do
  let ne ← R.negativelyCached qtype (← look (R.negcache qname))
  let (sqname, sqt) := match ne with
    | some ni => (ni.d_qname, QType.SOA)
    | none => (qname, qtype)
  let (ttd, cset) ← onWorld (R.get sqname sqt)
  if ttd > 0 then
    let now ← look R.now
    let cset := cset.map Subtype.val
    note (.cached now ne.isSome cset)
    let fresh := cset.filter fun j => j.ttl > now
    let ret := ret ++ fresh.map (fromCache now ne)
    -- found and not expired
    if fresh ≠ [] ∧ fresh = cset then
      match ne with
      | some ni => return (some (if ni.d_qtype = 0 then RCode.NXDomain else RCode.NoError), ret)
      | none => return (some 0, ret)
    else return (none, ret)
  else return (none, ret)

/-! ### Asking servers -/

/-- `getAs`. -/
def getAs (doResolve : ResolveFn W) (qname : Octets) (depth : Nat) :
    SyncM W (List ComboAddress) := do
  let (res, rrs) ← aside
    (doResolve qname (if R.s_doIPv6 then QType.ADDR else QType.A) [] (depth + 1))
  let ret := if res = 0 then
      (rrs.filter fun i => i.qtype = QType.A ∨ i.qtype = QType.AAAA).map
        fun i => R.comboAddress i.content
    else []
  if ret.length > 1 then onWorld (R.shuffleAddresses qname ret) else return ret

/-- What `doResolveAt` finds around it when it asks for `qname`. -/
def resolver (doResolve : ResolveFn W) (qname : Octets) (qtype : UInt16) :
    Resolver (SyncState W) where
  shuffleInSpeedOrder nameservers := toCall (onWorld (R.shuffleInSpeedOrder nameservers))
  getAs tns depth := toCall (R.getAs doResolve tns depth)
  doOOBResolve qname qtype := toCall do
    let (d_result, d_rcode) := R.doOOBResolve qname qtype [] 0
    return { d_rcode := d_rcode.toNat, d_aabit := true, d_tcbit := false, d_result := d_result }
  shouldThrottle remoteIP qname qtype := toCall (onWorld (R.shouldThrottle remoteIP qname qtype))
  asyncresolveWrapper remoteIP qname qtype doTCP sendRDQuery := toCall do
    let (res, lwr) ←
      onWorld (R.asyncresolveWrapper remoteIP qname qtype doTCP sendRDQuery)
    return (res, lwr.toLWResult)
  doResolve newtarget qtype ret depth :=
    toCall (withBeenthere (doResolve newtarget qtype ret depth))
  observe e s :=
    let s := { s with world := R.observe e s.world }
    match e with
    | .reply _ lwr => { s with steps := s.steps ++ [.reply qname qtype lwr] }
    | _ => s

/-- The end of `doResolve`: servers are found and asked. -/
def askServers (doResolve : ResolveFn W) (qname : Octets) (qtype : UInt16) (ret : List TextRR)
    (depth : Nat) : SyncM W (Int × List TextRR) := do
  let (subdomain, nsset, flawedNSSet) ← R.findServers 2 qname false
  let now ← look R.now
  let (res, ret) ← doResolveAt (R.resolver doResolve qname qtype) { R.settings with now := now }
    qname qtype depth (qname.count dot + 2) nsset subdomain flawedNSSet ret
  match res with
  | none =>
    cutOff
    return (0, ret)
  | some res => return (if res < 0 then RCode.ServFail else res, ret)

/-- The name servers of the root are looked for without the caches. -/
def skipsCaches (qname : Octets) (qtype : UInt16) : Bool :=
  R.d_nocache && qtype == QType.NS && qname == [dot]

/-- The first part of `doResolve`. -/
def consultCaches (doResolve : ResolveFn W) (qname : Octets) (qtype : UInt16) (ret : List TextRR)
    (depth : Nat) : SyncM W (Option Int × List TextRR) :=
  if R.skipsCaches qname qtype then pure (none, ret)
  else do
    match ← R.peekAuthZones qname qtype ret with
    | (some res, ret) => return (some res, ret)
    | (none, ret) =>
      -- will reroute us if needed
      match ← R.doCNAMECacheCheck doResolve qname qtype ret depth with
      | (some res, ret) => return (some res, ret)
      | (none, ret) => R.doCacheCheck qname qtype ret

/-- `doResolve`. `levels` bounds the depth of the calls. -/
def doResolve : Nat → ResolveFn W
  | 0, _, _, ret, _ => do
    cutOff
    return (0, ret)
  | levels + 1, qname, qtype, ret, depth => do
    match ← R.consultCaches (doResolve levels) qname qtype ret depth with
    | (some res, ret) => return (res, ret)
    | (none, ret) =>
      if R.d_cacheonly then return (0, ret)
      else R.askServers (doResolve levels) qname qtype ret depth

/-! ### The answer to a client -/

/-- The host in the content of a record that addresses are added for. -/
def additionalHost (k : TextRR) : Option Octets :=
  let fields := (k.content.splitOn 32).filter fun field => field ≠ []
  if k.qtype = QType.MX ∧ k.d_place = .ANSWER then
    if fields.length = 2 then fields[1]? else none
  else if k.qtype = QType.SRV ∧ k.d_place = .ANSWER then
    if fields.length = 4 then fields[3]? else none
  else if k.qtype = QType.NS ∧ (k.d_place = .AUTHORITY ∨ k.d_place = .ANSWER) then some k.content
  else none

/-- `unique(…, uniqueComp)`. -/
def uniqueRecords : List TextRR → List TextRR
  | [] => []
  | a :: rest =>
    match uniqueRecords rest with
    | [] => [a]
    | b :: rest' =>
      if a.qtype = b.qtype ∧ a.qname = b.qname ∧ a.content = b.content then a :: rest'
      else a :: b :: rest'

/-- `addCruft`. -/
def addCruft (levels : Nat) (ret : List TextRR) : SyncM W (List TextRR) := do
  -- don't add stuff to an NXDOMAIN!
  if ret.any fun k => k.d_place = .AUTHORITY ∧ k.qtype = QType.SOA then return ret
  else
    let addit ← (ret.filterMap additionalHost).foldlM (fun addit host => do
      let (_, addit) ← aside (withBeenthere
        (R.doResolve levels host (if R.l_doIPv6AP then QType.ADDR else QType.A) addit 1))
      return addit) []
    let addit := uniqueRecords (addit.insertionSort fun a b => !rrLess b a)
    return ret ++ (addit.filter fun k => k.qtype = QType.A ∨ k.qtype = QType.AAAA).map
      fun k => { k with d_place := .ADDITIONAL }

/-- One of the answers that `beginResolve` gives by itself. -/
def ownAnswer (qname : Octets) (qtype qclass : UInt16) (content : Octets) : List TextRR :=
  [{ qname := qname, qtype := qtype, qclass := qclass, ttl := 86400, content := content
     wildcardname := [] }]

/-- `beginResolve`. -/
def beginResolve (levels : Nat) (qname : Octets) (qtype qclass : UInt16) (ret : List TextRR) :
    SyncM W (Int × List TextRR) := do
  if qtype = QType.AXFR then return (-1, ret)
  else if qtype = QType.PTR ∧ pdnsIequals qname (ascii "1.0.0.127.in-addr.arpa.") then
    return (0, ownAnswer qname qtype 1 (ascii "localhost."))
  else if qtype = QType.A ∧ qname.length = 10 ∧ pdnsIequals qname (ascii "localhost.") then
    return (0, ownAnswer qname qtype 1 (ascii "127.0.0.1"))
  else if qclass = 3 ∧ qtype = QType.TXT ∧ (pdnsIequals qname (ascii "version.bind.") ∨
      pdnsIequals qname (ascii "version.pdns.")) then
    return (0, ownAnswer qname qtype qclass (ascii "\"" ++ R.versionString ++ ascii "\""))
  else if qclass = 3 ∧ qtype = QType.TXT ∧ pdnsIequals qname (ascii "id.server.") then
    return (0, ownAnswer qname qtype qclass (ascii "\"" ++ R.s_serverID ++ ascii "\""))
  else if qclass ≠ 0xff ∧ qclass ≠ 1 then return (-1, ret)
  else
    let (res, ret) ← withBeenthere (R.doResolve levels qname qtype ret 0)
    if res = 0 then
      let ret ← R.addCruft levels ret
      return (res, ret)
    else return (res, ret)

end SyncRes

end PowerDNS
