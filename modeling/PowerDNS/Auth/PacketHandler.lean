import PowerDNS.Auth.Zone

/-!
# The authoritative packet handler: `PacketHandler::questionOrRecurse`

`questionOrRecurse` finds the zone of the query name, looks everything up that the name
owns, and then goes through a fixed order of answers: CNAME, records of the type, referral
for data that is not authoritative, NODATA; and for a name that owns nothing: wildcard,
referral, NXDOMAIN. A CNAME sends it back to the label `retargeted` with another name, at
most ten times.

`pass` is what happens from the label `retargeted` to the next `goto`, `retargeted` is the
loop, `questionOrRecurse` the checks in front of it. The functions that only add records to
the reply return these records. A content that the handler builds itself (SOA, NSEC, NSEC3,
RRSIG) is kept as the data it is written from.
-/

namespace PowerDNS

/-! ### Queries and replies -/

/-- What the handler reads of the incoming packet. -/
structure Query where
  qdomain : DName
  qtype : UInt16
  qclass : UInt16 := 1
  qr : Bool := false
  opcode : Nat := 0
  rd : Bool := false
  d_dnssecOk : Bool := false
  deriving DecidableEq

/-- The members of an `NSECRecordContent`; `d_set` is in ascending order. -/
structure NSECData where
  d_next : DName
  d_set : List UInt16
  deriving DecidableEq

/-- The members of an `NSEC3PARAMRecordContent`. -/
structure NSEC3PARAMData where
  d_algorithm : UInt8
  d_flags : UInt8
  d_iterations : UInt16
  d_salt : Octets
  deriving DecidableEq

/-- The members of an `NSEC3RecordContent`. -/
structure NSEC3Data where
  d_algorithm : UInt8 := 1
  d_flags : UInt8 := 0
  d_iterations : UInt16
  d_salt : Octets
  d_nexthash : Octets
  d_set : List UInt16
  deriving DecidableEq

/-- The content of a record in a reply. -/
inductive RData
  /-- A text, from the backend, the key repository or the program itself. -/
  | text (content : Octets)
  /-- `serializeSOAData(sd)`. -/
  | soa (sd : SOAData)
  /-- `getZoneRepresentation()` of an NSEC, NSEC3 or NSEC3PARAM content. -/
  | nsec (nrc : NSECData)
  | nsec3 (n3rc : NSEC3Data)
  | nsec3param (ns3prc : NSEC3PARAMData)
  /-- The RRSIG of `getRRSIGForRRSET` over the type, made with the KSK or not. -/
  | rrsig (signer : DName) (type : UInt16) (ksk : Bool)
  deriving DecidableEq

/-- The text of a content; the handler reads it only of records that have one. -/
def RData.asText : RData → Octets
  | .text content => content
  | _ => []

/-- A record in a reply. -/
abbrev ReplyRR := DNSResourceRecord DName RData

/-- A record of the backend, put into a reply as it is. -/
def StoredRR.inReply (rr : StoredRR) : ReplyRR where
  qtype := rr.qtype
  qclass := rr.qclass
  qname := rr.qname
  wildcardname := rr.wildcardname
  content := .text rr.content
  priority := rr.priority
  ttl := rr.ttl
  domain_id := rr.domain_id
  last_modified := rr.last_modified
  d_place := rr.d_place
  auth := rr.auth

/-- The reply packet under construction, with the defaults of `replyPacket`. -/
structure Reply where
  aa : Bool := true
  ra : Bool := false
  rcode : Nat := RCode.NoError
  opcode : Nat := 0
  d_rrs : List ReplyRR := []
  deriving DecidableEq

/-- `addRecord` for each of the records. -/
def Reply.addRecords (r : Reply) (rrs : List ReplyRR) : Reply := { r with d_rrs := r.d_rrs ++ rrs }

/-- `setRcode`. -/
def Reply.setRcode (r : Reply) (v : Nat) : Reply := { r with rcode := v }

/-- `setA`. -/
def Reply.setA (r : Reply) (b : Bool) : Reply := { r with aa := b }

/-- `getAPRecords`: the MX and NS records outside of the additional section. -/
def Reply.getAPRecords (r : Reply) : List ReplyRR :=
  r.d_rrs.filter fun rr => rr.d_place ≠ .ADDITIONAL && (rr.qtype == 15 || rr.qtype == 2)

/-- The setting `send-root-referral`. -/
inductive RootReferral
  | no
  | lean
  | yes
  deriving DecidableEq

/-- `PacketHandler`: its backend `B`, the settings it reads, and what it asks of the key
repository and the recursor. -/
structure PacketHandler where
  B : Backend
  d_doFancyRecords : Bool
  d_doIPv6AdditionalProcessing : Bool
  /-- `out-of-zone-additional-processing`, when it is not `no`. -/
  outOfZoneAdditionalProcessing : Bool
  sendRootReferral : RootReferral
  /-- `version-string`, and the text of `"Served by POWERDNS "VERSION" $Id$"`. -/
  versionString : Octets
  versionBanner : Octets
  /-- `d_doRecursion && DP->recurseFor(p)`. -/
  recurseFor : Query → Bool
  /-- `dk.haveKSKFor` and `dk.getZSKsFor`: the DNSKEY contents. -/
  haveKSKFor : DName → Option Octets
  getZSKsFor : DName → List Octets
  /-- `dk.getNSEC3PARAM`. -/
  getNSEC3PARAM : DName → Option NSEC3PARAMData
  hashQNameWithSalt : UInt16 → Octets → DName → Octets
  toBase32Hex : Octets → Octets
  fromBase32Hex : Octets → Octets
  /-- `processNotify`; a negative result is `none`. -/
  processNotify : Query → Option Nat

namespace PacketHandler

/-- A handler with the settings of the configuration file left as they are, without keys,
and with nobody to recurse. -/
def withDefaults (B : Backend) : PacketHandler where
  B := B
  d_doFancyRecords := false
  d_doIPv6AdditionalProcessing := false
  outOfZoneAdditionalProcessing := true
  sendRootReferral := .no
  versionString := ascii "full"
  versionBanner := ascii "Served by POWERDNS"
  recurseFor _ := false
  haveKSKFor _ := none
  getZSKsFor _ := []
  getNSEC3PARAM _ := none
  hashQNameWithSalt _ _ _ := []
  toBase32Hex h := h
  fromBase32Hex h := h
  processNotify _ := some RCode.NotImp

variable (H : PacketHandler)

/-- A `DNSResourceRecord` as its constructor leaves it. -/
def blankRR : StoredRR :=
  { qtype := 0, qname := [], wildcardname := [], content := [], ttl := 0 }

/-- What is left in `rr` after `while(B.get(rr))`. -/
def lastGot (rrs : List StoredRR) : ReplyRR := (rrs.getLast?.getD blankRR).inReply

/-! ### Finding zones, cuts and wildcards -/

/-- `getAuth`: the closest zone at or above the name. -/
def getAuth : DName → Option SOAData
  | [] => H.B.getSOA []
  | l :: subdomain =>
    match H.B.getSOA (l :: subdomain) with
    | some sd => some sd
    | none => getAuth subdomain

/-- The NS records of a name that are not authoritative. -/
def unauthNS (sd : SOAData) (subdomain : DName) : List StoredRR :=
  (H.B.lookup QType.NS subdomain sd.domain_id).filter fun rr => !rr.auth

/-- `getBestReferralNS`: climbs from the target and stops at the apex. -/
def getBestReferralNS (sd : SOAData) : DName → List StoredRR
  | [] => if [] = sd.qname then [] else H.unauthNS sd []
  | l :: subdomain =>
    if l :: subdomain = sd.qname then []
    else
      let ret := H.unauthNS sd (l :: subdomain)
      if ret ≠ [] then ret else getBestReferralNS sd subdomain

/-- The records of a wildcard that may answer the query. -/
def wildcardRecords (p : Query) (sd : SOAData) (subdomain : DName) : List StoredRR :=
  (H.B.lookup QType.ANY (wildcardName subdomain) sd.domain_id).filter fun rr =>
    rr.qtype == p.qtype || rr.qtype == QType.CNAME

/-- `getBestWildcard`: the loop `while(chopOff(subdomain))`, which stops after the apex. -/
def getBestWildcard (p : Query) (sd : SOAData) : DName → List StoredRR
  | [] => []
  | _ :: subdomain =>
    let ret := H.wildcardRecords p sd subdomain
    if ret ≠ [] then ret
    else if subdomain = sd.qname then []
    else getBestWildcard p sd subdomain

/-! ### Denial of existence -/

/-- The types put into a `set<uint16_t>` one after the other. -/
def typeSet (types : List UInt16) : List UInt16 :=
  types.foldl (fun d_set t => setInsert (fun a b => decide (a < b)) t d_set) []

/-- `emitNSEC`. The types are looked up in any zone. -/
def emitNSEC (begin «end» auth : DName) (mode : Nat) : ReplyRR :=
  let rrs := H.B.lookup QType.ANY begin (-1)
  let start := [QType.RRSIG, QType.NSEC] ++ (if auth = begin then [QType.DNSKEY] else [])
  { lastGot rrs with
    qname := begin
    ttl := 3600
    qtype := QType.NSEC
    content := .nsec { d_next := «end», d_set := typeSet (start ++ rrs.map (·.qtype)) }
    d_place := if mode = 2 then .ANSWER else .AUTHORITY
    auth := true }

/-- `addNSEC`: the NSEC records it adds. An empty `auth` asks for the zone of the target,
and stays empty in the calls that follow. -/
def addNSEC (p : Query) (target auth : DName) (mode : Nat) : List ReplyRR :=
  if !p.d_dnssecOk then []
  else
    match (if auth = [] then H.getAuth target else H.B.getSOA auth) with
    | none => []
    | some sd =>
      let around := H.B.getBeforeAndAfterNames sd.domain_id auth target
      let apex := H.B.getBeforeAndAfterNames sd.domain_id auth auth
      (if mode = 0 ∨ mode = 2 then [H.emitNSEC target around.2 auth mode] else []) ++
        (if mode = 1 then [H.emitNSEC around.1 around.2 auth mode,
          H.emitNSEC auth apex.2 auth mode] else []) ++
        (if mode = 3 then [H.emitNSEC around.1 around.2 auth mode] else [])

/-- `emitNSEC3`. -/
def emitNSEC3 (ns3prc : NSEC3PARAMData) (auth unhashed : DName) (begin «end» : Octets)
    (mode : Nat) : ReplyRR :=
  let rrs := H.B.lookup QType.ANY unhashed (-1)
  let types := QType.RRSIG :: rrs.map (·.qtype) ++
    (if unhashed = auth then [QType.NSEC3PARAM] else [])
  { lastGot rrs with
    qname := H.toBase32Hex begin :: auth
    ttl := 3600
    qtype := QType.NSEC3
    content := .nsec3 { d_iterations := ns3prc.d_iterations, d_salt := ns3prc.d_salt,
                        d_nexthash := «end»,
                        d_set := typeSet types }
    d_place := if mode = 2 then .ANSWER else .AUTHORITY
    auth := true }

/-- `addNSEC3`: the NSEC3 records for the apex, the query name and the wildcard at the
apex, whatever the target and the DO bit. -/
def addNSEC3 (p : Query) (auth : DName) (ns3prc : NSEC3PARAMData) (mode : Nat) :
    List ReplyRR :=
  match H.B.getSOA auth with
  | none => []
  | some sd =>
    [auth, p.qdomain, star :: auth].map fun name =>
      let hashed := H.toBase32Hex (H.hashQNameWithSalt ns3prc.d_iterations ns3prc.d_salt name)
      let found := H.B.getBeforeAndAfterNamesAbsolute sd.domain_id hashed
      H.emitNSEC3 ns3prc auth found.1 (H.fromBase32Hex found.2.1) (H.fromBase32Hex found.2.2) mode

/-- `addNSECX`. -/
def addNSECX (p : Query) (target auth : DName) (mode : Nat) : List ReplyRR :=
  match H.getNSEC3PARAM auth with
  | some ns3rc => H.addNSEC3 p auth ns3rc mode
  | none => H.addNSEC p target auth mode

/-! ### The answers -/

/-- The SOA record the handler builds. -/
def soaRecord (sd : SOAData) (place : Place) : ReplyRR :=
  { blankRR.inReply with
    qname := sd.qname
    qtype := QType.SOA
    content := .soa sd
    ttl := sd.ttl
    domain_id := sd.domain_id
    d_place := place }

/-- `makeNXDomain`. -/
def makeNXDomain (p : Query) (r : Reply) (target : DName) (sd : SOAData) : Reply :=
  (r.addRecords (soaRecord sd .AUTHORITY ::
    if p.d_dnssecOk then H.addNSECX p target sd.qname 1 else [])).setRcode RCode.NXDomain

/-- `makeNOError`. -/
def makeNOError (p : Query) (r : Reply) (target : DName) (sd : SOAData) : Reply :=
  r.addRecords (soaRecord sd .AUTHORITY ::
    if p.d_dnssecOk then H.addNSECX p target sd.qname 0 else [])

/-- `addDSforNS`. -/
def addDSforNS (sd : SOAData) (dsname : DName) : List ReplyRR :=
  (H.B.lookup QType.DS dsname sd.domain_id).map fun rr =>
    { rr.inReply with d_place := .AUTHORITY }

/-- `tryReferral`; `none` is the result `false`. -/
def tryReferral (p : Query) (r : Reply) (sd : SOAData) (target : DName) : Option Reply :=
  match H.getBestReferralNS sd target with
  | [] => none
  | ns :: rest =>
    let ds := H.addDSforNS sd ns.qname
    some (((r.addRecords ((ns :: rest).map fun rr =>
      { rr.inReply with d_place := .AUTHORITY })).setA false).addRecords
        (if ds ≠ [] then ds else H.addNSECX p ns.qname sd.qname 0))

/-- `tryWildcard`: the reply, and the new target when one of the records is a CNAME (the
last one decides); `none` is the result `false`. -/
def tryWildcard (p : Query) (r : Reply) (sd : SOAData) (target : DName) :
    Option (Reply × Option DName) :=
  let rrset := H.getBestWildcard p sd target
  if rrset = [] then none
  else
    let expanded := rrset.map fun rr =>
      { rr.inReply with wildcardname := rr.qname, qname := p.qdomain, d_place := .ANSWER }
    let cname := (rrset.filter fun rr => rr.qtype = QType.CNAME).getLast?
    some (r.addRecords (expanded ++
      if p.d_dnssecOk then H.addNSECX p p.qdomain sd.qname 3 else []),
      cname.map fun rr => splitDots rr.content)

/-- One of the RRSIG records of `synthesiseRRSIGs`; "please don't sign this". -/
def synthesisedRRSIG (p : Query) (rrs : List StoredRR) (t : UInt16) (ksk : Bool) : ReplyRR :=
  { lastGot rrs with
    qname := p.qdomain
    ttl := 3600
    auth := false
    d_place := .ANSWER
    qtype := QType.RRSIG
    content := .rrsig p.qdomain t ksk }

/-- `synthesiseRRSIGs`: one RRSIG for each type of authoritative records at the query name
and for the NSEC, two for the type DNSKEY. -/
def synthesiseRRSIGs (p : Query) : List ReplyRR :=
  let rrs := H.B.lookup QType.ANY p.qdomain (-1)
  (typeSet (QType.NSEC :: (rrs.filter (·.auth)).map (·.qtype))).flatMap fun t =>
    (false :: if t = QType.DNSKEY then [true] else []).map (synthesisedRRSIG p rrs t)

/-! ### One pass -/

/-- `weDone`: some authoritative record of the type is there. -/
def weDone (p : Query) (rrset : List StoredRR) : Bool :=
  rrset.any fun rr => (p.qtype == QType.ANY || rr.qtype == p.qtype) && rr.auth

/-- `weHaveUnauth`: some record of the type, or NS record, is not authoritative. -/
def weHaveUnauth (p : Query) (rrset : List StoredRR) : Bool :=
  rrset.any fun rr => (rr.qtype == p.qtype || rr.qtype == QType.NS) && !rr.auth

/-- The CNAME that redirects the query (`weRedirected`). -/
def redirection (p : Query) (rrset : List StoredRR) : Option StoredRR :=
  if p.qtype = QType.CNAME then none else rrset.find? fun rr => rr.qtype == QType.CNAME

/-- The authoritative records of the type. -/
def wanted (p : Query) (rrset : List StoredRR) : List StoredRR :=
  rrset.filter fun rr => (p.qtype == QType.ANY || rr.qtype == p.qtype) && rr.auth

/-- The root servers of `addRootReferral`. -/
def rootServers : List (DName × Octets) :=
  [("a", "198.41.0.4"), ("b", "192.228.79.201"), ("c", "192.33.4.12"), ("d", "128.8.10.90"),
    ("e", "192.203.230.10"), ("f", "192.5.5.241"), ("g", "192.112.36.4"), ("h", "128.63.2.53"),
    ("i", "192.36.148.17"), ("j", "192.58.128.30"), ("k", "193.0.14.129"), ("l", "198.32.64.12"),
    ("m", "202.12.27.33")].map fun s =>
      ([ascii s.1, ascii "root-servers", ascii "net"], ascii s.2)

/-- `addRootReferral`. -/
def addRootReferral : List ReplyRR :=
  rootServers.map (fun s =>
    { blankRR.inReply with
      qtype := QType.NS
      ttl := 518400
      d_place := .AUTHORITY
      content := .text (joinDots s.1) }) ++
  (if H.sendRootReferral = .lean then []
    else rootServers.map fun s =>
      { blankRR.inReply with
        qtype := QType.A
        qname := s.1
        ttl := 3600000
        d_place := .ADDITIONAL
        content := .text s.2 })

/-- Where a pass ends: at the label `sendit`, or back at `retargeted` with a new target. -/
inductive Pass
  | sendit (r : Reply)
  | retarget (r : Reply) (target : DName)
  deriving DecidableEq

/-- From the lookup of the target to the next `goto`, when the target owns records. -/
def answerOwned (p : Query) (r : Reply) (sd : SOAData) (target : DName)
    (rrset : List StoredRR) : Pass :=
  match redirection p rrset with
  | some rr => .retarget (r.addRecords [rr.inReply]) (splitDots rr.content)
  | none =>
    if weDone p rrset then
      .sendit (r.addRecords ((wanted p rrset).map StoredRR.inReply ++
        if p.qtype = QType.ANY then H.addNSECX p target sd.qname 2 else []))
    else if weHaveUnauth p rrset then .sendit ((H.tryReferral p r sd target).getD r)
    else .sendit (H.makeNOError p r target sd)

/-- The same when the target owns nothing. -/
def answerNothing (p : Query) (r : Reply) (sd : SOAData) (target : DName) : Pass :=
  match H.tryWildcard p r sd target with
  | some (r', some target') => .retarget r' target'
  | some (r', none) => .sendit r'
  | none => .sendit ((H.tryReferral p r sd target).getD (H.makeNXDomain p r target sd))

/-- From the label `retargeted` to the next `goto`. -/
def pass (p : Query) (r : Reply) (target : DName) : Pass :=
  match H.getAuth target with
  | none =>
    .sendit (if H.sendRootReferral = .no then (r.setA false).setRcode RCode.ServFail
      else (r.setA false).addRecords H.addRootReferral)
  | some sd =>
    if p.qtype = QType.SOA ∧ sameName sd.qname p.qdomain then
      .sendit (r.addRecords [soaRecord sd .ANSWER])
    else if p.qtype = QType.NSEC ∧ p.d_dnssecOk then
      .sendit (r.addRecords (H.addNSEC p target [] 2))
    else if p.qtype = QType.RRSIG ∧ p.d_dnssecOk then
      .sendit (r.addRecords (H.synthesiseRRSIGs p))
    else
      match H.B.lookup QType.ANY target sd.domain_id with
      | [] => H.answerNothing p r sd target
      | rr :: rrs => H.answerOwned p r sd target (rr :: rrs)

/-! ### The whole function -/

/-- The additional records for one NS or MX record. -/
def additionalFor (i : ReplyRR) : List ReplyRR :=
  (QType.A :: if H.d_doIPv6AdditionalProcessing then [QType.AAAA] else []).flatMap fun t =>
    ((H.B.lookup t (splitDots i.content.asText) (-1)).filter fun rr =>
      rr.domain_id == i.domain_id || H.outOfZoneAdditionalProcessing).map fun rr =>
        { rr.inReply with d_place := .ADDITIONAL }

/-- The body of the loop in `doAdditionalProcessingAndDropAA`: AA is dropped for NS records
of a name that is no zone, except for the root. -/
def processAdditional (r : Reply) (i : ReplyRR) : Reply :=
  if r.aa ∧ i.qname ≠ [] ∧ i.qtype = QType.NS ∧ (H.B.getSOA i.qname).isNone then
    (r.setA false).addRecords (H.additionalFor i)
  else r.addRecords (H.additionalFor i)

/-- `doAdditionalProcessingAndDropAA`: runs over a copy of the MX and NS records. -/
def doAdditionalProcessingAndDropAA (p : Query) (r : Reply) : Reply :=
  if p.qtype = QType.AXFR then r else r.getAPRecords.foldl H.processAdditional r

/-- The reply, and whether it was put into the packet cache. -/
structure Answer where
  reply : Reply
  cached : Bool
  deriving DecidableEq

/-- What follows the label `sendit`. -/
def sendit (p : Query) (r : Reply) : Answer := ⟨H.doAdditionalProcessingAndDropAA p r, true⟩

/-- The passes, as many as `retargetcount` still allows. -/
def retargeted (p : Query) : Nat → Reply → DName → Answer
  | 0, r, _ => ⟨r.setRcode RCode.ServFail, false⟩
  | left + 1, r, target =>
    match H.pass p r target with
    | .sendit r' => H.sendit p r'
    | .retarget r' target' => retargeted p left r' target'

/-- `doDNSKEYRequest`: the DNSKEY records of the zone. Those of the ZSKs take over the
`auth` of the record before them. -/
def doDNSKEYRequest (p : Query) : List ReplyRR :=
  if p.qtype ≠ QType.DNSKEY then []
  else
    let ksk := (H.haveKSKFor p.qdomain).toList
    (ksk ++ H.getZSKsFor p.qdomain).map fun content =>
      { blankRR.inReply with
        qtype := QType.DNSKEY
        ttl := 3600
        qname := p.qdomain
        content := .text content
        auth := ksk ≠ [] }

/-- `doNSEC3PARAMRequest`. -/
def doNSEC3PARAMRequest (p : Query) : List ReplyRR :=
  if p.qtype ≠ QType.NSEC3PARAM then []
  else
    (H.getNSEC3PARAM p.qdomain).toList.map fun ns3prc =>
      { blankRR.inReply with
        qtype := QType.NSEC3PARAM
        ttl := 3600
        qname := p.qdomain
        content := .nsec3param ns3prc
        auth := true }

/-- `doVersionRequest`; `none` is the result 0. -/
def doVersionRequest (p : Query) (r : Reply) : Option Reply :=
  if p.qclass = 3 ∧ p.qtype = QType.TXT ∧ p.qdomain = [ascii "version", ascii "bind"] then
    if H.versionString = ascii "anonymous" then some (r.setRcode RCode.ServFail)
    else
      let content :=
        if H.versionString = [] ∨ H.versionString = ascii "full" then H.versionBanner
        else if H.versionString = ascii "powerdns" then
          ascii "Served by PowerDNS - http://www.powerdns.com"
        else H.versionString
      some (r.addRecords [{ blankRR.inReply with
        content := .text content
        ttl := 5
        qname := p.qdomain
        qtype := QType.TXT
        qclass := 3 }])
  else none

/-- An octet that `validDNSName` lets through, the dots between the labels apart. -/
def validOctet (c : UInt8) : Bool :=
  (97 ≤ c && c ≤ 122) || (65 ≤ c && c ≤ 90) || (48 ≤ c && c ≤ 57) ||
    c == 45 || c == 95 || c == 42 || c == 47 || c == 64

/-- `validDNSName`. -/
def validDNSName (name : DName) : Bool := name.all fun l => l.all validOctet

/-- The queries that are answered before any zone is looked for: keys, version, and
classes other than IN and ANY. -/
def answerEarly (p : Query) (r : Reply) : Option Reply :=
  if H.doDNSKEYRequest p ≠ [] then some (r.addRecords (H.doDNSKEYRequest p))
  else if H.doNSEC3PARAMRequest p ≠ [] then some (r.addRecords (H.doNSEC3PARAMRequest p))
  else
    match H.doVersionRequest p r with
    | some r' => some r'
    | none => if p.qclass ≠ 255 ∧ p.qclass ≠ 1 then some r else none

/-- `replyPacket`, and the RA bit. -/
def replyPacket (p : Query) : Reply :=
  { opcode := p.opcode, ra := p.rd && H.recurseFor p }

/-- `questionOrRecurse`; `none` stands for no answer at all. -/
def questionOrRecurse (p : Query) : Option Answer :=
  let refuse (rcode : Nat) : Answer := ⟨{ opcode := p.opcode, rcode := rcode }, false⟩
  if p.qr then none
  else if !validDNSName p.qdomain then some (refuse RCode.ServFail)
  else if p.opcode = 4 then (H.processNotify p).map refuse
  else if p.opcode ≠ 0 then some (refuse RCode.NotImp)
  else
    let r := H.replyPacket p
    if p.qtype = QType.IXFR then some ⟨r.setRcode RCode.NotImp, false⟩
    else if H.d_doFancyRecords ∧
        (p.qtype = QType.URL ∨ p.qtype = QType.CURL ∨ p.qtype = QType.MBOXFW) then
      some ⟨r.setRcode RCode.ServFail, false⟩
    else
      match H.answerEarly p r with
      | some r' => some (H.sendit p r')
      | none => some (H.retargeted p 11 (r.setA (r.aa && p.qclass ≠ 255)) p.qdomain)

end PacketHandler

end PowerDNS
