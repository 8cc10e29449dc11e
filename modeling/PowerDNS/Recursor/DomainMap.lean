import PowerDNS.Auth.ZoneParser
import PowerDNS.Config.Arguments
import PowerDNS.Recursor.SyncRes

/-!
# The domain map of the recursor

`parseAuthAndForwards` builds the map of the zones that the recursor serves or forwards by itself: the zone
files of `auth-zones`, the servers of `forward-zones` and `forward-zones-recurse`, the lines of
`forward-zones-file`, the lines of the hosts file when `export-etc-hosts` says so, and the private zones of
`serve-rfc1918`. A zone that comes later takes the place of an earlier one, but for those of the last two,
which leave a zone alone that is there.

`parseAuthAndForwards_congr` says what the map is made of: the values of seven parameters and the files.
-/

namespace PowerDNS

namespace RecZones

open ArgvMap

/-! ### Names of parameters -/

def authZones : Octets := ascii "auth-zones"
def forwardZones : Octets := ascii "forward-zones"
def forwardZonesRecurse : Octets := ascii "forward-zones-recurse"
def forwardZonesFile : Octets := ascii "forward-zones-file"
def exportEtcHosts : Octets := ascii "export-etc-hosts"
def etcHostsFile : Octets := ascii "etc-hosts-file"
def serveRFC1918 : Octets := ascii "serve-rfc1918"

/-! ### The map -/

/-- `SyncRes::AuthDomain`. The flag is not set for a zone that is served here. The records stand in the order
in which they were inserted. -/
structure AuthDomain where
  d_servers : List ComboAddress := []
  d_rdForward : Option Bool := none
  d_records : List TextRR := []
  deriving DecidableEq

/-- `SyncRes::domainmap_t`; its names are compared without case. -/
abbrev DomainMap := List (Octets × AuthDomain)

/-- `newMap->count(name)`. -/
def DomainMap.has (newMap : DomainMap) (name : Octets) : Bool := newMap.any fun i => pdnsIequals i.1 name

/-- `(*newMap)[name]=ad`. -/
def DomainMap.put (newMap : DomainMap) (name : Octets) (ad : AuthDomain) : DomainMap :=
  if newMap.has name then newMap.map fun i => if pdnsIequals i.1 name then (i.1, ad) else i
  else newMap ++ [(name, ad)]

/-- The files that a program can open, with their contents. -/
abbrev Files := Octets → Option Octets

/-- What the code takes from elsewhere: the registered types, what `snprintf` prints with any format, the
constructor of `ComboAddress`, `lexical_cast<uint16_t>`, and `String2DNSRR` behind `DNSRR2String`; `none` stands
for an exception. `turns` is a bound on the lines of a zone file, with those of the files it includes. -/
structure Library where
  namemap : List (UInt16 × Octets)
  snprintf : Octets → UInt32 → Octets
  comboAddress : Octets → UInt16 → Option ComboAddress
  lexicalCast : Octets → Option UInt16
  stored : TextRR → Option TextRR
  turns : Nat

/-- What `parseAuthAndForwards` throws. -/
inductive ParseError
  | zone (e : ZoneParserTNG.ZoneError)
  /-- "Error parsing record" -/
  | record (rr : TextRR) (zone file : Octets)
  /-- A server that is no address. -/
  | server (server : Octets)
  /-- "Error opening forward-zones-file" -/
  | opening (fname : Octets)
  /-- "Error parsing line" -/
  | line (linenum : Nat) (fname : Octets)
  /-- "Conversion error parsing line" -/
  | conversion (linenum : Nat) (fname : Octets)
  /-- The zone file has more lines than the bound. -/
  | endless (fname : Octets)

/-! ### Texts -/

/-- `stringtok(parts, in, delimiters)`. -/
def stringtok (delimiters input : Octets) : List Octets :=
  (input.splitOnP (· ∈ delimiters)).filter fun part => !part.isEmpty

/-- `splitField(inp, sepa)`. -/
def splitField (inp : Octets) (sepa : UInt8) : Octets × Octets :=
  (inp.takeWhile (· != sepa), (inp.dropWhile (· != sepa)).drop 1)

/-- `mustDo(var)`, for its value. -/
def mustDo (value : Octets) : Bool := value != ascii "no" && value != ascii "off"

/-- `parseIPAndPort(input, port)`. -/
def parseIPAndPort (lib : Library) (input : Octets) (port : UInt16) : Option ComboAddress :=
  if 58 ∉ input then lib.comboAddress input port
  else
    let both := splitField input 58
    match (lib.lexicalCast both.2).bind (lib.comboAddress both.1) with
    | some address => some address
    | none =>
      if input.head? = some 91 then
        let both := splitField input.tail 93
        if both.2 = [] then lib.comboAddress both.1 port
        else (lib.lexicalCast both.2.tail).bind (lib.comboAddress both.1)
      else lib.comboAddress input port

/-- `convertServersForAD(input, ad, sepa)`: the servers. -/
def convertServersForAD (lib : Library) (input sepa : Octets) : Except ParseError (List ComboAddress) :=
  (stringtok sepa input).mapM fun server =>
    match parseIPAndPort lib server 53 with
    | some address => .ok address
    | none => .error (.server server)

/-! ### Zones -/

/-- The loop over the records of a zone file. -/
def loadRecords (lib : Library) (files : Files) (zone file : Octets) :
    Nat → ZoneParserTNG.Parser → TextRR → Except ParseError (List TextRR)
  | 0, _, _ => .error (.endless file)
  | turns + 1, zpt, rr =>
    match ZoneParserTNG.turn ⟨files, lib.namemap, lib.snprintf⟩ zpt rr with
    | .error e => .error (.zone e)
    | .ok .ended => .ok []
    | .ok (.again zpt) => loadRecords lib files zone file turns zpt rr
    | .ok (.got rr zpt) =>
      match lib.stored rr with
      | none => .error (.record rr zone file)
      | some rr => do
        let records ← loadRecords lib files zone file turns zpt rr
        pure (rr :: records)

/-- A fresh `DNSResourceRecord`. -/
def freshRR : TextRR := { qtype := 0, qname := [], wildcardname := [], content := [], ttl := 0 }

/-- The records of a zone file. -/
def loadZone (lib : Library) (files : Files) (zone file : Octets) : Except ParseError (List TextRR) :=
  match ZoneParserTNG.create ⟨files, lib.namemap, lib.snprintf⟩ file zone [] with
  | .error e => .error (.zone e)
  | .ok zpt => loadRecords lib files zone file lib.turns zpt freshRR

/-- The turn for a part of one of the three options. -/
def addPart (lib : Library) (files : Files) (n : Nat) (newMap : DomainMap) (part : Octets) :
    Except ParseError DomainMap := do
  let headers := splitField part 61
  let zone := toCanonic [] (trim headers.1)
  if n = 0 then
    let records ← loadZone lib files zone (trim headers.2)
    pure (newMap.put zone { d_records := records })
  else
    let servers ← convertServersForAD lib (trim headers.2) [59]
    pure (newMap.put zone { d_servers := servers, d_rdForward := some (n == 2) })

/-- `option_names`. -/
def optionNames : List (Nat × Octets) := [(0, authZones), (1, forwardZones), (2, forwardZonesRecurse)]

/-- The three options. -/
def addOptions (lib : Library) (files : Files) (arg : Octets → Octets) : Except ParseError DomainMap :=
  optionNames.foldlM (fun newMap option =>
    (stringtok [44, 9, 10, 13] (arg option.2)).foldlM (addPart lib files option.1) newMap) []

/-- A line of the file of forwarding instructions. -/
def addInstruction (lib : Library) (fname : Octets) (linenum : Nat) (newMap : DomainMap) (line : Octets) :
    Except ParseError DomainMap :=
  let fields := splitField line 61
  let domain := trim fields.1
  let instructions := trim fields.2
  -- empty line
  if domain = [] ∧ instructions = [] then .ok newMap
  else
    let recurse := domain.head? == some 43
    -- what is behind the sign is taken as a C string
    let domain := if recurse then domain.tail.takeWhile (· != 0) else domain
    if domain = [] then .error (.line linenum fname)
    else
      match convertServersForAD lib instructions [44, 59, 32] with
      | .error _ => .error (.conversion linenum fname)
      | .ok servers => .ok (newMap.put (toCanonic [] domain) { d_servers := servers, d_rdForward := some recurse })

/-- The loop over the lines of that file; `turns` is a bound on their number. -/
def addInstructions (lib : Library) (fname : Octets) :
    Nat → Nat → DomainMap → Octets → Except ParseError DomainMap
  | 0, _, newMap, _ => .ok newMap
  | turns + 1, linenum, newMap, text =>
    match ZoneParserTNG.stringfgets text with
    | none => .ok newMap
    | some (line, rest) => do
      let newMap ← addInstruction lib fname linenum newMap line
      addInstructions lib fname turns (linenum + 1) newMap rest

/-- `forward-zones-file`. Each line takes at least one octet of the file. -/
def addForwardFile (lib : Library) (files : Files) (fname : Octets) (newMap : DomainMap) :
    Except ParseError DomainMap :=
  if fname = [] then .ok newMap
  else
    match files fname with
    | none => .error (.opening fname)
    | some text => addInstructions lib fname (text.length + 1) 1 newMap text

/-- A zone of the hosts file, or of the private address space, unless there is one. -/
def DomainMap.putNew (newMap : DomainMap) (name : Octets) (d_records : List TextRR) : DomainMap :=
  if newMap.has name then newMap else newMap.put name { d_records := d_records }

/-- A record of such a zone. -/
def localRR (qname : Octets) (qtype : UInt16) (content : Octets) : TextRR :=
  { qtype := qtype, qname := qname, wildcardname := [], content := content, ttl := 86400 }

/-- `makeNameToIPZone(newMap, hostname, ip)`. -/
def makeNameToIPZone (newMap : DomainMap) (hostname ip : Octets) : DomainMap :=
  let qname := toCanonic [] hostname
  newMap.putNew qname [localRR qname QType.SOA (ascii "localhost. root 1 604800 86400 2419200 604800"),
    localRR qname QType.NS (ascii "localhost."), localRR qname QType.A ip]

/-- `makeIPToNamesZone(newMap, parts)`. -/
def makeIPToNamesZone (newMap : DomainMap) (address : Octets) (names : List Octets) : DomainMap :=
  let ipparts := stringtok [dot] address
  let qname := (ipparts.reverse.flatMap fun part => part ++ [dot]) ++ ascii "in-addr.arpa."
  newMap.putNew qname ([localRR qname QType.SOA (ascii "localhost. root. 1 604800 86400 2419200 604800"),
    localRR qname QType.NS (ascii "localhost.")] ++
      -- otherwise this is a partial zone
      if ipparts.length = 4 then names.map fun name => localRR qname QType.PTR (toCanonic [] name) else [])

/-- A line of the hosts file. -/
def addHost (newMap : DomainMap) (line : Octets) : DomainMap :=
  match stringtok [9, 13, 10, 32] (trim (uncommented line)) with
  | [] => newMap
  | address :: names =>
    if 58 ∈ address then newMap
    else makeIPToNamesZone (names.foldl (fun newMap name => makeNameToIPZone newMap name address) newMap) address
      names

/-- `export-etc-hosts`. -/
def addHosts (files : Files) (arg : Octets → Octets) (newMap : DomainMap) : DomainMap :=
  if mustDo (arg exportEtcHosts) then
    match files (arg etcHostsFile) with
    | none => newMap
    | some text => (getlines text).foldl addHost newMap
  else newMap

/-- The networks of RFC 1918, and the loopback network. -/
def privateNetworks : List Octets :=
  [ascii "127", ascii "10", ascii "192.168"] ++ (List.range' 16 16).map fun n => ascii "172." ++ decimal n

/-- `serve-rfc1918`. -/
def addPrivate (arg : Octets → Octets) (newMap : DomainMap) : DomainMap :=
  if mustDo (arg serveRFC1918) then
    privateNetworks.foldl (fun newMap address => makeIPToNamesZone newMap address []) newMap
  else newMap

/-- `parseAuthAndForwards()`. The parameters it asks for are all declared. -/
def parseAuthAndForwards (lib : Library) (files : Files) (arg : Octets → Octets) : Except ParseError DomainMap := do
  let newMap ← addOptions lib files arg
  let newMap ← addForwardFile lib files (arg forwardZonesFile) newMap
  pure (addPrivate arg (addHosts files arg newMap))

/-! ### What the map is made of -/

/-- **Seven parameters** make the map, with the files; the hosts file only when it is exported. -/
theorem parseAuthAndForwards_congr (lib : Library) (files : Files) {arg arg' : Octets → Octets}
    (hsame : ∀ var ∈ [authZones, forwardZones, forwardZonesRecurse, forwardZonesFile, exportEtcHosts, serveRFC1918],
      arg var = arg' var)
    (hhosts : mustDo (arg exportEtcHosts) = true → arg etcHostsFile = arg' etcHostsFile) :
    parseAuthAndForwards lib files arg = parseAuthAndForwards lib files arg' := by
  simp only [List.forall_mem_cons] at hsame
  obtain ⟨hauth, hforward, hrecurse, hfile, hexport, hserve, -⟩ := hsame
  have hoptions : addOptions lib files arg = addOptions lib files arg' := by
    simp only [addOptions, optionNames, List.foldlM_cons, List.foldlM_nil, hauth, hforward, hrecurse]
  have haddHosts : addHosts files arg = addHosts files arg' := by
    funext newMap
    unfold addHosts
    rw [hexport] at hhosts ⊢
    by_cases hmust : mustDo (arg' exportEtcHosts) = true
    · rw [if_pos hmust, if_pos hmust, hhosts hmust]
    · rw [if_neg hmust, if_neg hmust]
  have haddPrivate : addPrivate arg = addPrivate arg' := by
    funext newMap
    unfold addPrivate
    rw [hserve]
  unfold parseAuthAndForwards
  rw [hoptions, hfile, haddHosts, haddPrivate]

end RecZones

end PowerDNS
