import PowerDNS.Packet.MOADNSParser
import PowerDNS.Recursor.SyncRes

/-!
# What a reply delivers: `asyncresolve`

Once `arecvfrom` has returned a packet, `asyncresolve` parses it and compares the name in its
question with the name that was asked. Only when they are equal but for letter case are its
records handed on (`qname_of_delivered`); when they are not, or the packet cannot be parsed, the
caller gets none. This is the last check on the way of a reply, and the only one that looks at
the packet the way the parser does.
-/

namespace PowerDNS

/-- `LWResult` with what the reply says about EDNS. -/
structure LWReply extends LWResult where
  d_haveEDNS : Bool
  d_pingCorrect : Bool

/-- `OPTRecordContent::getData`. `char`s are signed, and a pair of them is put together with
`0xff`. -/
def getData (d_data : Octets) : Nat → Nat → List (UInt16 × Octets)
  | 0, _ => []
  | fuel + 1, pos =>
    if d_data.length < 4 + pos then []
    else
      let pair (p : Nat) : UInt16 :=
        UInt16.ofInt (0xff * (d_data.getD p 0).toInt8.toInt + (d_data.getD (p + 1) 0).toInt8.toInt)
      let len := (pair (pos + 2)).toNat
      if d_data.length < pos + 4 + len then []
      else (pair pos, (d_data.drop (pos + 4)).take len) :: getData d_data fuel (pos + 4 + len)

/-- `getEDNSOpts`, the options: they are in the last record, if that is an OPT record. -/
def getEDNSOpts (types : TypeMap) (mdp : MOADNSParser) : Option (List (UInt16 × Octets)) :=
  if mdp.d_header.arcount = 0 then none
  else
    match mdp.d_answers.getLast? with
    | none => none
    | some r =>
      if r.1.d_type ≠ QType.OPT then none
      -- `dynamic_cast<OPTRecordContent*>`
      else if !types.any fun t => t.1 == (1, QType.OPT) then none
      else
        match r.1.d_content with
        | .octets d_data :: _ => some (getData d_data d_data.length 0)
        | _ => some []

/-- `DNSRecord::Place` as a `DNSResourceRecord::Place`. -/
def RecordPlace.toPlace : RecordPlace → Place
  | .Answer => .ANSWER
  | .Nameserver => .AUTHORITY
  | .Additional => .ADDITIONAL

/-- The loop over the records: what has been pushed, and whether a content threw.
`getZoneRepresentation` writes a content as a text, which may throw. -/
def pushRecords (getZoneRepresentation : DNSRecord → Except String Octets) :
    List (DNSRecord × UInt16) → List TextRR × Bool
  | [] => ([], false)
  | i :: is =>
    match getZoneRepresentation i.1 with
    | .error _ => ([], true)
    | .ok content =>
      let rest := pushRecords getZoneRepresentation is
      ({ qtype := i.1.d_type
         qname := i.1.d_label
         wildcardname := []
         content := content
         ttl := i.1.d_ttl
         d_place := i.1.d_place.toPlace } :: rest.1, rest.2)

section AsyncResolve

variable (types : TypeMap) (getZoneRepresentation : DNSRecord → Except String Octets)

/-- `asyncresolve` from where it has the packet in `buf`: what it returns, and the reply.
`ping` is the nonce it sent. -/
def asyncresolve (domain : Octets) (EDNS0Level : Nat) (ping buf : Octets) (lwr : LWReply) :
    Int × LWReply :=
  let lwr := { lwr with d_rcode := 0, d_pingCorrect := false, d_haveEDNS := false, d_result := [] }
  match MOADNSParser.init types buf with
  -- success - oddly enough
  | .error _ => (1, { lwr with d_rcode := RCode.FormErr })
  | .ok mdp =>
    let lwr := { lwr with
      d_aabit := buf.getD 2 0 &&& 4 != 0
      d_tcbit := mdp.d_header.tc
      d_rcode := (buf.getD 3 0 &&& 15).toNat }
    if lwr.d_rcode = RCode.FormErr ∧ mdp.d_qname = [] ∧ mdp.d_qtype = 0 ∧ mdp.d_qclass = 0 then
      (1, lwr)
    else if !pdnsIequals domain mdp.d_qname then
      (-1, { lwr with d_rcode := if lwr.d_rcode = 0 then RCode.ServFail else lwr.d_rcode })
    else
      let pushed := pushRecords getZoneRepresentation mdp.d_answers
      let lwr := { lwr with d_result := pushed.1 }
      if pushed.2 then (1, { lwr with d_rcode := RCode.FormErr })
      else if 1 < EDNS0Level then
        match getEDNSOpts types mdp with
        | none => (1, lwr)
        | some d_options =>
          (1, { lwr with
            d_haveEDNS := true
            d_pingCorrect := d_options.any fun o => (o.1 == 5 || o.1 == 4) && o.2 == ping })
      else (1, lwr)

variable {types getZoneRepresentation}

/-- A packet without questions has an empty question name for the parser. -/
theorem qdcount_of_qname {packet : Octets} {p : MOADNSParser}
    (h : MOADNSParser.init types packet = .ok p) (hname : p.d_qname ≠ []) :
    (Dnsheader.ofPacket packet).qdcount ≠ 0 := by
  intro hnone
  apply hname
  unfold MOADNSParser.init at h
  dsimp only at h
  split at h
  next => cases h
  next =>
    split at h
    next => cases h
    next =>
      split at h
      next => cases h
      next => cases h
      next q hq =>
        -- no question was read
        rw [hnone] at hq
        cases hq
        split at h
        next =>
          cases h
          rfl
        next =>
          split at h
          next =>
            cases h
            rfl
          next => cases h
        next => cases h

/-- **The name of what is delivered.** Records are handed on only from a packet whose question
is for the name that was asked. -/
theorem qname_of_delivered {domain : Octets} {EDNS0Level : Nat} {ping buf : Octets} {lwr : LWReply}
    (h : (asyncresolve types getZoneRepresentation domain EDNS0Level ping buf lwr).2.d_result ≠ []) :
    ∃ mdp, MOADNSParser.init types buf = .ok mdp ∧ pdnsIequals domain mdp.d_qname = true ∧
      (domain ≠ [] → (Dnsheader.ofPacket buf).qdcount ≠ 0) := by
  unfold asyncresolve at h
  dsimp only at h
  split at h
  next => exact absurd rfl h
  next mdp hmdp =>
    split at h
    next => exact absurd rfl h
    next =>
      split at h
      next => exact absurd rfl h
      next hequal =>
        have hname : pdnsIequals domain mdp.d_qname = true := by simpa using hequal
        refine ⟨mdp, hmdp, hname, fun hdomain => qdcount_of_qname hmdp fun hnil => hdomain ?_⟩
        rw [pdnsIequals_iff, hnil, toLower_nil, toLower_eq_nil] at hname
        exact hname

end AsyncResolve

end PowerDNS
