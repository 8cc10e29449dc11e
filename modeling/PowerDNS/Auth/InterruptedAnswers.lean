import PowerDNS.Auth.PacketHandler
import PowerDNS.Lib.Interruption

/-!
# Answers that are interrupted by the backend

Any call of the backend may throw: a `DBException`, or a standard exception. Here `questionOrRecurse` is a
program that can be interrupted there. Its state is the packet `r`, which is null until the reply has been
made, and gets its records one after the other, between the calls of the backend.

The handler of standard exceptions makes a new reply. That of a `DBException` goes on with `r` as it is:
`servfail_clean_iff` says that a clean SERVFAIL comes out exactly when the exception comes before the first record
of the reply, and there is a reply. `firstCalls` are the calls for which this is so. A NOTIFY has none: its
backend is asked while `r` is still null.

Where no zone is found in `addNSEC` with an empty `auth` or in `synthesiseRRSIGs`, the code looks through a pointer
that was not set. The program here has nothing more to do there.
-/

namespace PowerDNS

open Interruption Prog Option List

/-- What a backend throws. -/
inductive BackendException
  | DBException (reason : Octets)
  | exception (what : Octets)
  deriving DecidableEq

/-- The answers of a backend over worlds `W`. A `lookup` and the `get`s behind it give records, and may throw
behind them. `wrapup` is not the backend's; it throws a standard exception for a record that cannot be
written. -/
structure LiveBackend (W : Type) where
  lookup : UInt16 → DName → Int → W → (List StoredRR × Option BackendException) × W
  getSOA : DName → W → Except BackendException (Option SOAData) × W
  getBeforeAndAfterNames : Int → DName → DName → W → Except BackendException (DName × DName) × W
  getBeforeAndAfterNamesAbsolute : Int → Octets → W → Except BackendException (DName × Octets × Octets) × W
  processNotify : Query → W → Except BackendException (Option Nat) × W
  wrapup : Reply → Option Octets

/-- What a run of `questionOrRecurse` works on: the packet `r`, or null, and whether `PC.insert` was called. -/
structure Handling (W : Type) where
  world : W
  r : Option Reply := none
  cached : Bool := false
  deriving DecidableEq

namespace PacketHandler

/-! ### The code -/

section Code

variable {W : Type} (H : PacketHandler) (B : LiveBackend W)

/-- The part of `questionOrRecurse` inside of `try`. -/
abbrev HandlerProg (W : Type) (α : Type) := Prog (Handling W) BackendException α

/-- A call of the backend. -/
def call {α : Type} (f : W → Except BackendException α × W) : HandlerProg W α :=
  fun s => ((f s.world).1, { s with world := (f s.world).2 })

/-- A change of the packet. -/
def onReply (f : Reply → Reply) : HandlerProg W Unit := update fun s => { s with r := s.r.map f }

/-- `r->addRecord(rr)`. -/
def addRecord (rr : ReplyRR) : HandlerProg W Unit := onReply fun r => r.addRecords [rr]

/-- The packet, when there is one. -/
def readReply : HandlerProg W Reply := read fun s => s.r.getD {}

/-- `B.lookup(…)`, and `while(B.get(rr))` with what is done for each record. -/
def lookupEach (qtype : UInt16) (qname : DName) (zoneId : Int) (f : StoredRR → HandlerProg W Unit) :
    HandlerProg W (List StoredRR) := do
  let found ← call fun w => (.ok (B.lookup qtype qname zoneId w).1, (B.lookup qtype qname zoneId w).2)
  each f found.1
  match found.2 with
  | some e => raise e
  | none => pure found.1

/-- The same where nothing is done to the packet in between. -/
def lookupAll (qtype : UInt16) (qname : DName) (zoneId : Int) : HandlerProg W (List StoredRR) :=
  lookupEach B qtype qname zoneId fun _ => pure ()

/-- `getAuth`. -/
def liveGetAuth : DName → HandlerProg W (Option SOAData)
  | [] => call (B.getSOA [])
  | l :: subdomain => do
    match ← call (B.getSOA (l :: subdomain)) with
    | some sd => pure (some sd)
    | none => liveGetAuth subdomain

/-- The NS records of a name that are not authoritative. -/
def liveUnauthNS (sd : SOAData) (subdomain : DName) : HandlerProg W (List StoredRR) := do
  let rrs ← lookupAll B QType.NS subdomain sd.domain_id
  pure (rrs.filter fun rr => !rr.auth)

/-- `getBestReferralNS`. -/
def liveGetBestReferralNS (sd : SOAData) : DName → HandlerProg W (List StoredRR)
  | [] => if [] = sd.qname then pure [] else liveUnauthNS B sd []
  | l :: subdomain =>
    if l :: subdomain = sd.qname then pure []
    else do
      let ret ← liveUnauthNS B sd (l :: subdomain)
      if ret ≠ [] then pure ret else liveGetBestReferralNS sd subdomain

/-- `getBestWildcard`. -/
def liveGetBestWildcard (p : Query) (sd : SOAData) : DName → HandlerProg W (List StoredRR)
  | [] => pure []
  | _ :: subdomain => do
    let rrs ← lookupAll B QType.ANY (wildcardName subdomain) sd.domain_id
    let ret := rrs.filter fun rr => rr.qtype == p.qtype || rr.qtype == QType.CNAME
    if ret ≠ [] then pure ret
    else if subdomain = sd.qname then pure []
    else liveGetBestWildcard p sd subdomain

/-- The record of `emitNSEC`. -/
def nsecRecord (rrs : List StoredRR) (begin «end» auth : DName) (mode : Nat) : ReplyRR :=
  let start := [QType.RRSIG, QType.NSEC] ++ (if auth = begin then [QType.DNSKEY] else [])
  { lastGot rrs with
    qname := begin
    ttl := 3600
    qtype := QType.NSEC
    content := .nsec { d_next := «end», d_set := typeSet (start ++ rrs.map (·.qtype)) }
    d_place := if mode = 2 then .ANSWER else .AUTHORITY
    auth := true }

/-- `emitNSEC`. -/
def liveEmitNSEC (begin «end» auth : DName) (mode : Nat) : HandlerProg W Unit := do
  let rrs ← lookupAll B QType.ANY begin (-1)
  addRecord (nsecRecord rrs begin «end» auth mode)

/-- `addNSEC`. -/
def liveAddNSEC (p : Query) (target auth : DName) (mode : Nat) : HandlerProg W Unit :=
  if !p.d_dnssecOk then pure ()
  else do
    match ← (if auth = [] then liveGetAuth B target else call (B.getSOA auth)) with
    | none => pure ()
    | some sd => do
      let around ← call (B.getBeforeAndAfterNames sd.domain_id auth target)
      when (mode = 0 ∨ mode = 2) (liveEmitNSEC B target around.2 auth mode)
      when (mode = 1) do
        liveEmitNSEC B around.1 around.2 auth mode
        let apex ← call (B.getBeforeAndAfterNames sd.domain_id auth auth)
        liveEmitNSEC B auth apex.2 auth mode
      when (mode = 3) (liveEmitNSEC B around.1 around.2 auth mode)

/-- The record of `emitNSEC3`. -/
def nsec3Record (rrs : List StoredRR) (ns3prc : NSEC3PARAMData) (auth unhashed : DName) (begin «end» : Octets)
    (mode : Nat) : ReplyRR :=
  let types := QType.RRSIG :: rrs.map (·.qtype) ++ (if unhashed = auth then [QType.NSEC3PARAM] else [])
  { lastGot rrs with
    qname := H.toBase32Hex begin :: auth
    ttl := 3600
    qtype := QType.NSEC3
    content := .nsec3 { d_iterations := ns3prc.d_iterations, d_salt := ns3prc.d_salt,
                        d_nexthash := «end»,
                        d_set := typeSet types }
    d_place := if mode = 2 then .ANSWER else .AUTHORITY
    auth := true }

/-- One of the three parts of `addNSEC3`. -/
def liveEmitNSEC3 (sd : SOAData) (auth : DName) (ns3prc : NSEC3PARAMData) (mode : Nat) (name : DName) :
    HandlerProg W Unit := do
  let hashed := H.toBase32Hex (H.hashQNameWithSalt ns3prc.d_iterations ns3prc.d_salt name)
  let found ← call (B.getBeforeAndAfterNamesAbsolute sd.domain_id hashed)
  let rrs ← lookupAll B QType.ANY found.1 (-1)
  addRecord (H.nsec3Record rrs ns3prc auth found.1 (H.fromBase32Hex found.2.1) (H.fromBase32Hex found.2.2) mode)

/-- `addNSEC3`. -/
def liveAddNSEC3 (p : Query) (auth : DName) (ns3prc : NSEC3PARAMData) (mode : Nat) : HandlerProg W Unit := do
  match ← call (B.getSOA auth) with
  | none => pure ()
  | some sd => each (H.liveEmitNSEC3 B sd auth ns3prc mode) [auth, p.qdomain, star :: auth]

/-- `addNSECX`. -/
def liveAddNSECX (p : Query) (target auth : DName) (mode : Nat) : HandlerProg W Unit :=
  match H.getNSEC3PARAM auth with
  | some ns3rc => H.liveAddNSEC3 B p auth ns3rc mode
  | none => liveAddNSEC B p target auth mode

/-- `makeNXDomain`. -/
def liveMakeNXDomain (p : Query) (target : DName) (sd : SOAData) : HandlerProg W Unit := do
  addRecord (soaRecord sd .AUTHORITY)
  when (p.d_dnssecOk = true) (H.liveAddNSECX B p target sd.qname 1)
  onReply fun r => r.setRcode RCode.NXDomain

/-- `makeNOError`. -/
def liveMakeNOError (p : Query) (target : DName) (sd : SOAData) : HandlerProg W Unit := do
  addRecord (soaRecord sd .AUTHORITY)
  when (p.d_dnssecOk = true) (H.liveAddNSECX B p target sd.qname 0)

/-- `addDSforNS`: whether there was a record. They are added while they are got. -/
def liveAddDSforNS (sd : SOAData) (dsname : DName) : HandlerProg W Bool := do
  let rrs ← lookupEach B QType.DS dsname sd.domain_id fun rr => addRecord { rr.inReply with d_place := .AUTHORITY }
  pure (!rrs.isEmpty)

/-- `tryReferral`. -/
def liveTryReferral (p : Query) (sd : SOAData) (target : DName) : HandlerProg W Bool := do
  match ← liveGetBestReferralNS B sd target with
  | [] => pure false
  | ns :: rest => do
    each (fun rr => addRecord { rr.inReply with d_place := .AUTHORITY }) (ns :: rest)
    onReply fun r => r.setA false
    let gotOne ← liveAddDSforNS B sd ns.qname
    when (gotOne = false) (H.liveAddNSECX B p ns.qname sd.qname 0)
    pure true

/-- `tryWildcard`: the new target, when there is one; `none` is the result `false`. -/
def liveTryWildcard (p : Query) (sd : SOAData) (target : DName) : HandlerProg W (Option (Option DName)) := do
  let rrset ← liveGetBestWildcard B p sd target
  if rrset = [] then pure none
  else do
    each (fun rr =>
      addRecord { rr.inReply with wildcardname := rr.qname, qname := p.qdomain, d_place := .ANSWER }) rrset
    when (p.d_dnssecOk = true) (H.liveAddNSECX B p p.qdomain sd.qname 3)
    pure (some (((rrset.filter fun rr => rr.qtype = QType.CNAME).getLast?).map fun rr => splitDots rr.content))

/-- `synthesiseRRSIGs`. -/
def liveSynthesiseRRSIGs (p : Query) : HandlerProg W Unit := do
  let rrs ← lookupAll B QType.ANY p.qdomain (-1)
  match ← liveGetAuth B p.qdomain with
  | none => pure ()
  | some sd => do
    let _ ← call (B.getBeforeAndAfterNames sd.domain_id sd.qname p.qdomain)
    each addRecord ((typeSet (QType.NSEC :: (rrs.filter (·.auth)).map (·.qtype))).flatMap fun t =>
      (false :: if t = QType.DNSKEY then [true] else []).map (synthesisedRRSIG p rrs t))

/-- Where a pass ends: at the label `sendit`, or back at `retargeted` with a new target. -/
inductive LivePass
  | sendit
  | retarget (target : DName)

/-- From the lookup of the target to the next `goto`, when the target owns records. -/
def liveAnswerOwned (p : Query) (sd : SOAData) (target : DName) (rrset : List StoredRR) : HandlerProg W LivePass :=
  match redirection p rrset with
  | some rr => do
    addRecord rr.inReply
    pure (.retarget (splitDots rr.content))
  | none =>
    if weDone p rrset then do
      each (fun rr => addRecord rr.inReply) (wanted p rrset)
      when (p.qtype = QType.ANY) (H.liveAddNSECX B p target sd.qname 2)
      pure .sendit
    else if weHaveUnauth p rrset then do
      let _ ← H.liveTryReferral B p sd target
      pure .sendit
    else do
      H.liveMakeNOError B p target sd
      pure .sendit

/-- The same when the target owns nothing. -/
def liveAnswerNothing (p : Query) (sd : SOAData) (target : DName) : HandlerProg W LivePass := do
  match ← H.liveTryWildcard B p sd target with
  | some (some target) => pure (.retarget target)
  | some none => pure .sendit
  | none => do
    let referred ← H.liveTryReferral B p sd target
    when (referred = false) (H.liveMakeNXDomain B p target sd)
    pure .sendit

/-- From the label `retargeted` to the next `goto`. -/
def livePass (p : Query) (target : DName) : HandlerProg W LivePass := do
  match ← liveGetAuth B target with
  | none => do
    onReply fun r => r.setA false
    when (H.sendRootReferral = .no) (onReply fun r => r.setRcode RCode.ServFail)
    when (H.sendRootReferral ≠ .no) (each addRecord H.addRootReferral)
    pure .sendit
  | some sd =>
    if p.qtype = QType.SOA ∧ sameName sd.qname p.qdomain then do
      addRecord (soaRecord sd .ANSWER)
      pure .sendit
    else if p.qtype = QType.NSEC ∧ p.d_dnssecOk then do
      liveAddNSEC B p target [] 2
      pure .sendit
    else if p.qtype = QType.RRSIG ∧ p.d_dnssecOk then do
      liveSynthesiseRRSIGs B p
      pure .sendit
    else do
      match ← lookupAll B QType.ANY target sd.domain_id with
      | [] => H.liveAnswerNothing B p sd target
      | rr :: rrs => H.liveAnswerOwned B p sd target (rr :: rrs)

/-- The body of the loop in `doAdditionalProcessingAndDropAA`. -/
def liveProcessAdditional (i : ReplyRR) : HandlerProg W Unit := do
  let r ← readReply
  when (r.aa = true ∧ i.qname ≠ [] ∧ i.qtype = QType.NS) do
    let soa ← call (B.getSOA i.qname)
    when (soa = none) (onReply fun r => r.setA false)
  each (fun t => do
    let _ ← lookupEach B t (splitDots i.content.asText) (-1) fun rr =>
      when (rr.domain_id = i.domain_id ∨ H.outOfZoneAdditionalProcessing = true)
        (addRecord { rr.inReply with d_place := .ADDITIONAL })
    pure ()) (QType.A :: if H.d_doIPv6AdditionalProcessing then [QType.AAAA] else [])

/-- `doAdditionalProcessingAndDropAA`. -/
def liveAdditionalProcessing (p : Query) : HandlerProg W Unit :=
  if p.qtype = QType.AXFR then pure ()
  else do
    let r ← readReply
    each (H.liveProcessAdditional B) r.getAPRecords

/-- What follows the label `sendit`. The packet cache comes last. -/
def liveSendit (p : Query) : HandlerProg W Unit := do
  H.liveAdditionalProcessing B p
  let r ← readReply
  match B.wrapup r with
  | some what => raise (.exception what)
  | none => update fun s => { s with cached := true }

/-- The passes, as many as `retargetcount` still allows. -/
def liveRetargeted (p : Query) : Nat → DName → HandlerProg W Unit
  | 0, _ => onReply fun r => r.setRcode RCode.ServFail
  | left + 1, target => do
    match ← H.livePass B p target with
    | .sendit => H.liveSendit B p
    | .retarget target => liveRetargeted p left target

/-- `replyPacket()`. -/
def emptyReply (p : Query) : Reply := { opcode := p.opcode }

/-- What is inside of `try`, from the reply packet on. -/
def liveAnswer (p : Query) : HandlerProg W Unit := do
  update fun s => { s with r := some (H.replyPacket p) }
  if p.qtype = QType.IXFR then onReply fun r => r.setRcode RCode.NotImp
  else if H.d_doFancyRecords ∧ (p.qtype = QType.URL ∨ p.qtype = QType.CURL ∨ p.qtype = QType.MBOXFW) then
    onReply fun r => r.setRcode RCode.ServFail
  else
    match H.answerEarly p (H.replyPacket p) with
    | some r => do
      update fun s => { s with r := some r }
      H.liveSendit B p
    | none => do
      onReply fun r => r.setA (r.aa && p.qclass ≠ 255)
      H.liveRetargeted B p 11 p.qdomain

/-- What is inside of `try`; the result is the packet, or none for a null pointer. -/
def tryBlock (p : Query) : HandlerProg W (Option Reply) :=
  let refuse (rcode : Nat) : Option Reply := some ((emptyReply p).setRcode rcode)
  if p.qr then pure none
  else if !validDNSName p.qdomain then pure (refuse RCode.ServFail)
  else if p.opcode = 4 then do
    let res ← call (B.processNotify p)
    pure (res.bind refuse)
  else if p.opcode ≠ 0 then pure (refuse RCode.NotImp)
  else do
    H.liveAnswer B p
    read fun s => s.r

/-- How `questionOrRecurse` ends: with a packet or a null pointer, and whether the packet cache has got it; or by
a look through a null pointer. -/
inductive Ending
  | returned (r : Option Reply) (cached : Bool)
  | nullDereference
  deriving DecidableEq

/-- `questionOrRecurse` with its exception handlers. -/
def liveQuestionOrRecurse (p : Query) (w : W) : Ending :=
  match H.tryBlock B p { world := w } with
  | (.ok r, s) => .returned r s.cached
  | (.error (.DBException _), s) =>
    match s.r with
    | some r => .returned (some (r.setRcode RCode.ServFail)) s.cached
    | none => .nullDereference
  | (.error (.exception _), s) => .returned (some ((emptyReply p).setRcode RCode.ServFail)) s.cached

end Code

/-- The beginning of a pass: what is asked before the first record. The NSEC record of `liveAddNSEC` and the RRSIGs
of `liveSynthesiseRRSIGs` come behind all their calls. -/
def passCalls {W : Type} (B : LiveBackend W) (p : Query) (target : DName) : HandlerProg W Unit := do
  match ← liveGetAuth B target with
  | none => pure ()
  | some sd =>
    if p.qtype = QType.SOA ∧ sameName sd.qname p.qdomain then pure ()
    else if p.qtype = QType.NSEC ∧ p.d_dnssecOk then liveAddNSEC B p target [] 2
    else if p.qtype = QType.RRSIG ∧ p.d_dnssecOk then liveSynthesiseRRSIGs B p
    else do
      match ← lookupAll B QType.ANY target sd.domain_id with
      | [] => do
        let rrset ← liveGetBestWildcard B p sd target
        if rrset = [] then do
          let _ ← liveGetBestReferralNS B sd target
          pure ()
        else pure ()
      | rr :: rrs =>
        if redirection p (rr :: rrs) = none ∧ weDone p (rr :: rrs) = false ∧
            weHaveUnauth p (rr :: rrs) = true then do
          let _ ← liveGetBestReferralNS B sd target
          pure ()
        else pure ()

/-- The beginning of the work on a query: an empty reply packet, and the beginning of the first pass. A query that
does not come to a pass asks nothing here. -/
def firstCalls {W : Type} (H : PacketHandler) (B : LiveBackend W) (p : Query) : HandlerProg W Unit :=
  if p.qr = true ∨ validDNSName p.qdomain = false ∨ p.opcode ≠ 0 ∨ p.qtype = QType.IXFR ∨
    (H.d_doFancyRecords ∧ (p.qtype = QType.URL ∨ p.qtype = QType.CURL ∨ p.qtype = QType.MBOXFW)) ∨
      H.answerEarly p (H.replyPacket p) ≠ none then pure ()
  else do
    update fun s => { s with r := some (H.replyPacket p) }
    onReply fun r => r.setA (r.aa && p.qclass ≠ 255)
    passCalls B p p.qdomain

/-! ### What is kept until an interruption -/

/-- Only the backend was asked. -/
def Same {W : Type} (s s' : Handling W) : Prop := s'.cached = s.cached ∧ s'.r = s.r

/-- There is a packet, and a record in it. -/
def HasRecord {W : Type} (s : Handling W) : Prop := ∃ r, s.r = some r ∧ r.d_rrs ≠ []

/-- The packet cache is left alone, a packet stays a packet, and records are not taken out again. -/
def Kept {W : Type} (s s' : Handling W) : Prop :=
  s'.cached = s.cached ∧ (s.r.isSome = true → s'.r.isSome = true) ∧ (HasRecord s → HasRecord s')

section Relations

variable {W : Type}

instance : Std.Refl (@Same W) := ⟨fun _ => ⟨rfl, rfl⟩⟩

instance : IsTrans (Handling W) Same := ⟨fun _ _ _ h h' => ⟨h'.1.trans h.1, h'.2.trans h.2⟩⟩

instance : Std.Refl (@Kept W) := ⟨fun _ => ⟨rfl, id, id⟩⟩

instance : IsTrans (Handling W) Kept :=
  ⟨fun _ _ _ h h' => ⟨h'.1.trans h.1, fun hr => h'.2.1 (h.2.1 hr), fun hr => h'.2.2 (h.2.2 hr)⟩⟩

theorem Same.kept {s s' : Handling W} (h : Same s s') : Kept s s' := by
  refine ⟨h.1, fun hr => ?_, fun hr => ?_⟩
  · rw [h.2]
    exact hr
  · unfold HasRecord at hr ⊢
    rwa [h.2]

end Relations

section Moves

variable {W : Type} (H : PacketHandler) (B : LiveBackend W) (p : Query)

theorem same_call {α : Type} (f : W → Except BackendException α × W) : Moves Same (call f) :=
  fun _ => ⟨rfl, rfl⟩

theorem moves_onReply {f : Reply → Reply} (hf : ∀ r, r.d_rrs ≠ [] → (f r).d_rrs ≠ []) :
    Moves Kept (onReply f : HandlerProg W Unit) := by
  refine moves_update fun s => ⟨rfl, fun hr => ?_, ?_⟩
  · rw [isSome_map]
    exact hr
  · rintro ⟨r, hr, hrecords⟩
    exact ⟨f r, by rw [hr, map_some], hf r hrecords⟩

theorem moves_addRecord (rr : ReplyRR) : Moves Kept (addRecord rr : HandlerProg W Unit) :=
  moves_onReply fun _ _ => append_ne_nil_of_right_ne_nil _ (cons_ne_nil _ _)

theorem moves_setA (f : Reply → Bool) : Moves Kept (onReply fun r => r.setA (f r) : HandlerProg W Unit) :=
  moves_onReply fun _ h => h

theorem moves_setRcode (v : Nat) : Moves Kept (onReply fun r => r.setRcode v : HandlerProg W Unit) :=
  moves_onReply fun _ h => h

theorem moves_lookupEach {R : Handling W → Handling W → Prop} [Std.Refl R] [IsTrans (Handling W) R]
    (hR : ∀ s s', Same s s' → R s s') (qtype : UInt16) (qname : DName) (zoneId : Int)
    {f : StoredRR → HandlerProg W Unit} (hf : ∀ rr, Moves R (f rr)) :
    Moves R (lookupEach B qtype qname zoneId f) := by
  refine moves_bind ((same_call _).mono hR) fun found => moves_bind (moves_each hf _) fun _ => ?_
  cases found.2 with
  | some e => exact moves_raise e
  | none => exact moves_pure _

theorem same_lookupAll (qtype : UInt16) (qname : DName) (zoneId : Int) :
    Moves Same (lookupAll B qtype qname zoneId) :=
  moves_lookupEach B (fun _ _ => id) qtype qname zoneId fun _ => moves_pure ()

theorem same_liveGetAuth (target : DName) : Moves Same (liveGetAuth B target) := by
  induction target with
  | nil => exact same_call _
  | cons l subdomain ih =>
    refine moves_bind (same_call _) fun found => ?_
    cases found with
    | some sd => exact moves_pure _
    | none => exact ih

theorem same_liveUnauthNS (sd : SOAData) (subdomain : DName) : Moves Same (liveUnauthNS B sd subdomain) :=
  moves_bind (same_lookupAll B _ _ _) fun _ => moves_pure _

theorem same_liveGetBestReferralNS (sd : SOAData) (target : DName) :
    Moves Same (liveGetBestReferralNS B sd target) := by
  induction target with
  | nil => exact moves_ite (moves_pure _) (same_liveUnauthNS B sd [])
  | cons l subdomain ih =>
    exact moves_ite (moves_pure _) (moves_bind (same_liveUnauthNS B sd _) fun _ => moves_ite (moves_pure _) ih)

theorem same_liveGetBestWildcard (sd : SOAData) (target : DName) :
    Moves Same (liveGetBestWildcard B p sd target) := by
  induction target with
  | nil => exact moves_pure _
  | cons l subdomain ih =>
    exact moves_bind (same_lookupAll B _ _ _) fun _ => moves_ite (moves_pure _) (moves_ite (moves_pure _) ih)

theorem moves_call {α : Type} (f : W → Except BackendException α × W) : Moves Kept (call f) :=
  (same_call f).mono fun _ _ => Same.kept

theorem moves_lookupAll (qtype : UInt16) (qname : DName) (zoneId : Int) :
    Moves Kept (lookupAll B qtype qname zoneId) := (same_lookupAll B qtype qname zoneId).mono fun _ _ => Same.kept

theorem moves_liveGetAuth (target : DName) : Moves Kept (liveGetAuth B target) :=
  (same_liveGetAuth B target).mono fun _ _ => Same.kept

theorem moves_liveGetBestReferralNS (sd : SOAData) (target : DName) :
    Moves Kept (liveGetBestReferralNS B sd target) :=
  (same_liveGetBestReferralNS B sd target).mono fun _ _ => Same.kept

theorem moves_liveGetBestWildcard (sd : SOAData) (target : DName) :
    Moves Kept (liveGetBestWildcard B p sd target) :=
  (same_liveGetBestWildcard B p sd target).mono fun _ _ => Same.kept

theorem moves_liveEmitNSEC (begin «end» auth : DName) (mode : Nat) :
    Moves Kept (liveEmitNSEC B begin «end» auth mode) :=
  moves_bind (moves_lookupAll B _ _ _) fun _ => moves_addRecord _

theorem moves_liveAddNSEC (target auth : DName) (mode : Nat) : Moves Kept (liveAddNSEC B p target auth mode) := by
  refine moves_ite (moves_pure _)
    (moves_bind (moves_ite (moves_liveGetAuth B target) (moves_call _)) fun found => ?_)
  cases found with
  | none => exact moves_pure _
  | some sd =>
    refine moves_bind (moves_call _) fun around => moves_bind ?_ fun _ => moves_bind ?_ fun _ => ?_
    · exact moves_when (moves_liveEmitNSEC B _ _ _ _)
    · refine moves_when (moves_bind (moves_liveEmitNSEC B _ _ _ _) fun _ => ?_)
      exact moves_bind (moves_call _) fun _ => moves_liveEmitNSEC B _ _ _ _
    · exact moves_when (moves_liveEmitNSEC B _ _ _ _)

theorem moves_liveAddNSEC3 (auth : DName) (ns3prc : NSEC3PARAMData) (mode : Nat) :
    Moves Kept (H.liveAddNSEC3 B p auth ns3prc mode) := by
  refine moves_bind (moves_call _) fun found => ?_
  cases found with
  | none => exact moves_pure _
  | some sd =>
    exact moves_each (fun _ => moves_bind (moves_call _) fun _ =>
      moves_bind (moves_lookupAll B _ _ _) fun _ => moves_addRecord _) _

theorem moves_liveAddNSECX (target auth : DName) (mode : Nat) :
    Moves Kept (H.liveAddNSECX B p target auth mode) := by
  unfold liveAddNSECX
  cases H.getNSEC3PARAM auth with
  | some ns3rc => exact moves_liveAddNSEC3 H B p auth ns3rc mode
  | none => exact moves_liveAddNSEC B p target auth mode

theorem moves_liveMakeNXDomain (target : DName) (sd : SOAData) : Moves Kept (H.liveMakeNXDomain B p target sd) :=
  moves_bind (moves_addRecord _) fun _ =>
    moves_bind (moves_when (moves_liveAddNSECX H B p _ _ _)) fun _ => moves_setRcode _

theorem moves_liveMakeNOError (target : DName) (sd : SOAData) : Moves Kept (H.liveMakeNOError B p target sd) :=
  moves_bind (moves_addRecord _) fun _ => moves_when (moves_liveAddNSECX H B p _ _ _)

theorem moves_liveAddDSforNS (sd : SOAData) (dsname : DName) : Moves Kept (liveAddDSforNS B sd dsname) :=
  moves_bind (moves_lookupEach B (fun _ _ => Same.kept) _ _ _ fun _ => moves_addRecord _) fun _ => moves_pure _

theorem moves_liveTryReferral (sd : SOAData) (target : DName) : Moves Kept (H.liveTryReferral B p sd target) := by
  refine moves_bind (moves_liveGetBestReferralNS B sd target) fun rrset => ?_
  cases rrset with
  | nil => exact moves_pure _
  | cons ns rest =>
    refine moves_bind (moves_each (fun _ => moves_addRecord _) _) fun _ => moves_bind (moves_setA _) fun _ =>
      moves_bind ?_ fun gotOne => moves_bind ?_ fun _ => moves_pure _
    · exact moves_liveAddDSforNS B sd ns.qname
    · exact moves_when (moves_liveAddNSECX H B p _ _ _)

theorem moves_liveTryWildcard (sd : SOAData) (target : DName) : Moves Kept (H.liveTryWildcard B p sd target) :=
  moves_bind (moves_liveGetBestWildcard B p sd target) fun _ => moves_ite (moves_pure _)
    (moves_bind (moves_each (fun _ => moves_addRecord _) _) fun _ =>
      moves_bind (moves_when (moves_liveAddNSECX H B p _ _ _)) fun _ => moves_pure _)

theorem moves_liveSynthesiseRRSIGs : Moves Kept (liveSynthesiseRRSIGs B p) := by
  refine moves_bind (moves_lookupAll B _ _ _) fun _ => moves_bind (moves_liveGetAuth B _) fun found => ?_
  cases found with
  | none => exact moves_pure _
  | some sd => exact moves_bind (moves_call _) fun _ => moves_each moves_addRecord _

theorem moves_liveAnswerOwned (sd : SOAData) (target : DName) (rrset : List StoredRR) :
    Moves Kept (H.liveAnswerOwned B p sd target rrset) := by
  unfold liveAnswerOwned
  cases redirection p rrset with
  | some rr => exact moves_bind (moves_addRecord _) fun _ => moves_pure _
  | none =>
    refine moves_ite (moves_bind (moves_each (fun _ => moves_addRecord _) _) fun _ => moves_bind ?_ fun _ =>
      moves_pure _) (moves_ite ?_ ?_)
    · exact moves_when (moves_liveAddNSECX H B p _ _ _)
    · exact moves_bind (moves_liveTryReferral H B p _ _) fun _ => moves_pure _
    · exact moves_bind (moves_liveMakeNOError H B p _ _) fun _ => moves_pure _

theorem moves_liveAnswerNothing (sd : SOAData) (target : DName) :
    Moves Kept (H.liveAnswerNothing B p sd target) := by
  refine moves_bind (moves_liveTryWildcard H B p sd target) fun found => ?_
  cases found with
  | none =>
    exact moves_bind (moves_liveTryReferral H B p _ _) fun referred =>
      moves_bind (moves_when (moves_liveMakeNXDomain H B p _ _)) fun _ => moves_pure _
  | some target =>
    cases target with
    | some target => exact moves_pure _
    | none => exact moves_pure _

theorem moves_livePass (target : DName) : Moves Kept (H.livePass B p target) := by
  refine moves_bind (moves_liveGetAuth B target) fun found => ?_
  cases found with
  | none =>
    exact moves_bind (moves_setA _) fun _ => moves_bind (moves_when (moves_setRcode _)) fun _ =>
      moves_bind (moves_when (moves_each moves_addRecord _)) fun _ => moves_pure _
  | some sd =>
    refine moves_ite (moves_bind (moves_addRecord _) fun _ => moves_pure _) (moves_ite ?_ (moves_ite ?_ ?_))
    · exact moves_bind (moves_liveAddNSEC B p _ _ _) fun _ => moves_pure _
    · exact moves_bind (moves_liveSynthesiseRRSIGs B p) fun _ => moves_pure _
    · refine moves_bind (moves_lookupAll B _ _ _) fun rrset => ?_
      cases rrset with
      | nil => exact moves_liveAnswerNothing H B p sd target
      | cons rr rrs => exact moves_liveAnswerOwned H B p sd target (rr :: rrs)

theorem moves_liveProcessAdditional (i : ReplyRR) : Moves Kept (H.liveProcessAdditional B i) := by
  refine moves_bind (moves_read _) fun r => moves_bind ?_ fun _ => ?_
  · exact moves_when (moves_bind (moves_call _) fun soa => moves_when (moves_setA _))
  · exact moves_each (fun t => moves_bind (moves_lookupEach B (fun _ _ => Same.kept) _ _ _ fun _ =>
      moves_when (moves_addRecord _)) fun _ => moves_pure _) _

theorem moves_liveAdditionalProcessing : Moves Kept (H.liveAdditionalProcessing B p) :=
  moves_ite (moves_pure _) (moves_bind (moves_read _) fun _ => moves_each (moves_liveProcessAdditional H B) _)

/-- **The packet cache comes last.** -/
theorem interrupts_liveSendit : Interrupts Kept (H.liveSendit B p) := by
  refine interrupts_bind (moves_liveAdditionalProcessing H B p) fun _ =>
    interrupts_bind (moves_read _) fun r => ?_
  cases B.wrapup r with
  | some what => exact (moves_raise _).interrupts
  | none => exact interrupts_update _

theorem interrupts_liveRetargeted (left : Nat) (target : DName) :
    Interrupts Kept (H.liveRetargeted B p left target) := by
  induction left generalizing target with
  | zero => exact (moves_setRcode _).interrupts
  | succ left ih =>
    refine interrupts_bind (moves_livePass H B p target) fun ending => ?_
    cases ending with
    | sendit => exact interrupts_liveSendit H B p
    | retarget target => exact ih target

end Moves

/-! ### What is asked before the first record -/

section Beginning

variable {W : Type}

/-- There is a packet. -/
def HasPacket (s : Handling W) : Prop := s.r.isSome = true

/-- There is a packet, and no record in it. -/
def Fresh (s : Handling W) : Prop := HasPacket s ∧ ¬ HasRecord s

/-- An exception finds a packet without a record. -/
def Early (_ : BackendException) (s : Handling W) : Prop := Fresh s

/-- A `DBException` finds a record. -/
def Late (e : BackendException) (s : Handling W) : Prop := ∀ reason, e = .DBException reason → HasRecord s

theorem Same.fresh {s s' : Handling W} (hs : Fresh s) (h : Same s s') : Fresh s' := by
  unfold Fresh HasPacket HasRecord at hs ⊢
  rwa [h.2]

variable (H : PacketHandler) (B : LiveBackend W) (p : Query)

theorem ahead_same {α β : Type} {m : HandlerProg W α} {first : α → HandlerProg W Unit}
    {k : α → HandlerProg W β} (hm : Moves Same m) (hk : ∀ a, Ahead Fresh Early Late (first a) (k a)) :
    Ahead Fresh Early Late (m >>= first) (m >>= k) :=
  ahead_bind (hm.throws fun _ _ _ => Same.fresh) (hm.ends fun _ _ => Same.fresh) hk

theorem late_of_record {α : Type} {m : HandlerProg W α} (h : Interrupts Kept m) : Throws HasRecord m Late :=
  h.throws fun _ _ _ hs hkept _ _ => hkept.2.2 hs

theorem late_addRecord {α : Type} (rr : ReplyRR) {k : Unit → HandlerProg W α} (hk : Interrupts Kept (k ())) :
    Throws HasPacket (addRecord rr >>= k) Late := by
  refine throws_bind (throws_update _) (fun s a s' hs hrun => ?_) fun _ => late_of_record hk
  obtain ⟨r, hr⟩ := isSome_iff_exists.mp hs
  cases hrun
  refine ⟨r.addRecords [rr], ?_, append_ne_nil_of_right_ne_nil _ (cons_ne_nil _ _)⟩
  dsimp only
  rw [hr, map_some]

theorem late_addRecords {α β : Type} (f : β → ReplyRR) {l : List β} (hl : l ≠ [])
    {k : Unit → HandlerProg W α} (hk : Interrupts Kept (k ())) : Throws HasPacket (each (fun b => addRecord (f b)) l >>= k) Late := by
  cases l with
  | nil => exact absurd rfl hl
  | cons b l =>
    unfold each
    rw [bind_bind]
    exact late_addRecord (f b) (interrupts_bind (moves_each (fun _ => moves_addRecord _) l) fun _ => hk)

/-- Additional records are looked up for the records of the packet, so without one nothing is. -/
theorem late_liveAdditionalProcessing : Throws HasPacket (H.liveAdditionalProcessing B p) Late := by
  intro s e s' hs hrun reason _
  by_cases hrecord : HasRecord s
  · exact ((moves_liveAdditionalProcessing H B p).interrupts s e s' hrun).2.2 hrecord
  · obtain ⟨r, hr⟩ := isSome_iff_exists.mp hs
    have hempty : r.d_rrs = [] := by
      by_contra hne
      exact hrecord ⟨r, hr, hne⟩
    have hnone : (s.r.getD {}).getAPRecords = [] := by rw [hr, getD_some, Reply.getAPRecords, hempty]; rfl
    unfold liveAdditionalProcessing at hrun
    split at hrun
    · cases hrun
    · rw [bind_of_ok (show readReply s = (.ok (s.r.getD {}), s) from rfl), hnone] at hrun
      cases hrun

theorem late_liveSendit : Throws HasPacket (H.liveSendit B p) Late := by
  refine throws_bind (late_liveAdditionalProcessing H B p)
    ((moves_liveAdditionalProcessing H B p).ends fun _ _ hs h => h.2.1 hs) fun _ => ?_
  refine throws_bind (throws_read _) (Moves.ends (moves_read _) fun s s' hs (h : Kept s s') => h.2.1 hs) fun r => ?_
  cases B.wrapup r with
  | none => exact throws_update _
  | some what =>
    -- What cannot be written is no `DBException`.
    intro s e s' _ hrun reason he
    rw [he] at hrun
    cases hrun

variable {H B p}

variable {target : DName}

theorem ahead_liveTryReferral {sd : SOAData} {k : Bool → HandlerProg W Unit}
    (hnone : Throws HasPacket (k false) Late) (hk : ∀ b, Interrupts Kept (k b)) :
    Ahead Fresh Early Late (liveGetBestReferralNS B sd target >>= fun _ => pure ())
      (H.liveTryReferral B p sd target >>= k) := by
  unfold liveTryReferral
  rw [bind_bind]
  refine ahead_same (same_liveGetBestReferralNS B sd target) fun rrset => ahead_pure ?_
  cases rrset with
  | nil => exact fun s e s' hs => hnone s e s' hs.1
  | cons ns rest =>
    rw [bind_bind]
    refine fun s e s' hs => late_addRecords _ (cons_ne_nil ns rest) ?_ s e s' hs.1
    refine interrupts_bind (moves_bind (moves_setA _) fun _ => moves_bind ?_ fun gotOne => ?_) hk
    · exact moves_liveAddDSforNS B sd ns.qname
    · exact moves_bind (moves_when (moves_liveAddNSECX H B p _ _ _)) fun _ => moves_pure _

variable {k : LivePass → HandlerProg W Unit}

theorem ahead_liveAnswerNothing {sd : SOAData}
    (hk : ∀ ending, Interrupts Kept (k ending)) :
    Ahead Fresh Early Late
      (liveGetBestWildcard B p sd target >>= fun rrset =>
        if rrset = [] then liveGetBestReferralNS B sd target >>= fun _ => pure () else pure ())
      (H.liveAnswerNothing B p sd target >>= k) := by
  unfold liveAnswerNothing liveTryWildcard
  rw [bind_bind, bind_bind]
  refine ahead_same (same_liveGetBestWildcard B p sd target) fun rrset => ahead_ite (fun _ => ?_) fun hne => ?_
  · -- No wildcard: what a referral does not answer gets an NXDOMAIN, with the SOA record first.
    rw [pure_then]
    rw [bind_bind]
    refine ahead_liveTryReferral ?_ fun referred => ?_
    · rw [Prog.when, if_pos rfl, liveMakeNXDomain, bind_bind, bind_bind]
      refine late_addRecord _ (interrupts_bind ?_ fun _ => hk _)
      exact moves_bind (moves_when (moves_liveAddNSECX H B p _ _ _)) fun _ => moves_setRcode _
    · rw [bind_bind]
      exact interrupts_bind (moves_when (moves_liveMakeNXDomain H B p _ _)) fun _ => hk _
  · refine ahead_pure fun s e s' hs => ?_
    rw [bind_bind]
    refine late_addRecords _ hne ?_ s e s' hs.1
    refine interrupts_bind (moves_bind (moves_when (moves_liveAddNSECX H B p _ _ _)) fun _ => moves_pure _)
      fun found => ?_
    cases found with
    | none =>
      refine interrupts_bind (moves_bind (moves_liveTryReferral H B p _ _) fun referred => ?_) hk
      exact moves_bind (moves_when (moves_liveMakeNXDomain H B p _ _)) fun _ => moves_pure _
    | some target =>
      cases target with
      | none => exact hk _
      | some target => exact hk _

theorem ahead_liveAnswerOwned {sd : SOAData} {rrset : List StoredRR}
    (hsendit : Throws HasPacket (k .sendit) Late) (hk : ∀ ending, Interrupts Kept (k ending)) :
    Ahead Fresh Early Late
      (if redirection p rrset = none ∧ weDone p rrset = false ∧ weHaveUnauth p rrset = true then
        liveGetBestReferralNS B sd target >>= fun _ => pure () else pure ())
      (H.liveAnswerOwned B p sd target rrset >>= k) := by
  unfold liveAnswerOwned
  cases hredirection : redirection p rrset with
  | some rr =>
    rw [bind_bind]
    exact ahead_pure fun s e s' hs => late_addRecord _ (hk _) s e s' hs.1
  | none =>
    by_cases hdone : weDone p rrset = true
    · rw [if_neg (fun h => Bool.false_ne_true (h.2.1.symm.trans hdone)), if_pos hdone, bind_bind]
      have hwanted : wanted p rrset ≠ [] := by
        obtain ⟨rr, hrr, hthis⟩ := any_eq_true.mp hdone
        exact ne_nil_of_mem (mem_filter.mpr ⟨hrr, hthis⟩)
      refine ahead_pure fun s e s' hs => late_addRecords _ hwanted ?_ s e s' hs.1
      exact interrupts_bind (moves_bind (moves_when (moves_liveAddNSECX H B p _ _ _)) fun _ => moves_pure _) hk
    · rw [if_neg hdone]
      by_cases hunauth : weHaveUnauth p rrset = true
      · rw [if_pos ⟨rfl, Bool.eq_false_iff.mpr hdone, hunauth⟩, if_pos hunauth, bind_bind]
        exact ahead_liveTryReferral hsendit fun _ => hk _
      · rw [if_neg (fun h => hunauth h.2.2), if_neg hunauth, bind_bind, liveMakeNOError, bind_bind]
        refine ahead_pure fun s e s' hs => late_addRecord _ ?_ s e s' hs.1
        exact interrupts_bind (moves_when (moves_liveAddNSECX H B p _ _ _)) fun _ => hk _

theorem early_same {α β : Type} {m : HandlerProg W α} {k : α → HandlerProg W β} (hm : Moves Same m)
    (hk : ∀ a, Throws Fresh (k a) Early) : Throws Fresh (m >>= k) Early :=
  throws_bind (hm.throws fun _ _ _ => Same.fresh) (hm.ends fun _ _ => Same.fresh) hk

/-- The NSEC record comes behind the calls for it. -/
theorem early_liveAddNSEC : Throws Fresh (liveAddNSEC B p target [] 2) Early := by
  unfold liveAddNSEC
  split
  · exact throws_pure ()
  · rw [if_pos rfl]
    refine early_same (same_liveGetAuth B target) fun found => ?_
    cases found with
    | none => exact throws_pure ()
    | some sd =>
      refine early_same (same_call _) fun around => ?_
      refine throws_bind (T := fun _ => True) ?_ (fun _ _ _ _ _ => trivial) fun _ => ?_
      · rw [Prog.when, if_pos (by decide)]
        exact early_same (same_lookupAll B _ _ _) fun _ => throws_update _
      · -- The other modes.
        exact throws_pure ()

theorem early_liveSynthesiseRRSIGs : Throws Fresh (liveSynthesiseRRSIGs B p) Early := by
  refine early_same (same_lookupAll B _ _ _) fun rrs => early_same (same_liveGetAuth B _) fun found => ?_
  cases found with
  | none => exact throws_pure ()
  | some sd =>
    refine throws_bind (T := fun _ => True) ((same_call _).throws fun _ _ _ => Same.fresh)
      (fun _ _ _ _ _ => trivial) fun _ => ?_
    exact throws_each (fun _ => throws_update _) (fun _ _ _ _ _ _ => trivial) _

theorem late_bind {α β : Type} {m : HandlerProg W α} {k : α → HandlerProg W β} (hm : Throws HasPacket m Late)
    (hkept : Moves Kept m) (hk : ∀ a, Throws HasPacket (k a) Late) : Throws HasPacket (m >>= k) Late :=
  throws_bind hm (hkept.ends fun _ _ hs h => h.2.1 hs) hk

/-- **The first record of a pass comes behind `passCalls`.** -/
theorem ahead_livePass (hsendit : Throws HasPacket (k .sendit) Late)
    (hk : ∀ ending, Interrupts Kept (k ending)) :
    Ahead Fresh Early Late (passCalls B p target) (H.livePass B p target >>= k) := by
  unfold livePass passCalls
  rw [bind_bind]
  refine ahead_same (same_liveGetAuth B target) fun found => ?_
  cases found with
  | none =>
    -- Without authority nothing is asked, and `sendit` follows at once.
    refine ahead_pure fun s e s' hs => (?_ : Throws HasPacket _ Late) s e s' hs.1
    rw [bind_bind]
    refine late_bind (throws_update _) (moves_setA _) fun _ => ?_
    rw [bind_bind]
    refine late_bind (throws_when fun _ => throws_update _) (moves_when (moves_setRcode _)) fun _ => ?_
    rw [bind_bind]
    refine late_bind (throws_when fun _ => ?_) (moves_when (moves_each moves_addRecord _)) fun _ => hsendit
    exact throws_each (fun _ => throws_update _) (fun rr => (moves_addRecord rr).ends fun _ _ hs h => h.2.1 hs) _
  | some sd =>
    refine ahead_ite (fun _ => ?_) fun _ => ahead_ite (fun _ => ?_) fun _ => ahead_ite (fun _ => ?_) fun _ => ?_
    · rw [bind_bind]
      exact ahead_pure fun s e s' hs => late_addRecord _ (hk _) s e s' hs.1
    · rw [bind_bind]
      exact ahead_first early_liveAddNSEC ((moves_liveAddNSEC B p _ _ _).ends fun _ _ hs h => h.2.1 hs.1) hsendit
    · rw [bind_bind]
      exact ahead_first early_liveSynthesiseRRSIGs
        ((moves_liveSynthesiseRRSIGs B p).ends fun _ _ hs h => h.2.1 hs.1) hsendit
    · rw [bind_bind]
      refine ahead_same (same_lookupAll B _ _ _) fun rrset => ?_
      cases rrset with
      | nil => exact ahead_liveAnswerNothing hk
      | cons rr rrs => exact ahead_liveAnswerOwned hsendit hk

/-- A `DBException` finds a record in the packet, or no packet. -/
def Dirty (e : BackendException) (s : Handling W) : Prop := Late e s ∨ s.r = none

/-- What comes to no pass asks the backend for a NOTIFY, where there is no packet; and for additional records. -/
theorem late_liveAnswer {P : Handling W → Prop}
    (hearly : p.qtype = QType.IXFR ∨
      (H.d_doFancyRecords ∧ (p.qtype = QType.URL ∨ p.qtype = QType.CURL ∨ p.qtype = QType.MBOXFW)) ∨
        H.answerEarly p (H.replyPacket p) ≠ none) : Throws P (H.liveAnswer B p) Late := by
  refine throws_bind (throws_update _) (T := HasPacket) (fun s _ s' _ hrun => ?_) fun _ => ?_
  · cases hrun
    rfl
  split
  · exact throws_update _
  · split
    · exact throws_update _
    · cases hanswer : H.answerEarly p (H.replyPacket p) with
      | none =>
        rcases hearly with hixfr | hfancy | hanswered
        · contradiction
        · contradiction
        · exact absurd hanswer hanswered
      | some r =>
        refine throws_bind (throws_update _) (T := HasPacket) (fun s _ s' _ hrun => ?_) fun _ => late_liveSendit H B p
        cases hrun
        rfl

/-- The work on a query that comes to a pass. -/
theorem ahead_liveAnswer (hixfr : p.qtype ≠ QType.IXFR)
    (hfancy : ¬ (H.d_doFancyRecords ∧ (p.qtype = QType.URL ∨ p.qtype = QType.CURL ∨ p.qtype = QType.MBOXFW)))
    (hearly : H.answerEarly p (H.replyPacket p) = none) :
    Ahead (fun s => s.r = none) Early Late
      (do update fun s => { s with r := some (H.replyPacket p) }
          onReply fun r => r.setA (r.aa && p.qclass ≠ 255)
          passCalls B p p.qdomain) (H.liveAnswer B p) := by
  refine ahead_bind (throws_update _) (T := fun s => s.r = some (H.replyPacket p)) (fun s _ s' _ hrun => ?_)
    fun _ => ?_
  · cases hrun
    rfl
  rw [if_neg hixfr, if_neg hfancy, hearly]
  refine ahead_bind (throws_update _) (T := Fresh) (fun s _ s' hs hrun => ?_) fun _ => ?_
  · cases hrun
    refine ⟨by unfold HasPacket; dsimp only; rw [hs]; rfl, ?_⟩
    rintro ⟨r, hr, hrecord⟩
    dsimp only at hr
    rw [hs] at hr
    cases hr
    exact hrecord rfl
  · unfold liveRetargeted
    refine ahead_livePass (late_liveSendit H B p) fun ending => ?_
    cases ending with
    | sendit => exact interrupts_liveSendit H B p
    | retarget target => exact interrupts_liveRetargeted H B p _ target

/-- **A `DBException` finds no record exactly when it comes out of `firstCalls`.** -/
theorem ahead_tryBlock : Ahead (fun s => s.r = none) Early Dirty (firstCalls H B p) (H.tryBlock B p) := by
  have hnever {r : Option Reply} : Throws (fun s => s.r = none) (pure r : HandlerProg W (Option Reply)) Dirty :=
    throws_pure r
  unfold firstCalls tryBlock
  split
  next hnopass =>
    refine ahead_pure ?_
    split
    · exact hnever
    split
    · exact hnever
    split
    · -- A NOTIFY.
      exact throws_bind ((same_call _).throws fun s e s' hs h => .inr (h.2.trans hs)) (T := fun _ => True)
        (fun _ _ _ _ _ => trivial) fun _ => throws_pure _
    split
    · exact hnever
    next hqr hvalid hnotify hopcode =>
      have hearly := ((hnopass.resolve_left hqr).resolve_left fun h => hvalid (by rw [h]; rfl)).resolve_left hopcode
      refine throws_bind (T := fun _ => True) (fun s e s' hs h => .inl ?_) (fun _ _ _ _ _ => trivial) fun _ =>
        throws_read _
      exact late_liveAnswer (P := fun _ => True) hearly s e s' trivial h
  next hpass =>
    rw [not_or, not_or, not_or, not_or, not_or, not_not, not_not] at hpass
    obtain ⟨hqr, hvalid, hopcode, hixfr, hfancy, hearly⟩ := hpass
    rw [if_neg hqr, if_neg (by rw [Bool.not_eq_true']; exact hvalid), if_neg (by rw [hopcode]; decide),
      if_neg (not_not_intro hopcode)]
    exact ((ahead_liveAnswer hixfr hfancy hearly).mono fun _ _ => .inl).bind_read _

end Beginning

/-! ### Interrupted -/

section Interrupted

variable {W : Type} {H : PacketHandler} {B : LiveBackend W} {p : Query} {w : W} {e : BackendException}
  {s : Handling W}

theorem uncached_liveAnswer :
    Throws (fun s => s.cached = false) (H.liveAnswer B p) fun _ s => s.cached = false := by
  have hkept {α : Type} {m : HandlerProg W α} (hm : Interrupts Kept m) :
      Throws (fun s => s.cached = false) m fun _ s => s.cached = false :=
    hm.throws fun _ _ _ hs hkept => hkept.1.trans hs
  refine throws_bind (throws_update _) (T := fun s => s.cached = false) (fun s _ s' hs hrun => ?_) fun _ => ?_
  · cases hrun
    exact hs
  split
  · exact throws_update _
  split
  · exact throws_update _
  cases H.answerEarly p (H.replyPacket p) with
  | some r =>
    refine throws_bind (throws_update _) (T := fun s => s.cached = false) (fun s _ s' hs hrun => ?_) fun _ =>
      hkept (interrupts_liveSendit H B p)
    cases hrun
    exact hs
  | none => exact hkept (interrupts_bind (moves_setA _) fun _ => interrupts_liveRetargeted H B p _ _)

/-- **Nothing is put into the packet cache before an exception.** -/
theorem cached_of_interrupted (h : H.tryBlock B p { world := w } = (.error e, s)) : s.cached = false := by
  unfold tryBlock at h
  split at h
  · cases h
  split at h
  · cases h
  split at h
  · rcases bind_eq_error h with hcall | ⟨_, _, _, hpure⟩
    · exact (same_call _).interrupts _ _ _ hcall |>.1
    · cases hpure
  split at h
  · cases h
  · rcases bind_eq_error h with hanswer | ⟨_, _, _, hread⟩
    · exact uncached_liveAnswer _ _ _ rfl hanswer
    · cases hread

/-- **A clean SERVFAIL**: no record, and nothing in the packet cache. -/
def Clean (ending : Ending) : Prop :=
  ∃ r, ending = .returned (some r) false ∧ r.rcode = RCode.ServFail ∧ r.d_rrs = []

/-- **When the failure of a backend gives a clean SERVFAIL**: for a standard exception, and for a `DBException`
out of the calls before the first record. -/
theorem servfail_clean_iff (h : H.tryBlock B p { world := w } = (.error e, s)) :
    Clean (H.liveQuestionOrRecurse B p w) ↔
      (∃ what, e = .exception what) ∨ ∃ s', firstCalls H B p { world := w } = (.error e, s') := by
  have hcached := cached_of_interrupted h
  unfold liveQuestionOrRecurse
  rw [h]
  cases e with
  | exception what =>
    refine iff_of_true ⟨(emptyReply p).setRcode RCode.ServFail, ?_, rfl, rfl⟩ (.inl ⟨what, rfl⟩)
    dsimp only
    rw [hcached]
  | DBException reason =>
    dsimp only
    rw [hcached]
    rcases ahead_tryBlock _ _ _ rfl h with ⟨hfirst, hpacket, hfresh⟩ | ⟨⟨s₁, hdone⟩, hdirty⟩
    · refine iff_of_true ?_ (.inr ⟨s, hfirst⟩)
      obtain ⟨r, hr⟩ := isSome_iff_exists.mp hpacket
      rw [hr]
      refine ⟨_, rfl, rfl, ?_⟩
      by_contra hrecord
      exact hfresh ⟨r, hr, hrecord⟩
    · refine iff_of_false ?_ ?_
      · rintro ⟨r, hr, -, hempty⟩
        rcases hdirty with hlate | hnull
        · obtain ⟨r', hr', hrecord⟩ := hlate reason rfl
          rw [hr'] at hr
          cases hr
          exact hrecord hempty
        · rw [hnull] at hr
          cases hr
      · rintro (⟨what, hwhat⟩ | ⟨s', hs'⟩)
        · cases hwhat
        · rw [hdone] at hs'
          cases hs'

end Interrupted

/-! ### A zone with a delegation -/

/-- The delegated name. -/
def delegated : DName := [ascii "org"]

/-- The NS record of the delegation. -/
def delegation : StoredRR :=
  { qtype := QType.NS, qname := delegated, wildcardname := [], content := ascii "ns.org", ttl := 60, auth := false }

/-- The root zone with its delegation. The database is lost at the lookups of a type, and at NOTIFYs. -/
def lostAt (qtype : UInt16) : LiveBackend Unit where
  lookup t name _ w :=
    if t = qtype then (([], some (.DBException (ascii "lost"))), w)
    else if t = QType.NS ∧ name = delegated then (([delegation], none), w)
    else (([], none), w)
  getSOA name w :=
    (.ok (if name = [] then some { qname := [], content := [], ttl := 60, domain_id := 1 } else none), w)
  getBeforeAndAfterNames _ _ _ w := (.ok ([], []), w)
  getBeforeAndAfterNamesAbsolute _ _ w := (.ok ([], [], []), w)
  processNotify _ w := (.error (.DBException (ascii "lost")), w)
  wrapup _ := none

/-- The settings of the configuration file. -/
def plainHandler : PacketHandler := withDefaults
  { records := []
    getBeforeAndAfterNames := fun _ _ _ => ([], [])
    getBeforeAndAfterNamesAbsolute := fun _ _ => ([], [], []) }

/-- A query for the address of the delegated name. -/
def delegatedQuery : Query := { qdomain := delegated, qtype := QType.A }

/-- The database is lost at the first lookup of records. -/
theorem lost_at_once : Clean (plainHandler.liveQuestionOrRecurse (lostAt QType.ANY) delegatedQuery ()) :=
  (servfail_clean_iff (e := .DBException (ascii "lost")) (s := { world := (), r := some {} })
    (by decide)).mpr (.inr ⟨{ world := (), r := some {} }, by decide⟩)

/-- **The referral stays in the packet** when the database is lost at the lookup of the DS record; and when it is
lost at a NOTIFY, there is no packet to set the code in. -/
theorem referral_in_servfail :
    plainHandler.liveQuestionOrRecurse (lostAt QType.DS) delegatedQuery () =
        .returned (some { aa := false, rcode := RCode.ServFail,
                          d_rrs := [{ delegation.inReply with d_place := .AUTHORITY }] }) false ∧
      ¬ Clean (plainHandler.liveQuestionOrRecurse (lostAt QType.DS) delegatedQuery ()) ∧
      plainHandler.liveQuestionOrRecurse (lostAt QType.DS) { delegatedQuery with opcode := 4 } () =
        .nullDereference := by
  have hreferral : plainHandler.liveQuestionOrRecurse (lostAt QType.DS) delegatedQuery () =
      .returned (some { aa := false, rcode := RCode.ServFail,
                        d_rrs := [{ delegation.inReply with d_place := .AUTHORITY }] }) false := by decide
  refine ⟨hreferral, ?_, by decide⟩
  rintro ⟨r, hr, -, hempty⟩
  cases hr
  cases hempty

end PacketHandler

end PowerDNS
