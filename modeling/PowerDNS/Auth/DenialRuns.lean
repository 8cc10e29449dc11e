import PowerDNS.Auth.Denial

/-!
# Denial of existence over a whole answer

A query is answered by one or more passes, each with a target of its own and perhaps in a
zone of its own (`passes`), and the reply is what these passes add (`retargeted_d_rrs`).
`pass_proves_iff` puts the kinds of answers together for one pass, and `denial_proved_iff`
the passes for the answer to a query. `orderedBackend` shows that the assumption on the
backend can be met.
-/

namespace PowerDNS

open OrderedChain List Option

namespace PacketHandler

variable {H : PacketHandler} {p : Query} {sd : SOAData} {target : DName}

/-! ### One pass -/

theorem added_addRecords (r : Reply) (rrs : List ReplyRR) :
    added r (.sendit (r.addRecords rrs)) = rrs := drop_left

theorem added_retarget (r : Reply) (rrs : List ReplyRR) (name : DName) :
    added r (.retarget (r.addRecords rrs) name) = rrs := drop_left

theorem added_referralReply (r : Reply) (ns : StoredRR) (rest : List StoredRR) :
    added r (.sendit (referralReply H p r sd ns rest)) =
      (ns :: rest).map (fun rr => { rr.inReply with d_place := .AUTHORITY }) ++
        referralExtra H p sd ns.qname := by
  unfold added referralReply Pass.reply
  rw [append_assoc]
  exact drop_left

/-- Records of the backend, put into the answer section, have nothing to prove. -/
theorem proves_answer_records {rcode : Nat} (hrcode : rcode ≠ RCode.NXDomain)
    {rrs : List ReplyRR} (hplain : ∀ rr ∈ rrs, NotNSEC rr)
    (hplace : ∀ rr ∈ rrs, rr.d_place = .ANSWER) (hwild : ∀ rr ∈ rrs, rr.wildcardname = []) :
    H.ProvesAnswer p sd target rcode rrs := by
  refine provesAnswer_of_plain hrcode ?_ ?_ hwild
  · exact fun rr hrr nrc hnrc => absurd hnrc (hplain rr hrr nrc)
  · intro rr hrr hauthority
    rw [hplace rr hrr] at hauthority
    cases hauthority

/-- Where the target owns records, and not only such as lead to NODATA. -/
theorem denialRight_of_owned {rr : StoredRR} (hdo : p.d_dnssecOk = true) (hlook : LooksUp H p target sd)
    (hmem : rr ∈ H.ownedBy sd target)
    (hsome : ¬(redirection p (H.ownedBy sd target) = none ∧ weDone p (H.ownedBy sd target) = false ∧
      weHaveUnauth p (H.ownedBy sd target) = false)) :
    H.DenialRight p sd target :=
  ⟨fun hN => absurd ⟨hN, hdo⟩ hlook.notNSEC, fun _ hnil => absurd (hnil ▸ hmem) not_mem_nil,
    fun _ hnil => absurd (hnil ▸ hmem) not_mem_nil, fun _ _ hc hd hu => absurd ⟨hc, hd, hu⟩ hsome⟩

/-- **One pass.** What the pass adds proves its answer exactly when `DenialRight` holds. -/
theorem pass_proves_iff (hdo : p.d_dnssecOk = true) (hauth : H.getAuth target = some sd)
    (hsigned : H.NSECSigned sd) {r : Reply} (hr : r.rcode = RCode.NoError) :
    H.ProvesAnswer p sd target (H.pass p r target).reply.rcode (added r (H.pass p r target)) ↔
      H.DenialRight p sd target := by
  have hunder : UnderName sd.qname target := underName_of_suffix (getAuth_eq_some hauth).1
  have hok : r.rcode ≠ RCode.NXDomain := by
    rw [hr]
    decide
  have hstep := H.pass_step p r target
  generalize H.pass p r target = outcome at hstep ⊢
  cases hstep with
  | noZone hnone => rw [hauth] at hnone; cases hnone
  | apexSOA sd' _ hT happ =>
    obtain rfl : sd' = sd := some.inj (‹H.getAuth target = some sd'›.symm.trans hauth)
    rw [added_addRecords]
    refine ⟨fun _ => ⟨?_, ?_, ?_, ?_⟩, fun _ => ?_⟩
    · intro hN
      rw [hT] at hN
      exact absurd hN (by decide)
    · exact fun hlook => absurd ⟨hT, happ⟩ hlook.notApexSOA
    · exact fun hlook => absurd ⟨hT, happ⟩ hlook.notApexSOA
    · exact fun hlook => absurd ⟨hT, happ⟩ hlook.notApexSOA
    · refine proves_answer_records hok ?_ ?_ ?_
      · intro rr hrr
        rw [mem_singleton.mp hrr]
        exact fun _ => nofun
      · intro rr hrr
        rw [mem_singleton.mp hrr]
        rfl
      · intro rr hrr
        rw [mem_singleton.mp hrr]
        rfl
  | nsecQuery sd' _ hT _ =>
    obtain rfl : sd' = sd := some.inj (‹H.getAuth target = some sd'›.symm.trans hauth)
    rw [added_addRecords, addNSEC_own hdo (.inr rfl) (by rw [if_pos rfl]; exact hauth)]
    rw [show (Pass.sendit (r.addRecords _)).reply.rcode = r.rcode from rfl,
      proves_single_iff hok hunder hsigned]
    refine ⟨fun h => ⟨fun _ => h, ?_, ?_, ?_⟩, fun h => h.direct hT⟩
    · exact fun hlook => absurd ⟨hT, hdo⟩ hlook.notNSEC
    · exact fun hlook => absurd ⟨hT, hdo⟩ hlook.notNSEC
    · exact fun hlook => absurd ⟨hT, hdo⟩ hlook.notNSEC
  | rrsigQuery sd' _ hT _ =>
    rw [added_addRecords]
    refine ⟨fun _ => ⟨?_, ?_, ?_, ?_⟩, fun _ => ?_⟩
    · intro hN
      rw [hT] at hN
      exact absurd hN (by decide)
    · exact fun hlook => absurd ⟨hT, hdo⟩ hlook.notRRSIG
    · exact fun hlook => absurd ⟨hT, hdo⟩ hlook.notRRSIG
    · exact fun hlook => absurd ⟨hT, hdo⟩ hlook.notRRSIG
    · have hmem : ∀ rr ∈ H.synthesiseRRSIGs p, ∃ t ksk,
          rr = synthesisedRRSIG p (H.B.lookup QType.ANY p.qdomain (-1)) t ksk := by
        intro rr hrr
        obtain ⟨t, -, hrr⟩ := mem_flatMap.mp hrr
        obtain ⟨ksk, -, rfl⟩ := mem_map.mp hrr
        exact ⟨t, ksk, rfl⟩
      refine proves_answer_records hok ?_ ?_ ?_
      · intro rr hrr
        obtain ⟨t, ksk, rfl⟩ := hmem rr hrr
        exact fun _ => nofun
      · intro rr hrr
        obtain ⟨t, ksk, rfl⟩ := hmem rr hrr
        rfl
      · intro rr hrr
        obtain ⟨t, ksk, rfl⟩ := hmem rr hrr
        exact lastGot_wildcardname
  | wildcardCNAME sd' hlook howned hwild target' _ =>
    obtain rfl : sd' = sd := some.inj (hlook.auth.symm.trans hauth)
    rw [added_retarget]
    rw [show (Pass.retarget (r.addRecords _) target').reply.rcode = r.rcode from rfl,
      proves_wildcard_iff hdo hauth hsigned howned hwild hok]
    refine ⟨fun h => ⟨?_, fun _ _ _ => h, ?_, ?_⟩, fun h => h.wildcard hlook howned hwild⟩
    · exact fun hN => absurd ⟨hN, hdo⟩ hlook.notNSEC
    · exact fun _ _ hnone => absurd hnone hwild
    · exact fun _ hne => absurd howned hne
  | wildcard sd' hlook howned hwild _ =>
    obtain rfl : sd' = sd := some.inj (hlook.auth.symm.trans hauth)
    rw [added_addRecords]
    rw [show (Pass.sendit (r.addRecords _)).reply.rcode = r.rcode from rfl,
      proves_wildcard_iff hdo hauth hsigned howned hwild hok]
    refine ⟨fun h => ⟨?_, fun _ _ _ => h, ?_, ?_⟩, fun h => h.wildcard hlook howned hwild⟩
    · exact fun hN => absurd ⟨hN, hdo⟩ hlook.notNSEC
    · exact fun _ _ hnone => absurd hnone hwild
    · exact fun _ hne => absurd howned hne
  | emptyReferral sd' hlook howned hwild ns rest hns =>
    obtain rfl : sd' = sd := some.inj (hlook.auth.symm.trans hauth)
    refine ⟨fun _ => ⟨?_, ?_, ?_, ?_⟩, fun _ => ?_⟩
    · exact fun hN => absurd ⟨hN, hdo⟩ hlook.notNSEC
    · exact fun _ _ hne => absurd hwild hne
    · intro _ _ _ hnone
      rw [hns] at hnone
      cases hnone
    · exact fun _ hne => absurd howned hne
    · rw [added_referralReply]
      exact proves_referral hdo hauth hsigned hok hns
  | nxdomain sd' hlook howned hwild hns =>
    obtain rfl : sd' = sd := some.inj (hlook.auth.symm.trans hauth)
    rw [show added r (.sendit (H.makeNXDomain p r target sd')) =
      soaRecord sd' .AUTHORITY :: H.addNSECX p target sd'.qname 1 by
        unfold makeNXDomain; rw [if_pos hdo]; exact drop_left]
    rw [show (Pass.sendit (H.makeNXDomain p r target sd')).reply.rcode = RCode.NXDomain from rfl,
      proves_nxdomain_iff hdo hauth hsigned howned]
    refine ⟨fun h => ⟨?_, ?_, fun _ _ _ _ => h, ?_⟩, fun h => h.nxdomain hlook howned hwild hns⟩
    · exact fun hN => absurd ⟨hN, hdo⟩ hlook.notNSEC
    · exact fun _ _ hne => absurd hwild hne
    · exact fun _ hne => absurd howned hne
  | cname sd' hlook rr hcname =>
    obtain rfl : sd' = sd := some.inj (hlook.auth.symm.trans hauth)
    obtain ⟨-, hmem, -⟩ := redirection_eq_some hcname
    rw [added_retarget]
    refine ⟨fun _ => denialRight_of_owned hdo hlook hmem fun h => ?_, fun _ => ?_⟩
    · rw [hcname] at h
      cases h.1
    · refine proves_answer_records hok ?_ ?_ ?_
      · intro rr' hrr'
        rw [mem_singleton.mp hrr']
        exact notNSEC_inReply rr
      · intro rr' hrr'
        rw [mem_singleton.mp hrr', StoredRR.inReply_d_place]
        exact Backend.lookup_d_place hmem
      · intro rr' hrr'
        rw [mem_singleton.mp hrr']
        exact inReply_wildcardname hmem
  | records sd' hlook hcname hdone =>
    obtain rfl : sd' = sd := some.inj (hlook.auth.symm.trans hauth)
    obtain ⟨rr, hmem, -, hrrauth⟩ := weDone_eq_true.mp hdone
    obtain ⟨z, hz, hname, hzone, rfl⟩ := mem_ownedBy.mp hmem
    have hin : H.InChain sd' target := inChain_iff.mpr ⟨z, hz, hzone, .inl hrrauth, hname⟩
    rw [added_addRecords]
    refine ⟨fun _ => denialRight_of_owned hdo hlook hmem fun h => ?_, fun _ => ?_⟩
    · rw [hdone] at h
      cases h.2.1
    · exact proves_records hdo hauth hsigned hok
        (fun rr hrr => (mem_filter.mp hrr).1) hin
  | referral sd' hlook hcname hdone hunauth ns rest hns =>
    obtain rfl : sd' = sd := some.inj (hlook.auth.symm.trans hauth)
    obtain ⟨rr, hmem, -⟩ := weHaveUnauth_eq_true.mp hunauth
    refine ⟨fun _ => denialRight_of_owned hdo hlook hmem fun h => ?_, fun _ => ?_⟩
    · rw [hunauth] at h
      cases h.2.2
    · rw [added_referralReply]
      exact proves_referral hdo hauth hsigned hok hns
  | lost sd' hlook hcname hdone hunauth hns =>
    obtain rfl : sd' = sd := some.inj (hlook.auth.symm.trans hauth)
    obtain ⟨rr, hmem, -⟩ := weHaveUnauth_eq_true.mp hunauth
    rw [show added r (.sendit r) = [] from drop_length]
    refine ⟨fun _ => denialRight_of_owned hdo hlook hmem fun h => ?_, fun _ => ?_⟩
    · rw [hunauth] at h
      cases h.2.2
    · exact proves_answer_records hok nofun nofun nofun
  | nodata sd' hlook howned hcname hdone hunauth =>
    obtain rfl : sd' = sd := some.inj (hlook.auth.symm.trans hauth)
    rw [show added r (.sendit (H.makeNOError p r target sd')) =
      soaRecord sd' .AUTHORITY :: H.addNSECX p target sd'.qname 0 by
        unfold makeNOError; rw [if_pos hdo]; exact drop_left]
    rw [show (Pass.sendit (H.makeNOError p r target sd')).reply.rcode = r.rcode from rfl,
      proves_nodata_iff hdo hauth hsigned hlook hok]
    refine ⟨fun h => ⟨?_, ?_, ?_, fun _ _ _ _ _ => h⟩,
      fun h => h.nodata hlook howned hcname hdone hunauth⟩
    · exact fun hN => absurd ⟨hN, hdo⟩ hlook.notNSEC
    · exact fun _ hnil => absurd hnil howned
    · exact fun _ hnil => absurd hnil howned

/-! ### All passes of an answer -/

/-- The passes of the loop: the reply and the target each of them starts with. -/
def passes (H : PacketHandler) (p : Query) : Nat → Reply → DName → List (Reply × DName)
  | 0, _, _ => []
  | left + 1, r, target =>
    (r, target) ::
      match H.pass p r target with
      | .sendit _ => []
      | .retarget r' target' => passes H p left r' target'

/-- The passes by which `questionOrRecurse` answers a query that reaches the loop. -/
def allPasses (H : PacketHandler) (p : Query) : List (Reply × DName) :=
  H.passes p 11 (startReply H p) p.qdomain

/-- What the pass that starts with `s` adds. -/
def addedBy (H : PacketHandler) (p : Query) (s : Reply × DName) : List ReplyRR :=
  added s.1 (H.pass p s.1 s.2)

/-- The reply is what the passes add, one after the other, and additional records. -/
theorem retargeted_d_rrs (H : PacketHandler) (p : Query) (left : Nat) (r : Reply)
    (target : DName) : ∃ extra, (∀ rr ∈ extra, rr.d_place = .ADDITIONAL) ∧
      (H.retargeted p left r target).reply.d_rrs =
        r.d_rrs ++ (H.passes p left r target).flatMap (H.addedBy p) ++ extra := by
  induction left generalizing r target with
  | zero => exact ⟨[], nofun, by simp [retargeted, passes]⟩
  | succ left ih =>
    have hext := H.pass_extends p r target
    have hadded : r.d_rrs ++ H.addedBy p (r, target) = (H.pass p r target).reply.d_rrs := by
      unfold addedBy added
      obtain ⟨rest, hrest⟩ := hext
      rw [← hrest, drop_left]
    unfold retargeted passes
    rw [flatMap_cons, ← append_assoc, hadded]
    cases H.pass p r target with
    | sendit r' =>
      obtain ⟨extra, hrrs, hplace⟩ := (sendit_finished H p r').d_rrs
      refine ⟨extra, hplace, ?_⟩
      rw [flatMap_nil, append_nil]
      exact hrrs
    | retarget r' target' => exact ih r' target'

/-- Until the last pass the result code stays as it is. -/
theorem pass_retarget_rcode {r r' : Reply} {target' : DName}
    (h : H.pass p r target = .retarget r' target') : r'.rcode = r.rcode := by
  have hstep := H.pass_step p r target
  rw [h] at hstep
  cases hstep with
  | wildcardCNAME => rfl
  | cname => rfl

theorem passes_rcode (left : Nat) {r : Reply} (hr : r.rcode = RCode.NoError) :
    ∀ s ∈ H.passes p left r target, s.1.rcode = RCode.NoError := by
  induction left generalizing r target with
  | zero => exact nofun
  | succ left ih =>
    intro s hs
    unfold passes at hs
    rcases mem_cons.mp hs with rfl | hs
    · exact hr
    · split at hs
      · cases hs
      · next r' target' hp => exact ih ((pass_retarget_rcode hp).trans hr) s hs

/-- The names of the chain of the zone with an id. -/
def chainOf (records : List ZoneRecord) (id : Int) : List DName :=
  (records.filter fun z => z.domain_id = id ∧ (z.auth = true ∨ z.qtype = QType.NS)).map (·.qname)

/-- A backend that finds the canonical neighbours by going through the whole zone. -/
def orderedBackend (records : List ZoneRecord) : Backend where
  records := records
  getBeforeAndAfterNames id zonename qname :=
    ((predOf canonicalKey (chainOf records id) (canonicalKey qname)).getD zonename,
      (succOf canonicalKey (chainOf records id) (canonicalKey qname)).getD zonename)
  getBeforeAndAfterNamesAbsolute _ _ := ([], [], [])

/-- Such a backend keeps the assumption of `NSECSigned`. -/
theorem orderedBackend_signed {records : List ZoneRecord} (hB : H.B = orderedBackend records)
    (hid : sd.domain_id ≠ -1) (hnsec : H.getNSEC3PARAM sd.qname = none)
    (hunder : ∀ z ∈ H.B.records, inZone sd z → UnderName sd.qname z.qname)
    (hapex : sd.qname ∈ H.chain sd) : H.NSECSigned sd := by
  have hchain : chainOf records sd.domain_id = H.chain sd := by
    unfold chainOf chain inZone
    rw [hB]
    simp only [hid, false_or, orderedBackend]
  refine ⟨hnsec, hunder, fun target htarget => ?_, fun target htarget => ?_⟩
  · rw [hB]
    unfold orderedBackend chainPoints
    dsimp only
    rw [hchain]
    cases hpred : predOf canonicalKey (H.chain sd) (canonicalKey target) with
    | none => exact absurd hpred (predOf_ne_none hapex (canonicalKey_le htarget))
    | some n => exact isPred_of_predOf hpred
  · rw [hB]
    unfold orderedBackend chainPoints
    dsimp only
    rw [hchain]
    cases hsucc : succOf canonicalKey (H.chain sd) (canonicalKey target) with
    | none => exact isSucc_of_succOf_eq_none hsucc
    | some n => exact isSucc_of_succOf hsucc

/-- The zone `example.com` with addresses for `aaa.example.com`, `sub.example.com` and
`m.sub.example.com`. -/
def signedZone : PacketHandler := withDefaults (orderedBackend
  [{ qname := exampleApex, qtype := QType.SOA, content := ascii "ns.example.com", domain_id := 1 },
   { qname := ascii "aaa" :: exampleApex, qtype := QType.A, content := ascii "192.0.2.1",
     domain_id := 1 },
   { qname := exampleCut, qtype := QType.A, content := ascii "192.0.2.2", domain_id := 1 },
   { qname := ascii "m" :: exampleCut, qtype := QType.A, content := ascii "192.0.2.3",
     domain_id := 1 }])

theorem signedZone_signed : signedZone.NSECSigned exampleSOA :=
  orderedBackend_signed rfl (by decide) rfl (by decide) (by decide)

/-- A DNSSEC query for `www.example.com`. -/
def exampleDOQuery : Query := { qdomain := exampleWWW, qtype := QType.A, d_dnssecOk := true }

/-- A DNSSEC query for `x.sub.example.com`, whose closest encloser is `sub.example.com`. -/
def exampleDeepQuery : Query :=
  { qdomain := ascii "x" :: exampleCut, qtype := QType.A, d_dnssecOk := true }

end PacketHandler

end PowerDNS
