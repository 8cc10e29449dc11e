import PowerDNS.Auth.PacketHandler

/-!
# What the parts of the packet handler do

One specification for each function of `PacketHandler` that the results on zone cuts,
wildcards and denial of existence share. The two climbing loops are searches in the sense
of `SuffixSearch` (`getBestReferralNS_eq`, `getBestWildcard_eq`); a pass only ever appends
to the reply (`pass_extends`), and what follows the label `sendit` only appends additional
records (`sendit_spec`). `questionOrRecurse_eq` takes the checks in front of the loop away.
-/

namespace PowerDNS

open SuffixSearch List

/-! ### Appending to a reply -/

@[simp] theorem Reply.addRecords_d_rrs (r : Reply) (rrs : List ReplyRR) :
    (r.addRecords rrs).d_rrs = r.d_rrs ++ rrs := rfl

@[simp] theorem Reply.setA_d_rrs (r : Reply) (b : Bool) : (r.setA b).d_rrs = r.d_rrs := rfl

@[simp] theorem Reply.setRcode_d_rrs (r : Reply) (v : Nat) : (r.setRcode v).d_rrs = r.d_rrs := rfl

@[simp] theorem Reply.setRcode_rcode (r : Reply) (v : Nat) : (r.setRcode v).rcode = v := rfl

@[simp] theorem StoredRR.inReply_d_place (rr : StoredRR) : rr.inReply.d_place = rr.d_place := rfl

/-- What a backend returns is meant for the answer section until the handler says
otherwise. -/
theorem Backend.lookup_d_place {B : Backend} {qtype : UInt16} {qname : DName} {zoneId : Int}
    {rr : StoredRR} (h : rr ∈ B.lookup qtype qname zoneId) : rr.d_place = .ANSWER := by
  obtain ⟨z, -, -, rfl⟩ := Backend.mem_lookup.mp h
  rfl

/-- The reply a pass ends with. -/
def PacketHandler.Pass.reply : PacketHandler.Pass → Reply
  | .sendit r => r
  | .retarget r _ => r

namespace PacketHandler

variable {H : PacketHandler} {p : Query} {sd : SOAData}

/-! ### The climbing loops -/

variable {target : DName}

/-- The zone that `getAuth` finds is served at a name at or above the target, and its SOA
record is in the backend. -/
theorem getAuth_eq_some (h : H.getAuth target = some sd) :
    sd.qname <:+ target ∧ H.B.getSOA sd.qname = some sd := by
  induction target with
  | nil =>
    have hname := (Backend.getSOA_eq_some h).1
    rw [hname]
    exact ⟨suffix_rfl, h⟩
  | cons l subdomain ih =>
    unfold getAuth at h
    cases hsoa : H.B.getSOA (l :: subdomain) with
    | some found =>
      rw [hsoa] at h
      obtain rfl : found = sd := Option.some.inj h
      have hname := (Backend.getSOA_eq_some hsoa).1
      rw [hname]
      exact ⟨suffix_rfl, hsoa⟩
    | none =>
      rw [hsoa] at h
      obtain ⟨hsuf, hget⟩ := ih h
      exact ⟨hsuf.trans (suffix_cons l subdomain), hget⟩

/-- `getBestReferralNS` asks the names from the target up to the apex, the apex not
included. -/
theorem getBestReferralNS_eq (H : PacketHandler) (sd : SOAData) (target : DName) :
    H.getBestReferralNS sd target = firstAnswer (H.unauthNS sd) (upTo sd.qname target) := by
  induction target with
  | nil =>
    unfold getBestReferralNS upTo
    by_cases h : [] = sd.qname
    · rw [if_pos h, if_pos h]
      rfl
    · rw [if_neg h, if_neg h, firstAnswer, firstAnswer]
      by_cases hns : H.unauthNS sd [] = []
      · rw [if_pos hns, hns]
      · rw [if_neg hns]
  | cons l subdomain ih =>
    unfold getBestReferralNS upTo
    by_cases h : l :: subdomain = sd.qname
    · rw [if_pos h, if_pos h]
      rfl
    · rw [if_neg h, if_neg h, firstAnswer]
      by_cases hns : H.unauthNS sd (l :: subdomain) = []
      · simp only [hns, ne_eq, not_true_eq_false, if_false, if_true]
        exact ih
      · simp only [hns, ne_eq, not_false_eq_true, if_true, if_false]

/-- `getBestWildcard` asks the names strictly above the target up to and including the
apex. -/
theorem getBestWildcard_eq (H : PacketHandler) (p : Query) (sd : SOAData) {l : Octets}
    {subdomain : DName} (h : sd.qname <:+ subdomain) :
    H.getBestWildcard p sd (l :: subdomain) =
      firstAnswer (H.wildcardRecords p sd) (upTo sd.qname subdomain ++ [sd.qname]) := by
  induction subdomain generalizing l with
  | nil =>
    obtain hroot : sd.qname = [] := suffix_nil.mp h
    unfold getBestWildcard upTo
    rw [hroot, if_pos rfl, if_pos rfl, nil_append, firstAnswer, firstAnswer]
    by_cases hw : H.wildcardRecords p sd [] = []
    · simp [hw]
    · simp [hw]
  | cons m rest ih =>
    unfold getBestWildcard upTo
    by_cases htop : m :: rest = sd.qname
    · rw [if_pos htop, if_pos htop, nil_append, ← htop, firstAnswer, firstAnswer]
      by_cases hw : H.wildcardRecords p sd (m :: rest) = []
      · simp [hw]
      · simp [hw]
    · have hrest : sd.qname <:+ rest :=
        (suffix_cons_iff.mp h).resolve_left fun e => htop e.symm
      rw [if_neg htop, if_neg htop, cons_append, firstAnswer]
      by_cases hw : H.wildcardRecords p sd (m :: rest) = []
      · simp only [hw, ne_eq, not_true_eq_false, if_false, if_true]
        exact ih hrest
      · simp only [hw, ne_eq, not_false_eq_true, if_true, if_false]

/-- A name strictly below the apex has a label to chop off. -/
theorem exists_cons_of_below (h : sd.qname <:+ target)
    (hne : target ≠ sd.qname) : ∃ l subdomain, target = l :: subdomain ∧ sd.qname <:+ subdomain := by
  cases target with
  | nil => exact absurd (suffix_nil.mp h).symm hne
  | cons l subdomain =>
    exact ⟨l, subdomain, rfl, (suffix_cons_iff.mp h).resolve_left fun e => hne e.symm⟩

/-- No wildcard answers for a name exactly when none of the names strictly above it, up to
the apex, has a wildcard with records of the type or a CNAME. -/
theorem getBestWildcard_eq_nil_iff (h : sd.qname <:+ target)
    (hne : target ≠ sd.qname) :
    H.getBestWildcard p sd target = [] ↔
      ∀ s, s <:+ target → s ≠ target → sd.qname <:+ s → H.wildcardRecords p sd s = [] := by
  obtain ⟨l, subdomain, rfl, hsub⟩ := exists_cons_of_below h hne
  rw [getBestWildcard_eq H p sd hsub, firstAnswer_eq_nil_iff]
  constructor
  · intro hall s hs hsne htop
    apply hall s
    rw [mem_append, mem_upTo hsub, mem_singleton]
    by_cases heq : s = sd.qname
    · exact .inr heq
    · exact .inl ⟨(suffix_cons_iff.mp hs).resolve_left hsne, htop, heq⟩
  · intro hall s hs
    rw [mem_append, mem_upTo hsub, mem_singleton] at hs
    have hcons : ∀ t : DName, t <:+ subdomain → t <:+ l :: subdomain ∧ t ≠ l :: subdomain :=
      fun t ht => ⟨ht.trans (suffix_cons l subdomain), fun e =>
        absurd (e ▸ ht).length_le (by simp)⟩
    rcases hs with ⟨hs, htop, -⟩ | rfl
    · exact hall s (hcons s hs).1 (hcons s hs).2 htop
    · exact hall _ (hcons _ hsub).1 (hcons _ hsub).2 suffix_rfl

/-! ### Sets of types -/

/-- What is in a set of types after an insertion. -/
theorem mem_insertType {x t : UInt16} {types : List UInt16} :
    t ∈ setInsert (fun a b => decide (a < b)) x types ↔ t = x ∨ t ∈ types := by
  refine ⟨mem_setInsert, ?_⟩
  induction types with
  | nil => simp [setInsert]
  | cons y ys ih =>
    unfold setInsert
    by_cases hxy : x < y
    · simp [hxy]
    · by_cases hyx : y < x
      · simp only [hxy, hyx, decide_false, decide_true, if_true, Bool.false_eq_true, if_false,
          mem_cons]
        rintro (rfl | rfl | h)
        · exact .inr (ih (.inl rfl))
        · exact .inl rfl
        · exact .inr (ih (.inr h))
      · -- the element is in the set already
        obtain rfl : x = y := UInt16.le_antisymm (UInt16.not_lt.mp hyx) (UInt16.not_lt.mp hxy)
        simp [hxy]

/-- A set of types has the types that were put into it. -/
theorem mem_typeSet {types : List UInt16} {t : UInt16} : t ∈ typeSet types ↔ t ∈ types := by
  have hfold : ∀ (ts s : List UInt16),
      t ∈ ts.foldl (fun d_set t => setInsert (fun a b => decide (a < b)) t d_set) s ↔
        t ∈ ts ∨ t ∈ s := by
    intro ts
    induction ts with
    | nil => simp
    | cons u ts ih =>
      intro s
      rw [foldl_cons, ih, mem_insertType, mem_cons]
      tauto
  rw [typeSet, hfold]
  simp

/-! ### What a pass appends -/

/-- `r'` is `r` with further records, and perhaps another result code or AA bit. -/
def Extends (r r' : Reply) : Prop := r.d_rrs <+: r'.d_rrs

theorem Extends.refl (r : Reply) : Extends r r := prefix_rfl

theorem Extends.trans {r r' r'' : Reply} (h : Extends r r') (h' : Extends r' r'') :
    Extends r r'' :=
  List.IsPrefix.trans h h'

theorem extends_addRecords (r : Reply) (rrs : List ReplyRR) : Extends r (r.addRecords rrs) :=
  prefix_append _ _

/-- The NSEC records stand in the authority section, or in the answer section when they are the
answer (mode 2). -/
theorem mem_addNSEC {target auth : DName} {mode : Nat} {rr : ReplyRR}
    (h : rr ∈ H.addNSEC p target auth mode) :
    rr.qtype = QType.NSEC ∧ rr.d_place = if mode = 2 then .ANSWER else .AUTHORITY := by
  unfold addNSEC at h
  split at h
  · cases h
  · split at h
    · cases h
    · -- whatever the mode, the list has only records of `emitNSEC`
      have hemit : ∃ b e a, rr = H.emitNSEC b e a mode := by
        simp only [mem_append] at h
        rcases h with (h | h) | h
        · split at h
          · exact ⟨_, _, _, mem_singleton.mp h⟩
          · cases h
        · split at h
          · rcases mem_cons.mp h with h | h
            · exact ⟨_, _, _, h⟩
            · exact ⟨_, _, _, mem_singleton.mp h⟩
          · cases h
        · split at h
          · exact ⟨_, _, _, mem_singleton.mp h⟩
          · cases h
      obtain ⟨b, e, a, rfl⟩ := hemit
      exact ⟨rfl, rfl⟩

/-- Every NSEC or NSEC3 record that denies something stands in the authority section, or in the
answer section when it is the answer (mode 2). -/
theorem mem_addNSECX {target auth : DName} {mode : Nat} {rr : ReplyRR}
    (h : rr ∈ H.addNSECX p target auth mode) :
    (rr.qtype = QType.NSEC ∨ rr.qtype = QType.NSEC3) ∧
      rr.d_place = if mode = 2 then .ANSWER else .AUTHORITY := by
  unfold addNSECX at h
  split at h
  · unfold addNSEC3 at h
    split at h
    · cases h
    · obtain ⟨name, -, rfl⟩ := mem_map.mp h
      exact ⟨.inr rfl, rfl⟩
  · obtain ⟨htype, hplace⟩ := mem_addNSEC h
    exact ⟨.inl htype, hplace⟩

/-- The records that go with the NS records of a referral to the cut `dsname`. -/
def referralExtra (H : PacketHandler) (p : Query) (sd : SOAData) (dsname : DName) :
    List ReplyRR :=
  if H.addDSforNS sd dsname ≠ [] then H.addDSforNS sd dsname
  else H.addNSECX p dsname sd.qname 0

/-- The DS records of the cut, or the proof that there are none. -/
theorem mem_referralExtra {dsname : DName} {rr : ReplyRR}
    (h : rr ∈ referralExtra H p sd dsname) :
    rr.d_place = .AUTHORITY ∧ rr.qtype ≠ QType.NS ∧ rr.qtype ≠ QType.SOA := by
  unfold referralExtra at h
  split at h
  · obtain ⟨ds, hds, rfl⟩ := mem_map.mp h
    obtain ⟨z, -, ⟨-, htype, -⟩, rfl⟩ := Backend.mem_lookup.mp hds
    have hDS : z.qtype = QType.DS := htype.resolve_left (by decide)
    refine ⟨rfl, ?_, ?_⟩
    · change z.qtype ≠ QType.NS
      rw [hDS]
      decide
    · change z.qtype ≠ QType.SOA
      rw [hDS]
      decide
  · obtain ⟨htype, hplace⟩ := mem_addNSECX h
    refine ⟨hplace, ?_, ?_⟩
    · rcases htype with e | e <;> rw [e] <;> decide
    · rcases htype with e | e <;> rw [e] <;> decide

/-- The reply of a referral: the NS records found and what goes with them, AA clear. -/
def referralReply (H : PacketHandler) (p : Query) (r : Reply) (sd : SOAData) (ns : StoredRR)
    (rest : List StoredRR) : Reply :=
  { r with
    aa := false
    d_rrs := r.d_rrs ++ (ns :: rest).map (fun rr =>
      { rr.inReply with d_place := .AUTHORITY }) ++ referralExtra H p sd ns.qname }

variable {r : Reply}

theorem tryReferral_eq_none
    (h : H.getBestReferralNS sd target = []) : H.tryReferral p r sd target = none := by
  unfold tryReferral
  rw [h]

theorem tryReferral_eq_some {ns : StoredRR} {rest : List StoredRR}
    (h : H.getBestReferralNS sd target = ns :: rest) :
    H.tryReferral p r sd target = some (referralReply H p r sd ns rest) := by
  unfold tryReferral
  rw [h]
  rfl

/-- What a wildcard adds to the reply: its records under the query name, all in the answer
section, and an NSEC record. -/
def expansion (H : PacketHandler) (p : Query) (sd : SOAData) (target : DName) : List ReplyRR :=
  (H.getBestWildcard p sd target).map (fun rr =>
    { rr.inReply with wildcardname := rr.qname, qname := p.qdomain, d_place := .ANSWER }) ++
  if p.d_dnssecOk then H.addNSECX p p.qdomain sd.qname 3 else []

/-- The name a wildcard sends the query on to. -/
def expansionTarget (H : PacketHandler) (p : Query) (sd : SOAData) (target : DName) :
    Option DName :=
  ((H.getBestWildcard p sd target).filter fun rr => rr.qtype = QType.CNAME).getLast?.map
    fun rr => splitDots rr.content

theorem tryWildcard_eq (H : PacketHandler) (p : Query) (r : Reply) (sd : SOAData)
    (target : DName) :
    H.tryWildcard p r sd target =
      if H.getBestWildcard p sd target = [] then none
      else some (r.addRecords (expansion H p sd target), expansionTarget H p sd target) := rfl

/-! ### Everything a pass can do -/

/-- The pass found a zone and none of the tests on the type answered the query. -/
structure LooksUp (H : PacketHandler) (p : Query) (target : DName) (sd : SOAData) : Prop where
  auth : H.getAuth target = some sd
  notApexSOA : ¬ (p.qtype = QType.SOA ∧ sameName sd.qname p.qdomain)
  notNSEC : ¬ (p.qtype = QType.NSEC ∧ p.d_dnssecOk = true)
  notRRSIG : ¬ (p.qtype = QType.RRSIG ∧ p.d_dnssecOk = true)

/-- The records that a name owns in the zone. -/
def ownedBy (H : PacketHandler) (sd : SOAData) (name : DName) : List StoredRR :=
  H.B.lookup QType.ANY name sd.domain_id

/-- The outcomes of a pass, each with what led to it. -/
inductive PassStep (H : PacketHandler) (p : Query) (r : Reply) (target : DName) : Pass → Prop
  | noZone (hauth : H.getAuth target = none) :
      PassStep H p r target (.sendit (if H.sendRootReferral = .no then
        (r.setA false).setRcode RCode.ServFail
        else (r.setA false).addRecords H.addRootReferral))
  | apexSOA (sd : SOAData) (hauth : H.getAuth target = some sd) (htype : p.qtype = QType.SOA)
      (happ : sameName sd.qname p.qdomain) :
      PassStep H p r target (.sendit (r.addRecords [soaRecord sd .ANSWER]))
  | nsecQuery (sd : SOAData) (hauth : H.getAuth target = some sd) (htype : p.qtype = QType.NSEC)
      (hdo : p.d_dnssecOk = true) :
      PassStep H p r target (.sendit (r.addRecords (H.addNSEC p target [] 2)))
  | rrsigQuery (sd : SOAData) (hauth : H.getAuth target = some sd)
      (htype : p.qtype = QType.RRSIG) (hdo : p.d_dnssecOk = true) :
      PassStep H p r target (.sendit (r.addRecords (H.synthesiseRRSIGs p)))
  | wildcardCNAME (sd : SOAData) (hlook : LooksUp H p target sd)
      (howned : H.ownedBy sd target = []) (hwild : H.getBestWildcard p sd target ≠ [])
      (target' : DName) (hnext : expansionTarget H p sd target = some target') :
      PassStep H p r target (.retarget (r.addRecords (expansion H p sd target)) target')
  | wildcard (sd : SOAData) (hlook : LooksUp H p target sd)
      (howned : H.ownedBy sd target = []) (hwild : H.getBestWildcard p sd target ≠ [])
      (hnext : expansionTarget H p sd target = none) :
      PassStep H p r target (.sendit (r.addRecords (expansion H p sd target)))
  | emptyReferral (sd : SOAData) (hlook : LooksUp H p target sd)
      (howned : H.ownedBy sd target = []) (hwild : H.getBestWildcard p sd target = [])
      (ns : StoredRR) (rest : List StoredRR) (hns : H.getBestReferralNS sd target = ns :: rest) :
      PassStep H p r target (.sendit (referralReply H p r sd ns rest))
  | nxdomain (sd : SOAData) (hlook : LooksUp H p target sd)
      (howned : H.ownedBy sd target = []) (hwild : H.getBestWildcard p sd target = [])
      (hns : H.getBestReferralNS sd target = []) :
      PassStep H p r target (.sendit (H.makeNXDomain p r target sd))
  | cname (sd : SOAData) (hlook : LooksUp H p target sd) (rr : StoredRR)
      (hcname : redirection p (H.ownedBy sd target) = some rr) :
      PassStep H p r target (.retarget (r.addRecords [rr.inReply]) (splitDots rr.content))
  | records (sd : SOAData) (hlook : LooksUp H p target sd)
      (hcname : redirection p (H.ownedBy sd target) = none)
      (hdone : weDone p (H.ownedBy sd target) = true) :
      PassStep H p r target (.sendit (r.addRecords
        ((wanted p (H.ownedBy sd target)).map StoredRR.inReply ++
          if p.qtype = QType.ANY then H.addNSECX p target sd.qname 2 else [])))
  | referral (sd : SOAData) (hlook : LooksUp H p target sd)
      (hcname : redirection p (H.ownedBy sd target) = none)
      (hdone : weDone p (H.ownedBy sd target) = false)
      (hunauth : weHaveUnauth p (H.ownedBy sd target) = true)
      (ns : StoredRR) (rest : List StoredRR) (hns : H.getBestReferralNS sd target = ns :: rest) :
      PassStep H p r target (.sendit (referralReply H p r sd ns rest))
  | lost (sd : SOAData) (hlook : LooksUp H p target sd)
      (hcname : redirection p (H.ownedBy sd target) = none)
      (hdone : weDone p (H.ownedBy sd target) = false)
      (hunauth : weHaveUnauth p (H.ownedBy sd target) = true)
      (hns : H.getBestReferralNS sd target = []) :
      PassStep H p r target (.sendit r)
  | nodata (sd : SOAData) (hlook : LooksUp H p target sd)
      (howned : H.ownedBy sd target ≠ [])
      (hcname : redirection p (H.ownedBy sd target) = none)
      (hdone : weDone p (H.ownedBy sd target) = false)
      (hunauth : weHaveUnauth p (H.ownedBy sd target) = false) :
      PassStep H p r target (.sendit (H.makeNOError p r target sd))

theorem answerNothing_step (hlook : LooksUp H p target sd)
    (howned : H.ownedBy sd target = []) :
    PassStep H p r target (H.answerNothing p r sd target) := by
  unfold answerNothing
  rw [tryWildcard_eq]
  by_cases hwild : H.getBestWildcard p sd target = []
  · rw [if_pos hwild]
    cases hns : H.getBestReferralNS sd target with
    | nil =>
      rw [tryReferral_eq_none hns]
      exact .nxdomain sd hlook howned hwild hns
    | cons ns rest =>
      rw [tryReferral_eq_some hns]
      exact .emptyReferral sd hlook howned hwild ns rest hns
  · rw [if_neg hwild]
    cases hnext : expansionTarget H p sd target with
    | none => exact .wildcard sd hlook howned hwild hnext
    | some target' => exact .wildcardCNAME sd hlook howned hwild target' hnext

theorem answerOwned_step (hlook : LooksUp H p target sd)
    (howned : H.ownedBy sd target ≠ []) :
    PassStep H p r target (H.answerOwned p r sd target (H.ownedBy sd target)) := by
  unfold answerOwned
  cases hcname : redirection p (H.ownedBy sd target) with
  | some rr => exact .cname sd hlook rr hcname
  | none =>
    cases hdone : weDone p (H.ownedBy sd target) with
    | true => exact .records sd hlook hcname hdone
    | false =>
      cases hunauth : weHaveUnauth p (H.ownedBy sd target) with
      | false => exact .nodata sd hlook howned hcname hdone hunauth
      | true =>
        cases hns : H.getBestReferralNS sd target with
        | nil =>
          rw [tryReferral_eq_none hns]
          exact .lost sd hlook hcname hdone hunauth hns
        | cons ns rest =>
          rw [tryReferral_eq_some hns]
          exact .referral sd hlook hcname hdone hunauth ns rest hns

/-- **What a pass does.** Every pass has one of the outcomes of `PassStep`. -/
theorem pass_step (H : PacketHandler) (p : Query) (r : Reply) (target : DName) :
    PassStep H p r target (H.pass p r target) := by
  unfold pass
  cases hauth : H.getAuth target with
  | none => exact .noZone hauth
  | some sd =>
    by_cases hsoa : p.qtype = QType.SOA ∧ sameName sd.qname p.qdomain
    · simp only [if_pos hsoa]
      exact .apexSOA sd hauth hsoa.1 hsoa.2
    by_cases hnsec : p.qtype = QType.NSEC ∧ p.d_dnssecOk = true
    · simp only [if_neg hsoa, if_pos hnsec]
      exact .nsecQuery sd hauth hnsec.1 hnsec.2
    by_cases hrrsig : p.qtype = QType.RRSIG ∧ p.d_dnssecOk = true
    · simp only [if_neg hsoa, if_neg hnsec, if_pos hrrsig]
      exact .rrsigQuery sd hauth hrrsig.1 hrrsig.2
    simp only [if_neg hsoa, if_neg hnsec, if_neg hrrsig]
    have hlook : LooksUp H p target sd := ⟨hauth, hsoa, hnsec, hrrsig⟩
    cases howned : H.B.lookup QType.ANY target sd.domain_id with
    | nil => exact answerNothing_step hlook howned
    | cons rr rrs =>
      have hne : H.ownedBy sd target ≠ [] := by
        unfold ownedBy
        rw [howned]
        exact cons_ne_nil rr rrs
      have howned' : PassStep H p r target _ := answerOwned_step hlook hne
      unfold ownedBy at howned'
      rwa [howned] at howned'

theorem referralReply_extends (r : Reply) (ns : StoredRR) (rest : List StoredRR) :
    Extends r (referralReply H p r sd ns rest) := by
  unfold Extends referralReply
  rw [append_assoc]
  exact prefix_append _ _

/-- **A pass only appends.** Whatever is in the reply when a pass starts is still there, in
the same place, when it ends. -/
theorem pass_extends (H : PacketHandler) (p : Query) (r : Reply) (target : DName) :
    Extends r (H.pass p r target).reply := by
  have hstep := H.pass_step p r target
  generalize H.pass p r target = outcome at hstep ⊢
  cases hstep with
  | noZone =>
    split
    · exact Extends.refl r
    · exact extends_addRecords (r.setA false) _
  | apexSOA => exact extends_addRecords r _
  | nsecQuery => exact extends_addRecords r _
  | rrsigQuery => exact extends_addRecords r _
  | wildcardCNAME => exact extends_addRecords r _
  | wildcard => exact extends_addRecords r _
  | emptyReferral => exact referralReply_extends r _ _
  | nxdomain => exact extends_addRecords r _
  | cname => exact extends_addRecords r _
  | records => exact extends_addRecords r _
  | referral => exact referralReply_extends r _ _
  | lost => exact Extends.refl r
  | nodata => exact extends_addRecords r _

/-! ### What follows the label `sendit` -/

theorem mem_additionalFor {i rr : ReplyRR} (h : rr ∈ H.additionalFor i) :
    rr.d_place = .ADDITIONAL := by
  obtain ⟨t, -, h⟩ := mem_flatMap.mp h
  obtain ⟨found, -, rfl⟩ := mem_map.mp h
  rfl

/-- The additional processing appends additional records, leaves the result code alone and
never sets AA. -/
structure Finished (r r' : Reply) : Prop where
  d_rrs : ∃ extra, r'.d_rrs = r.d_rrs ++ extra ∧ ∀ rr ∈ extra, rr.d_place = .ADDITIONAL
  rcode : r'.rcode = r.rcode
  aa : r'.aa = true → r.aa = true

theorem Finished.refl (r : Reply) : Finished r r :=
  ⟨⟨[], (append_nil _).symm, fun _ h => absurd h not_mem_nil⟩, rfl, id⟩

theorem Finished.trans {r r' r'' : Reply} (h : Finished r r') (h' : Finished r' r'') :
    Finished r r'' := by
  obtain ⟨extra, heq, hplace⟩ := h.d_rrs
  obtain ⟨extra', heq', hplace'⟩ := h'.d_rrs
  refine ⟨⟨extra ++ extra', ?_, ?_⟩, h'.rcode.trans h.rcode, fun haa => h.aa (h'.aa haa)⟩
  · rw [heq', heq, append_assoc]
  · intro rr hrr
    exact (mem_append.mp hrr).elim (hplace rr) (hplace' rr)

theorem sendit_finished (H : PacketHandler) (p : Query) (r : Reply) :
    Finished r (H.sendit p r).reply := by
  change Finished r (H.doAdditionalProcessingAndDropAA p r)
  unfold doAdditionalProcessingAndDropAA
  split
  · exact Finished.refl r
  · -- induction on the MX and NS records that are left; the reply grows underneath
    generalize r.getAPRecords = arrs
    induction arrs generalizing r with
    | nil => exact Finished.refl r
    | cons i arrs ih =>
      refine Finished.trans ?_ (ih _)
      unfold processAdditional
      split
      · exact ⟨⟨_, rfl, fun rr hrr => mem_additionalFor hrr⟩, rfl, fun haa => absurd haa nofun⟩
      · exact ⟨⟨_, rfl, fun rr hrr => mem_additionalFor hrr⟩, rfl, id⟩

theorem Finished.extends {r r' : Reply} (h : Finished r r') : Extends r r' := by
  obtain ⟨extra, heq, -⟩ := h.d_rrs
  unfold Extends
  rw [heq]
  exact prefix_append _ _

/-- All the passes together only append. -/
theorem retargeted_extends (H : PacketHandler) (p : Query) (left : Nat) (r : Reply)
    (target : DName) : Extends r (H.retargeted p left r target).reply := by
  induction left generalizing r target with
  | zero => exact Extends.refl r
  | succ left ih =>
    have hpass := H.pass_extends p r target
    unfold retargeted
    cases hp : H.pass p r target with
    | sendit r' =>
      rw [hp] at hpass
      exact hpass.trans (sendit_finished H p r').extends
    | retarget r' target' =>
      rw [hp] at hpass
      exact hpass.trans (ih r' target')

/-! ### The checks in front of the loop -/

/-- The query gets past the checks in front of the loop: it is an ordinary query in class IN
or ANY for a name of valid octets, its type is none of those answered or refused out of
hand, and no keys are at hand for a query about them. -/
structure ReachesLoop (H : PacketHandler) (p : Query) : Prop where
  query : p.qr = false ∧ p.opcode = 0
  name : validDNSName p.qdomain = true
  inClass : p.qclass = 1 ∨ p.qclass = 255
  notIXFR : p.qtype ≠ QType.IXFR
  notFancy : ¬ (H.d_doFancyRecords = true ∧
    (p.qtype = QType.URL ∨ p.qtype = QType.CURL ∨ p.qtype = QType.MBOXFW))
  noKeys : H.doDNSKEYRequest p = []
  noNSEC3PARAM : H.doNSEC3PARAMRequest p = []

/-- The reply the loop starts with. -/
def startReply (H : PacketHandler) (p : Query) : Reply :=
  (H.replyPacket p).setA ((H.replyPacket p).aa && p.qclass ≠ 255)

theorem answerEarly_eq_none (h : ReachesLoop H p) (r : Reply) : H.answerEarly p r = none := by
  have hversion : H.doVersionRequest p r = none := by
    unfold doVersionRequest
    rw [if_neg]
    rintro ⟨hclass, -⟩
    rcases h.inClass with e | e <;> rw [e] at hclass <;> revert hclass <;> decide
  unfold answerEarly
  rw [if_neg (not_not.mpr h.noKeys), if_neg (not_not.mpr h.noNSEC3PARAM), hversion]
  refine if_neg ?_
  rintro ⟨h255, h1⟩
  exact h.inClass.elim h1 h255

/-- A query that gets past the checks is answered by the loop. -/
theorem questionOrRecurse_eq (h : ReachesLoop H p) :
    H.questionOrRecurse p = some (H.retargeted p 11 (startReply H p) p.qdomain) := by
  obtain ⟨hqr, hopcode⟩ := h.query
  unfold questionOrRecurse
  rw [hqr, h.name, hopcode, if_neg Bool.false_ne_true, if_neg (by decide), if_neg (by decide),
    if_neg (by decide), if_neg h.notIXFR, if_neg h.notFancy, answerEarly_eq_none h]
  rfl

end PacketHandler

end PowerDNS
