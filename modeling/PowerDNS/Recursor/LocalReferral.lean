import PowerDNS.Recursor.AnswerChains

/-!
# Referrals from a zone that is served here

For a name without records `doOOBResolve` climbs to the apex of the zone and collects the NS records
of every name on the way. It does not stop at the first name that has some, and `chopOffDotted`
takes it to the texts behind escaped dots as well. `local_referral_iff` says when all of what was
collected is the NS set of one delegation.
-/

namespace PowerDNS

open List

namespace SyncRes

/-- The NS set of a name, as a referral has it. -/
def delegation (zone : AuthDomain) (nsdomain : Octets) : List TextRR :=
  (zone.d_records.filter fun rr => pdnsIequals rr.qname nsdomain && rr.qtype == QType.NS).map fun rr =>
    { rr with d_place := .AUTHORITY }

/-- The names that are looked at between the name and the apex. -/
def climbed (apex qname : Octets) : List Octets :=
  (chops qname).tail.takeWhile fun nsdomain => !pdnsIequals nsdomain apex

/-- **A right referral**: the whole NS set of a delegation above the name, or the SOA of the zone if
there is no delegation above the name. -/
def RefersRightly (zone : AuthDomain) (apex authdomain qname : Octets) (ret : List TextRR) : Prop :=
  (∃ d ∈ climbed apex qname, AtOrBelow qname d ∧ delegation zone d ≠ [] ∧ ret = delegation zone d) ∨
    (∀ d ∈ climbed apex qname, AtOrBelow qname d → delegation zone d = []) ∧ ret = zone.soa authdomain

/-! ### Climbing -/

section Climbing

variable {qname apex domain : Octets}

theorem length_le_of_mem_chopsFrom {n : Nat} {d : Octets} (h : d ∈ chopsFrom n domain) :
    d.length ≤ domain.length := by
  induction n generalizing domain with
  | zero => exact (mem_singleton.mp h ▸ le_rfl)
  | succ n ih =>
    rw [chopsFrom] at h
    split at h
    · exact (mem_singleton.mp h ▸ le_rfl)
    next domain' hchop =>
      rcases mem_cons.mp h with rfl | h
      · exact le_rfl
      · exact (ih h).trans (length_of_chopOffDotted hchop).le

/-- No name is looked at twice. -/
theorem nodup_chopsFrom (n : Nat) (domain : Octets) : (chopsFrom n domain).Nodup := by
  induction n generalizing domain with
  | zero => exact nodup_singleton domain
  | succ n ih =>
    rw [chopsFrom]
    split
    · exact nodup_singleton domain
    next domain' hchop =>
      refine nodup_cons.mpr ⟨fun hmem => ?_, ih domain'⟩
      exact absurd (length_le_of_mem_chopsFrom hmem) (not_le.mpr (length_of_chopOffDotted hchop))

theorem nodup_climbed (apex qname : Octets) : (climbed apex qname).Nodup :=
  (nodup_chopsFrom _ qname).sublist ((takeWhile_sublist _).trans (tail_sublist _))

end Climbing

/-! ### What is collected -/

section Collected

variable {α β : Type} {f : α → List β} {l : List α} {d e : α}

/-- If one element alone gives something, that is all there is. -/
theorem flatMap_of_unique (hl : l.Nodup) (hd : d ∈ l) (h : ∀ e ∈ l, f e ≠ [] → e = d) : l.flatMap f = f d := by
  obtain ⟨s, t, rfl⟩ := append_of_mem hd
  have hother : ∀ e ∈ s ++ t, f e = [] := by
    intro e he
    by_contra hne
    have hmem : e ∈ s ++ d :: t := by simp only [mem_append, mem_cons] at he ⊢; tauto
    obtain rfl := h e hmem hne
    exact (nodup_middle.mp hl).notMem he
  have hs : s.flatMap f = [] := flatMap_eq_nil_iff.mpr fun e he => hother e (mem_append_left t he)
  have ht : t.flatMap f = [] := flatMap_eq_nil_iff.mpr fun e he => hother e (mem_append_right s he)
  rw [flatMap_append, flatMap_cons, hs, ht, append_nil, nil_append]

/-- Two elements give at least what they give together. -/
theorem length_flatMap_of_two (hd : d ∈ l) (he : e ∈ l) (hne : d ≠ e) :
    (f d).length + (f e).length ≤ (l.flatMap f).length := by
  obtain ⟨s, t, rfl⟩ := append_of_mem hd
  have he' : e ∈ s ++ t := by
    simp only [mem_append, mem_cons] at he ⊢
    rcases he with h | h | h
    · exact .inl h
    · exact absurd h.symm hne
    · exact .inr h
  have hpart : (f e).length ≤ ((s ++ t).flatMap f).length := by
    obtain ⟨s', t', heq⟩ := append_of_mem he'
    rw [heq]
    simp only [flatMap_append, flatMap_cons, length_append]
    omega
  simp only [flatMap_append, flatMap_cons, length_append] at hpart ⊢
  omega

end Collected

variable {W : Type} {R : SyncRes W} {zone : AuthDomain} {qname authdomain apex : Octets}

/-- **One referral**, for a name of the zone that owns nothing, exactly if at most one of the names
that are looked at owns NS records, and that one is an ancestor. -/
theorem local_referral_iff (hzone : R.getBestAuthZone qname = some (authdomain, (apex, zone)))
    (hnothing : ∀ rr ∈ zone.d_records, pdnsIequals rr.qname qname = false) (qtype : UInt16) (ret : List TextRR)
    (res : Int) : RefersRightly zone apex authdomain qname (R.doOOBResolve qname qtype ret res).1 ↔
      (∀ d ∈ climbed apex qname, delegation zone d ≠ [] → AtOrBelow qname d) ∧
        ∀ d ∈ climbed apex qname, ∀ e ∈ climbed apex qname,
          delegation zone d ≠ [] → delegation zone e ≠ [] → d = e := by
  have hrange : (zone.d_records.filter fun rr => pdnsIequals rr.qname qname) = [] :=
    filter_eq_nil_iff.mpr fun rr hrr => by simp [hnothing rr hrr]
  have hret : (R.doOOBResolve qname qtype ret res).1 =
      if (climbed apex qname).flatMap (delegation zone) = [] then zone.soa authdomain
      else (climbed apex qname).flatMap (delegation zone) := by
    unfold doOOBResolve AuthDomain.answer
    rw [hzone]
    dsimp only
    rw [hrange, filter_nil, if_neg (not_not.mpr rfl), if_neg (not_not.mpr rfl)]
    exact apply_ite Prod.fst _ _ _
  rw [hret]
  have hnil : (climbed apex qname).flatMap (delegation zone) = [] ↔
      ∀ d ∈ climbed apex qname, delegation zone d = [] := flatMap_eq_nil_iff
  constructor
  · rintro (⟨d, hd, habove, hne, heq⟩ | ⟨-, heq⟩)
    · rw [if_neg fun h => hne (hnil.mp h d hd)] at heq
      have honly : ∀ e ∈ climbed apex qname, delegation zone e ≠ [] → d = e := by
        intro e he hne'
        by_contra hde
        have htwo := @length_flatMap_of_two _ _ (delegation zone) _ _ _ hd he hde
        have hpos := length_pos_iff.mpr hne'
        rw [heq] at htwo
        omega
      exact ⟨fun e he hne' => honly e he hne' ▸ habove, fun e he e' he' hne₁ hne₂ =>
        (honly e he hne₁).symm.trans (honly e' he' hne₂)⟩
    · by_cases hnone : (climbed apex qname).flatMap (delegation zone) = []
      · exact ⟨fun d hd h => absurd (hnil.mp hnone d hd) h, fun d hd _ _ h => absurd (hnil.mp hnone d hd) h⟩
      · -- NS records are no SOA
        rw [if_neg hnone] at heq
        obtain ⟨rr, hrr⟩ := exists_mem_of_ne_nil _ hnone
        obtain ⟨d, -, hd⟩ := mem_flatMap.mp hrr
        obtain ⟨rr', hns, rfl⟩ := mem_map.mp hd
        rw [heq] at hrr
        obtain ⟨rr'', hfound, hsame⟩ := Option.map_eq_some_iff.mp (Option.mem_toList.mp hrr)
        have hsoa := find?_some hfound
        simp only [mem_filter, Bool.and_eq_true, beq_iff_eq] at hns hsoa
        have htype := congrArg (fun rr : TextRR => rr.qtype) hsame
        rw [hsoa.2, hns.2.2] at htype
        exact absurd htype (by decide)
  · rintro ⟨habove, honly⟩
    by_cases hnone : (climbed apex qname).flatMap (delegation zone) = []
    · rw [if_pos hnone]
      exact .inr ⟨fun d hd _ => hnil.mp hnone d hd, rfl⟩
    · rw [if_neg hnone]
      obtain ⟨d, hd⟩ := not_forall.mp (mt hnil.mpr hnone)
      obtain ⟨hmem, hne⟩ := Classical.not_imp.mp hd
      have hunique := flatMap_of_unique (nodup_climbed apex qname) hmem fun e he hne' => honly e he d hmem hne' hne
      exact .inl ⟨d, hmem, habove d hmem hne, hne, hunique⟩

/-! ### Two delegations -/

/-- A zone with a delegation, and another one below it. -/
def nestedZone (nested : Bool) : AuthDomain where
  d_servers := []
  d_rdForward := false
  d_records := replyRR "sub.local." QType.NS "ns.sub.local." .ANSWER ::
    if nested then [replyRR "a.sub.local." QType.NS "ns.other." .ANSWER] else []
  places := by cases nested <;> decide

def nestedResolver (nested : Bool) : SyncRes Unit :=
  { localResolver with domainmap := [(ascii "local.", nestedZone nested)] }

theorem one_delegation : RefersRightly (nestedZone false) (ascii "local.") (ascii "local.") (ascii "x.a.sub.local.")
    ((nestedResolver false).doOOBResolve (ascii "x.a.sub.local.") QType.A [] 0).1 :=
  (local_referral_iff rfl (by decide) QType.A [] 0).mpr ⟨by decide, by decide⟩

/-- The NS sets of both delegations in one referral. -/
theorem two_delegations_mixed :
    ¬ RefersRightly (nestedZone true) (ascii "local.") (ascii "local.") (ascii "x.a.sub.local.")
      ((nestedResolver true).doOOBResolve (ascii "x.a.sub.local.") QType.A [] 0).1 := by
  unfold RefersRightly
  decide

end SyncRes

end PowerDNS
