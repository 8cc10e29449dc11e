import PowerDNS.Recursor.ReplacedSets

/-!
# Delegations do not outlive themselves

The servers of a zone that has been taken away from them still answer with an NS set for it. If the cache
took the expiry of that set from their answers, the delegation would never end. So an authoritative NS set
that comes in again keeps the expiry it has (`ns_expiry_not_raised`).

The set has to be authoritative already: one that came with a referral is built anew from the first
authoritative answer (`referral_prolonged`), "feel free to scribble non-auth data".
-/

namespace PowerDNS

open GuardedRun List Option UInt32

namespace MemRecursorCache

/-- The records of `e'` were in `e`, with the same expiry or a later one. -/
def NotLater (e e' : CacheEntry) : Prop :=
  ∀ r' ∈ e'.d_records, ∃ r ∈ e.d_records, r.d_string = r'.d_string ∧ r'.d_ttd.toNat ≤ r.d_ttd.toNat

/-- An authoritative `replace` of the NS set of a name gives no record a later expiry. -/
def NoGhost (codec : RecordCodec) (c : MemRecursorCache) (now : Nat) (qname : Octets) (content : List TextRR) :
    Prop :=
  ∀ e ∈ c.d_cache.find? (toLower qname, QType.NS),
    ∀ e' ∈ (c.replace codec now qname QType.NS content true).d_cache.find? (toLower qname, QType.NS),
      NotLater e e'

/-- The records that come in have the RDATA of the stored ones. -/
def SameNames (codec : RecordCodec) (content : List TextRR) (e : CacheEntry) : Prop :=
  (content.map codec.dnsRR2String).Perm (e.d_records.map fun r => some r.d_string)

section Ghosts

variable {codec : RecordCodec} {now : Nat} {rfc : Bool} {ttl : UInt32} {e : CacheEntry}
  {content : List TextRR}

/-- What a refresh with records that are all stored makes of the stored ones. -/
structure Kept (now : Nat) (e : CacheEntry) (rs : List StoredRecord) : Prop where
  notLater : ∀ r' ∈ rs, ∃ r ∈ e.d_records, r.d_string = r'.d_string ∧ r'.d_ttd.toNat ≤ r.d_ttd.toNat
  alive : ∀ r' ∈ rs, now < r'.d_ttd.toNat
  strings : ∀ r ∈ e.d_records, ∃ r' ∈ rs, r'.d_string = r.d_string

/-- One record that is stored already. -/
theorem Kept.store {rs : List StoredRecord} {s : Octets} (h : Kept now e rs) (hclock : now < 2 ^ 32)
    (httl : now < ttl.toNat) (hs : ∃ r ∈ e.d_records, r.d_string = s) :
    Kept now e (storeOne now QType.NS true rfc false rs ⟨ttl, s, true⟩) := by
  obtain ⟨r, hr, rfl⟩ := hs
  obtain ⟨r', hr', hsame⟩ := h.strings r hr
  have hany : (rs.any fun j => j.d_string == r.d_string) = true :=
    any_eq_true.mpr ⟨r', hr', beq_iff_eq.mpr hsame⟩
  unfold storeOne
  rw [if_neg Bool.false_ne_true, if_pos hany]
  have hupdate : ∀ j ∈ rs, ∀ j', j' = (if j.d_string = r.d_string then
      updateTTL now QType.NS true rfc ttl j else j) →
      j'.d_string = j.d_string ∧ j'.d_ttd.toNat ≤ j.d_ttd.toNat ∧ now < j'.d_ttd.toNat := by
    rintro j hj _ rfl
    have hlive := h.alive j hj
    split
    · rcases updateTTL_cases hclock ttl j with ⟨hj', -, -⟩ | ⟨hset, hle, -⟩ | ⟨hj', -, -⟩
      · rw [hj']
        exact ⟨rfl, Nat.le_refl _, hlive⟩
      · rw [updateTTL_d_string, hset]
        exact ⟨rfl, hle.resolve_right (Nat.not_le_of_lt hlive), httl⟩
      · rw [hj']
        exact ⟨rfl, Nat.le_refl _, hlive⟩
    · exact ⟨rfl, Nat.le_refl _, hlive⟩
  constructor
  case notLater =>
    intro j' hj'
    obtain ⟨j, hj, hupd⟩ := mem_map.mp hj'
    obtain ⟨hstring, hle, -⟩ := hupdate j hj j' hupd.symm
    obtain ⟨r₀, hr₀, hstring₀, hle₀⟩ := h.notLater j hj
    exact ⟨r₀, hr₀, hstring₀.trans hstring.symm, hle.trans hle₀⟩
  case alive =>
    intro j' hj'
    obtain ⟨j, hj, hupd⟩ := mem_map.mp hj'
    exact (hupdate j hj j' hupd.symm).2.2
  case strings =>
    intro r₀ hr₀
    obtain ⟨j, hj, hstring⟩ := h.strings r₀ hr₀
    exact ⟨_, mem_map_of_mem hj, (hupdate j hj _ rfl).1.trans hstring⟩

theorem Kept.storeAll {rs : List StoredRecord} (h : Kept now e rs) (hclock : now < 2 ^ 32)
    (httl : now < ttl.toNat) (hone : ∀ i ∈ content, i.ttl = ttl)
    (hstored : ∀ i ∈ content, ∃ r ∈ e.d_records, codec.dnsRR2String i = some r.d_string) :
    ∃ out, MemRecursorCache.storeAll codec now QType.NS true rfc false rs content = some out ∧
      Kept now e out := by
  induction content generalizing rs with
  | nil => exact ⟨rs, rfl, h⟩
  | cons i content ih =>
    obtain ⟨r, hr, hs⟩ := hstored i mem_cons_self
    have hstep : Kept now e (storeOne now QType.NS true rfc false rs ⟨i.ttl, r.d_string, true⟩) := by
      rw [hone i mem_cons_self]
      exact h.store hclock httl ⟨r, hr, rfl⟩
    obtain ⟨out, hout, hkept⟩ := ih hstep (fun i hi => hone i (mem_cons_of_mem _ hi))
      fun i hi => hstored i (mem_cons_of_mem _ hi)
    refine ⟨out, ?_, hkept⟩
    rw [MemRecursorCache.storeAll, hs]
    exact hout

end Ghosts

/-- **No ghost delegations.** When an authoritative NS set that has not expired is replaced by one with the
same names and one expiry, no record gets a later expiry; left aside is a set of which the first record
lives longer than the new expiry and another one does not. -/
theorem ns_expiry_not_raised (codec : RecordCodec) (c : MemRecursorCache) (now : Nat) (qname : Octets)
    (content : List TextRR) (ttl : UInt32) (e : CacheEntry)
    (hfind : c.d_cache.find? (toLower qname, QType.NS) = some e) (hauth : e.d_auth = true)
    (hlive : ∀ r ∈ e.d_records, now < r.d_ttd.toNat) (hsame : SameNames codec content e)
    (hone : ∀ i ∈ content, i.ttl = ttl)
    (hlower : ∀ first ∈ e.d_records.head?, ttl < first.d_ttd → ∀ r ∈ e.d_records, ttl ≤ r.d_ttd) :
    NoGhost codec c now qname content := by
  have hstored : ∀ i ∈ content, ∃ r ∈ e.d_records, codec.dnsRR2String i = some r.d_string := by
    intro i hi
    obtain ⟨r, hr, hs⟩ := mem_map.mp (hsame.subset (mem_map_of_mem hi))
    exact ⟨r, hr, hs.symm⟩
  have hlength : content.length = e.d_records.length := by
    have := hsame.length_eq
    rwa [length_map, length_map] at this
  intro e₀ he₀ e' he'
  obtain rfl : e = e₀ := some.inj (hfind.symm.trans he₀)
  cases hattempt : attemptToRefreshNSTTL QType.NS content e with
  | true =>
    obtain ⟨-, -, -, r, rs, i, is, hrecords, hcontent, hle⟩ := attemptToRefreshNSTTL_iff.mp hattempt
    have hr : now < r.d_ttd.toNat := hlive r (hrecords ▸ mem_cons_self)
    have hi : i.ttl = ttl := hone i (hcontent ▸ mem_cons_self)
    have hclock : now < 2 ^ 32 := Nat.lt_trans hr (toNat_lt _)
    have hkept : Kept now e e.d_records :=
      ⟨fun r hr => ⟨r, hr, rfl, Nat.le_refl _⟩, hlive, fun r hr => ⟨r, hr, rfl⟩⟩
    obtain ⟨out, hout, hkept⟩ := @Kept.storeAll codec now c.d_followRFC2181 ttl e content _ hkept hclock
      (Nat.lt_of_lt_of_le hr (hi ▸ hle)) hone hstored
    have hafter := find?_replace (by rw [hfind]; exact replacedEntry_refreshed hattempt hout)
    obtain rfl := some.inj (hafter.symm.trans he')
    exact hkept.notLater
  | false =>
    obtain ⟨out, hout, hmem⟩ := @storeAll_anew codec now QType.NS c.d_followRFC2181 true content [] (by
      intro i hi
      obtain ⟨r, -, hs⟩ := hstored i hi
      exact ⟨_, hs⟩)
    have hafter := find?_replace (by rw [hfind]; exact replacedEntry_nuked hattempt hout)
    obtain rfl := some.inj (hafter.symm.trans he')
    intro r' hr'
    obtain ⟨i, hi, s, hs, rfl⟩ := ((hmem r').mp (mem_sortRecords.mp hr')).resolve_left not_mem_nil
    obtain ⟨r, hr, hs'⟩ := hstored i hi
    refine ⟨r, hr, some.inj (hs'.symm.trans hs), ?_⟩
    -- the set is not taken for a refresh, so the first record lives longer
    cases hrecords : e.d_records with
    | nil =>
      rw [hrecords] at hr
      exact absurd hr not_mem_nil
    | cons first rest =>
      have hless : ttl < first.d_ttd := by
        by_contra hnot
        rw [UInt32.not_lt, le_iff_toNat_le] at hnot
        cases hcontent : content with
        | nil =>
          rw [hcontent] at hi
          exact absurd hi not_mem_nil
        | cons i₀ is =>
          have hi₀ : i₀.ttl = ttl := hone i₀ (hcontent ▸ mem_cons_self)
          refine absurd (attemptToRefreshNSTTL_iff.mpr ?_) (by rw [hattempt]; exact Bool.false_ne_true)
          exact ⟨hauth, rfl, hlength, first, rest, i₀, is, hrecords, hcontent, hi₀ ▸ hnot⟩
      rw [hone i hi]
      exact le_iff_toNat_le.mp (hlower first (by rw [hrecords]; rfl) hless r hr)

/-- The set of `example.` as it came in at 1000. -/
def servers (auth : Bool) : MemRecursorCache :=
  run (step oneLabelCodec) { d_followRFC2181 := false }
    [.replace 1000 (ascii "example.") QType.NS (twoServers "a." "b." 4600) auth]

theorem servers_not_prolonged :
    NoGhost oneLabelCodec (servers true) 2000 (ascii "example.") (twoServers "a." "b." 90000) := by
  refine ns_expiry_not_raised oneLabelCodec _ 2000 _ _ 90000 ⟨ascii "example.", QType.NS, true,
    [⟨4600, 1 :: ascii "a" ++ [0], true⟩, ⟨4600, 1 :: ascii "b" ++ [0], true⟩]⟩ (by decide) rfl ?_
    (List.Perm.refl _) ?_ ?_
  · exact forall_mem_cons.mpr ⟨by decide, forall_mem_singleton.mpr (by decide)⟩
  · exact forall_mem_cons.mpr ⟨rfl, forall_mem_singleton.mpr rfl⟩
  · rintro first hfirst hless
    obtain rfl := some.inj hfirst
    exact absurd hless (by decide)

/-- **A set that is not authoritative is built anew**: the delegation of `example.` as its parent gave it
lives until 4600, and until 90000 once the servers of `example.` have been asked. -/
theorem referral_prolonged :
    ¬NoGhost oneLabelCodec (servers false) 2000 (ascii "example.") (twoServers "a." "b." 90000) := by
  intro h
  obtain ⟨r, hr, -, hle⟩ := h
    ⟨ascii "example.", QType.NS, false,
      [⟨4600, 1 :: ascii "a" ++ [0], false⟩, ⟨4600, 1 :: ascii "b" ++ [0], false⟩]⟩ (by decide)
    ⟨ascii "example.", QType.NS, true,
      [⟨90000, 1 :: ascii "a" ++ [0], true⟩, ⟨90000, 1 :: ascii "b" ++ [0], true⟩]⟩ (by decide)
    ⟨90000, 1 :: ascii "a" ++ [0], true⟩ mem_cons_self
  revert r
  exact forall_mem_cons.mpr ⟨by decide, forall_mem_singleton.mpr (by decide)⟩

end MemRecursorCache

end PowerDNS
