import PowerDNS.Recursor.Credibility
import PowerDNS.Recursor.MemoisedLookup

/-!
# What an authoritative `replace` leaves behind

An authoritative answer is to take the place of whatever the cache has under its name and type. There is
one exception: an NS set must not have its life prolonged by its own servers, so `replace` looks for an
attempt to refresh the set (`attemptToRefreshNSTTL`) and then, instead of building the entry anew, goes
through the stored records and updates their expiry.

The attempt is recognised by the number of records and the expiry of the first one. So a set with other
names and as many records is taken for a refresh, and the old names stay (`changed_names_stay`). The
replaced set is exactly what is read back when that does not happen (`auth_replace_wins`).
-/

namespace PowerDNS

open GuardedRun List UInt32

namespace MemRecursorCache

/-! ### Reading one set -/

/-- The test `get` makes of the expiry of a record. -/
def looksAlive (now : Nat) (ttd : UInt32) : Bool :=
  decide (ttd < 1000000000 ∨ ttd > UInt32.ofNat now)

/-- `String2DNSRR` makes the content `text` of the RDATA `serial`, whatever the expiry is. -/
def ReadsAs (codec : RecordCodec) (qname : Octets) (qt : UInt16) (serial text : Octets) : Prop :=
  ∀ ttd, ∃ rr, codec.string2DNSRR qname qt serial ttd = some rr ∧ rr.qname = qname ∧ rr.content = text

section Reading

variable {codec : RecordCodec} {now : Nat} {qname : Octets} {qt : UInt16}

/-- In a set of records of one name, records are told apart by their content. -/
theorem contents_setInsert {rr : TextRR} {rrs : List TextRR} (hrr : rr.qname = qname)
    (hrrs : ∀ r ∈ rrs, r.qname = qname) (text : Octets) :
    text ∈ (setInsert rrLess rr rrs).map DNSResourceRecord.content ↔
      text = rr.content ∨ text ∈ rrs.map DNSResourceRecord.content := by
  induction rrs with
  | nil => simp [setInsert]
  | cons r rrs ih =>
    have hr : r.qname = qname := hrrs r mem_cons_self
    unfold setInsert
    by_cases hless : rrLess rr r = true
    · rw [if_pos hless, map_cons, mem_cons]
    · rw [if_neg hless]
      by_cases hmore : rrLess r rr = true
      · rw [if_pos hmore, map_cons, mem_cons, ih fun r hr => hrrs r (mem_cons_of_mem _ hr),
          map_cons, mem_cons]
        exact or_left_comm
      · -- neither is less: the contents are the same
        have hsame : rr.content = r.content := by
          simp only [rrLess, hrr, hr, Bool.or_eq_true, decide_eq_true_eq, Bool.and_eq_true, beq_self_eq_true,
            true_and, not_or] at hless hmore
          exact List.le_antisymm (List.not_lt.mp hmore.2) (List.not_lt.mp hless.2)
        rw [if_neg hmore, hsame, map_cons, mem_cons]
        exact (or_iff_right_of_imp .inl).symm

/-- **Reading the records of an entry** gives the contents of those that look alive. -/
theorem readRecords_contents {ks : List StoredRecord} {ttd : UInt32} {rrs : List TextRR}
    {textOf : Octets → Octets}
    (hreads : ∀ k ∈ ks, looksAlive now k.d_ttd = true → ReadsAs codec qname qt k.d_string (textOf k.d_string))
    (hrrs : ∀ r ∈ rrs, r.qname = qname) :
    ∃ ttd' rrs', readRecords codec now qname qt true ks (ttd, rrs) = some (ttd', rrs') ∧
      ∀ text, text ∈ rrs'.map DNSResourceRecord.content ↔
        text ∈ rrs.map DNSResourceRecord.content ∨
          ∃ k ∈ ks, looksAlive now k.d_ttd = true ∧ text = textOf k.d_string := by
  induction ks generalizing ttd rrs with
  | nil => exact ⟨ttd, rrs, rfl, by simp⟩
  | cons k ks ih =>
    have hrest : ∀ k ∈ ks, looksAlive now k.d_ttd = true →
        ReadsAs codec qname qt k.d_string (textOf k.d_string) :=
      fun k hk => hreads k (mem_cons_of_mem _ hk)
    unfold readRecords
    by_cases halive : looksAlive now k.d_ttd = true
    · obtain ⟨rr, hrr, hname, hcontent⟩ := hreads k mem_cons_self halive k.d_ttd
      rw [if_pos (of_decide_eq_true halive), if_pos rfl, hrr, Option.bind_eq_bind, Option.bind_some]
      have hrrs' : ∀ r ∈ setInsert rrLess rr rrs, r.qname = qname := by
        intro r hr
        rcases mem_setInsert hr with rfl | hr
        · exact hname
        · exact hrrs r hr
      obtain ⟨ttd', rrs', hread, htexts⟩ := ih hrest hrrs'
      refine ⟨ttd', rrs', hread, fun text => ?_⟩
      rw [htexts, contents_setInsert hname hrrs, hcontent, exists_mem_cons_iff]
      tauto
    · obtain ⟨ttd', rrs', hread, htexts⟩ := ih hrest hrrs
      rw [if_neg fun h => halive (decide_eq_true h)]
      refine ⟨ttd', rrs', hread, fun text => ?_⟩
      rw [htexts, exists_mem_cons_iff]
      tauto

/-- The entry of the type asked for is found in the range of its name, and is the only one read. -/
theorem readEntries_single (hqt : qt ≠ QType.ANY ∧ qt ≠ QType.ADDR) {res : Bool}
    {idx : SequencedIndex (Octets × UInt16) CacheEntry CacheEntry.key} {e : CacheEntry}
    (hfind : idx.find? (toLower qname, qt) = some e) {ks : List (Octets × UInt16)}
    (hmem : (toLower qname, qt) ∈ ks) (hnames : ∀ k ∈ ks, k.1 = toLower qname) (acc : UInt32 × List TextRR) :
    (readEntries codec now qname qt res ks idx acc).2 =
      readRecords codec now qname qt res e.d_records acc := by
  have hwanted : ∀ stored, wantedType qt stored = (stored == qt) := by
    intro stored
    unfold wantedType
    rw [beq_eq_false_iff_ne.mpr hqt.1, beq_eq_false_iff_ne.mpr hqt.2, Bool.or_false, Bool.false_and,
      Bool.or_false]
  induction ks with
  | nil => exact absurd hmem not_mem_nil
  | cons k ks ih =>
    unfold readEntries
    by_cases hk : k = (toLower qname, qt)
    · have htype : e.d_qtype = qt := by
        have := (SequencedIndex.find?_eq_some_iff.mp hfind).2
        exact congrArg Prod.snd this
      rw [hk, hfind]
      dsimp only
      rw [hwanted, htype, if_pos (beq_self_eq_true qt)]
      cases readRecords codec now qname qt res e.d_records acc with
      | none => rfl
      | some acc' =>
        dsimp only
        rw [if_pos hqt]
    · have hmem' : (toLower qname, qt) ∈ ks := (mem_cons.mp hmem).resolve_left fun h => hk h.symm
      have hnames' : ∀ k ∈ ks, k.1 = toLower qname := fun k h => hnames k (mem_cons_of_mem _ h)
      cases hother : idx.find? k with
      | none => exact ih hmem' hnames'
      | some i =>
        have htype : i.d_qtype ≠ qt := by
          intro htype
          have hkey := (SequencedIndex.find?_eq_some_iff.mp hother).2
          refine hk (Prod.ext (hnames k mem_cons_self) ?_)
          rw [← hkey]
          exact htype
        dsimp only
        rw [hwanted, if_neg (by simpa using htype)]
        exact ih hmem' hnames'

/-- **`get` for one type** reads the entry of that name and type. -/
theorem get_single (hqt : qt ≠ QType.ANY ∧ qt ≠ QType.ADDR) {c : MemRecursorCache} {e : CacheEntry}
    (hinvalid : c.d_cachecachevalid = false) (hfind : c.d_cache.find? (toLower qname, qt) = some e)
    (res : Bool) :
    (c.get codec now qname qt res).2 =
      (readRecords codec now qname qt res e.d_records (0, [])).map fun r =>
        (toInt (r.1.toNat - now), r.2) := by
  obtain ⟨he, hkey⟩ := SequencedIndex.find?_eq_some_iff.mp hfind
  have hmem : (toLower qname, qt) ∈ c.equalRange qname :=
    mem_equalRange.mpr ⟨hkey ▸ mem_map_of_mem he, rfl⟩
  have hrefresh : c.refreshRange qname = { c with
      d_cachedqname := qname, d_cachecache := c.equalRange qname, d_cachecachevalid := true } :=
    if_pos (by rw [hinvalid]; rfl)
  unfold get
  rw [hrefresh]
  dsimp only
  rw [if_neg fun hempty => absurd hmem (by rw [List.isEmpty_iff.mp hempty]; exact not_mem_nil)]
  rw [readEntries_single hqt hfind hmem fun k hk => (mem_equalRange.mp hk).2]

/-- The content `String2DNSRR` makes of RDATA. -/
def contentOf (codec : RecordCodec) (qname : Octets) (qt : UInt16) (serial : Octets) : Octets :=
  ((codec.string2DNSRR qname qt serial 0).map DNSResourceRecord.content).getD []

theorem ReadsAs.eq_contentOf {serial text : Octets} (h : ReadsAs codec qname qt serial text) :
    contentOf codec qname qt serial = text := by
  obtain ⟨rr, hrr, -, hcontent⟩ := h 0
  unfold contentOf
  rw [hrr]
  exact hcontent

end Reading

/-! ### What is stored -/

section Storing

variable {codec : RecordCodec} {now : Nat} {qt : UInt16} {rfc : Bool}

/-- Records stored anew: those that were there and the new ones. -/
theorem storeAll_anew {auth : Bool} {content : List TextRR} {rs : List StoredRecord}
    (hserial : ∀ i ∈ content, ∃ s, codec.dnsRR2String i = some s) :
    ∃ out, storeAll codec now qt auth rfc true rs content = some out ∧
      ∀ r, r ∈ out ↔ r ∈ rs ∨ ∃ i ∈ content, ∃ s, codec.dnsRR2String i = some s ∧ r = ⟨i.ttl, s, auth⟩ := by
  induction content generalizing rs with
  | nil => exact ⟨rs, rfl, by simp⟩
  | cons i content ih =>
    obtain ⟨s, hs⟩ := hserial i mem_cons_self
    obtain ⟨out, hout, hmem⟩ := @ih (rs ++ [⟨i.ttl, s, auth⟩]) fun i hi => hserial i (mem_cons_of_mem _ hi)
    refine ⟨out, ?_, fun r => ?_⟩
    · rw [storeAll, hs]
      exact hout
    · rw [hmem, mem_append, mem_singleton, exists_mem_cons_iff, or_assoc]
      simp only [hs, Option.some.injEq, exists_eq_left']

/-- `content` brings RDATA that has not expired. -/
def Brings (codec : RecordCodec) (now : Nat) (content : List TextRR) (s : Octets) : Prop :=
  ∃ i ∈ content, codec.dnsRR2String i = some s ∧ now < i.ttl.toNat

/-- When an update of the stored records amounts to replacing them. -/
structure RefreshWins (codec : RecordCodec) (now : Nat) (rfc : Bool) (content : List TextRR)
    (stored : List StoredRecord) : Prop where
  /-- What was stored and would still be read comes in again. -/
  again : ∀ j ∈ stored, looksAlive now j.d_ttd = true →
    ∃ i ∈ content, codec.dnsRR2String i = some j.d_string
  /-- Unless expiries may be lowered, nothing that comes in again has expired before its time. -/
  notBefore : rfc = false → ∀ j ∈ stored, now < j.d_ttd.toNat →
    (∃ i ∈ content, codec.dnsRR2String i = some j.d_string) → Brings codec now content j.d_string
  /-- If they may, the same RDATA does not come in both expired and unexpired. -/
  agree : rfc = true → ∀ i ∈ content, ∀ i' ∈ content, codec.dnsRR2String i = codec.dnsRR2String i' →
    now < i.ttl.toNat → now < i'.ttl.toNat

/-- The stored records when `done` has come in. -/
structure Refreshed (codec : RecordCodec) (now : Nat) (rfc : Bool) (stored : List StoredRecord)
    (done : List TextRR) (rs : List StoredRecord) : Prop where
  /-- Everything that came in is there. -/
  present : ∀ i ∈ done, ∀ s, codec.dnsRR2String i = some s → ∃ r ∈ rs, r.d_string = s
  /-- What came in unexpired is unexpired. -/
  alive : ∀ r ∈ rs, Brings codec now done r.d_string → now < r.d_ttd.toNat
  /-- Other records are as they were. -/
  untouched : ∀ r ∈ rs, (∀ i ∈ done, codec.dnsRR2String i ≠ some r.d_string) → r ∈ stored
  /-- What came in is unexpired for a reason, and only then read. -/
  touched : ∀ r ∈ rs, (∃ i ∈ done, codec.dnsRR2String i = some r.d_string) → looksAlive now r.d_ttd = true →
    Brings codec now done r.d_string ∨
      rfc = false ∧ ∃ j ∈ stored, j.d_string = r.d_string ∧ now < j.d_ttd.toNat

theorem looksAlive_iff (hclock : now < 2 ^ 32) (ttd : UInt32) :
    looksAlive now ttd = true ↔ ttd.toNat < 1000000000 ∨ now < ttd.toNat := by
  have hnow : (UInt32.ofNat now).toNat = now := toNat_ofNat_of_lt' hclock
  unfold looksAlive
  rw [decide_eq_true_eq, lt_iff_toNat_lt, gt_iff_lt, lt_iff_toNat_lt, hnow]
  exact Iff.rfl

/-- What an update does to the expiry of an NS record that comes in again from its own servers. -/
theorem updateTTL_cases (hclock : now < 2 ^ 32) (ttl : UInt32) (j : StoredRecord) :
    (updateTTL now QType.NS true rfc ttl j = j ∧ now < j.d_ttd.toNat ∧ j.d_ttd.toNat < ttl.toNat) ∨
      ((updateTTL now QType.NS true rfc ttl j).d_ttd = ttl ∧
        (ttl.toNat ≤ j.d_ttd.toNat ∨ j.d_ttd.toNat ≤ now) ∧ (rfc = true ∨ j.d_ttd.toNat ≤ now)) ∨
      (updateTTL now QType.NS true rfc ttl j = j ∧ ttl.toNat ≤ j.d_ttd.toNat ∧ rfc = false) := by
  have hnow : (UInt32.ofNat now).toNat = now := toNat_ofNat_of_lt' hclock
  unfold updateTTL
  by_cases hraise : j.d_ttd > UInt32.ofNat now ∧ ttl > j.d_ttd ∧ QType.NS = QType.NS ∧ true = true
  · rw [if_pos hraise]
    refine .inl ⟨rfl, ?_, lt_iff_toNat_lt.mp hraise.2.1⟩
    have := lt_iff_toNat_lt.mp hraise.1
    rwa [hnow] at this
  · rw [if_neg hraise]
    have hdead : ttl.toNat ≤ j.d_ttd.toNat ∨ j.d_ttd.toNat ≤ now := by
      by_contra hboth
      rw [not_or, Nat.not_le, Nat.not_le] at hboth
      refine hraise ⟨lt_iff_toNat_lt.mpr (hnow.symm ▸ hboth.2), ?_, rfl, rfl⟩
      exact lt_iff_toNat_lt.mpr hboth.1
    by_cases hset : ttl > j.d_ttd ∨ true = true ∧ rfc = true
    · rw [if_pos hset]
      refine .inr (.inl ⟨rfl, hdead, ?_⟩)
      rcases hset with hmore | hrfc
      · have := lt_iff_toNat_lt.mp hmore
        exact .inr (hdead.resolve_left (Nat.not_le_of_lt this))
      · exact .inl hrfc.2
    · rw [if_neg hset]
      rw [not_or] at hset
      refine .inr (.inr ⟨rfl, le_iff_toNat_le.mp (UInt32.not_lt.mp hset.1), ?_⟩)
      exact Bool.eq_false_of_not_eq_true fun h => hset.2 ⟨rfl, h⟩

/-- What comes in with the last record. -/
theorem brings_append {done : List TextRR} {i : TextRR} {s t : Octets} (hs : codec.dnsRR2String i = some s) :
    Brings codec now (done ++ [i]) t ↔ Brings codec now done t ∨ s = t ∧ now < i.ttl.toNat := by
  unfold Brings
  simp only [mem_append, mem_singleton, or_and_right, exists_or, exists_eq_left, hs,
    Option.some.injEq]

theorem comesIn_append {done : List TextRR} {i : TextRR} {s t : Octets}
    (hs : codec.dnsRR2String i = some s) :
    (∃ i' ∈ done ++ [i], codec.dnsRR2String i' = some t) ↔
      (∃ i' ∈ done, codec.dnsRR2String i' = some t) ∨ s = t := by
  simp only [mem_append, mem_singleton, or_and_right, exists_or, exists_eq_left, hs,
    Option.some.injEq]

/-- An expiry that looks alive and is not one of the small numbers is one. -/
theorem lives_of_looksAlive (hclock : now < 2 ^ 32) {ttd : UInt32}
    (hexpired : ttd.toNat ≤ now → 1000000000 ≤ ttd.toNat) (h : looksAlive now ttd = true) :
    now < ttd.toNat := by
  rcases (looksAlive_iff hclock _).mp h with hsmall | hlive
  · by_contra hdead
    exact Nat.not_lt_of_le (hexpired (Nat.le_of_not_lt hdead)) hsmall
  · exact hlive

section Refresh

variable {stored rs : List StoredRecord} {done : List TextRR} {i : TextRR} {s : Octets}

/-- A record that is stored already: its expiry is updated. -/
theorem Refreshed.update (h : Refreshed codec now rfc stored done rs) (hclock : now < 2 ^ 32)
    (hs : codec.dnsRR2String i = some s) (hexpired : i.ttl.toNat ≤ now → 1000000000 ≤ i.ttl.toNat)
    (hagree : rfc = true → Brings codec now done s → now < i.ttl.toNat) (hany : ∃ j ∈ rs, j.d_string = s) :
    Refreshed codec now rfc stored (done ++ [i])
      (rs.map fun j => if j.d_string = s then updateTTL now QType.NS true rfc i.ttl j else j) := by
  have hstring : ∀ j : StoredRecord, (if j.d_string = s then
      updateTTL now QType.NS true rfc i.ttl j else j).d_string = j.d_string := by
    intro j
    split
    · exact updateTTL_d_string i.ttl j
    · rfl
  constructor
  case present =>
    intro i' hi' t ht
    obtain ⟨j, hj, hjt⟩ : ∃ j ∈ rs, j.d_string = t := by
      rcases (comesIn_append hs).mp ⟨i', hi', ht⟩ with ⟨i'', hi'', ht''⟩ | rfl
      · exact h.present i'' hi'' t ht''
      · exact hany
    exact ⟨_, mem_map_of_mem hj, (hstring j).trans hjt⟩
  case alive =>
    intro r hr hbrings
    obtain ⟨j, hj, rfl⟩ := mem_map.mp hr
    rw [hstring, brings_append hs] at hbrings
    by_cases hjs : j.d_string = s
    · rw [if_pos hjs]
      rcases updateTTL_cases hclock i.ttl j with ⟨hsame, hlive, -⟩ | ⟨hset, -, hwhy⟩ | ⟨hsame, hle, -⟩
      · rwa [hsame]
      · rw [hset]
        rcases hbrings with hbrings | ⟨-, hlive⟩
        · have hlive := h.alive j hj hbrings
          rw [hjs] at hbrings
          exact hagree (hwhy.resolve_right (Nat.not_le_of_lt hlive)) hbrings
        · exact hlive
      · rw [hsame]
        rcases hbrings with hbrings | ⟨-, hlive⟩
        · exact h.alive j hj hbrings
        · exact Nat.lt_of_lt_of_le hlive hle
    · rw [if_neg hjs]
      exact h.alive j hj (hbrings.resolve_right fun h => hjs h.1.symm)
  case untouched =>
    intro r hr hnot
    obtain ⟨j, hj, rfl⟩ := mem_map.mp hr
    rw [hstring] at hnot
    have hjs : j.d_string ≠ s := by
      rintro rfl
      exact hnot i (mem_append_right _ (mem_singleton_self i)) hs
    rw [if_neg hjs]
    exact h.untouched j hj fun i' hi' => hnot i' (mem_append_left _ hi')
  case touched =>
    intro r hr hin hlooks
    obtain ⟨j, hj, rfl⟩ := mem_map.mp hr
    rw [hstring] at hin ⊢
    rw [brings_append hs]
    by_cases hjs : j.d_string = s
    · rw [if_pos hjs] at hlooks
      rcases updateTTL_cases hclock i.ttl j with ⟨-, hlive, hmore⟩ | ⟨hset, -, -⟩ | ⟨hsame, hle, hrfc⟩
      · exact .inl (.inr ⟨hjs.symm, Nat.lt_trans hlive hmore⟩)
      · rw [hset] at hlooks
        exact .inl (.inr ⟨hjs.symm, lives_of_looksAlive hclock hexpired hlooks⟩)
      · rw [hsame] at hlooks
        by_cases hbefore : ∃ i' ∈ done, codec.dnsRR2String i' = some j.d_string
        · exact (h.touched j hj hbefore hlooks).imp_left .inl
        · -- the record has not come in before, so it is still the stored one
          have hstored : j ∈ stored := h.untouched j hj fun i' hi' ht => hbefore ⟨i', hi', ht⟩
          rcases (looksAlive_iff hclock _).mp hlooks with hsmall | hlive
          · refine .inl (.inr ⟨hjs.symm, ?_⟩)
            by_contra hdead
            omega
          · exact .inr ⟨hrfc, j, hstored, rfl, hlive⟩
    · rw [if_neg hjs] at hlooks
      have hbefore := ((comesIn_append hs).mp hin).resolve_right fun h => hjs h.symm
      exact (h.touched j hj hbefore hlooks).imp_left .inl

/-- A record that is not stored yet: it is added. -/
theorem Refreshed.add (h : Refreshed codec now rfc stored done rs) (hclock : now < 2 ^ 32)
    (hs : codec.dnsRR2String i = some s) (hexpired : i.ttl.toNat ≤ now → 1000000000 ≤ i.ttl.toNat)
    (hnone : ∀ j ∈ rs, j.d_string ≠ s) :
    Refreshed codec now rfc stored (done ++ [i]) (sortRecords (rs ++ [⟨i.ttl, s, true⟩])) := by
  have hmem : ∀ r, r ∈ sortRecords (rs ++ [⟨i.ttl, s, true⟩]) ↔ r ∈ rs ∨ r = ⟨i.ttl, s, true⟩ := by
    intro r
    rw [mem_sortRecords, mem_append, mem_singleton]
  constructor
  case present =>
    intro i' hi' t ht
    rcases (comesIn_append hs).mp ⟨i', hi', ht⟩ with ⟨i'', hi'', ht''⟩ | rfl
    · obtain ⟨j, hj, hjt⟩ := h.present i'' hi'' t ht''
      exact ⟨j, (hmem j).mpr (.inl hj), hjt⟩
    · exact ⟨_, (hmem _).mpr (.inr rfl), rfl⟩
  case alive =>
    intro r hr hbrings
    rw [brings_append hs] at hbrings
    rcases (hmem r).mp hr with hr | rfl
    · exact h.alive r hr (hbrings.resolve_right fun hsame => hnone r hr hsame.1.symm)
    · rcases hbrings with ⟨i', hi', ht, -⟩ | ⟨-, hlive⟩
      · obtain ⟨j, hj, hjs⟩ := h.present i' hi' s ht
        exact absurd hjs (hnone j hj)
      · exact hlive
  case untouched =>
    intro r hr hnot
    rcases (hmem r).mp hr with hr | rfl
    · exact h.untouched r hr fun i' hi' => hnot i' (mem_append_left _ hi')
    · exact absurd hs (hnot i (mem_append_right _ (mem_singleton_self i)))
  case touched =>
    intro r hr hin hlooks
    rw [brings_append hs]
    rcases (hmem r).mp hr with hr | rfl
    · have hbefore := ((comesIn_append hs).mp hin).resolve_right fun hsame => hnone r hr hsame.symm
      exact (h.touched r hr hbefore hlooks).imp_left .inl
    · exact .inl (.inr ⟨rfl, lives_of_looksAlive hclock hexpired hlooks⟩)

/-- **One record of a refresh.** -/
theorem Refreshed.store (h : Refreshed codec now rfc stored done rs) (hclock : now < 2 ^ 32)
    (hs : codec.dnsRR2String i = some s) (hexpired : i.ttl.toNat ≤ now → 1000000000 ≤ i.ttl.toNat)
    (hagree : rfc = true → Brings codec now done s → now < i.ttl.toNat) :
    Refreshed codec now rfc stored (done ++ [i])
      (storeOne now QType.NS true rfc false rs ⟨i.ttl, s, true⟩) := by
  unfold storeOne
  by_cases hany : (rs.any fun j => j.d_string == s) = true
  · rw [if_pos hany]
    obtain ⟨j, hj, hjs⟩ := any_eq_true.mp hany
    exact h.update hclock hs hexpired hagree ⟨j, hj, eq_of_beq hjs⟩
  · rw [if_neg hany]
    refine h.add hclock hs hexpired fun j hj hjs => hany ?_
    exact any_eq_true.mpr ⟨j, hj, beq_iff_eq.mpr hjs⟩

/-- **The whole refresh.** -/
theorem Refreshed.storeAll (h : Refreshed codec now rfc stored done rs) (hclock : now < 2 ^ 32)
    {rest : List TextRR} (hserial : ∀ i ∈ rest, ∃ s, codec.dnsRR2String i = some s)
    (hexpired : ∀ i ∈ rest, i.ttl.toNat ≤ now → 1000000000 ≤ i.ttl.toNat)
    (hagree : rfc = true → ∀ i ∈ done ++ rest, ∀ i' ∈ done ++ rest,
      codec.dnsRR2String i = codec.dnsRR2String i' → now < i.ttl.toNat → now < i'.ttl.toNat) :
    ∃ out, MemRecursorCache.storeAll codec now QType.NS true rfc false rs rest = some out ∧
      Refreshed codec now rfc stored (done ++ rest) out := by
  induction rest generalizing done rs with
  | nil =>
    rw [append_nil]
    exact ⟨rs, rfl, h⟩
  | cons i rest ih =>
    obtain ⟨s, hs⟩ := hserial i mem_cons_self
    have hstep := h.store hclock hs (hexpired i mem_cons_self) (by
      rintro hrfc ⟨i', hi', hs', hlive⟩
      exact hagree hrfc i' (mem_append_left _ hi') i (mem_append_right _ mem_cons_self)
        (hs'.trans hs.symm) hlive)
    rw [append_cons] at hagree ⊢
    obtain ⟨out, hout, hrefreshed⟩ := ih hstep (fun i hi => hserial i (mem_cons_of_mem _ hi))
      (fun i hi => hexpired i (mem_cons_of_mem _ hi)) hagree
    refine ⟨out, ?_, hrefreshed⟩
    rw [MemRecursorCache.storeAll, hs]
    exact hout

/-- Nothing has come in yet. -/
theorem Refreshed.start : Refreshed codec now rfc stored [] stored where
  present i hi := absurd hi not_mem_nil
  alive r _ hbrings := by
    obtain ⟨i, hi, -⟩ := hbrings
    exact absurd hi not_mem_nil
  untouched r hr _ := hr
  touched r _ hin := by
    obtain ⟨i, hi, -⟩ := hin
    exact absurd hi not_mem_nil

/-- After a refresh that wins, what is read is what came in unexpired. -/
theorem Refreshed.read_iff {content : List TextRR} (h : Refreshed codec now rfc stored content rs)
    (hwins : RefreshWins codec now rfc content stored) (hclock : now < 2 ^ 32) :
    (∃ r ∈ rs, looksAlive now r.d_ttd = true ∧ r.d_string = s) ↔ Brings codec now content s := by
  constructor
  · rintro ⟨r, hr, hlooks, rfl⟩
    have hin : ∃ i ∈ content, codec.dnsRR2String i = some r.d_string := by
      by_contra hnot
      exact hnot (hwins.again r (h.untouched r hr fun i hi hs => hnot ⟨i, hi, hs⟩) hlooks)
    rcases h.touched r hr hin hlooks with hbrings | ⟨hrfc, j, hj, hjs, hlive⟩
    · exact hbrings
    · rw [← hjs] at hin ⊢
      exact hwins.notBefore hrfc j hj hlive hin
  · intro hbrings
    obtain ⟨i, hi, hs, hlive⟩ := hbrings
    obtain ⟨r, hr, rfl⟩ := h.present i hi s hs
    refine ⟨r, hr, (looksAlive_iff hclock _).mpr (.inr ?_), rfl⟩
    exact h.alive r hr ⟨i, hi, hs, hlive⟩

end Refresh

end Storing

/-! ### The entry afterwards -/

section Entry

variable {codec : RecordCodec} {c : MemRecursorCache} {now : Nat} {qname : Octets} {qt : UInt16}
  {content : List TextRR} {rfc : Bool} {stored : CacheEntry} {out : List StoredRecord}

/-- The entry that is built is the one of the name and type. -/
theorem find?_replace {auth : Bool} {ce : CacheEntry}
    (h : replacedEntry codec now qt content auth c.d_followRFC2181
      (c.d_cache.find? (toLower qname, qt)).isNone
      ((c.d_cache.find? (toLower qname, qt)).getD ⟨qname, qt, auth, []⟩) = some ce) :
    (c.replace codec now qname qt content auth).d_cache.find? (toLower qname, qt) = some ce := by
  have hkey : ce.key = (toLower qname, qt) := by
    rw [replacedEntry_key h]
    cases hfind : c.d_cache.find? (toLower qname, qt) with
    | none => rfl
    | some e => exact (SequencedIndex.find?_eq_some_iff.mp hfind).2
  rw [SequencedIndex.find?_eq_some_iff]
  refine ⟨?_, hkey⟩
  unfold replace
  dsimp only
  rw [show CacheEntry.key ⟨qname, qt, auth, []⟩ = (toLower qname, qt) from rfl, h]
  refine SequencedIndex.mem_replace.mpr (.inl ⟨rfl, ?_⟩)
  cases hfind : c.d_cache.find? (toLower qname, qt) with
  | none =>
    exact ⟨⟨qname, qt, auth, []⟩, SequencedIndex.mem_insert.mpr (.inr ⟨rfl, hfind⟩), hkey.symm⟩
  | some e =>
    obtain ⟨he, hekey⟩ := SequencedIndex.find?_eq_some_iff.mp hfind
    exact ⟨e, SequencedIndex.mem_insert.mpr (.inl he), hekey.trans hkey.symm⟩

/-- "nuking storage". -/
theorem replacedEntry_nuked {isNew : Bool}
    (h : attemptToRefreshNSTTL qt content (clearSingleton qt stored) = false)
    (hout : storeAll codec now qt true rfc true [] content = some out) :
    replacedEntry codec now qt content true rfc isNew stored =
      some { clearSingleton qt stored with d_records := sortRecords out, d_auth := true } := by
  unfold replacedEntry
  simp only [Bool.not_true, Bool.false_and, Bool.false_eq_true, if_false, h, Bool.not_false, Bool.and_self,
    if_true, Bool.or_true, hout, Option.map_some]

/-- What an attempt to refresh looks like. -/
theorem attemptToRefreshNSTTL_iff :
    attemptToRefreshNSTTL qt content stored = true ↔
      stored.d_auth = true ∧ qt = QType.NS ∧ content.length = stored.d_records.length ∧
        ∃ r rs i is, stored.d_records = r :: rs ∧ content = i :: is ∧ r.d_ttd.toNat ≤ i.ttl.toNat := by
  unfold attemptToRefreshNSTTL
  cases hauth : stored.d_auth with
  | false => simp
  | true =>
    by_cases hqt : qt = QType.NS
    · by_cases hlength : content.length = stored.d_records.length
      · rw [if_neg (by simp), if_neg (not_not.mpr hqt), if_neg (not_not.mpr hlength)]
        cases hrecords : stored.d_records with
        | nil => simp
        | cons r rs =>
          cases content with
          | nil => simp
          | cons i is =>
            simp only [Bool.not_eq_true', decide_eq_false_iff_not, hqt, true_and, List.cons.injEq]
            rw [gt_iff_lt, UInt32.not_lt, le_iff_toNat_le]
            constructor
            · intro hle
              exact ⟨by rw [hlength, hrecords], r, rs, i, is, ⟨rfl, rfl⟩, ⟨rfl, rfl⟩, hle⟩
            · rintro ⟨-, _, _, _, _, ⟨rfl, rfl⟩, ⟨rfl, rfl⟩, hle⟩
              exact hle
      · simp [hlength]
    · simp [hqt]

/-- "update attempt!" -/
theorem replacedEntry_refreshed (h : attemptToRefreshNSTTL qt content stored = true)
    (hout : storeAll codec now qt true rfc false stored.d_records content = some out) :
    replacedEntry codec now qt content true rfc false stored = some { stored with d_records := out } := by
  obtain ⟨-, hqt, -⟩ := attemptToRefreshNSTTL_iff.mp h
  have hclear : clearSingleton qt stored = stored := if_neg (by rw [hqt]; decide)
  unfold replacedEntry
  simp only [hclear, Bool.not_true, Bool.false_and, Bool.false_eq_true, if_false, h, Bool.and_false,
    Bool.or_false, hout, Option.map_some]

end Entry

/-! ### Authoritative data wins -/

/-- When an authoritative `replace` leaves the new set, as far as it has not expired, and nothing else. -/
structure WinsWhen (codec : RecordCodec) (c : MemRecursorCache) (now : Nat) (qname : Octets) (qt : UInt16)
    (content : List TextRR) : Prop where
  /-- The time fits the 32 bits of an expiry. -/
  clock : now < 2 ^ 32
  /-- No record has an expiry that has passed and is one of the small numbers `get` takes for alive. -/
  expired : ∀ i ∈ content, i.ttl.toNat ≤ now → 1000000000 ≤ i.ttl.toNat
  /-- Where the set is taken for a refresh of the stored one, that makes no difference. -/
  refresh : ∀ e ∈ c.d_cache.find? (toLower qname, qt), attemptToRefreshNSTTL qt content e = true →
    RefreshWins codec now c.d_followRFC2181 content e.d_records

/-- The reply of `get` has the contents of the unexpired records of `content`, and no others. -/
def AnswersExactly (codec : RecordCodec) (now : Nat) (qname : Octets) (qt : UInt16) (content : List TextRR)
    (reply : Option (Int × List TextRR)) : Prop :=
  ∃ ttl rrs, reply = some (ttl, rrs) ∧ ∀ text, text ∈ rrs.map DNSResourceRecord.content ↔
    ∃ i ∈ content, now < i.ttl.toNat ∧ ∃ s, codec.dnsRR2String i = some s ∧ ReadsAs codec qname qt s text

section Wins

variable {codec : RecordCodec} {c : MemRecursorCache} {now : Nat} {qname : Octets} {qt : UInt16}
  {content : List TextRR}

/-- The RDATA that is read from the entry afterwards. -/
theorem read_after_replace (hserial : ∀ i ∈ content, ∃ s, codec.dnsRR2String i = some s)
    (hwins : WinsWhen codec c now qname qt content) :
    ∃ e, (c.replace codec now qname qt content true).d_cache.find? (toLower qname, qt) = some e ∧
      ∀ s, (∃ r ∈ e.d_records, looksAlive now r.d_ttd = true ∧ r.d_string = s) ↔
        Brings codec now content s := by
  generalize hbase : (c.d_cache.find? (toLower qname, qt)).getD ⟨qname, qt, true, []⟩ = base
  cases hattempt : attemptToRefreshNSTTL qt content (clearSingleton qt base) with
  | false =>
    obtain ⟨out, hout, hmem⟩ := @storeAll_anew codec now qt c.d_followRFC2181 true content [] hserial
    refine ⟨_, find?_replace (by rw [hbase]; exact replacedEntry_nuked hattempt hout), fun s => ?_⟩
    constructor
    · rintro ⟨r, hr, hlooks, rfl⟩
      obtain ⟨i, hi, s, hs, rfl⟩ := ((hmem r).mp (mem_sortRecords.mp hr)).resolve_left not_mem_nil
      exact ⟨i, hi, hs, lives_of_looksAlive hwins.clock (hwins.expired i hi) hlooks⟩
    · rintro ⟨i, hi, hs, hlive⟩
      exact ⟨⟨i.ttl, s, true⟩, mem_sortRecords.mpr ((hmem _).mpr (.inr ⟨i, hi, s, hs, rfl⟩)),
        (looksAlive_iff hwins.clock _).mpr (.inr hlive), rfl⟩
  | true =>
    obtain ⟨-, rfl, -⟩ := attemptToRefreshNSTTL_iff.mp hattempt
    -- there is something to refresh
    cases hfind : c.d_cache.find? (toLower qname, QType.NS) with
    | none =>
      rw [hfind] at hbase
      obtain ⟨-, -, -, r, rs, -, -, hrecords, -⟩ := attemptToRefreshNSTTL_iff.mp hattempt
      rw [← hbase] at hrecords
      cases hrecords
    | some e =>
      rw [hfind] at hbase
      obtain rfl : e = base := hbase
      have hrefresh := hwins.refresh e hfind hattempt
      obtain ⟨out, hout, hrefreshed⟩ :=
        (@Refreshed.start codec now c.d_followRFC2181 e.d_records).storeAll hwins.clock hserial hwins.expired
          hrefresh.agree
      refine ⟨_, find?_replace (by rw [hfind]; exact replacedEntry_refreshed hattempt hout), fun s => ?_⟩
      exact hrefreshed.read_iff hrefresh hwins.clock

end Wins

/-- **Authoritative data wins.** In every state of the cache, after an authoritative `replace` with records
that can be stored and read back, `get` at the same time returns exactly the unexpired ones, provided a
refresh of the stored set makes no difference. -/
theorem auth_replace_wins (codec : RecordCodec) (followRFC2181 : Bool) (before : List Op) (now : Nat)
    (qname : Octets) (qt : UInt16) (content : List TextRR) (hqt : qt ≠ QType.ANY ∧ qt ≠ QType.ADDR)
    (hreads : ∀ i ∈ content, ∃ s text, codec.dnsRR2String i = some s ∧ ReadsAs codec qname qt s text)
    (hwins : WinsWhen codec (run (step codec) { d_followRFC2181 := followRFC2181 } before) now qname qt
      content) :
    AnswersExactly codec now qname qt content
      (((run (step codec) { d_followRFC2181 := followRFC2181 } before).replace codec now qname qt content
        true).get codec now qname qt true).2 := by
  generalize run (step codec) { d_followRFC2181 := followRFC2181 } before = c at hwins ⊢
  have hserial : ∀ i ∈ content, ∃ s, codec.dnsRR2String i = some s := by
    intro i hi
    obtain ⟨s, -, hs, -⟩ := hreads i hi
    exact ⟨s, hs⟩
  have htext : ∀ s, Brings codec now content s → ReadsAs codec qname qt s (contentOf codec qname qt s) := by
    rintro s ⟨i, hi, hs, -⟩
    obtain ⟨s', text, hs', hreads⟩ := hreads i hi
    obtain rfl := Option.some.inj (hs.symm.trans hs')
    rwa [hreads.eq_contentOf]
  obtain ⟨e, hfind, hread⟩ := read_after_replace hserial hwins
  have hinvalid : (c.replace codec now qname qt content true).d_cachecachevalid = false := by
    unfold replace
    dsimp only
    split <;> rfl
  rw [get_single hqt hinvalid hfind]
  obtain ⟨ttd, rrs, hrecords, htexts⟩ := @readRecords_contents codec now qname qt e.d_records 0 []
    (contentOf codec qname qt) (fun k hk hlooks => htext _ ((hread _).mp ⟨k, hk, hlooks, rfl⟩))
    (fun r hr => absurd hr not_mem_nil)
  rw [hrecords]
  refine ⟨_, rrs, rfl, fun text => ?_⟩
  rw [htexts, map_nil, or_iff_right not_mem_nil]
  constructor
  · rintro ⟨k, hk, hlooks, rfl⟩
    obtain ⟨i, hi, hs, hlive⟩ := (hread k.d_string).mp ⟨k, hk, hlooks, rfl⟩
    exact ⟨i, hi, hlive, k.d_string, hs, htext _ ⟨i, hi, hs, hlive⟩⟩
  · rintro ⟨i, hi, hlive, s, hs, hreads⟩
    obtain ⟨k, hk, hlooks, rfl⟩ := (hread s).mpr ⟨i, hi, hs, hlive⟩
    exact ⟨k, hk, hlooks, hreads.eq_contentOf.symm⟩

/-- The codec for contents that are names of one label. -/
def oneLabelCodec : RecordCodec where
  dnsRR2String rr := some (UInt8.ofNat (rr.content.length - 1) :: rr.content.dropLast ++ [0])
  string2DNSRR qname qt serial ttd :=
    some { qtype := qt, qname := qname, wildcardname := [], content := serial.tail.dropLast ++ [dot], ttl := ttd }

/-- An NS set of `example.` with two names. -/
def twoServers (ns ns' : String) (ttl : UInt32) : List TextRR :=
  [cachedRR "example." QType.NS ns ttl, cachedRR "example." QType.NS ns' ttl]

/-- A real refresh: the same names come in again. -/
theorem same_names_win :
    AnswersExactly oneLabelCodec 2000 (ascii "example.") QType.NS (twoServers "a." "b." 90000)
      (((run (step oneLabelCodec) { d_followRFC2181 := false }
        [.replace 1000 (ascii "example.") QType.NS (twoServers "a." "b." 4600) true]).replace oneLabelCodec 2000
          (ascii "example.") QType.NS (twoServers "a." "b." 90000) true).get oneLabelCodec 2000
            (ascii "example.") QType.NS true).2 := by
  refine auth_replace_wins oneLabelCodec false _ 2000 _ _ _ (by decide) ?_ ⟨by decide, ?_, ?_⟩
  · refine forall_mem_cons.mpr ⟨?_, forall_mem_singleton.mpr ?_⟩
    · exact ⟨_, ascii "a.", rfl, fun ttd => ⟨_, rfl, rfl, rfl⟩⟩
    · exact ⟨_, ascii "b.", rfl, fun ttd => ⟨_, rfl, rfl, rfl⟩⟩
  · exact forall_mem_cons.mpr ⟨by decide, forall_mem_singleton.mpr (by decide)⟩
  · rintro e he -
    obtain rfl : ⟨ascii "example.", QType.NS, true,
        [⟨4600, 1 :: ascii "a" ++ [0], true⟩, ⟨4600, 1 :: ascii "b" ++ [0], true⟩]⟩ = e :=
      Option.some.inj (Eq.trans (by decide) he)
    refine ⟨?_, fun _ j _ _ hin => ?_, fun h => absurd h Bool.false_ne_true⟩
    · refine forall_mem_cons.mpr ⟨fun _ => ?_, forall_mem_singleton.mpr fun _ => ?_⟩
      · exact ⟨_, mem_cons_self, rfl⟩
      · exact ⟨_, mem_cons_of_mem _ mem_cons_self, rfl⟩
    · obtain ⟨i, hi, hs⟩ := hin
      refine ⟨i, hi, hs, ?_⟩
      revert i
      exact forall_mem_cons.mpr ⟨fun _ => by decide, forall_mem_singleton.mpr fun _ => by decide⟩

/-- **Changed names stay.** The set `a.`, `b.` is replaced by `c.`, `d.` and is not gone. -/
theorem changed_names_stay :
    ¬AnswersExactly oneLabelCodec 2000 (ascii "example.") QType.NS (twoServers "c." "d." 90000)
      (((run (step oneLabelCodec) { d_followRFC2181 := false }
        [.replace 1000 (ascii "example.") QType.NS (twoServers "a." "b." 4600) true]).replace oneLabelCodec 2000
          (ascii "example.") QType.NS (twoServers "c." "d." 90000) true).get oneLabelCodec 2000
            (ascii "example.") QType.NS true).2 := by
  rintro ⟨ttl, rrs, hreply, htexts⟩
  have hread : (((run (step oneLabelCodec) { d_followRFC2181 := false }
        [.replace 1000 (ascii "example.") QType.NS (twoServers "a." "b." 4600) true]).replace oneLabelCodec 2000
          (ascii "example.") QType.NS (twoServers "c." "d." 90000) true).get oneLabelCodec 2000
            (ascii "example.") QType.NS true).2 =
      some (88000, twoServers "a." "b." 4600 ++ twoServers "c." "d." 90000) := by decide
  obtain ⟨-, rfl⟩ := Prod.mk.inj (Option.some.inj (hread.symm.trans hreply))
  obtain ⟨i, hi, -, s, hs, hreads⟩ := (htexts (ascii "a.")).mp (by decide)
  have hcontent := hreads.eq_contentOf
  revert i
  refine forall_mem_cons.mpr ⟨?_, forall_mem_singleton.mpr ?_⟩
  · intro hs
    obtain rfl := Option.some.inj hs
    exact absurd hcontent (by decide)
  · intro hs
    obtain rfl := Option.some.inj hs
    exact absurd hcontent (by decide)

end MemRecursorCache

end PowerDNS
