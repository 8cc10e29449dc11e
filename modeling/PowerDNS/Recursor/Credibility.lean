import PowerDNS.Recursor.RecursorCache

/-!
# Credibility of cached records

Data from an authoritative answer must not give way to data that came along with something
else. For `MemRecursorCache` this is the rule that a `replace` with `auth` false leaves an
entry alone as long as it holds an unexpired record that was stored with `auth` true.

The code keeps one flag for a whole entry, while expiry is a matter of single records, so
the rule rests on an invariant that ties the two together over the whole history
(`EntryInv`): an entry with the flag holds authoritative records only, and in an entry
without it every authoritative record has expired. The second half is what the early return
of `replace` needs, and what `doAgeCache` could break, by giving a dead record a new expiry.

`unauth_replace_keeps_auth` is the rule for all runs that are `Credible`: no
unauthoritative SOA or CNAME arrives over a live authoritative one. Those two types have
their records thrown out *before* the freshness of the entry is looked at
(`unauth_singleton_overwrites`), and `unauth_soa_replaces_auth` is a run in which the rule
fails for them.
-/

namespace PowerDNS

open GuardedRun Option Bool List

namespace MemRecursorCache

/-! ### What an entry promises -/

/-- The entry holds an unexpired record that was stored with `auth` true. -/
def HoldsAuth (now : Nat) (e : CacheEntry) : Prop :=
  ∃ r ∈ e.d_records, r.byAuth = true ∧ now < r.d_ttd.toNat

instance (now : Nat) (e : CacheEntry) : Decidable (HoldsAuth now e) :=
  inferInstanceAs (Decidable (∃ r ∈ e.d_records, r.byAuth = true ∧ now < r.d_ttd.toNat))

/-- What holds of every entry at time `clock`. -/
structure EntryInv (clock : Nat) (e : CacheEntry) : Prop where
  /-- With the flag set, all records are authoritative. -/
  auth_records : e.d_auth = true → ∀ r ∈ e.d_records, r.byAuth = true
  /-- Without the flag, authoritative records are leftovers that have expired. -/
  stale : e.d_auth = false → ∀ r ∈ e.d_records, r.byAuth = true → r.d_ttd.toNat ≤ clock
  /-- The records are sorted, as `equal_range` takes for granted. -/
  sorted : e.d_records.Pairwise fun a b => a.d_string ≤ b.d_string

namespace EntryInv

variable {clock now : Nat} {e : CacheEntry}

theorem mono (h : EntryInv clock e) (hle : clock ≤ now) : EntryInv now e where
  auth_records := h.auth_records
  stale hauth r hr hby := (h.stale hauth r hr hby).trans hle
  sorted := h.sorted

/-- An entry without records promises nothing. -/
theorem of_nil (h : e.d_records = []) : EntryInv clock e where
  auth_records _ r hr := by rw [h] at hr; exact absurd hr not_mem_nil
  stale _ r hr := by rw [h] at hr; exact absurd hr not_mem_nil
  sorted := by rw [h]; exact List.Pairwise.nil

/-- **The flag means what it says.** An entry holds live authoritative data exactly when it
has the flag and a live record. -/
theorem holdsAuth_iff (h : EntryInv clock e) (hle : clock ≤ now) :
    HoldsAuth now e ↔ e.d_auth = true ∧ hasFresh now e = true := by
  unfold HoldsAuth hasFresh
  simp only [List.any_eq_true, decide_eq_true_eq]
  constructor
  · rintro ⟨r, hr, hby, hlive⟩
    refine ⟨?_, r, hr, hlive⟩
    by_contra hauth
    have hdead := h.stale (Bool.eq_false_of_not_eq_true hauth) r hr hby
    omega
  · rintro ⟨hauth, r, hr, hlive⟩
    exact ⟨r, hr, h.auth_records hauth r hr, hlive⟩

end EntryInv

/-! ### What storing records can do -/

section Storing

variable {codec : RecordCodec} {now : Nat} {qt : UInt16} {auth rfc isNew : Bool}

variable {rs : List StoredRecord}

theorem mem_sortRecords {r : StoredRecord} :
    r ∈ sortRecords rs ↔ r ∈ rs :=
  (perm_insertionSort _ rs).mem_iff

theorem sorted_sortRecords (rs : List StoredRecord) :
    (sortRecords rs).Pairwise fun a b => a.d_string ≤ b.d_string := by
  exact pairwise_insertionSort _ rs

@[simp] theorem updateTTL_d_string (ttl : UInt32) (j : StoredRecord) :
    (updateTTL now qt auth rfc ttl j).d_string = j.d_string := by
  unfold updateTTL
  split
  · rfl
  · split <;> rfl

theorem updateTTL_mark (ttl : UInt32) (j : StoredRecord) :
    updateTTL now qt auth rfc ttl j = j ∨ (updateTTL now qt auth rfc ttl j).byAuth = auth := by
  unfold updateTTL
  split
  · exact .inl rfl
  · split
    · exact .inr rfl
    · exact .inl rfl

/-- A record in the outcome was there before or carries the mark of this `replace`. -/
theorem mem_storeOne {dr r : StoredRecord} (hdr : dr.byAuth = auth)
    (h : r ∈ storeOne now qt auth rfc isNew rs dr) : r ∈ rs ∨ r.byAuth = auth := by
  have happend : r ∈ rs ++ [dr] → r ∈ rs ∨ r.byAuth = auth := by
    intro hr
    rcases mem_append.mp hr with hr | hr
    · exact .inl hr
    · rw [mem_singleton.mp hr]
      exact .inr hdr
  unfold storeOne at h
  split at h
  · exact happend h
  · split at h
    · obtain ⟨j, hj, rfl⟩ := mem_map.mp h
      split
      · rcases updateTTL_mark dr.d_ttd j with hsame | hmark
        · rw [hsame]; exact .inl hj
        · exact .inr hmark
      · exact .inl hj
    · exact happend (mem_sortRecords.mp h)

theorem sorted_storeOne (dr : StoredRecord)
    (h : rs.Pairwise fun a b => a.d_string ≤ b.d_string) :
    (storeOne now qt auth rfc false rs dr).Pairwise fun a b => a.d_string ≤ b.d_string := by
  unfold storeOne
  rw [if_neg Bool.false_ne_true]
  split
  · -- only expiries change
    rw [List.pairwise_map]
    refine h.imp fun {a b} hab => ?_
    have hstring : ∀ j : StoredRecord,
        (if j.d_string = dr.d_string then updateTTL now qt auth rfc dr.d_ttd j else j).d_string
          = j.d_string := by
      intro j
      split
      · exact updateTTL_d_string dr.d_ttd j
      · rfl
    rw [hstring, hstring]
    exact hab
  · exact sorted_sortRecords _

theorem mem_storeAll {content : List TextRR} {rs out : List StoredRecord}
    (h : storeAll codec now qt auth rfc isNew rs content = some out) {r : StoredRecord}
    (hr : r ∈ out) : r ∈ rs ∨ r.byAuth = auth := by
  induction content generalizing rs with
  | nil =>
    obtain rfl : rs = out := some.inj h
    exact .inl hr
  | cons i is ih =>
    obtain ⟨s, _, h⟩ := bind_eq_some_iff.mp h
    rcases ih h with hr | hr
    · exact mem_storeOne rfl hr
    · exact .inr hr

theorem sorted_storeAll {content : List TextRR} {rs out : List StoredRecord}
    (h : storeAll codec now qt auth rfc false rs content = some out)
    (hrs : rs.Pairwise fun a b => a.d_string ≤ b.d_string) :
    out.Pairwise fun a b => a.d_string ≤ b.d_string := by
  induction content generalizing rs with
  | nil =>
    obtain rfl : rs = out := some.inj h
    exact hrs
  | cons i is ih =>
    obtain ⟨s, _, h⟩ := bind_eq_some_iff.mp h
    exact ih h (sorted_storeOne _ hrs)

end Storing

/-! ### The entry `replace` builds -/

section Replaced

variable {codec : RecordCodec} {clock now : Nat} {qt : UInt16} {content : List TextRR}
  {rfc isNew : Bool} {stored ce : CacheEntry}

@[simp] theorem clearSingleton_d_auth : (clearSingleton qt stored).d_auth = stored.d_auth := by
  unfold clearSingleton
  split <;> rfl

@[simp] theorem clearSingleton_key : (clearSingleton qt stored).key = stored.key := by
  unfold clearSingleton
  split <;> rfl

theorem EntryInv.clearSingleton (h : EntryInv clock stored) :
    EntryInv clock (clearSingleton qt stored) := by
  unfold MemRecursorCache.clearSingleton
  split
  · exact EntryInv.of_nil rfl
  · exact h

theorem attemptToRefreshNSTTL_auth (h : attemptToRefreshNSTTL qt content stored = true) :
    stored.d_auth = true := by
  unfold attemptToRefreshNSTTL at h
  by_contra hauth
  simp [eq_false_of_not_eq_true hauth] at h

/-- A new entry is sorted once at the end; another one is sorted at all times. -/
theorem sorted_replaced {auth : Bool} {rs out : List StoredRecord}
    (hrs : rs.Pairwise fun a b => a.d_string ≤ b.d_string)
    (h : storeAll codec now qt auth rfc isNew rs content = some out) :
    (if isNew then sortRecords out else out).Pairwise fun a b => a.d_string ≤ b.d_string := by
  cases isNew with
  | true => exact sorted_sortRecords out
  | false => exact sorted_storeAll h hrs

/-- Unauthoritative data: what the new entry consists of. -/
theorem replacedEntry_unauth
    (h : replacedEntry codec now qt content false rfc isNew stored = some ce) :
    ¬((clearSingleton qt stored).d_auth = true ∧ hasFresh now (clearSingleton qt stored) = true) ∧
      ∃ out, storeAll codec now qt false rfc isNew (clearSingleton qt stored).d_records content
          = some out ∧
        ce = { clearSingleton qt stored with
                d_auth := false, d_records := if isNew then sortRecords out else out } := by
  unfold replacedEntry at h
  generalize clearSingleton qt stored = cs at h ⊢
  cases hauth : cs.d_auth with
  | true =>
    simp only [hauth, Bool.not_false, Bool.true_and, Bool.false_and, Bool.or_false,
      if_true, Bool.false_eq_true, if_false] at h
    split at h
    next => exact absurd h (by simp)
    next hfresh =>
      obtain ⟨out, hout, rfl⟩ := Option.map_eq_some_iff.mp h
      exact ⟨fun hboth => hfresh hboth.2, out, hout, rfl⟩
  | false =>
    simp only [hauth, Bool.and_false, Bool.false_and, Bool.or_false,
      Bool.false_eq_true, if_false] at h
    obtain ⟨out, hout, rfl⟩ := Option.map_eq_some_iff.mp h
    refine ⟨fun hboth => absurd hboth.1 (by simp), out, hout, ?_⟩
    rw [← hauth]

/-- Authoritative data: the entry has the flag afterwards, and its records are new or were
there under the flag. -/
theorem replacedEntry_auth
    (h : replacedEntry codec now qt content true rfc isNew stored = some ce) :
    ∃ (cs : CacheEntry) (isNew' : Bool) (out : List StoredRecord),
      cs.key = stored.key ∧ cs.d_auth = true ∧
      (cs.d_records = [] ∨ stored.d_auth = true ∧ cs.d_records = (clearSingleton qt stored).d_records) ∧
      storeAll codec now qt true rfc isNew' cs.d_records content = some out ∧
      ce = { cs with d_records := if isNew' then sortRecords out else out } := by
  unfold replacedEntry at h
  simp only [Bool.not_true, Bool.false_and, Bool.false_eq_true, if_false, Bool.true_and] at h
  obtain ⟨out, hout, rfl⟩ := Option.map_eq_some_iff.mp h
  cases href : attemptToRefreshNSTTL qt content (clearSingleton qt stored) with
  | false =>
    simp only [href, Bool.not_false, if_true] at hout ⊢
    exact ⟨{ clearSingleton qt stored with d_records := [], d_auth := true }, isNew || true, out,
      clearSingleton_key, rfl, Or.inl rfl, hout, rfl⟩
  | true =>
    have hauth := attemptToRefreshNSTTL_auth href
    simp only [href, Bool.not_true, Bool.false_eq_true, if_false] at hout ⊢
    refine ⟨_, _, out, clearSingleton_key, hauth, Or.inr ⟨?_, rfl⟩, hout, rfl⟩
    rwa [clearSingleton_d_auth] at hauth

theorem replacedEntry_key {auth : Bool}
    (h : replacedEntry codec now qt content auth rfc isNew stored = some ce) :
    ce.key = stored.key := by
  cases auth with
  | true =>
    obtain ⟨cs, _, _, hkey, _, _, _, rfl⟩ := replacedEntry_auth h
    exact hkey
  | false =>
    obtain ⟨_, _, _, rfl⟩ := replacedEntry_unauth h
    exact clearSingleton_key

/-- The entry `replace` builds meets the invariant, whatever it is built from. -/
theorem EntryInv.replacedEntry {auth : Bool} (hinv : EntryInv clock stored) (hle : clock ≤ now)
    (h : replacedEntry codec now qt content auth rfc isNew stored = some ce) :
    EntryInv now ce := by
  cases auth with
  | true =>
    obtain ⟨cs, isNew', out, _, hauth, hrecords, hout, rfl⟩ := replacedEntry_auth h
    have hcs : EntryInv now cs := by
      rcases hrecords with hnil | ⟨hstored, hsame⟩
      · exact EntryInv.of_nil hnil
      · have hclear : EntryInv now (MemRecursorCache.clearSingleton qt stored) :=
          (hinv.mono hle).clearSingleton
        constructor
        · intro _ r hr
          exact hclear.auth_records (by simpa using hstored) r (hsame ▸ hr)
        · intro hno
          rw [hauth] at hno
          exact absurd hno (by simp)
        · exact hsame ▸ hclear.sorted
    refine ⟨fun _ r hr => ?_, fun hno => ?_, sorted_replaced hcs.sorted hout⟩
    · have hr : r ∈ out := by
        cases isNew' with
        | true => exact mem_sortRecords.mp hr
        | false => exact hr
      rcases mem_storeAll hout hr with hr | hby
      · exact hcs.auth_records hauth r hr
      · exact hby
    · have hno : cs.d_auth = false := hno
      rw [hauth] at hno
      exact absurd hno (by simp)
  | false =>
    obtain ⟨hdead, out, hout, rfl⟩ := replacedEntry_unauth h
    have hcs : EntryInv now (MemRecursorCache.clearSingleton qt stored) :=
      (hinv.mono hle).clearSingleton
    refine ⟨fun hyes => absurd hyes (by simp), fun _ r hr hby => ?_,
      sorted_replaced hcs.sorted hout⟩
    have hr : r ∈ out := by
      cases isNew with
      | true => exact mem_sortRecords.mp hr
      | false => exact hr
    rcases mem_storeAll hout hr with hr | hmark
    · -- an authoritative record that survives was dead before the flag was cleared
      by_contra hlive
      have hholds : HoldsAuth now (MemRecursorCache.clearSingleton qt stored) :=
        ⟨r, hr, hby, by omega⟩
      exact hdead ((hcs.holdsAuth_iff le_rfl).mp hholds)
    · rw [hby] at hmark
      exact absurd hmark (by simp)

end Replaced

/-! ### The cache along a run -/

/-- A cache and the time of the last call that reads the clock. -/
structure Clocked where
  cache : MemRecursorCache
  clock : Nat

namespace Op

/-- The time a call is made at. `doPrune` asks the system clock itself, and `doWipeCache`
has no use for one. -/
def now? : Op → Option Nat
  | .replace now .. => some now
  | .get now .. => some now
  | .doAgeCache now .. => some now
  | .doWipeCache .. => none
  | .doPrune .. => none

end Op

/-- A call on a cache with a clock. -/
def tick (codec : RecordCodec) (s : Clocked) (o : Op) : Clocked where
  cache := step codec s.cache o
  clock := o.now?.getD s.clock

/-- The clock does not go back. -/
def InOrder (s : Clocked) (o : Op) : Prop := ∀ now ∈ o.now?, s.clock ≤ now

/-- The calls under which the rule holds. -/
def Credible (s : Clocked) : Op → Prop
  /- No unauthoritative SOA or CNAME comes in over a live authoritative one. -/
  | .replace now qname qt _ false =>
    qt = QType.SOA ∨ qt = QType.CNAME →
      ∀ e ∈ s.cache.d_cache.find? (toLower qname, qt), ¬HoldsAuth now e
  /- Ageing does not bring an expired authoritative record back to life in an entry that
  has gone over to unauthoritative data. -/
  | .doAgeCache now name qtype newTTL =>
    ∀ e ∈ s.cache.d_cache.find? (toLower name, qtype),
      e.d_auth = false → (∃ r ∈ e.d_records, r.byAuth = true) →
        ∀ ttd ∈ agedTTD now newTTL e, ttd.toNat ≤ now
  | _ => True

/-- The rule, for one call: an unauthoritative `replace` leaves every entry that holds live
authoritative data as it is. -/
def KeepsAuth (codec : RecordCodec) (s : Clocked) : Op → Prop
  | .replace now qname qt content false =>
    ∀ k e, s.cache.d_cache.find? k = some e → HoldsAuth now e →
      (s.cache.replace codec now qname qt content false).d_cache.find? k = some e
  | _ => True

/-- The invariant of a cache: every entry keeps its promise. -/
def CacheInv (s : Clocked) : Prop := ∀ e ∈ s.cache.d_cache, EntryInv s.clock e

section Steps

variable {codec : RecordCodec} {s : Clocked}

variable {e : CacheEntry} {c : MemRecursorCache} {qname : Octets}

/-- The entries after a `replace`: the one that was built, and old or still empty ones. -/
theorem mem_replace {now : Nat} {qt : UInt16}
    {content : List TextRR} {auth : Bool}
    (h : e ∈ (c.replace codec now qname qt content auth).d_cache) :
    e ∈ c.d_cache ∨ e.d_records = [] ∨
      ∃ (isNew : Bool) (stored : CacheEntry), (stored ∈ c.d_cache ∨ stored.d_records = []) ∧
        replacedEntry codec now qt content auth c.d_followRFC2181 isNew stored = some e := by
  have hinsert : ∀ fresh : CacheEntry, fresh.d_records = [] → e ∈ c.d_cache.insert fresh →
      e ∈ c.d_cache ∨ e.d_records = [] := by
    intro fresh hnil he
    rcases SequencedIndex.mem_insert.mp he with he | ⟨rfl, _⟩
    · exact .inl he
    · exact .inr hnil
  unfold replace at h
  simp only at h
  split at h
  next =>
    rcases hinsert _ rfl h with he | he
    · exact .inl he
    · exact .inr (.inl he)
  next ce hce =>
    rcases SequencedIndex.mem_replace.mp h with ⟨rfl, _⟩ | ⟨he, _⟩
    · refine .inr (.inr ⟨_, _, ?_, hce⟩)
      cases hfind : c.d_cache.find? (CacheEntry.key ⟨qname, qt, auth, []⟩) with
      | none => exact .inr rfl
      | some stored => exact .inl (SequencedIndex.find?_eq_some_iff.mp hfind).1
    · rcases hinsert _ rfl he with he | he
      · exact .inl he
      · exact .inr (.inl he)

/-- `get` moves entries about and changes none. -/
theorem mem_readEntries {now : Nat} {qt : UInt16} {res : Bool}
    {ks : List (Octets × UInt16)} {idx : SequencedIndex (Octets × UInt16) CacheEntry CacheEntry.key}
    {acc : UInt32 × List TextRR} :
    e ∈ (readEntries codec now qname qt res ks idx acc).1 ↔ e ∈ idx := by
  induction ks generalizing idx acc with
  | nil => rfl
  | cons k ks ih =>
    unfold readEntries
    split
    · exact ih
    · split
      · split
        · exact Iff.rfl
        · have hmoved : ∀ acc : UInt32 × List TextRR,
              e ∈ (if !res then idx
                else if acc.2.isEmpty then idx.relocateFront k else idx.relocateBack k) ↔
                e ∈ idx := by
            intro acc
            split
            · rfl
            · split
              · exact SequencedIndex.mem_relocateFront
              · exact SequencedIndex.mem_relocateBack
          dsimp only
          split
          · exact hmoved _
          · exact ih.trans (hmoved _)
      · exact ih

theorem mem_get {now : Nat} {qt : UInt16} {res : Bool}
    : e ∈ (c.get codec now qname qt res).1.d_cache ↔ e ∈ c.d_cache := by
  have hrange : (c.refreshRange qname).d_cache = c.d_cache := by
    unfold refreshRange
    split <;> rfl
  unfold get
  dsimp only
  split
  · rw [hrange]
  · rw [← hrange]
    exact mem_readEntries

theorem mem_of_mem_doPrune {now : UInt32} {maxCached : Nat}
    (h : e ∈ (c.doPrune now maxCached).d_cache) : e ∈ c.d_cache :=
  CacheCleaner.mem_of_mem_prune h

/-- Ageing keeps the flag, the marks and the order of the records of an entry. -/
theorem EntryInv.aged {clock now : Nat} {newTTL : Int} {newTTD : UInt32}
    (hinv : EntryInv clock e)
    (hdead : e.d_auth = false → (∃ r ∈ e.d_records, r.byAuth = true) →
      ∀ ttd ∈ agedTTD now newTTL e, ttd.toNat ≤ now)
    (hnew : agedTTD now newTTL e = some newTTD) :
    EntryInv now { e with d_records := e.d_records.map fun j => { j with d_ttd := newTTD } } where
  auth_records hauth r hr := by
    obtain ⟨j, hj, rfl⟩ := mem_map.mp hr
    exact hinv.auth_records hauth j hj
  stale hauth r hr hby := by
    obtain ⟨j, hj, rfl⟩ := mem_map.mp hr
    exact hdead hauth ⟨j, hj, hby⟩ newTTD hnew
  sorted := by
    rw [pairwise_map]
    exact hinv.sorted

/-- **Every call keeps the invariant.** -/
theorem entryInv_step (o : Op) (hinv : CacheInv s) (hok : InOrder s o ∧ Credible s o) :
    CacheInv (tick codec s o) := by
  obtain ⟨horder, hcredible⟩ := hok
  intro e he
  cases o with
  | replace now qname qt content auth =>
    have hle : s.clock ≤ now := horder now rfl
    rcases mem_replace he with he | hnil | ⟨isNew, stored, hstored, hce⟩
    · exact (hinv e he).mono hle
    · exact EntryInv.of_nil hnil
    · have hstored : EntryInv s.clock stored := by
        rcases hstored with hmem | hnil
        · exact hinv stored hmem
        · exact EntryInv.of_nil hnil
      exact hstored.replacedEntry hle hce
  | get now qname qt res =>
    exact (hinv e (mem_get.mp he)).mono (horder now rfl)
  | doWipeCache name qtype =>
    exact hinv e (SequencedIndex.mem_filter.mp he).1
  | doAgeCache now name qtype newTTL =>
    have hle : s.clock ≤ now := horder now rfl
    replace he : e ∈ (s.cache.doAgeCache now name qtype newTTL).1.d_cache := he
    unfold doAgeCache at he
    split at he
    next => exact (hinv e he).mono hle
    next old hfind =>
      split at he
      next => exact (hinv e he).mono hle
      next newTTD hnew =>
        rcases SequencedIndex.mem_replace.mp he with ⟨rfl, _⟩ | ⟨he, _⟩
        · have hold := hinv old (SequencedIndex.find?_eq_some_iff.mp hfind).1
          exact hold.aged (hcredible old hfind) hnew
        · exact (hinv e he).mono hle
  | doPrune now maxCached =>
    exact hinv e (mem_of_mem_doPrune he)

/-- One call obeys the rule when the invariant holds. -/
theorem keepsAuth_step (o : Op) (hinv : CacheInv s) (hok : InOrder s o ∧ Credible s o) :
    KeepsAuth codec s o := by
  obtain ⟨horder, hcredible⟩ := hok
  cases o with
  | replace now qname qt content auth =>
    cases auth with
    | true => trivial
    | false =>
      intro k e hfind hholds
      obtain ⟨he, rfl⟩ := SequencedIndex.find?_eq_some_iff.mp hfind
      rw [SequencedIndex.find?_eq_some_iff]
      refine ⟨?_, rfl⟩
      have hkept : e ∈ s.cache.d_cache.insert ⟨qname, qt, false, []⟩ :=
        SequencedIndex.mem_insert.mpr (.inl he)
      unfold replace
      dsimp only
      split
      next => exact hkept
      next ce hce =>
        refine SequencedIndex.mem_replace.mpr (.inr ⟨hkept, fun hkey => ?_⟩)
        -- the entry that is built would be the one of `e`: then `replace` has returned early
        rw [replacedEntry_key hce] at hkey
        cases hold : s.cache.d_cache.find? (CacheEntry.key ⟨qname, qt, false, []⟩) with
        | none =>
          rw [hold] at hkey
          exact SequencedIndex.find?_eq_none_iff.mp hold e he hkey
        | some stored =>
          rw [hold] at hkey hce
          obtain ⟨hstored, hskey⟩ := SequencedIndex.find?_eq_some_iff.mp hold
          obtain rfl : e = stored := SequencedIndex.eq_of_key_eq he hstored hkey
          have hboth := ((hinv e he).holdsAuth_iff (horder now rfl)).mp hholds
          have hsingle : ¬(qt = QType.SOA ∨ qt = QType.CNAME) :=
            fun hqt => hcredible hqt e hold hholds
          have hclear : clearSingleton qt e = e := if_neg hsingle
          have hearly := (replacedEntry_unauth hce).1
          rw [getD_some, hclear] at hearly
          exact hearly hboth
  | get | doWipeCache | doAgeCache | doPrune => trivial

end Steps

/-! ### The rule, and where it ends -/

/-- An empty cache at time 0. -/
def start (followRFC2181 : Bool) : Clocked where
  cache := { d_followRFC2181 := followRFC2181 }
  clock := 0

theorem cacheInv_start (rfc : Bool) : CacheInv (start rfc) :=
  fun e he => absurd he (SequencedIndex.not_mem_empty e)

/-- **Credibility.** In every run of the cache at non-decreasing times whose calls are all
credible, an unauthoritative `replace` leaves every entry that holds live authoritative data
exactly as it is. -/
theorem unauth_replace_keeps_auth (codec : RecordCodec) (followRFC2181 : Bool)
    (before after : List Op) (o : Op)
    (hrun : Guarded (tick codec) (fun s o => InOrder s o ∧ Credible s o) (start followRFC2181)
      (before ++ o :: after)) :
    KeepsAuth codec (run (tick codec) (start followRFC2181) before) o := by
  have hstep : ∀ s o, CacheInv s → InOrder s o ∧ Credible s o → CacheInv (tick codec s o) :=
    fun _ o => entryInv_step o
  exact run_forall_step hstep (fun _ o => keepsAuth_step o) (cacheInv_start followRFC2181) hrun

/-- A codec that stores the content of a record as it is. -/
def plainCodec : RecordCodec where
  dnsRR2String rr := some rr.content
  string2DNSRR qname qt serial ttd :=
    some { qtype := qt, qname := qname, wildcardname := [], content := serial, ttl := ttd }

/-- A record as a reply delivers it. -/
def cachedRR (qname : String) (qtype : UInt16) (content : String) (ttl : UInt32) : TextRR where
  qtype := qtype
  qname := ascii qname
  wildcardname := []
  content := ascii content
  ttl := ttl

/-- The rule at work: an authoritative NS set outlives what a referral says about it. -/
theorem unauth_ns_keeps_auth :
    KeepsAuth plainCodec
      (run (tick plainCodec) (start false)
        [.replace 1000 (ascii "example.com.") QType.NS
          [cachedRR "example.com." QType.NS "ns1.example.com." 4600] true])
      (.replace 2000 (ascii "EXAMPLE.com.") QType.NS
        [cachedRR "example.com." QType.NS "ns.evil.org." 90000] false) := by
  apply unauth_replace_keeps_auth plainCodec false _
    [.get 2001 (ascii "example.com.") QType.NS true]
  refine ⟨⟨?_, trivial⟩, ⟨?_, ?_⟩, ⟨?_, trivial⟩, trivial⟩
  · rintro now ⟨⟩; exact Nat.zero_le _
  · rintro now ⟨⟩; decide
  · rintro (h | h) <;> exact absurd h (by decide)
  · rintro now ⟨⟩; decide

/-- **The rule fails for an SOA.** The authoritative SOA of `example.com.` is good until
4600; at 2000 an unauthoritative one takes its place. -/
theorem unauth_soa_replaces_auth :
    ¬KeepsAuth plainCodec
      (run (tick plainCodec) (start false)
        [.replace 1000 (ascii "example.com.") QType.SOA
          [cachedRR "example.com." QType.SOA "ns1. admin. 1" 4600] true])
      (.replace 2000 (ascii "example.com.") QType.SOA
        [cachedRR "example.com." QType.SOA "evil. evil. 666" 90000] false) := by
  intro h
  have hstored := h (ascii "example.com.", QType.SOA)
    ⟨ascii "example.com.", QType.SOA, true, [⟨4600, ascii "ns1. admin. 1", true⟩]⟩
    (by decide) (by decide)
  revert hstored
  decide

end MemRecursorCache

end PowerDNS
