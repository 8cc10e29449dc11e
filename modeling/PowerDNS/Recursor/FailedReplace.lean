import PowerDNS.Recursor.Credibility
import PowerDNS.Recursor.MemoisedLookup

/-!
# A `replace` that throws

`replace` works on a copy of the entry and puts it back at the end, so an exception from `DNSRR2String`
loses nothing. But an entry that is not there yet is inserted first, empty, and then the empty entry stays.
So a `replace` that fails leaves the cache alone exactly when it had the entry (`failed_replace_iff`).
-/

namespace PowerDNS

open AnsweringRun GuardedRun List

namespace MemRecursorCache

/-- The cache `c'` has the entries of `c`, in the same queue, and answers every later call like `c`. -/
def LeftAlone (codec : RecordCodec) (c c' : MemRecursorCache) : Prop :=
  c'.d_cache = c.d_cache ∧ ∀ ops, answers (call codec) c' ops = answers (call codec) c ops

section Failing

variable {codec : RecordCodec} {now : Nat} {qname : Octets} {qt : UInt16} {content : List TextRR}
  {auth : Bool}

/-- One record that cannot be stored is enough, wherever it stands. -/
theorem storeAll_throws {rfc isNew : Bool} {rs : List StoredRecord}
    (hthrows : ∃ i ∈ content, codec.dnsRR2String i = none) :
    storeAll codec now qt auth rfc isNew rs content = none := by
  induction content generalizing rs with
  | nil =>
    obtain ⟨i, hi, -⟩ := hthrows
    exact absurd hi not_mem_nil
  | cons i content ih =>
    rw [storeAll]
    cases hs : codec.dnsRR2String i with
    | none => rfl
    | some s =>
      refine ih ?_
      obtain ⟨i', hi', hnone⟩ := hthrows
      rcases mem_cons.mp hi' with rfl | hi'
      · rw [hs] at hnone
        cases hnone
      · exact ⟨i', hi', hnone⟩

/-- No entry is put back. -/
theorem replacedEntry_throws {rfc isNew : Bool} {stored : CacheEntry}
    (hthrows : ∃ i ∈ content, codec.dnsRR2String i = none) :
    replacedEntry codec now qt content auth rfc isNew stored = none := by
  unfold replacedEntry
  dsimp only
  rw [storeAll_throws hthrows, Option.map_none]
  exact ite_self _

/-- All that has happened is that the entry was inserted if it was not there. -/
theorem replace_throws (c : MemRecursorCache) (hthrows : ∃ i ∈ content, codec.dnsRR2String i = none) :
    c.replace codec now qname qt content auth =
      { c with d_cachecachevalid := false, d_cache := c.d_cache.insert ⟨qname, qt, auth, []⟩ } := by
  unfold replace
  dsimp only
  rw [replacedEntry_throws hthrows]

/-- In every run the range that is kept is right. -/
theorem memoOK_run (followRFC2181 : Bool) (before : List Op) :
    (run (step codec) { d_followRFC2181 := followRFC2181 } before).MemoOK := by
  have hstep : ∀ c o, MemoOK c → True → MemoOK (step codec c o) :=
    fun c o hmemo _ => (@memo_step codec c c ⟨rfl, rfl, hmemo⟩ o).2.memo
  exact run_invariant hstep (fun hvalid => absurd hvalid Bool.false_ne_true) (guarded_true _ before)

end Failing

/-- **A failed `replace`** leaves the cache alone if and only if there was an entry for the name and type. -/
theorem failed_replace_iff (codec : RecordCodec) (followRFC2181 : Bool) (before : List Op) (now : Nat)
    (qname : Octets) (qt : UInt16) (content : List TextRR) (auth : Bool)
    (hthrows : ∃ i ∈ content, codec.dnsRR2String i = none) :
    LeftAlone codec (run (step codec) { d_followRFC2181 := followRFC2181 } before)
        ((run (step codec) { d_followRFC2181 := followRFC2181 } before).replace codec now qname qt content auth) ↔
      ((run (step codec) { d_followRFC2181 := followRFC2181 } before).d_cache.find?
        (toLower qname, qt)).isSome = true := by
  have hmemo := @memoOK_run codec followRFC2181 before
  generalize run (step codec) { d_followRFC2181 := followRFC2181 } before = c at hmemo ⊢
  rw [replace_throws c hthrows]
  constructor
  · rintro ⟨hsame, -⟩
    cases hfind : c.d_cache.find? (toLower qname, qt) with
    | some e => rfl
    | none =>
      -- the empty entry is a new one
      have hnew : (⟨qname, qt, auth, []⟩ : CacheEntry) ∈ c.d_cache.insert ⟨qname, qt, auth, []⟩ :=
        SequencedIndex.mem_insert.mpr (.inr ⟨rfl, hfind⟩)
      have hmem : (⟨qname, qt, auth, []⟩ : CacheEntry) ∈ c.d_cache := by
        rw [← hsame]
        exact hnew
      exact absurd rfl (SequencedIndex.find?_eq_none_iff.mp hfind _ hmem)
  · intro hsome
    have hsame : c.d_cache.insert ⟨qname, qt, auth, []⟩ = c.d_cache := by
      unfold SequencedIndex.insert
      rw [dif_neg]
      intro hnone
      rw [show CacheEntry.key ⟨qname, qt, auth, []⟩ = (toLower qname, qt) from rfl] at hnone
      rw [hnone] at hsome
      cases hsome
    refine ⟨hsame, fun ops => ?_⟩
    -- both caches answer like one that looks every name up
    rw [hsame]
    have hlooking : ∀ c' : MemRecursorCache, c'.Corresponds c →
        answers (call codec) c' ops = answers (callLookingUp codec) c ops :=
      fun c' h => answers_eq (R := Corresponds) (fun _ _ o h => memo_step h o) h ops
    rw [hlooking c ⟨rfl, rfl, hmemo⟩]
    exact hlooking _ ⟨rfl, rfl, fun hvalid => absurd hvalid Bool.false_ne_true⟩

/-- The codec of MX records, on the content `10 a.` and on malformed ones. -/
def mxCodec : RecordCodec where
  dnsRR2String rr := if rr.content = ascii "10 a." then some [0, 10, 1, 97, 0] else none
  string2DNSRR qname qt serial ttd :=
    if serial = [0, 10, 1, 97, 0] then
      some { qtype := qt, qname := qname, wildcardname := [], content := ascii "10 a.", ttl := ttd }
    else none

/-- With an entry, a malformed set changes nothing. -/
theorem failed_replace_of_stored :
    LeftAlone mxCodec
      (run (step mxCodec) { d_followRFC2181 := false }
        [.replace 1000 (ascii "b.") QType.MX [cachedRR "b." QType.MX "10 a." 4600] true])
      ((run (step mxCodec) { d_followRFC2181 := false }
        [.replace 1000 (ascii "b.") QType.MX [cachedRR "b." QType.MX "10 a." 4600] true]).replace mxCodec 2000
          (ascii "b.") QType.MX [cachedRR "b." QType.MX "10 a." 9000, cachedRR "b." QType.MX "bogus" 9000] true) :=
  (failed_replace_iff mxCodec false _ 2000 _ _ _ true
    ⟨_, mem_cons_of_mem _ mem_cons_self, by decide⟩).mpr (by decide)

/-- **Without an entry, an empty one stays**, and `get` does not say any more that there is none. -/
theorem failed_replace_leaves_entry :
    ¬LeftAlone mxCodec {}
      (({} : MemRecursorCache).replace mxCodec 2000 (ascii "b.") QType.MX
        [cachedRR "b." QType.MX "bogus" 9000] true) := by
  rintro ⟨-, hanswers⟩
  exact absurd (hanswers [.get 2000 (ascii "b.") QType.MX true]) (by decide)

end MemRecursorCache

end PowerDNS
