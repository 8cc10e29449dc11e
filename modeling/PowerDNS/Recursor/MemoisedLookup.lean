import PowerDNS.Lib.AnsweringRun
import PowerDNS.Recursor.RecursorCache

/-!
# The name looked up last: `d_cachecache` of `MemRecursorCache`

`get` keeps the range of entries that it found, with the name, and takes it again when the next call
asks for that name. The range is still that of the name: a call that could change it clears
`d_cachecachevalid`, and `get` itself moves entries only in the queue (`memo_step`). So a cache that
looks names up every time gives the same answers (`memo_transparent`).
-/

namespace PowerDNS

open AnsweringRun

namespace MemRecursorCache

/-! ### The two caches -/

/-- What a call returns; `get` may throw. -/
inductive Reply
  | nothing
  | found (res : Option (Int × List TextRR))
  | wiped (count : Nat)
  | aged (touched : Bool)
  deriving DecidableEq

/-- A `get` that always looks the name up. -/
def lookUp (codec : RecordCodec) (c : MemRecursorCache) (now : Nat) (qname : Octets) (qt : UInt16)
    (res : Bool) : MemRecursorCache × Option (Int × List TextRR) :=
  { c with d_cachecachevalid := false }.get codec now qname qt res

/-- A call, with `get` as it is. -/
def call (codec : RecordCodec) (c : MemRecursorCache) (o : Op) : MemRecursorCache × Reply :=
  (step codec c o, match o with
    | .replace .. => .nothing
    | .get now qname qt res => .found (c.get codec now qname qt res).2
    | .doWipeCache name qtype => .wiped (c.doWipeCache name qtype).2
    | .doAgeCache now name qtype newTTL => .aged (c.doAgeCache now name qtype newTTL).2
    | .doPrune .. => .nothing)

/-- A call, with the `get` that always looks the name up. -/
def callLookingUp (codec : RecordCodec) (c : MemRecursorCache) : Op → MemRecursorCache × Reply
  | .get now qname qt res =>
    let r := c.lookUp codec now qname qt res
    (r.1, .found r.2)
  | o => call codec c o

/-! ### The range of a name -/

/-- What is kept is the range of the name it was looked up for. -/
def MemoOK (c : MemRecursorCache) : Prop :=
  c.d_cachecachevalid = true → c.d_cachecache = c.equalRange c.d_cachedqname

section Range

variable {codec : RecordCodec} {c c' : MemRecursorCache} {now : Nat} {qname : Octets} {qt : UInt16}
  {res : Bool}

/-- The keys of a cache. -/
def keys (c : MemRecursorCache) : List (Octets × UInt16) := c.d_cache.items.map CacheEntry.key

/-- The range of a name: the keys with that name. -/
theorem mem_equalRange {k : Octets × UInt16} :
    k ∈ c.equalRange qname ↔ k ∈ c.keys ∧ k.1 = toLower qname := by
  unfold equalRange keys
  rw [List.mem_insertionSort, List.mem_filter, beq_iff_eq]

/-- A range depends on the keys, and not on their order in the queue. -/
theorem equalRange_of_perm (h : c.keys.Perm c'.keys) (qname : Octets) :
    c.equalRange qname = c'.equalRange qname := by
  have hnames : ∀ c : MemRecursorCache, ∀ k ∈ c.equalRange qname, k.1 = toLower qname :=
    fun c k hk => (mem_equalRange.mp hk).2
  have hordered : ∀ c : MemRecursorCache, (c.equalRange qname).Pairwise fun a b => a.2 ≤ b.2 := by
    intro c
    exact List.pairwise_insertionSort _ _
  have hperm : (c.equalRange qname).Perm (c'.equalRange qname) := by
    refine (List.perm_insertionSort _ _).trans (.trans ?_ (List.perm_insertionSort _ _).symm)
    exact h.filter fun k => k.1 == toLower qname
  refine List.Perm.eq_of_pairwise (fun a b ha hb hab hba => ?_) (hordered c) (hordered c') hperm
  -- the names are the same, so the types tell the keys apart
  exact Prod.ext ((hnames c a ha).trans (hnames c' b hb).symm) (UInt16.le_antisymm hab hba)

/-- The case of letters does not matter. -/
theorem equalRange_congr {name : Octets} (h : pdnsIequals name qname = true) :
    c.equalRange name = c.equalRange qname := by
  unfold equalRange
  rw [(pdnsIequals_iff name qname).mp h]

/-- What `get` reads from. -/
theorem refreshRange_spec (h : c.MemoOK) :
    (c.refreshRange qname).d_cachecache = c.equalRange qname ∧
      (c.refreshRange qname).d_cache = c.d_cache ∧
      (c.refreshRange qname).d_followRFC2181 = c.d_followRFC2181 ∧ (c.refreshRange qname).MemoOK := by
  unfold refreshRange
  by_cases hmiss : (!c.d_cachecachevalid || !pdnsIequals c.d_cachedqname qname) = true
  · rw [if_pos hmiss]
    exact ⟨rfl, rfl, rfl, fun _ => rfl⟩
  · rw [if_neg hmiss]
    rw [Bool.or_eq_true, not_or, Bool.not_eq_true', Bool.not_eq_true', Bool.not_eq_false,
      Bool.not_eq_false] at hmiss
    exact ⟨(h hmiss.1).trans (equalRange_congr hmiss.2), rfl, rfl, h⟩

/-- `get` moves entries in the queue. -/
theorem readEntries_keys (ks : List (Octets × UInt16))
    (idx : SequencedIndex (Octets × UInt16) CacheEntry CacheEntry.key) (acc : UInt32 × List TextRR) :
    ((readEntries codec now qname qt res ks idx acc).1.items.map CacheEntry.key).Perm
      (idx.items.map CacheEntry.key) := by
  induction ks generalizing idx acc with
  | nil => exact List.Perm.refl _
  | cons k ks ih =>
    have hmoved : ∀ acc : UInt32 × List TextRR, ((if !res then idx
        else if acc.2.isEmpty then idx.relocateFront k
        else idx.relocateBack k).items.map CacheEntry.key).Perm (idx.items.map CacheEntry.key) := by
      intro acc
      refine List.Perm.map _ ?_
      split_ifs
      · exact List.Perm.refl _
      · exact idx.perm_relocateFront k
      · exact idx.perm_relocateBack k
    rw [readEntries]
    cases idx.find? k with
    | none => exact ih idx acc
    | some i =>
      dsimp only
      by_cases hwanted : wantedType qt i.d_qtype = true
      · rw [if_pos hwanted]
        cases readRecords codec now qname i.d_qtype res i.d_records acc with
        | none => exact List.Perm.refl _
        | some acc' =>
          dsimp only
          by_cases hone : qt ≠ QType.ANY ∧ qt ≠ QType.ADDR
          · rw [if_pos hone]
            exact hmoved acc'
          · rw [if_neg hone]
            exact (ih _ acc').trans (hmoved acc')
      · rw [if_neg hwanted]
        exact ih idx acc

end Range

/-! ### One call -/

/-- The caches have the same entries, in the same queue, and the range that is kept is right. -/
structure Corresponds (c t : MemRecursorCache) : Prop where
  entries : c.d_cache = t.d_cache
  followRFC2181 : c.d_followRFC2181 = t.d_followRFC2181
  memo : c.MemoOK

section Step

variable {codec : RecordCodec} {c t : MemRecursorCache}

/-- **`get` does not need to look the name up.** -/
theorem get_eq_lookUp (h : c.Corresponds t) (now : Nat) (qname : Octets) (qt : UInt16) (res : Bool) :
    (c.get codec now qname qt res).2 = (t.lookUp codec now qname qt res).2 ∧
      (c.get codec now qname qt res).1.Corresponds (t.lookUp codec now qname qt res).1 := by
  obtain ⟨hrange, hcache, hrfc, hmemo⟩ := @refreshRange_spec c qname h.memo
  obtain ⟨hrange', hcache', hrfc', -⟩ :=
    @refreshRange_spec { t with d_cachecachevalid := false } qname (fun hvalid => absurd hvalid Bool.false_ne_true)
  have hsame : c.equalRange qname = ({ t with d_cachecachevalid := false }).equalRange qname :=
    equalRange_of_perm (List.Perm.of_eq (congrArg (fun idx => idx.items.map CacheEntry.key) h.entries))
      qname
  unfold lookUp get
  dsimp only
  rw [hrange, hrange', ← hsame, hcache, hcache']
  by_cases hempty : (c.equalRange qname).isEmpty = true
  · rw [if_pos hempty, if_pos hempty]
    exact ⟨rfl, hcache.trans (h.entries.trans hcache'.symm), hrfc.trans (h.followRFC2181.trans hrfc'.symm),
      hmemo⟩
  · rw [if_neg hempty, if_neg hempty]
    rw [← h.entries]
    refine ⟨rfl, rfl, hrfc.trans (h.followRFC2181.trans hrfc'.symm), fun hvalid => ?_⟩
    -- the entries are the same in another order, and so are their keys
    refine (hrange.symm.trans (hmemo hvalid)).trans ?_
    refine equalRange_of_perm ?_ _
    unfold keys
    rw [hcache]
    exact (readEntries_keys _ _ _).symm

/-- **Every call** gets the same answer from a cache that looks names up every time. -/
theorem memo_step (h : c.Corresponds t) (o : Op) :
    (call codec c o).2 = (callLookingUp codec t o).2 ∧
      (call codec c o).1.Corresponds (callLookingUp codec t o).1 := by
  obtain ⟨hentries, hrfc, hmemo⟩ := h
  cases o with
  | replace now qname qt content auth =>
    refine ⟨rfl, ?_⟩
    change (c.replace codec now qname qt content auth).Corresponds
      (t.replace codec now qname qt content auth)
    unfold replace
    rw [hentries, hrfc]
    dsimp only
    cases replacedEntry codec now qt content auth t.d_followRFC2181
        (t.d_cache.find? (CacheEntry.key ⟨qname, qt, auth, []⟩)).isNone
        ((t.d_cache.find? (CacheEntry.key ⟨qname, qt, auth, []⟩)).getD ⟨qname, qt, auth, []⟩) with
    | none => exact ⟨rfl, rfl, fun hvalid => absurd hvalid Bool.false_ne_true⟩
    | some ce => exact ⟨rfl, rfl, fun hvalid => absurd hvalid Bool.false_ne_true⟩
  | get now qname qt res =>
    obtain ⟨hfound, hcorresponds⟩ := get_eq_lookUp ⟨hentries, hrfc, hmemo⟩ now qname qt res
    exact ⟨congrArg Reply.found hfound, hcorresponds⟩
  | doWipeCache name qtype =>
    change Reply.wiped _ = Reply.wiped _ ∧
      (c.doWipeCache name qtype).1.Corresponds (t.doWipeCache name qtype).1
    unfold doWipeCache
    rw [hentries]
    exact ⟨rfl, rfl, hrfc, fun hvalid => absurd hvalid Bool.false_ne_true⟩
  | doAgeCache now name qtype newTTL =>
    change Reply.aged _ = Reply.aged _ ∧
      (c.doAgeCache now name qtype newTTL).1.Corresponds (t.doAgeCache now name qtype newTTL).1
    unfold doAgeCache
    rw [hentries]
    cases t.d_cache.find? (toLower name, qtype) with
    | none => exact ⟨rfl, hentries, hrfc, hmemo⟩
    | some e =>
      dsimp only
      cases agedTTD now newTTL e with
      | none => exact ⟨rfl, hentries, hrfc, hmemo⟩
      | some newTTD => exact ⟨rfl, rfl, hrfc, fun hvalid => absurd hvalid Bool.false_ne_true⟩
  | doPrune now maxCached =>
    refine ⟨rfl, ?_⟩
    change (c.doPrune now maxCached).Corresponds (t.doPrune now maxCached)
    unfold doPrune
    rw [hentries]
    exact ⟨rfl, hrfc, fun hvalid => absurd hvalid Bool.false_ne_true⟩

end Step

/-- **The shortcut is not seen**: in every run, with any names, types and times, all calls return what
they return when `get` looks the name up every time. -/
theorem memo_transparent (codec : RecordCodec) (followRFC2181 : Bool) (ops : List Op) :
    answers (call codec) { d_followRFC2181 := followRFC2181 } ops =
      answers (callLookingUp codec) { d_followRFC2181 := followRFC2181 } ops :=
  answers_eq (R := Corresponds) (fun _ _ o h => memo_step h o)
    ⟨rfl, rfl, fun hvalid => absurd hvalid Bool.false_ne_true⟩ ops

/-- The calls change the cache as `step` does. -/
theorem call_step (codec : RecordCodec) (c : MemRecursorCache) (ops : List Op) :
    GuardedRun.run (next (call codec)) c ops = GuardedRun.run (step codec) c ops := by
  induction ops generalizing c with
  | nil => rfl
  | cons o ops ih => exact ih (step codec c o)

end MemRecursorCache

end PowerDNS
