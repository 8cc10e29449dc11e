import Mathlib.Algebra.Group.Int.Defs
import PowerDNS.Base.Record
import PowerDNS.Lib.GuardedRun
import PowerDNS.Recursor.CacheCleaner
import Mathlib.Data.List.Sort

/-!
# The record cache of the recursor: `MemRecursorCache`

One entry for each name (without regard to case) and type. An entry has one `d_auth` flag
for all its records, and each record its own absolute expiry `d_ttd`. The entries sit in a
`multi_index_container`: a unique index on the key and a sequence that `doPrune` eats from
the front, which is `SequencedIndex`.

The conversions between a record and its stored form (`DNSRR2String`, `String2DNSRR`) run
the record parsers of every type. Nothing here depends on what they compute, so they are a
parameter, `RecordCodec`; `none` stands for a conversion that throws.

`StoredRecord.byAuth` is not in the source: it marks the records last written by an
authoritative `replace`. No branch reads it. It is what "stored with `auth` set" means of a
single record when the history of its entry is long.
-/

namespace PowerDNS

/-- `DNSRR2String` and `String2DNSRR`. -/
structure RecordCodec where
  /-- `DNSRR2String(rr)`. -/
  dnsRR2String : TextRR → Option Octets
  /-- `String2DNSRR(qname, qt, serial, ttd)`. -/
  string2DNSRR : Octets → UInt16 → Octets → UInt32 → Option TextRR

/-- `MemRecursorCache::StoredRecord`, with the mark `byAuth`. -/
structure StoredRecord where
  d_ttd : UInt32
  d_string : Octets
  byAuth : Bool
  deriving DecidableEq

/-- `MemRecursorCache::CacheEntry`. -/
structure CacheEntry where
  d_qname : Octets
  d_qtype : UInt16
  d_auth : Bool
  d_records : List StoredRecord
  deriving DecidableEq

namespace CacheEntry

/-- The composite key: the name up to case (`CIStringCompare`) and the type. -/
def key (e : CacheEntry) : Octets × UInt16 := (toLower e.d_qname, e.d_qtype)

/-- `getTTD`: the earliest expiry. -/
def getTTD (e : CacheEntry) : UInt32 :=
  match e.d_records with
  | [r] => r.d_ttd
  | rs => rs.foldl (fun earliest i => min earliest i.d_ttd) 0xffffffff

end CacheEntry

/-- `MemRecursorCache`. `d_cachecache` holds the keys in the range last looked up by `get`,
in index order. -/
structure MemRecursorCache where
  d_cache : SequencedIndex (Octets × UInt16) CacheEntry CacheEntry.key := SequencedIndex.empty
  d_cachecache : List (Octets × UInt16) := []
  d_cachedqname : Octets := []
  d_cachecachevalid : Bool := false
  d_followRFC2181 : Bool := false

namespace MemRecursorCache

/-! ### `replace` -/

/-- `StoredRecord::operator<` is a comparison of `d_string`. -/
def sortRecords (rs : List StoredRecord) : List StoredRecord :=
  rs.insertionSort fun a b => a.d_string ≤ b.d_string

/-- `attemptToRefreshNSTTL`. -/
def attemptToRefreshNSTTL (qt : UInt16) (content : List TextRR) (stored : CacheEntry) : Bool :=
  if !stored.d_auth then false
  else if qt ≠ QType.NS then false
  else if content.length ≠ stored.d_records.length then false
  else match stored.d_records, content with
    | r :: _, i :: _ => !decide (r.d_ttd > i.ttl)
    | _, _ => false

/-- What happens to a stored record `j` when the same record comes in with expiry `ttl`. -/
def updateTTL (now : Nat) (qt : UInt16) (auth followRFC2181 : Bool) (ttl : UInt32)
    (j : StoredRecord) : StoredRecord :=
  -- don't allow auth servers to *raise* TTL of an NS record
  if j.d_ttd > UInt32.ofNat now ∧ ttl > j.d_ttd ∧ qt = QType.NS ∧ auth then j
  -- authoritative packets can override the TTL to be lower
  else if ttl > j.d_ttd ∨ (auth ∧ followRFC2181) then { j with d_ttd := ttl, byAuth := auth }
  else j

/-- One record of the loop over `content`. The stored records are sorted
(`entryInv_step`), so `equal_range` delimits those with the same `d_string`. -/
def storeOne (now : Nat) (qt : UInt16) (auth followRFC2181 isNew : Bool)
    (rs : List StoredRecord) (dr : StoredRecord) : List StoredRecord :=
  if isNew then rs ++ [dr]
  else if rs.any fun j => j.d_string == dr.d_string then
    rs.map fun j =>
      if j.d_string = dr.d_string then updateTTL now qt auth followRFC2181 dr.d_ttd j else j
  else sortRecords (rs ++ [dr])

/-- The loop over `content`. -/
def storeAll (codec : RecordCodec) (now : Nat) (qt : UInt16) (auth followRFC2181 isNew : Bool) :
    List StoredRecord → List TextRR → Option (List StoredRecord)
  | rs, [] => some rs
  | rs, i :: is => do
    let s ← codec.dnsRR2String i
    storeAll codec now qt auth followRFC2181 isNew
      (storeOne now qt auth followRFC2181 isNew rs ⟨i.ttl, s, auth⟩) is

/-- `ce` after the SOA and CNAME branch: "you can only have one (1) each of these". -/
def clearSingleton (qt : UInt16) (stored : CacheEntry) : CacheEntry :=
  if qt = QType.SOA ∨ qt = QType.CNAME then { stored with d_records := [] } else stored

/-- "we still have valid data, ignore unauth data". -/
def hasFresh (now : Nat) (ce : CacheEntry) : Bool :=
  ce.d_records.any fun j => decide (now < j.d_ttd.toNat)

/-- The copy `ce` of the stored entry as `replace` leaves it. `none` when the stored entry
stays as it is: valid authoritative data against unauthoritative data, or a record that
cannot be serialised. -/
def replacedEntry (codec : RecordCodec) (now : Nat) (qt : UInt16) (content : List TextRR)
    (auth followRFC2181 isNew : Bool) (stored : CacheEntry) : Option CacheEntry :=
  let ce := clearSingleton qt stored
  if !auth && ce.d_auth && hasFresh now ce then none
  else
    -- new data won't be auth
    let ce := if !auth && ce.d_auth then { ce with d_auth := false } else ce
    let nuke := auth && !attemptToRefreshNSTTL qt content ce
    let ce := if nuke then { ce with d_records := [], d_auth := true } else ce
    let isNew := isNew || nuke
    (storeAll codec now qt auth followRFC2181 isNew ce.d_records content).map fun rs =>
      { ce with d_records := if isNew then sortRecords rs else rs }

/-- `replace(now, qname, qt, content, auth)`. -/
def replace (codec : RecordCodec) (c : MemRecursorCache) (now : Nat) (qname : Octets)
    (qt : UInt16) (content : List TextRR) (auth : Bool) : MemRecursorCache :=
  let fresh : CacheEntry := ⟨qname, qt, auth, []⟩
  let stored := c.d_cache.find? fresh.key
  let d_cache := c.d_cache.insert fresh
  match replacedEntry codec now qt content auth c.d_followRFC2181 stored.isNone
      (stored.getD fresh) with
  | none => { c with d_cachecachevalid := false, d_cache := d_cache }
  | some ce => { c with d_cachecachevalid := false, d_cache := d_cache.replace ce }

/-! ### `get` -/

/-- `(int)` of a 64 bit difference. -/
def toInt (x : Int) : Int := Int.bmod x (2 ^ 32)

/-- The keys of the entries of a name, in the order of the index. -/
def equalRange (c : MemRecursorCache) (qname : Octets) : List (Octets × UInt16) :=
  ((c.d_cache.items.map CacheEntry.key).filter fun k => k.1 == toLower qname).insertionSort
    fun a b => a.2 ≤ b.2

/-- Does an entry of type `stored` answer a question for `qt`? -/
def wantedType (qt stored : UInt16) : Bool :=
  stored == qt || qt == QType.ANY ||
    (qt == QType.ADDR && (stored == QType.A || stored == QType.AAAA))

/-- The loop over the records of one entry; `none` when `String2DNSRR` throws. -/
def readRecords (codec : RecordCodec) (now : Nat) (qname : Octets) (qtype : UInt16) (res : Bool) :
    List StoredRecord → UInt32 × List TextRR → Option (UInt32 × List TextRR)
  | [], acc => some acc
  | k :: ks, (ttd, rrs) =>
    if k.d_ttd < 1000000000 ∨ k.d_ttd > UInt32.ofNat now then
      if res then do
        let rr ← codec.string2DNSRR qname qtype k.d_string k.d_ttd
        readRecords codec now qname qtype res ks (k.d_ttd, setInsert rrLess rr rrs)
      else readRecords codec now qname qtype res ks (k.d_ttd, rrs)
    else readRecords codec now qname qtype res ks (ttd, rrs)

/-- The loop over the entries of the name. A hit goes to the back of the queue, an entry
without live records to its front. -/
def readEntries (codec : RecordCodec) (now : Nat) (qname : Octets) (qt : UInt16) (res : Bool) :
    List (Octets × UInt16) → SequencedIndex (Octets × UInt16) CacheEntry CacheEntry.key →
      UInt32 × List TextRR →
      SequencedIndex (Octets × UInt16) CacheEntry CacheEntry.key × Option (UInt32 × List TextRR)
  | [], idx, acc => (idx, some acc)
  | k :: ks, idx, acc =>
    match idx.find? k with
    | none => readEntries codec now qname qt res ks idx acc
    | some i =>
      if wantedType qt i.d_qtype then
        match readRecords codec now qname i.d_qtype res i.d_records acc with
        | none => (idx, none)
        | some acc =>
          let idx := if !res then idx
            else if acc.2.isEmpty then idx.relocateFront k else idx.relocateBack k
          -- normally if we have a hit, we are done
          if qt ≠ QType.ANY ∧ qt ≠ QType.ADDR then (idx, some acc)
          else readEntries codec now qname qt res ks idx acc
      else readEntries codec now qname qt res ks idx acc

/-- The range of `qname`, from the last `get` when that was for the same name. -/
def refreshRange (c : MemRecursorCache) (qname : Octets) : MemRecursorCache :=
  if !c.d_cachecachevalid || !pdnsIequals c.d_cachedqname qname then
    { c with d_cachedqname := qname, d_cachecache := c.equalRange qname, d_cachecachevalid := true }
  else c

/-- `get(now, qname, qt, res)`, where `res` says whether a result set was passed. The
second component is what it returns and the result set, `none` when it throws. -/
def get (codec : RecordCodec) (c : MemRecursorCache) (now : Nat) (qname : Octets) (qt : UInt16)
    (res : Bool) : MemRecursorCache × Option (Int × List TextRR) :=
  let c := c.refreshRange qname
  if c.d_cachecache.isEmpty then (c, some (-1, []))
  else
    let r := readEntries codec now qname qt res c.d_cachecache c.d_cache (0, [])
    ({ c with d_cache := r.1 }, r.2.map fun (ttd, rrs) => (toInt (ttd.toNat - now), rrs))

/-! ### `doWipeCache`, `doAgeCache`, `doPrune` -/

/-- Does `doWipeCache(name, qtype)` erase this entry? -/
def wiped (name : Octets) (qtype : UInt16) (e : CacheEntry) : Bool :=
  e.key.1 == toLower name && (qtype == 0xffff || e.d_qtype == qtype)

/-- `doWipeCache(name, qtype)`, with the number of entries erased. -/
def doWipeCache (c : MemRecursorCache) (name : Octets) (qtype : UInt16 := 0xffff) :
    MemRecursorCache × Nat :=
  ({ c with
      d_cachecachevalid := false
      d_cache := c.d_cache.filter fun e => !wiped name qtype e },
    c.d_cache.items.countP (wiped name qtype))

/-- The expiry `doAgeCache` gives to the records of an entry, if it touches them. -/
def agedTTD (now : Nat) (newTTL : Int) (e : CacheEntry) : Option UInt32 :=
  let ttl := toInt (e.getTTD.toNat - now)
  if ttl < 0 then none  -- would be dead anyhow
  else if ttl > newTTL then some (UInt32.ofNat ((now + newTTL) % 2 ^ 32).toNat)
  else none

/-- `doAgeCache(now, name, qtype, newTTL)`, with its result. -/
def doAgeCache (c : MemRecursorCache) (now : Nat) (name : Octets) (qtype : UInt16)
    (newTTL : Int) : MemRecursorCache × Bool :=
  match c.d_cache.find? (toLower name, qtype) with
  | none => (c, false)
  | some e =>
    match agedTTD now newTTL e with
    | none => (c, false)
    | some newTTD =>
      let ce := { e with d_records := e.d_records.map fun j => { j with d_ttd := newTTD } }
      ({ c with d_cachecachevalid := false, d_cache := c.d_cache.replace ce }, true)

/-- `doPrune`, with `now` the time `pruneCollection` reads and `maxCached` the share of
`max-cache-entries` of this thread (0: no limit). -/
def doPrune (c : MemRecursorCache) (now : UInt32) (maxCached : Nat) : MemRecursorCache :=
  { c with
    d_cachecachevalid := false
    d_cache := CacheCleaner.prune CacheEntry.getTTD now (UInt32.ofNat maxCached) c.d_cache }

/-! ### Runs -/

/-- A call of one of the public member functions that change the cache. -/
inductive Op
  | replace (now : Nat) (qname : Octets) (qt : UInt16) (content : List TextRR) (auth : Bool)
  | get (now : Nat) (qname : Octets) (qt : UInt16) (res : Bool)
  | doWipeCache (name : Octets) (qtype : UInt16)
  | doAgeCache (now : Nat) (name : Octets) (qtype : UInt16) (newTTL : Int)
  | doPrune (now : UInt32) (maxCached : Nat)

/-- The cache after a call. -/
def step (codec : RecordCodec) (c : MemRecursorCache) : Op → MemRecursorCache
  | .replace now qname qt content auth => c.replace codec now qname qt content auth
  | .get now qname qt res => (c.get codec now qname qt res).1
  | .doWipeCache name qtype => (c.doWipeCache name qtype).1
  | .doAgeCache now name qtype newTTL => (c.doAgeCache now name qtype newTTL).1
  | .doPrune now maxCached => c.doPrune now maxCached

end MemRecursorCache

end PowerDNS
