import PowerDNS.Base.Octets
import PowerDNS.Lib.SequencedIndex

/-!
# The packet cache: `PacketCache`

One container holds whole replies (`PACKETCACHE`) and answers of the backends
(`QUERYCACHE`), with the time until which each may be used. Its unique index compares the
name with `CIBackwardsStringCompare` and the other four fields as numbers. On names without
NUL octets two names are equivalent for that comparison exactly if they are equal up to
letter case, so the key of the model has the name in lower case.

`insert` fills in every field of an entry but the zone id, which keeps the -1 of the
constructor: an answer for one zone is stored as an answer for all zones (`mem_insert`).

`V` is the type of what is stored: a text in the query cache, a wrapped reply in the packet
cache.
-/

namespace PowerDNS

open Option List

namespace PacketCache

/-! ### Comparing names from the end -/

/-- The loop of `CIBackwardsStringCompare` on the reversed texts, and what follows it; `a` and
`b` are the last octets it looked at. The `char`s are signed. -/
def ciBackwardsLoop (a b : UInt8) : Octets → Octets → Bool
  | x :: xs, y :: ys =>
    if dnsTolower x = dnsTolower y then ciBackwardsLoop (dnsTolower x) (dnsTolower y) xs ys
    else decide ((dnsTolower x).toInt8 < (dnsTolower y).toInt8)
  | x :: _, [] => decide (x.toInt8 < 0)
  | [], y :: _ => decide ((0 : Int8) < y.toInt8)
  | [], [] => decide (a.toInt8 < b.toInt8)

/-- `CIBackwardsStringCompare`. -/
def ciBackwardsLess (a b : Octets) : Bool := ciBackwardsLoop 0 0 a.reverse b.reverse

/-! ### The container -/

/-- `PacketCache::CacheEntryType`. -/
inductive CacheEntryType
  | PACKETCACHE
  | QUERYCACHE
  deriving DecidableEq, Repr

/-- `PacketCache::CacheEntry`; the defaults are those of its constructor. -/
structure CacheEntry (V : Type) where
  qname : Octets
  qtype : UInt16
  ctype : CacheEntryType
  zoneID : Int := -1
  ttd : Int
  meritsRecursion : Bool := false
  value : V
  deriving DecidableEq

/-- The composite key of the unique index. -/
abbrev Key := Octets × UInt16 × CacheEntryType × Int × Bool

/-- The key of an entry. -/
def CacheEntry.key {V : Type} (e : CacheEntry V) : Key :=
  (toLower e.qname, e.qtype, e.ctype, e.zoneID, e.meritsRecursion)

end PacketCache

open PacketCache

/-- The container `d_map`. -/
abbrev PacketCache (V : Type) := SequencedIndex Key (CacheEntry V) CacheEntry.key

namespace PacketCache

variable {V : Type}

/-- The entry that `insert` makes; its argument `zoneID` is not looked at. -/
def newEntry (qname : Octets) (qtype : UInt16) (cet : CacheEntryType) (value : V) (ttl : UInt32)
    (_zoneID : Int) (meritsRecursion : Bool) (now : Int) : CacheEntry V where
  ttd := now + ttl.toNat
  qname := qname
  qtype := qtype
  value := value
  ctype := cet
  meritsRecursion := meritsRecursion

/-- Puts an entry into the container, in the place of the one with its key if there is one. -/
def put (val : CacheEntry V) (d_map : PacketCache V) : PacketCache V :=
  if (d_map.find? val.key).isSome then d_map.replace val else d_map.insert val

/-- `PacketCache::insert(qname, qtype, cet, value, ttl, zoneID, meritsRecursion)` at time `now`;
`gotIt` is whether the write lock was free. -/
def insert (qname : Octets) (qtype : UInt16) (cet : CacheEntryType) (value : V) (ttl : UInt32)
    (zoneID : Int) (meritsRecursion : Bool) (now : Int) (gotIt : Bool) (d_map : PacketCache V) :
    PacketCache V :=
  if ttl = 0 then d_map
  else if gotIt then put (newEntry qname qtype cet value ttl zoneID meritsRecursion now) d_map
  else d_map

/-- `getEntry`, with `getEntryLocked`, at time `now`; `gotIt` is whether the read lock was
free. -/
def getEntry (d_map : PacketCache V) (qname : Octets) (qtype : UInt16) (cet : CacheEntryType)
    (zoneID : Int) (meritsRecursion : Bool) (now : Int) (gotIt : Bool) : Option V :=
  if gotIt then
    match d_map.find? (toLower qname, qtype, cet, zoneID, meritsRecursion) with
    | some i => if now < i.ttd then some i.value else none
    | none => none
  else none

/-! ### What the operations do to an entry -/

/-- An entry that was put in is there, and no other entry with its key is. -/
theorem mem_put {val e : CacheEntry V} {d_map : PacketCache V} :
    e ∈ put val d_map ↔ e = val ∨ (e ∈ d_map ∧ e.key ≠ val.key) := by
  unfold put
  cases hfind : d_map.find? val.key with
  | some old =>
    obtain ⟨hmem, hkey⟩ := SequencedIndex.find?_eq_some_iff.mp hfind
    rw [isSome_some, if_pos rfl, SequencedIndex.mem_replace]
    exact or_congr_left (and_iff_left ⟨old, hmem, hkey⟩)
  | none =>
    rw [isSome_none, if_neg Bool.false_ne_true, SequencedIndex.mem_insert]
    have hfree := SequencedIndex.find?_eq_none_iff.mp hfind
    constructor
    · rintro (h | ⟨rfl, -⟩)
      · exact .inr ⟨h, hfree e h⟩
      · exact .inl rfl
    · rintro (rfl | ⟨h, -⟩)
      · exact .inr ⟨rfl, hfind⟩
      · exact .inl h

/-- Every entry after an `insert` is the new one, under zone id -1, or was there before. -/
theorem mem_insert {qname : Octets} {qtype : UInt16} {cet : CacheEntryType} {value : V}
    {ttl : UInt32} {zoneID : Int} {meritsRecursion : Bool} {now : Int} {gotIt : Bool}
    {d_map : PacketCache V} {e : CacheEntry V}
    (h : e ∈ insert qname qtype cet value ttl zoneID meritsRecursion now gotIt d_map) :
    e = newEntry qname qtype cet value ttl (-1) meritsRecursion now ∨ e ∈ d_map := by
  unfold insert at h
  split at h
  · exact .inr h
  · split at h
    · exact (mem_put.mp h).imp id And.left
    · exact .inr h

/-- What `getEntry` gives is the value of an entry with the key asked for that may still be
used. -/
theorem getEntry_eq_some {d_map : PacketCache V} {qname : Octets} {qtype : UInt16}
    {cet : CacheEntryType} {zoneID : Int} {meritsRecursion : Bool} {now : Int} {gotIt : Bool}
    {value : V}
    (h : getEntry d_map qname qtype cet zoneID meritsRecursion now gotIt = some value) :
    ∃ e ∈ d_map, e.key = (toLower qname, qtype, cet, zoneID, meritsRecursion) ∧
      now < e.ttd ∧ e.value = value := by
  unfold getEntry at h
  split at h
  · split at h
    next e hfind =>
      obtain ⟨hmem, hkey⟩ := SequencedIndex.find?_eq_some_iff.mp hfind
      split at h
      next hlive => exact ⟨e, hmem, hkey, hlive, some.inj h⟩
      next => cases h
    next => cases h
  · cases h

end PacketCache

end PowerDNS
