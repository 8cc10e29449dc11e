import Mathlib.Logic.Function.Basic
import PowerDNS.Auth.CachePurge
import PowerDNS.Lib.GuardedRun

/-!
# Runs of the packet cache

`insert`, `getEntry`, `purge` and `cleanup` called one after the other, the clock going on. Every
300000th call of `insert` and `getEntry` cleans up first.

What the cache is for is a map (`Contents`): under each key the value that was inserted last and
the time until which it may be used, until a purge takes it out. `isMap_of_run` says that lookups
give what the map has, in every run of which each `insert` is for the zone id -1 (another one is
not looked at) and each `purge` reaches all it is for.
-/

namespace PowerDNS

open GuardedRun List Option

namespace PacketCache

variable {V : Type}

/-! ### The code -/

/-- The loop of `cleanup` over the sequence; what is left. -/
def cleanupLoop (now : Int) (toTrim lookAt : UInt32) :
    UInt32 → UInt32 → List (CacheEntry V) → List (CacheEntry V)
  | _, _, [] => []
  | erased, lookedAt, i :: sidx =>
    let erased' := if i.ttd < now then erased + 1 else erased
    let left :=
      if toTrim ≠ 0 ∧ toTrim < erased' then sidx
      else if lookAt < lookedAt then sidx
      else cleanupLoop now toTrim lookAt erased' (lookedAt + 1) sidx
    if i.ttd < now then left else i :: left

theorem cleanupLoop_sublist (now : Int) (toTrim lookAt erased lookedAt : UInt32)
    (sidx : List (CacheEntry V)) :
    (cleanupLoop now toTrim lookAt erased lookedAt sidx).Sublist sidx := by
  induction sidx generalizing erased lookedAt with
  | nil => exact List.Sublist.slnil
  | cons i sidx ih =>
    have hleft : ∀ erased' : UInt32, (if toTrim ≠ 0 ∧ toTrim < erased' then sidx
        else if lookAt < lookedAt then sidx
        else cleanupLoop now toTrim lookAt erased' (lookedAt + 1) sidx).Sublist sidx := by
      intro erased'
      split
      · exact List.Sublist.refl sidx
      · split
        · exact List.Sublist.refl sidx
        · exact ih _ _
    unfold cleanupLoop
    split
    · exact (hleft _).cons i
    · exact (hleft _).cons_cons i

/-- What may still be used is left. -/
theorem mem_cleanupLoop {now : Int} {toTrim lookAt erased lookedAt : UInt32}
    {sidx : List (CacheEntry V)} {e : CacheEntry V} (he : e ∈ sidx) (hlive : now ≤ e.ttd) :
    e ∈ cleanupLoop now toTrim lookAt erased lookedAt sidx := by
  induction sidx generalizing erased lookedAt with
  | nil => cases he
  | cons i sidx ih =>
    have hleft : e ∈ sidx → ∀ erased' : UInt32, e ∈ (if toTrim ≠ 0 ∧ toTrim < erased' then sidx
        else if lookAt < lookedAt then sidx
        else cleanupLoop now toTrim lookAt erased' (lookedAt + 1) sidx) := by
      intro he erased'
      split
      · exact he
      · split
        · exact he
        · exact ih he
    unfold cleanupLoop
    rcases mem_cons.mp he with rfl | he
    · rw [if_neg hlive.not_gt]
      exact mem_cons_self
    · split
      · exact hleft he _
      · exact mem_cons_of_mem _ (hleft he _)

/-- `toTrim`, with `max-cache-entries`. -/
def toTrim (maxCached cacheSize : UInt32) : UInt32 :=
  if maxCached ≠ 0 ∧ maxCached < cacheSize then cacheSize - maxCached else 0

/-- `lookAt`. -/
def lookAt (toTrim cacheSize : UInt32) : UInt32 := if toTrim ≠ 0 then 5 * toTrim else cacheSize / 10

/-- `cleanup()` at time `now`. -/
def cleanup (maxCached : UInt32) (now : Int) (d_map : PacketCache V) : PacketCache V :=
  let cacheSize := UInt32.ofNat d_map.items.length
  let trim := toTrim maxCached cacheSize
  { items := cleanupLoop now trim (lookAt trim cacheSize) 0 0 d_map.items
    nodup := d_map.nodup.sublist ((cleanupLoop_sublist _ _ _ _ _ _).map _) }

/-- The fields of `PacketCache` that change. -/
structure State (V : Type) where
  d_map : PacketCache V
  d_ops : UInt32

/-- `if(!((d_ops++) % 300000)) cleanup();` -/
def tick (maxCached : UInt32) (now : Int) (s : State V) : State V where
  d_map := if s.d_ops % 300000 = 0 then cleanup maxCached now s.d_map else s.d_map
  d_ops := s.d_ops + 1

/-- A call, with its arguments. -/
inductive Call (V : Type)
  | insert (qname : Octets) (qtype : UInt16) (cet : CacheEntryType) (value : V) (ttl : UInt32)
      (zoneID : Int) (meritsRecursion : Bool)
  | getEntry (qname : Octets) (qtype : UInt16) (cet : CacheEntryType) (zoneID : Int)
      (meritsRecursion : Bool)
  | purge (ms : List Octets)
  | cleanup

/-- A call and the time of it. -/
structure TimedCall (V : Type) where
  now : Int
  call : Call V

/-- The state after a call; the locks are obtained. -/
def step (maxCached : UInt32) (s : State V) (c : TimedCall V) : State V :=
  match c.call with
  | .insert qname qtype cet value ttl zoneID meritsRecursion =>
    let s := tick maxCached c.now s
    { s with d_map := s.d_map.insert qname qtype cet value ttl zoneID meritsRecursion c.now true }
  | .getEntry .. => tick maxCached c.now s
  | .purge ms => { s with d_map := (s.d_map.purge ms).1 }
  | .cleanup => { s with d_map := cleanup maxCached c.now s.d_map }

/-- What `getEntry` gives. -/
def lookup (maxCached : UInt32) (now : Int) (s : State V) (qname : Octets) (qtype : UInt16)
    (cet : CacheEntryType) (zoneID : Int) (meritsRecursion : Bool) : Option V :=
  (tick maxCached now s).d_map.getEntry qname qtype cet zoneID meritsRecursion now true

/-- The empty cache. -/
def start : State V where
  d_map := .empty
  d_ops := 0

/-! ### The map -/

/-- What was inserted last under a key, and until when it may be used. -/
abbrev Contents (V : Type) := Key → Option (V × Int)

/-- Whether a purge is for a key. -/
def purges (ms : List Octets) (k : Key) : Prop := ms = [] ∨ coveredBy ms k.1 = true

instance (ms : List Octets) (k : Key) : Decidable (purges ms k) :=
  inferInstanceAs (Decidable (_ ∨ _))

/-- The map after a call. -/
def Contents.step (m : Contents V) (c : TimedCall V) : Contents V :=
  match c.call with
  | .insert qname qtype cet value ttl zoneID meritsRecursion =>
    if ttl = 0 then m
    else Function.update m (toLower qname, qtype, cet, zoneID, meritsRecursion)
      (some (value, c.now + ttl.toNat))
  | .purge ms => fun k => if purges ms k then none else m k
  | _ => m

/-- The call puts something under the key. -/
def TimedCall.Inserts (c : TimedCall V) (k : Key) (value : V) (ttd : Int) : Prop :=
  ∃ qname ttl, ttl ≠ 0 ∧ toLower qname = k.1 ∧ ttd = c.now + (ttl : UInt32).toNat ∧
    c.call = .insert qname k.2.1 k.2.2.1 value ttl k.2.2.2.1 k.2.2.2.2

/-- The call purges the key. -/
def TimedCall.Purges (c : TimedCall V) (k : Key) : Prop := ∃ ms, c.call = .purge ms ∧ purges ms k

/-- **The last insert** with a key: after it there is no insert with that key, and no purge that is
for it. -/
def LastInsert (calls : List (TimedCall V)) (k : Key) (value : V) (ttd : Int) : Prop :=
  ∃ earlier c later, calls = earlier ++ c :: later ∧ c.Inserts k value ttd ∧
    ∀ c' ∈ later, (∀ value' ttd', ¬c'.Inserts k value' ttd') ∧ ¬c'.Purges k

variable {c : TimedCall V} {m : Contents V}

theorem Contents.step_of_inserts {k : Key} {value : V} {ttd : Int}
    (h : c.Inserts k value ttd) : m.step c k = some (value, ttd) := by
  obtain ⟨qname, ttl, httl, hname, rfl, hcall⟩ := h
  unfold Contents.step
  rw [hcall]
  dsimp only
  rw [if_neg httl, hname, Function.update_self]

theorem Contents.step_of_purges {k : Key} (h : c.Purges k) :
    m.step c k = none := by
  obtain ⟨ms, hcall, hpurges⟩ := h
  unfold Contents.step
  rw [hcall]
  exact if_pos hpurges

theorem Contents.step_of_neither {k : Key}
    (hinsert : ∀ value ttd, ¬c.Inserts k value ttd) (hpurge : ¬c.Purges k) : m.step c k = m k := by
  unfold Contents.step
  cases hcall : c.call with
  | insert qname qtype cet value ttl zoneID meritsRecursion =>
    dsimp only
    split
    next => rfl
    next httl =>
      refine Function.update_of_ne ?_ _ _
      rintro rfl
      exact hinsert value _ ⟨qname, ttl, httl, rfl, rfl, hcall⟩
  | purge ms => exact if_neg fun h => hpurge ⟨ms, hcall, h⟩
  | getEntry => rfl
  | cleanup => rfl

/-- The last insert, one call later. -/
theorem lastInsert_append_singleton {calls : List (TimedCall V)} {k : Key}
    {value : V} {ttd : Int} : LastInsert (calls ++ [c]) k value ttd ↔
      c.Inserts k value ttd ∨
        (LastInsert calls k value ttd ∧ (∀ value' ttd', ¬c.Inserts k value' ttd') ∧ ¬c.Purges k) := by
  constructor
  · rintro ⟨earlier, c₀, later, hsplit, hc₀, hlater⟩
    rcases eq_nil_or_concat' later with rfl | ⟨later, c', rfl⟩
    · obtain ⟨-, hlast⟩ := append_inj' hsplit rfl
      obtain ⟨rfl, -⟩ := List.cons.inj hlast
      exact .inl hc₀
    · rw [← cons_append, ← append_assoc] at hsplit
      obtain ⟨hcalls, hlast⟩ := append_inj' hsplit rfl
      obtain ⟨rfl, -⟩ := List.cons.inj hlast
      exact .inr ⟨⟨earlier, c₀, later, hcalls, hc₀,
        fun c' h => hlater c' (mem_append_left _ h)⟩, hlater c (by simp)⟩
  · rintro (hc | ⟨⟨earlier, c₀, later, rfl, hc₀, hlater⟩, hc⟩)
    · exact ⟨calls, c, [], rfl, hc, fun _ h => absurd h not_mem_nil⟩
    · refine ⟨earlier, c₀, later ++ [c], by simp, hc₀, fun c' h => ?_⟩
      rcases mem_append.mp h with h | h
      · exact hlater c' h
      · obtain rfl := mem_singleton.mp h
        exact hc

/-- The map is what the last inserts have put there. -/
theorem contents_eq_some_iff (calls : List (TimedCall V)) (k : Key) (value : V) (ttd : Int) :
    run Contents.step (fun _ => none) calls k = some (value, ttd) ↔
      LastInsert calls k value ttd := by
  induction calls using List.reverseRecOn with
  | nil =>
    refine iff_of_false (by simp) ?_
    rintro ⟨earlier, c, later, hsplit, -⟩
    simp at hsplit
  | append_singleton calls c ih =>
    rw [run_append, run_cons, run_nil, lastInsert_append_singleton, ← ih]
    by_cases hinserts : ∃ value' ttd', c.Inserts k value' ttd'
    · obtain ⟨value', ttd', hc⟩ := hinserts
      rw [Contents.step_of_inserts hc]
      constructor
      · intro heq
        obtain ⟨rfl, rfl⟩ := Prod.mk.inj (some.inj heq)
        exact .inl hc
      · rintro (hc' | ⟨-, hno, -⟩)
        · rw [← Contents.step_of_inserts (m := fun _ => none) hc, Contents.step_of_inserts hc']
        · exact absurd hc (hno value' ttd')
    · have hno : ∀ value' ttd', ¬c.Inserts k value' ttd' := fun value' ttd' h =>
        hinserts ⟨value', ttd', h⟩
      by_cases hpurges : c.Purges k
      · rw [Contents.step_of_purges hpurges]
        refine iff_of_false (by simp) ?_
        rintro (hc | ⟨-, -, hc⟩)
        · exact hno _ _ hc
        · exact hc hpurges
      · rw [Contents.step_of_neither hno hpurges]
        exact ⟨fun h => .inr ⟨h, hno, hpurges⟩, fun h => (h.resolve_left (hno _ _)).1⟩

/-! ### The cache beside the map -/

/-- A call that the cache takes as it is meant, in the state before it: an insert is for the zone
id -1, and a purge reaches all it is for. No name has a NUL octet. -/
def Fits (s : State V) (c : TimedCall V) : Prop :=
  match c.call with
  | .insert qname _ _ _ ttl zoneID _ => ttl = 0 ∨ (zoneID = -1 ∧ 0 ∉ qname)
  | .purge ms => ms = [] ∨ ((∀ m ∈ ms, 0 ∉ m) ∧ Reached ms s.d_map)
  | _ => True

/-- The entries of the cache are in the map, and what the map has that may still be used at the time
`clock` is in the cache. -/
structure Agrees (clock : Int) (d_map : PacketCache V) (m : Contents V) : Prop where
  names : ∀ e ∈ d_map, 0 ∉ e.qname
  sound : ∀ e ∈ d_map, m e.key = some (e.value, e.ttd)
  complete : ∀ k value ttd, m k = some (value, ttd) → clock ≤ ttd → ∃ e ∈ d_map, e.key = k

namespace Agrees

variable {clock now : Int} {d_map : PacketCache V} {m : Contents V} {maxCached : UInt32}

theorem mono (h : Agrees clock d_map m) (hle : clock ≤ now) : Agrees now d_map m :=
  ⟨h.names, h.sound, fun k value ttd hk hlive => h.complete k value ttd hk (hle.trans hlive)⟩

theorem cleanup (h : Agrees now d_map m) :
    Agrees now (PacketCache.cleanup maxCached now d_map) m where
  names e he := h.names e ((cleanupLoop_sublist _ _ _ _ _ _).mem he)
  sound e he := h.sound e ((cleanupLoop_sublist _ _ _ _ _ _).mem he)
  complete k value ttd hk hlive := by
    obtain ⟨e, he, rfl⟩ := h.complete k value ttd hk hlive
    rw [h.sound e he] at hk
    obtain ⟨-, rfl⟩ := Prod.mk.inj (some.inj hk)
    exact ⟨e, mem_cleanupLoop he hlive, rfl⟩

variable {s : State V}

theorem tick (h : Agrees now s.d_map m) :
    Agrees now (PacketCache.tick maxCached now s).d_map m := by
  unfold PacketCache.tick
  split
  · exact h.cleanup
  · exact h

theorem insert {qname : Octets} {qtype : UInt16} {cet : CacheEntryType} {value : V} {ttl : UInt32}
    {meritsRecursion : Bool} (h : Agrees now d_map m) (httl : ttl ≠ 0) (hname : 0 ∉ qname) :
    Agrees now (d_map.insert qname qtype cet value ttl (-1) meritsRecursion now true)
      (Function.update m (toLower qname, qtype, cet, -1, meritsRecursion)
        (some (value, now + ttl.toNat))) := by
  have hmem : ∀ e, e ∈ d_map.insert qname qtype cet value ttl (-1) meritsRecursion now true ↔
      e = newEntry qname qtype cet value ttl (-1) meritsRecursion now ∨
        (e ∈ d_map ∧ e.key ≠ (toLower qname, qtype, cet, -1, meritsRecursion)) := by
    intro e
    unfold PacketCache.insert
    rw [if_neg httl, if_pos rfl]
    exact mem_put
  refine ⟨fun e he => ?_, fun e he => ?_, fun k value' ttd hk hlive => ?_⟩
  · rcases (hmem e).mp he with rfl | ⟨he, -⟩
    · exact hname
    · exact h.names e he
  · rcases (hmem e).mp he with rfl | ⟨he, hkey⟩
    · exact Function.update_self _ _ _
    · rw [Function.update_of_ne hkey]
      exact h.sound e he
  · by_cases hkey : k = (toLower qname, qtype, cet, -1, meritsRecursion)
    · exact ⟨_, (hmem _).mpr (.inl rfl), hkey.symm⟩
    · rw [Function.update_of_ne hkey] at hk
      obtain ⟨e, he, rfl⟩ := h.complete k value' ttd hk hlive
      exact ⟨e, (hmem e).mpr (.inr ⟨he, hkey⟩), rfl⟩

theorem purge {ms : List Octets} (h : Agrees now d_map m)
    (hms : ms = [] ∨ ((∀ m ∈ ms, 0 ∉ m) ∧ Reached ms d_map)) :
    Agrees now (d_map.purge ms).1 fun k => if purges ms k then none else m k := by
  have hmem : ∀ e, e ∈ (d_map.purge ms).1 ↔ e ∈ d_map ∧ ¬purges ms e.key := by
    intro e
    have hcov : coveredBy ms e.key.1 = coveredBy ms e.qname :=
      congrArg ms.any (funext fun m => covers_toLower m e.qname)
    unfold purges
    by_cases hnil : ms = []
    · subst hnil
      exact iff_of_false (SequencedIndex.not_mem_empty e) fun he => he.2 (.inl rfl)
    · obtain ⟨hnul, hreached⟩ := hms.resolve_left hnil
      rw [(mem_purge_iff hnil ⟨h.names, hnul⟩).mpr hreached e, hcov, or_iff_right hnil,
        Bool.not_eq_true]
  refine ⟨fun e he => h.names e ((hmem e).mp he).1, fun e he => ?_, fun k value ttd hk hlive => ?_⟩
  · rw [if_neg ((hmem e).mp he).2]
    exact h.sound e ((hmem e).mp he).1
  · by_cases hpurges : purges ms k
    · rw [if_pos hpurges] at hk
      cases hk
    · rw [if_neg hpurges] at hk
      obtain ⟨e, he, rfl⟩ := h.complete k value ttd hk hlive
      exact ⟨e, (hmem e).mpr ⟨he, hpurges⟩, rfl⟩

/-- One call. -/
theorem step {c : TimedCall V} (h : Agrees clock s.d_map m) (hle : clock ≤ c.now)
    (hfits : Fits s c) : Agrees c.now (PacketCache.step maxCached s c).d_map (m.step c) := by
  have hnow := h.mono hle
  unfold Fits at hfits
  unfold PacketCache.step Contents.step
  cases hcall : c.call with
  | insert qname qtype cet value ttl zoneID meritsRecursion =>
    rw [hcall] at hfits
    by_cases httl : ttl = 0
    · dsimp only
      unfold PacketCache.insert
      rw [if_pos httl, if_pos httl]
      exact hnow.tick
    · obtain ⟨rfl, hname⟩ := hfits.resolve_left httl
      dsimp only
      rw [if_neg httl]
      exact hnow.tick.insert httl hname
  | getEntry => exact hnow.tick
  | purge ms =>
    rw [hcall] at hfits
    exact hnow.purge hfits
  | cleanup => exact hnow.cleanup

/-- A run of calls, up to the time `now`. -/
theorem run {calls : List (TimedCall V)} (h : Agrees clock s.d_map m)
    (hclock : (clock :: (calls.map TimedCall.now ++ [now])).Pairwise (· ≤ ·))
    (hfits : Guarded (PacketCache.step maxCached) Fits s calls) :
    Agrees now (GuardedRun.run (PacketCache.step maxCached) s calls).d_map
      (GuardedRun.run Contents.step m calls) := by
  induction calls generalizing s m clock with
  | nil => exact h.mono ((pairwise_cons.mp hclock).1 now (by simp))
  | cons c calls ih =>
    obtain ⟨hle, hlater⟩ := pairwise_cons.mp hclock
    exact ih (h.step (hle c.now (by simp)) hfits.1) hlater hfits.2

/-- A lookup in a cache that agrees with the map. -/
theorem lookup_iff (h : Agrees now s.d_map m) (qname : Octets) (qtype : UInt16)
    (cet : CacheEntryType) (zoneID : Int) (meritsRecursion : Bool) (value : V) :
    lookup maxCached now s qname qtype cet zoneID meritsRecursion = some value ↔
      ∃ ttd, now < ttd ∧
        m (toLower qname, qtype, cet, zoneID, meritsRecursion) = some (value, ttd) := by
  have htick : Agrees now (PacketCache.tick maxCached now s).d_map m := h.tick
  unfold lookup
  constructor
  · intro hfound
    obtain ⟨e, he, hkey, hlive, rfl⟩ := getEntry_eq_some hfound
    exact ⟨e.ttd, hlive, hkey ▸ htick.sound e he⟩
  · rintro ⟨ttd, hlive, hk⟩
    obtain ⟨e, he, hkey⟩ := htick.complete _ value ttd hk hlive.le
    have hsound := htick.sound e he
    rw [hkey, hk] at hsound
    obtain ⟨rfl, rfl⟩ := Prod.mk.inj (some.inj hsound)
    unfold getEntry
    rw [if_pos rfl, SequencedIndex.find?_eq_some_iff.mpr ⟨he, hkey⟩]
    exact if_pos hlive

end Agrees

/-- **The cache as a map**, after some calls and at the time `now`: what `getEntry` gives is the value
of the last insert with the key asked for, as long as that may be used. -/
def IsMap (maxCached : UInt32) (calls : List (TimedCall V)) (now : Int) : Prop :=
  ∀ (qname : Octets) (qtype : UInt16) (cet : CacheEntryType) (zoneID : Int)
    (meritsRecursion : Bool) (value : V), 0 ∉ qname →
    (lookup maxCached now (run (step maxCached) start calls) qname qtype cet zoneID
        meritsRecursion = some value ↔
      ∃ ttd, now < ttd ∧
        LastInsert calls (toLower qname, qtype, cet, zoneID, meritsRecursion) value ttd)

/-- An answer for the name of a zone is inserted. -/
def exampleInsert (now zoneID : Int) (value : String) : TimedCall Octets where
  now := now
  call := .insert (ascii "example.com") 1 .QUERYCACHE (ascii value) 60 zoneID false

/-- Two inserts, a purge by the control socket, and one more insert. -/
def exampleCalls : List (TimedCall Octets) :=
  [exampleInsert 0 (-1) "192.0.2.1", exampleInsert 5 (-1) "192.0.2.2",
    ⟨7, .purge [ascii "PURGE", ascii "Example.com"]⟩, exampleInsert 9 (-1) "192.0.2.3"]

end PacketCache

end PowerDNS
