import Mathlib.Data.List.AList
import PowerDNS.Auth.BindZone
import PowerDNS.Lib.GuardedRun

/-!
# The zones of the Bind backend: `loadConfig`, `queueReload`, `createSlaveDomain`

The backend keeps two maps: `name_id_map` from the names of the zones to their ids, without regard to
case, and `id_zone_map` from the ids to what is known of the zones. `loadConfig` builds both anew from the
configuration. It copies what it knew about a zone, and reads the file of a zone that is new, has another
file, was not loaded, or has changed. An id comes from a counter that only `loadConfig` has.
`createSlaveDomain` looks for an id of its own, one more than the largest, and enters the zone's name under
the field `d_id`, which nothing has set.

What the program finds on the disk, what `std::sort` does, and what an uninitialised field holds come from
outside (`Disk`). `index_consistent` says that the two maps are inverse to each other behind every run
whose steps meet a condition: no two zones of a configuration have the same name, no id is handed out that
a known zone has, and a slave zone is new and gets a `d_id` that happens to be its id.
-/

namespace PowerDNS

open SortedRange GuardedRun List

namespace Bind2Backend

/-! ### The maps -/

/-- `BB2DomainInfo`; `d_records` is a pointer, and `d_id` is not initialised. -/
structure BB2DomainInfo where
  d_loaded : Bool := false
  d_checknow : Bool := false
  d_name : Octets := []
  d_filename : Octets := []
  d_id : Nat
  d_records : Option (List Bind2DNSRecord) := none
  deriving DecidableEq

/-- `name_id_map_t`, a map in which names that differ only in case are one key. What a name was written
like when it was entered is kept. -/
structure NameIdMap where
  entries : AList fun _ : Octets => Octets × Nat
  keyed : ∀ key n id, entries.lookup key = some (n, id) → toLower n = key

namespace NameIdMap

def empty : NameIdMap := ⟨∅, fun key n id h => by rw [AList.lookup_empty] at h; cases h⟩

/-- `find(name)`: the name as it was entered, and the id. -/
def find (m : NameIdMap) (name : Octets) : Option (Octets × Nat) := m.entries.lookup (toLower name)

/-- `map[name] = id`. -/
def set (m : NameIdMap) (name : Octets) (id : Nat) : NameIdMap where
  entries := m.entries.insert (toLower name) (((m.find name).map Prod.fst).getD name, id)
  keyed := by
    intro key n id' h
    by_cases hkey : key = toLower name
    · rw [hkey, AList.lookup_insert] at h
      obtain ⟨rfl, -⟩ := Prod.mk.inj (Option.some.inj h)
      rw [hkey]
      cases hfind : m.find name with
      | none => rfl
      | some entry => exact m.keyed _ entry.1 entry.2 hfind
    · rw [AList.lookup_insert_ne hkey] at h
      exact m.keyed key n id' h

theorem find_congr {m : NameIdMap} {a b : Octets} (h : toLower a = toLower b) : m.find a = m.find b :=
  congrArg (m.entries.lookup ·) h

theorem toLower_of_find {m : NameIdMap} {a n : Octets} {id : Nat} (h : m.find a = some (n, id)) :
    toLower n = toLower a := m.keyed _ n id h

theorem find_set_same {m : NameIdMap} {a b : Octets} {id : Nat} (h : toLower a = toLower b) :
    (m.set b id).find a = some (((m.find b).map Prod.fst).getD b, id) := by
  rw [find_congr h]
  exact AList.lookup_insert _

theorem find_set_other {m : NameIdMap} {a b : Octets} {id : Nat} (h : toLower a ≠ toLower b) :
    (m.set b id).find a = m.find a := AList.lookup_insert_ne h

end NameIdMap

/-- `Bind2Backend::State`. -/
structure State where
  name_id_map : NameIdMap
  id_zone_map : AList fun _ : Nat => BB2DomainInfo

/-- The entry of `id_zone_map` under an id. -/
def State.zone (s : State) (id : Nat) : Option BB2DomainInfo := s.id_zone_map.lookup id

/-- `id_zone_map[id] = bbd`. -/
def State.setZone (s : State) (id : Nat) (bbd : BB2DomainInfo) : State :=
  { s with id_zone_map := s.id_zone_map.insert id bbd }

def State.empty : State := ⟨NameIdMap.empty, ∅⟩

/-! ### Sorting -/

/-- `Bind2DNSRecord::operator<`. -/
def Bind2DNSRecord.less (a b : Bind2DNSRecord) : Bool :=
  if a.place < b.place then true
  else if b.place < a.place then false
  else if a.qtype = QType.SOA ∧ b.qtype ≠ QType.SOA then true
  else if a.qtype ≠ b.qtype then a.qtype < b.qtype
  else if a.content ≠ b.content then textKey a.content < textKey b.content
  else a.ttl < b.ttl

/-- The comparison is a strict weak order on these records, as `std::sort` demands. -/
structure StrictWeakOn (l : List Bind2DNSRecord) : Prop where
  asymm : ∀ a ∈ l, ∀ b ∈ l, a.less b = true → b.less a = false
  neg_trans : ∀ a ∈ l, ∀ c ∈ l, a.less c = true → ∀ b ∈ l, a.less b = true ∨ b.less c = true

/-- A record without its flag, which the comparison does not look at. -/
def Bind2DNSRecord.bare (bdr : Bind2DNSRecord) : Bind2DNSRecord := { bdr with auth := false }

/-- `std::sort`: it leaves the same elements, and when the comparison is a strict weak order on them, none
is less than one in front of it. All it does with elements is to compare them. -/
structure StdSort where
  sort : List Bind2DNSRecord → List Bind2DNSRecord
  perm : ∀ l, (sort l).Perm l
  sorted : ∀ l, StrictWeakOn l → (sort l).Pairwise fun a b => b.less a = false
  sort_bare : ∀ l l', l.map Bind2DNSRecord.bare = l'.map Bind2DNSRecord.bare →
    (sort l).map Bind2DNSRecord.bare = (sort l').map Bind2DNSRecord.bare

/-! ### Reading a zone file -/

/-- What `ZoneParserTNG` gives for a file: records one after the other, and then perhaps an exception. -/
structure ZoneFile where
  records : List TextRR
  throws : Bool := false

/-- What comes from outside of the program: the zone files, by filename and origin; whether `current()`
finds a file unchanged; `std::sort`; what is in the `auth` of the records that `insert` makes, and in
the `d_id` of a zone that is just made. -/
structure Disk where
  zoneFile : (filename name : Octets) → ZoneFile
  unchanged : (filename : Octets) → Bool
  sort : StdSort
  strayAuth : Nat → Bool
  strayId : Nat

/-- The records that `insert` makes of those of a file, up to the first that it throws at; and whether it
came to the end. -/
def insertFile (d_name : Octets) (strayAuth : Nat → Bool) : Nat → List TextRR → List Bind2DNSRecord × Bool
  | _, [] => ([], true)
  | n, rr :: rrs =>
    match newRecord d_name rr with
    | .error _ => ([], false)
    | .ok bdr =>
      let r := insertFile d_name strayAuth (n + 1) rrs
      ({ bdr with auth := strayAuth n } :: r.1, r.2)

/-- The records of a zone whose file is read to the end or to an exception. -/
def Disk.insertAll (disk : Disk) (d_name filename origin : Octets) : List Bind2DNSRecord × Bool :=
  let file := disk.zoneFile filename origin
  let r := insertFile d_name disk.strayAuth 0 file.records
  (r.1, r.2 && !file.throws)

/-- `current()`. -/
def Disk.current (disk : Disk) (bbd : BB2DomainInfo) : Bool :=
  !bbd.d_checknow && disk.unchanged bbd.d_filename

/-! ### `loadConfig` -/

/-- `BindDomainInfo`, a zone of the configuration. -/
structure BindDomainInfo where
  name : Octets
  filename : Octets
  type : Octets

/-- Whether the zone is one to serve. -/
def BindDomainInfo.served (i : BindDomainInfo) : Bool := i.type == ascii "master" || i.type == ascii "slave"

/-- A zone map entry as `operator[]` makes it. -/
def Disk.freshZone (disk : Disk) : BB2DomainInfo := { d_id := disk.strayId }

/-- The id of a zone of the configuration, what was known of it, and the counter `domain_id` behind that. -/
def knownOrNew (disk : Disk) (s_state stage : State) (domain_id : Nat) (i : BindDomainInfo) :
    Nat × BB2DomainInfo × Nat :=
  -- is it fully new?
  match s_state.name_id_map.find i.name with
  | none =>
    (domain_id, { (stage.zone domain_id).getD disk.freshZone with d_id := domain_id, d_loaded := false },
      domain_id + 1)
  | some known => (known.2, (s_state.zone known.2).getD disk.freshZone, domain_id)

/-- The file is read into the entry under `d_id`. If that has no records to add to, a null pointer is
followed, and the program ends. -/
def parseInto (disk : Disk) (i : BindDomainInfo) (d_id : Nat) (stage : State) : Option State :=
  let target := (stage.zone d_id).getD disk.freshZone
  match target.d_records with
  | none => none
  | some records =>
    let inserted := disk.insertAll target.d_name i.filename i.name
    some (stage.setZone d_id
      (if inserted.2 then
        { target with
          d_records := some (setAuth (disk.sort.sort (records ++ inserted.1))), d_loaded := true }
      else { target with d_records := some (records ++ inserted.1) }))

/-- One zone of the configuration. `s_state` is the state there was; the other one is staged, and with it
goes the counter. -/
def loadZone (disk : Disk) (s_state : State) (staging : State × Nat) (i : BindDomainInfo) :
    Option (State × Nat) :=
  if !i.served then some staging
  else
    let known := knownOrNew disk s_state staging.1 staging.2 i
    let bbd := known.2.1
    let stage := { staging.1 with name_id_map := staging.1.name_id_map.set i.name bbd.d_id }
    -- overwrite what we knew about the domain
    let named := { bbd with d_name := i.name, d_filename := i.filename }
    if bbd.d_filename ≠ i.filename || !named.d_loaded || !disk.current named then
      (parseInto disk i named.d_id (stage.setZone known.1 { named with d_records := some [] })).map
        fun stage => (stage, known.2.2)
    else some (stage.setZone known.1 named, known.2.2)

/-- The backend: the state, and the counter in `loadConfig`. -/
structure Bind2 where
  s_state : State
  domain_id : Nat

/-- What the program starts with. -/
def Bind2.init : Bind2 := ⟨State.empty, 1⟩

/-- `loadConfig`, with the zones of the configuration in the order of their inodes. -/
def loadConfig (disk : Disk) (domains : List BindDomainInfo) (b : Bind2) : Option Bind2 :=
  (domains.foldlM (loadZone disk b.s_state) (State.empty, b.domain_id)).map fun r => ⟨r.1, r.2⟩

/-! ### `queueReload`, `reload` and `createSlaveDomain` -/

/-- `queueReload` of the zone with the given name, if there is one. -/
def queueReload (disk : Disk) (name : Octets) (b : Bind2) : Bind2 :=
  match b.s_state.name_id_map.find name with
  | none => b
  | some known =>
    let id := known.2
    -- nuke all records from memory, keep bbd intact though
    let bbd := { (b.s_state.zone id).getD disk.freshZone with d_loaded := false, d_records := some [] }
    let s_state := b.s_state.setZone id bbd
    let target := (s_state.zone bbd.d_id).getD disk.freshZone
    let inserted := disk.insertAll target.d_name bbd.d_filename bbd.d_name
    let s_state := s_state.setZone bbd.d_id target
    if inserted.2 then
      let s_state := s_state.setZone bbd.d_id { target with d_records := some (disk.sort.sort inserted.1) }
      let bbd := (s_state.zone id).getD disk.freshZone
      -- and raise d_loaded again!
      { b with s_state := s_state.setZone id { bbd with d_loaded := true, d_checknow := false } }
    else { b with s_state := s_state }

/-- `reload`: all zones are to be checked. -/
def reload (b : Bind2) : Bind2 :=
  { b with s_state := { b.s_state with
      id_zone_map := ⟨b.s_state.id_zone_map.entries.map fun e => ⟨e.1, { e.2 with d_checknow := true }⟩, by
        have hkeys : (b.s_state.id_zone_map.entries.map fun e =>
            (⟨e.1, { e.2 with d_checknow := true }⟩ : Sigma fun _ : Nat => BB2DomainInfo)).keys =
              b.s_state.id_zone_map.entries.keys := by
          unfold List.keys
          rw [map_map]
          rfl
        unfold List.NodupKeys
        rw [hkeys]
        exact b.s_state.id_zone_map.nodupKeys⟩ } }

/-- `newid` of `createSlaveDomain`: the id of the last zone and one, or 0. -/
def newId (s : State) : Nat :=
  match s.id_zone_map.keys.max? with
  | none => 0
  | some last => ((s.zone last).map fun bbd => bbd.d_id + 1).getD 0

/-- `createSlaveDomain(ip, domain, account)`, in the maps; `filename` is made of `supermaster-destdir` and
the domain. -/
def createSlaveDomain (disk : Disk) (domain filename : Octets) (b : Bind2) : Bind2 :=
  let newid := newId b.s_state
  let bbd := { (b.s_state.zone newid).getD disk.freshZone with
    d_records := some [], d_name := domain, d_filename := filename }
  let s_state := b.s_state.setZone newid bbd
  { b with s_state := { s_state with name_id_map := s_state.name_id_map.set domain bbd.d_id } }

/-! ### Maps that are inverse to each other -/

/-- **The two maps are inverse to each other**: a name leads to the zone of that name and of that id, and
every zone is found under some name. -/
structure Consistent (s : State) : Prop where
  named : ∀ a n id, s.name_id_map.find a = some (n, id) → ∃ bbd, s.zone id = some bbd ∧ bbd.d_name = n ∧
    bbd.d_id = id
  reachable : ∀ id bbd, s.zone id = some bbd → ∃ n, s.name_id_map.find n = some (n, id)

/-- Names that lead to the same id are the same. -/
theorem Consistent.injective {s : State} (h : Consistent s) {a a' n n' : Octets} {id : Nat}
    (hn : s.name_id_map.find a = some (n, id)) (hn' : s.name_id_map.find a' = some (n', id)) :
    n = n' ∧ toLower a = toLower a' := by
  obtain ⟨bbd, hz, rfl, -⟩ := h.named a n id hn
  obtain ⟨bbd', hz', rfl, -⟩ := h.named a' n' id hn'
  obtain rfl := Option.some.inj (hz.symm.trans hz')
  exact ⟨rfl, (NameIdMap.toLower_of_find hn).symm.trans (NameIdMap.toLower_of_find hn')⟩

section Zones

variable {s : State} {id id' : Nat} {bbd : BB2DomainInfo}

@[simp] theorem zone_setZone_same : (s.setZone id bbd).zone id = some bbd := AList.lookup_insert _

theorem zone_setZone_other (h : id' ≠ id) : (s.setZone id bbd).zone id' = s.zone id' :=
  AList.lookup_insert_ne h

/-- A zone that keeps its name and its id may change in any other way. -/
theorem Consistent.setZone (h : Consistent s) {old : BB2DomainInfo} (hold : s.zone id = some old)
    (hname : bbd.d_name = old.d_name) (hid : bbd.d_id = old.d_id) : Consistent (s.setZone id bbd) := by
  refine ⟨fun a n id' hfind => ?_, fun id' bbd' hz => ?_⟩
  · obtain ⟨z, hz, hn, hz'⟩ := h.named a n id' hfind
    by_cases heq : id' = id
    · subst heq
      obtain rfl := Option.some.inj (hz.symm.trans hold)
      exact ⟨bbd, zone_setZone_same, hname.trans hn, hid.trans hz'⟩
    · exact ⟨z, (zone_setZone_other heq).trans hz, hn, hz'⟩
  · by_cases heq : id' = id
    · subst heq
      exact h.reachable id' old hold
    · rw [zone_setZone_other heq] at hz
      exact h.reachable id' bbd' hz

end Zones

/-! ### What is staged -/

/-- What is known of a zone of the configuration, whose id is `id`, before its file is looked at. -/
def startZone (disk : Disk) (s_state : State) (i : BindDomainInfo) (id : Nat) : BB2DomainInfo :=
  match s_state.name_id_map.find i.name with
  | none => { disk.freshZone with d_id := id, d_loaded := false }
  | some known => (s_state.zone known.2).getD disk.freshZone

/-- What becomes of it, when its field `d_id` is its id. -/
def readZone (disk : Disk) (i : BindDomainInfo) (bbd : BB2DomainInfo) : BB2DomainInfo :=
  let named := { bbd with d_name := i.name, d_filename := i.filename }
  if bbd.d_filename ≠ i.filename || !named.d_loaded || !disk.current named then
    let inserted := disk.insertAll i.name i.filename i.name
    if inserted.2 then
      { named with d_records := some (setAuth (disk.sort.sort inserted.1)), d_loaded := true }
    else { named with d_records := some inserted.1 }
  else named

@[simp] theorem readZone_d_name (disk : Disk) (i : BindDomainInfo) (bbd : BB2DomainInfo) :
    (readZone disk i bbd).d_name = i.name := by
  unfold readZone
  dsimp only
  split
  · split <;> rfl
  · rfl

@[simp] theorem readZone_d_id (disk : Disk) (i : BindDomainInfo) (bbd : BB2DomainInfo) :
    (readZone disk i bbd).d_id = bbd.d_id := by
  unfold readZone
  dsimp only
  split
  · split <;> rfl
  · rfl

/-- The zones of a configuration that are served, with their ids: those they have, or the next of the
counter. -/
def rowsOf (s_state : State) : Nat → List BindDomainInfo → List (BindDomainInfo × Nat)
  | _, [] => []
  | domain_id, i :: domains =>
    if !i.served then rowsOf s_state domain_id domains
    else
      match s_state.name_id_map.find i.name with
      | none => (i, domain_id) :: rowsOf s_state (domain_id + 1) domains
      | some known => (i, known.2) :: rowsOf s_state domain_id domains

/-- Zones with one name, or with one id, are the same zone, and it is written in one way. -/
def OneToOne (rows : List (BindDomainInfo × Nat)) : Prop :=
  ∀ r ∈ rows, ∀ r' ∈ rows, toLower r.1.name = toLower r'.1.name ∨ r.2 = r'.2 →
    r.1.name = r'.1.name ∧ r.2 = r'.2

instance (rows : List (BindDomainInfo × Nat)) : Decidable (OneToOne rows) :=
  inferInstanceAs (Decidable (∀ r ∈ rows, ∀ r' ∈ rows, toLower r.1.name = toLower r'.1.name ∨ r.2 = r'.2 →
    r.1.name = r'.1.name ∧ r.2 = r'.2))

theorem OneToOne.of_append {rows more : List (BindDomainInfo × Nat)} (h : OneToOne (rows ++ more)) :
    OneToOne rows := fun r hr r' hr' =>
  h r (mem_append_left more hr) r' (mem_append_left more hr')

/-- What is staged for the zones in `rows`; the counter is at `domain_id`. -/
structure Staged (disk : Disk) (s_state : State) (rows : List (BindDomainInfo × Nat)) (stage : State)
    (domain_id : Nat) : Prop where
  find_row : ∀ a n id, stage.name_id_map.find a = some (n, id) → ∃ r ∈ rows, r.1.name = n ∧ r.2 = id
  row_find : ∀ r ∈ rows, stage.name_id_map.find r.1.name = some (r.1.name, r.2)
  zone_row : ∀ id bbd, stage.zone id = some bbd →
    ∃ r ∈ rows, r.2 = id ∧ bbd = readZone disk r.1 (startZone disk s_state r.1 id)
  row_zone : ∀ r ∈ rows, ∃ bbd, stage.zone r.2 = some bbd
  handed_out : ∀ r ∈ rows, s_state.name_id_map.find r.1.name = none → r.2 < domain_id

section Staging

variable {disk : Disk} {s_state stage : State} {rows : List (BindDomainInfo × Nat)} {domain_id id : Nat}
  {i : BindDomainInfo}

theorem staged_empty (disk : Disk) (s_state : State) (domain_id : Nat) :
    Staged disk s_state [] State.empty domain_id where
  find_row a n id h := by
    cases h
  row_find r hr := absurd hr not_mem_nil
  zone_row id bbd h := by
    cases h
  row_zone r hr := absurd hr not_mem_nil
  handed_out r hr := absurd hr not_mem_nil

/-- One more zone, which is entered under its name and its id. -/
theorem Staged.concat (h : Staged disk s_state rows stage domain_id) (hone : OneToOne (rows ++ [(i, id)]))
    {domain_id' : Nat} (hle : domain_id ≤ domain_id')
    (hhanded : s_state.name_id_map.find i.name = none → id < domain_id') :
    Staged disk s_state (rows ++ [(i, id)])
      ({ stage with name_id_map := stage.name_id_map.set i.name id }.setZone id
        (readZone disk i (startZone disk s_state i id))) domain_id' := by
  have hlast : ∀ r ∈ rows, toLower r.1.name = toLower i.name ∨ r.2 = id → r.1.name = i.name ∧ r.2 = id :=
    fun r hr => hone r (mem_append_left _ hr) (i, id) (mem_append_right _ mem_cons_self)
  have hself : (i, id) ∈ rows ++ [(i, id)] := mem_append_right _ mem_cons_self
  -- the name is new, or was written like this
  have hset : ∀ a, toLower a = toLower i.name →
      (stage.name_id_map.set i.name id).find a = some (i.name, id) := by
    intro a ha
    rw [NameIdMap.find_set_same ha]
    cases hfind : stage.name_id_map.find i.name with
    | none => rfl
    | some entry =>
      obtain ⟨r, hr, hn, -⟩ := h.find_row i.name entry.1 entry.2 hfind
      have hlower := @NameIdMap.toLower_of_find _ _ entry.1 entry.2 hfind
      rw [← hn] at hlower
      have hname := (hlast r hr (.inl hlower)).1
      rw [hn] at hname
      exact congrArg (fun n => some (n, id)) hname
  refine ⟨fun a n id' hfind => ?_, fun r hr => ?_, fun id' bbd hz => ?_, fun r hr => ?_, fun r hr hnew => ?_⟩
  · change (stage.name_id_map.set i.name id).find a = _ at hfind
    by_cases ha : toLower a = toLower i.name
    · rw [hset a ha] at hfind
      obtain ⟨rfl, rfl⟩ := Prod.mk.inj (Option.some.inj hfind)
      exact ⟨_, hself, rfl, rfl⟩
    · rw [NameIdMap.find_set_other ha] at hfind
      obtain ⟨r, hr, hrow⟩ := h.find_row a n id' hfind
      exact ⟨r, mem_append_left _ hr, hrow⟩
  · change (stage.name_id_map.set i.name id).find r.1.name = _
    rcases mem_append.mp hr with hr | hr
    · by_cases ha : toLower r.1.name = toLower i.name
      · obtain ⟨hname, hid⟩ := hlast r hr (.inl ha)
        rw [hset _ ha, hname, hid]
      · rw [NameIdMap.find_set_other ha]
        exact h.row_find r hr
    · rw [mem_singleton.mp hr]
      exact hset _ rfl
  · by_cases heq : id' = id
    · subst heq
      rw [zone_setZone_same] at hz
      exact ⟨_, hself, rfl, (Option.some.inj hz).symm⟩
    · rw [zone_setZone_other heq] at hz
      obtain ⟨r, hr, hrow⟩ := h.zone_row id' bbd hz
      exact ⟨r, mem_append_left _ hr, hrow⟩
  · by_cases heq : r.2 = id
    · rw [heq]
      exact ⟨_, zone_setZone_same⟩
    · rw [zone_setZone_other heq]
      rcases mem_append.mp hr with hr | hr
      · exact h.row_zone r hr
      · exact absurd (congrArg Prod.snd (mem_singleton.mp hr)) heq
  · rcases mem_append.mp hr with hr | hr
    · exact (h.handed_out r hr hnew).trans_le hle
    · rw [mem_singleton.mp hr] at hnew ⊢
      exact hhanded hnew

theorem setZone_setZone (s : State) (id : Nat) (bbd bbd' : BB2DomainInfo) :
    (s.setZone id bbd).setZone id bbd' = s.setZone id bbd' := by
  unfold State.setZone
  rw [AList.insert_insert]

/-- A zone whose `d_id` is its id is staged as it should be. -/
theorem loadZone_eq {bbd : BB2DomainInfo} (hserved : i.served = true) {domain_id' : Nat}
    (hknown : knownOrNew disk s_state stage domain_id i = (id, bbd, domain_id')) (hid : bbd.d_id = id) :
    loadZone disk s_state (stage, domain_id) i =
      some ({ stage with name_id_map := stage.name_id_map.set i.name id }.setZone id (readZone disk i bbd),
        domain_id') := by
  unfold loadZone
  rw [hserved, Bool.not_true, if_neg Bool.false_ne_true]
  rw [hknown]
  unfold readZone
  dsimp only
  split
  · unfold parseInto
    rw [hid, zone_setZone_same, Option.getD_some]
    dsimp only
    rw [nil_append, setZone_setZone]
    rfl
  · rw [hid]

theorem startZone_d_id (hs : Consistent s_state)
    (hid : ∀ known, s_state.name_id_map.find i.name = some known → known.2 = id) :
    (startZone disk s_state i id).d_id = id := by
  unfold startZone
  cases hfind : s_state.name_id_map.find i.name with
  | none => rfl
  | some known =>
    obtain ⟨bbd, hz, -, hd⟩ := hs.named i.name known.1 known.2 hfind
    dsimp only
    rw [hz, Option.getD_some, hd]
    exact hid known hfind

/-- One turn of the loop. -/
theorem Staged.loadZone (h : Staged disk s_state rows stage domain_id) (hs : Consistent s_state)
    (domains : List BindDomainInfo) (hone : OneToOne (rows ++ rowsOf s_state domain_id (i :: domains))) :
    ∃ more stage' domain_id', loadZone disk s_state (stage, domain_id) i = some (stage', domain_id') ∧
      rowsOf s_state domain_id (i :: domains) = more ++ rowsOf s_state domain_id' domains ∧
      Staged disk s_state (rows ++ more) stage' domain_id' := by
  by_cases hserved : i.served = true
  · cases hfind : s_state.name_id_map.find i.name with
    | none =>
      have hrows : rowsOf s_state domain_id (i :: domains) =
          [(i, domain_id)] ++ rowsOf s_state (domain_id + 1) domains := by
        rw [rowsOf, hserved, Bool.not_true, if_neg Bool.false_ne_true, hfind]
        rfl
      rw [hrows, ← append_assoc] at hone
      -- the counter has not been there
      have hfree : stage.zone domain_id = none := by
        cases hz : stage.zone domain_id with
        | none => rfl
        | some bbd =>
          obtain ⟨r, hr, hid, -⟩ := h.zone_row domain_id bbd hz
          have hname := (hone.of_append r (mem_append_left _ hr) (i, domain_id)
            (mem_append_right _ mem_cons_self) (.inr hid)).1
          have hlt := h.handed_out r hr (by rw [hname]; exact hfind)
          omega
      have hstart : startZone disk s_state i domain_id =
          { disk.freshZone with d_id := domain_id, d_loaded := false } := by
        unfold startZone
        rw [hfind]
      have hknown : knownOrNew disk s_state stage domain_id i =
          (domain_id, startZone disk s_state i domain_id, domain_id + 1) := by
        unfold knownOrNew
        rw [hfind, hstart, hfree]
        rfl
      refine ⟨_, _, _, loadZone_eq hserved hknown (by rw [hstart]), hrows, ?_⟩
      exact h.concat hone.of_append (Nat.le_succ _) fun _ => Nat.lt_succ_self _
    | some known =>
      have hrows : rowsOf s_state domain_id (i :: domains) =
          [(i, known.2)] ++ rowsOf s_state domain_id domains := by
        rw [rowsOf, hserved, Bool.not_true, if_neg Bool.false_ne_true, hfind]
        rfl
      rw [hrows, ← append_assoc] at hone
      have hknown : knownOrNew disk s_state stage domain_id i =
          (known.2, startZone disk s_state i known.2, domain_id) := by
        unfold knownOrNew startZone
        rw [hfind]
      have hid : (startZone disk s_state i known.2).d_id = known.2 := by
        refine startZone_d_id hs fun known' hfind' => ?_
        rw [hfind] at hfind'
        rw [Option.some.inj hfind']
      refine ⟨_, _, _, loadZone_eq hserved hknown hid, hrows, ?_⟩
      refine h.concat hone.of_append (Nat.le_refl _) fun hnone => ?_
      rw [hfind] at hnone
      cases hnone
  · refine ⟨[], stage, domain_id, ?_, ?_, ?_⟩
    · unfold Bind2Backend.loadZone
      rw [Bool.eq_false_of_not_eq_true hserved, Bool.not_false, if_pos rfl]
    · rw [rowsOf, Bool.eq_false_of_not_eq_true hserved, Bool.not_false, if_pos rfl]
      rfl
    · rw [append_nil]
      exact h

/-- The whole loop. -/
theorem Staged.foldlM (h : Staged disk s_state rows stage domain_id) (hs : Consistent s_state)
    (domains : List BindDomainInfo) (hone : OneToOne (rows ++ rowsOf s_state domain_id domains)) :
    ∃ stage' domain_id', domains.foldlM (Bind2Backend.loadZone disk s_state) (stage, domain_id) =
        some (stage', domain_id') ∧
      Staged disk s_state (rows ++ rowsOf s_state domain_id domains) stage' domain_id' := by
  induction domains generalizing rows stage domain_id with
  | nil =>
    refine ⟨stage, domain_id, rfl, ?_⟩
    rw [rowsOf, append_nil]
    exact h
  | cons i domains ih =>
    obtain ⟨more, stage₁, domain_id₁, hload, hrows, hstaged⟩ := h.loadZone hs domains hone
    rw [hrows, ← append_assoc] at hone ⊢
    obtain ⟨stage₂, domain_id₂, hfold, hstaged₂⟩ := ih hstaged hone
    refine ⟨stage₂, domain_id₂, ?_, hstaged₂⟩
    rw [foldlM_cons, hload]
    exact hfold

/-- **What `loadConfig` installs**, when the zones of the configuration and their ids are one to one. -/
theorem exists_loadConfig {b : Bind2} (hs : Consistent b.s_state) {domains : List BindDomainInfo}
    (hone : OneToOne (rowsOf b.s_state b.domain_id domains)) :
    ∃ b', loadConfig disk domains b = some b' ∧
      Staged disk b.s_state (rowsOf b.s_state b.domain_id domains) b'.s_state b'.domain_id := by
  obtain ⟨stage, domain_id, hfold, hstaged⟩ :=
    (staged_empty disk b.s_state b.domain_id).foldlM hs domains hone
  refine ⟨⟨stage, domain_id⟩, ?_, hstaged⟩
  unfold loadConfig
  rw [hfold]
  rfl

end Staging

/-! ### What the operations keep -/

section Kept

variable {disk : Disk} {b : Bind2} {s : State}

/-- A known zone has its own id. -/
theorem mem_rowsOf {domain_id : Nat} {domains : List BindDomainInfo} {r : BindDomainInfo × Nat}
    (hr : r ∈ rowsOf s domain_id domains) :
    ∀ known, s.name_id_map.find r.1.name = some known → known.2 = r.2 := by
  induction domains generalizing domain_id with
  | nil => cases hr
  | cons i domains ih =>
    rw [rowsOf] at hr
    split at hr
    · exact ih hr
    · cases hfind : s.name_id_map.find i.name with
      | none =>
        rw [hfind] at hr
        rcases mem_cons.mp hr with rfl | hr
        · intro known hknown
          rw [hfind] at hknown
          cases hknown
        · exact ih hr
      | some known =>
        rw [hfind] at hr
        rcases mem_cons.mp hr with rfl | hr
        · intro known' hknown
          rw [hfind] at hknown
          exact congrArg Prod.snd (Option.some.inj hknown).symm
        · exact ih hr

theorem loadConfig_consistent (hs : Consistent b.s_state) {domains : List BindDomainInfo}
    (hone : OneToOne (rowsOf b.s_state b.domain_id domains)) :
    ∃ b', loadConfig disk domains b = some b' ∧ Consistent b'.s_state := by
  obtain ⟨b', hload, hstaged⟩ := @exists_loadConfig disk b hs domains hone
  refine ⟨b', hload, fun a n id hfind => ?_, fun id bbd hz => ?_⟩
  · obtain ⟨r, hr, rfl, rfl⟩ := hstaged.find_row a n id hfind
    obtain ⟨bbd, hz⟩ := hstaged.row_zone r hr
    obtain ⟨r', hr', hid, hread⟩ := hstaged.zone_row r.2 bbd hz
    refine ⟨bbd, hz, ?_, ?_⟩
    · rw [hread, readZone_d_name]
      exact (hone r' hr' r hr (.inr hid)).1
    · rw [hread, readZone_d_id]
      exact startZone_d_id hs fun known hknown => (mem_rowsOf hr' known hknown).trans hid
  · obtain ⟨r, hr, rfl, -⟩ := hstaged.zone_row id bbd hz
    exact ⟨r.1.name, hstaged.row_find r hr⟩

/-- What `queueReload` makes of a zone, when its field `d_id` is its id. -/
def reloadZone (disk : Disk) (bbd : BB2DomainInfo) : BB2DomainInfo :=
  let inserted := disk.insertAll bbd.d_name bbd.d_filename bbd.d_name
  if inserted.2 then
    { bbd with d_records := some (disk.sort.sort inserted.1), d_loaded := true, d_checknow := false }
  else { bbd with d_records := some [], d_loaded := false }

theorem queueReload_eq {name n : Octets} {id : Nat} {bbd : BB2DomainInfo}
    (hfind : b.s_state.name_id_map.find name = some (n, id)) (hz : b.s_state.zone id = some bbd)
    (hid : bbd.d_id = id) :
    queueReload disk name b = { b with s_state := b.s_state.setZone id (reloadZone disk bbd) } := by
  unfold queueReload reloadZone
  rw [hfind]
  dsimp only
  rw [hz, Option.getD_some, hid, zone_setZone_same, Option.getD_some, setZone_setZone]
  split
  · rw [setZone_setZone, zone_setZone_same, Option.getD_some, setZone_setZone]
  · rw [setZone_setZone]

theorem queueReload_consistent (hs : Consistent b.s_state) (name : Octets) :
    Consistent (queueReload disk name b).s_state := by
  cases hfind : b.s_state.name_id_map.find name with
  | none =>
    unfold queueReload
    rw [hfind]
    exact hs
  | some known =>
    obtain ⟨bbd, hz, -, hid⟩ := hs.named name known.1 known.2 hfind
    rw [queueReload_eq hfind hz hid]
    refine hs.setZone hz ?_ ?_
    · unfold reloadZone
      dsimp only
      split <;> rfl
    · unfold reloadZone
      dsimp only
      split <;> rfl

theorem zone_reload (b : Bind2) (id : Nat) : (reload b).s_state.zone id =
    (b.s_state.zone id).map fun bbd => { bbd with d_checknow := true } := by
  change (List.dlookup id (b.s_state.id_zone_map.entries.map fun e =>
      (⟨e.1, { e.2 with d_checknow := true }⟩ : Sigma fun _ : Nat => BB2DomainInfo))) =
    (List.dlookup id b.s_state.id_zone_map.entries).map _
  induction b.s_state.id_zone_map.entries with
  | nil => rfl
  | cons e entries ih =>
    obtain ⟨id', bbd⟩ := e
    by_cases heq : id' = id
    · subst heq
      rw [map_cons, dlookup_cons_eq, dlookup_cons_eq]
      rfl
    · rw [map_cons, dlookup_cons_ne _ _ (Ne.symm heq), dlookup_cons_ne _ _ (Ne.symm heq), ih]

theorem reload_consistent (hs : Consistent b.s_state) : Consistent (reload b).s_state := by
  refine ⟨fun a n id hfind => ?_, fun id bbd hz => ?_⟩
  · obtain ⟨bbd, hz, hn, hid⟩ := hs.named a n id hfind
    refine ⟨{ bbd with d_checknow := true }, ?_, hn, hid⟩
    rw [zone_reload, hz]
    rfl
  · rw [zone_reload] at hz
    obtain ⟨old, hold, rfl⟩ := Option.map_eq_some_iff.mp hz
    exact hs.reachable id old hold

/-- No zone has the id that `createSlaveDomain` finds. -/
theorem zone_newId (hs : Consistent s) : s.zone (newId s) = none := by
  have hkeys : ∀ id, s.zone id = none ↔ id ∉ s.id_zone_map.keys := fun id => AList.lookup_eq_none
  cases hmax : s.id_zone_map.keys.max? with
  | none =>
    rw [hkeys, max?_eq_none_iff.mp hmax]
    exact not_mem_nil
  | some last =>
    obtain ⟨hmem, hle⟩ := max?_eq_some_iff.mp hmax
    cases hz : s.zone last with
    | none => exact absurd hmem ((hkeys last).mp hz)
    | some bbd =>
      obtain ⟨n, hfind⟩ := hs.reachable last bbd hz
      obtain ⟨bbd', hz', -, hid⟩ := hs.named n n last hfind
      obtain rfl := Option.some.inj (hz.symm.trans hz')
      have hnew : newId s = last + 1 := by
        unfold newId
        rw [hmax]
        dsimp only
        rw [hz, Option.map_some, Option.getD_some, hid]
      rw [hkeys, hnew]
      exact fun hin => absurd (hle _ hin) (Nat.not_succ_le_self last)

/-- A slave zone whose `d_id` happens to be its id, and whose name was not known. -/
theorem createSlaveDomain_consistent (hs : Consistent b.s_state) {domain filename : Octets}
    (hid : disk.strayId = newId b.s_state) (hnew : b.s_state.name_id_map.find domain = none) :
    Consistent (createSlaveDomain disk domain filename b).s_state := by
  unfold createSlaveDomain
  dsimp only
  rw [zone_newId hs, Option.getD_none]
  change Consistent { b.s_state.setZone (newId b.s_state) _ with
    name_id_map := b.s_state.name_id_map.set domain disk.strayId }
  rw [hid]
  have hset : ∀ a, toLower a = toLower domain →
      (b.s_state.name_id_map.set domain (newId b.s_state)).find a = some (domain, newId b.s_state) := by
    intro a ha
    rw [NameIdMap.find_set_same ha, hnew]
    rfl
  refine ⟨fun a n id hfind => ?_, fun id bbd hz => ?_⟩
  · change (b.s_state.name_id_map.set domain (newId b.s_state)).find a = _ at hfind
    by_cases ha : toLower a = toLower domain
    · rw [hset a ha] at hfind
      obtain ⟨rfl, rfl⟩ := Prod.mk.inj (Option.some.inj hfind)
      exact ⟨_, zone_setZone_same, rfl, hid⟩
    · rw [NameIdMap.find_set_other ha] at hfind
      obtain ⟨bbd, hz, hn, hid'⟩ := hs.named a n id hfind
      have hother : id ≠ newId b.s_state := by
        rintro rfl
        rw [zone_newId hs] at hz
        cases hz
      exact ⟨bbd, (zone_setZone_other hother).trans hz, hn, hid'⟩
  · by_cases heq : id = newId b.s_state
    · subst heq
      exact ⟨domain, hset domain rfl⟩
    · change (b.s_state.setZone (newId b.s_state) _).zone id = _ at hz
      rw [zone_setZone_other heq] at hz
      obtain ⟨n, hfind⟩ := hs.reachable id bbd hz
      refine ⟨n, ?_⟩
      rw [NameIdMap.find_set_other, hfind]
      intro ha
      rw [NameIdMap.find_congr ha, hnew] at hfind
      cases hfind

end Kept

/-! ### Runs -/

/-- What is done to the zones; `none` is a program that has ended. -/
inductive Op
  | loadConfig (disk : Disk) (domains : List BindDomainInfo)
  | queueReload (disk : Disk) (name : Octets)
  | reload
  | createSlaveDomain (disk : Disk) (domain filename : Octets)

def step : Option Bind2 → Op → Option Bind2
  | none, _ => none
  | some b, .loadConfig disk domains => loadConfig disk domains b
  | some b, .queueReload disk name => some (queueReload disk name b)
  | some b, .reload => some (reload b)
  | some b, .createSlaveDomain disk domain filename => some (createSlaveDomain disk domain filename b)

/-- The zones of a configuration have different names, and none gets an id that another one has; a slave
zone is new, and its `d_id` happens to be its id. -/
def Op.Safe : Option Bind2 → Op → Prop
  | some b, .loadConfig _ domains => OneToOne (rowsOf b.s_state b.domain_id domains)
  | some b, .createSlaveDomain disk domain _ =>
    disk.strayId = newId b.s_state ∧ b.s_state.name_id_map.find domain = none
  | _, _ => True

theorem empty_consistent : Consistent State.empty where
  named a n id h := by
    cases h
  reachable id bbd h := by
    cases h

/-- A program that runs, with maps that are inverse to each other. -/
def Running (x : Option Bind2) : Prop := ∃ b, x = some b ∧ Consistent b.s_state

theorem step_running (x : Option Bind2) (op : Op) (h : Running x) (hsafe : op.Safe x) :
    Running (step x op) := by
  obtain ⟨b, rfl, hs⟩ := h
  cases op with
  | loadConfig disk domains => exact loadConfig_consistent hs hsafe
  | queueReload disk name => exact ⟨_, rfl, queueReload_consistent hs name⟩
  | reload => exact ⟨_, rfl, reload_consistent hs⟩
  | createSlaveDomain disk domain filename =>
    exact ⟨_, rfl, createSlaveDomain_consistent hs hsafe.1 hsafe.2⟩

/-- **The two maps are inverse to each other** behind every run whose steps meet the condition. -/
theorem index_consistent {ops : List Op} (h : Guarded step (fun x op => op.Safe x) (some Bind2.init) ops) :
    ∃ b, run step (some Bind2.init) ops = some b ∧ Consistent b.s_state ∧
      ∀ a a' n n' id, b.s_state.name_id_map.find a = some (n, id) →
        b.s_state.name_id_map.find a' = some (n', id) → n = n' := by
  obtain ⟨b, hrun, hs⟩ := run_invariant step_running ⟨Bind2.init, rfl, empty_consistent⟩ h
  exact ⟨b, hrun, hs, fun a a' n n' id hn hn' => (hs.injective hn hn').1⟩

/-! ### Two runs -/

/-- One way to sort. -/
def insertionSort : StdSort where
  sort l := l.insertionSort fun a b => b.less a = false
  perm l := perm_insertionSort _ l
  sorted l h := by
    have hmap := @List.map_insertionSort {a // a ∈ l} Bind2DNSRecord (fun a b => b.1.less a.1 = false)
      (fun a b => b.less a = false) _ _ Subtype.val l.attach fun _ _ _ _ => Iff.rfl
    rw [attach_map_subtype_val] at hmap
    have : Std.Total fun a b : {a // a ∈ l} => b.1.less a.1 = false := by
      refine ⟨fun a b => ?_⟩
      cases hab : a.1.less b.1 with
      | true => exact .inl (h.asymm a a.2 b b.2 hab)
      | false => exact .inr rfl
    have : IsTrans {a // a ∈ l} fun a b => b.1.less a.1 = false := by
      refine ⟨fun a b c hab hbc => ?_⟩
      by_contra hac
      rcases h.neg_trans c c.2 a a.2 ((Bool.not_eq_false _).mp hac) b b.2 with hcb | hba
      · rw [hbc] at hcb
        cases hcb
      · rw [hab] at hba
        cases hba
    have hpair := pairwise_insertionSort (fun a b : {a // a ∈ l} => b.1.less a.1 = false) l.attach
    rw [← hmap, pairwise_map]
    exact hpair
  sort_bare l l' h := by
    have hmap : ∀ l : List Bind2DNSRecord,
        (l.insertionSort fun a b => b.less a = false).map Bind2DNSRecord.bare =
          (l.map Bind2DNSRecord.bare).insertionSort fun a b => b.less a = false :=
      fun l => map_insertionSort _ _ _ _ fun _ _ _ _ => Iff.rfl
    rw [hmap, hmap, h]

/-- A disk on which every zone file is the same. -/
def exampleDisk (strayId : Nat) : Disk where
  zoneFile _ _ := { records := exampleFile }
  unchanged _ := true
  sort := insertionSort
  strayAuth _ := false
  strayId

def exampleDomain (name : String) : BindDomainInfo :=
  { name := ascii name, filename := ascii "file", type := ascii "master" }

instance : ∀ (x : Option Bind2) (op : Op), Decidable (op.Safe x)
  | none, _ => isTrue trivial
  | some b, .loadConfig _ domains =>
    inferInstanceAs (Decidable (OneToOne (rowsOf b.s_state b.domain_id domains)))
  | some b, .createSlaveDomain disk domain _ =>
    inferInstanceAs (Decidable (disk.strayId = newId b.s_state ∧ b.s_state.name_id_map.find domain = none))
  | some _, .queueReload _ _ => isTrue trivial
  | some _, .reload => isTrue trivial

/-- Two zones, a slave zone that finds its id in `d_id`, a reload, and a zone less. -/
def safeRun : List Op :=
  [.loadConfig (exampleDisk 0) [exampleDomain "example.com", exampleDomain "EXAMPLE.org"],
    .createSlaveDomain (exampleDisk 3) (ascii "example.net") (ascii "file"),
    .queueReload (exampleDisk 0) (ascii "example.ORG"), .reload,
    .loadConfig (exampleDisk 0) [exampleDomain "example.com", exampleDomain "example.net"]]

theorem safeRun_consistent :
    ∃ b, run step (some Bind2.init) safeRun = some b ∧ Consistent b.s_state ∧
      ∀ a a' n n' id, b.s_state.name_id_map.find a = some (n, id) →
        b.s_state.name_id_map.find a' = some (n', id) → n = n' :=
  index_consistent (by decide)

/-- A slave zone whose `d_id` happens to be 0 is found under an id that no zone has. -/
theorem slave_zone_lost : ∃ b, run step (some Bind2.init)
      [.loadConfig (exampleDisk 0) [exampleDomain "example.com"],
        .createSlaveDomain (exampleDisk 0) (ascii "example.net") (ascii "file")] = some b ∧
    b.s_state.name_id_map.find (ascii "example.net") = some (ascii "example.net", 0) ∧
    b.s_state.zone 0 = none ∧ ¬ Consistent b.s_state := by
  have hsome : (run step (some Bind2.init)
      [.loadConfig (exampleDisk 0) [exampleDomain "example.com"],
        .createSlaveDomain (exampleDisk 0) (ascii "example.net") (ascii "file")]).isSome := by
    decide
  obtain ⟨b, hrun⟩ := Option.isSome_iff_exists.mp hsome
  have hfind : (run step (some Bind2.init)
      [.loadConfig (exampleDisk 0) [exampleDomain "example.com"],
        .createSlaveDomain (exampleDisk 0) (ascii "example.net") (ascii "file")]).map
        (fun b => (b.s_state.name_id_map.find (ascii "example.net"), b.s_state.zone 0)) =
      some (some (ascii "example.net", 0), none) := by
    decide
  rw [hrun] at hfind
  obtain ⟨hfind, hz⟩ := Prod.mk.inj (Option.some.inj hfind)
  refine ⟨b, hrun, hfind, hz, fun h => ?_⟩
  obtain ⟨bbd, hz', -⟩ := h.named _ _ _ hfind
  rw [hz] at hz'
  cases hz'

end Bind2Backend

end PowerDNS
