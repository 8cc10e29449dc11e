import PowerDNS.Auth.BindLoading
import PowerDNS.Auth.BindNeighbours
import PowerDNS.Lib.AnsweringRun

/-!
# The cursor of the Bind backend: `Bind2Backend::lookup`, `list` and `get`

A backend has one `handle`, and every `lookup` and `list` begins with it anew: `reset` gives the records
back and clears the relative name. The rest of the handle stays. So a `lookup` that finds nothing in its
zone goes on with the iterators of an earlier one, and a `list` puts the name of the zone that was last
searched behind the names of its own.

The measure is `Ideal`, which keeps the records it still has to give and nothing else. `cursor_answers`
says that the backend gives the same answers in every run whose calls meet a condition (`Request.Safe`):
a name that is not in its zone is asked for when nothing of that type is left over, a zone is listed behind
a search in it, and names come back from `labelReverse` as they were.
-/

namespace PowerDNS

open SortedRange GuardedRun AnsweringRun List

namespace Bind2Backend

/-! ### The handle -/

/-- `Bind2Backend::handle`. For a pair of iterators stand the elements between them. -/
structure Handle where
  d_records : Option (List Bind2DNSRecord) := none
  d_range : List Bind2DNSRecord := []
  d_qname_range : List Bind2DNSRecord := []
  d_list : Bool
  id : Int
  qname : Octets := []
  domain : Octets := []
  qtype : UInt16

/-- `handle::reset`. -/
def Handle.reset (h : Handle) : Handle := { h with d_records := none, qname := [] }

/-- What `get` writes into the record it is given. -/
def Bind2DNSRecord.answer (bdr : Bind2DNSRecord) (qname : Octets) (id : Int) (r : TextRR) : TextRR :=
  { r with
    qname, domain_id := id, content := bdr.content, qtype := bdr.qtype, ttl := bdr.ttl
    priority := bdr.priority, auth := bdr.auth }

/-- Whether a record is of the type that is asked for. -/
def Bind2DNSRecord.asked (qtype : UInt16) (bdr : Bind2DNSRecord) : Bool :=
  qtype == QType.ANY || bdr.qtype == qtype

/-- A name in a zone, in full. -/
def fullName (qname domain : Octets) : Octets := if qname = [] then domain else qname ++ dot :: domain

/-- `handle::get_normal`. -/
def Handle.get_normal (h : Handle) (r : TextRR) : Handle × Option TextRR :=
  match h.d_range.dropWhile fun bdr => !bdr.asked h.qtype with
  | [] => ({ h with d_range := [] }, none)
  | bdr :: rest => ({ h with d_range := rest }, some (bdr.answer (fullName h.qname h.domain) h.id r))

/-- `handle::get_list`. -/
def Handle.get_list (h : Handle) (r : TextRR) : Handle × Option TextRR :=
  match h.d_qname_range with
  | [] => (h, none)
  | bdr :: rest =>
    ({ h with d_qname_range := rest },
      some (bdr.answer (if bdr.qname = [] then h.domain else labelReverse bdr.qname ++ dot :: h.domain) h.id r))

/-- `handle::get`. -/
def Handle.get (h : Handle) (r : TextRR) : Handle × Option TextRR :=
  if h.d_list then h.get_list r else h.get_normal r

/-! ### The calls -/

/-- A backend: the zones, and its handle. -/
structure Backend where
  zones : Bind2
  d_handle : Handle

/-- What a call gives back. -/
inductive Reply
  | done
  /-- `lookup` throws: the zone is "temporarily not available". -/
  | unavailable (d_name d_filename : Octets)
  /-- A null pointer is followed. -/
  | crashed
  | listed (found : Bool)
  | got (r : Option TextRR)
  deriving DecidableEq

/-- `strcasecmp(a.c_str(), b.c_str()) == 0`. -/
def strcasecmpEq (a b : Octets) : Bool := toLower (a.takeWhile (· ≠ 0)) == toLower (b.takeWhile (· ≠ 0))

/-- The loop of `lookup` that looks for a zone; `turns` is a bound on the number of its turns. -/
def findZone (name_id_map : NameIdMap) : Nat → Octets → Option (Octets × Nat)
  | 0, domain => (name_id_map.find domain).map fun known => (domain, known.2)
  | turns + 1, domain =>
    match name_id_map.find domain with
    | some known => some (domain, known.2)
    | none =>
      match chopOff domain with
      | none => none
      | some rest => findZone name_id_map turns rest

/-- The name that is searched for in the zone. -/
def strippedName (qname domain : Octets) : Octets :=
  if domain = [] then qname
  else if strcasecmpEq qname domain then []
  else qname.take (qname.length - domain.length - 1)

/-- The zone `id`, which was found under `domain`: its records, read again if the file has changed; or its
name and file, if it is not loaded. -/
def openZone (disk : Disk) (domain : Octets) (id : Nat) (zones : Bind2) :
    Bind2 × Except (Octets × Octets) (Option (List Bind2DNSRecord)) :=
  let bbd := (zones.s_state.zone id).getD disk.freshZone
  let zones := { zones with s_state := zones.s_state.setZone id bbd }
  if !bbd.d_loaded then (zones, .error (bbd.d_name, bbd.d_filename))
  else
    let zones := if disk.current bbd then zones else queueReload disk domain zones
    (zones, .ok ((zones.s_state.zone id).getD disk.freshZone).d_records)

/-- `lookup(qtype, qname)`. -/
def lookup (disk : Disk) (qtype : UInt16) (qname : Octets) (s : Backend) : Backend × Reply :=
  let h := s.d_handle.reset
  match findZone s.zones.s_state.name_id_map qname.length (toLower qname) with
  | none => ({ s with d_handle := { h with d_list := false } }, .done)
  | some (domain, id) =>
    let h := { h with
      id, qname := strippedName qname domain, qtype, domain := qname.drop (qname.length - domain.length) }
    match openZone disk domain id s.zones with
    | (zones, .error bbd) => (⟨zones, h.reset⟩, .unavailable bbd.1 bbd.2)
    | (zones, .ok none) => (⟨zones, h⟩, .crashed)
    | (zones, .ok (some records)) =>
      let range := equalRange Bind2DNSRecord.place records (textKey (labelReverse (toLower h.qname)))
      let h := { h with d_records := some records, d_list := false }
      (⟨zones, if range = [] then h else { h with d_range := range }⟩, .done)

/-- `list(target, id)`; the target is not looked at. The ids of the zones have 32 bits. -/
def list (id : Int) (s : Backend) : Backend × Reply :=
  match s.zones.s_state.zone (id % 2 ^ 32).toNat with
  | none => (s, .listed false)
  | some bbd =>
    let h := { s.d_handle.reset with d_records := bbd.d_records }
    match bbd.d_records with
    | none => ({ s with d_handle := h }, .crashed)
    | some records =>
      ({ s with d_handle := { h with d_qname_range := records, id, d_list := true } }, .listed true)

/-- `get(r)`. -/
def get (r : TextRR) (s : Backend) : Backend × Reply :=
  match s.d_handle.d_records with
  | none => (s, .got none)
  | some _ =>
    match s.d_handle.get r with
    | (h, none) => ({ s with d_handle := h.reset }, .got none)
    | (h, some r) => ({ s with d_handle := h }, .got (some r))

/-- A call, or what others do to the zones. -/
inductive Request
  | lookup (disk : Disk) (qtype : UInt16) (qname : Octets)
  | list (target : Octets) (id : Int)
  | get (r : TextRR)
  | others (zones : Bind2)

/-- A step of the backend. -/
def call (s : Backend) : Request → Backend × Reply
  | .lookup disk qtype qname => lookup disk qtype qname s
  | .list _ id => list id s
  | .get r => get r s
  | .others zones => ({ s with zones }, .done)

/-! ### The measure -/

/-- The texts behind the dots of a text. -/
def behindDots : Octets → List Octets
  | [] => []
  | c :: t => if c = dot then t :: behindDots t else behindDots t

/-- The texts that a text ends in: itself, those behind its dots, and the empty one. -/
def tailsOf (t : Octets) : List Octets := t :: behindDots t ++ [[]]

/-- The zone with the longest name of which a name is at or below, and its id. -/
def bestZone (name_id_map : NameIdMap) (qname : Octets) : Option (Octets × Nat) :=
  ((tailsOf qname).filter fun z => AtOrBelow qname z).findSome? fun z =>
    (name_id_map.find z).map fun known => (z, known.2)

/-- A record to give, with its name in full and the id of its zone. -/
structure Answer where
  qname : Octets
  id : Int
  record : Bind2DNSRecord
  deriving DecidableEq

def Answer.lower (a : Answer) : Answer := { a with qname := toLower a.qname }

/-- A cursor that has the records it still has to give. -/
structure Ideal where
  zones : Bind2
  left : List Answer

namespace Ideal

/-- The records of the best matching zone that have the name and the type. -/
def lookup (disk : Disk) (qtype : UInt16) (qname : Octets) (s : Ideal) : Ideal × Reply :=
  match bestZone s.zones.s_state.name_id_map (toLower qname) with
  | none => ({ s with left := [] }, .done)
  | some (zone, id) =>
    match openZone disk zone id s.zones with
    | (zones, .error bbd) => (⟨zones, []⟩, .unavailable bbd.1 bbd.2)
    | (zones, .ok none) => (⟨zones, []⟩, .crashed)
    | (zones, .ok (some records)) =>
      (⟨zones, (records.filter fun bdr => toLower (bdr.owner zone) = toLower qname ∧ bdr.asked qtype).map
        fun bdr => ⟨qname, id, bdr⟩⟩, .done)

/-- All records of a zone. -/
def list (id : Int) (s : Ideal) : Ideal × Reply :=
  match s.zones.s_state.zone (id % 2 ^ 32).toNat with
  | none => ({ s with left := [] }, .listed false)
  | some bbd =>
    match bbd.d_records with
    | none => ({ s with left := [] }, .crashed)
    | some records =>
      ({ s with left := records.map fun bdr => ⟨bdr.owner bbd.d_name, id, bdr⟩ }, .listed true)

def get (r : TextRR) (s : Ideal) : Ideal × Reply :=
  match s.left with
  | [] => (s, .got none)
  | a :: left => ({ s with left }, .got (some (a.record.answer a.qname a.id r)))

def call (s : Ideal) : Request → Ideal × Reply
  | .lookup disk qtype qname => s.lookup disk qtype qname
  | .list _ id => s.list id
  | .get r => s.get r
  | .others zones => ({ s with zones }, .done)

end Ideal

/-- A reply up to the case of the name in it. -/
def Reply.lower : Reply → Reply
  | .got (some r) => .got (some { r with qname := toLower r.qname })
  | reply => reply

/-! ### The condition -/

/-- Names that come back from `labelReverse`: they have no blanks beside their dots, and no empty labels. -/
def Reversible (t : Octets) : Prop := labelReverse (labelReverse t) = t

instance (t : Octets) : Decidable (Reversible t) := inferInstanceAs (Decidable (_ = _))

/-- The names of the records are as `insert` stores them: in lower case, and reversed. -/
def StoredNames (records : List Bind2DNSRecord) : Prop :=
  ∀ bdr ∈ records, toLower bdr.qname = bdr.qname ∧ Reversible bdr.qname

instance (records : List Bind2DNSRecord) : Decidable (StoredNames records) :=
  inferInstanceAs (Decidable (∀ _ ∈ _, _))

/-- What the handle still has to give. -/
def Handle.left (h : Handle) : List Answer :=
  match h.d_records with
  | none => []
  | some _ =>
    if h.d_list then
      h.d_qname_range.map fun bdr =>
        ⟨if bdr.qname = [] then h.domain else labelReverse bdr.qname ++ dot :: h.domain, h.id, bdr⟩
    else (h.d_range.filter (Bind2DNSRecord.asked h.qtype)).map fun bdr => ⟨fullName h.qname h.domain, h.id, bdr⟩

/-- A zone that is known under what comes behind an escaped dot does not hide one above the name. -/
def ZoneAbove (name_id_map : NameIdMap) (qname : Octets) : Prop :=
  ∀ z ∈ tailsOf qname, name_id_map.find z ≠ none →
    ∃ z' ∈ tailsOf qname, AtOrBelow qname z' ∧ name_id_map.find z' ≠ none ∧ z.length ≤ z'.length

/-- **When a search in a zone comes out right**, for a zone that is known under `zone` and has these records;
`d_range` is what an earlier search has left over. -/
structure SearchedRight (d_range : List Bind2DNSRecord) (qtype : UInt16) (qname zone : Octets)
    (records : List Bind2DNSRecord) : Prop where
  ordered : Ascending Bind2DNSRecord.place records
  stored : StoredNames records
  /-- The name is not taken for that of the zone because of a NUL in it. -/
  whole : strcasecmpEq qname zone = true → qname.length = zone.length
  /-- If nothing is stored under the name, no record of the type is left over. -/
  nothing_left : (∀ bdr ∈ records, bdr.qname ≠ labelReverse (toLower (strippedName qname zone))) →
    ∀ bdr ∈ d_range, bdr.asked qtype = false
  /-- If there is something to give, the zone is not the root zone, and the name comes back from
  `labelReverse`. -/
  spelled : (∃ bdr ∈ records, bdr.qname = labelReverse (toLower (strippedName qname zone)) ∧
      bdr.asked qtype = true) →
    (zone = [] → qname = []) ∧ qname.head? ≠ some dot ∧ Reversible (toLower (strippedName qname zone))

/-- **When a listing comes out right**: there is nothing to give, or the zone was the last one that was
searched, and it is not the root zone, or has nothing below its apex. -/
def ListedRight (domain d_name : Octets) (records : List Bind2DNSRecord) : Prop :=
  records = [] ∨ StoredNames records ∧ toLower domain = toLower d_name ∧
    (d_name = [] → ∀ bdr ∈ records, bdr.qname = [])

/-- The condition on a search, for what `openZone` gives; a zone that is loaded has its records. -/
def OpenedRight (d_range : List Bind2DNSRecord) (qtype : UInt16) (qname zone : Octets) :
    Except (Octets × Octets) (Option (List Bind2DNSRecord)) → Prop
  | .error _ => True
  | .ok none => False
  | .ok (some records) => SearchedRight d_range qtype qname zone records

/-- The condition on a listing, for the zone that has the id. If there is none, nothing must be left over. -/
def FoundRight (h : Handle) : Option BB2DomainInfo → Prop
  | none => h.left = []
  | some bbd => ∃ records ∈ bbd.d_records, ListedRight h.domain bbd.d_name records

/-- The condition on a call. -/
def Request.Safe (s : Backend) : Request → Prop
  | .lookup disk qtype qname =>
    ZoneAbove s.zones.s_state.name_id_map (toLower qname) ∧
    ∀ known ∈ bestZone s.zones.s_state.name_id_map (toLower qname),
      OpenedRight s.d_handle.d_range qtype qname known.1 (openZone disk known.1 known.2 s.zones).2
  | .list _ id => FoundRight s.d_handle (s.zones.s_state.zone (id % 2 ^ 32).toNat)
  | .get _ => True
  | .others _ => True

/-! ### Zones -/

section Zones

variable {name_id_map : NameIdMap} {t z : Octets}

theorem mem_behindDots : z ∈ behindDots t ↔ ∃ p, t = p ++ dot :: z := by
  induction t with
  | nil => simp [behindDots]
  | cons c t ih =>
    have hcut : (∃ p, c :: t = p ++ dot :: z) ↔ (c = dot ∧ t = z) ∨ ∃ p, t = p ++ dot :: z := by
      constructor
      · rintro ⟨_ | ⟨d, p⟩, heq⟩
        · obtain ⟨rfl, rfl⟩ := List.cons.inj heq
          exact .inl ⟨rfl, rfl⟩
        · exact .inr ⟨p, (List.cons.inj heq).2⟩
      · rintro (⟨rfl, rfl⟩ | ⟨p, rfl⟩)
        · exact ⟨[], rfl⟩
        · exact ⟨c :: p, rfl⟩
    rw [hcut, behindDots]
    split
    · next hc => simp [ih, hc, eq_comm]
    · next hc => simp [ih, hc]

theorem mem_tailsOf : z ∈ tailsOf t ↔ z = t ∨ z = [] ∨ ∃ p, t = p ++ dot :: z := by
  unfold tailsOf
  rw [mem_append, mem_cons, mem_behindDots, mem_singleton]
  tauto

theorem suffix_of_mem_tailsOf (h : z ∈ tailsOf t) : z <:+ t := by
  rcases mem_tailsOf.mp h with rfl | rfl | ⟨p, rfl⟩
  · exact suffix_refl _
  · exact nil_suffix
  · exact ⟨p ++ [dot], by simp⟩

theorem behindDots_dropWhile (t : Octets) : behindDots (t.dropWhile (· ≠ dot)) = behindDots t := by
  induction t with
  | nil => rfl
  | cons c t ih =>
    by_cases hc : c = dot
    · rw [dropWhile_cons_of_neg (by simpa using hc)]
    · rw [dropWhile_cons_of_pos (by simpa using hc), ih, behindDots, if_neg hc]

/-- Chopping a label off leaves a shorter text that ends in the same texts, the whole one left out. -/
theorem tailsOf_chopOff {rest : Octets} (h : chopOff t = some rest) :
    rest.length < t.length ∧ ∀ z, z ∈ tailsOf t ↔ z = t ∨ z ∈ tailsOf rest := by
  unfold chopOff at h
  split at h
  · cases h
  next hne =>
    obtain rfl := Option.some.inj h
    have htails := behindDots_dropWhile t
    have hle := (dropWhile_sublist (· ≠ dot) (l := t)).length_le
    cases hdrop : t.dropWhile (· ≠ dot) with
    | nil =>
      rw [hdrop] at htails
      refine ⟨length_pos_iff.mpr hne, fun z => ?_⟩
      unfold tailsOf
      rw [← htails]
      simp [behindDots]
    | cons c rest =>
      have hc : c = dot := by
        have hnot := head?_dropWhile_not (fun c => decide (c ≠ dot)) t
        rw [hdrop] at hnot
        simpa using hnot
      rw [hdrop] at hle htails
      rw [behindDots, if_pos hc] at htails
      refine ⟨Nat.lt_of_succ_le hle, fun z => ?_⟩
      unfold tailsOf
      rw [← htails]
      simp

/-- The names in the order in which they are looked for: none is longer than one in front of it. -/
theorem pairwise_tailsOf (t : Octets) : (tailsOf t).Pairwise fun a b => b.length ≤ a.length := by
  have hbehind : (behindDots t).Pairwise fun a b => b.length ≤ a.length := by
    induction t with
    | nil => exact List.Pairwise.nil
    | cons c t ih =>
      rw [behindDots]
      split
      · refine pairwise_cons.mpr ⟨fun z hz => ?_, ih⟩
        exact (suffix_of_mem_tailsOf (mem_tailsOf.mpr (.inr (.inr (mem_behindDots.mp hz))))).length_le
      · exact ih
  unfold tailsOf
  rw [pairwise_append, pairwise_cons]
  refine ⟨⟨fun z hz => ?_, hbehind⟩, pairwise_singleton _ _, fun a _ b hb => ?_⟩
  · exact (suffix_of_mem_tailsOf (mem_tailsOf.mpr (.inr (.inr (mem_behindDots.mp hz))))).length_le
  · rw [mem_singleton.mp hb]
    exact Nat.zero_le _

/-- What a search for a zone gives: the zone is known under one of the names, and under no longer one. -/
structure LongestOf (name_id_map : NameIdMap) (names : List Octets) (zone : Octets) (id : Nat) : Prop where
  mem : zone ∈ names
  known : ∃ n, name_id_map.find zone = some (n, id)
  longest : ∀ z ∈ names, name_id_map.find z ≠ none → z.length ≤ zone.length

/-- A search for the zone with the longest of these names. -/
structure Searches (name_id_map : NameIdMap) (names : List Octets) (r : Option (Octets × Nat)) : Prop where
  none : r = none → ∀ z ∈ names, name_id_map.find z = none
  some : ∀ zone id, r = some (zone, id) → LongestOf name_id_map names zone id

theorem searches_findZone {turns : Nat} (h : t.length ≤ turns) :
    Searches name_id_map (tailsOf t) (findZone name_id_map turns t) := by
  induction turns generalizing t with
  | zero =>
    obtain rfl := length_eq_zero_iff.mp (Nat.le_zero.mp h)
    rw [findZone]
    cases hfind : name_id_map.find [] with
    | some known =>
      refine ⟨fun h => (by cases h), fun zone id h => ?_⟩
      obtain ⟨rfl, rfl⟩ := Prod.mk.inj (Option.some.inj h)
      exact ⟨by simp [tailsOf], ⟨known.1, hfind⟩, fun z hz _ => (suffix_of_mem_tailsOf hz).length_le⟩
    | none =>
      refine ⟨fun _ z hz => ?_, fun zone id h => by cases h⟩
      rwa [suffix_nil.mp (suffix_of_mem_tailsOf hz)]
  | succ turns ih =>
    rw [findZone]
    cases hfind : name_id_map.find t with
    | some known =>
      refine ⟨fun h => (by cases h), fun zone id h => ?_⟩
      obtain ⟨rfl, rfl⟩ := Prod.mk.inj (Option.some.inj h)
      exact ⟨mem_tailsOf.mpr (.inl rfl), ⟨known.1, hfind⟩,
        fun z hz _ => (suffix_of_mem_tailsOf hz).length_le⟩
    | none =>
      cases hchop : chopOff t with
      | none =>
        obtain rfl : t = [] := by
          unfold chopOff at hchop
          by_contra hne
          rw [if_neg hne] at hchop
          cases hchop
        refine ⟨fun _ z hz => ?_, fun zone id h => by cases h⟩
        rwa [suffix_nil.mp (suffix_of_mem_tailsOf hz)]
      | some rest =>
        obtain ⟨hlt, htails⟩ := tailsOf_chopOff hchop
        obtain ⟨hnone, hsome⟩ := ih (Nat.le_of_lt_succ (Nat.lt_of_lt_of_le hlt h))
        refine ⟨fun h z hz => ?_, fun zone id h => ?_⟩
        · rcases (htails z).mp hz with rfl | hz
          · exact hfind
          · exact hnone h z hz
        · obtain ⟨hmem, hknown, hlongest⟩ := hsome zone id h
          refine ⟨(htails zone).mpr (.inr hmem), hknown, fun z hz hz' => ?_⟩
          rcases (htails z).mp hz with rfl | hz
          · exact absurd hfind hz'
          · exact hlongest z hz hz'

theorem searches_findSome {names : List Octets} (h : names.Pairwise fun a b => b.length ≤ a.length) :
    Searches name_id_map names
      (names.findSome? fun z => (name_id_map.find z).map fun known => (z, known.2)) := by
  induction names with
  | nil => exact ⟨fun _ z hz => absurd hz not_mem_nil, fun zone id h => (by cases h)⟩
  | cons z names ih =>
    obtain ⟨hfirst, hlater⟩ := pairwise_cons.mp h
    obtain ⟨hnone, hsome⟩ := ih hlater
    rw [findSome?_cons]
    cases hfind : name_id_map.find z with
    | some known =>
      refine ⟨fun h => (by cases h), fun zone id h => ?_⟩
      obtain ⟨rfl, rfl⟩ := Prod.mk.inj (Option.some.inj h)
      refine ⟨mem_cons_self, ⟨known.1, hfind⟩, fun z' hz' _ => ?_⟩
      rcases mem_cons.mp hz' with rfl | hz'
      · exact le_rfl
      · exact hfirst z' hz'
    | none =>
      refine ⟨fun h z' hz' => ?_, fun zone id h => ?_⟩
      · rcases mem_cons.mp hz' with rfl | hz'
        · exact hfind
        · exact hnone h z' hz'
      · obtain ⟨hmem, hknown, hlongest⟩ := hsome zone id h
        refine ⟨mem_cons_of_mem z hmem, hknown, fun z' hz' hknown' => ?_⟩
        rcases mem_cons.mp hz' with rfl | hz'
        · exact absurd hfind hknown'
        · exact hlongest z' hz' hknown'

/-- **The best matching zone** is one of those above the name, and none of these has a longer name. -/
theorem searches_bestZone (name_id_map : NameIdMap) (qname : Octets) :
    Searches name_id_map ((tailsOf qname).filter fun z => AtOrBelow qname z) (bestZone name_id_map qname) :=
  searches_findSome ((pairwise_tailsOf qname).filter _)

/-- The zone that is found is the best matching one. -/
theorem findZone_eq (h : ZoneAbove name_id_map t) : findZone name_id_map t.length t = bestZone name_id_map t := by
  obtain ⟨hnone, hsome⟩ := @searches_findZone name_id_map t t.length le_rfl
  obtain ⟨hnone', hsome'⟩ := searches_bestZone name_id_map t
  have habove : ∀ {z}, z ∈ tailsOf t → AtOrBelow t z →
      z ∈ (tailsOf t).filter fun z => AtOrBelow t z := fun hz hbelow =>
    mem_filter.mpr ⟨hz, decide_eq_true hbelow⟩
  cases hbest : bestZone name_id_map t with
  | none =>
    cases hfound : findZone name_id_map t.length t with
    | none => rfl
    | some found =>
      obtain ⟨hmem, ⟨n, hknown⟩, -⟩ := hsome found.1 found.2 hfound
      obtain ⟨z', hz', hbelow, hknown', -⟩ := h found.1 hmem (by simp [hknown])
      exact absurd (hnone' hbest z' (habove hz' hbelow)) hknown'
  | some best =>
    obtain ⟨hmem, ⟨n, hknown⟩, hlongest⟩ := hsome' best.1 best.2 hbest
    have hmem' := (mem_filter.mp hmem).1
    cases hfound : findZone name_id_map t.length t with
    | none =>
      rw [hnone hfound best.1 hmem'] at hknown
      cases hknown
    | some found =>
      obtain ⟨hfmem, ⟨n', hknown'⟩, hflongest⟩ := hsome found.1 found.2 hfound
      obtain ⟨z', hz', hbelow, hz'known, hle⟩ := h found.1 hfmem (by simp [hknown'])
      -- both are as long, and texts that this one ends in
      have hlength : best.1.length = found.1.length :=
        le_antisymm (hflongest best.1 hmem' (by simp [hknown]))
          (hle.trans (hlongest z' (habove hz' hbelow) hz'known))
      have hname : best.1 = found.1 :=
        (suffix_of_suffix_length_le (suffix_of_mem_tailsOf hmem') (suffix_of_mem_tailsOf hfmem)
          hlength.le).eq_of_length hlength
      rw [hname, hknown'] at hknown
      exact congrArg some (Prod.ext hname.symm (Prod.mk.inj (Option.some.inj hknown)).2)

end Zones

/-! ### Names -/

section Names

variable {t qname zone : Octets} {bdr : Bind2DNSRecord}

theorem stringtokOnLoop_toLower {delimiters : Octets}
    (h : ∀ c, dnsTolower c ∈ delimiters ↔ c ∈ delimiters) (cur s : Octets) :
    stringtokOnLoop delimiters (toLower cur) (toLower s) = lowerLabels (stringtokOnLoop delimiters cur s) := by
  induction s generalizing cur with
  | nil =>
    rw [toLower_nil, stringtokOnLoop, stringtokOnLoop]
    simp only [toLower_eq_nil]
    split
    · rfl
    · rfl
  | cons c s ih =>
    have hsnoc : toLower cur ++ [dnsTolower c] = toLower (cur ++ [c]) := by simp
    rw [toLower_cons, stringtokOnLoop, stringtokOnLoop]
    simp only [h, toLower_eq_nil]
    split
    · split
      · exact ih []
      · exact congrArg (toLower cur :: ·) (ih [])
    · rw [hsnoc, ih]

theorem dotLabels_toLower (t : Octets) : dotLabels (toLower t) = lowerLabels (dotLabels t) := by
  refine stringtokOnLoop_toLower (fun c => ?_) [] t
  simp [dnsTolower_eq_blank]

/-- A name can be reversed in any case. -/
theorem labelReverse_toLower (t : Octets) : labelReverse (toLower t) = toLower (labelReverse t) := by
  have hdot : dot ∈ toLower t ↔ dot ∈ t := by
    rw [toLower, mem_map]
    constructor
    · rintro ⟨c, hc, hlower⟩
      exact (dnsTolower_eq_dot c).mp hlower ▸ hc
    · exact fun h => ⟨dot, h, rfl⟩
  have hlength : (lowerLabels (dotLabels t)).length = (dotLabels t).length := length_map _
  unfold labelReverse
  rw [dotLabels_toLower, hlength]
  simp only [toLower_eq_nil, hdot]
  split
  · rfl
  · split
    · rfl
    · have hreverse : lowerLabels (dotLabels t).reverse = (lowerLabels (dotLabels t)).reverse :=
        map_reverse
      split
      · rw [toLower_joinWith (by decide), hreverse]
      · rw [toLower_joinWith (by decide), hreverse]

theorem toLower_takeWhile (t : Octets) :
    (toLower t).takeWhile (· ≠ 0) = toLower (t.takeWhile (· ≠ 0)) := by
  have hzero : ∀ c, dnsTolower c = 0 ↔ c = 0 := by
    intro c
    unfold dnsTolower
    split
    · grind
    · rfl
  unfold toLower
  rw [takeWhile_map]
  congr 2
  funext c
  simp [hzero]

/-- A name and the same in lower case. -/
theorem strcasecmpEq_toLower (t : Octets) : strcasecmpEq t (toLower t) = true := by
  unfold strcasecmpEq
  rw [toLower_takeWhile, toLower_toLower]
  exact beq_self_eq_true _

section Zone

variable (hzone : zone ∈ tailsOf (toLower qname))
include hzone

/-- What is searched for in the root zone, for the apex of another one, and for a name below it. -/
theorem strippedName_cases (hwhole : strcasecmpEq qname zone = true → qname.length = zone.length) :
    (zone = [] ∧ strippedName qname zone = qname) ∨
    (zone ≠ [] ∧ zone = toLower qname ∧ strippedName qname zone = []) ∨
    (zone ≠ [] ∧ ∃ p, toLower qname = p ++ dot :: zone ∧ toLower (strippedName qname zone) = p) := by
  unfold strippedName
  by_cases hroot : zone = []
  · exact .inl ⟨hroot, if_pos hroot⟩
  rw [if_neg hroot]
  have hlength : (toLower qname).length = qname.length := length_map _
  rcases (mem_tailsOf.mp hzone).imp_right (·.resolve_left hroot) with heq | ⟨p, hcut⟩
  · refine .inr (.inl ⟨hroot, heq, ?_⟩)
    rw [if_pos (heq ▸ strcasecmpEq_toLower qname)]
  · have hlengths := congrArg List.length hcut
    rw [hlength, length_append, length_cons] at hlengths
    refine .inr (.inr ⟨hroot, p, hcut, ?_⟩)
    rw [if_neg fun h => ?_]
    · have htake : toLower (qname.take (qname.length - zone.length - 1)) =
          (toLower qname).take (qname.length - zone.length - 1) := map_take
      rw [htake, hcut, show qname.length - zone.length - 1 = p.length by omega, take_left']
      rfl
    · have := hwhole h
      omega

theorem toLower_zone : toLower zone = zone := by
  obtain ⟨p, hp⟩ := suffix_of_mem_tailsOf hzone
  have hlower := congrArg toLower hp
  rw [toLower_toLower, ← hp, toLower_append] at hlower
  exact (append_inj' hlower (by simp [toLower])).2

theorem toLower_drop : toLower (qname.drop (qname.length - zone.length)) = zone := by
  have hdrop : toLower (qname.drop (qname.length - zone.length)) =
      (toLower qname).drop (qname.length - zone.length) := map_drop
  have hsuffix := suffix_iff_eq_drop.mp (suffix_of_mem_tailsOf hzone)
  rw [show (toLower qname).length = qname.length from length_map _] at hsuffix
  rw [hdrop, ← hsuffix]

/-- A record that has the asked name is stored under what is searched for. -/
theorem stored_of_owner (hwhole : strcasecmpEq qname zone = true → qname.length = zone.length)
    (hstored : toLower bdr.qname = bdr.qname ∧ Reversible bdr.qname)
    (howner : toLower (bdr.owner zone) = toLower qname) :
    bdr.qname = labelReverse (toLower (strippedName qname zone)) := by
  rw [Bind2DNSRecord.owner, toLower_dotConcat, ← labelReverse_toLower, hstored.1, toLower_zone hzone] at howner
  suffices hname : labelReverse bdr.qname = toLower (strippedName qname zone) by
    rw [← hname, hstored.2]
  rcases strippedName_cases hzone hwhole with ⟨rfl, hname⟩ | ⟨hroot, rfl, hname⟩ | ⟨hroot, p, hcut, hname⟩
  · rwa [dotConcat, if_pos (.inr rfl), append_nil, ← hname] at howner
  · rw [hname, toLower_nil]
    by_contra hne
    rw [dotConcat, if_neg (not_or.mpr ⟨hne, hroot⟩)] at howner
    have hlengths := congrArg List.length howner
    simp only [length_append, length_cons] at hlengths
    omega
  · rw [hcut, dotConcat] at howner
    rw [hname]
    split at howner
    · next hnil =>
      rw [hnil.resolve_right hroot] at howner
      have hlengths := congrArg List.length howner
      simp only [nil_append, length_append, length_cons] at hlengths
      omega
    · exact append_cancel_right howner

/-- What is searched for, in full. -/
theorem fullName_strippedName (hwhole : strcasecmpEq qname zone = true → qname.length = zone.length)
    (hroot : zone = [] → qname = []) (hhead : qname.head? ≠ some dot) :
    dotConcat (toLower (strippedName qname zone)) zone = toLower qname ∧
      toLower (fullName (strippedName qname zone) (qname.drop (qname.length - zone.length))) = toLower qname := by
  have hdomain := toLower_drop hzone
  rcases strippedName_cases hzone hwhole with ⟨rfl, hname⟩ | ⟨hne, hcut, hname⟩ | ⟨hne, p, hcut, hname⟩
  · rw [hname, hroot rfl]
    exact ⟨rfl, rfl⟩
  · rw [hname, fullName, if_pos rfl, hdomain]
    exact ⟨hcut, hcut⟩
  · have hp : p ≠ [] := by
      rintro rfl
      cases qname with
      | nil => cases hcut
      | cons c t => exact hhead (congrArg some ((dnsTolower_eq_dot c).mp (List.cons.inj hcut).1))
    have hstripped : strippedName qname zone ≠ [] := fun h => hp (by rw [← hname, h]; rfl)
    rw [hname, dotConcat, if_neg (not_or.mpr ⟨hp, hne⟩), fullName, if_neg hstripped, toLower_append,
      toLower_cons, hname, hdomain]
    exact ⟨hcut.symm, hcut.symm⟩

/-- What is stored under what is searched for has the asked name. -/
theorem owner_of_stored (hwhole : strcasecmpEq qname zone = true → qname.length = zone.length)
    (hroot : zone = [] → qname = []) (hhead : qname.head? ≠ some dot)
    (hreverse : Reversible (toLower (strippedName qname zone)))
    (hstored : bdr.qname = labelReverse (toLower (strippedName qname zone))) :
    toLower (bdr.owner zone) = toLower qname := by
  rw [Bind2DNSRecord.owner, toLower_dotConcat, hstored, hreverse, toLower_toLower, toLower_zone hzone]
  exact (fullName_strippedName hzone hwhole hroot hhead).1

end Zone

end Names

/-! ### One call -/

section Calls

variable {s : Backend} {t : Ideal} {h : Handle} {records : List Bind2DNSRecord}

@[simp] theorem lower_answer (a : Answer) (r : TextRR) :
    (Reply.got (some (a.record.answer a.qname a.id r))).lower =
      .got (some (a.lower.record.answer a.lower.qname a.lower.id r)) := rfl

/-- What `get` gives is the first of what is left. -/
theorem get_left (hrecords : h.d_records ≠ none) (r : TextRR) :
    (h.left = [] ∧ (h.get r).2 = none) ∨
      ∃ a left, h.left = a :: left ∧ (h.get r).2 = some (a.record.answer a.qname a.id r) ∧
        (h.get r).1.left = left := by
  obtain ⟨records, hrecords⟩ := Option.ne_none_iff_exists'.mp hrecords
  unfold Handle.left Handle.get
  rw [hrecords]
  cases hlist : h.d_list with
  | true =>
    rw [if_pos rfl, if_pos rfl, Handle.get_list]
    cases hrange : h.d_qname_range with
    | nil => exact .inl ⟨rfl, rfl⟩
    | cons bdr rest => exact .inr ⟨_, _, rfl, rfl, by simp [hrecords, hlist]⟩
  | false =>
    rw [if_neg Bool.false_ne_true, if_neg Bool.false_ne_true, Handle.get_normal]
    have hskip : ∀ l : List Bind2DNSRecord, l.filter (Bind2DNSRecord.asked h.qtype) =
        (l.dropWhile fun bdr => !bdr.asked h.qtype).filter (Bind2DNSRecord.asked h.qtype) := by
      intro l
      induction l with
      | nil => rfl
      | cons bdr l ih =>
        cases hasked : bdr.asked h.qtype with
        | true => rw [dropWhile_cons_of_neg (by simp [hasked])]
        | false =>
          rw [dropWhile_cons_of_pos (by simp [hasked]), filter_cons_of_neg (by simp [hasked]), ih]
    rw [hskip h.d_range]
    cases hdrop : h.d_range.dropWhile fun bdr => !bdr.asked h.qtype with
    | nil => exact .inl ⟨rfl, rfl⟩
    | cons bdr rest =>
      have hasked : bdr.asked h.qtype = true := by
        have hnot := head?_dropWhile_not (fun bdr : Bind2DNSRecord => !bdr.asked h.qtype) h.d_range
        rw [hdrop] at hnot
        simpa using hnot
      rw [filter_cons_of_pos hasked]
      exact .inr ⟨_, _, rfl, rfl, by simp [hrecords, hlist]⟩

/-- A listing that comes out right gives the names of the records. -/
theorem listed_owner {domain d_name : Octets} (hright : ListedRight domain d_name records)
    {bdr : Bind2DNSRecord} (hbdr : bdr ∈ records) :
    toLower (if bdr.qname = [] then domain else labelReverse bdr.qname ++ dot :: domain) =
      toLower (bdr.owner d_name) := by
  rcases hright with rfl | ⟨hstored, hdomain, hroot⟩
  · cases hbdr
  rw [Bind2DNSRecord.owner]
  split
  · next hnil =>
    rw [hnil, hdomain]
    exact congrArg toLower (dotConcat_nil d_name).symm
  · next hne =>
    have hreverse : labelReverse bdr.qname ≠ [] := fun h => hne (by
      rw [← (hstored bdr hbdr).2, h]
      rfl)
    rw [dotConcat, if_neg (not_or.mpr ⟨hreverse, fun h => hne (hroot h bdr hbdr)⟩), toLower_append,
      toLower_append, toLower_cons, toLower_cons, hdomain]

/-- A search that comes out right leaves what is asked for. -/
theorem searched_left {qtype : UInt16} {qname zone : Octets} {id : Nat} (hzone : zone ∈ tailsOf (toLower qname))
    (hright : SearchedRight h.d_range qtype qname zone records) (hnormal : h.d_list = false)
    (hrecords : h.d_records = some records) (hid : h.id = id) (hqname : h.qname = strippedName qname zone)
    (hqtype : h.qtype = qtype) (hdomain : h.domain = qname.drop (qname.length - zone.length)) :
    (if equalRange Bind2DNSRecord.place records (textKey (labelReverse (toLower h.qname))) = [] then h
      else { h with
        d_range := equalRange Bind2DNSRecord.place records
          (textKey (labelReverse (toLower h.qname))) }).left.map Answer.lower =
    ((records.filter fun bdr => toLower (bdr.owner zone) = toLower qname ∧ bdr.asked qtype).map
      fun bdr => (⟨qname, id, bdr⟩ : Answer)).map Answer.lower := by
  obtain ⟨hordered, hstored, hwhole, hnothing, hspelled⟩ := hright
  have hrange : equalRange Bind2DNSRecord.place records (textKey (labelReverse (toLower h.qname))) =
      records.filter fun bdr => bdr.qname = labelReverse (toLower (strippedName qname zone)) := by
    rw [equalRange_eq_filter hordered, hqname]
    exact filter_congr fun bdr _ => decide_eq_decide.mpr textKey_inj
  have howner : ∀ bdr ∈ records, toLower (bdr.owner zone) = toLower qname →
      bdr.qname = labelReverse (toLower (strippedName qname zone)) := fun bdr hbdr =>
    stored_of_owner hzone hwhole (hstored bdr hbdr)
  rw [hrange]
  by_cases hfound : ∃ bdr ∈ records, bdr.qname = labelReverse (toLower (strippedName qname zone)) ∧
      bdr.asked qtype = true
  · -- what is stored under the name has the name
    obtain ⟨hroot, hhead, hreverse⟩ := hspelled hfound
    obtain ⟨first, hfirst, hplace, -⟩ := hfound
    have hne : (records.filter fun bdr =>
        decide (bdr.qname = labelReverse (toLower (strippedName qname zone)))) ≠ [] :=
      ne_nil_of_mem (mem_filter.mpr ⟨hfirst, decide_eq_true hplace⟩)
    rw [if_neg hne, Handle.left]
    rw [hrecords, hnormal, hqtype, hid, hqname, hdomain]
    rw [if_neg Bool.false_ne_true, filter_filter, map_map, map_map]
    have hname := (fullName_strippedName hzone hwhole hroot hhead).2
    have hsame : records.filter (fun bdr => bdr.asked qtype &&
        decide (bdr.qname = labelReverse (toLower (strippedName qname zone)))) =
        records.filter fun bdr => toLower (bdr.owner zone) = toLower qname ∧ bdr.asked qtype := by
      refine filter_congr fun bdr hbdr => ?_
      rw [Bool.eq_iff_iff, Bool.and_eq_true, decide_eq_true_iff, decide_eq_true_iff, and_comm]
      exact and_congr_left fun _ =>
        ⟨owner_of_stored hzone hwhole hroot hhead hreverse, howner bdr hbdr⟩
    rw [hsame]
    exact map_congr_left fun bdr _ => congrArg (Answer.mk · id bdr) hname
  · -- nothing is stored there that is asked for
    have hideal : (records.filter fun bdr => toLower (bdr.owner zone) = toLower qname ∧ bdr.asked qtype) = [] :=
      filter_eq_nil_iff.mpr fun bdr hbdr hmem =>
        hfound ⟨bdr, hbdr, howner bdr hbdr (of_decide_eq_true hmem).1, (of_decide_eq_true hmem).2⟩
    rw [hideal, map_nil, map_nil, map_eq_nil_iff]
    split
    · next hnil =>
      have hleft : h.d_range.filter (Bind2DNSRecord.asked qtype) = [] :=
        filter_eq_nil_iff.mpr fun bdr hbdr => by
          rw [hnothing (fun bdr hbdr => by simpa using filter_eq_nil_iff.mp hnil bdr hbdr) bdr hbdr]
          exact Bool.false_ne_true
      rw [Handle.left, hrecords, hnormal, hqtype]
      rw [if_neg Bool.false_ne_true, hleft, map_nil]
    · rw [Handle.left]
      rw [hrecords, hnormal, hqtype]
      rw [if_neg Bool.false_ne_true, filter_filter, map_eq_nil_iff]
      refine filter_eq_nil_iff.mpr fun bdr hbdr hmem => ?_
      obtain ⟨hasked, hplace⟩ := Bool.and_eq_true_iff.mp hmem
      exact hfound ⟨bdr, hbdr, of_decide_eq_true hplace, hasked⟩

/-- The zones are the same, and what is left to give is the same up to the case of the names. -/
def Matches (s : Backend) (t : Ideal) : Prop :=
  s.zones = t.zones ∧ s.d_handle.left.map Answer.lower = t.left.map Answer.lower

theorem get_matches (hR : Matches s t) (r : TextRR) :
    (get r s).2.lower = (t.get r).2.lower ∧ Matches (get r s).1 (t.get r).1 := by
  obtain ⟨hzones, hleft⟩ := hR
  have hnothing : s.d_handle.left = [] → t.get r = (t, .got none) := by
    intro hnil
    rw [hnil, map_nil] at hleft
    rw [Ideal.get, map_eq_nil_iff.mp hleft.symm]
  unfold get
  cases hrecords : s.d_handle.d_records with
  | none =>
    have hnil : s.d_handle.left = [] := by rw [Handle.left, hrecords]
    rw [hnothing hnil]
    exact ⟨rfl, hzones, hleft⟩
  | some records =>
    rcases get_left (by rw [hrecords]; exact Option.some_ne_none _) r with
      ⟨hnil, hnone⟩ | ⟨a, left, hcons, hsome, hrest⟩
    · rw [hnothing hnil, show s.d_handle.get r = ((s.d_handle.get r).1, none) from Prod.ext rfl hnone]
      exact ⟨rfl, hzones, by rw [← hleft, hnil]; rfl⟩
    · rw [show s.d_handle.get r = ((s.d_handle.get r).1, some (a.record.answer a.qname a.id r)) from
        Prod.ext rfl hsome]
      rw [hcons, map_cons] at hleft
      cases hideal : t.left with
      | nil =>
        rw [hideal] at hleft
        cases hleft
      | cons b left' =>
        rw [hideal, map_cons] at hleft
        obtain ⟨hfirst, hlater⟩ := List.cons.inj hleft
        rw [Ideal.get, hideal]
        rw [lower_answer, lower_answer, hfirst]
        exact ⟨rfl, hzones, hrest ▸ hlater⟩

theorem list_matches (hR : Matches s t) {target : Octets} {id : Int} (hsafe : (Request.list target id).Safe s) :
    (list id s).2.lower = (t.list id).2.lower ∧ Matches (list id s).1 (t.list id).1 := by
  obtain ⟨hzones, hleft⟩ := hR
  unfold list Ideal.list
  rw [← hzones]
  change FoundRight s.d_handle (s.zones.s_state.zone (id % 2 ^ 32).toNat) at hsafe
  cases hfind : s.zones.s_state.zone (id % 2 ^ 32).toNat with
  | none =>
    rw [hfind] at hsafe
    exact ⟨rfl, rfl, congrArg (List.map Answer.lower) hsafe⟩
  | some bbd =>
    rw [hfind] at hsafe
    obtain ⟨records, hrecords, hright⟩ := hsafe
    dsimp only
    rw [hrecords]
    refine ⟨rfl, rfl, ?_⟩
    rw [Handle.left]
    rw [if_pos rfl, map_map, map_map]
    exact map_congr_left fun bdr hbdr =>
      congrArg (Answer.mk · id bdr) (listed_owner hright hbdr)

theorem lookup_matches (hR : Matches s t) {disk : Disk} {qtype : UInt16} {qname : Octets}
    (hsafe : (Request.lookup disk qtype qname).Safe s) :
    (lookup disk qtype qname s).2.lower = (t.lookup disk qtype qname).2.lower ∧
      Matches (lookup disk qtype qname s).1 (t.lookup disk qtype qname).1 := by
  obtain ⟨hzones, -⟩ := hR
  obtain ⟨habove, hright⟩ := hsafe
  have hfound := findZone_eq habove
  rw [show (toLower qname).length = qname.length from length_map _] at hfound
  unfold lookup Ideal.lookup
  rw [hfound, ← hzones]
  cases hbest : bestZone s.zones.s_state.name_id_map (toLower qname) with
  | none => exact ⟨rfl, rfl, rfl⟩
  | some known =>
    obtain ⟨zone, id⟩ := known
    have hmem := ((searches_bestZone _ _).some zone id hbest).mem
    have hright := hright _ hbest
    dsimp only at hright ⊢
    rcases hopen : openZone disk zone id s.zones with ⟨zones, (bbd | records)⟩
    · exact ⟨rfl, rfl, rfl⟩
    · rw [hopen] at hright
      cases records with
      | none => exact hright.elim
      | some records =>
        let h : Handle := { s.d_handle.reset with
          d_records := some records, d_list := false, id, qname := strippedName qname zone, qtype
          domain := qname.drop (qname.length - zone.length) }
        exact ⟨rfl, rfl, searched_left (h := h) (mem_filter.mp hmem).1 hright rfl rfl rfl rfl rfl rfl⟩

/-- **One call**: it gives the same reply, and leaves the same. -/
theorem call_matches (o : Request) (hR : Matches s t) (hsafe : o.Safe s) :
    (call s o).2.lower = (t.call o).2.lower ∧ Matches (call s o).1 (t.call o).1 := by
  cases o with
  | lookup disk qtype qname => exact lookup_matches hR hsafe
  | list target id => exact list_matches hR hsafe
  | get r => exact get_matches hR r
  | others zones => exact ⟨rfl, rfl, hR.2⟩

end Calls

/-! ### Runs -/

/-- A backend that was just made. What is in `d_list` and `id` of its handle is not initialised. -/
def Backend.init (zones : Bind2) (d_list : Bool) (id : Int) : Backend :=
  { zones, d_handle := { d_list, id, qtype := 0 } }

instance (name_id_map : NameIdMap) (qname : Octets) : Decidable (ZoneAbove name_id_map qname) :=
  inferInstanceAs (Decidable (∀ z ∈ tailsOf qname, name_id_map.find z ≠ none →
    ∃ z' ∈ tailsOf qname, AtOrBelow qname z' ∧ name_id_map.find z' ≠ none ∧ z.length ≤ z'.length))

instance (d_range : List Bind2DNSRecord) (qtype : UInt16) (qname zone : Octets)
    (records : List Bind2DNSRecord) : Decidable (SearchedRight d_range qtype qname zone records) :=
  decidable_of_iff (Ascending Bind2DNSRecord.place records ∧ StoredNames records ∧
      (strcasecmpEq qname zone = true → qname.length = zone.length) ∧
      ((∀ bdr ∈ records, bdr.qname ≠ labelReverse (toLower (strippedName qname zone))) →
        ∀ bdr ∈ d_range, bdr.asked qtype = false) ∧
      ((∃ bdr ∈ records, bdr.qname = labelReverse (toLower (strippedName qname zone)) ∧ bdr.asked qtype = true) →
        (zone = [] → qname = []) ∧ qname.head? ≠ some dot ∧ Reversible (toLower (strippedName qname zone))))
    ⟨fun h => ⟨h.1, h.2.1, h.2.2.1, h.2.2.2.1, h.2.2.2.2⟩, fun h => ⟨h.1, h.2, h.3, h.4, h.5⟩⟩

instance (d_range : List Bind2DNSRecord) (qtype : UInt16) (qname zone : Octets) :
    ∀ opened : Except (Octets × Octets) (Option (List Bind2DNSRecord)),
      Decidable (OpenedRight d_range qtype qname zone opened)
  | .error _ => isTrue trivial
  | .ok none => isFalse id
  | .ok (some records) => inferInstanceAs (Decidable (SearchedRight d_range qtype qname zone records))

instance (domain d_name : Octets) (records : List Bind2DNSRecord) : Decidable (ListedRight domain d_name records) :=
  inferInstanceAs (Decidable (records = [] ∨ StoredNames records ∧ toLower domain = toLower d_name ∧
    (d_name = [] → ∀ bdr ∈ records, bdr.qname = [])))

instance (h : Handle) : ∀ found : Option BB2DomainInfo, Decidable (FoundRight h found)
  | none => inferInstanceAs (Decidable (h.left = []))
  | some bbd => inferInstanceAs (Decidable (∃ records ∈ bbd.d_records, ListedRight h.domain bbd.d_name records))

instance (s : Backend) : ∀ o : Request, Decidable (o.Safe s)
  | .lookup disk qtype qname =>
    inferInstanceAs (Decidable (ZoneAbove s.zones.s_state.name_id_map (toLower qname) ∧
      ∀ known ∈ bestZone s.zones.s_state.name_id_map (toLower qname),
        OpenedRight s.d_handle.d_range qtype qname known.1 (openZone disk known.1 known.2 s.zones).2))
  | .list _ id => inferInstanceAs (Decidable (FoundRight s.d_handle (s.zones.s_state.zone (id % 2 ^ 32).toNat)))
  | .get _ => isTrue trivial
  | .others _ => isTrue trivial

/-- A backend with one zone. -/
def exampleZones : Bind2 where
  s_state := (⟨NameIdMap.empty.set (ascii "example.com") 1, ∅⟩ : State).setZone 1
    { d_loaded := true, d_name := ascii "example.com", d_id := 1, d_records := some exampleZone }
  domain_id := 2

def exampleLookup (qtype : UInt16) (qname : String) : Request := .lookup (exampleDisk 0) qtype (ascii qname)

/-- What a caller gives to `get`. -/
def exampleGet : Request := .get (exampleRR "" 0 "")

/-- A search to its end, a listing that is abandoned, an unknown name, and one of no zone. -/
def exampleCalls : List Request :=
  [exampleLookup QType.ANY "Sub.Example.com", exampleGet, exampleGet, exampleGet,
    .list (ascii "example.com") 1, exampleGet, exampleLookup QType.A "www.example.com", exampleGet,
    exampleLookup QType.A "example.org", exampleGet]

end Bind2Backend

end PowerDNS
