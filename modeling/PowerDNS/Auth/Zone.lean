import PowerDNS.Base.Record
import PowerDNS.Names.Text
import PowerDNS.Lib.SuffixSearch

/-!
# Names and zone data of the authoritative server

Inside the authoritative server a name is a text without a trailing dot and without
escapes: `validDNSName` lets neither a backslash nor any other special octet through. Such
a text is its sequence of labels. `joinDots` writes the text, `chopOff_joinDots` relates the
`chopOff` of `misc.cc` to taking the tail, and everything above works on the labels.

A `Backend` is what the packet handler sees of the database: the records of all zones, and
the two functions that give the neighbours of a name in the order of a zone.
-/

namespace PowerDNS

open List

/-- A domain name as its labels, the root being the empty sequence. -/
abbrev DName := List Octets

/-! ### Names -/

/-- The text of a name. -/
def joinDots : DName → Octets
  | [] => []
  | [l] => l
  | l :: ls => l ++ dot :: joinDots ls

/-- The labels of a text; the empty text is the root. -/
def splitDots (name : Octets) : DName := if name = [] then [] else name.splitOn dot

/-- `chopOff` of `misc.cc` on the text; `none` is the result `false`. -/
def chopOff (domain : Octets) : Option Octets :=
  if domain = [] then none else some ((domain.dropWhile (· ≠ dot)).drop 1)

/-- `countLabels`. -/
def countLabels (signQName : Octets) : Nat :=
  let count := 1 + signQName.dropLast.countP (· = dot)
  if signQName.take 2 = ascii "*." then count - 1 else count

/-- Chopping a label off the text takes the first label away. -/
theorem chopOff_joinDots {l : Octets} {ls : DName} (hne : l ≠ []) (hdot : dot ∉ l) :
    chopOff (joinDots (l :: ls)) = some (joinDots ls) := by
  have hall : ∀ c ∈ l, decide (c ≠ dot) = true := fun c hc =>
    decide_eq_true fun e => hdot (e ▸ hc)
  cases ls with
  | nil =>
    have hdrop : (l ++ []).dropWhile (· ≠ dot) = [] := dropWhile_append_of_pos hall
    rw [append_nil] at hdrop
    change (if l = [] then none else some ((l.dropWhile (· ≠ dot)).drop 1)) = some []
    rw [if_neg hne, hdrop]
    rfl
  | cons m ls =>
    have hdrop : (l ++ dot :: joinDots (m :: ls)).dropWhile (· ≠ dot) =
        dot :: joinDots (m :: ls) := by
      rw [dropWhile_append_of_pos hall]
      rfl
    rw [joinDots, chopOff, if_neg (by simp [hne]), hdrop]
    · rfl
    · simp

/-- `pdns_iequals` on names, and the comparison every backend makes: label by label and
without regard to case. -/
def sameName (a b : DName) : Prop := lowerLabels a = lowerLabels b

instance (a b : DName) : Decidable (sameName a b) := inferInstanceAs (Decidable (_ = _))

theorem sameName_refl (a : DName) : sameName a a := rfl

/-- `n` is `top` or a descendant of it. -/
def UnderName (top n : DName) : Prop := lowerLabels top <:+ lowerLabels n

instance (top n : DName) : Decidable (UnderName top n) := inferInstanceAs (Decidable (_ <:+ _))

theorem underName_of_suffix {top n : DName} (h : top <:+ n) : UnderName top n :=
  h.map _

theorem UnderName.trans {a b c : DName} (hab : UnderName a b) (hbc : UnderName b c) :
    UnderName a c :=
  List.IsSuffix.trans hab hbc

theorem UnderName.congr {top a b : DName} (h : UnderName top a) (hname : sameName a b) :
    UnderName top b := by
  unfold UnderName at h ⊢
  rwa [← show lowerLabels a = lowerLabels b from hname]

/-- A name at or above `n`, up to case, is an ancestor of `n` in another spelling. -/
theorem UnderName.exists_suffix {top n : DName} (h : UnderName top n) :
    ∃ s, s <:+ n ∧ sameName s top := by
  obtain ⟨pre, hpre⟩ := h
  refine ⟨n.drop pre.length, drop_suffix _ _, ?_⟩
  unfold sameName
  have : lowerLabels (n.drop pre.length) = (lowerLabels n).drop pre.length := map_drop
  rw [this, ← hpre, drop_left]

/-- Two ancestors of one name are the same name only when they are the same ancestor. -/
theorem eq_of_sameName_of_suffix {a b n : DName} (ha : a <:+ n) (hb : b <:+ n)
    (h : sameName a b) : a = b := by
  have hlen : a.length = b.length := by simpa [lowerLabels] using congrArg List.length h
  exact (suffix_of_suffix_length_le ha hb hlen.le).eq_of_length hlen

/-- The label `*`. -/
abbrev star : Octets := [42]

/-- The name `"*."+subdomain` that `getBestWildcard` looks up. For the root this is the
text `*.`, whose last label is empty. -/
def wildcardName (subdomain : DName) : DName :=
  if subdomain = [] then [star, []] else star :: subdomain

/-! ### Records and backends -/

/-- A record as a backend knows it. -/
structure ZoneRecord where
  qname : DName
  qtype : UInt16
  content : Octets
  priority : UInt16 := 0
  ttl : UInt32 := 3600
  domain_id : Int
  last_modified : Int := 0
  auth : Bool := true
  deriving DecidableEq

/-- A record as `get` fills it in: what the backend does not set keeps the value that the
constructor of `DNSResourceRecord` gave it. -/
abbrev StoredRR := DNSResourceRecord DName

/-- `get`: the record handed to the caller. -/
def ZoneRecord.get (z : ZoneRecord) : StoredRR where
  qtype := z.qtype
  qname := z.qname
  wildcardname := []
  content := z.content
  priority := z.priority
  ttl := z.ttl
  domain_id := z.domain_id
  last_modified := z.last_modified
  auth := z.auth

/-- What `PacketHandler` sees of the database. -/
structure Backend where
  /-- The records of all zones, in the order in which `get` returns them. -/
  records : List ZoneRecord
  /-- `getBeforeAndAfterNames(id, zonename, qname)`. -/
  getBeforeAndAfterNames : Int → DName → DName → DName × DName
  /-- `getBeforeAndAfterNamesAbsolute(id, qname)`: `unhashed`, `before` and `after`. -/
  getBeforeAndAfterNamesAbsolute : Int → Octets → DName × Octets × Octets

/-- The question of a `lookup` takes a record: the zone id -1 stands for any zone. -/
def ZoneRecord.Matches (qtype : UInt16) (qname : DName) (zoneId : Int) (z : ZoneRecord) : Prop :=
  sameName z.qname qname ∧ (qtype = QType.ANY ∨ z.qtype = qtype) ∧
    (zoneId = -1 ∨ z.domain_id = zoneId)

instance (qtype : UInt16) (qname : DName) (zoneId : Int) (z : ZoneRecord) :
    Decidable (z.Matches qtype qname zoneId) := inferInstanceAs (Decidable (_ ∧ _))

/-- `lookup(qtype, qname, p, zoneId)` and the `get`s that follow it. -/
def Backend.lookup (B : Backend) (qtype : UInt16) (qname : DName) (zoneId : Int) :
    List StoredRR :=
  (B.records.filter fun z => z.Matches qtype qname zoneId).map ZoneRecord.get

/-- `SOAData`, as far as the packet handler reads it. The texts of the SOA record stay
together in `content`. -/
structure SOAData where
  qname : DName
  content : Octets
  ttl : UInt32
  domain_id : Int
  deriving DecidableEq

/-- `getSOA`: the last record found fills in `sd`. -/
def Backend.getSOA (B : Backend) (domain : DName) : Option SOAData :=
  (B.lookup QType.SOA domain (-1)).getLast?.map fun rr =>
    { qname := domain, content := rr.content, ttl := rr.ttl, domain_id := rr.domain_id }

/-! ### What a lookup returns -/

/-- The zone has a record `rr` that answers the question. -/
theorem Backend.mem_lookup {B : Backend} {qtype : UInt16} {qname : DName} {zoneId : Int}
    {rr : StoredRR} :
    rr ∈ B.lookup qtype qname zoneId ↔
      ∃ z ∈ B.records, z.Matches qtype qname zoneId ∧ z.get = rr := by
  simp [Backend.lookup, and_assoc]

/-- The answer to a question depends on the name only up to case. -/
theorem Backend.lookup_congr (B : Backend) (qtype : UInt16) {a b : DName} (h : sameName a b)
    (zoneId : Int) : B.lookup qtype a zoneId = B.lookup qtype b zoneId := by
  have : ∀ z : ZoneRecord, z.Matches qtype a zoneId ↔ z.Matches qtype b zoneId := by
    intro z
    unfold ZoneRecord.Matches sameName
    rw [show lowerLabels a = lowerLabels b from h]
  simp only [Backend.lookup, this]

/-- A question for one type returns the records of that type that a question for any type
returns. -/
theorem Backend.lookup_eq_filter (B : Backend) {qtype : UInt16} (h : qtype ≠ QType.ANY)
    (qname : DName) (zoneId : Int) :
    B.lookup qtype qname zoneId =
      (B.lookup QType.ANY qname zoneId).filter fun rr => rr.qtype = qtype := by
  unfold Backend.lookup
  rw [filter_map, filter_filter]
  congr 1
  apply filter_congr
  intro z _
  change _ = (decide (z.qtype = qtype) && decide (z.Matches QType.ANY qname zoneId))
  rw [← Bool.decide_and, decide_eq_decide]
  simp only [ZoneRecord.Matches, h, false_or, true_or, true_and]
  exact ⟨fun ⟨hn, ht, hz⟩ => ⟨ht, hn, hz⟩, fun ⟨ht, hn, hz⟩ => ⟨hn, ht, hz⟩⟩

theorem Backend.getSOA_eq_some {B : Backend} {domain : DName} {sd : SOAData}
    (h : B.getSOA domain = some sd) :
    sd.qname = domain ∧ ∃ z ∈ B.records, z.qtype = QType.SOA ∧ sameName z.qname domain ∧
      z.domain_id = sd.domain_id := by
  obtain ⟨rr, hrr, rfl⟩ := Option.map_eq_some_iff.mp h
  obtain ⟨z, hz, ⟨hn, ht, -⟩, rfl⟩ := Backend.mem_lookup.mp (mem_of_getLast? hrr)
  refine ⟨rfl, z, hz, ?_, hn, rfl⟩
  exact ht.resolve_left (by decide)

end PowerDNS
