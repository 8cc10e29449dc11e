import Mathlib.Logic.Function.Basic
import PowerDNS.Auth.PacketCache
import PowerDNS.Base.Serialize
import PowerDNS.Lib.GuardedRun

/-!
# The query cache: `UeberBackend`

A `UeberBackend` asks its backends one after the other until one of them gives records, and
hands these out one at a time. In front of the backends is the query cache, which is shared
by all instances: a lookup that was drained and gave nothing, or one record, is stored under
its question and answered from there until its time is up.

What the backends themselves return for a question is `direct`. The state of a run is the
container, the instances, and two histories that no branch reads: what each instance has
`given` out since its last lookup, and which lookups were `drained` when.

`query_cache_transparent` says that every answer out of the cache is the one of the backends,
in every run that never asks again, while the answer to a drained question is stored, for the
same type and name without a zone id, unless the two answers are the same and come through
`serialize` and `unSerialize` unharmed (`LookupOK`). The three ways to break that are the zone
id that `PacketCache::insert` forgets, the fields that are not serialised, and the types that
have no name.
-/

namespace PowerDNS

open GuardedRun PacketCache List Option

/-! ### Backends -/

/-- `UeberBackend::Question`. -/
structure Question where
  qtype : UInt16
  qname : Octets
  zoneId : Int := -1
  deriving DecidableEq

/-- A backend: the records its `get` gives after a `lookup`. -/
abbrev DNSBackend := Question → List TextRR

/-- The registered backends, of which there is at least one, and the settings of the query
cache. -/
structure Backends where
  first : DNSBackend
  others : List DNSBackend
  queryttl : UInt32
  negqueryttl : UInt32

/-- `UeberBackend::handle`: what the backend that was asked last still has to give, and the
backends after it. -/
structure Handle where
  pending : List TextRR := []
  later : List DNSBackend := []

/-- The records that are to come: those of the first backend that has any. The later backends
are asked without the zone id. -/
def firstAnswering (q : Question) : List TextRR → List DNSBackend → List TextRR
  | rr :: rrs, _ => rr :: rrs
  | [], [] => []
  | [], b :: later => firstAnswering q (b { q with zoneId := -1 }) later

/-- `handle::get`. -/
def Handle.get (q : Question) : List TextRR → List DNSBackend → Option TextRR × Handle
  | rr :: rrs, _ => (some rr, { pending := rrs })
  | [], [] => (none, {})
  | [], b :: later => Handle.get q (b { q with zoneId := -1 }) later

/-- What a `Handle` still has to give. -/
def Handle.left (q : Question) (h : Handle) : List TextRR := firstAnswering q h.pending h.later

/-- `handle::get` gives the records to come one by one. -/
theorem Handle.get_spec (q : Question) (h : Handle) :
    h.left q = (Handle.get q h.pending h.later).1.toList ++
      (Handle.get q h.pending h.later).2.left q := by
  obtain ⟨pending, later⟩ := h
  induction later generalizing pending with
  | nil =>
    cases pending with
    | nil => rfl
    | cons rr rrs => cases rrs <;> rfl
  | cons b later ih =>
    cases pending with
    | nil => exact ih _
    | cons rr rrs => cases rrs <;> rfl

/-- When it gives none there was none. -/
theorem Handle.left_of_get_none {q : Question} {h : Handle}
    (hnone : (Handle.get q h.pending h.later).1 = none) : h.left q = [] := by
  obtain ⟨pending, later⟩ := h
  induction later generalizing pending with
  | nil =>
    cases pending with
    | nil => rfl
    | cons rr rrs => cases hnone
  | cons b later ih =>
    cases pending with
    | nil => exact ih _ hnone
    | cons rr rrs => cases hnone

namespace Backends

variable (B : Backends)

/-- What the backends themselves return for a question. -/
def direct (q : Question) : List TextRR := firstAnswering q (B.first q) B.others

/-! ### An instance -/

end Backends

/-- A `UeberBackend`; there is no question before the first `lookup`. -/
structure UeberBackend where
  d_question : Option Question := none
  d_handle : Handle := {}
  d_ancount : Nat := 0
  lastrr : TextRR
  d_negcached : Bool := false
  d_cached : Bool := false
  d_answer : TextRR

namespace Backends

variable (B : Backends)

/-- `cacheHas`: `none` is the result -1, `some none` the 0 of a negative answer, and the
record is what `rr` has become. -/
def cacheHas (q : Question) (rr : TextRR) (PC : PacketCache Octets) (now : Int) (gotIt : Bool) :
    Option (Option TextRR) :=
  if B.negqueryttl = 0 ∧ B.queryttl = 0 then none
  else
    match getEntry PC q.qname q.qtype .QUERYCACHE q.zoneId false now gotIt with
    | none => none
    | some content => if content = [] then some none else some (some (unSerialize rr content))

/-- `addNegCache`. -/
def addNegCache (q : Question) (now : Int) (gotIt : Bool) (PC : PacketCache Octets) :
    PacketCache Octets :=
  if B.negqueryttl = 0 then PC
  else insert q.qname q.qtype .QUERYCACHE [] B.negqueryttl q.zoneId false now gotIt PC

/-- `addOneCache`. -/
def addOneCache (q : Question) (rr : TextRR) (now : Int) (gotIt : Bool)
    (PC : PacketCache Octets) : PacketCache Octets :=
  if B.queryttl = 0 then PC
  else insert q.qname q.qtype .QUERYCACHE (serialize rr) B.queryttl q.zoneId false now gotIt PC

/-- `lookup`. -/
def lookup (q : Question) (now : Int) (gotIt : Bool) (PC : PacketCache Octets)
    (ub : UeberBackend) : UeberBackend :=
  match B.cacheHas q ub.d_answer PC now gotIt with
  | none =>
    { ub with d_question := some q, d_ancount := 0, d_negcached := false, d_cached := false,
              d_handle := { pending := B.first q, later := B.others } }
  | some none =>
    { ub with d_question := some q, d_ancount := 0, d_negcached := true, d_cached := false }
  | some (some rr) =>
    { ub with d_question := some q, d_ancount := 0, d_negcached := false, d_cached := true,
              d_answer := rr }

/-- What `get` does when the backends have nothing more to give. -/
def drain (q : Question) (now : Int) (gotIt : Bool) (ub : UeberBackend)
    (PC : PacketCache Octets) : PacketCache Octets :=
  if ub.d_ancount = 0 ∧ q.qname ≠ [] then B.addNegCache q now gotIt PC
  else if ub.d_ancount = 1 then B.addOneCache q ub.lastrr now gotIt PC
  else PC

/-- `get`. -/
def get (now : Int) (gotIt : Bool) (PC : PacketCache Octets) (ub : UeberBackend) :
    Option TextRR × UeberBackend × PacketCache Octets :=
  match ub.d_question with
  | none => (none, ub, PC)
  | some q =>
    if ub.d_negcached then (none, ub, PC)
    else if ub.d_cached then (some ub.d_answer, { ub with d_negcached := true }, PC)
    else
      match Handle.get q ub.d_handle.pending ub.d_handle.later with
      | (none, handle) => (none, { ub with d_handle := handle }, B.drain q now gotIt ub PC)
      | (some rr, handle) =>
        (some rr,
          { ub with
            d_handle := handle
            d_ancount := ub.d_ancount + 1
            lastrr := if ub.d_ancount = 0 then rr else ub.lastrr }, PC)

variable {B} {q : Question} {now : Int} {gotIt : Bool} {PC : PacketCache Octets} {ub : UeberBackend}

theorem get_negcached (flag : ub.d_negcached = true) : B.get now gotIt PC ub = (none, ub, PC) := by
  unfold get
  split
  · rfl
  · rw [if_pos flag]

theorem get_cached (hq : ub.d_question = some q) (neg : ub.d_negcached = false)
    (flag : ub.d_cached = true) :
    B.get now gotIt PC ub = (some ub.d_answer, { ub with d_negcached := true }, PC) := by
  simp only [get, hq, neg, flag, if_true, Bool.false_eq_true, if_false]

theorem get_asking_none (hq : ub.d_question = some q) (neg : ub.d_negcached = false)
    (flag : ub.d_cached = false) {handle : Handle}
    (hget : Handle.get q ub.d_handle.pending ub.d_handle.later = (none, handle)) :
    B.get now gotIt PC ub = (none, { ub with d_handle := handle }, B.drain q now gotIt ub PC) := by
  simp only [get, hq, neg, flag, hget, Bool.false_eq_true, if_false]

theorem get_asking_some (hq : ub.d_question = some q) (neg : ub.d_negcached = false)
    (flag : ub.d_cached = false) {rr : TextRR} {handle : Handle}
    (hget : Handle.get q ub.d_handle.pending ub.d_handle.later = (some rr, handle)) :
    B.get now gotIt PC ub =
      (some rr,
        { ub with
          d_handle := handle
          d_ancount := ub.d_ancount + 1
          lastrr := if ub.d_ancount = 0 then rr else ub.lastrr }, PC) := by
  simp only [get, hq, neg, flag, hget, Bool.false_eq_true, if_false]

/-- The question of an instance after a `lookup`. -/
theorem lookup_d_question : (B.lookup q now gotIt PC ub).d_question = some q := by
  unfold lookup
  split <;> rfl

/-- A `get` does not change the question. -/
theorem get_d_question : (B.get now gotIt PC ub).2.1.d_question = ub.d_question := by
  unfold get
  split
  · rfl
  · split
    · rfl
    · split
      · rfl
      · split <;> rfl

end Backends

/-! ### Runs -/

/-- All instances and the container they share. `given` and `drained` are histories. -/
structure QuerySystem (ι : Type) where
  PC : PacketCache Octets
  ub : ι → UeberBackend
  given : ι → List TextRR
  drained : List (Question × Int)

/-- The operations: those of the instances, the insertion of a reply into the container, and
throwing away any entries (`cleanup`, `purge`). -/
inductive QueryOp (ι : Type)
  | lookup (i : ι) (q : Question) (now : Int) (gotIt : Bool)
  | get (i : ι) (now : Int) (gotIt : Bool)
  | insertPacket (qname : Octets) (qtype : UInt16) (value : Octets) (ttl : UInt32)
      (meritsRecursion : Bool) (now : Int) (gotIt : Bool)
  | erase (keep : CacheEntry Octets → Bool)

namespace QuerySystem

variable {ι : Type} (B : Backends)

/-- The state before the first operation: nothing is cached, and the records inside the
instances hold what they were constructed with. -/
def start (lastrr d_answer : ι → TextRR) : QuerySystem ι where
  PC := SequencedIndex.empty
  ub := fun i => { lastrr := lastrr i, d_answer := d_answer i }
  given := fun _ => []
  drained := []

/-- The lookup that `get` finds drained. -/
def drainedNow (ub : UeberBackend) (now : Int) (rr : Option TextRR) : List (Question × Int) :=
  match ub.d_question with
  | some q => if ub.d_negcached = false ∧ rr = none then [(q, now)] else []
  | none => []

/-- One operation. -/
def step [DecidableEq ι] (s : QuerySystem ι) : QueryOp ι → QuerySystem ι
  | .lookup i q now gotIt =>
    { s with ub := Function.update s.ub i (B.lookup q now gotIt s.PC (s.ub i))
             given := Function.update s.given i [] }
  | .get i now gotIt =>
    let r := B.get now gotIt s.PC (s.ub i)
    { PC := r.2.2
      ub := Function.update s.ub i r.2.1
      given := Function.update s.given i (s.given i ++ r.1.toList)
      drained := drainedNow (s.ub i) now r.1 ++ s.drained }
  | .insertPacket qname qtype value ttl meritsRecursion now gotIt =>
    { s with PC := insert qname qtype .PACKETCACHE value ttl (-1) meritsRecursion now gotIt s.PC }
  | .erase keep => { s with PC := s.PC.filter keep }

/-! ### What is right, and when -/

/-- How long an answer of the backends may be used. -/
def lifetime (answer : List TextRR) : UInt32 :=
  if answer = [] then B.negqueryttl else B.queryttl

/-- A record that comes back from `unSerialize` as it went into `serialize`: its type has a
name, and what is not serialised is what the record that is read into has there. -/
structure ReadsBack (d_answer rr : TextRR) : Prop where
  serialisable : Serialisable rr
  qclass : rr.qclass = d_answer.qclass
  wildcardname : rr.wildcardname = d_answer.wildcardname
  d_place : rr.d_place = d_answer.d_place
  auth : rr.auth = d_answer.auth

/-- The question `p` is drained, its answer can be in the cache, and `q` would be answered by
it: it has type and name of `p`, and no zone id. -/
structure Answers (p q : Question) (drainedAt now : Int) : Prop where
  cacheable : (B.direct p = [] ∧ p.qname ≠ []) ∨ ∃ rr, B.direct p = [rr]
  enabled : lifetime B (B.direct p) ≠ 0
  alive : now < drainedAt + (lifetime B (B.direct p)).toNat
  qtype : p.qtype = q.qtype
  qname : toLower p.qname = toLower q.qname
  zoneId : q.zoneId = -1

/-- A lookup is safe in a state if the backends give for it what they gave for every question
that would answer it out of the cache, and the record that makes up the answer is read back. -/
def LookupOK (s : QuerySystem ι) : QueryOp ι → Prop
  | .lookup i q now _ =>
    0 ∉ q.qname ∧ ∀ p t, (p, t) ∈ s.drained → Answers B p q t now →
      B.direct q = B.direct p ∧ ∀ rr ∈ B.direct p, ReadsBack (s.ub i).d_answer rr
  | _ => True

/-- Every answer is that of the backends: a hit in the cache is the whole answer of the
backends, and `get` gives the records of the backends in their order and to the last. -/
def Transparent (s : QuerySystem ι) : QueryOp ι → Prop
  | .lookup i q now gotIt =>
    ∀ hit, B.cacheHas q (s.ub i).d_answer s.PC now gotIt = some hit → B.direct q = hit.toList
  | .get i now gotIt =>
    ∀ q, (s.ub i).d_question = some q →
      match (B.get now gotIt s.PC (s.ub i)).1 with
      | some rr => s.given i ++ [rr] <+: B.direct q
      | none => s.given i = B.direct q
  | _ => True

theorem ReadsBack.unSerialize_serialize {d_answer rr : TextRR} (h : ReadsBack d_answer rr) :
    unSerialize d_answer (serialize rr) = rr := by
  rw [PowerDNS.unSerialize_serialize d_answer h.serialisable, ← h.qclass, ← h.wildcardname,
    ← h.d_place, ← h.auth]

/-! ### The invariant -/

/-- An entry of the query cache is the answer to a drained question. -/
structure EntryOK (drained : List (Question × Int)) (e : CacheEntry Octets) (p : Question)
    (t : Int) : Prop where
  mem : (p, t) ∈ drained
  qtype : p.qtype = e.qtype
  qname : p.qname = e.qname
  zoneID : e.zoneID = -1
  enabled : lifetime B (B.direct p) ≠ 0
  ttd : e.ttd = t + (lifetime B (B.direct p)).toNat
  value : (B.direct p = [] ∧ p.qname ≠ []) ∧ e.value = [] ∨
    ∃ rr, B.direct p = [rr] ∧ e.value = serialize rr

/-- Where an instance is in the answer to its question. -/
inductive SessionOK (q : Question) (ub : UeberBackend) (given : List TextRR) : Prop
  | negcached (flag : ub.d_negcached = true) (all : given = B.direct q)
  | cached (neg : ub.d_negcached = false) (flag : ub.d_cached = true) (first : given = [])
      (one : B.direct q = [ub.d_answer])
  | asking (neg : ub.d_negcached = false) (flag : ub.d_cached = false)
      (left : B.direct q = given ++ ub.d_handle.left q) (count : ub.d_ancount = given.length)
      (last : ∀ rr ∈ given.head?, ub.lastrr = rr)

/-- **The invariant of a run.** -/
structure Inv (s : QuerySystem ι) : Prop where
  entries : ∀ e ∈ s.PC, e.ctype = .QUERYCACHE → ∃ p t, EntryOK B s.drained e p t
  sessions : ∀ i q, (s.ub i).d_question = some q → SessionOK B q (s.ub i) (s.given i)

variable {B}

variable {q : Question} {gotIt : Bool} {now : Int}

/-- A hit in the cache is right when the lookup is safe. -/
theorem hit_eq_direct {s : QuerySystem ι} (hI : Inv B s) {i : ι}
    (hok : LookupOK B s (.lookup i q now gotIt)) {hit : Option TextRR}
    (hhit : B.cacheHas q (s.ub i).d_answer s.PC now gotIt = some hit) :
    B.direct q = hit.toList := by
  unfold Backends.cacheHas at hhit
  split at hhit
  · cases hhit
  · split at hhit
    next => cases hhit
    next content hget =>
      obtain ⟨e, he, hkey, hlive, rfl⟩ := getEntry_eq_some hget
      simp only [CacheEntry.key, Prod.mk.injEq] at hkey
      obtain ⟨hname, htype, hctype, hzone, -⟩ := hkey
      obtain ⟨p, t, hp⟩ := hI.entries e he hctype
      -- the entry makes `p` a question that answers `q`
      have hans : Answers B p q t now :=
        { cacheable := hp.value.imp And.left fun ⟨rr, h, _⟩ => ⟨rr, h⟩
          enabled := hp.enabled
          alive := hp.ttd ▸ hlive
          qtype := hp.qtype.trans htype
          qname := by rw [hp.qname, hname]
          zoneId := by rw [← hzone, hp.zoneID] }
      obtain ⟨hsame, hback⟩ := hok.2 p t hp.mem hans
      rw [hsame]
      rcases hp.value with ⟨⟨hnone, -⟩, hval⟩ | ⟨rr, hone, hval⟩
      · rw [if_pos hval] at hhit
        rw [hnone, ← some.inj hhit]
        rfl
      · have hrr := hback rr (hone ▸ mem_singleton_self rr)
        rw [if_neg (hval ▸ serialize_ne_nil rr), hval, hrr.unSerialize_serialize] at hhit
        rw [hone, ← some.inj hhit]
        rfl

/-- After a lookup the instance is at the beginning of the answer. -/
theorem session_lookup {s : QuerySystem ι} (hI : Inv B s) {i : ι}
    (hok : LookupOK B s (.lookup i q now gotIt)) :
    SessionOK B q (B.lookup q now gotIt s.PC (s.ub i)) [] := by
  unfold Backends.lookup
  cases hhit : B.cacheHas q (s.ub i).d_answer s.PC now gotIt with
  | none => exact .asking rfl rfl rfl rfl nofun
  | some hit =>
    have hdirect := hit_eq_direct hI hok hhit
    cases hit with
    | none => exact .negcached rfl hdirect.symm
    | some rr => exact .cached rfl rfl rfl hdirect

/-- One `get`, seen from the instance: the record it gives is the next one, and when it gives
none the answer is complete. -/
theorem session_get {q : Question} {ub : UeberBackend} {given : List TextRR} {now : Int}
    {gotIt : Bool} {PC : PacketCache Octets} (hq : ub.d_question = some q)
    (h : SessionOK B q ub given) :
    SessionOK B q (B.get now gotIt PC ub).2.1 (given ++ (B.get now gotIt PC ub).1.toList) ∧
      given ++ (B.get now gotIt PC ub).1.toList <+: B.direct q ∧
      ((B.get now gotIt PC ub).1 = none → given = B.direct q) := by
  cases h with
  | negcached flag all =>
    rw [Backends.get_negcached flag]
    simp only [toList_none, append_nil]
    exact ⟨.negcached flag all, all ▸ prefix_rfl, fun _ => all⟩
  | cached neg flag first one =>
    rw [Backends.get_cached hq neg flag, first, one]
    exact ⟨.negcached rfl one.symm, prefix_rfl, nofun⟩
  | asking neg flag left count last =>
    have hspec := Handle.get_spec q ub.d_handle
    rcases hget : Handle.get q ub.d_handle.pending ub.d_handle.later with ⟨_ | rr, handle⟩
    · have hleft : ub.d_handle.left q = [] := Handle.left_of_get_none (by rw [hget])
      have hleft' : handle.left q = [] := by
        rw [hget, hleft] at hspec
        exact hspec.symm
      rw [hleft, append_nil] at left
      rw [Backends.get_asking_none hq neg flag hget]
      simp only [toList_none, append_nil]
      refine ⟨.asking neg flag ?_ count last, left ▸ prefix_rfl, fun _ => left.symm⟩
      rw [hleft', append_nil, left]
    · rw [hspec, hget, ← append_assoc] at left
      rw [Backends.get_asking_some hq neg flag hget]
      refine ⟨.asking neg flag left ?_ ?_, ⟨_, left.symm⟩, nofun⟩
      · rw [count, length_append]
        rfl
      · intro r hr
        cases given with
        | nil =>
          rw [if_pos (show ub.d_ancount = 0 from count)]
          exact some.inj hr
        | cons g given =>
          rw [if_neg (by rw [count]; exact Nat.succ_ne_zero _)]
          exact last r hr

/-- Before the first operation there is nothing to be wrong. -/
theorem inv_start (lastrr d_answer : ι → TextRR) : Inv B (start lastrr d_answer) where
  entries := fun e he => absurd he (SequencedIndex.not_mem_empty e)
  sessions := nofun

variable {e : CacheEntry Octets}

/-- A history that grows keeps what the entries are the answers to. -/
theorem EntryOK.mono {drained drained' : List (Question × Int)}
    {p : Question} {t : Int} (h : EntryOK B drained e p t) (hsub : drained ⊆ drained') :
    EntryOK B drained' e p t :=
  { h with mem := hsub h.mem }

variable {PC : PacketCache Octets} {ub : UeberBackend}

/-- What a drained lookup puts into the container. -/
theorem mem_drain
    (he : e ∈ B.drain q now gotIt ub PC) :
    e ∈ PC ∨
    (ub.d_ancount = 0 ∧ q.qname ≠ [] ∧ B.negqueryttl ≠ 0 ∧
      e = newEntry q.qname q.qtype .QUERYCACHE [] B.negqueryttl (-1) false now) ∨
    (ub.d_ancount = 1 ∧ B.queryttl ≠ 0 ∧
      e = newEntry q.qname q.qtype .QUERYCACHE (serialize ub.lastrr) B.queryttl (-1) false now) := by
  unfold Backends.drain at he
  split at he
  next hneg =>
    unfold Backends.addNegCache at he
    split at he
    next => exact .inl he
    next hon =>
      rcases mem_insert he with h | h
      · exact .inr (.inl ⟨hneg.1, hneg.2, hon, h⟩)
      · exact .inl h
  next =>
    split at he
    next hone =>
      unfold Backends.addOneCache at he
      split at he
      next => exact .inl he
      next hon =>
        rcases mem_insert he with h | h
        · exact .inr (.inr ⟨hone, hon, h⟩)
        · exact .inl h
    next => exact .inl he

/-- What a drained lookup puts into the container is the answer of the backends. -/
theorem entryOK_drain
    (he : e ∈ B.drain q now gotIt ub PC)
    (hcount : ub.d_ancount = (B.direct q).length)
    (hlast : ∀ rr ∈ (B.direct q).head?, ub.lastrr = rr) :
    e ∈ PC ∨ EntryOK B [(q, now)] e q now := by
  rcases mem_drain he with h | ⟨hzero, hname, hon, rfl⟩ | ⟨hone, hon, rfl⟩
  · exact .inl h
  · have hnone : B.direct q = [] := length_eq_zero_iff.mp (hcount ▸ hzero)
    have hlife : lifetime B (B.direct q) = B.negqueryttl := if_pos hnone
    exact .inr ⟨mem_singleton_self _, rfl, rfl, rfl, hlife ▸ hon, by rw [hlife]; rfl,
      .inl ⟨⟨hnone, hname⟩, rfl⟩⟩
  · obtain ⟨rr, hrr⟩ := length_eq_one_iff.mp (hcount ▸ hone)
    have hlife : lifetime B (B.direct q) = B.queryttl := if_neg (by rw [hrr]; exact nofun)
    have hval : ub.lastrr = rr := hlast rr (by rw [hrr]; rfl)
    exact .inr ⟨mem_singleton_self _, rfl, rfl, rfl, hlife ▸ hon, by rw [hlife]; rfl,
      .inr ⟨rr, hrr, hval ▸ rfl⟩⟩

/-- One `get`, seen from the container. -/
theorem entries_get {given : List TextRR}
    (hq : ub.d_question = some q)
    (h : SessionOK B q ub given)
    (he : e ∈ (B.get now gotIt PC ub).2.2) :
    e ∈ PC ∨ EntryOK B (drainedNow ub now (B.get now gotIt PC ub).1) e q now := by
  cases h with
  | negcached flag all =>
    rw [Backends.get_negcached flag] at he
    exact .inl he
  | cached neg flag first one =>
    rw [Backends.get_cached hq neg flag] at he
    exact .inl he
  | asking neg flag left count last =>
    rcases hget : Handle.get q ub.d_handle.pending ub.d_handle.later with ⟨_ | rr, handle⟩
    · -- the lookup is drained: what was given is the whole answer
      rw [Handle.left_of_get_none (by rw [hget]), append_nil] at left
      rw [Backends.get_asking_none hq neg flag hget] at he ⊢
      have hdrained : drainedNow ub now none = [(q, now)] := by
        simp only [drainedNow, hq, neg, and_self, if_true]
      rw [hdrained]
      exact entryOK_drain he (by rw [left, count]) (by rw [left]; exact last)
    · rw [Backends.get_asking_some hq neg flag hget] at he
      exact .inl he

/-- **The invariant is kept** by every operation that is safe. -/
theorem step_inv [DecidableEq ι] (s : QuerySystem ι) (op : QueryOp ι) (hI : Inv B s)
    (hok : LookupOK B s op) : Inv B (step B s op) := by
  cases op with
  | lookup i q now gotIt =>
    refine ⟨hI.entries, ?_⟩
    intro j q' hq'
    by_cases hj : j = i
    · subst hj
      simp only [step, Function.update_self] at hq' ⊢
      rw [Backends.lookup_d_question] at hq'
      rw [← some.inj hq']
      exact session_lookup hI hok
    · simp only [step, Function.update_of_ne hj] at hq' ⊢
      exact hI.sessions j q' hq'
  | get i now gotIt =>
    constructor
    · intro e he hctype
      cases hq : (s.ub i).d_question with
      | none =>
        have hsame : e ∈ s.PC := by
          simpa only [step, Backends.get, hq] using he
        obtain ⟨p, t, hp⟩ := hI.entries e hsame hctype
        exact ⟨p, t, hp.mono (subset_append_right _ _)⟩
      | some q =>
        rcases entries_get hq (hI.sessions i q hq) he with h | h
        · obtain ⟨p, t, hp⟩ := hI.entries e h hctype
          exact ⟨p, t, hp.mono (subset_append_right _ _)⟩
        · exact ⟨q, now, h.mono (subset_append_left _ _)⟩
    · intro j q' hq'
      by_cases hj : j = i
      · subst hj
        simp only [step, Function.update_self] at hq' ⊢
        rw [Backends.get_d_question] at hq'
        exact (session_get hq' (hI.sessions j q' hq')).1
      · simp only [step, Function.update_of_ne hj] at hq' ⊢
        exact hI.sessions j q' hq'
  | insertPacket qname qtype value ttl meritsRecursion now gotIt =>
    refine ⟨?_, hI.sessions⟩
    intro e he hctype
    rcases mem_insert he with rfl | h
    · cases hctype
    · exact hI.entries e h hctype
  | erase keep =>
    refine ⟨?_, hI.sessions⟩
    intro e he hctype
    exact hI.entries e (SequencedIndex.mem_filter.mp he).1 hctype

/-- What the invariant says about a single operation. -/
theorem transparent_of_inv (s : QuerySystem ι) (op : QueryOp ι) (hI : Inv B s)
    (hok : LookupOK B s op) : Transparent B s op := by
  cases op with
  | lookup i q now gotIt => exact fun hit hhit => hit_eq_direct hI hok hhit
  | get i now gotIt =>
    intro q hq
    obtain ⟨-, hprefix, hall⟩ :=
      @session_get _ _ _ _ now gotIt s.PC hq (hI.sessions i q hq)
    generalize (B.get now gotIt s.PC (s.ub i)).1 = rr at hprefix hall ⊢
    cases rr with
    | none => exact hall rfl
    | some rr => exact hprefix
  | insertPacket => trivial
  | erase => trivial

/-- **The query cache is transparent** in every run whose lookups are safe: every hit is the
answer of the backends, and so is what the `get`s after a lookup hand out. -/
theorem query_cache_transparent [DecidableEq ι] (B : Backends) (lastrr d_answer : ι → TextRR)
    {pre post : List (QueryOp ι)} {op : QueryOp ι}
    (h : Guarded (step B) (LookupOK B) (start lastrr d_answer) (pre ++ op :: post)) :
    Transparent B (run (step B) (start lastrr d_answer) pre) op :=
  run_forall_step step_inv transparent_of_inv (inv_start lastrr d_answer) h

/-! ### A database with one address -/

/-- The address of `www.example.com`, in zone 1. -/
def wwwAddress : TextRR where
  qtype := QType.A
  qname := ascii "www.example.com"
  wildcardname := []
  content := ascii "192.0.2.1"
  ttl := 3600
  domain_id := 1
  auth := true

/-- One backend that knows `wwwAddress`, and both caches switched on. -/
def wwwBackends : Backends where
  first := fun q =>
    if (q.qtype = QType.A ∨ q.qtype = QType.ANY) ∧ toLower q.qname = wwwAddress.qname ∧
        (q.zoneId = 1 ∨ q.zoneId = -1) then [wwwAddress] else []
  others := []
  queryttl := 20
  negqueryttl := 60

/-- The query for the address, in any zone. -/
def wwwQuestion : Question := { qtype := QType.A, qname := ascii "www.example.com" }

/-- The state after a lookup at time 0 that was drained by two `get`s. -/
def wwwDrained (q : Question) (lastrr d_answer : TextRR) : QuerySystem Unit :=
  run (step wwwBackends) (start (fun _ => lastrr) fun _ => d_answer)
    [.lookup () q 0 true, .get () 0 true, .get () 0 true]

/-- Asked twice for the address, the cache answers the second time, and rightly so. -/
theorem www_asked_twice :
    Backends.cacheHas wwwBackends wwwQuestion wwwAddress
        (wwwDrained wwwQuestion wwwAddress wwwAddress).PC 10 true = some (some wwwAddress) ∧
      Transparent wwwBackends (wwwDrained wwwQuestion wwwAddress wwwAddress)
        (.lookup () wwwQuestion 10 true) := by
  refine ⟨by decide, ?_⟩
  refine @query_cache_transparent Unit _ wwwBackends (fun _ => wwwAddress) (fun _ => wwwAddress)
    _ [] _ ?_
  refine ⟨⟨by decide, nofun⟩, trivial, trivial, ⟨by decide, ?_⟩, trivial⟩
  intro p t hp _
  obtain ⟨rfl, rfl⟩ := Prod.mk.inj (mem_singleton.mp hp)
  refine ⟨rfl, ?_⟩
  intro rr hrr
  obtain rfl := mem_singleton.mp hrr
  exact ⟨⟨by decide, by decide, by decide⟩, by decide, by decide,
    by decide, by decide⟩

/-- Asked first for zone 2, the backends have no such record; the cache keeps that for every
zone, and denies a record that the backends have. -/
theorem www_of_another_zone_denied :
    ¬Transparent wwwBackends (wwwDrained { wwwQuestion with zoneId := 2 } wwwAddress wwwAddress)
      (.lookup () wwwQuestion 10 true) := by
  intro h
  have hhit : Backends.cacheHas wwwBackends wwwQuestion wwwAddress
      (wwwDrained { wwwQuestion with zoneId := 2 } wwwAddress wwwAddress).PC 10 true =
        some none := by decide
  have hslot : ((wwwDrained { wwwQuestion with zoneId := 2 } wwwAddress wwwAddress).ub ()).d_answer
      = wwwAddress := by decide
  have hnone := h none (by rw [hslot]; exact hhit)
  cases hnone

end QuerySystem

end PowerDNS
