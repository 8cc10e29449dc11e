import PowerDNS.Auth.UeberBackend

/-!
# Asking several backends: `UeberBackend::get`

After a lookup that is not in the query cache, the `get`s hand out the records of a backend, and
`handle::get` goes on to the next backend while it has none. `firstRecords` is what that should
amount to: the records of the first backend that has any for the question.

`handle::get` asks the later backends for the type and the name only, so they are asked without
the zone id. `gets_iff` says when that makes no difference.
-/

namespace PowerDNS

open List

/-- The records of the first backend that has any for the question. -/
def firstRecords (q : Question) : List DNSBackend → List TextRR
  | [] => []
  | b :: backends => if b q = [] then firstRecords q backends else b q

/-- Each record once and in order, and nothing after the last. -/
def oneByOne (rrs : List TextRR) (n : Nat) : List (Option TextRR) :=
  (List.range n).map fun k => rrs[k]?

/-- A call of `get`: the time, whether it got the lock, and what is in the cache then. -/
structure GetCall where
  now : Int
  gotIt : Bool
  PC : PacketCache Octets

namespace Backends

variable {B : Backends} {q : Question} {ub : UeberBackend}

/-- What the calls of `get` return, one after the other. -/
def gets (B : Backends) : List GetCall → UeberBackend → List (Option TextRR)
  | [], _ => []
  | call :: calls, ub =>
    let r := B.get call.now call.gotIt call.PC ub
    r.1 :: gets B calls r.2.1

theorem oneByOne_cons (rr : TextRR) (rrs : List TextRR) (n : Nat) :
    oneByOne (rr :: rrs) (n + 1) = some rr :: oneByOne rrs n := by
  unfold oneByOne
  rw [range_succ_eq_map, map_cons, map_map]
  rfl

theorem oneByOne_nil (n : Nat) : oneByOne [] (n + 1) = none :: oneByOne [] n := by
  unfold oneByOne
  rw [range_succ_eq_map, map_cons, map_map]
  rfl

/-- Lists that come out the same, however often one asks, are the same. -/
theorem eq_of_oneByOne {rrs rrs' : List TextRR} (h : ∀ n, oneByOne rrs n = oneByOne rrs' n) :
    rrs = rrs' := by
  refine ext_getElem? fun k => ?_
  have hk := congrArg (fun l => l[k]?) (h (k + 1))
  unfold oneByOne at hk
  simpa using hk

/-- **The calls of `get`** hand out what the handle has left. -/
theorem gets_eq (hq : ub.d_question = some q) (neg : ub.d_negcached = false)
    (flag : ub.d_cached = false) (calls : List GetCall) :
    B.gets calls ub = oneByOne (ub.d_handle.left q) calls.length := by
  induction calls generalizing ub with
  | nil => rfl
  | cons call calls ih =>
    have hspec := Handle.get_spec q ub.d_handle
    unfold gets
    rcases hget : Handle.get q ub.d_handle.pending ub.d_handle.later with ⟨_ | rr, handle⟩
    · -- nothing is left, and nothing will be
      have hleft : ub.d_handle.left q = [] := Handle.left_of_get_none (by rw [hget])
      rw [hget, hleft] at hspec
      have hrest := @ih { ub with d_handle := handle } hq neg flag
      rw [show handle.left q = [] from hspec.symm] at hrest
      rw [get_asking_none hq neg flag hget, hleft, length_cons, oneByOne_nil]
      exact congrArg _ hrest
    · rw [hget] at hspec
      rw [get_asking_some hq neg flag hget, hspec, length_cons]
      refine Eq.trans (congrArg (some rr :: ·) ?_) (oneByOne_cons rr _ _).symm
      exact ih hq neg flag

/-! ### The zone id -/

/-- The backends behind the first are asked without the zone id. -/
theorem firstAnswering_nil (q : Question) (backends : List DNSBackend) :
    firstAnswering q [] backends = firstRecords { q with zoneId := -1 } backends := by
  induction backends with
  | nil => rfl
  | cons b backends ih =>
    rw [firstAnswering, firstRecords]
    split
    next hnone => rw [hnone, ih]
    next hsome =>
      obtain ⟨rr, rrs, hb⟩ := exists_cons_of_ne_nil hsome
      rw [hb, firstAnswering]

/-- What the backends return, against what they should. -/
theorem direct_eq_firstRecords_iff :
    B.direct q = firstRecords q (B.first :: B.others) ↔
      B.first q ≠ [] ∨ firstRecords { q with zoneId := -1 } B.others = firstRecords q B.others := by
  unfold direct
  rw [firstRecords]
  cases hfirst : B.first q with
  | nil => simp [firstAnswering_nil]
  | cons rr rrs => simp [firstAnswering]

/-- **The `get`s after a lookup** that misses the cache give the records of the first backend that
has any, if and only if the first of all backends has some, or the first of the others to have
some gives the same without the zone id. -/
theorem gets_iff {now : Int} {gotIt : Bool} {PC : PacketCache Octets}
    (hmiss : B.cacheHas q ub.d_answer PC now gotIt = none) :
    (∀ calls, B.gets calls (B.lookup q now gotIt PC ub) =
        oneByOne (firstRecords q (B.first :: B.others)) calls.length) ↔
      B.first q ≠ [] ∨ firstRecords { q with zoneId := -1 } B.others = firstRecords q B.others := by
  have hgets : ∀ calls, B.gets calls (B.lookup q now gotIt PC ub) =
      oneByOne (B.direct q) calls.length := by
    intro calls
    unfold lookup
    rw [hmiss]
    exact gets_eq rfl rfl rfl calls
  rw [← direct_eq_firstRecords_iff]
  refine ⟨fun h => eq_of_oneByOne fun n => ?_, fun h calls => by rw [hgets, h]⟩
  have hn := h (List.replicate n ⟨0, true, SequencedIndex.empty⟩)
  rwa [hgets, length_replicate] at hn

end Backends

/-! ### Two databases -/

/-- A backend that knows nothing in front of the one that knows `wwwAddress`. -/
def twoBackends : Backends where
  first := fun _ => []
  others := [QuerySystem.wwwBackends.first]
  queryttl := 20
  negqueryttl := 60

/-- A new instance. -/
def newInstance : UeberBackend where
  lastrr := QuerySystem.wwwAddress
  d_answer := QuerySystem.wwwAddress

/-- The address is found in the second database, once. -/
theorem gets_in_second :
    twoBackends.cacheHas { QuerySystem.wwwQuestion with zoneId := 1 } newInstance.d_answer
        SequencedIndex.empty 0 true = none ∧
    ∀ calls, twoBackends.gets calls (twoBackends.lookup { QuerySystem.wwwQuestion with zoneId := 1 }
        0 true SequencedIndex.empty newInstance) =
      oneByOne [QuerySystem.wwwAddress] calls.length :=
  ⟨by decide, (Backends.gets_iff (by decide)).mpr (.inr (by decide))⟩

/-- **A record of another zone**: no database has the name in zone 2, and the record of zone 1
comes out. -/
theorem gets_other_zone :
    twoBackends.cacheHas { QuerySystem.wwwQuestion with zoneId := 2 } newInstance.d_answer
        SequencedIndex.empty 0 true = none ∧
    ¬∀ calls, twoBackends.gets calls (twoBackends.lookup { QuerySystem.wwwQuestion with zoneId := 2 }
        0 true SequencedIndex.empty newInstance) =
      oneByOne (firstRecords { QuerySystem.wwwQuestion with zoneId := 2 }
        (twoBackends.first :: twoBackends.others)) calls.length := by
  refine ⟨by decide, fun h => ?_⟩
  have hone := h [⟨0, true, SequencedIndex.empty⟩]
  revert hone
  decide

end PowerDNS
