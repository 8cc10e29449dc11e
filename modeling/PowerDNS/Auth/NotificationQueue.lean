import Mathlib
import PowerDNS.Base.Octets
import PowerDNS.Lib.GuardedRun

/-!
# The queue of notifications

A master tells its slaves that a zone has changed. `NotificationQueue` keeps the notifications that
were not acknowledged: `getOne` hands out the first that is due and puts it off, by a time that
grows with each attempt, and reports and forgets it with the fifth; `removeIf` takes one off that
was acknowledged. The clock is read again and again while the queue is scanned.

A run of the queue keeps, as histories that no branch reads, how many notifications were added and
what was handed out; each notification is known by its number in the order of the additions.
`notifications_handed` is what holds of every run.
-/

namespace PowerDNS

open GuardedRun List Option

/-- `NotificationQueue::NotificationRequest`. `serial` is the number of the addition. -/
structure NotificationRequest where
  domain : Octets
  ip : Octets
  attempts : Nat
  id : UInt16
  next : Int
  serial : Nat
  deriving DecidableEq

/-- What `getOne` returns, when, and which notification it was. -/
structure Handed where
  domain : Octets
  ip : Octets
  id : UInt16
  purged : Bool
  time : Int
  serial : Nat
  deriving DecidableEq

namespace NotificationQueue

/-- What an entry of the queue is put off to. -/
def putOff (now : Int) (i : NotificationRequest) : NotificationRequest :=
  { i with attempts := i.attempts + 1, next := now + 1 + 2 ^ (i.attempts + 1) }

/-- What is told about an entry that is handed out. -/
def handedOut (now : Int) (i : NotificationRequest) : Handed where
  domain := i.domain
  ip := i.ip
  id := i.id
  purged := 4 < i.attempts + 1
  time := now
  serial := i.serial

/-- `getOne`, from the reading `k` of the clock on; `none` is the result `false`. -/
def getOne (clock : Nat → Int) (k : Nat) : List NotificationRequest → Option (Handed × List NotificationRequest)
  | [] => none
  | i :: d_nqueue =>
    if i.next ≤ clock k then
      let now := clock (k + 1)
      some (handedOut now i, if 4 < i.attempts + 1 then d_nqueue else putOff now i :: d_nqueue)
    else (getOne clock (k + 1) d_nqueue).map fun r => (r.1, i :: r.2)

/-- The test of `removeIf`. -/
def answers (remote : Octets) (id : UInt16) (domain : Octets) (i : NotificationRequest) : Bool :=
  i.id = id && i.ip = remote && i.domain = domain

/-- `removeIf`: the first entry that matches is erased. -/
def removeIf (remote : Octets) (id : UInt16) (domain : Octets) (d_nqueue : List NotificationRequest) :
    List NotificationRequest :=
  d_nqueue.eraseP (answers remote id domain)

/-- `while(d_nq.getOne(…))` at a time at which the clock stands still; `none` when it is not over after
`fuel` calls. -/
def getAll (now : Int) : Nat → List NotificationRequest → Option (List Handed × List NotificationRequest)
  | 0, _ => none
  | fuel + 1, d_nqueue =>
    match getOne (fun _ => now) 0 d_nqueue with
    | none => some ([], d_nqueue)
    | some r => (getAll now fuel r.2).map fun rest => (r.1 :: rest.1, rest.2)

/-- A queue with its history. -/
structure State where
  d_nqueue : List NotificationRequest := []
  added : Nat := 0
  handed : List Handed := []

/-- The calls of the queue. The id is drawn at random; a clock does not go back. -/
inductive Call
  | add (domain ip : Octets) (id : UInt16) (now : Int)
  | removeIf (remote : Octets) (id : UInt16) (domain : Octets)
  | getOne (clock : Nat →o Int)

/-- What a call does. -/
def step (s : State) : Call → State
  | .add domain ip id now =>
    { s with
      d_nqueue := s.d_nqueue ++ [{ domain, ip, attempts := 0, id, next := now, serial := s.added }]
      added := s.added + 1 }
  | .removeIf remote id domain => { s with d_nqueue := NotificationQueue.removeIf remote id domain s.d_nqueue }
  | .getOne clock =>
    match NotificationQueue.getOne clock.toFun 0 s.d_nqueue with
    | none => s
    | some r => { s with d_nqueue := r.2, handed := s.handed ++ [r.1] }

/-- An empty queue. -/
def start : State := {}

/-- What was handed out of one notification. -/
def State.handedOf (s : State) (serial : Nat) : List Handed := s.handed.filter fun h => h.serial = serial

/-- The attempts at one notification: five at most, each after the delay that the one before was put
off by, and only the fifth reported as the last. -/
structure Scheduled (attempts : List Handed) : Prop where
  often : attempts.length ≤ 5
  delay : ∀ k (h : k + 1 < attempts.length), attempts[k].time + 1 + 2 ^ (k + 1) ≤ attempts[k + 1].time
  purged : ∀ k (h : k < attempts.length), attempts[k].purged = true ↔ k = 4

/-! ### One call -/

/-- **What `getOne` does**: the entry handed out is due, and is put off, or erased when this was the
last attempt. -/
theorem getOne_spec {clock : Nat → Int} {k : Nat} {q : List NotificationRequest}
    {r : Handed × List NotificationRequest} (h : getOne clock k q = some r) :
    ∃ front i back j, q = front ++ i :: back ∧ i.next ≤ clock j ∧ r.1 = handedOut (clock (j + 1)) i ∧
      r.2 = front ++ if 4 < i.attempts + 1 then back else putOff (clock (j + 1)) i :: back := by
  induction q generalizing k r with
  | nil => cases h
  | cons i q ih =>
    rw [getOne] at h
    split at h
    next hdue =>
      obtain rfl := some.inj h
      exact ⟨[], i, q, k, rfl, hdue, rfl, rfl⟩
    next =>
      obtain ⟨r', hr', rfl⟩ := map_eq_some_iff.mp h
      obtain ⟨front, i', back, j, rfl, hdue, hhanded, hrest⟩ := ih hr'
      exact ⟨i :: front, i', back, j, rfl, hdue, hhanded, congrArg (i :: ·) hrest⟩

/-- What is left in the queue. -/
theorem mem_handed {front back : List NotificationRequest} {i m : NotificationRequest} {now : Int}
    (h : m ∈ front ++ if 4 < i.attempts + 1 then back else putOff now i :: back) :
    m ∈ front ++ back ∨ m = putOff now i ∧ ¬4 < i.attempts + 1 := by
  rcases mem_append.mp h with h | h
  · exact .inl (mem_append_left _ h)
  · split at h
    next => exact .inl (mem_append_right _ h)
    next hmore =>
      rcases mem_cons.mp h with rfl | h
      · exact .inr ⟨rfl, hmore⟩
      · exact .inl (mem_append_right _ h)

theorem mem_between {front back : List NotificationRequest} {i m : NotificationRequest} (h : m ∈ front ++ back) :
    m ∈ front ++ i :: back := by
  rcases mem_append.mp h with h | h
  · exact mem_append_left _ h
  · exact mem_append_right _ (mem_cons_of_mem i h)

/-- One attempt more. -/
theorem Scheduled.concat {attempts : List Handed} (h : Scheduled attempts) {next : Handed}
    (hfew : attempts.length ≤ 4) (hpurged : next.purged = true ↔ attempts.length = 4)
    (hdelay : ∀ last ∈ attempts.getLast?, last.time + 1 + 2 ^ attempts.length ≤ next.time) :
    Scheduled (attempts ++ [next]) where
  often := by
    rw [length_append, length_singleton]
    omega
  delay k hk := by
    rw [length_append, length_singleton] at hk
    rw [getElem_append_left (by omega)]
    rcases Nat.lt_or_ge (k + 1) attempts.length with hlt | hge
    · rw [getElem_append_left hlt]
      exact h.delay k hlt
    · have hlen : attempts.length = k + 1 := by omega
      have hindex : attempts.length - 1 = k := by omega
      have hlast : attempts.getLast? = some attempts[k] := by
        rw [getLast?_eq_getElem?, hindex]
        exact getElem?_eq_getElem _
      simpa [hlen] using hdelay _ hlast
  purged k hk := by
    rw [length_append, length_singleton] at hk
    rcases Nat.lt_or_ge k attempts.length with hlt | hge
    · rw [getElem_append_left hlt]
      exact h.purged k hlt
    · have hlen : attempts.length = k := by omega
      simpa [hlen] using hpurged

/-! ### Runs -/

/-- What holds of every queue: an entry knows how often it was handed out, and when it is due after
the last time. -/
structure Inv (s : State) : Prop where
  fresh : ∀ i ∈ s.d_nqueue, i.serial < s.added
  distinct : s.d_nqueue.Pairwise fun i j => i.serial ≠ j.serial
  old : ∀ h ∈ s.handed, h.serial < s.added
  counted : ∀ i ∈ s.d_nqueue, (s.handedOf i.serial).length = i.attempts ∧ i.attempts ≤ 4 ∧
    ∀ last ∈ (s.handedOf i.serial).getLast?, last.time + 1 + 2 ^ i.attempts = i.next
  scheduled : ∀ serial, Scheduled (s.handedOf serial)

theorem scheduled_nil : Scheduled [] where
  often := Nat.zero_le 5
  delay _ hk := absurd hk (Nat.not_lt_zero _)
  purged _ hk := absurd hk (Nat.not_lt_zero _)

theorem inv_start : Inv start where
  fresh _ hi := absurd hi not_mem_nil
  distinct := List.Pairwise.nil
  old _ hh := absurd hh not_mem_nil
  counted _ hi := absurd hi not_mem_nil
  scheduled _ := scheduled_nil

variable {s : State}

/-- The history of a notification with one more entry in that of all. -/
theorem handedOf_concat (s : State) (d_nqueue : List NotificationRequest) (h : Handed) (serial : Nat) :
    State.handedOf { s with d_nqueue, handed := s.handed ++ [h] } serial =
      if h.serial = serial then s.handedOf serial ++ [h] else s.handedOf serial := by
  unfold State.handedOf
  split
  next heq => simp [heq]
  next hne => simp [hne]

/-- A notification is added. -/
theorem Inv.add (hs : Inv s) (domain ip : Octets) (id : UInt16) (now : Int) :
    Inv (step s (.add domain ip id now)) where
  fresh i hi := by
    rcases mem_append.mp hi with hi | hi
    · exact Nat.lt_succ_of_lt (hs.fresh i hi)
    · rw [mem_singleton.mp hi]
      exact Nat.lt_succ_self _
  distinct := by
    refine pairwise_append.mpr ⟨hs.distinct, pairwise_singleton _ _, fun i hi j hj => ?_⟩
    rw [mem_singleton.mp hj]
    exact (hs.fresh i hi).ne
  old h hh := Nat.lt_succ_of_lt (hs.old h hh)
  counted i hi := by
    rcases mem_append.mp hi with hi | hi
    · exact hs.counted i hi
    · -- nothing was handed out under the new number
      have hnone : s.handedOf s.added = [] := by
        refine filter_eq_nil_iff.mpr fun h hh => ?_
        simpa using (hs.old h hh).ne
      rw [mem_singleton.mp hi]
      refine ⟨congrArg List.length hnone, Nat.zero_le 4, fun last hlast => ?_⟩
      change last ∈ (s.handedOf s.added).getLast? at hlast
      rw [hnone] at hlast
      cases hlast
  scheduled := hs.scheduled

/-- Entries are taken off. -/
theorem Inv.sublist (hs : Inv s) {d_nqueue : List NotificationRequest} (hsub : d_nqueue.Sublist s.d_nqueue) :
    Inv { s with d_nqueue } where
  fresh i hi := hs.fresh i (hsub.subset hi)
  distinct := hs.distinct.sublist hsub
  old := hs.old
  counted i hi := hs.counted i (hsub.subset hi)
  scheduled := hs.scheduled

/-- An entry is handed out. -/
theorem Inv.getOne (hs : Inv s) (clock : Nat →o Int) : Inv (step s (.getOne clock)) := by
  unfold step
  dsimp only
  cases hget : NotificationQueue.getOne clock 0 s.d_nqueue with
  | none => exact hs
  | some r =>
    obtain ⟨handed, d_nqueue⟩ := r
    obtain ⟨front, i, back, j, hq, hdue, hhanded, hrest⟩ := getOne_spec hget
    obtain rfl : handed = handedOut (clock (j + 1)) i := hhanded
    obtain rfl : d_nqueue = _ := hrest
    have hdistinct := hs.distinct
    have hcounted := hs.counted
    have hfresh := hs.fresh
    rw [hq] at hdistinct hcounted hfresh
    have hi : i ∈ front ++ i :: back := mem_append_right _ mem_cons_self
    obtain ⟨hcount, hfew, hlast⟩ := hcounted i hi
    -- the other entries are other notifications
    have hother : ∀ m ∈ front ++ back, i.serial ≠ m.serial := by
      obtain ⟨-, hback, hfront⟩ := pairwise_append.mp hdistinct
      intro m hm
      rcases mem_append.mp hm with hm | hm
      · exact Ne.symm (hfront m hm i mem_cons_self)
      · exact (pairwise_cons.mp hback).1 m hm
    have hsame : ∀ m ∈ front ++ back, State.handedOf
        { s with
          d_nqueue := front ++ if 4 < i.attempts + 1 then back else putOff (clock (j + 1)) i :: back
          handed := s.handed ++ [handedOut (clock (j + 1)) i] } m.serial = s.handedOf m.serial := fun m hm => by
      rw [handedOf_concat]
      exact if_neg (hother m hm)
    have hone : State.handedOf
        { s with
          d_nqueue := front ++ if 4 < i.attempts + 1 then back else putOff (clock (j + 1)) i :: back
          handed := s.handed ++ [handedOut (clock (j + 1)) i] } i.serial =
        s.handedOf i.serial ++ [handedOut (clock (j + 1)) i] := by
      rw [handedOf_concat]
      exact if_pos rfl
    constructor
    · intro m hm
      rcases mem_handed hm with hm | ⟨rfl, -⟩
      · exact hfresh m (mem_between hm)
      · exact hfresh i hi
    · dsimp only
      split
      next =>
        exact hdistinct.sublist ((List.Sublist.refl front).append (sublist_cons_self i back))
      next =>
        have hserials : (front ++ putOff (clock (j + 1)) i :: back).map (·.serial) =
            (front ++ i :: back).map (·.serial) := by
          rw [map_append, map_append]
          rfl
        have hmapped := pairwise_map.mpr hdistinct
        rw [← hserials] at hmapped
        exact pairwise_map.mp hmapped
    · intro h hh
      rcases mem_append.mp hh with hh | hh
      · exact hs.old h hh
      · rw [mem_singleton.mp hh]
        exact hfresh i hi
    · intro m hm
      rcases mem_handed hm with hm | ⟨rfl, hmore⟩
      · rw [hsame m hm]
        exact hcounted m (mem_between hm)
      · have hserial : (putOff (clock (j + 1)) i).serial = i.serial := rfl
        rw [hserial, hone]
        refine ⟨?_, not_lt.mp hmore, fun last hl => ?_⟩
        · rw [length_append, hcount]
          rfl
        · rw [getLast?_concat] at hl
          obtain rfl := some.inj hl
          rfl
    · intro serial
      rw [handedOf_concat]
      by_cases heq : i.serial = serial
      · subst heq
        have hself : (handedOut (clock (j + 1)) i).serial = i.serial := rfl
        rw [if_pos hself]
        refine (hs.scheduled i.serial).concat (hcount ▸ hfew) ?_ fun last hl => ?_
        · rw [hcount]
          show decide (4 < i.attempts + 1) = true ↔ _
          rw [decide_eq_true_iff]
          omega
        · rw [hcount, hlast last hl]
          exact hdue.trans (clock.monotone (Nat.le_succ j))
      · have hskip : (handedOut (clock (j + 1)) i).serial ≠ serial := heq
        rw [if_neg hskip]
        exact hs.scheduled serial

theorem inv_step (call : Call) (hs : Inv s) : Inv (step s call) := by
  cases call with
  | add domain ip id now => exact hs.add domain ip id now
  | removeIf remote id domain => exact hs.sublist eraseP_sublist
  | getOne clock => exact hs.getOne clock

theorem inv_run (calls : List Call) : Inv (run step start calls) :=
  run_invariant (fun _ call hs _ => inv_step call hs) inv_start (guarded_true start calls)

/-- A notification that was added and is no longer in the queue. -/
structure Gone (s : State) (serial : Nat) : Prop where
  added : serial < s.added
  left : ∀ i ∈ s.d_nqueue, i.serial ≠ serial

/-- It stays away, and nothing more is handed out of it. -/
theorem Gone.step {serial : Nat} (h : Gone s serial) (call : Call) :
    Gone (step s call) serial ∧ (NotificationQueue.step s call).handedOf serial = s.handedOf serial := by
  cases call with
  | add domain ip id now =>
    refine ⟨⟨Nat.lt_succ_of_lt h.added, fun i hi => ?_⟩, rfl⟩
    rcases mem_append.mp hi with hi | hi
    · exact h.left i hi
    · rw [mem_singleton.mp hi]
      exact h.added.ne'
  | removeIf remote id domain =>
    exact ⟨⟨h.added, fun i hi => h.left i (mem_of_mem_eraseP hi)⟩, rfl⟩
  | getOne clock =>
    simp only [NotificationQueue.step]
    cases hget : NotificationQueue.getOne clock 0 s.d_nqueue with
    | none => exact ⟨h, rfl⟩
    | some r =>
      obtain ⟨handed, d_nqueue⟩ := r
      obtain ⟨front, i, back, j, hq, -, hhanded, hrest⟩ := getOne_spec hget
      obtain rfl : handed = handedOut (clock (j + 1)) i := hhanded
      obtain rfl : d_nqueue = _ := hrest
      have hleft := h.left
      rw [hq] at hleft
      have hi : i.serial ≠ serial := hleft i (mem_append_right _ mem_cons_self)
      refine ⟨⟨h.added, fun m hm => ?_⟩, ?_⟩
      · rcases mem_handed hm with hm | ⟨rfl, -⟩
        · exact hleft m (mem_between hm)
        · exact hi
      · rw [handedOf_concat]
        exact if_neg hi

theorem Gone.run {serial : Nat} (h : Gone s serial) (calls : List Call) :
    (run NotificationQueue.step s calls).handedOf serial = s.handedOf serial := by
  induction calls generalizing s with
  | nil => rfl
  | cons call calls ih =>
    obtain ⟨hgone, hsame⟩ := h.step call
    exact (ih hgone).trans hsame

/-! ### Acknowledgements -/

/-- The notification that an acknowledgement takes off the queue. -/
theorem Inv.gone_removed (hs : Inv s) {remote domain : Octets} {id : UInt16} {n : NotificationRequest}
    (hfound : s.d_nqueue.find? (answers remote id domain) = some n) :
    Gone (NotificationQueue.step s (.removeIf remote id domain)) n.serial where
  added := hs.fresh n (mem_of_find?_eq_some hfound)
  left i hi heq := by
    obtain ⟨hn, front, back, hq, hfront⟩ := find?_eq_some_iff_append.mp hfound
    have hfront' : ∀ m ∈ front, ¬answers remote id domain m = true := fun m hm => by simpa using hfront m hm
    have hleft : i ∈ (front ++ n :: back).eraseP (answers remote id domain) := hq ▸ hi
    rw [eraseP_append_right _ hfront', eraseP_cons_of_pos hn] at hleft
    have hdistinct := hs.distinct
    rw [hq] at hdistinct
    obtain ⟨-, hback, hbetween⟩ := pairwise_append.mp hdistinct
    rcases mem_append.mp hleft with hi | hi
    · exact hbetween i hi n mem_cons_self heq
    · exact (pairwise_cons.mp hback).1 i hi heq.symm

/-! ### The loop over all that is due -/

/-- How many entries are due. -/
def due (now : Int) (q : List NotificationRequest) : Nat := q.countP fun i => decide (i.next ≤ now)

/-- At a time at which the clock stands still, an entry that was handed out is no longer due. -/
theorem due_getOne {now : Int} {q : List NotificationRequest} {r : Handed × List NotificationRequest}
    (h : getOne (fun _ => now) 0 q = some r) : due now r.2 < due now q := by
  obtain ⟨front, i, back, j, rfl, hdue, -, hrest⟩ := getOne_spec h
  have hcons : due now (i :: back) = due now back + 1 := countP_cons_of_pos (decide_eq_true hdue)
  have hmore : due now (front ++ i :: back) = due now front + due now (i :: back) := countP_append
  have hback : due now (if 4 < i.attempts + 1 then back else putOff now i :: back) = due now back := by
    split
    next => rfl
    next =>
      have hlater : now < (putOff now i).next := by
        have hpos : (0 : Int) < 2 ^ (i.attempts + 1) := Int.pow_pos (by decide)
        show now < now + 1 + 2 ^ (i.attempts + 1)
        omega
      exact countP_cons_of_neg (by simpa using hlater)
  have hless : due now r.2 = due now front + due now back := by
    rw [hrest, ← hback]
    exact countP_append
  rw [hless, hmore, hcons]
  exact Nat.lt_succ_self _

/-- **The loop is over** after one call for each entry that is due, and the one that finds none. -/
theorem getAll_isSome {now : Int} {fuel : Nat} {q : List NotificationRequest} (hfuel : due now q < fuel) :
    ∃ handed d_nqueue, getAll now fuel q = some (handed, d_nqueue) ∧ handed.length ≤ due now q ∧
      getOne (fun _ => now) 0 d_nqueue = none := by
  induction fuel generalizing q with
  | zero => exact absurd hfuel (Nat.not_lt_zero _)
  | succ fuel ih =>
    rw [getAll]
    cases hget : getOne (fun _ => now) 0 q with
    | none => exact ⟨[], q, rfl, Nat.zero_le _, hget⟩
    | some r =>
      have hless := due_getOne hget
      obtain ⟨handed, d_nqueue, hall, hlength, hnone⟩ := ih (q := r.2) (by omega)
      refine ⟨r.1 :: handed, d_nqueue, ?_, ?_, hnone⟩
      · dsimp only
        rw [hall]
        rfl
      · rw [length_cons]
        omega

/-- **Notifications are handed out** at most five times each, with growing delays, and reported as the
last time exactly then. An acknowledgement takes off the first notification it answers, of which
nothing more is handed out. And at a fixed time what is due comes to its end. -/
theorem notifications_handed :
    (∀ calls serial, Scheduled ((run step start calls).handedOf serial)) ∧
    (∀ before remote id domain after n,
      (run step start before).d_nqueue.find? (answers remote id domain) = some n →
      (run step start (before ++ .removeIf remote id domain :: after)).handedOf n.serial =
        (run step start before).handedOf n.serial) ∧
    ∀ now q, ∃ fuel handed d_nqueue, getAll now fuel q = some (handed, d_nqueue) ∧ handed.length ≤ q.length := by
  refine ⟨fun calls => (inv_run calls).scheduled, fun before remote id domain after n hfound => ?_, fun now q => ?_⟩
  · rw [run_append, run_cons]
    exact ((inv_run before).gone_removed hfound).run after
  · obtain ⟨handed, d_nqueue, hall, hlength, -⟩ := getAll_isSome (Nat.lt_succ_self (due now q))
    exact ⟨_, handed, d_nqueue, hall, hlength.trans countP_le_length⟩

/-- A zone is announced twice to one slave, under one id. The slave acknowledges it once both were
sent: the second notification, which the acknowledgement answers as well, is sent again. -/
theorem twin_handed_again :
    ¬∀ before remote id domain after, ∀ n ∈ (run step start before).d_nqueue, answers remote id domain n →
      (run step start (before ++ .removeIf remote id domain :: after)).handedOf n.serial =
        (run step start before).handedOf n.serial := by
  intro hall
  have hsecond := hall
    [.add [97] [49] 7 0, .add [97] [49] 7 0, .getOne (OrderHom.const ℕ 0), .getOne (OrderHom.const ℕ 0)]
    [49] 7 [97] [.getOne (OrderHom.const ℕ 10)]
    { domain := [97], ip := [49], attempts := 1, id := 7, next := 3, serial := 1 } (by decide) (by decide)
  exact absurd hsecond (by decide)

end NotificationQueue

end PowerDNS
