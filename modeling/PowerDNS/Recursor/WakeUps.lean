import PowerDNS.Recursor.MTasker
import PowerDNS.Recursor.PacketID

/-!
# Who is woken, and when

`WakesUp` says what the threads may rely on: a call of `waitEvent` that waits returns once, with
the value of an event that was sent for its key, or because its time-out has passed; it does
return when such an event is sent, and when `schedule` looks for time-outs after it has passed;
and `schedule` comes to an end.

`wakes_up_iff` says in which of the states that are reached this is so: in those in which something
is in a queue, or no thread waits without a time-out. In the others the loop of `schedule` stays at
the first waiter for ever.
-/

namespace PowerDNS

open List Option Bool

namespace MTasker

open OrderedUnique

variable {EventKey EventVal : Type}

/-! ### What the threads rely on -/

/-- The last event that was sent, or the last time the kernel looked for time-outs. -/
def lastCall : List (WaitLog EventKey EventVal) → Option (WaitLog EventKey EventVal)
  | [] => none
  | .sent key val :: _ => some (.sent key val)
  | .looked rnow :: _ => some (.looked rnow)
  | .waits _ _ _ _ :: log => lastCall log
  | .refused _ :: log => lastCall log
  | .returned _ _ _ _ :: log => lastCall log

/-- The call that waits in this context returns. -/
def isReturn (context : Nat) : WaitLog EventKey EventVal → Bool
  | .returned c _ _ _ => c == context
  | _ => false

/-- What may happen after the log: a call waits in a new context; a call that waits returns with
the value of the event that was sent last, for its key; or it had a time-out, and the time for
which the kernel looked last is not before that. -/
def Justified (less : EventKey → EventKey → Bool) (log : List (WaitLog EventKey EventVal)) :
    WaitLog EventKey EventVal → Prop
  | .waits context _ _ _ => ∀ key timeoutMsec now, .waits context key timeoutMsec now ∉ log
  | .returned context .Answer val key => ∃ waited timeoutMsec now event sent,
      .waits context waited timeoutMsec now ∈ log ∧ key = some waited ∧
      lastCall log = some (.sent event sent) ∧ same less waited event = true ∧
      ∀ x, sent = some x → val = some x
  | .returned context .TimeOut _ key => ∃ waited timeoutMsec now rnow,
      .waits context waited timeoutMsec now ∈ log ∧ key = some waited ∧
      lastCall log = some (.looked rnow) ∧ timeoutMsec ≠ 0 ∧
      now.micros + 1000 * timeoutMsec.toNat ≤ rnow.micros
  | _ => True

/-- All that happened was right when it did. -/
def Disciplined (less : EventKey → EventKey → Bool) : List (WaitLog EventKey EventVal) → Prop
  | [] => True
  | e :: log => Justified less log e ∧ Disciplined less log

/-- The waiter has a time-out, which has passed. -/
def Overdue (rnow : TimeVal) (w : Waiter EventKey) : Prop := w.ttd.tv_sec ≠ 0 ∧ w.ttd < rnow

instance (rnow : TimeVal) (w : Waiter EventKey) : Decidable (Overdue rnow w) :=
  inferInstanceAs (Decidable (_ ∧ _))

/-- Times do not decrease: in no turn from this one on, an earlier time is seen. -/
def NotBefore (threads : Threads EventKey) (turn : Nat) (rnow : TimeVal) : Prop :=
  ∀ i ≥ turn, ∀ key timeoutMsec now, .waitEvent key timeoutMsec now ∈ (threads i).calls → rnow ≤ now

/-- What the threads rely on, in some state. -/
structure WakesUp (less : EventKey → EventKey → Bool) (threads : Threads EventKey)
    (m : MTasker EventKey EventVal) : Prop where
  disciplined : Disciplined less m.log
  once : ∀ context key timeoutMsec now, .waits context key timeoutMsec now ∈ m.log →
    (context ∈ m.d_waiters.map Waiter.context ∧ m.log.countP (isReturn context) = 0) ∨
      (context ∉ m.d_waiters.map Waiter.context ∧ m.log.countP (isReturn context) = 1)
  answers : ∀ w ∈ m.d_waiters, ∀ key val, same less w.key key = true →
    ∃ v, .returned w.context .Answer v (some w.key) ∈ (m.sendEvent less threads key val).1.log
  terminates : ∀ rnow, NotBefore threads m.turns rnow →
    ∃ fuel result, m.schedule less threads fuel rnow = some result
  timesOut : ∀ rnow fuel m', NotBefore threads m.turns rnow →
    m.schedule less threads fuel rnow = some (m', false) → ∀ w ∈ m.d_waiters, Overdue rnow w →
    ∃ v key, .returned w.context .TimeOut v key ∈ m'.log

/-- Something is in a queue, or no thread waits without a time-out. -/
def CanSchedule (m : MTasker EventKey EventVal) : Prop :=
  m.d_runQueue ≠ [] ∨ m.d_zombiesQueue ≠ [] ∨ ∀ w ∈ m.d_waiters, w.ttd.tv_sec ≠ 0

/-- The states that are reached, from one in which nothing has happened, by calls of `makeThread`,
`sendEvent` and `schedule`, with times that do not decrease. -/
inductive Run (less : EventKey → EventKey → Bool) (threads : Threads EventKey) :
    MTasker EventKey EventVal → Prop
  | init : Run less threads {}
  | makeThread {m : MTasker EventKey EventVal} : Run less threads m →
      Run less threads m.makeThread
  | sendEvent {m : MTasker EventKey EventVal} (key : EventKey) (val : Option EventVal) :
      Run less threads m → Run less threads (m.sendEvent less threads key val).1
  | schedule {m m' : MTasker EventKey EventVal} {rnow : TimeVal} {fuel : Nat} {b : Bool} :
      Run less threads m → NotBefore threads m.turns rnow →
      m.schedule less threads fuel rnow = some (m', b) → Run less threads m'

/-! ### The waiters and the log -/

section Sound

variable {less : EventKey → EventKey → Bool}

/-- The waiters are in order, each in a context and with a key of its own, and each as the call
that waits has logged it; and of the calls that waited, the others have returned. -/
structure Sound (less : EventKey → EventKey → Bool) (m : MTasker EventKey EventVal) : Prop where
  sorted : TimerQueue.Sorted Waiter.ttd m.d_waiters
  nodes : (m.d_waiters.map Waiter.context).Nodup
  keys : m.d_waiters.Pairwise fun v w => same less v.key w.key = false
  logged : ∀ w ∈ m.d_waiters, ∃ timeoutMsec now,
    .waits w.context w.key timeoutMsec now ∈ m.log ∧ w.ttd = deadline timeoutMsec now
  made : ∀ context key timeoutMsec now, .waits context key timeoutMsec now ∈ m.log →
    context < m.contexts
  returns : ∀ context, m.log.countP (isReturn context) =
    if context < m.contexts ∧ context ∉ m.d_waiters.map Waiter.context then 1 else 0
  disciplined : Disciplined less m.log

/-- Which of two waiters is the first does not matter. -/
instance : Std.Symm fun v w : Waiter EventKey => same less v.key w.key = false where
  symm v w hvw := by
    rw [eq_false_iff] at hvw ⊢
    exact fun hwv => hvw (same_symm hwv)

theorem Sound.init : Sound less ({} : MTasker EventKey EventVal) where
  sorted := List.Pairwise.nil
  nodes := nodup_nil
  keys := List.Pairwise.nil
  logged := nofun
  made := nofun
  returns _ := rfl
  disciplined := trivial

/-- Only the waiters, the contexts and the log matter. -/
theorem Sound.congr {m m' : MTasker EventKey EventVal} (h : Sound less m)
    (hwaiters : m'.d_waiters = m.d_waiters) (hcontexts : m'.contexts = m.contexts)
    (hlog : m'.log = m.log) : Sound less m' := by
  obtain ⟨runQueue, zombies, threads, tid, maxtid, waitval, waitstatus, eventkey, waiters, contexts,
    turns, log⟩ := m'
  subst hwaiters hcontexts hlog
  exact ⟨h.sorted, h.nodes, h.keys, h.logged, h.made, h.returns, h.disciplined⟩

variable {m : MTasker EventKey EventVal} {w : Waiter EventKey}

/-- A waiter's context has been made. -/
theorem Sound.context_lt (h : Sound less m)
    (hw : w ∈ m.d_waiters) : w.context < m.contexts := by
  obtain ⟨timeoutMsec, now, hlog, -⟩ := h.logged w hw
  exact h.made _ _ _ _ hlog

/-- An event is logged that neither waits nor returns. -/
theorem Sound.log (h : Sound less m)
    {e : WaitLog EventKey EventVal} (hwaits : ∀ c key t now, e ≠ .waits c key t now)
    (hreturned : ∀ c, isReturn c e = false) (hjustified : Justified less m.log e) :
    Sound less { m with log := e :: m.log } where
  sorted := h.sorted
  nodes := h.nodes
  keys := h.keys
  logged w hw := by
    obtain ⟨timeoutMsec, now, hlog, httd⟩ := h.logged w hw
    exact ⟨timeoutMsec, now, mem_cons_of_mem _ hlog, httd⟩
  made c key t now hmem := by
    rcases mem_cons.1 hmem with heq | hmem
    · exact absurd heq.symm (hwaits _ _ _ _)
    · exact h.made _ _ _ _ hmem
  returns c := by
    rw [countP_cons_of_neg (by rw [hreturned]; exact false_ne_true)]
    exact h.returns c
  disciplined := ⟨hjustified, h.disciplined⟩

/-- A call waits, for a key that no other waits for. -/
theorem Sound.startWait (h : Sound less m) {key : EventKey}
    (timeoutMsec : UInt32) (now : TimeVal) (hkey : ∀ w ∈ m.d_waiters, same less w.key key = false) :
    Sound less (m.startWait key timeoutMsec now) where
  sorted := h.sorted.insert _
  nodes := by
    refine ((TimerQueue.perm_insert _ m.d_waiters).map Waiter.context).nodup_iff.2 ?_
    refine nodup_cons.2 ⟨fun hmem => ?_, h.nodes⟩
    obtain ⟨w, hw, heq⟩ := mem_map.1 hmem
    exact absurd heq (h.context_lt hw).ne
  keys := by
    refine (List.Perm.pairwise_iff (fun {v w} hvw => ?_) (TimerQueue.perm_insert _ m.d_waiters)).2 ?_
    · exact Std.Symm.symm (r := fun v w : Waiter EventKey => same less v.key w.key = false) v w hvw
    · refine pairwise_cons.2 ⟨fun w hw => ?_, h.keys⟩
      rw [eq_false_iff]
      exact fun hsame => eq_false_iff.1 (hkey w hw) (same_symm hsame)
  logged w hw := by
    rcases TimerQueue.mem_insert.1 hw with rfl | hw
    · exact ⟨timeoutMsec, now, mem_cons_self, rfl⟩
    · obtain ⟨t, n, hlog, httd⟩ := h.logged w hw
      exact ⟨t, n, mem_cons_of_mem _ hlog, httd⟩
  made c k t n hmem := by
    rcases mem_cons.1 hmem with heq | hmem
    · cases heq
      exact Nat.lt_succ_self _
    · exact Nat.lt_succ_of_lt (h.made _ _ _ _ hmem)
  returns c := by
    change List.countP (isReturn c) (_ :: m.log) = _
    rw [countP_cons_of_neg (by exact false_ne_true), h.returns]
    have hmem : c ∈ (m.startWait key timeoutMsec now).d_waiters.map Waiter.context ↔
        c = m.contexts ∨ c ∈ m.d_waiters.map Waiter.context := by
      change c ∈ List.map Waiter.context (TimerQueue.insert _ _ m.d_waiters) ↔ _
      rw [((TimerQueue.perm_insert _ m.d_waiters).map Waiter.context).mem_iff]
      exact mem_cons
    refine if_congr ?_ rfl rfl
    rw [hmem]
    change _ ↔ c < m.contexts + 1 ∧ _
    -- the new context waits, and has not returned
    by_cases hc : c = m.contexts
    · exact iff_of_false (fun h => absurd h.1 (by omega)) (fun h => h.2 (.inl hc))
    · exact and_congr (by omega) (not_congr (by simp [hc]))
  disciplined := ⟨fun k t n hmem => absurd (h.made _ _ _ _ hmem) (lt_irrefl _), h.disciplined⟩

/-- A waiter is woken. -/
theorem Sound.wake (h : Sound less m)
    (hw : w ∈ m.d_waiters) (hjustified : ∀ v, (m.d_waitstatus = .Answer → v = m.d_waitval) →
      Justified less m.log (.returned w.context m.d_waitstatus v (some w.key))) :
    Sound less (m.wake w) where
  sorted := h.sorted.sublist filter_sublist
  nodes := h.nodes.sublist (filter_sublist.map _)
  keys := h.keys.sublist filter_sublist
  logged v hv := by
    obtain ⟨t, n, hlog, httd⟩ := h.logged v (TimerQueue.mem_erase.1 hv).1
    exact ⟨t, n, mem_cons_of_mem _ hlog, httd⟩
  made c k t n hmem := by
    rcases mem_cons.1 hmem with heq | hmem
    · cases heq
    · exact h.made _ _ _ _ hmem
  returns c := by
    have hmem : c ∈ (m.wake w).d_waiters.map Waiter.context ↔
        c ∈ m.d_waiters.map Waiter.context ∧ c ≠ w.context := by
      constructor
      · intro hc
        obtain ⟨v, hv, rfl⟩ := mem_map.1 hc
        obtain ⟨hv, hne⟩ := TimerQueue.mem_erase.1 hv
        exact ⟨mem_map_of_mem hv, hne⟩
      · rintro ⟨hc, hne⟩
        obtain ⟨v, hv, rfl⟩ := mem_map.1 hc
        exact mem_map_of_mem (TimerQueue.mem_erase.2 ⟨hv, hne⟩)
    change List.countP (isReturn c) (.returned w.context _ _ _ :: m.log) = _
    by_cases hc : c = w.context
    · -- it waited, and now it has returned
      subst hc
      rw [countP_cons_of_pos (by exact beq_self_eq_true w.context), h.returns,
        if_neg (fun h' => h'.2 (mem_map_of_mem hw))]
      exact (if_pos ⟨h.context_lt hw, fun h' => (hmem.1 h').2 rfl⟩).symm
    · have hother : ¬ (w.context == c) = true := fun h' => hc (beq_iff_eq.1 h').symm
      rw [countP_cons_of_neg (by exact hother), h.returns]
      exact if_congr (and_congr_right' (not_congr (by rw [hmem]; simp [hc]))) rfl rfl
  disciplined := by
    refine ⟨hjustified _ fun hanswer => ?_, h.disciplined⟩
    rw [if_pos hanswer]

/-! ### A turn -/

/-- What holds at the end of a turn: what each call keeps. -/
theorem perform_rule {P : MTasker EventKey EventVal → Prop} {last : ThreadEnd}
    {calls : List (ThreadCall EventKey)} (hmake : ∀ m, P m → P m.makeThread)
    (hrefuse : ∀ m key, P m → P (m.refuse key))
    (hwait : ∀ m key timeoutMsec now, .waitEvent key timeoutMsec now ∈ calls →
      (∀ w ∈ m.d_waiters, same less w.key key = false) → P m → P (m.startWait key timeoutMsec now))
    (hlast : ∀ m, P m → P (m.endTurn last)) (h : P m) :
    P (perform less last calls m) := by
  induction calls generalizing m with
  | nil => exact hlast m h
  | cons call calls ih =>
    have ih' : ∀ {m : MTasker EventKey EventVal}, P m → P (perform less last calls m) :=
      ih fun m key t now hmem => hwait m key t now (mem_cons_of_mem _ hmem)
    cases call with
    | makeThread => exact ih' (hmake m h)
    | waitEvent key timeoutMsec now =>
      unfold perform
      split
      next => exact ih' (hrefuse m key h)
      next hnew =>
        refine hwait m key timeoutMsec now mem_cons_self (fun w hw => ?_) h
        rw [eq_false_iff]
        exact fun hsame => hnew (any_eq_true.2 ⟨w, hw, hsame⟩)

theorem Sound.perform (h : Sound less m) (last : ThreadEnd)
    (calls : List (ThreadCall EventKey)) : Sound less (perform less last calls m) := by
  refine perform_rule (fun m h => Sound.congr h rfl rfl rfl) (fun m key h => ?_)
    (fun m key t now _ hkey h => h.startWait t now hkey) (fun m h => ?_) h
  · exact h.log nofun (fun _ => rfl) trivial
  · cases last <;> exact h.congr rfl rfl rfl

theorem Sound.takeTurn (h : Sound less m)
    (threads : Threads EventKey) : Sound less (takeTurn less threads m) :=
  Sound.perform (m := { m with turns := m.turns + 1 }) (h.congr rfl rfl rfl) _ _

/-- A turn only adds to the log. -/
theorem mem_log_takeTurn {e : WaitLog EventKey EventVal}
    (h : e ∈ m.log) (threads : Threads EventKey) : e ∈ (takeTurn less threads m).log := by
  refine perform_rule (P := fun m => e ∈ m.log) (fun m h => h)
    (fun m key h => mem_cons_of_mem _ h) (fun m key t now _ _ h => mem_cons_of_mem _ h)
    (fun m h => ?_) h
  cases (threads _).last <;> exact h

/-! ### Answers -/

/-- The waiter for the key, if there is one, is woken by an event. -/
theorem sendEvent_cases (threads : Threads EventKey) (m : MTasker EventKey EventVal)
    (key : EventKey) (val : Option EventVal) :
    ((∀ w ∈ m.d_waiters, same less w.key key = false) ∧
        m.sendEvent less threads key val = (m, 0)) ∨
      ∃ w ∈ m.d_waiters, same less w.key key = true ∧ m.sendEvent less threads key val =
        (MTasker.takeTurn less threads ((m.setAnswer key val).wake w), 1) := by
  unfold sendEvent
  cases hfind : m.d_waiters.find? fun w => same less w.key key with
  | none =>
    exact .inl ⟨fun w hw => eq_false_iff.2 (find?_eq_none.1 hfind w hw), rfl⟩
  | some w => 
    have hsame := find?_some (p := fun w : Waiter EventKey => same less w.key key) hfind
    exact .inr ⟨w, mem_of_find?_eq_some hfind, hsame, rfl⟩

theorem Sound.answered (h : Sound less m) {key : EventKey}
    (val : Option EventVal) (hw : w ∈ m.d_waiters)
    (hsame : same less w.key key = true) : Sound less ((m.setAnswer key val).wake w) := by
  have hset : Sound less (m.setAnswer key val) :=
    (h.log (e := .sent key val) nofun (fun _ => rfl) trivial).congr rfl rfl rfl
  refine hset.wake hw fun v hv => ?_
  obtain ⟨t, n, hlog, -⟩ := h.logged w hw
  refine ⟨w.key, t, n, key, val, mem_cons_of_mem _ hlog, rfl, rfl, hsame, ?_⟩
  rintro x rfl
  exact hv rfl

theorem Sound.sendEvent (h : Sound less m)
    (threads : Threads EventKey) (key : EventKey) (val : Option EventVal) :
    Sound less (m.sendEvent less threads key val).1 := by
  rcases sendEvent_cases threads m key val with ⟨-, heq⟩ | ⟨w, hw, hsame, heq⟩
  · rwa [heq]
  · rw [heq]
    exact (h.answered val hw hsame).takeTurn threads

/-- **Answers**: the waiter for the key returns. -/
theorem Sound.answers [StrictWeakOrder less] (h : Sound less m)
    (threads : Threads EventKey) (hw : w ∈ m.d_waiters) (key : EventKey)
    (val : Option EventVal) (hsame : same less w.key key = true) :
    ∃ v, .returned w.context .Answer v (some w.key) ∈
      (m.sendEvent less threads key val).1.log := by
  rcases sendEvent_cases threads m key val with ⟨hnone, -⟩ | ⟨w', hw', hsame', heq⟩
  · rw [hnone w hw] at hsame
    cases hsame
  · -- no other waits for the same key
    have hunique : w' = w := by
      by_contra hne
      have hdiffer := h.keys.forall hw' hw hne
      rw [same_trans hsame' (same_symm hsame)] at hdiffer
      cases hdiffer
    subst hunique
    rw [heq]
    exact ⟨_, mem_log_takeTurn mem_cons_self threads⟩

/-! ### Time-outs -/

/-- The deadline of a wait is not before a time that is not after its beginning. -/
theorem not_overdue_deadline {rnow now : TimeVal} (h : rnow ≤ now) (timeoutMsec : UInt32)
    (hw : w.ttd = deadline timeoutMsec now) : ¬ Overdue rnow w := by
  rintro ⟨hsec, hlt⟩
  rw [hw] at hsec hlt
  unfold deadline at hsec hlt
  split at hlt
  next => exact absurd (hlt.trans_le h) (not_lt.2 (TimeVal.le_add _ _))
  next hzero =>
    rw [if_neg hzero] at hsec
    exact hsec rfl

/-- What holds whenever the loop of `schedule` comes to its head: no waiter in front of the
iterator is overdue, the one at it has a time-out, and `n` waiters are overdue. What was in `log`
still is, and since then only time-outs were logged as returned. -/
structure Looking (less : EventKey → EventKey → Bool) (threads : Threads EventKey)
    (rnow : TimeVal) (log : List (WaitLog EventKey EventVal)) (n : Nat) (cursor : Option Nat)
    (m : MTasker EventKey EventVal) : Prop where
  sound : Sound less m
  passed : TimerQueue.Passed Waiter.context (Overdue rnow) (fun w => w.ttd.tv_sec ≠ 0) m.d_waiters
    cursor
  overdue : m.d_waiters.countP (fun w => decide (Overdue rnow w)) = n
  notBefore : NotBefore threads m.turns rnow
  looked : lastCall m.log = some (.looked rnow)
  grows : ∀ e ∈ log, e ∈ m.log
  answered : ∀ c v key, .returned c .Answer v key ∈ m.log → .returned c .Answer v key ∈ log

variable {threads : Threads EventKey} {rnow : TimeVal} {log : List (WaitLog EventKey EventVal)}
  {n : Nat} {cursor : Option Nat}

/-- What the loop does not look at may change. -/
theorem Looking.congr {m m' : MTasker EventKey EventVal}
    (h : Looking less threads rnow log n cursor m) (hwaiters : m'.d_waiters = m.d_waiters)
    (hcontexts : m'.contexts = m.contexts) (hlog : m'.log = m.log) (hturns : m.turns ≤ m'.turns) :
    Looking less threads rnow log n cursor m' where
  sound := h.sound.congr hwaiters hcontexts hlog
  passed := hwaiters ▸ h.passed
  overdue := hwaiters ▸ h.overdue
  notBefore i hi := h.notBefore i (hturns.trans hi)
  looked := hlog ▸ h.looked
  grows := hlog ▸ h.grows
  answered := hlog ▸ h.answered

/-- What is done in a turn does not matter to the loop, if times do not decrease: nobody who begins
to wait is overdue. -/
theorem Looking.takeTurn
    (h : Looking less threads rnow log n cursor m) :
    Looking less threads rnow log n cursor (takeTurn less threads m) := by
  refine perform_rule (P := Looking less threads rnow log n cursor)
    (fun m h => h.congr rfl rfl rfl le_rfl) (fun m key h => ?_)
    (fun m' key t now hcall hkey h' => ?_) (fun m h => ?_)
    (h.congr rfl rfl rfl (Nat.le_succ _))
  · refine ⟨h.sound.log nofun (fun _ => rfl) trivial, h.passed, h.overdue, h.notBefore, h.looked,
      fun e he => mem_cons_of_mem _ (h.grows e he), ?_⟩
    exact fun c v k hmem => h.answered c v k ((mem_cons.1 hmem).resolve_left nofun)
  · have hfresh := not_overdue_deadline (h.notBefore _ le_rfl _ _ _ hcall) t
      (w := ⟨key, m'.contexts, deadline t now, m'.d_tid⟩) rfl
    refine ⟨h'.sound.startWait t now hkey, h'.passed.insert hfresh, ?_, h'.notBefore, h'.looked,
      fun e he => mem_cons_of_mem _ (h'.grows e he), fun c v k hmem => h'.answered c v k ((mem_cons.1 hmem).resolve_left nofun)⟩
    change (TimerQueue.insert _ _ _).countP _ = n
    rw [(TimerQueue.perm_insert _ _).countP_eq,
      countP_cons_of_neg (by rwa [decide_eq_true_eq])]
    exact h'.overdue
  · cases (threads _).last <;> exact h.congr rfl rfl rfl le_rfl

/-- **One time-out**: the waiter at the iterator is overdue; it is woken, and the iterator goes
on. -/
theorem Looking.timeOut {i : Nat}
    (h : Looking less threads rnow log (n + 1) (some i) m)
    (hget : TimerQueue.get Waiter.context m.d_waiters i = some w) (hoverdue : Overdue rnow w) :
    Looking less threads rnow log n (TimerQueue.next Waiter.context m.d_waiters i)
      (MTasker.takeTurn less threads ({ m with d_waitstatus := .TimeOut }.wake w)) := by
  obtain ⟨w', hw, rfl, -, hget'⟩ := h.passed.get h.sound.nodes
  obtain rfl : w' = w := some.inj (hget'.symm.trans hget)
  refine Looking.takeTurn ⟨?_, ?_, ?_, h.notBefore, h.looked,
    fun e he => mem_cons_of_mem _ (h.grows e he), ?_⟩
  · refine Sound.wake (m := { m with d_waitstatus := .TimeOut }) (h.sound.congr rfl rfl rfl) hw ?_
    intro v _
    obtain ⟨t, now, hlog, httd⟩ := h.sound.logged w' hw
    obtain ⟨hsec, hlt⟩ := hoverdue
    have ht : t ≠ 0 := by
      rintro rfl
      rw [httd] at hsec
      exact hsec rfl
    refine ⟨w'.key, t, now, rnow, hlog, rfl, h.looked, ht, ?_⟩
    have hle := TimeVal.micros_le_of_lt hlt
    rw [httd, deadline, if_pos ht, TimeVal.micros_add, TimeVal.micros_ofMsec] at hle
    omega
  · refine h.passed.erase h.sound.nodes h.sound.sorted hget fun x hx => ?_
    -- who is due later has a time-out, too
    have hle := TimeVal.tv_sec_le_of_le hx
    have hsec := hoverdue.1
    omega
  · have hone := h.passed.countP_erase h.sound.nodes hget
      (p := fun w => decide (Overdue rnow w)) (decide_eq_true hoverdue)
    have htotal := h.overdue
    change (TimerQueue.erase Waiter.context m.d_waiters w'.context).countP _ = n
    omega
  · exact fun c v k hmem => h.answered c v k ((mem_cons.1 hmem).resolve_left nofun)

/-- What the loop does at a waiter. -/
theorem timeOuts_at {i : Nat}
    (hget : TimerQueue.get Waiter.context m.d_waiters i = some w) (fuel : Nat) :
    timeOuts less threads rnow (fuel + 1) (some i) m =
      if Overdue rnow w then
        timeOuts less threads rnow fuel (TimerQueue.next Waiter.context m.d_waiters i)
          (MTasker.takeTurn less threads ({ m with d_waitstatus := .TimeOut }.wake w))
      else if w.ttd.tv_sec ≠ 0 then some m
      else timeOuts less threads rnow fuel (some i) m := by
  rw [timeOuts, hget]
  rfl

/-- The iterator is at a waiter that is overdue, or nobody is. -/
theorem Looking.cases
    (h : Looking less threads rnow log n cursor m) :
    (∃ i w, cursor = some i ∧ TimerQueue.get Waiter.context m.d_waiters i = some w ∧
        Overdue rnow w ∧ 0 < n) ∨
      (∀ w ∈ m.d_waiters, ¬ Overdue rnow w) ∧
        ∀ fuel, timeOuts less threads rnow (fuel + 1) cursor m = some m := by
  cases cursor with
  | none => exact .inr ⟨h.passed, fun _ => rfl⟩
  | some i =>
    obtain ⟨w, hw, rfl, hsec, hget⟩ := h.passed.get h.sound.nodes
    by_cases hoverdue : Overdue rnow w
    · refine .inl ⟨w.context, w, rfl, hget, hoverdue, ?_⟩
      rw [← h.overdue, countP_pos_iff]
      exact ⟨w, hw, decide_eq_true hoverdue⟩
    · refine .inr ⟨?_, fun fuel => ?_⟩
      · refine h.passed.stop h.sound.nodes h.sound.sorted hget fun v hv hlate => ?_
        exact hoverdue ⟨hsec, hv.trans_lt hlate.2⟩
      · rw [timeOuts_at hget, if_neg hoverdue, if_pos hsec]

/-- The loop comes to an end: each time round, one waiter fewer is overdue. -/
theorem Looking.ends
    (h : Looking less threads rnow log n cursor m) :
    ∃ m', timeOuts less threads rnow (n + 1) cursor m = some m' := by
  induction n generalizing m cursor with
  | zero =>
    rcases h.cases with ⟨i, w, -, -, -, hpos⟩ | ⟨-, hends⟩
    · exact absurd hpos (lt_irrefl _)
    · exact ⟨m, hends 0⟩
  | succ n ih =>
    rcases h.cases with ⟨i, w, rfl, hget, hoverdue, -⟩ | ⟨-, hends⟩
    · rw [timeOuts_at hget, if_pos hoverdue]
      exact ih (h.timeOut hget hoverdue)
    · exact ⟨m, hends _⟩

variable {fuel : Nat}

/-- When it has come to an end, nobody is overdue. -/
theorem Looking.done {m m' : MTasker EventKey EventVal}
    (h : Looking less threads rnow log n cursor m)
    (hends : timeOuts less threads rnow fuel cursor m = some m') :
    Looking less threads rnow log 0 none m' := by
  induction fuel generalizing m n cursor with
  | zero => cases hends
  | succ fuel ih =>
    rcases h.cases with ⟨i, w, rfl, hget, hoverdue, hpos⟩ | ⟨hnone, hall⟩
    · rw [timeOuts_at hget, if_pos hoverdue] at hends
      obtain ⟨n, rfl⟩ := Nat.exists_eq_succ_of_ne_zero hpos.ne'
      exact ih (h.timeOut hget hoverdue) hends
    · rw [hall] at hends
      obtain rfl := some.inj hends
      refine ⟨h.sound, hnone, ?_, h.notBefore, h.looked, h.grows, h.answered⟩
      rw [countP_eq_zero]
      exact fun w hw hoverdue => hnone w hw (of_decide_eq_true hoverdue)

/-- A waiter without a time-out is in front of all others that have one; the iterator does not come
past it. -/
theorem timeOuts_stuck (h : Sound less m)
    (hw : w ∈ m.d_waiters) (hsec : w.ttd.tv_sec = 0) (fuel : Nat) :
    timeOuts less threads rnow fuel (TimerQueue.first Waiter.context m.d_waiters) m = none := by
  cases hwaiters : m.d_waiters with
  | nil =>
    rw [hwaiters] at hw
    cases hw
  | cons v rest =>
    have hv : v.ttd.tv_sec = 0 := by
      have hsorted := h.sorted
      rw [hwaiters] at hw hsorted
      rcases mem_cons.1 hw with rfl | hw
      · exact hsec
      · have hle := TimeVal.tv_sec_le_of_le ((pairwise_cons.1 hsorted).1 w hw)
        omega
    have hget : TimerQueue.get Waiter.context m.d_waiters v.context = some v := by
      rw [hwaiters]
      exact find?_cons_of_pos (decide_eq_true rfl)
    change timeOuts less threads rnow fuel (some v.context) m = none
    induction fuel with
    | zero => rfl
    | succ fuel ih =>
      rw [timeOuts_at hget, if_neg (fun hoverdue => hoverdue.1 hv), if_neg (not_not.2 hv)]
      exact ih

/-! ### `schedule` -/

/-- What `schedule` does when the queues are empty and every waiter has a time-out. -/
theorem looking_first (h : Sound less m)
    (hsec : ∀ w ∈ m.d_waiters, w.ttd.tv_sec ≠ 0) (hnow : NotBefore threads m.turns rnow) :
    Looking less threads rnow m.log (m.d_waiters.countP fun w => decide (Overdue rnow w))
      (TimerQueue.first Waiter.context m.d_waiters) { m with log := .looked rnow :: m.log } where
  sound := h.log nofun (fun _ => rfl) trivial
  passed := TimerQueue.passed_first hsec
  overdue := rfl
  notBefore := hnow
  looked := rfl
  grows _ he := mem_cons_of_mem _ he
  answered _ _ _ hmem := (mem_cons.1 hmem).resolve_left nofun

/-- What `schedule` did: it gave control to a thread, or removed one that has ended, or looked for
time-outs. -/
theorem schedule_cases {m m' : MTasker EventKey EventVal} {b : Bool}
    (h : m.schedule less threads fuel rnow = some (m', b)) :
    (∃ tid, m.d_runQueue ≠ [] ∧ b = true ∧
        m'.d_waiters = (MTasker.takeTurn less threads { m with d_tid := tid }).d_waiters ∧
        m'.contexts = (MTasker.takeTurn less threads { m with d_tid := tid }).contexts ∧
        m'.log = (MTasker.takeTurn less threads { m with d_tid := tid }).log) ∨
      (m.d_zombiesQueue ≠ [] ∧ b = true ∧
        m'.d_waiters = m.d_waiters ∧ m'.contexts = m.contexts ∧ m'.log = m.log) ∨
      (m.d_runQueue = [] ∧ m.d_zombiesQueue = [] ∧ b = false ∧
        timeOuts less threads rnow fuel (TimerQueue.first Waiter.context m.d_waiters)
          { m with log := .looked rnow :: m.log } = some m') := by
  unfold schedule at h
  split at h
  next tid _ hrun =>
    obtain ⟨rfl, rfl⟩ := Prod.mk.inj (some.inj h)
    exact .inl ⟨tid, by rw [hrun]; exact cons_ne_nil _ _, rfl, rfl, rfl, rfl⟩
  next _ hzombies =>
    obtain ⟨rfl, rfl⟩ := Prod.mk.inj (some.inj h)
    exact .inr (.inl ⟨by rw [hzombies]; exact cons_ne_nil _ _, rfl, rfl, rfl, rfl⟩)
  next hrun hzombies =>
    obtain ⟨m'', hends, heq⟩ := map_eq_some_iff.1 h
    obtain ⟨rfl, rfl⟩ := Prod.mk.inj heq
    exact .inr (.inr ⟨hrun, hzombies, rfl, hends⟩)

/-- When `schedule` has looked for time-outs, every waiter had one. -/
theorem timeOuts_sec {m m' : MTasker EventKey EventVal} (h : Sound less m)
    (hends : timeOuts less threads rnow fuel (TimerQueue.first Waiter.context m.d_waiters)
      { m with log := .looked rnow :: m.log } = some m') : ∀ w ∈ m.d_waiters, w.ttd.tv_sec ≠ 0 := by
  intro w hw hsec
  have hlogged : Sound less { m with log := .looked rnow :: m.log } :=
    h.log nofun (fun _ => rfl) trivial
  cases (timeOuts_stuck hlogged hw hsec fuel).symm.trans hends

theorem Sound.schedule {m m' : MTasker EventKey EventVal} {fuel : Nat} {b : Bool}
    (h : Sound less m) (hnow : NotBefore threads m.turns rnow)
    (hschedule : m.schedule less threads fuel rnow = some (m', b)) : Sound less m' := by
  rcases schedule_cases hschedule with ⟨tid, -, -, hwaiters, hcontexts, hlog⟩ |
    ⟨-, -, hwaiters, hcontexts, hlog⟩ | ⟨-, -, -, hends⟩
  · have hturn : Sound less (MTasker.takeTurn less threads { m with d_tid := tid }) :=
      Sound.takeTurn (m := { m with d_tid := tid }) (h.congr rfl rfl rfl) threads
    exact hturn.congr hwaiters hcontexts hlog
  · exact h.congr hwaiters hcontexts hlog
  · exact ((looking_first h (timeOuts_sec h hends) hnow).done hends).sound

/-- **Termination**: `schedule` comes to an end. -/
theorem Sound.terminates (h : Sound less m) (hcan : CanSchedule m)
    (hnow : NotBefore threads m.turns rnow) :
    ∃ fuel result, m.schedule less threads fuel rnow = some result := by
  unfold MTasker.schedule
  split
  next => exact ⟨0, _, rfl⟩
  next => exact ⟨0, _, rfl⟩
  next hrun hzombies =>
    rcases hcan with hne | hne | hsec
    · exact absurd hrun hne
    · exact absurd hzombies hne
    · obtain ⟨m', hends⟩ := (looking_first h hsec hnow).ends
      exact ⟨_, (m', false), by rw [hends]; rfl⟩

/-- With nothing in the queues, and a waiter without a time-out, `schedule` does not come to an
end. -/
theorem Sound.schedule_stuck (h : Sound less m)
    (hrun : m.d_runQueue = []) (hzombies : m.d_zombiesQueue = [])
    (hw : w ∈ m.d_waiters) (hsec : w.ttd.tv_sec = 0) (fuel : Nat) :
    m.schedule less threads fuel rnow = none := by
  cases hschedule : m.schedule less threads fuel rnow with
  | none => rfl
  | some result =>
    rcases schedule_cases hschedule with ⟨-, hne, -⟩ | ⟨hne, -⟩ | ⟨-, -, -, hends⟩
    · exact absurd hrun hne
    · exact absurd hzombies hne
    · exact absurd hsec (timeOuts_sec h hends w hw)

/-- In a context, only one call waits. -/
theorem Disciplined.waits_unique {log : List (WaitLog EventKey EventVal)}
    (h : Disciplined less log) {c : Nat} {key key' : EventKey} {t t' : UInt32} {now now' : TimeVal}
    (hwaits : .waits c key t now ∈ log) (hwaits' : .waits c key' t' now' ∈ log) :
    t = t' ∧ now = now' := by
  induction log with
  | nil => cases hwaits
  | cons e log ih =>
    rcases mem_cons.1 hwaits with rfl | hold
    · rcases mem_cons.1 hwaits' with heq | hold'
      · cases heq
        exact ⟨rfl, rfl⟩
      · exact absurd hold' (h.1 _ _ _)
    · rcases mem_cons.1 hwaits' with rfl | hold'
      · exact absurd hold (h.1 _ _ _)
      · exact ih h.2 hold hold'

/-- **Time-outs**: when `schedule` has looked for them, all that were overdue have returned. -/
theorem Sound.timesOut {m m' : MTasker EventKey EventVal} (h : Sound less m)
    (hnow : NotBefore threads m.turns rnow)
    (hschedule : m.schedule less threads fuel rnow = some (m', false))
    (hw : w ∈ m.d_waiters) (hoverdue : Overdue rnow w) :
    ∃ v key, .returned w.context .TimeOut v key ∈ m'.log := by
  rcases schedule_cases hschedule with ⟨-, -, htrue, -⟩ | ⟨-, htrue, -⟩ | ⟨-, -, -, hends⟩
  · cases htrue
  · cases htrue
  · have hdone := (looking_first h (timeOuts_sec h hends) hnow).done hends
    obtain ⟨t, now, hwaits, httd⟩ := h.logged w hw
    -- it does not wait any more
    have hgone : w.context ∉ m'.d_waiters.map Waiter.context := by
      intro hmem
      obtain ⟨w', hw', hcontext⟩ := mem_map.1 hmem
      obtain ⟨t', now', hwaits', httd'⟩ := hdone.sound.logged w' hw'
      rw [hcontext] at hwaits'
      obtain ⟨rfl, rfl⟩ :=
        hdone.sound.disciplined.waits_unique (hdone.grows _ hwaits) hwaits'
      refine hdone.passed w' hw' ?_
      unfold Overdue
      rw [httd', ← httd]
      exact hoverdue
    have hone := hdone.sound.returns w.context
    rw [if_pos ⟨hdone.sound.made _ _ _ _ (hdone.grows _ hwaits), hgone⟩] at hone
    have hreturned : 0 < m'.log.countP (isReturn w.context) := hone ▸ Nat.one_pos
    obtain ⟨e, he, hreturn⟩ := countP_pos_iff.1 hreturned
    cases e with
    | returned c status v key =>
      obtain rfl := beq_iff_eq.1 hreturn
      cases status with
      | TimeOut => exact ⟨v, key, he⟩
      | Answer =>
        -- it had not returned before
        have hbefore := h.returns w.context
        rw [if_neg (fun hno => hno.2 (mem_map_of_mem hw)), countP_eq_zero] at hbefore
        exact absurd (beq_self_eq_true _) (hbefore _ (hdone.answered _ _ _ he))
    | _ => cases hreturn

theorem Run.sound (h : Run less threads m) : Sound less m := by
  induction h with
  | init => exact Sound.init
  | makeThread _ ih => exact ih.congr rfl rfl rfl
  | sendEvent key val _ ih => exact ih.sendEvent threads key val
  | schedule _ hnow hschedule ih => exact ih.schedule hnow hschedule

/-- **Who is woken, and when**: in every state that is reached, the threads get what they rely on
if and only if something is in a queue, or no thread waits without a time-out. -/
theorem wakes_up_iff [StrictWeakOrder less] {m : MTasker EventKey EventVal}
    (h : Run less threads m) : WakesUp less threads m ↔ CanSchedule m := by
  have hsound := h.sound
  constructor
  · intro hwakes
    by_contra hcannot
    unfold CanSchedule at hcannot
    push Not at hcannot
    obtain ⟨hrun, hzombies, w, hw, hsec⟩ := hcannot
    obtain ⟨fuel, result, hschedule⟩ :=
      hwakes.terminates ⟨0, 0, Nat.zero_le _⟩ fun _ _ _ _ now _ => TimeVal.zero_le now
    cases (hsound.schedule_stuck hrun hzombies hw hsec fuel).symm.trans hschedule
  · intro hcan
    refine ⟨hsound.disciplined, ?_, fun w hw key val => hsound.answers threads hw key val, ?_,
      fun rnow fuel m' hnow hschedule w hw => hsound.timesOut hnow hschedule hw⟩
    · intro context key timeoutMsec now hwaits
      have hreturns := hsound.returns context
      by_cases hwaiting : context ∈ m.d_waiters.map Waiter.context
      · exact .inl ⟨hwaiting, by rw [hreturns, if_neg fun hno => hno.2 hwaiting]⟩
      · refine .inr ⟨hwaiting, ?_⟩
        rw [hreturns, if_pos ⟨hsound.made _ _ _ _ hwaits, hwaiting⟩]
    · exact fun rnow hnow => hsound.terminates hcan hnow

end Sound

/-! ### A thread that waits -/

/-- A thread that waits for the event 5, for so many milliseconds, and then ends. -/
def waiting (timeoutMsec : UInt32) : Threads Nat
  | 0 => ⟨[.waitEvent 5 timeoutMsec (TimeVal.ofSec 1300000000)], .exit⟩
  | _ + 1 => ⟨[], .exit⟩

/-- When this thread has been started. -/
def started (timeoutMsec : UInt32) : MTasker Nat Nat :=
  { takeTurn natLess (waiting timeoutMsec) { makeThread {} with d_tid := 0 } with d_runQueue := [] }

theorem started_run (timeoutMsec : UInt32) :
    Run natLess (waiting timeoutMsec) (started timeoutMsec) :=
  @Run.schedule _ _ _ _ _ _ ⟨0, 0, Nat.zero_le _⟩ 0 true (.makeThread .init)
    (fun _ _ _ _ now _ => TimeVal.zero_le now) rfl

/-- **A thread that waits without a time-out**: `schedule` does not come to an end. -/
theorem forever_in_schedule :
    Run natLess (waiting 0) (started 0) ∧
      (∀ fuel rnow, (started 0).schedule natLess (waiting 0) fuel rnow = none) ∧
      ¬ WakesUp natLess (waiting 0) (started 0) := by
  have hrun := started_run 0
  have hstuck : ∀ fuel rnow, (started 0).schedule natLess (waiting 0) fuel rnow = none :=
    fun fuel rnow => hrun.sound.schedule_stuck rfl rfl mem_cons_self rfl fuel
  refine ⟨hrun, hstuck, fun hwakes => ?_⟩
  obtain ⟨fuel, result, hschedule⟩ :=
    hwakes.terminates ⟨0, 0, Nat.zero_le _⟩ fun _ _ _ _ now _ => TimeVal.zero_le now
  cases (hstuck fuel _).symm.trans hschedule

/-- A thread that waits for a second and a half is woken. -/
theorem waiting_wakes_up : WakesUp natLess (waiting 1500) (started 1500) :=
  (wakes_up_iff (started_run 1500)).mpr (.inr (.inr (by decide)))

end MTasker

end PowerDNS
