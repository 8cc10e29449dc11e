import Mathlib.Data.List.Perm.Basic
import PowerDNS.Base.TimeVal
import PowerDNS.Lib.GuardedRun
import PowerDNS.Lib.TimerQueue

/-!
# Many questions at once: `Inflighter`

`run` sends a question for each item of a container, a few at a time, and hands each answer to the
item whose question it is for; questions without an answer time out. The questions in flight are in
`d_ttdWatch`, which has a unique index by the ids that the sender gives, and one by deadlines.

The model is a machine of which each step is one turn of one of the loops. What the sender gives,
what `receive` gives and what the clock shows is not known (`Env`).

An item whose question gets an id that is in flight is not put into `d_ttdWatch`: nobody waits for
its answer. `right_iff` says that `run` does what it is for exactly when that does not happen.
-/

namespace PowerDNS

open List

namespace Inflighter

variable {Item Identifier Answer : Type}

/-! ### The code -/

/-- `Inflighter::TTDItem`; `iter` is the place in the container. -/
structure TTDItem (Identifier : Type) where
  iter : Nat
  id : Identifier
  ttd : TimeVal

/-- What the calls of `d_sr.send`, `d_sr.receive` and `gettimeofday` give, one after the other. -/
structure Env (Item Identifier Answer : Type) where
  send : Nat → Item → Identifier
  receive : Nat → Option (Identifier × Answer)
  gettimeofday : Nat → TimeVal

/-- The members that are set before `run`. -/
structure Config where
  d_maxInFlight : UInt32 := 5
  d_timeoutSeconds : UInt32 := 3
  d_burst : Int := 2

/-- What the sender is told, and what it is asked to send. A time-out is for the item that waits
under the id. -/
inductive Event (Identifier Answer : Type)
  | send (iter : Nat) (id : Identifier)
  | deliverAnswer (iter : Nat) (answer : Answer)
  | deliverTimeout (iter : Nat) (id : Identifier)

/-- Where `run` is. -/
inductive Place
  | sending (burst : Int)
  | receiving
  | cleaning
  | looping
  | returned
  deriving DecidableEq

/-- The other members, the place, how often the clock and `receive` were called, and what the sender
saw, the newest last. -/
structure State (Identifier Answer : Type) where
  d_ttdWatch : List (TTDItem Identifier) := []
  d_iter : Nat := 0
  d_unexpectedResponse : UInt64 := 0
  d_timeouts : UInt64 := 0
  place : Place := .sending 0
  received : Nat := 0
  read : Nat := 0
  log : List (Event Identifier Answer) := []

section Step

variable [DecidableEq Identifier] (env : Env Item Identifier Answer) (cfg : Config)
  (d_container : List Item) (s : State Identifier Answer)

/-- The item for which a question is sent. -/
def newItem (item : Item) : TTDItem Identifier where
  iter := s.d_iter
  id := env.send s.d_iter item
  ttd :=
    let now := env.gettimeofday s.read
    { now with tv_sec := now.tv_sec + cfg.d_timeoutSeconds.toNat }

/-- `d_ttdWatch.insert(ttdi)`; the index by ids is unique. -/
def watch (ttdi : TTDItem Identifier) (d_ttdWatch : List (TTDItem Identifier)) :
    List (TTDItem Identifier) :=
  if d_ttdWatch.any fun w => w.id = ttdi.id then d_ttdWatch
  else TimerQueue.insert TTDItem.ttd ttdi d_ttdWatch

/-- `if(!d_ttdWatch.empty())`. -/
def afterSending : State Identifier Answer :=
  { s with place := if s.d_ttdWatch.isEmpty then .looping else .receiving }

/-- The loop that sends. -/
def stepSending (burst : Int) : State Identifier Answer :=
  match d_container[s.d_iter]? with
  | none => afterSending s
  | some item =>
    if s.d_ttdWatch.length < cfg.d_maxInFlight.toNat then
      let ttdi := newItem env cfg s item
      let s' := { s with
        d_iter := s.d_iter + 1
        read := s.read + 1
        log := s.log ++ [.send ttdi.iter ttdi.id]
        d_ttdWatch := watch ttdi s.d_ttdWatch
        place := .sending (burst + 1) }
      if burst + 1 = cfg.d_burst then afterSending s' else s'
    else afterSending s

/-- The loop that receives. -/
def stepReceiving : State Identifier Answer :=
  let s' := { s with received := s.received + 1 }
  match env.receive s.received with
  -- nothing was processed
  | none => { s' with place := .cleaning }
  | some (id, answer) =>
    match s.d_ttdWatch.find? fun w => w.id = id with
    | some ival =>
      { s' with
        log := s.log ++ [.deliverAnswer ival.iter answer]
        d_ttdWatch := s.d_ttdWatch.eraseP fun w => w.id = id
        place := .looping }
    | none => { s' with d_unexpectedResponse := s.d_unexpectedResponse + 1 }

/-- The loop over the index by deadlines: what is too old is at its front. -/
def stepCleaning : State Identifier Answer :=
  let now := env.gettimeofday s.read
  let old := s.d_ttdWatch.takeWhile fun w => w.ttd < now
  { s with
    read := s.read + 1
    log := s.log ++ old.map fun w => .deliverTimeout w.iter w.id
    d_ttdWatch := s.d_ttdWatch.dropWhile fun w => w.ttd < now
    d_timeouts := s.d_timeouts + UInt64.ofNat old.length
    place := .looping }

/-- The end of a turn of the outer loop. -/
def stepLooping : State Identifier Answer :=
  { s with
    place := if s.d_ttdWatch.isEmpty ∧ s.d_iter = d_container.length then .returned else .sending 0 }

/-- One turn of the loop at which `run` is. -/
def step : State Identifier Answer :=
  match s.place with
  | .sending burst => stepSending env cfg d_container s burst
  | .receiving => stepReceiving env s
  | .cleaning => stepCleaning env s
  | .looping => stepLooping d_container s
  | .returned => s

/-- The state after so many steps of `run`. -/
def state (n : Nat) : State Identifier Answer := (step env cfg d_container)^[n] {}

end Step

/-! ### What it is for -/

/-- The items for which a question was sent, in order. -/
def sent (log : List (Event Identifier Answer)) : List Nat :=
  log.filterMap fun
    | .send iter _ => some iter
    | _ => none

/-- The items that had an answer or a time-out, in order. -/
def delivered (log : List (Event Identifier Answer)) : List Nat :=
  log.filterMap fun
    | .send .. => none
    | .deliverAnswer iter _ => some iter
    | .deliverTimeout iter _ => some iter

/-- The time goes on, and `receive` does not give one thing after the other for ever. -/
structure Progress (env : Env Item Identifier Answer) : Prop where
  clock : ∀ t, ∃ n, ∀ m ≥ n, t < env.gettimeofday m
  pauses : ∀ n, ∃ m, (env.receive (n + m)).isNone

section Right

variable [DecidableEq Identifier] (env : Env Item Identifier Answer) (cfg : Config)
  (d_container : List Item)

/-- **What `run` is for**: at any time no more than `d_maxInFlight` questions are without an outcome,
what an item is handed is an answer to its question, and `run` returns with nothing in flight, when
the question of each item was sent once and each item had one outcome. -/
structure Right : Prop where
  bounded : ∀ n, (sent (state env cfg d_container n).log).length ≤
    (delivered (state env cfg d_container n).log).length + cfg.d_maxInFlight.toNat
  answers : ∀ n iter answer, .deliverAnswer iter answer ∈ (state env cfg d_container n).log →
    ∃ m id, env.receive m = some (id, answer) ∧ .send iter id ∈ (state env cfg d_container n).log
  returns : ∃ n, (state env cfg d_container n).place = .returned ∧
    (state env cfg d_container n).d_ttdWatch = [] ∧
    sent (state env cfg d_container n).log = List.range d_container.length ∧
    (delivered (state env cfg d_container n).log).Perm (List.range d_container.length)

/-- **A collision**: the next step sends a question, and the id it gets is in flight. -/
def Collides (s : State Identifier Answer) : Prop :=
  ∃ burst item, s.place = .sending burst ∧ d_container[s.d_iter]? = some item ∧
    s.d_ttdWatch.length < cfg.d_maxInFlight.toNat ∧
    ∃ w ∈ s.d_ttdWatch, w.id = env.send s.d_iter item

end Right

/-! ### What a step does -/

section Moves

variable [DecidableEq Identifier] {env : Env Item Identifier Answer} {cfg : Config}
  {d_container : List Item} {s s' : State Identifier Answer}

@[simp] theorem sent_append (log log' : List (Event Identifier Answer)) :
    sent (log ++ log') = sent log ++ sent log' := filterMap_append

@[simp] theorem delivered_append (log log' : List (Event Identifier Answer)) :
    delivered (log ++ log') = delivered log ++ delivered log' := filterMap_append

theorem sent_timeouts (old : List (TTDItem Identifier)) :
    sent (old.map fun w => (.deliverTimeout w.iter w.id : Event Identifier Answer)) = [] := by
  induction old with
  | nil => rfl
  | cons w old ih => exact ih

theorem delivered_timeouts (old : List (TTDItem Identifier)) :
    delivered (old.map fun w => (.deliverTimeout w.iter w.id : Event Identifier Answer)) =
      old.map TTDItem.iter := by
  induction old with
  | nil => rfl
  | cons w old ih => exact congrArg (w.iter :: ·) ih

variable (env cfg d_container) in
/-- **A step** as far as the items are concerned. -/
inductive Moves (s s' : State Identifier Answer) : Prop
  | quiet (hiter : s'.d_iter = s.d_iter) (hwatch : s'.d_ttdWatch = s.d_ttdWatch)
      (hlog : s'.log = s.log)
  | sent (item : Item) (hitem : d_container[s.d_iter]? = some item)
      (hroom : s.d_ttdWatch.length < cfg.d_maxInFlight.toNat)
      (hnew : ∀ w ∈ s.d_ttdWatch, w.id ≠ env.send s.d_iter item)
      (hiter : s'.d_iter = s.d_iter + 1)
      (hlog : s'.log = s.log ++ [.send s.d_iter (env.send s.d_iter item)])
      (hwatch : s'.d_ttdWatch.Perm (newItem env cfg s item :: s.d_ttdWatch))
  | collided (item : Item) (hitem : d_container[s.d_iter]? = some item)
      (hcollides : Collides env cfg d_container s) (hiter : s'.d_iter = s.d_iter + 1)
      (hlog : s'.log = s.log ++ [.send s.d_iter (env.send s.d_iter item)])
      (hwatch : s'.d_ttdWatch = s.d_ttdWatch)
  | answered (w : TTDItem Identifier) (answer : Answer)
      (hreceived : env.receive s.received = some (w.id, answer)) (hiter : s'.d_iter = s.d_iter)
      (hlog : s'.log = s.log ++ [.deliverAnswer w.iter answer])
      (hwatch : s.d_ttdWatch.Perm (w :: s'.d_ttdWatch))
  | timedOut (old : List (TTDItem Identifier)) (hiter : s'.d_iter = s.d_iter)
      (hlog : s'.log = s.log ++ old.map fun w => .deliverTimeout w.iter w.id)
      (hwatch : s.d_ttdWatch = old ++ s'.d_ttdWatch)

@[simp] theorem afterSending_d_ttdWatch : (afterSending s).d_ttdWatch = s.d_ttdWatch := rfl

theorem Moves.afterSending (h : Moves env cfg d_container s s') :
    Moves env cfg d_container s (afterSending s') := by
  cases h with
  | quiet hiter hwatch hlog => exact .quiet hiter hwatch hlog
  | sent item hitem hroom hnew hiter hlog hwatch =>
    exact .sent item hitem hroom hnew hiter hlog hwatch
  | collided item hitem hcollides hiter hlog hwatch =>
    exact .collided item hitem hcollides hiter hlog hwatch
  | answered w answer hreceived hiter hlog hwatch => exact .answered w answer hreceived hiter hlog hwatch
  | timedOut old hiter hlog hwatch => exact .timedOut old hiter hlog hwatch

theorem moves_sending {burst : Int} (hplace : s.place = .sending burst) :
    Moves env cfg d_container s (stepSending env cfg d_container s burst) := by
  unfold stepSending
  cases hitem : d_container[s.d_iter]? with
  | none => exact .quiet rfl rfl rfl
  | some item =>
    dsimp only
    split
    next hroom =>
      have hsent : ∀ place, Moves env cfg d_container s { s with
          d_iter := s.d_iter + 1
          read := s.read + 1
          log := s.log ++ [.send s.d_iter (env.send s.d_iter item)]
          d_ttdWatch := watch (newItem env cfg s item) s.d_ttdWatch
          place := place } := by
        intro place
        by_cases hany : ∃ w ∈ s.d_ttdWatch, w.id = env.send s.d_iter item
        · have hcollides : Collides env cfg d_container s := ⟨burst, item, hplace, hitem, hroom, hany⟩
          refine .collided item hitem hcollides rfl rfl (if_pos ?_)
          obtain ⟨w, hw, hid⟩ := hany
          exact any_eq_true.mpr ⟨w, hw, decide_eq_true hid⟩
        · have hnew : ∀ w ∈ s.d_ttdWatch, w.id ≠ env.send s.d_iter item := fun w hw hid =>
            hany ⟨w, hw, hid⟩
          have hwatch : watch (newItem env cfg s item) s.d_ttdWatch =
              TimerQueue.insert TTDItem.ttd (newItem env cfg s item) s.d_ttdWatch := by
            refine if_neg fun h => ?_
            obtain ⟨w, hw, hid⟩ := any_eq_true.mp h
            exact hnew w hw (of_decide_eq_true hid)
          refine .sent item hitem hroom hnew rfl rfl ?_
          dsimp only
          rw [hwatch]
          exact TimerQueue.perm_insert _ _
      split
      · exact (hsent (.sending (burst + 1))).afterSending
      · exact hsent (.sending (burst + 1))
    next => exact .quiet rfl rfl rfl

theorem moves_receiving : Moves env cfg d_container s (stepReceiving env s) := by
  unfold stepReceiving
  cases hreceived : env.receive s.received with
  | none => exact .quiet rfl rfl rfl
  | some received =>
    obtain ⟨id, answer⟩ := received
    dsimp only
    cases hfind : s.d_ttdWatch.find? fun w => w.id = id with
    | none => exact .quiet rfl rfl rfl
    | some ival =>
      obtain ⟨hid, before, behind, hsplit, hbefore⟩ := find?_eq_some_iff_append.mp hfind
      have hid' : ival.id = id := of_decide_eq_true hid
      refine .answered ival answer (hid'.symm ▸ hreceived) rfl rfl ?_
      have herase : (s.d_ttdWatch.eraseP fun w => w.id = id) = before ++ behind := by
        rw [hsplit, eraseP_append_right _ (by simpa using hbefore),
          eraseP_cons_of_pos (p := fun w : TTDItem Identifier => decide (w.id = id)) hid]
      dsimp only
      rw [herase, hsplit]
      exact perm_middle

omit [DecidableEq Identifier] in
theorem moves_cleaning : Moves env cfg d_container s (stepCleaning env s) :=
  .timedOut _ rfl rfl takeWhile_append_dropWhile.symm

/-- **The cases of a step.** -/
theorem step_moves : Moves env cfg d_container s (step env cfg d_container s) := by
  unfold step
  cases hplace : s.place with
  | sending burst => exact moves_sending hplace
  | receiving => exact moves_receiving
  | cleaning => exact moves_cleaning
  | looping => exact .quiet rfl rfl rfl
  | returned => exact .quiet rfl rfl rfl

/-! ### What holds in every state -/

variable (env cfg d_container) in
/-- **The invariant.** -/
structure Inv (s : State Identifier Answer) : Prop where
  iter_le : s.d_iter ≤ d_container.length
  sent_eq : sent s.log = List.range s.d_iter
  watch_le : s.d_ttdWatch.length ≤ cfg.d_maxInFlight.toNat
  asked : ∀ w ∈ s.d_ttdWatch, w.iter < s.d_iter ∧ .send w.iter w.id ∈ s.log
  delivered_lt : ∀ iter ∈ delivered s.log, iter < s.d_iter
  answers : ∀ iter answer, .deliverAnswer iter answer ∈ s.log →
    ∃ m id, env.receive m = some (id, answer) ∧ .send iter id ∈ s.log

variable (env cfg d_container) in
theorem inv_start : Inv env cfg d_container ({} : State Identifier Answer) where
  iter_le := Nat.zero_le _
  sent_eq := rfl
  watch_le := Nat.zero_le _
  asked w hw := absurd hw not_mem_nil
  delivered_lt iter h := absurd h not_mem_nil
  answers iter answer h := absurd h not_mem_nil

/-- What was answered with what was sent for it, when the log goes on. -/
theorem Inv.answers_append (h : Inv env cfg d_container s)
    {events : List (Event Identifier Answer)} {iter : Nat} {answer : Answer}
    (hmem : .deliverAnswer iter answer ∈ s.log) :
    ∃ m id, env.receive m = some (id, answer) ∧ .send iter id ∈ s.log ++ events := by
  obtain ⟨m, id, hreceive, hsend⟩ := h.answers iter answer hmem
  exact ⟨m, id, hreceive, mem_append_left _ hsend⟩

theorem Inv.delivered_lt_send (h : Inv env cfg d_container s) {id : Identifier}
    (hiter : s'.d_iter = s.d_iter + 1) (hlog : s'.log = s.log ++ [.send s.d_iter id]) :
    ∀ iter ∈ delivered s'.log, iter < s'.d_iter := by
  intro iter hmem
  rw [hlog, delivered_append] at hmem
  rw [hiter]
  exact (h.delivered_lt iter ((mem_append.mp hmem).resolve_right not_mem_nil)).trans
    (Nat.lt_succ_self _)

theorem Inv.moves (h : Inv env cfg d_container s) (hmoves : Moves env cfg d_container s s') :
    Inv env cfg d_container s' := by
  cases hmoves with
  | quiet hiter hwatch hlog =>
    exact ⟨hiter ▸ h.iter_le, by rw [hlog, hiter, h.sent_eq], hwatch ▸ h.watch_le,
      by rw [hwatch, hiter, hlog]; exact h.asked, by rw [hiter, hlog]; exact h.delivered_lt,
      by rw [hlog]; exact h.answers⟩
  | sent item hitem hroom hnew hiter hlog hwatch =>
    refine ⟨?_, ?_, ?_, fun w hw => ?_, h.delivered_lt_send hiter hlog, fun iter answer hmem => ?_⟩
    · rw [hiter]
      exact (List.getElem?_eq_some_iff.mp hitem).1
    · rw [hlog, sent_append, h.sent_eq, hiter, range_succ]
      rfl
    · rw [hwatch.length_eq]
      exact hroom
    · rw [hiter, hlog]
      rcases mem_cons.mp (hwatch.mem_iff.mp hw) with rfl | hw
      · exact ⟨Nat.lt_succ_self _, mem_append_right _ mem_cons_self⟩
      · exact ⟨(h.asked w hw).1.trans (Nat.lt_succ_self _), mem_append_left _ (h.asked w hw).2⟩
    · rw [hlog] at hmem ⊢
      rcases mem_append.mp hmem with hmem | hmem
      · exact h.answers_append hmem
      · cases mem_singleton.mp hmem
  | collided item hitem hcollides hiter hlog hwatch =>
    refine ⟨?_, ?_, hwatch ▸ h.watch_le, fun w hw => ?_, h.delivered_lt_send hiter hlog,
      fun iter answer hmem => ?_⟩
    · rw [hiter]
      exact (List.getElem?_eq_some_iff.mp hitem).1
    · rw [hlog, sent_append, h.sent_eq, hiter, range_succ]
      rfl
    · rw [hwatch] at hw
      rw [hiter, hlog]
      exact ⟨(h.asked w hw).1.trans (Nat.lt_succ_self _), mem_append_left _ (h.asked w hw).2⟩
    · rw [hlog] at hmem ⊢
      rcases mem_append.mp hmem with hmem | hmem
      · exact h.answers_append hmem
      · cases mem_singleton.mp hmem
  | answered w answer hreceived hiter hlog hwatch =>
    have hsub : s'.d_ttdWatch ⊆ s.d_ttdWatch := fun w' hw' =>
      hwatch.mem_iff.mpr (mem_cons_of_mem w hw')
    refine ⟨hiter ▸ h.iter_le, ?_, ?_, fun w' hw' => ?_, fun iter hmem => ?_,
      fun iter answer' hmem => ?_⟩
    · rw [hlog, sent_append, h.sent_eq, hiter]
      exact append_nil _
    · have hlength := hwatch.length_eq
      rw [length_cons] at hlength
      exact (Nat.le_of_lt (hlength ▸ Nat.lt_succ_self _)).trans h.watch_le
    · rw [hiter, hlog]
      exact ⟨(h.asked w' (hsub hw')).1, mem_append_left _ (h.asked w' (hsub hw')).2⟩
    · rw [hlog, delivered_append] at hmem
      rw [hiter]
      rcases mem_append.mp hmem with hmem | hmem
      · exact h.delivered_lt iter hmem
      · obtain rfl := mem_singleton.mp hmem
        exact (h.asked w (hwatch.mem_iff.mpr mem_cons_self)).1
    · rw [hlog] at hmem ⊢
      rcases mem_append.mp hmem with hmem | hmem
      · exact h.answers_append hmem
      · obtain ⟨rfl, rfl⟩ : iter = w.iter ∧ answer' = answer := by
          cases mem_singleton.mp hmem
          exact ⟨rfl, rfl⟩
        exact ⟨_, w.id, hreceived, mem_append_left _
          (h.asked w (hwatch.mem_iff.mpr mem_cons_self)).2⟩
  | timedOut old hiter hlog hwatch =>
    have hsub : s'.d_ttdWatch ⊆ s.d_ttdWatch := fun w hw =>
      hwatch ▸ mem_append_right old hw
    refine ⟨hiter ▸ h.iter_le, ?_, ?_, fun w hw => ?_, fun iter hmem => ?_,
      fun iter answer hmem => ?_⟩
    · rw [hlog, sent_append, sent_timeouts, append_nil, h.sent_eq, hiter]
    · have hle := h.watch_le
      rw [hwatch, length_append] at hle
      omega
    · rw [hiter, hlog]
      exact ⟨(h.asked w (hsub hw)).1, mem_append_left _ (h.asked w (hsub hw)).2⟩
    · rw [hlog, delivered_append, delivered_timeouts] at hmem
      rw [hiter]
      rcases mem_append.mp hmem with hmem | hmem
      · exact h.delivered_lt iter hmem
      · obtain ⟨w, hw, rfl⟩ := mem_map.mp hmem
        exact (h.asked w (hwatch ▸ mem_append_left _ hw)).1
    · rw [hlog] at hmem ⊢
      rcases mem_append.mp hmem with hmem | hmem
      · exact h.answers_append hmem
      · obtain ⟨w, -, hw⟩ := mem_map.mp hmem
        cases hw

variable (env cfg d_container) in
theorem inv_state (n : Nat) : Inv env cfg d_container (state env cfg d_container n) :=
  Function.Iterate.rec (Inv env cfg d_container) (inv_start env cfg d_container)
    (fun _ h => h.moves step_moves) n

/-- Every question that was sent is in flight or has had its outcome. -/
def Balanced (s : State Identifier Answer) : Prop :=
  (delivered s.log ++ s.d_ttdWatch.map TTDItem.iter).Perm (List.range s.d_iter)

theorem Balanced.moves (h : Balanced s) (hmoves : Moves env cfg d_container s s')
    (hfree : ¬Collides env cfg d_container s) : Balanced s' := by
  unfold Balanced at h ⊢
  cases hmoves with
  | quiet hiter hwatch hlog => rwa [hiter, hwatch, hlog]
  | sent item hitem hroom hnew hiter hlog hwatch =>
    rw [hiter, hlog, delivered_append, range_succ]
    show (delivered s.log ++ [] ++ _).Perm _
    rw [append_nil]
    have hwatched : (delivered s.log ++ s'.d_ttdWatch.map TTDItem.iter).Perm
        (delivered s.log ++ s.d_iter :: s.d_ttdWatch.map TTDItem.iter) :=
      (hwatch.map TTDItem.iter).append_left _
    refine (hwatched.trans perm_middle).trans ?_
    exact (h.cons s.d_iter).trans (perm_append_singleton _ _).symm
  | collided item hitem hcollides hiter hlog hwatch => exact absurd hcollides hfree
  | answered w answer hreceived hiter hlog hwatch =>
    rw [hiter, hlog, delivered_append, append_assoc]
    exact ((hwatch.map TTDItem.iter).append_left _).symm.trans h
  | timedOut old hiter hlog hwatch =>
    rw [hiter, hlog, delivered_append, delivered_timeouts, append_assoc, ← map_append,
      ← hwatch]
    exact h

/-- An item whose question was sent is not in flight, and has no outcome. -/
structure Lost (iter : Nat) (s : State Identifier Answer) : Prop where
  passed : iter < s.d_iter
  not_watched : ∀ w ∈ s.d_ttdWatch, w.iter ≠ iter
  not_delivered : iter ∉ delivered s.log

/-- What is lost stays lost. -/
theorem Lost.moves {iter : Nat} (h : Lost iter s) (hmoves : Moves env cfg d_container s s') :
    Lost iter s' := by
  cases hmoves with
  | quiet hiter hwatch hlog =>
    exact ⟨hiter ▸ h.passed, hwatch ▸ h.not_watched, hlog ▸ h.not_delivered⟩
  | sent item hitem hroom hnew hiter hlog hwatch =>
    refine ⟨hiter ▸ h.passed.trans (Nat.lt_succ_self _), fun w hw => ?_, ?_⟩
    · rcases mem_cons.mp (hwatch.mem_iff.mp hw) with rfl | hw
      · exact h.passed.ne'
      · exact h.not_watched w hw
    · rw [hlog, delivered_append]
      exact fun hmem => h.not_delivered ((mem_append.mp hmem).resolve_right not_mem_nil)
  | collided item hitem hcollides hiter hlog hwatch =>
    refine ⟨hiter ▸ h.passed.trans (Nat.lt_succ_self _), hwatch ▸ h.not_watched, ?_⟩
    rw [hlog, delivered_append]
    exact fun hmem => h.not_delivered ((mem_append.mp hmem).resolve_right not_mem_nil)
  | answered w answer hreceived hiter hlog hwatch =>
    refine ⟨hiter ▸ h.passed, fun w' hw' => ?_, ?_⟩
    · exact h.not_watched w' (hwatch.mem_iff.mpr (mem_cons_of_mem w hw'))
    · rw [hlog, delivered_append]
      intro hmem
      rcases mem_append.mp hmem with hmem | hmem
      · exact h.not_delivered hmem
      · exact h.not_watched w (hwatch.mem_iff.mpr mem_cons_self) (mem_singleton.mp hmem).symm
  | timedOut old hiter hlog hwatch =>
    refine ⟨hiter ▸ h.passed, fun w hw => ?_, ?_⟩
    · exact h.not_watched w (hwatch ▸ mem_append_right old hw)
    · rw [hlog, delivered_append, delivered_timeouts]
      intro hmem
      rcases mem_append.mp hmem with hmem | hmem
      · exact h.not_delivered hmem
      · obtain ⟨w, hw, hiter'⟩ := mem_map.mp hmem
        exact h.not_watched w (hwatch ▸ mem_append_left _ hw) hiter'

/-- The item whose question gets an id that is in flight is lost. -/
theorem lost_of_collides (h : Inv env cfg d_container s) (hcollides : Collides env cfg d_container s) :
    Lost s.d_iter (step env cfg d_container s) := by
  obtain ⟨burst, item, hplace, hitem, hroom, w, hw, hid⟩ := hcollides
  have hany : (s.d_ttdWatch.any fun w => w.id = (newItem env cfg s item).id) = true :=
    any_eq_true.mpr ⟨w, hw, decide_eq_true hid⟩
  have hwatch : watch (newItem env cfg s item) s.d_ttdWatch = s.d_ttdWatch := if_pos hany
  have hlost : ∀ s' : State Identifier Answer, s'.d_iter = s.d_iter + 1 →
      s'.log = s.log ++ [.send s.d_iter (env.send s.d_iter item)] →
      s'.d_ttdWatch = s.d_ttdWatch → Lost s.d_iter s' := by
    intro s' hiter hlog hwatch
    refine ⟨hiter ▸ Nat.lt_succ_self _, fun w hw => ((h.asked w (hwatch ▸ hw)).1).ne, ?_⟩
    rw [hlog, delivered_append]
    intro hmem
    exact lt_irrefl _ (h.delivered_lt _ ((mem_append.mp hmem).resolve_right not_mem_nil))
  unfold step
  rw [hplace]
  dsimp only
  unfold stepSending
  rw [hitem]
  dsimp only
  rw [if_pos hroom, hwatch]
  split
  · exact hlost _ rfl rfl rfl
  · exact hlost _ rfl rfl rfl

/-! ### It returns -/

variable (d_container) in
/-- Something is in flight while `run` receives and cleans, and nothing is left when it returns. -/
structure Placed (s : State Identifier Answer) : Prop where
  waiting : s.place = .receiving ∨ s.place = .cleaning → s.d_ttdWatch ≠ []
  returned : s.place = .returned → s.d_ttdWatch = [] ∧ s.d_iter = d_container.length

theorem placed_of_place (hplace : (∃ burst, s.place = .sending burst) ∨ s.place = .looping) :
    Placed d_container s := by
  constructor
  · rintro (h | h) <;> rcases hplace with ⟨burst, hplace⟩ | hplace <;> rw [h] at hplace <;>
      cases hplace
  · intro h
    rcases hplace with ⟨burst, hplace⟩ | hplace <;> rw [h] at hplace <;> cases hplace

theorem placed_afterSending : Placed d_container (afterSending s) := by
  cases hwatch : s.d_ttdWatch with
  | nil =>
    refine placed_of_place (.inr ?_)
    unfold afterSending
    rw [hwatch]
    rfl
  | cons w ws =>
    have hplace : (afterSending s).place = .receiving := by
      unfold afterSending
      rw [hwatch]
      rfl
    refine ⟨fun _ => ?_, fun h => ?_⟩
    · rw [afterSending_d_ttdWatch, hwatch]
      exact cons_ne_nil w ws
    · rw [hplace] at h
      cases h

theorem Placed.step (h : Placed d_container s) :
    Placed d_container (step env cfg d_container s) := by
  unfold Inflighter.step
  cases hplace : s.place with
  | sending burst =>
    dsimp only
    unfold stepSending
    cases d_container[s.d_iter]? with
    | none => exact placed_afterSending
    | some item =>
      dsimp only
      split
      · split
        · exact placed_afterSending
        · exact placed_of_place (.inl ⟨_, rfl⟩)
      · exact placed_afterSending
  | receiving =>
    have hwaiting := h.waiting (.inl hplace)
    dsimp only
    unfold stepReceiving
    cases env.receive s.received with
    | none => exact ⟨fun _ => hwaiting, fun h => by cases h⟩
    | some received =>
      dsimp only
      split
      · exact placed_of_place (.inr rfl)
      · refine ⟨fun _ => hwaiting, fun h => ?_⟩
        dsimp only at h
        rw [hplace] at h
        cases h
  | cleaning => exact placed_of_place (.inr rfl)
  | looping =>
    dsimp only
    unfold stepLooping
    split
    next hdone =>
      refine ⟨fun h => ?_, fun _ => ⟨List.isEmpty_iff.mp hdone.1, hdone.2⟩⟩
      rcases h with h | h <;> cases h
    next => exact placed_of_place (.inl ⟨0, rfl⟩)
  | returned => exact h

/-- A question that is still to be sent counts for two, one in flight for one. -/
def workLeft (d_container : List Item) (s : State Identifier Answer) : Nat :=
  2 * (d_container.length - s.d_iter) + s.d_ttdWatch.length

/-- How often the clock must be looked at until the first deadline has passed; `N` is from when on
the clock shows a later time. -/
def clockGap (N : TimeVal → Nat) (s : State Identifier Answer) : Nat :=
  match s.d_ttdWatch with
  | [] => 0
  | w :: _ => N w.ttd - s.read

/-- How far `run` is from the end of a turn of the outer loop, or from its end. -/
def stage (d_container : List Item) (s : State Identifier Answer) : Nat :=
  match s.place with
  | .returned => 0
  | .looping => if s.d_ttdWatch.isEmpty ∧ s.d_iter = d_container.length then 1 else 4
  | .sending _ => 3
  | .receiving => 2
  | .cleaning => 1

/-- How often `receive` gives something before it gives nothing. -/
def pauseGap {env : Env Item Identifier Answer} (hp : Progress env) (s : State Identifier Answer) :
    Nat :=
  Nat.find (hp.pauses s.received)

variable (d_container) in
/-- What goes down with every step. -/
def toGo (hp : Progress env) (N : TimeVal → Nat) (s : State Identifier Answer) :
    ℕ ×ₗ ℕ ×ₗ ℕ ×ₗ ℕ :=
  toLex (workLeft d_container s, toLex (clockGap N s, toLex (stage d_container s, pauseGap hp s)))

variable {N : TimeVal → Nat} {hp : Progress env}

theorem toGo_lt_iff :
    toGo d_container hp N s' < toGo d_container hp N s ↔
      workLeft d_container s' < workLeft d_container s ∨
        workLeft d_container s' = workLeft d_container s ∧
          (clockGap N s' < clockGap N s ∨ clockGap N s' = clockGap N s ∧
            (stage d_container s' < stage d_container s ∨
              stage d_container s' = stage d_container s ∧ pauseGap hp s' < pauseGap hp s)) := by
  unfold toGo
  rw [Prod.Lex.toLex_lt_toLex, Prod.Lex.toLex_lt_toLex, Prod.Lex.toLex_lt_toLex]

theorem toGo_lt_of_work
    (h : workLeft d_container s' < workLeft d_container s) :
    toGo d_container hp N s' < toGo d_container hp N s :=
  toGo_lt_iff.mpr (.inl h)

/-- What changes the place only. -/
theorem toGo_lt_of_stage (hiter : s'.d_iter = s.d_iter)
    (hwatch : s'.d_ttdWatch = s.d_ttdWatch) (hread : s'.read = s.read)
    (h : stage d_container s' < stage d_container s) :
    toGo d_container hp N s' < toGo d_container hp N s := by
  have hwork : workLeft d_container s' = workLeft d_container s := by
    unfold workLeft
    rw [hiter, hwatch]
  have hclock : clockGap N s' = clockGap N s := by
    unfold clockGap
    rw [hwatch, hread]
  exact toGo_lt_iff.mpr (.inr ⟨hwork, .inr ⟨hclock, .inl h⟩⟩)

theorem length_watch_le (w : TTDItem Identifier) (d_ttdWatch : List (TTDItem Identifier)) :
    (watch w d_ttdWatch).length ≤ d_ttdWatch.length + 1 := by
  unfold watch
  split
  · exact Nat.le_succ _
  · rw [(TimerQueue.perm_insert w d_ttdWatch).length_eq, length_cons]

theorem stage_afterSending (hdone : s.d_ttdWatch = [] → s.d_iter = d_container.length) :
    stage d_container (afterSending s) ≤ 2 := by
  unfold stage afterSending
  cases hwatch : s.d_ttdWatch with
  | nil => simp [hdone hwatch]
  | cons w ws => exact le_rfl

theorem toGo_sending {burst : Int}
    (h : Inv env cfg d_container s) (hmax : d_container = [] ∨ 0 < cfg.d_maxInFlight.toNat)
    (hplace : s.place = .sending burst) :
    toGo d_container hp N (stepSending env cfg d_container s burst) < toGo d_container hp N s := by
  have hstage : stage d_container s = 3 := by
    unfold stage
    rw [hplace]
  unfold stepSending
  cases hitem : d_container[s.d_iter]? with
  | none =>
    have hend := h.iter_le.antisymm (List.getElem?_eq_none_iff.mp hitem)
    refine toGo_lt_of_stage rfl rfl rfl ?_
    rw [hstage]
    exact (stage_afterSending fun _ => hend).trans_lt (by decide)
  | some item =>
    dsimp only
    have hlt := (List.getElem?_eq_some_iff.mp hitem).1
    split
    next hroom =>
      have hwork : ∀ s' : State Identifier Answer, s'.d_iter = s.d_iter + 1 →
          s'.d_ttdWatch = watch (newItem env cfg s item) s.d_ttdWatch →
          workLeft d_container s' < workLeft d_container s := by
        intro s' hiter hwatch
        have hle := length_watch_le (newItem env cfg s item) s.d_ttdWatch
        unfold workLeft
        rw [hiter, hwatch]
        omega
      split
      · exact toGo_lt_of_work (hwork _ rfl rfl)
      · exact toGo_lt_of_work (hwork _ rfl rfl)
    next hfull =>
      refine toGo_lt_of_stage rfl rfl rfl ?_
      rw [hstage]
      refine (stage_afterSending fun hnil => ?_).trans_lt (by decide)
      -- nothing is in flight and there is no room: nothing may be in flight at all
      rw [hnil] at hfull
      rcases hmax with rfl | hmax
      · simp at hitem
      · exact absurd hmax hfull

theorem toGo_receiving (hplace : s.place = .receiving) :
    toGo d_container hp N (stepReceiving env s) < toGo d_container hp N s := by
  have hstage : stage d_container s = 2 := by
    unfold stage
    rw [hplace]
  unfold stepReceiving
  cases hreceived : env.receive s.received with
  | none =>
    refine toGo_lt_of_stage rfl rfl rfl ?_
    rw [hstage]
    exact Nat.lt_succ_self 1
  | some received =>
    dsimp only
    cases hfind : s.d_ttdWatch.find? fun w => w.id = received.1 with
    | some ival =>
      refine toGo_lt_of_work ?_
      have hlength := length_eraseP_of_mem (mem_of_find?_eq_some hfind)
        (find?_some hfind)
      have hpos := length_pos_of_mem (mem_of_find?_eq_some hfind)
      unfold workLeft
      dsimp only
      omega
    | none =>
      refine toGo_lt_iff.mpr (.inr ⟨rfl, .inr ⟨rfl, .inr ⟨?_, ?_⟩⟩⟩)
      · unfold stage
        dsimp only
      -- the pause comes nearer
      · unfold pauseGap
        dsimp only
        have hpause := Nat.find_spec (hp.pauses s.received)
        obtain ⟨k, hk⟩ : ∃ k, Nat.find (hp.pauses s.received) = k + 1 := by
          refine Nat.exists_eq_succ_of_ne_zero fun hzero => ?_
          rw [hzero, Nat.add_zero, hreceived] at hpause
          cases hpause
        rw [hk] at hpause ⊢
        refine Nat.lt_succ_of_le (Nat.find_min' _ ?_)
        rwa [Nat.add_right_comm]

theorem toGo_cleaning
    (hN : ∀ t, ∀ m ≥ N t, t < env.gettimeofday m) (hwaiting : s.d_ttdWatch ≠ []) :
    toGo d_container hp N (stepCleaning env s) < toGo d_container hp N s := by
  obtain ⟨w, ws, hwatch⟩ := exists_cons_of_ne_nil hwaiting
  by_cases hold : w.ttd < env.gettimeofday s.read
  · refine toGo_lt_of_work ?_
    have hdrop : (stepCleaning env s).d_ttdWatch =
        ws.dropWhile fun w => w.ttd < env.gettimeofday s.read := by
      unfold stepCleaning
      dsimp only
      rw [hwatch]
      exact dropWhile_cons_of_pos (decide_eq_true hold)
    have hle := (dropWhile_sublist (fun w : TTDItem Identifier =>
      decide (w.ttd < env.gettimeofday s.read)) (l := ws)).length_le
    unfold workLeft
    rw [hdrop, hwatch, length_cons]
    show 2 * (d_container.length - s.d_iter) + _ < 2 * (d_container.length - s.d_iter) + _
    omega
  · have hkept : (stepCleaning env s).d_ttdWatch = s.d_ttdWatch := by
      unfold stepCleaning
      dsimp only
      rw [hwatch, dropWhile_cons_of_neg (by simpa using hold)]
    have hbefore : s.read < N w.ttd := by
      by_contra hge
      exact hold (hN w.ttd s.read (Nat.le_of_not_lt hge))
    refine toGo_lt_iff.mpr (.inr ⟨?_, .inl ?_⟩)
    · unfold workLeft
      rw [hkept]
      rfl
    · unfold clockGap
      rw [hkept, hwatch]
      show N w.ttd - (s.read + 1) < N w.ttd - s.read
      omega

/-- **With every step** `run` comes nearer to its end. -/
theorem toGo_step
    (hN : ∀ t, ∀ m ≥ N t, t < env.gettimeofday m) (h : Inv env cfg d_container s)
    (hplaced : Placed d_container s) (hmax : d_container = [] ∨ 0 < cfg.d_maxInFlight.toNat)
    (hrunning : s.place ≠ .returned) :
    toGo d_container hp N (step env cfg d_container s) < toGo d_container hp N s := by
  unfold step
  cases hplace : s.place with
  | sending burst => exact toGo_sending h hmax hplace
  | receiving => exact toGo_receiving hplace
  | cleaning => exact toGo_cleaning hN (hplaced.waiting (.inr hplace))
  | looping =>
    refine toGo_lt_of_stage rfl rfl rfl ?_
    unfold stepLooping
    by_cases hdone : s.d_ttdWatch.isEmpty ∧ s.d_iter = d_container.length
    · have hstage : stage d_container s = 1 := by
        unfold stage
        rw [hplace]
        exact if_pos hdone
      rw [if_pos hdone, hstage]
      exact Nat.zero_lt_one
    · have hstage : stage d_container s = 4 := by
        unfold stage
        rw [hplace]
        exact if_neg hdone
      rw [if_neg hdone, hstage]
      exact Nat.lt_succ_self 3
  | returned => exact absurd hplace hrunning

variable (cfg d_container) in
/-- **`run` returns.** -/
theorem exists_returned (hp : Progress env)
    (hmax : d_container = [] ∨ 0 < cfg.d_maxInFlight.toNat) :
    ∃ n, (state env cfg d_container n).place = .returned := by
  choose N hN using hp.clock
  have hless : ∀ s : State Identifier Answer, Inv env cfg d_container s ∧ Placed d_container s →
      ¬s.place = .returned →
      toGo d_container hp N (step env cfg d_container s) < toGo d_container hp N s :=
    fun s hI hrunning => toGo_step hN hI.1 hI.2 hmax hrunning
  exact GuardedRun.exists_iterate_of_decreasing (fun s hI => ⟨hI.1.moves step_moves, hI.2.step⟩) hless
    ⟨inv_start env cfg d_container, placed_of_place (.inl ⟨0, rfl⟩)⟩

/-! ### When it does what it is for -/

theorem state_succ (n : Nat) :
    state env cfg d_container (n + 1) = step env cfg d_container (state env cfg d_container n) :=
  Function.iterate_succ_apply' _ _ _

/-- `run` has returned for good. -/
theorem returned_of_le {n m : Nat} (hle : n ≤ m)
    (h : (state env cfg d_container n).place = .returned) :
    state env cfg d_container m = state env cfg d_container n := by
  induction m, hle using Nat.le_induction with
  | base => rfl
  | succ m hle ih =>
    rw [state_succ, ih]
    unfold step
    rw [h]

theorem balanced_state (hfree : ∀ n, ¬Collides env cfg d_container (state env cfg d_container n))
    (n : Nat) : Balanced (state env cfg d_container n) := by
  induction n with
  | zero => exact List.Perm.refl _
  | succ n ih =>
    rw [state_succ]
    exact ih.moves step_moves (hfree n)

variable (env cfg d_container) in
theorem placed_state (n : Nat) : Placed d_container (state env cfg d_container n) := by
  induction n with
  | zero => exact placed_of_place (.inl ⟨0, rfl⟩)
  | succ n ih =>
    rw [state_succ]
    exact ih.step

/-- Without a collision all is as it should be. -/
theorem right_of_free (hp : Progress env) (hmax : d_container = [] ∨ 0 < cfg.d_maxInFlight.toNat)
    (hfree : ∀ n, ¬Collides env cfg d_container (state env cfg d_container n)) :
    Right env cfg d_container where
  bounded n := by
    have hlength := (balanced_state hfree n).length_eq
    have hle := (inv_state env cfg d_container n).watch_le
    rw [length_append, length_map, length_range] at hlength
    rw [(inv_state env cfg d_container n).sent_eq, length_range]
    omega
  answers n := (inv_state env cfg d_container n).answers
  returns := by
    obtain ⟨n, hreturned⟩ := exists_returned cfg d_container hp hmax
    obtain ⟨hwatch, hiter⟩ := (placed_state env cfg d_container n).returned hreturned
    have hbalanced := balanced_state hfree n
    unfold Balanced at hbalanced
    rw [hwatch, hiter, map_nil, append_nil] at hbalanced
    exact ⟨n, hreturned, hwatch, hiter ▸ (inv_state env cfg d_container n).sent_eq, hbalanced⟩

/-- With no room for any question none is sent. -/
theorem stuck_of_no_room (hmax : cfg.d_maxInFlight.toNat = 0) (n : Nat) :
    (state env cfg d_container n).d_iter = 0 := by
  induction n with
  | zero => rfl
  | succ n ih =>
    rw [state_succ]
    have hmoves : Moves env cfg d_container (state env cfg d_container n)
        (step env cfg d_container (state env cfg d_container n)) := step_moves
    cases hmoves with
    | quiet hiter => rw [hiter, ih]
    | sent item hitem hroom => exact absurd (hmax ▸ hroom) (Nat.not_lt_zero _)
    | collided item hitem hcollides =>
      obtain ⟨burst, item', -, -, hroom, -⟩ := hcollides
      exact absurd (hmax ▸ hroom) (Nat.not_lt_zero _)
    | answered w answer hreceived hiter => rw [hiter, ih]
    | timedOut old hiter => rw [hiter, ih]

/-- An item that is lost has no outcome at the end. -/
theorem not_right_of_collides {n : Nat}
    (hcollides : Collides env cfg d_container (state env cfg d_container n)) :
    ¬Right env cfg d_container := by
  intro hright
  obtain ⟨m, hreturned, -, -, hdelivered⟩ := hright.returns
  have hlt : n < m := by
    by_contra hge
    rw [returned_of_le (Nat.le_of_not_lt hge) hreturned] at hcollides
    obtain ⟨burst, item, hplace, -⟩ := hcollides
    rw [hreturned] at hplace
    cases hplace
  have hlost : ∀ m, n + 1 ≤ m →
      Lost (state env cfg d_container n).d_iter (state env cfg d_container m) := by
    intro m hle
    induction m, hle using Nat.le_induction with
    | base =>
      rw [state_succ]
      exact lost_of_collides (inv_state env cfg d_container n) hcollides
    | succ m hle ih =>
      rw [state_succ]
      exact ih.moves step_moves
  obtain ⟨-, item, -, hitem, -⟩ := hcollides
  have hmem := hdelivered.mem_iff.mpr (mem_range.mpr (List.getElem?_eq_some_iff.mp hitem).1)
  exact (hlost m hlt).not_delivered hmem

/-- **`run` does what it is for** exactly when there is room for a question (or none to send), and no
question gets an id that is in flight. -/
theorem right_iff (env : Env Item Identifier Answer) (cfg : Config) (d_container : List Item)
    (hp : Progress env) : Right env cfg d_container ↔
      (d_container = [] ∨ cfg.d_maxInFlight ≠ 0) ∧
        ∀ n, ¬Collides env cfg d_container (state env cfg d_container n) := by
  have hroom : cfg.d_maxInFlight ≠ 0 ↔ 0 < cfg.d_maxInFlight.toNat := by
    rw [Nat.pos_iff_ne_zero, ne_eq, ne_eq, ← UInt32.toNat_inj]
    rfl
  rw [hroom]
  constructor
  · intro hright
    refine ⟨?_, fun n hcollides => not_right_of_collides hcollides hright⟩
    by_contra hno
    obtain ⟨hne, hmax⟩ := not_or.mp hno
    obtain ⟨n, hreturned, -⟩ := hright.returns
    have hiter := (placed_state env cfg d_container n).returned hreturned
    rw [stuck_of_no_room (Nat.eq_zero_of_not_pos hmax)] at hiter
    exact hne (length_eq_zero_iff.mp hiter.2.symm)
  · rintro ⟨hmax, hfree⟩
    exact right_of_free hp hmax hfree

end Moves

/-! ### Three questions -/

/-- The clock shows the seconds that it was looked at; an answer that nobody waits for comes, then the
one for the id 1, then nothing. -/
def exampleEnv (send : Nat → Nat) : Env String Nat String where
  send k _ := send k
  receive
    | 0 => some (7, "unexpected")
    | 1 => some (1, "expected")
    | _ => none
  gettimeofday k := TimeVal.ofSec k

theorem exampleEnv_progress (send : Nat → Nat) : Progress (exampleEnv send) where
  clock t := ⟨t.tv_sec + 1, fun _ hm => TimeVal.lt_iff.mpr (.inl hm)⟩
  pauses n := ⟨2, rfl⟩

theorem exampleEnv_right : Right (exampleEnv id) {} ["a", "b", "c"] := by
  refine (right_iff (exampleEnv id) {} ["a", "b", "c"] (exampleEnv_progress id)).mpr
    ⟨.inr (by decide), fun n hcollides => ?_⟩
  have hreturned : (state (exampleEnv id) {} ["a", "b", "c"] 24).place = .returned := by decide
  rcases Nat.lt_or_ge n 24 with hlt | hge
  · have hall : ∀ n < 24, ∀ w ∈ (state (exampleEnv id) {} ["a", "b", "c"] n).d_ttdWatch,
        w.id ≠ (state (exampleEnv id) {} ["a", "b", "c"] n).d_iter := by decide
    obtain ⟨burst, item, -, -, -, w, hw, hid⟩ := hcollides
    exact hall n hlt w hw hid
  · obtain ⟨burst, item, hplace, -⟩ := hcollides
    rw [returned_of_le hge hreturned, hreturned] at hplace
    cases hplace

/-- **An item without an outcome**: the three questions get the same id, the second one while the first
is in flight. -/
theorem item_lost :
    (state (exampleEnv fun _ => 1) {} ["a", "b", "c"] 40).place = .returned ∧
      delivered (state (exampleEnv fun _ => 1) {} ["a", "b", "c"] 40).log = [0, 2] ∧
      ¬Right (exampleEnv fun _ => 1) {} ["a", "b", "c"] := by
  refine ⟨by decide, by decide, not_right_of_collides (n := 1) ?_⟩
  exact ⟨1, "b", by decide, rfl, by decide, ⟨0, 1, ⟨3, 0, Nat.zero_le _⟩⟩, mem_cons_self, rfl⟩

end Inflighter

end PowerDNS
