import Mathlib.Logic.Function.Basic
import PowerDNS.Recursor.LWRes

/-!
# What a server makes of EDNS: `SyncRes::asyncresolveWrapper`

For every server the recursor remembers which kind of query it can take, and since when it
believes so. `asyncresolveWrapper` asks up to three times: a server that answers FORMERR (or, when
nothing is known about it, REFUSED or NOTIMP) is asked again in a lower mode, and an answer may
put it into another one. A mode that is older than an hour is forgotten.

`asyncresolve` is a function from the number of the try and the EDNS level to what comes back. A
server that is not in the map is one with the status that `EDNSStatus()` makes.

The state of a run has one history beside the map: `since`, the time of the last call that found
the server in one mode and left it in another, or confirmed that it answers pings. `Stamped` says
that `modeSetAt` is that time. `stamped_call_iff` is about one call, `edns_status_stamped` about
all runs.
-/

namespace PowerDNS

open GuardedRun Option

/-- `EDNSStatus::EDNSMode`. -/
inductive EDNSMode
  | CONFIRMEDPINGER
  | UNKNOWN
  | EDNSNOPING
  | EDNSPINGOK
  | EDNSIGNORANT
  | NOEDNS
  deriving DecidableEq

/-- `EDNSStatus`. -/
structure EDNSStatus where
  mode : EDNSMode := .UNKNOWN
  modeSetAt : Nat := 0
  EDNSPingHitCount : Int := 0
  deriving DecidableEq

/-- The settings `s_noEDNS` and `s_noEDNSPing`. -/
structure EDNSSettings where
  s_noEDNS : Bool
  s_noEDNSPing : Bool

/-! ### One try -/

namespace EDNSMode

/-- `EDNSLevel`. -/
def level : EDNSMode → Nat
  | CONFIRMEDPINGER | UNKNOWN | EDNSPINGOK | EDNSIGNORANT => 2
  | EDNSNOPING => 1
  | NOEDNS => 0

/-- The lower mode in which the server is asked again after a reply, if it is. -/
def downgrade (lwr : LWReply) : EDNSMode → Option EDNSMode
  | CONFIRMEDPINGER | NOEDNS => none
  -- "this fixes F5"
  | UNKNOWN =>
    if lwr.d_rcode = RCode.FormErr ∨ lwr.d_rcode = RCode.Refused ∨ lwr.d_rcode = RCode.NotImp then
      some EDNSNOPING
    else none
  | EDNSPINGOK | EDNSIGNORANT => if lwr.d_rcode = RCode.FormErr then some EDNSNOPING else none
  | EDNSNOPING => if lwr.d_rcode = RCode.FormErr then some NOEDNS else none

/-- The mode after a reply with which the tries end. The branch for `EDNSPINGOK` further down is
not reached. -/
def settle (lwr : LWReply) : EDNSMode → EDNSMode
  | UNKNOWN | EDNSPINGOK | EDNSIGNORANT =>
    if lwr.d_pingCorrect then CONFIRMEDPINGER
    else if lwr.d_haveEDNS then EDNSPINGOK
    else EDNSIGNORANT
  | mode => mode

theorem downgrade_ne {lwr : LWReply} {mode lower : EDNSMode} (h : mode.downgrade lwr = some lower) :
    lower ≠ mode ∧ lower ≠ UNKNOWN ∧ (lower = EDNSNOPING ∨ lower = NOEDNS) := by
  cases mode <;> simp only [downgrade] at h <;> first | cases h | skip
  all_goals
    split at h
    · obtain rfl := some.inj h
      exact ⟨nofun, nofun, by simp⟩
    · cases h

/-- No reply leads back to `UNKNOWN`. -/
theorem settle_ne_unknown (lwr : LWReply) (mode : EDNSMode) : mode.settle lwr ≠ UNKNOWN := by
  have hpings : (if lwr.d_pingCorrect then CONFIRMEDPINGER
      else if lwr.d_haveEDNS then EDNSPINGOK else EDNSIGNORANT) ≠ UNKNOWN := by
    split
    · exact nofun
    · split <;> exact nofun
  cases mode with
  | UNKNOWN => exact hpings
  | EDNSPINGOK => exact hpings
  | EDNSIGNORANT => exact hpings
  | CONFIRMEDPINGER => exact nofun
  | EDNSNOPING => exact nofun
  | NOEDNS => exact nofun

/-- In a mode that was downgraded to, a reply changes nothing more. -/
theorem settle_downgraded {lwr : LWReply} {mode : EDNSMode}
    (h : mode = EDNSNOPING ∨ mode = NOEDNS) : mode.settle lwr = mode := by
  rcases h with rfl | rfl <;> rfl

end EDNSMode

namespace EDNSStatus

/-- What a reply that ends the tries makes of the status; "only the very best mode
self-perpetuates". -/
def settled (now : Nat) (lwr : LWReply) (st : EDNSStatus) : EDNSStatus :=
  if st.mode = .CONFIRMEDPINGER then
    if lwr.d_pingCorrect then { st with modeSetAt := now } else st
  else { st with mode := st.mode.settle lwr }

/-- `if(oldmode != mode)`. -/
def stamp (now : Nat) (oldmode : EDNSMode) (st : EDNSStatus) : EDNSStatus :=
  if oldmode ≠ st.mode then { st with modeSetAt := now } else st

/-- What is returned with a reply that ends the tries. -/
def answered (mode : EDNSMode) (r : Int × LWReply) : Int × LWReply :=
  if mode = .CONFIRMEDPINGER ∧ r.2.d_pingCorrect = false then
    (0, { r.2 with d_rcode := RCode.ServFail })
  else r

variable (now : Nat) (oldmode : EDNSMode) (asyncresolve : Nat → Nat → Int × LWReply)

/-- The body of the loop; `again` is what follows `continue`. -/
def attempt (again : EDNSStatus → Int × LWReply → EDNSStatus × (Int × LWReply)) (tries : Nat)
    (st : EDNSStatus) : EDNSStatus × (Int × LWReply) :=
  let r := asyncresolve tries st.mode.level
  -- "Transport error or timeout, no change in mode"
  if r.1 ≤ 0 then (st, r)
  else
    match st.mode.downgrade r.2 with
    | some lower => again { st with mode := lower } r
    | none => (stamp now oldmode (settled now r.2 st), answered st.mode r)

/-- The loop, when `left` more tries may follow this one. -/
def loop : Nat → Nat → EDNSStatus → EDNSStatus × (Int × LWReply)
  | 0, tries, st => attempt now oldmode asyncresolve (fun st r => (st, r)) tries st
  | left + 1, tries, st =>
    attempt now oldmode asyncresolve (fun st _ => loop left (tries + 1) st) tries st

/-- A status that is too old is forgotten. -/
def resetStale (st : EDNSStatus) : EDNSStatus :=
  if st.modeSetAt ≠ 0 ∧ st.modeSetAt + 3600 < now then {} else st

/-- Nobody is sent pings when they are switched off. -/
def withoutPing (cfg : EDNSSettings) (st : EDNSStatus) : EDNSStatus :=
  if cfg.s_noEDNSPing ∧ st.mode = .UNKNOWN then { st with mode := .EDNSNOPING } else st

/-- `asyncresolveWrapper`: the new status of the server, and what is returned. -/
def asyncresolveWrapper (cfg : EDNSSettings) (st : EDNSStatus) : EDNSStatus × (Int × LWReply) :=
  if cfg.s_noEDNS then (st, asyncresolve 0 0)
  else
    let st := withoutPing cfg (resetStale now st)
    loop now st.mode asyncresolve 2 0 st

end EDNSStatus

/-! ### Runs -/

/-- The map, and since when the servers are in their modes. -/
structure EDNSRun (ι : Type) where
  ednsstatus : ι → EDNSStatus
  since : ι → Nat

/-- A call of `asyncresolveWrapper`. -/
structure EDNSCall (ι : Type) where
  ip : ι
  now : Nat
  asyncresolve : Nat → Nat → Int × LWReply

namespace EDNSRun

open EDNSStatus

variable {ι : Type} (cfg : EDNSSettings)

/-- The mode in which a call finds the server. -/
def modeBefore (now : Nat) (st : EDNSStatus) : EDNSMode :=
  if cfg.s_noEDNS then st.mode else (resetStale now st).mode

/-- The first reply comes from a confirmed pinger, with the right ping. -/
def Confirms (call : EDNSCall ι) (st : EDNSStatus) : Prop :=
  cfg.s_noEDNS = false ∧ (resetStale call.now st).mode = .CONFIRMEDPINGER ∧
    0 < (call.asyncresolve 0 2).1 ∧ (call.asyncresolve 0 2).2.d_pingCorrect = true

instance (call : EDNSCall ι) (st : EDNSStatus) : Decidable (Confirms cfg call st) := by
  unfold Confirms
  infer_instance

/-- What a call does to the status of its server. -/
def statusAfter (call : EDNSCall ι) (st : EDNSStatus) : EDNSStatus :=
  (asyncresolveWrapper call.now call.asyncresolve cfg st).1

/-- The time since when the server is in its mode, after a call. -/
def sinceAfter (call : EDNSCall ι) (st : EDNSStatus) (since : Nat) : Nat :=
  if (statusAfter cfg call st).mode ≠ modeBefore cfg call.now st ∨ Confirms cfg call st then call.now
  else since

/-- The recursor has not asked anybody yet. -/
def start : EDNSRun ι := ⟨fun _ => {}, fun _ => 0⟩

/-- One call. -/
def step [DecidableEq ι] (s : EDNSRun ι) (call : EDNSCall ι) : EDNSRun ι where
  ednsstatus := Function.update s.ednsstatus call.ip
    (statusAfter cfg call (s.ednsstatus call.ip))
  since := Function.update s.since call.ip
    (sinceAfter cfg call (s.ednsstatus call.ip) (s.since call.ip))

/-! ### What is right, and when -/

/-- A mode that is not `UNKNOWN` has the time at which it was entered or confirmed last. -/
def Stamped (st : EDNSStatus) (since : Nat) : Prop :=
  st.mode ≠ .UNKNOWN → st.modeSetAt = since ∧ since ≠ 0

/-- After every downgrade the next try is answered. -/
def KeepsAnswering (asyncresolve : Nat → Nat → Int × LWReply) (mode : EDNSMode) : Prop :=
  ∀ lower, 0 < (asyncresolve 0 mode.level).1 →
    mode.downgrade (asyncresolve 0 mode.level).2 = some lower →
      0 < (asyncresolve 1 lower.level).1 ∧
        ∀ lowest, lower.downgrade (asyncresolve 1 lower.level).2 = some lowest →
          0 < (asyncresolve 2 lowest.level).1

/-- **When a call leaves its server with the right time**: a server that is asked without pings
for the first time answers FORMERR, and after every downgrade the next try is answered, unless the
mode before was set in the same second. -/
def CallOK (st : EDNSStatus) (call : EDNSCall ι) : Prop :=
  0 < call.now ∧
    (cfg.s_noEDNS = false →
      let found := resetStale call.now st
      let asked := withoutPing cfg found
      (asked.mode ≠ found.mode →
        0 < (call.asyncresolve 0 1).1 ∧ (call.asyncresolve 0 1).2.d_rcode = RCode.FormErr) ∧
      (found.modeSetAt = call.now ∨ KeepsAnswering call.asyncresolve asked.mode))

/-! ### One call -/

section Call

variable {cfg} {st : EDNSStatus} {since now : Nat} {asyncresolve : Nat → Nat → Int × LWReply}

/-- The invariant of a server: the time is right, and there is none in the mode `UNKNOWN`. -/
structure StatusInv (st : EDNSStatus) (since : Nat) : Prop where
  stamped : Stamped st since
  unknown : st.mode = .UNKNOWN → st.modeSetAt = 0

/-- Forgetting keeps the invariant. -/
theorem StatusInv.resetStale (h : StatusInv st since) (now : Nat) :
    StatusInv (resetStale now st) since := by
  unfold EDNSStatus.resetStale
  split
  · exact ⟨fun hne => absurd rfl hne, fun _ => rfl⟩
  · exact h

/-- A mode that is too old is forgotten. -/
theorem Stamped.resetStale_unknown (h : Stamped st since) (hold : since + 3600 < now) :
    (resetStale now st).mode = .UNKNOWN := by
  unfold EDNSStatus.resetStale
  split
  · rfl
  next hfresh =>
    by_contra hne
    obtain ⟨heq, hzero⟩ := h hne
    exact hfresh ⟨heq ▸ hzero, heq ▸ hold⟩

/-- Without pings, a server of which nothing is known has a mode that was not stamped. -/
theorem withoutPing_cases (cfg : EDNSSettings) (st : EDNSStatus) :
    withoutPing cfg st = st ∨
      (st.mode = .UNKNOWN ∧ withoutPing cfg st = { st with mode := .EDNSNOPING }) := by
  unfold withoutPing
  split
  next h => exact .inr ⟨h.2, rfl⟩
  next => exact .inl rfl

variable {again : EDNSStatus → Int × LWReply → EDNSStatus × (Int × LWReply)}

/-- A try that is not answered. -/
theorem attempt_failed {oldmode : EDNSMode}
    {tries : Nat}
    (h : (asyncresolve tries st.mode.level).1 ≤ 0) :
    (attempt now oldmode asyncresolve again tries st).1 = st := by
  unfold attempt
  rw [if_pos h]

/-- A reply that makes the server be asked again. -/
theorem attempt_lower {oldmode lower : EDNSMode}
    {tries : Nat}
    (h : 0 < (asyncresolve tries st.mode.level).1)
    (hlower : st.mode.downgrade (asyncresolve tries st.mode.level).2 = some lower) :
    attempt now oldmode asyncresolve again tries st =
      again { st with mode := lower } (asyncresolve tries st.mode.level) := by
  unfold attempt
  rw [if_neg (Int.not_le.mpr h), hlower]

/-- A reply that ends the tries. -/
theorem attempt_settled {oldmode : EDNSMode}
    {tries : Nat}
    (h : 0 < (asyncresolve tries st.mode.level).1)
    (hnone : st.mode.downgrade (asyncresolve tries st.mode.level).2 = none) :
    (attempt now oldmode asyncresolve again tries st).1 =
      EDNSStatus.stamp now oldmode (settled now (asyncresolve tries st.mode.level).2 st) := by
  unfold attempt
  rw [if_neg (Int.not_le.mpr h), hnone]

/-- In a mode that was downgraded to, a reply leaves the status as it is. -/
theorem settled_downgraded {lwr : LWReply} (h : st.mode = .EDNSNOPING ∨ st.mode = .NOEDNS) :
    settled now lwr st = st := by
  unfold EDNSStatus.settled
  rw [if_neg (by rcases h with h | h <;> rw [h] <;> exact nofun), EDNSMode.settle_downgraded h]

/-- After a downgrade an answered try, if it ends the tries, leaves the mode, and stamps it. -/
theorem attempt_settled_lower {oldmode lower : EDNSMode}
    {again : EDNSStatus → Int × LWReply → EDNSStatus × (Int × LWReply)} {tries : Nat}
    (hmode : lower = .EDNSNOPING ∨ lower = .NOEDNS) (hne : oldmode ≠ lower)
    (h : 0 < (asyncresolve tries lower.level).1)
    (hnone : lower.downgrade (asyncresolve tries lower.level).2 = none) :
    (attempt now oldmode asyncresolve again tries { st with mode := lower }).1 =
      { st with mode := lower, modeSetAt := now } := by
  rw [attempt_settled h hnone, settled_downgraded hmode]
  exact if_pos hne

/-- **A downgrade**: the new mode has the time of the call, unless a try that follows is not
answered, and the time is that of the mode before. -/
theorem loop_lower {lower : EDNSMode} (h : 0 < (asyncresolve 0 st.mode.level).1)
    (hlower : st.mode.downgrade (asyncresolve 0 st.mode.level).2 = some lower) :
    (loop now st.mode asyncresolve 2 0 st).1.mode ≠ .UNKNOWN ∧
      (loop now st.mode asyncresolve 2 0 st).1.mode ≠ st.mode ∧
      (KeepsAnswering asyncresolve st.mode ∧
          (loop now st.mode asyncresolve 2 0 st).1.modeSetAt = now ∨
        ¬KeepsAnswering asyncresolve st.mode ∧
          (loop now st.mode asyncresolve 2 0 st).1.modeSetAt = st.modeSetAt) := by
  obtain ⟨hne, hknown, hmode⟩ := EDNSMode.downgrade_ne hlower
  have hkeeps : KeepsAnswering asyncresolve st.mode ↔
      0 < (asyncresolve 1 lower.level).1 ∧
        ∀ lowest, lower.downgrade (asyncresolve 1 lower.level).2 = some lowest →
          0 < (asyncresolve 2 lowest.level).1 := by
    refine ⟨fun hk => hk lower h hlower, fun hk lower' _ hlower' => ?_⟩
    obtain rfl := some.inj (hlower.symm.trans hlower')
    exact hk
  rw [hkeeps]
  unfold loop
  rw [attempt_lower h hlower]
  unfold loop
  rcases Int.lt_or_le 0 (asyncresolve 1 lower.level).1 with hanswer | hfail
  · cases hnext : lower.downgrade (asyncresolve 1 lower.level).2 with
    | none =>
      rw [attempt_settled_lower hmode hne.symm hanswer hnext]
      exact ⟨hknown, hne, .inl ⟨⟨hanswer, nofun⟩, rfl⟩⟩
    | some lowest =>
      obtain ⟨hne', hknown', hmode'⟩ := EDNSMode.downgrade_ne hnext
      -- only `EDNSNOPING` goes further down, and only to `NOEDNS`
      obtain rfl : lower = .EDNSNOPING := by
        rcases hmode with rfl | rfl
        · rfl
        · cases hnext
      obtain rfl : lowest = .NOEDNS := hmode'.resolve_left hne'
      have hold : st.mode ≠ .NOEDNS := by
        intro heq
        rw [heq] at hlower
        cases hlower
      rw [attempt_lower (by exact hanswer) (by exact hnext)]
      unfold loop
      rcases Int.lt_or_le 0 (asyncresolve 2 (EDNSMode.level .NOEDNS)).1 with hanswer' | hfail
      · have hdone := @attempt_settled_lower { st with mode := .EDNSNOPING } now asyncresolve st.mode
          .NOEDNS (fun st r => (st, r)) 2 hmode' hold hanswer' rfl
        rw [hdone]
        refine ⟨hknown', hold.symm, .inl ⟨⟨hanswer, fun lowest hlowest => ?_⟩, rfl⟩⟩
        obtain rfl := some.inj hlowest
        exact hanswer'
      · rw [attempt_failed hfail]
        refine ⟨hknown', hold.symm, .inr ⟨fun hk => ?_, rfl⟩⟩
        exact absurd (hk.2 _ rfl) (Int.not_lt.mpr hfail)
  · -- the second try is not answered
    rw [attempt_failed hfail]
    exact ⟨hknown, hne, .inr ⟨fun hk => absurd hk.1 (Int.not_lt.mpr hfail), rfl⟩⟩

/-- The tries end with the first: without an answer nothing changes, with one the mode has the
time of the call when it changes. -/
theorem loop_first (h : 0 < (asyncresolve 0 st.mode.level).1 →
      st.mode.downgrade (asyncresolve 0 st.mode.level).2 = none) :
    ((asyncresolve 0 st.mode.level).1 ≤ 0 ∧ (loop now st.mode asyncresolve 2 0 st).1 = st) ∨
      (0 < (asyncresolve 0 st.mode.level).1 ∧ (loop now st.mode asyncresolve 2 0 st).1 =
        EDNSStatus.stamp now st.mode (settled now (asyncresolve 0 st.mode.level).2 st)) := by
  rcases Int.lt_or_le 0 (asyncresolve 0 st.mode.level).1 with hanswer | hfail
  · exact .inr ⟨hanswer, attempt_settled hanswer (h hanswer)⟩
  · exact .inl ⟨hfail, attempt_failed hfail⟩

/-- A reply that ends the tries in the first one leaves the right time. -/
theorem StatusInv.settled (h : StatusInv st since) (hnow : 0 < now) (lwr : LWReply) :
    StatusInv (EDNSStatus.stamp now st.mode (settled now lwr st))
      (if (EDNSStatus.stamp now st.mode (settled now lwr st)).mode ≠ st.mode ∨
          (st.mode = .CONFIRMEDPINGER ∧ lwr.d_pingCorrect = true) then now else since) := by
  unfold EDNSStatus.settled
  by_cases hpinger : st.mode = .CONFIRMEDPINGER
  · rw [if_pos hpinger]
    unfold EDNSStatus.stamp
    split
    next hcorrect =>
      -- the best mode perpetuates itself
      rw [if_neg (not_not.mpr rfl), if_pos (.inr ⟨hpinger, hcorrect⟩)]
      exact ⟨fun _ => ⟨rfl, hnow.ne'⟩, fun hunknown => by rw [hpinger] at hunknown; cases hunknown⟩
    next hwrong =>
      rw [if_neg (not_not.mpr rfl), if_neg (by rintro (hne | hc) <;> [exact hne rfl; exact hwrong hc.2])]
      exact h
  · rw [if_neg hpinger]
    unfold EDNSStatus.stamp
    by_cases hsame : st.mode = st.mode.settle lwr
    · rw [if_neg (not_not.mpr hsame), if_neg (by
        rintro (hne | hc) <;> [exact hne hsame.symm; exact hpinger hc.1])]
      rw [← hsame]
      exact h
    · rw [if_pos hsame, if_pos (.inl (Ne.symm hsame))]
      exact ⟨fun _ => ⟨rfl, hnow.ne'⟩, fun hu => absurd hu (EDNSMode.settle_ne_unknown lwr _)⟩

/-- A call that asks in the mode in which it finds the server. -/
theorem asked_as_found_iff (h : StatusInv st since) (hnow : 0 < now) :
    StatusInv (loop now st.mode asyncresolve 2 0 st).1
        (if (loop now st.mode asyncresolve 2 0 st).1.mode ≠ st.mode ∨
            (st.mode = .CONFIRMEDPINGER ∧ 0 < (asyncresolve 0 2).1 ∧
              (asyncresolve 0 2).2.d_pingCorrect = true) then now else since) ↔
      st.modeSetAt = now ∨ KeepsAnswering asyncresolve st.mode := by
  by_cases hfirst : 0 < (asyncresolve 0 st.mode.level).1 →
      st.mode.downgrade (asyncresolve 0 st.mode.level).2 = none
  · -- there is no downgrade, and the time is right
    have hkeeps : KeepsAnswering asyncresolve st.mode := by
      intro lower hanswer hlower
      rw [hfirst hanswer] at hlower
      cases hlower
    refine iff_of_true ?_ (.inr hkeeps)
    rcases loop_first hfirst with ⟨hfail, hloop⟩ | ⟨hanswer, hloop⟩
    · rw [hloop, if_neg]
      · exact h
      · rintro (hne | ⟨hpinger, hanswer, -⟩)
        · exact hne rfl
        · rw [hpinger] at hfail
          exact Int.not_lt.mpr hfail hanswer
    · rw [hloop]
      have hright := h.settled hnow (asyncresolve 0 st.mode.level).2
      by_cases hpinger : st.mode = .CONFIRMEDPINGER
      · have hlevel : st.mode.level = 2 := by rw [hpinger]; rfl
        rw [hlevel] at hright hanswer ⊢
        simpa only [hanswer, true_and] using hright
      · simpa only [hpinger, false_and, or_false] using hright
  · rw [Classical.not_imp] at hfirst
    obtain ⟨lower, hlower⟩ := ne_none_iff_exists'.mp hfirst.2
    obtain ⟨hknown, hne, hor⟩ := @loop_lower st now _ _ hfirst.1 hlower
    rw [if_pos (.inl hne)]
    rcases hor with ⟨hkeeps, htime⟩ | ⟨hcut, htime⟩
    · exact iff_of_true ⟨fun _ => ⟨htime, hnow.ne'⟩, fun hu => absurd hu hknown⟩ (.inr hkeeps)
    · rw [or_iff_left hcut, ← htime]
      exact ⟨fun hinv => (hinv.stamped hknown).1,
        fun heq => ⟨fun _ => ⟨heq, hnow.ne'⟩, fun hu => absurd hu hknown⟩⟩

/-- A call that asks a server of which nothing is known without pings. -/
theorem asked_without_ping_iff (hnever : st.modeSetAt = 0) (hnow : 0 < now)
    (hmode : st.mode = .EDNSNOPING) :
    (loop now st.mode asyncresolve 2 0 st).1.mode ≠ .UNKNOWN ∧
      (StatusInv (loop now st.mode asyncresolve 2 0 st).1 now ↔
        (0 < (asyncresolve 0 1).1 ∧ (asyncresolve 0 1).2.d_rcode = RCode.FormErr) ∧
          KeepsAnswering asyncresolve st.mode) := by
  have hlevel : st.mode.level = 1 := by rw [hmode]; rfl
  by_cases hfirst : 0 < (asyncresolve 0 st.mode.level).1 →
      st.mode.downgrade (asyncresolve 0 st.mode.level).2 = none
  · -- the mode stays, and has no time
    have hloop : (loop now st.mode asyncresolve 2 0 st).1 = st := by
      rcases loop_first hfirst with ⟨-, hloop⟩ | ⟨-, hloop⟩
      · exact hloop
      · rw [hloop, settled_downgraded (.inl hmode)]
        exact if_neg (not_not.mpr rfl)
    rw [hloop]
    have hknown : st.mode ≠ .UNKNOWN := by rw [hmode]; exact nofun
    refine ⟨hknown, iff_of_false (fun hinv => ?_) ?_⟩
    · have htime := (hinv.stamped hknown).1
      rw [hnever] at htime
      exact hnow.ne htime
    · rintro ⟨⟨hanswer, hformerr⟩, -⟩
      rw [← hlevel] at hanswer
      have hnone := hfirst hanswer
      rw [hlevel, hmode] at hnone
      have hsome : EDNSMode.EDNSNOPING.downgrade (asyncresolve 0 1).2 = some .NOEDNS :=
        if_pos hformerr
      rw [hsome] at hnone
      cases hnone
  · rw [Classical.not_imp] at hfirst
    obtain ⟨lower, hlower⟩ := ne_none_iff_exists'.mp hfirst.2
    obtain ⟨hknown, hne, hor⟩ := @loop_lower st now _ _ hfirst.1 hlower
    refine ⟨hknown, ?_⟩
    have hformerr : (asyncresolve 0 1).2.d_rcode = RCode.FormErr := by
      rw [hlevel, hmode] at hlower
      by_contra hother
      have hnone : EDNSMode.EDNSNOPING.downgrade (asyncresolve 0 1).2 = none := if_neg hother
      rw [hnone] at hlower
      cases hlower
    have hanswer := hfirst.1
    rw [hlevel] at hanswer
    rcases hor with ⟨hkeeps, htime⟩ | ⟨hcut, htime⟩
    · exact iff_of_true ⟨fun _ => ⟨htime, hnow.ne'⟩, fun hu => absurd hu hknown⟩
        ⟨⟨hanswer, hformerr⟩, hkeeps⟩
    · refine iff_of_false (fun hinv => ?_) fun hk => hcut hk.2
      have heq := (hinv.stamped hknown).1
      rw [htime, hnever] at heq
      exact hnow.ne heq

/-- **One call** keeps the time right if and only if it meets the condition. -/
theorem stamped_call_iff {call : EDNSCall ι} (h : StatusInv st since) (hnow : 0 < call.now) :
    StatusInv (statusAfter cfg call st) (sinceAfter cfg call st since) ↔ CallOK cfg st call := by
  unfold CallOK sinceAfter modeBefore Confirms statusAfter asyncresolveWrapper
  rw [and_iff_right hnow]
  by_cases hcfg : cfg.s_noEDNS = true
  · simpa [hcfg] using h
  · rw [Bool.not_eq_true] at hcfg
    have hfound := h.resetStale call.now
    simp only [hcfg, Bool.false_eq_true, if_false, true_and, forall_const]
    generalize hr : resetStale call.now st = found at hfound ⊢
    rcases withoutPing_cases cfg found with hasked | ⟨hunknown, hasked⟩
    · rw [hasked, asked_as_found_iff hfound hnow]
      simp
    · have hzero := hfound.unknown hunknown
      obtain ⟨hknown, hiff⟩ := @asked_without_ping_iff { found with mode := .EDNSNOPING } call.now
        call.asyncresolve hzero hnow rfl
      rw [hasked, if_pos (.inl (by rw [hunknown]; exact hknown)), hiff, hunknown]
      simp [hzero, hnow.ne]

end Call

/-! ### All runs -/

section Runs

variable {cfg}

/-- The invariant of a run. -/
def Inv (s : EDNSRun ι) : Prop := ∀ ip, StatusInv (s.ednsstatus ip) (s.since ip)

theorem inv_start : Inv (start : EDNSRun ι) := fun _ => ⟨fun hne => absurd rfl hne, fun _ => rfl⟩

variable [DecidableEq ι]

/-- A call that meets the condition keeps the invariant. -/
theorem step_inv (s : EDNSRun ι) (call : EDNSCall ι) (hI : Inv s)
    (hok : CallOK cfg (s.ednsstatus call.ip) call) : Inv (step cfg s call) := by
  intro ip
  by_cases hip : ip = call.ip
  · subst hip
    simp only [step, Function.update_self]
    exact (stamped_call_iff (hI _) hok.1).mpr hok
  · simp only [step, Function.update_of_ne hip]
    exact hI ip

/-- **The time of a mode is right** in every run whose calls all meet the condition: a mode that
is not `UNKNOWN` has the time since when the server is in it, so it is forgotten when that is more
than an hour ago. And the condition is all there is to it: the next call keeps the time of its
server right if and only if it meets it. -/
theorem edns_status_stamped (cfg : EDNSSettings) {calls : List (EDNSCall ι)}
    (h : Guarded (step cfg) (fun s call => CallOK cfg (s.ednsstatus call.ip) call) start calls) :
    (∀ ip, Stamped ((run (step cfg) start calls).ednsstatus ip)
        ((run (step cfg) start calls).since ip) ∧
      ∀ now, (run (step cfg) start calls).since ip + 3600 < now →
        (resetStale now ((run (step cfg) start calls).ednsstatus ip)).mode = .UNKNOWN) ∧
    ∀ call : EDNSCall ι, 0 < call.now →
      (StatusInv ((run (step cfg) start (calls ++ [call])).ednsstatus call.ip)
          ((run (step cfg) start (calls ++ [call])).since call.ip) ↔
        CallOK cfg ((run (step cfg) start calls).ednsstatus call.ip) call) := by
  have hI : Inv (run (step cfg) start calls) := run_invariant step_inv inv_start h
  refine ⟨fun ip => ⟨(hI ip).stamped, fun now hold => (hI ip).stamped.resetStale_unknown hold⟩,
    fun call hnow => ?_⟩
  simp only [run_append, run_cons, run_nil, step, Function.update_self]
  exact stamped_call_iff (hI _) hnow

end Runs

/-! ### A server that answers FORMERR -/

/-- A reply with a result code, with an EDNS record or without. -/
def replyOf (d_rcode : Nat) (d_haveEDNS : Bool) : LWReply where
  d_rcode := d_rcode
  d_aabit := true
  d_tcbit := false
  d_result := []
  d_haveEDNS := d_haveEDNS
  d_pingCorrect := false

/-- A server that knows EDNS is asked. -/
def modernServer : EDNSCall Unit where
  ip := ()
  now := 1000
  asyncresolve _ _ := (1, replyOf RCode.NoError true)

/-- A server answers the first query with FORMERR, and the second one gets lost. -/
def losingServer : EDNSCall Unit where
  ip := ()
  now := 1000
  asyncresolve tries _ := if tries = 0 then (1, replyOf RCode.FormErr false) else (0, replyOf 0 false)

/-- The modern server has a mode, and it has the time of the call. -/
theorem modernServer_stamped :
    let st := (run (step ⟨false, false⟩) start [modernServer]).ednsstatus ()
    st.mode = .EDNSPINGOK ∧ st.modeSetAt = 1000 ∧ (resetStale 4601 st).mode = .UNKNOWN := by
  have hok : CallOK ⟨false, false⟩ {} modernServer := by
    refine ⟨by decide, fun _ => ⟨fun hne => absurd rfl hne, .inr fun lower _ hlower => ?_⟩⟩
    cases hlower
  have hright := (@edns_status_stamped Unit _ ⟨false, false⟩ [modernServer] ⟨hok, trivial⟩).1 ()
  refine ⟨by decide, (hright.1 (by decide)).1.trans (by decide), ?_⟩
  exact hright.2 4601 (by decide)

/-- **A mode without a time**: the server is believed not to take pings, since never, and that is
never forgotten. -/
theorem losingServer_unstamped :
    let s := run (step ⟨false, false⟩) start [losingServer]
    ¬Stamped (s.ednsstatus ()) (s.since ()) ∧
      (s.ednsstatus ()).mode = .EDNSNOPING ∧ (s.ednsstatus ()).modeSetAt = 0 ∧
      ∀ now, (resetStale now (s.ednsstatus ())).mode = .EDNSNOPING := by
  have hstatus : (run (step ⟨false, false⟩) start [losingServer]).ednsstatus () =
      { mode := .EDNSNOPING } := by decide
  dsimp only
  rw [hstatus]
  refine ⟨fun h => ?_, rfl, rfl, fun now => ?_⟩
  · obtain ⟨heq, hzero⟩ := h nofun
    exact hzero heq.symm
  · unfold resetStale
    rw [if_neg fun h => h.1 rfl]

end EDNSRun

end PowerDNS
