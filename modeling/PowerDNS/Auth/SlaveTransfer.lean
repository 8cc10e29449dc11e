import PowerDNS.Base.Record
import PowerDNS.Lib.GuardedRun
import PowerDNS.Names.Text

/-!
# Incoming transfers: `CommunicatorClass::suck`

A slave asks the master for a zone and feeds what comes back to a backend, inside a transaction
that is started with the first chunk. The transfer is over when the second SOA record was seen
(`Resolver::axfrChunk`); then the transaction is committed. `suck` catches a `DBException` or a
`ResolverException` and aborts the transaction if it has been started; anything else escapes.

The model is a step function: a state says which call `suck` is waiting for, and an `Answer` is
what comes of it, which may be an exception. The records of a message are those that
`Resolver::result` makes of it.

`transfer_atomic` says what a run must meet for the transaction to be committed or aborted exactly
once, and committed only with all records up to the closing SOA.
-/

namespace PowerDNS

open GuardedRun List Bool

/-- The exceptions that are told apart by the handlers of `suck`. The backends that speak SQL throw
an `AhuException`, of which the other two are derived classes. -/
inductive Thrown
  | DBException
  | ResolverException
  | AhuException
  | other
  deriving DecidableEq

/-- The handlers of `suck`. -/
def Thrown.caught : Thrown → Bool
  | DBException | ResolverException => true
  | AhuException | other => false

/-- The call that `suck` waits for. -/
inductive SuckPhase
  | axfr
  | getDomainInfo
  | axfrChunk
  | startTransaction (recs : List TextRR)
  | feedRecord (i : TextRR) (recs : List TextRR)
  | commitTransaction
  | setFresh
  | abortTransaction
  | ended (escapes : Option Thrown)
  deriving DecidableEq

/-- What comes of a call. -/
inductive Answer
  | returns (b : Bool)
  | message (res : List TextRR)
  | throws (e : Thrown)
  deriving DecidableEq

/-- A run of `suck`. The last five fields are the history of the run: the records of all messages,
what `startTransaction` returned, the calls of `feedRecord` that were answered, and the calls that
end a transaction. -/
structure SuckRun where
  domain : Octets
  phase : SuckPhase := .axfr
  first : Bool := true
  d_soacount : Nat := 0
  received : List TextRR := []
  started : Option Bool := none
  fed : List (TextRR × Answer) := []
  commits : Nat := 0
  aborts : Nat := 0
  deriving DecidableEq

namespace SuckRun

/-- The number of SOA records, whatever their owner. -/
def soaCount (rrs : List TextRR) : Nat := rrs.countP fun i => i.qtype = QType.SOA

/-- The handlers. `di.backend` is set before a transaction is started. -/
def handle (s : SuckRun) (e : Thrown) : SuckRun :=
  if e.caught then
    if s.first then { s with phase := .ended none }
    else { s with phase := .abortTransaction, aborts := s.aborts + 1 }
  else { s with phase := .ended (some e) }

/-- The loop over the records of a chunk up to the next call, and what follows the loop. -/
def feed (s : SuckRun) : List TextRR → SuckRun
  | [] =>
    -- the next call of `axfrChunk` returns 0 at once when the transfer is over
    if 1 < s.d_soacount then { s with phase := .commitTransaction, commits := s.commits + 1 }
    else { s with phase := .axfrChunk }
  | i :: recs =>
    if !endsOn i.qname s.domain then feed s recs
    -- "Database can't store unknown record type"
    else if 1024 ≤ i.qtype then s.handle .DBException
    else { s with phase := .feedRecord i recs }

/-- The records that `axfrChunk` hands out of a message: without the last one when the transfer is
over. -/
def chunk (soacount : Nat) (res : List TextRR) : List TextRR :=
  if 1 < soacount then res.dropLast else res

/-- What `suck` does with a message. -/
def receive (s : SuckRun) (res : List TextRR) : SuckRun :=
  let soacount := s.d_soacount + soaCount res
  let recs := chunk soacount res
  let s := { s with d_soacount := soacount, received := s.received ++ res }
  if s.first then { s with phase := .startTransaction recs } else s.feed recs

/-- The record was fed, with this result. -/
def fedBy (s : SuckRun) (i : TextRR) (answer : Answer) : SuckRun :=
  { s with fed := s.fed ++ [(i, answer)] }

/-- What `suck` does when a call comes back. -/
def step (s : SuckRun) (answer : Answer) : SuckRun :=
  match s.phase, answer with
  | .axfr, .returns _ => { s with phase := .getDomainInfo }
  -- "Can't determine backend"
  | .getDomainInfo, .returns b => { s with phase := if b then .axfrChunk else .ended none }
  | .axfrChunk, .message res => s.receive res
  | .startTransaction recs, .returns b => { s with first := false, started := some b }.feed recs
  | .feedRecord i recs, .returns b => (s.fedBy i (.returns b)).feed recs
  | .feedRecord i _, .throws e => (s.fedBy i (.throws e)).handle e
  | .commitTransaction, .returns _ => { s with phase := .setFresh }
  | .setFresh, .returns _ => { s with phase := .ended none }
  | .abortTransaction, .returns _ => { s with phase := .ended none }
  -- thrown in a handler
  | .abortTransaction, .throws e => { s with phase := .ended (some e) }
  | .ended _, _ => s
  | _, .throws e => s.handle e
  | _, _ => s

/-! ### What is expected -/

/-- An SOA record of the zone itself. -/
def isZoneSOA (domain : Octets) (i : TextRR) : Bool :=
  i.qtype = QType.SOA && pdnsIequals i.qname domain

/-- The records in front of the closing SOA, which is the second SOA record of the zone; `seen` says
whether the first one came already. -/
def beforeClosing (domain : Octets) : Bool → List TextRR → Option (List TextRR)
  | _, [] => none
  | seen, i :: rrs =>
    if isZoneSOA domain i then
      if seen then some [] else (beforeClosing domain true rrs).map (i :: ·)
    else (beforeClosing domain seen rrs).map (i :: ·)

/-- The complete transfer was fed: the closing SOA has been received, and the records in front of it
that belong to the zone were fed one after the other, each with success. -/
def Complete (s : SuckRun) : Prop :=
  ∃ zone, beforeClosing s.domain false s.received = some zone ∧
    (zone.filter fun i => endsOn i.qname s.domain).map (fun i => (i, .returns true)) <+: s.fed

/-- A transaction that was started is ended exactly once, and committed only when the transfer is
complete. -/
structure Atomic (s : SuckRun) : Prop where
  settled : ∀ escapes, s.phase = .ended escapes → s.started = some true → s.commits + s.aborts = 1
  complete : 0 < s.commits → s.Complete

/-- The condition on what comes of a call:

* the message with which the transfer is over has the second SOA record of the zone;
* while a transaction is under way nothing is thrown but what `suck` catches, and each record is
  taken;
* what is thrown once the commit is under way is not caught. -/
def StepOK (s : SuckRun) (answer : Answer) : Prop :=
  match s.phase, answer with
  | .axfrChunk, .message res =>
    1 < s.d_soacount + soaCount res → 1 < (s.received ++ res).countP (isZoneSOA s.domain)
  | .axfrChunk, .throws e => s.started = some true → e.caught = true
  | .feedRecord _ _, .throws e => s.started = some true → e.caught = true
  | .feedRecord _ _, .returns b => b = true
  | .commitTransaction, .throws e => e.caught = false
  | .setFresh, .throws e => e.caught = false
  | _, _ => True

/-! ### The invariant -/

variable {s : SuckRun}

/-- The records of the zone, each fed with success. -/
def allFed (domain : Octets) (rrs : List TextRR) : List (TextRR × Answer) :=
  (rrs.filter fun i => endsOn i.qname domain).map fun i => (i, .returns true)

/-- No call that ends a transaction was made. -/
structure Open (s : SuckRun) : Prop where
  commits : s.commits = 0
  aborts : s.aborts = 0

/-- No transaction has been started. -/
structure Fresh (s : SuckRun) : Prop extends Open s where
  first : s.first = true
  started : s.started = none
  fed : s.fed = []

/-- A transaction is under way, the records behind `recs` are still to be fed, and there is enough
of the transfer when it is over. -/
structure Feeding (s : SuckRun) (recs : List TextRR) : Prop extends Open s where
  first : s.first = false
  fed : s.fed ++ allFed s.domain recs = allFed s.domain (chunk s.d_soacount s.received)
  closing : 1 < s.d_soacount → 1 < s.received.countP (isZoneSOA s.domain)

/-- What holds of a run whose steps all meet the condition, by the call it waits for. -/
def PhaseInv (s : SuckRun) : SuckPhase → Prop
  | .axfr | .getDomainInfo => s.Fresh ∧ s.received = []
  | .axfrChunk => s.d_soacount ≤ 1 ∧ (s.Fresh ∧ s.received = [] ∨ s.Feeding [])
  | .startTransaction recs => s.Fresh ∧ recs = chunk s.d_soacount s.received ∧
      (1 < s.d_soacount → 1 < s.received.countP (isZoneSOA s.domain))
  | .feedRecord i recs => s.Feeding (i :: recs) ∧ endsOn i.qname s.domain = true
  | .commitTransaction | .setFresh => s.commits = 1 ∧ s.aborts = 0 ∧ s.Complete
  | .abortTransaction => s.commits = 0 ∧ s.aborts = 1
  | .ended _ => s.Atomic

/-- The invariant of a run. -/
structure Inv (s : SuckRun) : Prop where
  soacount : s.d_soacount = soaCount s.received
  phase : s.PhaseInv s.phase

theorem Open.atomic (h : s.Open) (hphase : ∀ escapes, s.phase ≠ .ended escapes) : s.Atomic :=
  ⟨fun escapes he => absurd he (hphase escapes), fun hc => absurd h.commits hc.ne'⟩

/-- **What the invariant is for.** -/
theorem Inv.atomic (h : s.Inv) : s.Atomic := by
  obtain ⟨-, h⟩ := h
  cases hphase : s.phase with
  | ended escapes => rwa [hphase] at h
  | axfr | getDomainInfo | startTransaction recs | feedRecord i recs =>
    rw [hphase] at h
    exact h.1.atomic (by simp [hphase])
  | axfrChunk =>
    rw [hphase] at h
    rcases h.2 with ⟨h, -⟩ | h
    · exact h.atomic (by simp [hphase])
    · exact h.atomic (by simp [hphase])
  | commitTransaction | setFresh =>
    rw [hphase] at h
    exact ⟨by simp [hphase], fun _ => h.2.2⟩
  | abortTransaction =>
    rw [hphase] at h
    exact ⟨by simp [hphase], fun hc => absurd h.1 hc.ne'⟩

/-! ### The closing SOA -/

theorem allFed_cons (domain : Octets) (i : TextRR) (recs : List TextRR) :
    allFed domain (i :: recs) =
      if endsOn i.qname domain then (i, .returns true) :: allFed domain recs
      else allFed domain recs := by
  unfold allFed
  rw [filter_cons]
  split <;> rfl

theorem allFed_append (domain : Octets) (rrs rrs' : List TextRR) :
    allFed domain (rrs ++ rrs') = allFed domain rrs ++ allFed domain rrs' := by
  unfold allFed
  rw [filter_append, map_append]

/-- With two SOA records of the zone there is a closing one, and it is behind the records that are
in front of it. -/
theorem exists_beforeClosing {domain : Octets} {rrs : List TextRR} (seen : Bool)
    (h : (if seen then 0 else 1) < rrs.countP (isZoneSOA domain)) :
    ∃ zone i rest, beforeClosing domain seen rrs = some zone ∧ rrs = zone ++ i :: rest := by
  induction rrs generalizing seen with
  | nil => exact absurd h (Nat.not_lt_zero _)
  | cons i rrs ih =>
    rw [countP_cons] at h
    unfold beforeClosing
    by_cases hi : isZoneSOA domain i = true
    · rw [if_pos hi]
      cases seen with
      | true => exact ⟨[], i, rrs, rfl, rfl⟩
      | false =>
        rw [if_pos hi, if_neg Bool.false_ne_true] at h
        obtain ⟨zone, c, rest, hzone, heq⟩ := ih true (by simpa using h)
        exact ⟨i :: zone, c, rest, by simp [hzone], by rw [heq, cons_append]⟩
    · rw [if_neg hi]
      rw [if_neg hi, Nat.add_zero] at h
      obtain ⟨zone, c, rest, hzone, heq⟩ := ih seen h
      exact ⟨i :: zone, c, rest, by rw [hzone]; rfl, by rw [heq, cons_append]⟩

/-- What was fed of a transfer with a closing SOA is complete. -/
theorem complete_of_fed (hclosing : 1 < s.received.countP (isZoneSOA s.domain))
    (hfed : s.fed = allFed s.domain s.received.dropLast) : s.Complete := by
  obtain ⟨zone, c, rest, hzone, heq⟩ :=
    @exists_beforeClosing s.domain s.received false (by simpa using hclosing)
  refine ⟨zone, hzone, ?_⟩
  rw [hfed, heq, dropLast_append_of_ne_nil (cons_ne_nil _ _), allFed_append]
  exact prefix_append _ _

/-! ### One step -/

/-- The handlers, before a transaction is ended. -/
theorem Open.handle (h : s.Open) (hsoa : s.d_soacount = soaCount s.received) {e : Thrown}
    (hfirst : s.first = true → s.started = none)
    (hcaught : s.started = some true → e.caught = true) : (s.handle e).Inv := by
  unfold SuckRun.handle
  split
  next =>
    split
    next hf =>
      refine ⟨hsoa, ⟨fun _ _ hstarted => ?_, fun hc => absurd h.commits hc.ne'⟩⟩
      rw [show s.started = none from hfirst hf] at hstarted
      cases hstarted
    next => exact ⟨hsoa, h.commits, congrArg (· + 1) h.aborts⟩
  next hnot =>
    refine ⟨hsoa, ⟨fun _ _ hstarted => ?_, fun hc => absurd h.commits hc.ne'⟩⟩
    exact absurd (hcaught hstarted) hnot

/-- The handlers, when a transaction has been committed: nothing is caught. -/
theorem handle_committed (hsoa : s.d_soacount = soaCount s.received)
    (h : s.commits = 1 ∧ s.aborts = 0 ∧ s.Complete) {e : Thrown} (hcaught : e.caught = false) :
    (s.handle e).Inv := by
  unfold SuckRun.handle
  rw [hcaught, if_neg Bool.false_ne_true]
  exact ⟨hsoa, ⟨fun _ _ _ => by rw [h.1, h.2.1], fun _ => h.2.2⟩⟩

/-- The records of a chunk. -/
theorem Feeding.feed {recs : List TextRR} (h : s.Feeding recs)
    (hsoa : s.d_soacount = soaCount s.received) : (s.feed recs).Inv := by
  induction recs with
  | nil =>
    unfold SuckRun.feed
    have hfed := h.fed
    rw [show allFed s.domain [] = [] from rfl, append_nil] at hfed
    split
    next hover =>
      unfold chunk at hfed
      rw [if_pos hover] at hfed
      exact ⟨hsoa, congrArg (· + 1) h.commits, h.aborts,
        complete_of_fed (s := s) (h.closing hover) hfed⟩
    next hmore =>
      exact ⟨hsoa, not_lt.mp hmore, .inr ⟨⟨h.commits, h.aborts⟩, h.first, h.fed, h.closing⟩⟩
  | cons i recs ih =>
    unfold SuckRun.feed
    split
    next hout =>
      -- ignored, and none of the records of the zone
      refine ih ⟨⟨h.commits, h.aborts⟩, h.first, ?_, h.closing⟩
      rw [← h.fed, allFed_cons, if_neg (by simpa using hout)]
    next hin =>
      split
      next =>
        exact h.handle hsoa (fun hf => absurd hf (by simp [h.first])) fun _ => rfl
      next =>
        exact ⟨hsoa, ⟨⟨h.commits, h.aborts⟩, h.first, h.fed, h.closing⟩, by simpa using hin⟩

/-- Before a transaction is started nothing has to be aborted. -/
theorem Fresh.handle (h : s.Fresh) (hsoa : s.d_soacount = soaCount s.received) (e : Thrown) :
    (s.handle e).Inv :=
  h.toOpen.handle hsoa (fun _ => h.started) fun hstarted => by
    rw [h.started] at hstarted
    cases hstarted

/-- While records are fed, what is thrown is caught. -/
theorem Feeding.handle {recs : List TextRR} (h : s.Feeding recs)
    (hsoa : s.d_soacount = soaCount s.received) {e : Thrown}
    (hcaught : s.started = some true → e.caught = true) : (s.handle e).Inv :=
  h.toOpen.handle hsoa (fun hf => absurd hf (by simp [h.first])) hcaught

/-- What has been received with one more message, without the record that is chopped off. -/
theorem chunk_append {soacount : Nat} {rrs res : List TextRR}
    (h : 1 < soacount + soaCount res → soacount ≤ 1) :
    chunk (soacount + soaCount res) (rrs ++ res) =
      rrs ++ chunk (soacount + soaCount res) res := by
  unfold chunk
  split
  next hover =>
    have hres : res ≠ [] := by
      rintro rfl
      exact absurd (h hover) (not_le.mpr hover)
    exact dropLast_append_of_ne_nil hres
  next => rfl

/-- A message, while the transfer is not over. -/
theorem receive_inv (hsoa : s.d_soacount = soaCount s.received) (hle : s.d_soacount ≤ 1)
    (h : s.Fresh ∧ s.received = [] ∨ s.Feeding []) {res : List TextRR}
    (hclosing : 1 < s.d_soacount + soaCount res →
      1 < (s.received ++ res).countP (isZoneSOA s.domain)) : (s.receive res).Inv := by
  have hsoa' : s.d_soacount + soaCount res = soaCount (s.received ++ res) := by
    unfold soaCount at hsoa ⊢
    rw [countP_append, hsoa]
  unfold SuckRun.receive
  dsimp only
  split
  next hfirst =>
    rcases h with ⟨h, hnil⟩ | h
    · refine ⟨hsoa', ⟨⟨h.commits, h.aborts⟩, h.first, h.started, h.fed⟩, ?_, hclosing⟩
      rw [hnil, nil_append]
    · exact absurd hfirst (by simp [h.first])
  next hnext =>
    rcases h with ⟨h, -⟩ | h
    · exact absurd h.first hnext
    · refine Feeding.feed ⟨⟨h.commits, h.aborts⟩, h.first, ?_, hclosing⟩ hsoa'
      -- what was received before was not chopped
      have hfed := h.fed
      rw [show allFed s.domain [] = [] from rfl, append_nil, chunk,
        if_neg (not_lt.mpr hle)] at hfed
      rw [hfed, chunk_append fun _ => hle, allFed_append]

/-- **Every step that meets the condition** keeps the invariant. -/
theorem Inv.step (h : s.Inv) {answer : Answer} (hok : s.StepOK answer) : (s.step answer).Inv := by
  have hI := h
  obtain ⟨hsoa, h⟩ := h
  unfold SuckRun.step
  unfold StepOK at hok
  cases hphase : s.phase with
  | axfr =>
    rw [hphase] at h
    cases answer with
    | returns b => exact ⟨hsoa, ⟨⟨h.1.commits, h.1.aborts⟩, h.1.first, h.1.started, h.1.fed⟩, h.2⟩
    | message res => exact hI
    | throws e => exact h.1.handle hsoa e
  | getDomainInfo =>
    rw [hphase] at h
    cases answer with
    | returns b =>
      have hle : s.d_soacount ≤ 1 := by
        rw [hsoa, h.2]
        exact Nat.zero_le 1
      cases b with
      | true =>
        exact ⟨hsoa, hle, .inl
          ⟨⟨⟨h.1.commits, h.1.aborts⟩, h.1.first, h.1.started, h.1.fed⟩, h.2⟩⟩
      | false =>
        refine ⟨hsoa, ⟨fun _ _ hstarted => ?_, fun hc => absurd h.1.commits hc.ne'⟩⟩
        rw [show s.started = none from h.1.started] at hstarted
        cases hstarted
    | message res => exact hI
    | throws e => exact h.1.handle hsoa e
  | axfrChunk =>
    rw [hphase] at h hok
    obtain ⟨hle, h⟩ := h
    cases answer with
    | returns b => exact hI
    | message res => exact receive_inv hsoa hle h hok
    | throws e =>
      rcases h with ⟨h, -⟩ | h
      · exact h.handle hsoa e
      · exact h.handle hsoa hok
  | startTransaction recs =>
    rw [hphase] at h
    obtain ⟨h, hrecs, hclosing⟩ := h
    cases answer with
    | returns b =>
      refine Feeding.feed ⟨⟨h.commits, h.aborts⟩, rfl, ?_, hclosing⟩ hsoa
      rw [h.fed, nil_append, hrecs]
    | message res => exact hI
    | throws e => exact h.handle hsoa e
  | feedRecord i recs =>
    rw [hphase] at h hok
    obtain ⟨h, hzone⟩ := h
    cases answer with
    | returns b =>
      refine Feeding.feed ⟨⟨h.commits, h.aborts⟩, h.first, ?_, h.closing⟩ hsoa
      have hfed := h.fed
      rw [allFed_cons, if_pos hzone] at hfed
      change s.fed ++ [(i, .returns b)] ++ allFed s.domain recs = _
      rw [show b = true from hok, append_assoc]
      exact hfed
    | message res => exact hI
    | throws e =>
      exact Open.handle (s := s.fedBy i (.throws e)) ⟨h.commits, h.aborts⟩ hsoa
        (fun hf => absurd (h.first.symm.trans hf) false_ne_true) hok
  | commitTransaction =>
    rw [hphase] at h hok
    cases answer with
    | returns b => exact ⟨hsoa, h⟩
    | message res => exact hI
    | throws e => exact handle_committed hsoa h hok
  | setFresh =>
    rw [hphase] at h hok
    cases answer with
    | returns b => exact ⟨hsoa, ⟨fun _ _ _ => by rw [h.1, h.2.1], fun _ => h.2.2⟩⟩
    | message res => exact hI
    | throws e => exact handle_committed hsoa h hok
  | abortTransaction =>
    rw [hphase] at h
    cases answer with
    | message res => exact hI
    | returns b | throws e =>
      exact ⟨hsoa, ⟨fun _ _ _ => by rw [h.1, h.2], fun hc => absurd h.1 hc.ne'⟩⟩
  | ended escapes => exact hI

/-- The state in which `suck` starts. -/
def start (domain : Octets) : SuckRun := { domain := domain }

theorem start_inv (domain : Octets) : (start domain).Inv :=
  ⟨rfl, ⟨⟨rfl, rfl⟩, rfl, rfl, rfl⟩, rfl⟩

/-- **Slave transfers are atomic** in every run whose steps all meet the condition. -/
theorem transfer_atomic (domain : Octets) (answers : List Answer)
    (hg : Guarded step StepOK (start domain) answers) :
    (run step (start domain) answers).Atomic := by
  have hinv : (run step (start domain) answers).Inv :=
    run_invariant (I := Inv) (fun _ _ h hok => h.step hok) (start_inv domain) hg
  exact hinv.atomic

/-- The SOA record of `example.com`, and an address. -/
def exampleSOA : TextRR :=
  { qtype := QType.SOA, qname := ascii "example.com", wildcardname := [], content := [], ttl := 3600 }

def exampleHost : TextRR :=
  { qtype := QType.A, qname := ascii "www.example.com", wildcardname := [], content := []
    ttl := 3600 }

/-- A transfer in two messages, in which nothing goes wrong. -/
def goodAnswers : List Answer :=
  [.returns true, .returns true, .message [exampleSOA, exampleHost], .returns true, .returns true,
    .returns true, .message [exampleSOA], .returns true, .returns true]

theorem transfer_committed :
    (run step (start (ascii "example.com")) goodAnswers).phase = .ended none ∧
      (run step (start (ascii "example.com")) goodAnswers).commits = 1 ∧
      (run step (start (ascii "example.com")) goodAnswers).Atomic := by
  refine ⟨by decide, by decide, transfer_atomic _ _ ?_⟩
  refine ⟨trivial, trivial, fun h => absurd h (by decide), trivial, rfl, rfl, fun _ => ?_, trivial,
    trivial, trivial⟩
  decide

/-- **A transaction that is left open**: the database refuses a record, which a backend that speaks
SQL tells with an `AhuException`. -/
theorem transaction_left_open :
    let s := run step (start (ascii "example.com")) [.returns true, .returns true,
      .message [exampleSOA, exampleHost], .returns true, .throws .AhuException]
    s.phase = .ended (some .AhuException) ∧ s.started = some true ∧ s.commits + s.aborts = 0 ∧
      ¬ s.Atomic := by
  have hphase : (run step (start (ascii "example.com")) [.returns true, .returns true,
      .message [exampleSOA, exampleHost], .returns true, .throws .AhuException]).phase =
      .ended (some .AhuException) := by decide
  refine ⟨hphase, by decide, by decide, fun h => ?_⟩
  exact absurd (h.settled _ hphase (by decide)) (by decide)

end SuckRun

end PowerDNS
