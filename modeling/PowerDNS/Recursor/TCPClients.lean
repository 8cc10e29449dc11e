import Mathlib.Logic.Function.Basic
import PowerDNS.Recursor.PacketID

/-!
# Counting the clients over TCP

The constructor of `TCPConnection` counts the connection under its remote address in
`t_tcpClientCounts`, its destructor takes it off again, and `handleNewTCPQuestion` refuses a client
that has too many. A connection lives as long as something holds it: the multiplexer, or the thread
that looks for the answer to its question.

The destructor decrements the count *after* it has looked whether the count is zero, so the count of
a client that leaves stays behind as a zero. `run_exact_iff` says when the counts are what they
should be: as long as no client closes its last connection.
-/

namespace PowerDNS

open GuardedRun OrderedUnique List Option

/-! ### Connections -/

/-- What holds a connection. -/
inductive Holder
  | multiplexer
  | thread
  /-- The last `catch` of `startDoResolve` does not delete the question. -/
  | nobody
  deriving DecidableEq

/-- A `TCPConnection`, what is counted of it. -/
structure ClientConnection where
  d_fd : Nat
  d_remote : ComboAddress
  holder : Holder
  deriving DecidableEq

/-- `tcpClientCounts_t`. There are fewer connections than a `uint32_t` can count. -/
abbrev TCPClientCounts := Octets → Option Nat

namespace TCPClientCounts

/-- The constructor of `TCPConnection`. -/
def constructed (counts : TCPClientCounts) (d_remote : ComboAddress) : TCPClientCounts :=
  Function.update counts d_remote.addr (some ((counts d_remote.addr).getD 0 + 1))

/-- The destructor of `TCPConnection`: a count that was zero before is erased. -/
def destructed (counts : TCPClientCounts) (d_remote : ComboAddress) : TCPClientCounts :=
  match counts d_remote.addr with
  | none => counts
  | some 0 => Function.update counts d_remote.addr none
  | some (n + 1) => Function.update counts d_remote.addr (some n)

end TCPClientCounts

/-- The connections of a thread of the recursor. -/
structure TCPClients where
  live : List ClientConnection
  t_tcpClientCounts : TCPClientCounts

/-- What can happen. -/
inductive ClientEvent
  /-- `accept` returns; `overCapacity` and `allowed` are what the first two checks say. -/
  | accepted (newsock : Nat) (addr : ComboAddress) (overCapacity allowed : Bool)
  /-- A question is complete and goes to a thread. -/
  | asks (fd : Nat)
  /-- The multiplexer lets go: the end of the stream, an error, a time-out, a bad question. -/
  | ends (fd : Nat)
  /-- The thread is done, and has written the answer or not. -/
  | answered (fd : Nat) (ok : Bool)
  /-- The thread ends with an exception of an unknown type. -/
  | forgotten (fd : Nat)

namespace TCPClients

/-- The connection with descriptor `fd`, held by `holder`. -/
def isHeld (fd : Nat) (holder : Holder) (c : ClientConnection) : Bool := c.d_fd = fd && c.holder = holder

/-- `handleNewTCPQuestion` finds too many connections from an address. -/
def overflows (g_maxTCPPerClient : Nat) (s : TCPClients) (addr : ComboAddress) : Bool :=
  g_maxTCPPerClient ≠ 0 &&
    match s.t_tcpClientCounts addr.addr with
    | none => false
    | some n => g_maxTCPPerClient ≤ n

/-- The last reference to a connection is dropped. -/
def release (fd : Nat) (holder : Holder) (s : TCPClients) : TCPClients :=
  match s.live.find? (isHeld fd holder) with
  | none => s
  | some c =>
    { live := s.live.eraseP (isHeld fd holder), t_tcpClientCounts := s.t_tcpClientCounts.destructed c.d_remote }

/-- A connection is handed on. -/
def hand (fd : Nat) (holder next : Holder) (s : TCPClients) : TCPClients :=
  { s with live := s.live.map fun c => if isHeld fd holder c then { c with holder := next } else c }

/-- What an event does. -/
def step (g_maxTCPPerClient : Nat) (s : TCPClients) : ClientEvent → TCPClients
  | .accepted newsock addr overCapacity allowed =>
    if newsock = 0 ∨ overCapacity ∨ ¬allowed ∨ s.overflows g_maxTCPPerClient addr then s
    else
      { live := s.live ++ [⟨newsock, addr, .multiplexer⟩]
        t_tcpClientCounts := s.t_tcpClientCounts.constructed addr }
  | .asks fd => s.hand fd .multiplexer .thread
  | .ends fd => s.release fd .multiplexer
  | .answered fd ok => if ok then s.hand fd .thread .multiplexer else s.release fd .thread
  | .forgotten fd => s.hand fd .thread .nobody

/-- No client yet. -/
def start : TCPClients where
  live := []
  t_tcpClientCounts _ := none

/-- How many connections an address has. -/
def connections (s : TCPClients) (addr : Octets) : Nat := s.live.countP fun c => c.d_remote.addr = addr

/-- The counts are those of the connections there are, and nothing else. -/
def Exact (s : TCPClients) : Prop :=
  ∀ addr, s.t_tcpClientCounts addr = if s.connections addr = 0 then none else some (s.connections addr)

/-- The connection that an event destroys. -/
def destroyed (s : TCPClients) : ClientEvent → Option ClientConnection
  | .ends fd => s.live.find? (isHeld fd .multiplexer)
  | .answered fd false => s.live.find? (isHeld fd .thread)
  | _ => none

/-- Where a connection is destroyed its client has another one. -/
def KeepsOne (s : TCPClients) (e : ClientEvent) : Prop :=
  ∀ c, s.destroyed e = some c → 2 ≤ s.connections c.d_remote.addr

/-! ### One event -/

variable {s : TCPClients} {fd : Nat} {holder next : Holder} {g_maxTCPPerClient : Nat}

/-- One connection less. -/
theorem countP_eraseP {p q : ClientConnection → Bool} {l : List ClientConnection} {c : ClientConnection}
    (h : l.find? p = some c) : (l.eraseP p).countP q + (if q c then 1 else 0) = l.countP q := by
  induction l with
  | nil => cases h
  | cons x l ih =>
    by_cases hx : p x = true
    · rw [find?_cons_of_pos hx] at h
      obtain rfl := some.inj h
      rw [eraseP_cons_of_pos hx, countP_cons]
    · rw [find?_cons_of_neg hx] at h
      rw [eraseP_cons_of_neg hx, countP_cons, countP_cons, ← ih h]
      omega

@[simp] theorem counts_hand : (s.hand fd holder next).t_tcpClientCounts = s.t_tcpClientCounts := rfl

@[simp] theorem connections_hand (addr : Octets) :
    (s.hand fd holder next).connections addr = s.connections addr := by
  unfold connections hand
  rw [countP_map]
  refine countP_congr fun c _ => ?_
  simp only [Function.comp]
  split <;> rfl

theorem connections_release {c : ClientConnection} (h : s.live.find? (isHeld fd holder) = some c) (addr : Octets) :
    (s.release fd holder).connections addr + (if c.d_remote.addr = addr then 1 else 0) = s.connections addr := by
  unfold release connections
  rw [h]
  have hcount := @countP_eraseP (isHeld fd holder) (fun c => decide (c.d_remote.addr = addr)) s.live c h
  simpa using hcount

theorem counts_release {c : ClientConnection} (h : s.live.find? (isHeld fd holder) = some c) :
    (s.release fd holder).t_tcpClientCounts = s.t_tcpClientCounts.destructed c.d_remote := by
  unfold release
  rw [h]

/-- The count of every address is the number of its connections, if zero counts for none. -/
def Counted (s : TCPClients) : Prop := ∀ addr, (s.t_tcpClientCounts addr).getD 0 = s.connections addr

theorem Exact.counted (h : s.Exact) : s.Counted := by
  intro addr
  rw [h addr]
  split
  next hzero => exact hzero.symm
  next => rfl

theorem accepted_counts (newsock : Nat) (a : ComboAddress) (addr : Octets) :
    let t : TCPClients :=
      { live := s.live ++ [⟨newsock, a, .multiplexer⟩], t_tcpClientCounts := s.t_tcpClientCounts.constructed a }
    t.connections addr = s.connections addr + (if a.addr = addr then 1 else 0) ∧
      t.t_tcpClientCounts addr =
        if a.addr = addr then some ((s.t_tcpClientCounts addr).getD 0 + 1) else s.t_tcpClientCounts addr := by
  intro t
  constructor
  · show (s.live ++ [_]).countP _ = _
    simp [connections]
  · show s.t_tcpClientCounts.constructed a addr = _
    rw [TCPClientCounts.constructed, Function.update_apply]
    by_cases h : a.addr = addr
    · rw [if_pos h.symm, if_pos h, h]
    · rw [if_neg (Ne.symm h), if_neg h]

/-- A connection that is released is taken off the count of its client. -/
theorem released_counts {c : ClientConnection} (h : s.live.find? (isHeld fd holder) = some c) (hs : s.Counted)
    (addr : Octets) : (s.release fd holder).t_tcpClientCounts addr =
      if c.d_remote.addr = addr then some (s.connections addr - 1) else s.t_tcpClientCounts addr := by
  have hone : 0 < s.connections c.d_remote.addr := by
    have hless := connections_release h c.d_remote.addr
    rw [if_pos rfl] at hless
    omega
  rw [counts_release h, TCPClientCounts.destructed]
  cases hcount : s.t_tcpClientCounts c.d_remote.addr with
  | none =>
    have hs' := hs c.d_remote.addr
    rw [hcount, getD_none] at hs'
    omega
  | some n =>
    have hs' := hs c.d_remote.addr
    rw [hcount, getD_some] at hs'
    cases n with
    | zero => omega
    | succ n =>
      dsimp only
      rw [Function.update_apply]
      by_cases heq : c.d_remote.addr = addr
      · rw [if_pos heq.symm, if_pos heq, ← heq, ← hs', Nat.add_sub_cancel]
      · rw [if_neg (Ne.symm heq), if_neg heq]

theorem release_none (h : s.live.find? (isHeld fd holder) = none) : s.release fd holder = s := by
  unfold release
  rw [h]

/-- A release leaves no zero behind when the client has another connection. -/
theorem exact_release (hs : s.Exact) : (s.release fd holder).Exact ↔
    ∀ c, s.live.find? (isHeld fd holder) = some c → 2 ≤ s.connections c.d_remote.addr := by
  cases h : s.live.find? (isHeld fd holder) with
  | none =>
    rw [release_none h]
    exact iff_of_true hs fun c hc => (by cases hc)
  | some c =>
    constructor
    · rintro hexact c' hc
      obtain rfl := some.inj hc
      have hless := connections_release h c.d_remote.addr
      have hcount := hexact c.d_remote.addr
      rw [released_counts h hs.counted, if_pos rfl] at hcount
      rw [if_pos rfl] at hless
      split at hcount
      next => cases hcount
      next => omega
    · intro hkeeps addr
      have hless := connections_release h addr
      have hother := hkeeps c rfl
      rw [released_counts h hs.counted]
      split
      next heq =>
        rw [if_pos heq] at hless
        rw [heq] at hother
        rw [if_neg (by omega)]
        exact congrArg some (by omega)
      next hne =>
        rw [if_neg hne, Nat.add_zero] at hless
        rw [hless]
        exact hs addr

/-- **One event** keeps the counts exact when it does not destroy the last connection of a client. -/
theorem exact_step (hs : s.Exact) (e : ClientEvent) : (s.step g_maxTCPPerClient e).Exact ↔ s.KeepsOne e := by
  have hhand : ∀ fd holder next, (s.hand fd holder next).Exact := fun fd holder next addr => by
    rw [counts_hand, connections_hand]
    exact hs addr
  cases e with
  | accepted newsock a overCapacity allowed =>
    refine iff_of_true ?_ fun c hc => (by cases hc)
    simp only [step]
    split
    next => exact hs
    next =>
      intro addr
      obtain ⟨hmore, hcount⟩ := accepted_counts (s := s) newsock a addr
      rw [hmore, hcount]
      split
      next => rw [hs.counted addr, if_neg (Nat.succ_ne_zero _)]
      next => exact hs addr
  | asks fd => exact iff_of_true (hhand _ _ _) fun c hc => (by cases hc)
  | ends fd => exact exact_release hs
  | answered fd ok =>
    cases ok with
    | true => exact iff_of_true (hhand _ _ _) fun c hc => (by cases hc)
    | false => exact exact_release hs
  | forgotten fd => exact iff_of_true (hhand _ _ _) fun c hc => (by cases hc)

/-! ### Runs -/

theorem exact_start : start.Exact := fun _ => rfl

/-- From a state in which they are right, the counts are right in every state of a run exactly when
no event destroys the last connection of a client. -/
theorem exact_through (hs : s.Exact) (events : List ClientEvent) :
    (∀ done, done <+: events → (run (step g_maxTCPPerClient) s done).Exact) ↔
      Guarded (step g_maxTCPPerClient) KeepsOne s events := by
  induction events generalizing s with
  | nil =>
    refine iff_of_true (fun done hdone => ?_) trivial
    obtain rfl := prefix_nil.mp hdone
    exact hs
  | cons e events ih =>
    constructor
    · intro h
      have hnext : (s.step g_maxTCPPerClient e).Exact := h [e] (prefix_append [e] events)
      refine ⟨(exact_step hs e).mp hnext, (ih hnext).mp fun done hdone => ?_⟩
      exact h (e :: done) ((prefix_cons_inj e).mpr hdone)
    · rintro ⟨hkeeps, hrest⟩ done hdone
      have hnext : (s.step g_maxTCPPerClient e).Exact := (exact_step hs e).mpr hkeeps
      cases done with
      | nil => exact hs
      | cons e' done =>
        obtain ⟨rfl, hrun⟩ := cons_prefix_cons.mp hdone
        exact (ih hnext).mpr hrest done hrun

/-- **When the counts are exact.** In every state that a run reaches, `t_tcpClientCounts` holds the
number of connections of each address that has any, and nothing else, exactly when no connection of
the run is destroyed that is the last of its client. -/
theorem run_exact_iff (g_maxTCPPerClient : Nat) (events : List ClientEvent) :
    (∀ done, done <+: events → (run (step g_maxTCPPerClient) start done).Exact) ↔
      Guarded (step g_maxTCPPerClient) KeepsOne start events :=
  exact_through exact_start events

/-- A client that has come and gone is in the map with a count of zero. -/
theorem zero_stays :
    let s := run (step 0) start [.accepted 5 ⟨[192, 0, 2, 1], 4711⟩ false true, .ends 5]
    s.live = [] ∧ s.t_tcpClientCounts [192, 0, 2, 1] = some 0 ∧ ¬ s.Exact := by
  have hcount : (run (step 0) start [.accepted 5 ⟨[192, 0, 2, 1], 4711⟩ false true,
      .ends 5]).t_tcpClientCounts [192, 0, 2, 1] = some 0 := by decide
  refine ⟨by decide, hcount, fun h => ?_⟩
  have hnone := h [192, 0, 2, 1]
  exact absurd hnone (by decide)

end TCPClients

end PowerDNS
