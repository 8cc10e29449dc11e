import Mathlib.Logic.Function.Basic
import PowerDNS.Base.Octets
import PowerDNS.Lib.GuardedRun

/-!
# Passing questions on to a recursor: `DNSProxy`

`sendPacket` stores who asked in `d_conntrack` under the first number that is unused or
stale, and sends the question on with that number, disguised by `d_xor`, as its id. The main
loop looks up the id of every packet that comes back, sends it to whoever the entry names,
with the id that client used, and marks the entry as answered by setting its time to 0.

An entry that is marked answered is stale at once. So its number goes to the next client, and
a second copy of the answer, which would be discarded as a duplicate as long as the entry
stays marked, is sent to that client. The same happens to an answer that takes longer than
the 60 seconds after which an unanswered entry is stale. `sendPacket` moreover cuts the number
down to 16 bits, so that with 65536 entries in use the number 0 is given out a second time.

`proxy_safe` says that these are the only ways in which an answer can reach the wrong client,
or two outstanding queries can share a number.
-/

namespace PowerDNS

open GuardedRun List Option UInt16

/-- What `sendPacket` reads of a client's packet: the id, where it came from, and the octets
after the id. `A` is the type of addresses. -/
structure ClientPacket (A : Type) where
  id : UInt16
  remote : A
  socket : Int
  body : Octets
  deriving DecidableEq

/-- A packet to or from the recursor: the id, and the octets after it. -/
structure ProxyMessage where
  id : UInt16
  body : Octets
  deriving DecidableEq

/-- `DNSProxy::ConntrackEntry`. -/
structure ConntrackEntry (A : Type) where
  id : UInt16
  remote : A
  outsock : Int
  created : Int
  deriving DecidableEq

/-- `DNSProxy`. The keys of `d_conntrack` are `int`s, but all that are ever written come out
of a `uint16_t`. -/
structure DNSProxy (A : Type) where
  d_conntrack : UInt16 → Option (ConntrackEntry A)
  d_xor : UInt16
  /-- `recurseFor`, the netmasks of `onlyFrom`. -/
  recurseFor : A → Bool

namespace DNSProxy

variable {A : Type}

/-- `d_conntrack.find(n)`. -/
def find (d : DNSProxy A) (n : Nat) : Option (ConntrackEntry A) :=
  if n < 65536 then d.d_conntrack (UInt16.ofNat n) else none

/-- The number is not in use, or its entry is stale. -/
def isFree (d : DNSProxy A) (now : Int) (n : Nat) : Bool :=
  match d.find n with
  | none => true
  | some i => decide (i.created < now - 60)

/-- The loop of `getID_locked` from `n` on. -/
def searchID (d : DNSProxy A) (now : Int) : Nat → Nat → Nat
  | 0, n => n
  | fuel + 1, n => if d.isFree now n then n else d.searchID now fuel (n + 1)

/-- `getID_locked`. No number from 65536 on is ever in use, so the search ends there. -/
def getID_locked (d : DNSProxy A) (now : Int) : Nat := d.searchID now 65536 0

/-- `sendPacket` at time `now`: the packet that goes to the recursor, if any. -/
def sendPacket (p : ClientPacket A) (now : Int) (d : DNSProxy A) :
    DNSProxy A × Option ProxyMessage :=
  if d.recurseFor p.remote then
    let id := UInt16.ofNat (d.getID_locked now)
    let ce : ConntrackEntry A :=
      { id := p.id, remote := p.remote, outsock := p.socket, created := now }
    ({ d with d_conntrack := Function.update d.d_conntrack id (some ce) },
      some { id := id ^^^ d.d_xor, body := p.body })
  else (d, none)

/-- `mainloop` on one packet of the recursor: socket and address it is sent to, and what is
sent. -/
def mainloop (m : ProxyMessage) (d : DNSProxy A) :
    DNSProxy A × Option (Int × A × ProxyMessage) :=
  if m.body.length + 2 < 12 then (d, none)
  else
    let id := m.id ^^^ d.d_xor
    match d.d_conntrack id with
    | none => (d, none)
    | some i =>
      -- a duplicate
      if i.created = 0 then (d, none)
      else
        ({ d with d_conntrack := Function.update d.d_conntrack id (some { i with created := 0 }) },
          some (i.outsock, i.remote, { m with id := i.id }))

/-! ### The search -/

theorem isFree_of_le (d : DNSProxy A) (now : Int) {n : Nat} (h : 65536 ≤ n) :
    d.isFree now n = true := by
  unfold isFree find
  rw [if_neg (by omega)]

/-- The search stops at a free number. -/
theorem isFree_searchID (d : DNSProxy A) (now : Int) (fuel n : Nat) (h : 65536 ≤ n + fuel) :
    d.isFree now (d.searchID now fuel n) = true := by
  induction fuel generalizing n with
  | zero => exact d.isFree_of_le now h
  | succ fuel ih =>
    unfold searchID
    split
    · assumption
    · exact ih (n + 1) (by omega)

theorem isFree_getID (d : DNSProxy A) (now : Int) : d.isFree now (d.getID_locked now) = true :=
  d.isFree_searchID now 65536 0 (by omega)

/-- What is stored under a free number below 65536 is stale. -/
theorem stale_of_isFree {d : DNSProxy A} {now : Int} {n : Nat} (hn : n < 65536)
    (h : d.isFree now n = true) {i : ConntrackEntry A}
    (hi : d.d_conntrack (UInt16.ofNat n) = some i) : i.created < now - 60 := by
  unfold isFree find at h
  rw [if_pos hn, hi] at h
  exact of_decide_eq_true h

end DNSProxy

/-! ### Runs -/

/-- A query that was sent to the recursor: the client's packet, the number it was given, and
when. `seq` tells it from every other query. -/
structure SentQuery (A : Type) where
  seq : Nat
  packet : ClientPacket A
  outgoing : UInt16
  time : Int
  deriving DecidableEq

/-- The proxy and its history: the queries it sent, the last one first, the `seq` of those an
answer was forwarded for, and the time of the last query. -/
structure ProxyRun (A : Type) where
  proxy : DNSProxy A
  sent : List (SentQuery A) := []
  answered : List Nat := []
  clock : Int := 0

/-- What can happen: a client asks, or an answer of the recursor to a query arrives. The answer
to a query has its id and may arrive at any time and any number of times; `body` is what it
says. -/
inductive ProxyOp (A : Type)
  | sendPacket (p : ClientPacket A) (now : Int)
  | answer (q : SentQuery A) (body : Octets)

namespace ProxyRun

variable {A : Type}

/-- The packet that the answer `body` to the query `q` arrives in. -/
def answerTo (s : ProxyRun A) (q : SentQuery A) (body : Octets) : ProxyMessage where
  id := q.outgoing ^^^ s.proxy.d_xor
  body := body

/-- One event. -/
def step (s : ProxyRun A) : ProxyOp A → ProxyRun A
  | .sendPacket p now =>
    let r := s.proxy.sendPacket p now
    match r.2 with
    | none => { s with proxy := r.1 }
    | some m =>
      { s with
        proxy := r.1
        sent := { seq := s.sent.length, packet := p, outgoing := m.id ^^^ s.proxy.d_xor,
                  time := now } :: s.sent
        clock := now }
  | .answer q body =>
    let r := s.proxy.mainloop (s.answerTo q body)
    match r.2 with
    | none => { s with proxy := r.1 }
    | some _ => { s with proxy := r.1, answered := q.seq :: s.answered }

/-- The query that was last given the number. -/
def holder (s : ProxyRun A) (n : UInt16) : Option (SentQuery A) :=
  s.sent.find? fun q => q.outgoing = n

/-- A query is outstanding until it is answered or 60 seconds have passed. -/
def Outstanding (s : ProxyRun A) (now : Int) (q : SentQuery A) : Prop :=
  q ∈ s.sent ∧ q.seq ∉ s.answered ∧ now ≤ q.time + 60

/-- When an event is harmless. A query: the clock does not go back, and one of the 65536
numbers is free. An answer: it answers a query that was sent, and the number of that query
was not given to another one since, or the one that has it now is answered as well. -/
def EventOK (s : ProxyRun A) : ProxyOp A → Prop
  | .sendPacket p now =>
    s.proxy.recurseFor p.remote = true →
      0 < now ∧ s.clock ≤ now ∧ s.proxy.getID_locked now < 65536
  | .answer q _ =>
    q ∈ s.sent ∧ ∀ q', s.holder q.outgoing = some q' → q' = q ∨ q'.seq ∈ s.answered

/-- What the proxy owes its clients: what it forwards on an answer goes to the client whose
question was answered, with the id of that client, and outstanding queries have different
numbers. -/
def EventSafe (s : ProxyRun A) (op : ProxyOp A) : Prop :=
  (∀ q body, op = .answer q body → ∀ sent, (s.proxy.mainloop (s.answerTo q body)).2 = some sent →
    sent = (q.packet.socket, q.packet.remote, { id := q.packet.id, body := body })) ∧
  ∀ now, (step s op).clock ≤ now → ∀ q q', (step s op).Outstanding now q →
    (step s op).Outstanding now q' → q.outgoing = q'.outgoing → q = q'

/-! ### The invariant -/

/-- The entry `i` is that of the query `q`. -/
structure Tracks (answered : List Nat) (q : SentQuery A) (i : ConntrackEntry A) : Prop where
  id : i.id = q.packet.id
  remote : i.remote = q.packet.remote
  outsock : i.outsock = q.packet.socket
  created : i.created = q.time ∧ q.seq ∉ answered ∨ i.created = 0 ∧ q.seq ∈ answered

/-- **The invariant.** Every number in use has the entry of the query it was last given to, and
of two queries with one number the earlier one was answered, or sent more than 60 seconds
before the later one. -/
structure Inv (s : ProxyRun A) : Prop where
  slot : ∀ n q, s.holder n = some q → ∃ i, s.proxy.d_conntrack n = some i ∧ Tracks s.answered q i
  unused : ∀ n, s.holder n = none → s.proxy.d_conntrack n = none
  newest : ∀ n q, s.holder n = some q → ∀ q' ∈ s.sent, q'.outgoing = n → q'.seq ≤ q.seq
  seq_inj : ∀ q ∈ s.sent, ∀ q' ∈ s.sent, q.seq = q'.seq → q = q'
  seq_lt : ∀ q ∈ s.sent, q.seq < s.sent.length
  answered_lt : ∀ k ∈ s.answered, k < s.sent.length
  time : ∀ q ∈ s.sent, 0 < q.time ∧ q.time ≤ s.clock
  reused : ∀ q ∈ s.sent, ∀ q' ∈ s.sent, q.outgoing = q'.outgoing → q'.seq < q.seq →
    q'.seq ∈ s.answered ∨ q'.time + 60 < q.time

theorem xor_xor_cancel (a b : UInt16) : (a ^^^ b) ^^^ b = a := by
  rw [UInt16.xor_assoc, UInt16.xor_self, UInt16.xor_zero]

variable {s : ProxyRun A} {q : SentQuery A}

theorem mem_of_holder {n : UInt16} (h : s.holder n = some q) :
    q ∈ s.sent ∧ q.outgoing = n :=
  ⟨mem_of_find?_eq_some h, by simpa using find?_some h⟩

theorem exists_holder (h : q ∈ s.sent) :
    ∃ q', s.holder q.outgoing = some q' := by
  rw [← isSome_iff_exists]
  exact find?_isSome.mpr ⟨q, h, by simp⟩

/-- Before the first event no number is in use. -/
theorem inv_start (d_xor : UInt16) (recurseFor : A → Bool) :
    Inv { proxy := { d_conntrack := fun _ => none, d_xor := d_xor, recurseFor := recurseFor } :
      ProxyRun A } where
  slot := nofun
  unused := fun _ _ => rfl
  newest := nofun
  seq_inj := nofun
  seq_lt := nofun
  answered_lt := nofun
  time := nofun
  reused := nofun

variable {now : Int}

/-- A query that had a free number before is answered or given up. -/
theorem done_of_isFree (hI : Inv s) (hclock : s.clock ≤ now)
    (hlt : s.proxy.getID_locked now < 65536) (hq : q ∈ s.sent)
    (hout : q.outgoing = UInt16.ofNat (s.proxy.getID_locked now)) :
    q.seq ∈ s.answered ∨ q.time + 60 < now := by
  obtain ⟨last, hlast⟩ := exists_holder hq
  obtain ⟨hmem, hsame⟩ := mem_of_holder hlast
  obtain ⟨i, hi, htracks⟩ := hI.slot _ last hlast
  have hstale := DNSProxy.stale_of_isFree hlt (s.proxy.isFree_getID now) (hout ▸ hi)
  -- the last query with the number is done
  have hdone : last.seq ∈ s.answered ∨ last.time + 60 < now := by
    rcases htracks.created with ⟨htime, -⟩ | ⟨-, hans⟩
    · exact .inr (by omega)
    · exact .inl hans
  rcases (hI.newest _ last hlast q hq rfl).eq_or_lt with heq | hless
  · rw [hI.seq_inj q hq last hmem heq]
    exact hdone
  · -- and any earlier one was done when the last one was sent
    have hle := (hI.time last hmem).2
    rcases hI.reused last hmem q hq hsame hless with h | h
    · exact .inl h
    · exact .inr (by omega)

/-- A query that is sent becomes the holder of its number. -/
theorem holder_cons (s : ProxyRun A) (proxy : DNSProxy A) (q : SentQuery A) (clock : Int)
    (n : UInt16) :
    ({ s with proxy := proxy, sent := q :: s.sent, clock := clock } : ProxyRun A).holder n =
      if q.outgoing = n then some q else s.holder n := by
  unfold holder
  by_cases h : q.outgoing = n
  · rw [find?_cons_of_pos (by simpa using h), if_pos h]
  · rw [find?_cons_of_neg (by simpa using h), if_neg h]

/-- The invariant of the history after another query with a number whose queries are done. -/
theorem Inv.push {s : ProxyRun A} (hI : Inv s) {q₀ : SentQuery A} {i₀ : ConntrackEntry A}
    (hseq : q₀.seq = s.sent.length) (hpos : 0 < q₀.time) (hclock : s.clock ≤ q₀.time)
    (hdone : ∀ q ∈ s.sent, q.outgoing = q₀.outgoing →
      q.seq ∈ s.answered ∨ q.time + 60 < q₀.time)
    (hentry : Tracks s.answered q₀ i₀) :
    Inv { s with
      proxy := { s.proxy with
        d_conntrack := Function.update s.proxy.d_conntrack q₀.outgoing (some i₀) }
      sent := q₀ :: s.sent
      clock := q₀.time } := by
  have hlt : ∀ q ∈ s.sent, q.seq < q₀.seq := fun q hq => hseq ▸ hI.seq_lt q hq
  constructor
  case slot =>
    intro n q hq
    rw [holder_cons] at hq
    by_cases hn : q₀.outgoing = n
    · rw [if_pos hn] at hq
      obtain rfl := some.inj hq
      exact ⟨i₀, by simp [hn], hentry⟩
    · rw [if_neg hn] at hq
      simpa only [Function.update_of_ne (Ne.symm hn)] using hI.slot n q hq
  case unused =>
    intro n hn
    rw [holder_cons] at hn
    by_cases h : q₀.outgoing = n
    · rw [if_pos h] at hn
      cases hn
    · rw [if_neg h] at hn
      simpa only [Function.update_of_ne (Ne.symm h)] using hI.unused n hn
  case newest =>
    intro n q hq q' hq' hout
    rw [holder_cons] at hq
    rcases mem_cons.mp hq' with rfl | hq'
    · rw [if_pos hout] at hq
      exact (some.inj hq ▸ le_refl _)
    · by_cases h : q₀.outgoing = n
      · rw [if_pos h] at hq
        exact some.inj hq ▸ (hlt q' hq').le
      · rw [if_neg h] at hq
        exact hI.newest n q hq q' hq' hout
  case seq_inj =>
    intro q hq q' hq' h
    rcases mem_cons.mp hq with rfl | hold <;> rcases mem_cons.mp hq' with rfl | hold'
    · rfl
    · exact absurd h (hlt q' hold').ne'
    · exact absurd h (hlt q hold).ne
    · exact hI.seq_inj q hold q' hold' h
  case seq_lt =>
    intro q hq
    rw [length_cons]
    rcases mem_cons.mp hq with rfl | hq
    · omega
    · have := hI.seq_lt q hq
      omega
  case answered_lt =>
    intro k hk
    exact Nat.lt_succ_of_lt (hI.answered_lt k hk)
  case time =>
    intro q hq
    rcases mem_cons.mp hq with rfl | hold
    · exact ⟨hpos, Int.le_refl _⟩
    · exact ⟨(hI.time q hold).1, Int.le_trans (hI.time q hold).2 hclock⟩
  case reused =>
    intro q hq q' hq' hout hless
    rcases mem_cons.mp hq with rfl | hold <;> rcases mem_cons.mp hq' with rfl | hold'
    · exact absurd hless (lt_irrefl _)
    · exact hdone q' hold' hout.symm
    · exact absurd hless (hlt q hold).not_gt
    · exact hI.reused q hold q' hold' hout hless

variable {p : ClientPacket A}

/-- A client that may recurse gets a number, and its query becomes part of the history. -/
theorem step_sendPacket
    (hrec : s.proxy.recurseFor p.remote = true) :
    s.step (.sendPacket p now) =
      { s with
        proxy := { s.proxy with
          d_conntrack := Function.update s.proxy.d_conntrack
            (UInt16.ofNat (s.proxy.getID_locked now))
            (some { id := p.id, remote := p.remote, outsock := p.socket, created := now }) }
        sent := { seq := s.sent.length, packet := p,
                  outgoing := UInt16.ofNat (s.proxy.getID_locked now), time := now } :: s.sent
        clock := now } := by
  simp only [step, DNSProxy.sendPacket, if_pos hrec, xor_xor_cancel]

/-- Other clients are not served. -/
theorem step_sendPacket_refused
    (hrec : ¬s.proxy.recurseFor p.remote = true) : s.step (.sendPacket p now) = s := by
  simp only [step, DNSProxy.sendPacket, if_neg hrec]

/-- **A query keeps the invariant.** -/
theorem inv_sendPacket (hI : Inv s)
    (hok : s.EventOK (.sendPacket p now)) : Inv (s.step (.sendPacket p now)) := by
  by_cases hrec : s.proxy.recurseFor p.remote = true
  · obtain ⟨hpos, hclock, hlt⟩ := hok hrec
    rw [step_sendPacket hrec]
    have hnew : s.sent.length ∉ s.answered := fun h => (hI.answered_lt _ h).false
    let q₀ : SentQuery A :=
      { seq := s.sent.length, packet := p,
        outgoing := UInt16.ofNat (s.proxy.getID_locked now), time := now }
    exact @Inv.push A s hI q₀ _ rfl hpos hclock
      (fun q hq hout => done_of_isFree hI hclock hlt hq hout) ⟨rfl, rfl, rfl, .inl ⟨rfl, hnew⟩⟩
  · rw [step_sendPacket_refused hrec]
    exact hI

/-- An answer is forwarded only while the query it belongs to holds its number, and to the
client that asked. -/
theorem mainloop_answer (hI : Inv s) {body : Octets}
    (hok : s.EventOK (.answer q body)) :
    s.proxy.mainloop (s.answerTo q body) = (s.proxy, none) ∨
    ∃ i, s.holder q.outgoing = some q ∧ s.proxy.d_conntrack q.outgoing = some i ∧
      q.seq ∉ s.answered ∧
      s.proxy.mainloop (s.answerTo q body) =
        ({ s.proxy with
            d_conntrack := Function.update s.proxy.d_conntrack q.outgoing
              (some { i with created := 0 }) },
          some (q.packet.socket, q.packet.remote, { id := q.packet.id, body := body })) := by
  obtain ⟨hq, hholder⟩ := hok
  obtain ⟨last, hlast⟩ := exists_holder hq
  obtain ⟨i, hi, htracks⟩ := hI.slot _ last hlast
  unfold DNSProxy.mainloop answerTo
  simp only [xor_xor_cancel, hi]
  split
  · exact .inl rfl
  · split
    next => exact .inl rfl
    next hcreated =>
      have hans : last.seq ∉ s.answered := by
        rcases htracks.created with ⟨-, h⟩ | ⟨h, -⟩
        · exact h
        · exact absurd h hcreated
      obtain rfl : last = q := (hholder last hlast).resolve_right hans
      exact .inr ⟨i, hlast, rfl, hans, by rw [htracks.id, htracks.remote, htracks.outsock]⟩

/-- **An answer keeps the invariant.** -/
theorem inv_answer (hI : Inv s) {body : Octets}
    (hok : s.EventOK (.answer q body)) : Inv (s.step (.answer q body)) := by
  rcases mainloop_answer hI hok with hnone | ⟨i, hholder, hi, hans, hsome⟩
  · have hsame : s.step (.answer q body) = s := by simp only [step, hnone]
    rw [hsame]
    exact hI
  · have hstep : s.step (.answer q body) =
        { s with
          proxy := { s.proxy with
            d_conntrack := Function.update s.proxy.d_conntrack q.outgoing
              (some { i with created := 0 }) }
          answered := q.seq :: s.answered } := by
      simp only [step, hsome]
    rw [hstep]
    obtain ⟨j, hj, htracks⟩ := hI.slot _ q hholder
    obtain rfl : i = j := some.inj (hi.symm.trans hj)
    refine { hI with slot := ?_, unused := ?_, answered_lt := ?_, reused := ?_ }
    · intro n q' hq'
      by_cases hn : n = q.outgoing
      · subst hn
        obtain rfl : q = q' := some.inj (hholder.symm.trans hq')
        exact ⟨{ i with created := 0 }, by simp,
          ⟨htracks.id, htracks.remote, htracks.outsock, .inr ⟨rfl, mem_cons_self⟩⟩⟩
      · obtain ⟨k, hk, htr⟩ := hI.slot n q' hq'
        refine ⟨k, by simpa only [Function.update_of_ne hn] using hk, ?_⟩
        refine ⟨htr.id, htr.remote, htr.outsock, htr.created.imp ?_ ?_⟩
        · rintro ⟨htime, hnot⟩
          refine ⟨htime, ?_⟩
          intro hmem
          rcases mem_cons.mp hmem with h | h
          · have hsame := hI.seq_inj q' (mem_of_holder hq').1 q (mem_of_holder hholder).1 h
            exact hn (by rw [← (mem_of_holder hq').2, hsame])
          · exact hnot h
        · exact And.imp_right (mem_cons_of_mem _)
    · intro n hn
      have hne : n ≠ q.outgoing := by
        rintro rfl
        rw [show s.holder q.outgoing = none from hn] at hholder
        cases hholder
      simpa only [Function.update_of_ne hne] using hI.unused n hn
    · intro k hk
      rcases mem_cons.mp hk with rfl | hk
      · exact hI.seq_lt q (mem_of_holder hholder).1
      · exact hI.answered_lt k hk
    · intro q₁ hq₁ q₂ hq₂ hout hless
      exact (hI.reused q₁ hq₁ q₂ hq₂ hout hless).imp_left (mem_cons_of_mem _)

theorem step_inv (s : ProxyRun A) (op : ProxyOp A) (hI : Inv s) (hok : s.EventOK op) :
    Inv (s.step op) := by
  cases op with
  | sendPacket p now => exact inv_sendPacket hI hok
  | answer q body => exact inv_answer hI hok

/-- Two outstanding queries have different numbers. -/
theorem Inv.outstanding_unique (hI : Inv s) (hnow : s.clock ≤ now)
    {q q' : SentQuery A} (hq : s.Outstanding now q) (hq' : s.Outstanding now q')
    (hout : q.outgoing = q'.outgoing) : q = q' := by
  -- the earlier one would be answered or 60 seconds old by the time of the later one
  have hearlier : ∀ {a b : SentQuery A}, s.Outstanding now a → s.Outstanding now b →
      a.outgoing = b.outgoing → ¬b.seq < a.seq := by
    intro a b ha hb hab hlt
    have htime := (hI.time a ha.1).2
    have hlate := hb.2.2
    rcases hI.reused a ha.1 b hb.1 hab hlt with h | h
    · exact hb.2.1 h
    · omega
  rcases lt_trichotomy q.seq q'.seq with h | h | h
  · exact absurd h (hearlier hq' hq hout.symm)
  · exact hI.seq_inj q hq.1 q' hq'.1 h
  · exact absurd h (hearlier hq hq' hout)

theorem safe_of_inv (s : ProxyRun A) (op : ProxyOp A) (hI : Inv s) (hok : s.EventOK op) :
    s.EventSafe op := by
  refine ⟨?_, fun now hnow q q' => (step_inv s op hI hok).outstanding_unique hnow⟩
  rintro q body rfl sent hsent
  rcases mainloop_answer hI hok with hnone | ⟨i, -, -, -, hsome⟩
  · rw [hnone] at hsent
    cases hsent
  · rw [hsome] at hsent
    exact (some.inj hsent).symm

/-- **Transaction safety.** In every run whose events are harmless every answer goes to the
client that asked, with its id, and no two outstanding queries share a number. -/
theorem proxy_safe (d_xor : UInt16) (recurseFor : A → Bool) {pre post : List (ProxyOp A)}
    {op : ProxyOp A}
    (h : Guarded step EventOK
      { proxy := { d_conntrack := fun _ => none, d_xor := d_xor, recurseFor := recurseFor } }
      (pre ++ op :: post)) :
    EventSafe (run step
      { proxy := { d_conntrack := fun _ => none, d_xor := d_xor, recurseFor := recurseFor } } pre)
      op :=
  run_forall_step step_inv safe_of_inv (inv_start d_xor recurseFor) h

/-! ### Two clients -/

/-- The proxy at the start, for clients of all addresses. -/
def idle : ProxyRun Nat where
  proxy := { d_conntrack := fun _ => none, d_xor := 0x1234, recurseFor := fun _ => true }

/-- The query of the client at address 1, which gets the number 0. -/
def firstQuery : SentQuery Nat where
  seq := 0
  packet := { id := 7, remote := 1, socket := 5, body := List.replicate 20 0 }
  outgoing := 0
  time := 1000

/-- The answer to it. -/
def firstAnswer : ProxyOp Nat := .answer firstQuery (List.replicate 30 1)

/-- The client at address 2 asks after the first one was answered. -/
def twoClients : List (ProxyOp Nat) :=
  [.sendPacket firstQuery.packet 1000, firstAnswer,
   .sendPacket { id := 9, remote := 2, socket := 5, body := List.replicate 20 2 } 1002]

/-- The answer between the two queries is harmless. -/
theorem firstAnswer_safe :
    EventSafe (run step idle [.sendPacket firstQuery.packet 1000]) firstAnswer := by
  refine @proxy_safe Nat 0x1234 (fun _ => true) [.sendPacket firstQuery.packet 1000] []
    firstAnswer ?_
  refine ⟨fun _ => ⟨by decide, by decide, by decide⟩, ⟨by decide, ?_⟩, trivial⟩
  intro q' hq'
  have hholder : holder (step idle (.sendPacket firstQuery.packet 1000)) 0 = some firstQuery := by
    decide
  exact .inl (some.inj (hq'.symm.trans hholder))

/-- A second copy of it, after the second query, goes to the second client. -/
theorem firstAnswer_to_second_client : ¬EventSafe (run step idle twoClients) firstAnswer := by
  intro h
  have hsent : ((run step idle twoClients).proxy.mainloop
      ((run step idle twoClients).answerTo firstQuery (List.replicate 30 1))).2 =
      some (5, 2, { id := 9, body := List.replicate 30 1 }) := by decide
  exact absurd (h.1 _ _ rfl _ hsent) (by decide)

end ProxyRun

end PowerDNS
