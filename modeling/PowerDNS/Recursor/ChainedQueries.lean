import PowerDNS.Recursor.ResponseMatching

/-!
# Queries that are chained onto another one

A query that finds a thread waiting for the same answer leaves its id in the chain of that
thread, and waits without a socket. When the answer comes, `doResends` goes through the chain and
wakes each id, and then the thread that asked is woken. So whoever is chained is to be woken with
the very packet, once, whenever the one it is chained onto is.

There are three ways in which this goes wrong.

* The chain is a set of ids. A query that is chained while another one with its id is, is refused
  by `waitEvent`: it returns an error at once, although it was chained.
* A thread that `doResends` wakes may ask the same question again. The waiter it was chained onto
  is still there, so it is chained onto it once more. When its new id is not larger than the one
  the iteration has come to, it is passed over, and nobody will wake it.
* A packet without a question is given to a waiter by its id. `doResends` was tried before that,
  with the empty name, and is not tried again.

`chained_answered` says that there is no other: in a run without these, every query that is
chained onto a thread that was woken by a packet, or by an error, has been woken with the same,
unless it had timed out before. That nothing is ever woken twice holds in every run
(`woken_once`).
-/

namespace PowerDNS

open GuardedRun OrderedUnique Option Bool List

namespace OutgoingUDP

/-! ### The condition -/

/-- The waiter that a packet without a question is given to. -/
def weakTarget (t : Waiters) (pident : PacketID) : Option Waiter :=
  (t.find (weakMatch pident)).bind fun m =>
    t.lookup { pident with domain := m.key.domain, type := m.key.type }

/-- A waiter that is in the chain of `v`. -/
def ChainedOn (w v : Waiter) : Prop :=
  w.key.fd = -1 ∧ w.key.SameQuestion v.key ∧ w.key.id ∈ v.key.chain

/-- The event key for a packet. -/
def eventKey (fd : Int) (fromaddr : ComboAddress) (packet : Octets) (domain : Octets)
    (type : UInt16) : PacketID :=
  ⟨headerId packet, fromaddr, domain, type, 0, Table.empty, fd⟩

/-- `doResends` is under way at the waiter `v`, and does not come to the id any more. -/
def Passed (v : Waiter) (id : UInt16) : Kernel → Prop
  | .resending _ iter cursor =>
    PacketID.Agree v.key iter ∧ Table.beyond idLess cursor id = false
  | _ => False

/-- A query that is chained: no waiter has its id already, and it is not passed by. -/
def ChainOK (s : OutgoingUDP) (q : Ask) : Prop :=
  ∀ v ∈ s.outstanding q,
    s.d_waiters.lookup (q.pident (-1)) = none ∧ ¬Passed v q.id s.kernel

/-- A packet that nobody waits for under its own question: when it is given to a waiter all the
same, no query waits in the chain of that. -/
def WeakOK (s : OutgoingUDP) (pident : PacketID) : Prop :=
  s.d_waiters.lookup pident = none → ∀ v ∈ weakTarget s.d_waiters pident,
    ∀ w ∈ s.d_waiters.items, ¬ChainedOn w v

/-- The condition on a reply that is read. -/
def ReplyOK (s : OutgoingUDP) (fd : Int) (fromaddr : ComboAddress) (packet : Octets)
    (behind : UInt8) : Prop :=
  match question packet behind with
  | .ok (domain, type) => WeakOK s (eventKey fd fromaddr packet domain type)
  | .error _ => True

/-- The condition on a step. -/
def ChainsKept (s : OutgoingUDP) : Action → Prop
  | .ask q _ => s.running = true → ChainOK s q
  | .receive fd fromaddr (some data) behind =>
    s.isIdle = true → 12 ≤ (data.take 1500).length → headerQr (data.take 1500) = true →
      ReplyOK s fd fromaddr (data.take 1500) behind
  | _ => True

instance (a b : PacketID) : Decidable (PacketID.Agree a b) :=
  decidable_of_iff
    (a.id = b.id ∧ a.remote = b.remote ∧ a.domain = b.domain ∧ a.type = b.type ∧ a.fd = b.fd)
    ⟨fun ⟨hid, hremote, hdomain, htype, hfd⟩ => ⟨hid, hremote, hdomain, htype, hfd⟩,
      fun h => ⟨h.id, h.remote, h.domain, h.type, h.fd⟩⟩

instance (w v : Waiter) : Decidable (ChainedOn w v) :=
  inferInstanceAs (Decidable (w.key.fd = -1 ∧
    (w.key.remote = v.key.remote ∧ w.key.type = v.key.type ∧
      toLower w.key.domain = toLower v.key.domain) ∧ w.key.id ∈ v.key.chain.items))

instance (v : Waiter) (id : UInt16) (k : Kernel) : Decidable (Passed v id k) := by
  cases k <;> unfold Passed <;> infer_instance

instance (s : OutgoingUDP) (q : Ask) : Decidable (ChainOK s q) := by
  unfold ChainOK
  infer_instance

instance (s : OutgoingUDP) (pident : PacketID) : Decidable (WeakOK s pident) := by
  unfold WeakOK
  infer_instance

instance (s : OutgoingUDP) (fd : Int) (fromaddr : ComboAddress) (packet : Octets)
    (behind : UInt8) : Decidable (ReplyOK s fd fromaddr packet behind) := by
  unfold ReplyOK
  split <;> infer_instance

instance (s : OutgoingUDP) : (act : Action) → Decidable (ChainsKept s act)
  | .ask q _ => inferInstanceAs (Decidable (s.running = true → ChainOK s q))
  | .receive fd fromaddr (some data) behind =>
    inferInstanceAs (Decidable (s.isIdle = true → 12 ≤ (data.take 1500).length →
      headerQr (data.take 1500) = true → ReplyOK s fd fromaddr (data.take 1500) behind))
  | .start | .stop | .receive _ _ none _ | .proceed | .timeout _ =>
    inferInstanceAs (Decidable True)

/-! ### What is owed to the chained queries -/

/-- The query `n` waits in the chain of the waiter with the key `key`, beyond the cursor. -/
def Pending (t : Waiters) (cursor : Option UInt16) (key : PacketID) (n : Nat) : Prop :=
  ∃ w ∈ t, w.seq = n ∧ w.key.fd = -1 ∧ w.key.SameQuestion key ∧ w.key.id ∈ key.chain ∧
    Table.beyond idLess cursor w.key.id = true

/-- The query `n` was woken with this packet. -/
def Answered (s : OutgoingUDP) (n : Nat) (packet : Octets) : Prop :=
  ∃ u ∈ s.resumed, u.waiter.seq = n ∧ u.arrival.packet = packet

/-- The waiter that `sendEvent` wakes, at once or after the scan. -/
def target (t : Waiters) (a : Arrival) : Option Waiter :=
  match t.lookup a.pident with
  | some v => some v
  | none => if a.failed then none else weakTarget t a.pident

/-- The handler is at this waiter. -/
def Served (s : OutgoingUDP) (v : Waiter) : Prop :=
  (∃ a iter cursor, s.kernel = .resending a iter cursor ∧ PacketID.Agree v.key iter) ∨
    ∃ a, s.kernel = .sending a ∧ target s.d_waiters a = some v

/-- Whenever a thread with a socket was woken, the queries that were chained onto it were woken
with the same packet, or had timed out. -/
def ChainsAnswered (s : OutgoingUDP) : Prop :=
  ∀ u ∈ s.resumed, 0 ≤ u.waiter.key.fd → ∀ n, (n, u.waiter.seq) ∈ s.chained →
    n ∈ s.timedOut ∨ Answered s n u.arrival.packet

instance (s : OutgoingUDP) (n : Nat) (packet : Octets) : Decidable (Answered s n packet) := by
  unfold Answered
  infer_instance

instance (s : OutgoingUDP) : Decidable (ChainsAnswered s) :=
  decidable_of_iff
    (∀ u ∈ s.resumed, 0 ≤ u.waiter.key.fd → ∀ p ∈ s.chained, p.2 = u.waiter.seq →
      p.1 ∈ s.timedOut ∨ Answered s p.1 u.arrival.packet)
    ⟨fun h u hu hfd n hn => h u hu hfd (n, u.waiter.seq) hn rfl,
      fun h u hu hfd p hp heq => h u hu hfd p.1 (heq ▸ hp)⟩

/-- **The invariant of the chains.** -/
structure ChainInv (s : OutgoingUDP) : Prop where
  chained_lt : ∀ p ∈ s.chained, p.1 < s.asked ∧ p.2 < s.asked
  waiting : ∀ v ∈ s.d_waiters, 0 ≤ v.key.fd → ¬Served s v → ∀ n, (n, v.seq) ∈ s.chained →
    n ∈ s.timedOut ∨ Pending s.d_waiters none v.key n
  resending : ∀ a iter cursor, s.kernel = .resending a iter cursor → ∀ v ∈ s.d_waiters,
    PacketID.Agree v.key iter → ∀ n, (n, v.seq) ∈ s.chained →
    n ∈ s.timedOut ∨ Pending s.d_waiters cursor v.key n ∨ Answered s n a.packet
  sending : ∀ a, s.kernel = .sending a → ∀ v, target s.d_waiters a = some v →
    ∀ n, (n, v.seq) ∈ s.chained → n ∈ s.timedOut ∨ Answered s n a.packet
  answered : ChainsAnswered s

theorem chainInv_start : ChainInv {} :=
  ⟨nofun, nofun, nofun, nofun, nofun⟩

section Pending

variable {t t' : Waiters} {cursor : Option UInt16} {key key' : PacketID} {n : Nat}

/-- A query still waits when its waiter is still there, and its id is still in the chain. -/
theorem Pending.mono (h : Pending t cursor key n)
    (hkeep : ∀ w ∈ t, w.seq = n → w.key.fd = -1 → w.key.SameQuestion key →
      ∃ w' ∈ t', w'.seq = w.seq ∧ PacketID.Agree w'.key w.key)
    (hquestion : key.SameQuestion key') (hchain : ∀ id ∈ key.chain, id ∈ key'.chain) :
    Pending t' cursor key' n := by
  obtain ⟨w, hw, hseq, hfd, hq, hid, hbeyond⟩ := h
  obtain ⟨w', hw', hseq', hagree⟩ := hkeep w hw hseq hfd hq
  refine ⟨w', hw', hseq'.trans hseq, hagree.fd.trans hfd,
    hagree.sameQuestion.trans (hq.trans hquestion), ?_, ?_⟩
  · rw [hagree.id]
    exact hchain _ hid
  · rw [hagree.id]
    exact hbeyond

end Pending

theorem Answered.mono {s s' : OutgoingUDP} {n : Nat} {packet : Octets} (h : Answered s n packet)
    (hresumed : ∀ u ∈ s.resumed, u ∈ s'.resumed) : Answered s' n packet := by
  obtain ⟨u, hu, hseq, hpacket⟩ := h
  exact ⟨u, hresumed u hu, hseq, hpacket⟩

/-! ### Queries keep what is owed -/

section Ask

variable {s : OutgoingUDP} {q : Ask} {os : SocketResult}

theorem mem_chain_insert {id id' : UInt16} {c : Chain} : id' ∈ c.insert id ↔ id' = id ∨ id' ∈ c :=
  Table.mem_insert_of_injective fun _ _ h => same_idLess.mp h

/-- A chain only grows. -/
theorem mem_chain_chainOnto {k : PacketID} {id id' : UInt16} {w : Waiter} (h : id' ∈ w.key.chain) :
    id' ∈ (chainOnto k id w).key.chain := by
  unfold chainOnto
  split
  · exact mem_chain_insert.mpr (.inr h)
  · exact h

theorem self_mem_chainOnto (w : Waiter) (id : UInt16) :
    id ∈ (chainOnto w.key id w).key.chain := by
  unfold chainOnto
  rw [if_pos (same_refl _)]
  exact mem_chain_insert.mpr (.inl rfl)

/-- Waiters that are changed in place are found under the same keys. -/
theorem lookup_modify {t : Waiters} {f : Waiter → Waiter}
    (hf : ∀ a b, PacketID.less (f a).key (f b).key = PacketID.less a.key b.key)
    (hkey : ∀ w, PacketID.Agree (f w).key w.key) (key : PacketID) :
    (t.modify f hf).lookup key = (t.lookup key).map f := by
  cases hw : t.lookup key with
  | some w =>
    obtain ⟨hmem, hsame⟩ := Table.lookup_some hw
    exact Table.lookup_eq (Table.mem_modify_of_mem hf hmem) (same_trans (hkey w).same hsame)
  | none =>
    cases hw' : (t.modify f hf).lookup key with
    | none => rfl
    | some w' =>
      obtain ⟨hmem, hsame⟩ := Table.lookup_some hw'
      obtain ⟨w, hwmem, rfl⟩ := (Table.mem_modify hf).mp hmem
      have hno := Table.lookup_none hw hwmem
      rw [same_trans (hkey w).symm.same hsame] at hno
      cases hno

/-- A query that returns an error at once. -/
theorem ChainInv.count (h : ChainInv s) : ChainInv { s with asked := s.asked + 1 } where
  chained_lt := fun p hp => ⟨Nat.lt_succ_of_lt (h.chained_lt p hp).1,
    Nat.lt_succ_of_lt (h.chained_lt p hp).2⟩
  waiting := h.waiting
  resending := h.resending
  sending := h.sending
  answered := h.answered

/-- While a thread runs the handler is not in front of `sendEvent`. -/
theorem not_sending (hI : Inv s) (hrun : s.running = true) (a : Arrival) :
    s.kernel ≠ .sending a := by
  intro hkernel
  have hk := hI.kernel
  rw [hkernel] at hk
  rw [hk.2] at hrun
  cases hrun

/-- A query that opens a socket: nothing is chained onto it. -/
theorem ChainInv.open (h : ChainInv s) (hI : Inv s) (hrun : s.running = true) {fd : Int}
    (hnew : s.d_waiters.lookup (q.pident fd) = none) :
    ChainInv { s with
      d_waiters := s.d_waiters.insert ⟨q.pident fd, s.asked⟩
      d_socks := ⟨fd, q.pident fd, s.asked⟩ :: s.d_socks
      running := false
      asked := s.asked + 1 } := by
  have hnone : ∀ n, (n, s.asked) ∉ s.chained := fun n hn => Nat.lt_irrefl _ (h.chained_lt _ hn).2
  have hold : ∀ w ∈ s.d_waiters, w ∈ s.d_waiters.insert ⟨q.pident fd, s.asked⟩ :=
    fun w hw => (mem_insert_waiter hnew).mpr (.inr hw)
  have hpending : ∀ {cursor key n}, Pending s.d_waiters cursor key n →
      Pending (s.d_waiters.insert ⟨q.pident fd, s.asked⟩) cursor key n :=
    fun hp => hp.mono (fun w hw _ _ _ => ⟨w, hold w hw, rfl, PacketID.Agree.refl _⟩) ⟨rfl, rfl, rfl⟩
      fun _ hid => hid
  constructor
  case chained_lt => exact h.count.chained_lt
  case waiting =>
    intro v hv hfd hserved n hn
    rcases (mem_insert_waiter hnew).mp hv with rfl | hv
    · exact absurd hn (hnone n)
    · refine (h.waiting v hv hfd (fun hs => hserved ?_) n hn).imp_right hpending
      rcases hs with hs | ⟨a, ha, -⟩
      · exact .inl hs
      · exact absurd ha (not_sending hI hrun a)
  case resending =>
    intro a iter cursor hkernel v hv hagree n hn
    rcases (mem_insert_waiter hnew).mp hv with rfl | hv
    · exact absurd hn (hnone n)
    · exact (h.resending a iter cursor hkernel v hv hagree n hn).imp_right fun hor =>
        hor.imp_left hpending
  case sending => exact fun a ha => absurd ha (not_sending hI hrun a)
  case answered => exact h.answered

/-- **A query that is chained** onto `v` waits in the chain of `v`, and its id is still to
come. -/
theorem ChainInv.chain (h : ChainInv s) (hI : Inv s) (hrun : s.running = true) {v : Waiter}
    (hv : s.outstanding q = some v) (hok : ChainOK s q) : ChainInv (s.ask q os) := by
  obtain ⟨hnew, hcursor⟩ := hok v hv
  obtain ⟨hvmem, hvq, hvfd⟩ := outstanding_some hv
  have hkey := chainOnto_agree v.key q.id
  have hf := fun a b => PacketID.less_congr (hkey a) (hkey b)
  have hnew' : (s.withChained q v).d_waiters.lookup (q.pident (-1)) = none := by
    change (s.d_waiters.modify (chainOnto v.key q.id) hf).lookup _ = none
    rw [lookup_modify hf hkey, hnew]
    rfl
  rw [ask_chain hv, hnew']
  have hmem : ∀ w' ∈ (s.withChained q v).d_waiters.insert ⟨q.pident (-1), s.asked⟩,
      w' = ⟨q.pident (-1), s.asked⟩ ∨ ∃ w ∈ s.d_waiters, chainOnto v.key q.id w = w' :=
    fun w' hw' => ((mem_insert_waiter hnew').mp hw').imp_right (Table.mem_modify hf).mp
  have hold : ∀ w ∈ s.d_waiters, chainOnto v.key q.id w ∈
      (s.withChained q v).d_waiters.insert ⟨q.pident (-1), s.asked⟩ :=
    fun w hw => (mem_insert_waiter hnew').mpr (.inr (Table.mem_modify_of_mem hf hw))
  have hpending : ∀ {cursor w n}, Pending s.d_waiters cursor w.key n →
      Pending ((s.withChained q v).d_waiters.insert ⟨q.pident (-1), s.asked⟩) cursor
        (chainOnto v.key q.id w).key n := by
    intro cursor w n hp
    refine hp.mono (fun w' hw' _ _ _ => ⟨_, hold w' hw', chainOnto_seq _ _ _, hkey w'⟩)
      (hkey w).symm.sameQuestion fun _ hid => mem_chain_chainOnto hid
  -- the new query is in the chain of `v`, and of no other waiter
  have hcons : ∀ w ∈ s.d_waiters, ∀ n, (n, (chainOnto v.key q.id w).seq) ∈
      (s.asked, v.seq) :: s.chained → (n, w.seq) ∈ s.chained ∨ n = s.asked ∧ w = v := by
    intro w hw n hn
    rw [chainOnto_seq] at hn
    rcases mem_cons.mp hn with heq | hn
    · obtain ⟨rfl, hseq⟩ := Prod.mk.inj heq
      exact .inr ⟨rfl, hI.numbered.seq_inj w hw v hvmem hseq⟩
    · exact .inl hn
  have hpendingNew : ∀ {cursor}, Table.beyond idLess cursor q.id = true →
      Pending ((s.withChained q v).d_waiters.insert ⟨q.pident (-1), s.asked⟩) cursor
        (chainOnto v.key q.id v).key s.asked := by
    intro cursor hbeyond
    exact ⟨_, (mem_insert_waiter hnew').mpr (.inl rfl), rfl, rfl,
      (hvq.symm.trans (hkey v).symm.sameQuestion), self_mem_chainOnto v q.id, hbeyond⟩
  have hnotnew : ∀ w' : Waiter, w' = ⟨q.pident (-1), s.asked⟩ → ¬0 ≤ w'.key.fd := by
    rintro w' rfl
    exact not_le_pident
  constructor
  case chained_lt =>
    intro p hp
    rcases mem_cons.mp hp with rfl | hp
    · exact ⟨Nat.lt_succ_self _, Nat.lt_succ_of_lt (hI.numbered.seq_lt v hvmem)⟩
    · exact h.count.chained_lt p hp
  case waiting =>
    intro w' hw' hfd hns n hn
    rcases hmem w' hw' with heq | ⟨w, hw, rfl⟩
    · exact absurd hfd (hnotnew w' heq)
    · rcases hcons w hw n hn with hn | ⟨rfl, rfl⟩
      · refine (h.waiting w hw (by rw [← (hkey w).fd]; exact hfd) (fun hs => hns ?_) n hn).imp_right
          hpending
        rcases hs with ⟨a, iter, cursor, hk, hagree⟩ | ⟨a, ha, -⟩
        · exact .inl ⟨a, iter, cursor, hk, (hkey w).trans hagree⟩
        · exact absurd ha (not_sending hI hrun a)
      · exact .inr (hpendingNew rfl)
  case resending =>
    intro a iter cursor hkernel w' hw' hagree n hn
    rcases hmem w' hw' with heq | ⟨w, hw, rfl⟩
    · -- the handler is at a waiter with a socket
      exfalso
      have hk := hI.kernel
      change s.kernel = _ at hkernel
      rw [hkernel] at hk
      obtain ⟨-, x, -, hiter, -, hx0⟩ := hk
      refine hnotnew w' heq ?_
      rw [hagree.fd, ← hiter.fd]
      exact hx0
    · rcases hcons w hw n hn with hn | ⟨rfl, rfl⟩
      · exact (h.resending a iter cursor hkernel w hw ((hkey w).symm.trans hagree) n hn).imp_right
          fun hor => hor.imp_left hpending
      · have hbeyond : Table.beyond idLess cursor q.id = true := by
          by_contra hnot
          refine hcursor ?_
          change s.kernel = _ at hkernel
          rw [hkernel]
          exact ⟨(hkey w).symm.trans hagree, (not_eq_true _).mp hnot⟩
        exact .inr (.inl (hpendingNew hbeyond))
  case sending => exact fun a ha => absurd ha (not_sending hI hrun a)
  case answered =>
    intro u hu hfd n hn
    rcases mem_cons.mp hn with heq | hn
    · -- `v` still waits
      exfalso
      obtain ⟨-, hseq⟩ := Prod.mk.inj heq
      refine hI.numbered.waiting v hvmem ?_
      rw [← hseq]
      exact mem_append_left _ (mem_map_of_mem hu)
    · exact h.answered u hu hfd n hn

/-- **A query** that meets the condition keeps what is owed. -/
theorem ChainInv.ask (h : ChainInv s) (hI : Inv s) (hrun : s.running = true) (hfresh : s.Fresh os)
    (hok : ChainOK s q) : ChainInv (s.ask q os) := by
  cases hout : s.outstanding q with
  | some v => exact h.chain hI hrun hout hok
  | none =>
    rcases @ask_alone s q os hout hfresh with ⟨fd, -, -, hnew, heq⟩ | heq
    · rw [heq]
      exact h.open hI hrun hnew
    · rw [heq]
      exact h.count

end Ask

/-! ### The handler keeps what is owed -/

section Handler

variable {s : OutgoingUDP} {a : Arrival}

/-- In an idle state nobody is served. -/
theorem not_served_idle (hkernel : s.kernel = .idle) (v : Waiter) : ¬Served s v := by
  rintro (⟨a, iter, cursor, hk, -⟩ | ⟨a, hk, -⟩)
  · rw [hkernel] at hk
    cases hk
  · rw [hkernel] at hk
    cases hk

/-- The handler is idle again, or closes a socket, and nobody was served but who is gone. -/
theorem ChainInv.quiet (h : ChainInv s) {kernel : Kernel} (socks : List UDPSocket)
    (hkernel : kernel.arrival = none)
    (hnone : ∀ v ∈ s.d_waiters, ¬Served s v) :
    ChainInv { s with kernel := kernel, d_socks := socks } where
  chained_lt := h.chained_lt
  waiting := fun v hv hfd _ n hn => h.waiting v hv hfd (hnone v hv) n hn
  resending := by
    rintro a iter cursor rfl
    cases hkernel
  sending := by
    rintro a rfl
    cases hkernel
  answered := h.answered

/-- **An arrival is dispatched.** When `doResends` is not tried, whoever will be woken has nobody
waiting in its chain. -/
theorem ChainInv.dispatch (h : ChainInv s) (hkernel : s.kernel = .idle)
    (hfd : ∀ v, target s.d_waiters a = some v → 0 ≤ v.key.fd)
    (hweak : s.d_waiters.lookup a.pident = none → ∀ v, target s.d_waiters a = some v →
      v ∈ s.d_waiters ∧ ∀ w ∈ s.d_waiters, ¬ChainedOn w v) : ChainInv (s.dispatch a) := by
  have hwaiting := fun v hv h0 => h.waiting v hv h0 (not_served_idle hkernel v)
  cases hlookup : s.d_waiters.lookup a.pident with
  | some v =>
    have heq : s.dispatch a = { s with kernel := .resending a v.key none } := by
      unfold OutgoingUDP.dispatch
      rw [hlookup]
    obtain ⟨hv, hsame⟩ := Table.lookup_some hlookup
    have hv0 : 0 ≤ v.key.fd := hfd v (by unfold target; rw [hlookup])
    rw [heq]
    constructor
    case chained_lt => exact h.chained_lt
    case waiting => exact fun v hv h0 _ => hwaiting v hv h0
    case resending =>
      intro a' iter cursor hk w hw hagree n hn
      cases hk
      obtain rfl := eq_of_agree hw hv hagree
      exact (hwaiting w hw hv0 n hn).imp_right .inl
    case sending => nofun
    case answered => exact h.answered
  | none =>
    have heq : s.dispatch a = { s with kernel := .sending a } := by
      unfold OutgoingUDP.dispatch
      rw [hlookup]
    rw [heq]
    constructor
    case chained_lt => exact h.chained_lt
    case waiting => exact fun v hv h0 _ => hwaiting v hv h0
    case resending => nofun
    case sending =>
      intro a' hk v hv n hn
      cases hk
      obtain ⟨hvmem, hnone⟩ := hweak hlookup v hv
      refine (hwaiting v hvmem (hfd v hv) n hn).imp_right ?_
      rintro ⟨w, hw, -, hfd', hq, hid, -⟩
      exact absurd ⟨hfd', hq, hid⟩ (hnone w hw)
    case answered => exact h.answered

/-- `doResends` comes to an id: its waiter, if it still waits, is woken. -/
theorem ChainInv.resend (h : ChainInv s) (hI : Inv s) {iter : PacketID} {cursor : Option UInt16}
    (hkernel : s.kernel = .resending a iter cursor) {id : UInt16}
    (hnext : ((s.d_waiters.lookup iter).bind fun v => v.key.chain.next cursor) = some id)
    {s' : OutgoingUDP}
    (hs' : (∃ w, s.d_waiters.lookup { a.pident with fd := -1, id := id } = some w ∧
        s' = { s with
          kernel := .resending a iter (some id)
          d_waiters := s.d_waiters.erase { a.pident with fd := -1, id := id }
          running := true
          resumed := ⟨w, a⟩ :: s.resumed }) ∨
      s.d_waiters.lookup { a.pident with fd := -1, id := id } = none ∧
        s' = { s with kernel := .resending a iter (some id) }) : ChainInv s' := by
  obtain ⟨x, hx, hxnext⟩ := bind_eq_some_iff.mp hnext
  obtain ⟨hxmem, hxiter⟩ := Table.lookup_some hx
  obtain ⟨-, -, hpassed⟩ := Table.next_some hxnext
  have hk := hI.kernel
  rw [hkernel] at hk
  obtain ⟨-, v₀, hv₀, hv₀iter, hv₀same, hv₀fd⟩ := hk
  -- the waiter that the handler is at
  have hone : ∀ v ∈ s.d_waiters, PacketID.Agree v.key iter → v = v₀ := fun v hv hagree =>
    eq_of_agree hv hv₀ (hagree.trans hv₀iter.symm)
  obtain rfl : x = v₀ := Table.eq_of_same hxmem hv₀ (same_trans hxiter hv₀iter.symm.same)
  have hquestion := (PacketID.same_less_iff.mp hv₀same).1
  -- who waits in its chain with this id is found, the others are still to come
  have hstep : ∀ w ∈ s.d_waiters, w.key.fd = -1 → w.key.SameQuestion x.key → w.key.id ∈ x.key.chain →
      Table.beyond idLess cursor w.key.id = true →
      same PacketID.less w.key { a.pident with fd := -1, id := id } = true ∨
        same PacketID.less w.key { a.pident with fd := -1, id := id } = false ∧
          idLess id w.key.id = true := by
    intro w hw hwfd hq hid hbeyond
    rcases hpassed _ hid hbeyond with heq | hless
    · exact .inl (PacketID.same_less_iff.mpr ⟨hq.trans hquestion, hwfd, heq⟩)
    · refine .inr ⟨?_, hless⟩
      by_contra hsame
      rw [not_eq_false, PacketID.same_less_iff] at hsame
      have hid' : w.key.id = id := hsame.2.2
      change idLess id w.key.id = true at hless
      rw [hid', @less_irrefl _ idLess _ id] at hless
      cases hless
  rcases hs' with ⟨w₀, hw₀, rfl⟩ | ⟨hnone, rfl⟩
  · obtain ⟨hw₀mem, hw₀same⟩ := Table.lookup_some hw₀
    have hw₀key := PacketID.same_less_iff.mp hw₀same
    have hmono : ∀ {n packet}, Answered s n packet → Answered { s with
        kernel := .resending a iter (some id)
        d_waiters := s.d_waiters.erase { a.pident with fd := -1, id := id }
        running := true
        resumed := ⟨w₀, a⟩ :: s.resumed } n packet :=
      fun ha => ha.mono fun u hu => mem_cons_of_mem _ hu
    constructor
    case chained_lt => exact h.chained_lt
    case waiting =>
      intro v hv hfd hns n hn
      have hvmem := (Table.mem_erase.mp hv).1
      have hne : ¬PacketID.Agree v.key iter := fun hagree => hns (.inl ⟨a, iter, some id, rfl, hagree⟩)
      have hns' : ¬Served s v := by
        rintro (⟨a', iter', cursor', hk', hagree⟩ | ⟨a', hk', -⟩)
        · rw [hkernel] at hk'
          cases hk'
          exact hne hagree
        · rw [hkernel] at hk'
          cases hk'
      refine (h.waiting v hvmem hfd hns' n hn).imp_right fun hp => ?_
      refine hp.mono (fun w hw _ _ hq => ⟨w, Table.mem_erase.mpr ⟨hw, ?_⟩, rfl, PacketID.Agree.refl _⟩)
        ⟨rfl, rfl, rfl⟩ fun _ hid => hid
      -- who waits in another chain asks another question
      by_contra hsame
      rw [not_eq_false, PacketID.same_less_iff] at hsame
      have hvx := hI.owners.unique v hvmem x hxmem hfd hv₀fd
        (hq.symm.trans (hsame.1.trans hquestion.symm))
      exact hne (hvx ▸ hv₀iter)
    case resending =>
      intro a' iter' cursor' hk' v hv hagree n hn
      cases hk'
      have hvmem := (Table.mem_erase.mp hv).1
      obtain rfl := hone v hvmem hagree
      rcases h.resending a iter cursor hkernel v hvmem hagree n hn with ht | hp | ha
      · exact .inl ht
      · obtain ⟨w, hw, hseq, hwfd, hq, hid, hbeyond⟩ := hp
        rcases hstep w hw hwfd hq hid hbeyond with hsame | ⟨hother, hless⟩
        · obtain rfl := Table.eq_of_same hw hw₀mem (same_trans hsame (same_symm hw₀same))
          exact .inr (.inr ⟨⟨w, a⟩, mem_cons_self, hseq, rfl⟩)
        · exact .inr (.inl ⟨w, Table.mem_erase.mpr ⟨hw, hother⟩, hseq, hwfd, hq, hid, hless⟩)
      · exact .inr (.inr (hmono ha))
    case sending => nofun
    case answered =>
      intro u hu hfd n hn
      rcases mem_cons.mp hu with rfl | hu
      · -- who is woken here has no socket
        have hfd' : w₀.key.fd = -1 := hw₀key.2.1
        dsimp only at hfd
        omega
      · exact (h.answered u hu hfd n hn).imp_right hmono
  · constructor
    case chained_lt => exact h.chained_lt
    case waiting =>
      intro v hv hfd hns n hn
      refine h.waiting v hv hfd (fun hs => hns ?_) n hn
      rcases hs with ⟨a', iter', cursor', hk', hagree⟩ | ⟨a', hk', -⟩
      · rw [hkernel] at hk'
        cases hk'
        exact .inl ⟨a, iter, some id, rfl, hagree⟩
      · rw [hkernel] at hk'
        cases hk'
    case resending =>
      intro a' iter' cursor' hk' v hv hagree n hn
      cases hk'
      obtain rfl := hone v hv hagree
      rcases h.resending a iter cursor hkernel v hv hagree n hn with ht | hp | ha
      · exact .inl ht
      · obtain ⟨w, hw, hseq, hwfd, hq, hid, hbeyond⟩ := hp
        rcases hstep w hw hwfd hq hid hbeyond with hsame | ⟨-, hless⟩
        · rw [Table.lookup_none hnone hw] at hsame
          cases hsame
        · exact .inr (.inl ⟨w, hw, hseq, hwfd, hq, hid, hless⟩)
      · exact .inr (.inr ha)
    case sending => nofun
    case answered => exact h.answered

/-- **The end of the chain**: whoever is in it has been woken. -/
theorem ChainInv.resent (h : ChainInv s) (hI : Inv s) {iter : PacketID} {cursor : Option UInt16}
    (hkernel : s.kernel = .resending a iter cursor)
    (hnext : ((s.d_waiters.lookup iter).bind fun v => v.key.chain.next cursor) = none) :
    ChainInv { s with kernel := .sending a } := by
  have hk := hI.kernel
  rw [hkernel] at hk
  obtain ⟨-, x, hx, hiter, hsame, -⟩ := hk
  rw [Table.lookup_eq hx hiter.same] at hnext
  -- the waiter that the handler is at is the one that it wakes next
  have htarget : target s.d_waiters a = some x := by
    unfold target
    rw [Table.lookup_eq hx hsame]
  constructor
  case chained_lt => exact h.chained_lt
  case waiting =>
    intro v hv hfd hns n hn
    refine h.waiting v hv hfd (fun hs => hns ?_) n hn
    rcases hs with ⟨a', iter', cursor', hk', hagree⟩ | ⟨a', hk', -⟩
    · rw [hkernel] at hk'
      cases hk'
      obtain rfl := eq_of_agree hv hx (hagree.trans hiter.symm)
      exact .inr ⟨a, rfl, htarget⟩
    · rw [hkernel] at hk'
      cases hk'
  case resending => nofun
  case sending =>
    intro a' hk' v hv n hn
    cases hk'
    rw [htarget] at hv
    obtain rfl := some.inj hv
    rcases h.resending a iter cursor hkernel x hx hiter n hn with ht | hp | ha
    · exact .inl ht
    · -- nobody is still to come
      obtain ⟨w, -, -, -, -, hid, hbeyond⟩ := hp
      have hpassed := Table.next_none hnext hid
      change Table.beyond idLess cursor w.key.id = false at hpassed
      rw [hpassed] at hbeyond
      cases hbeyond
    · exact .inr ha
  case answered => exact h.answered

/-- The handler is in front of `sendEvent`: who is served. -/
theorem served_sending (hkernel : s.kernel = .sending a) {v : Waiter} :
    Served s v ↔ target s.d_waiters a = some v := by
  constructor
  · rintro (⟨a', iter, cursor, hk, -⟩ | ⟨a', hk, hv⟩)
    · rw [hkernel] at hk
      cases hk
    · rw [hkernel] at hk
      cases hk
      exact hv
  · exact fun hv => .inr ⟨a, hkernel, hv⟩

/-- **The thread that asked is woken**, after all that are chained onto it. -/
theorem ChainInv.wake_owner (h : ChainInv s) (hI : Inv s) (hkernel : s.kernel = .sending a)
    {w₀ : Waiter} (hw₀ : s.d_waiters.lookup a.pident = some w₀) {kernel : Kernel}
    (hquiet : kernel.arrival = none) :
    ChainInv { s with
      d_waiters := s.d_waiters.erase a.pident
      running := true
      resumed := ⟨w₀, a⟩ :: s.resumed
      kernel := kernel } := by
  obtain ⟨hw₀mem, hw₀same⟩ := Table.lookup_some hw₀
  have htarget : target s.d_waiters a = some w₀ := by
    unfold target
    rw [hw₀]
  have hk := hI.kernel
  rw [hkernel] at hk
  have hfd₀ : 0 ≤ a.pident.fd := by
    rcases hk.1 with ⟨-, -, h0⟩ | ⟨-, hsocket, hfits⟩
    · exact h0
    · rw [hfits.fd]
      exact (hI.sockets.fd _ hsocket).1
  have hmono : ∀ {n packet}, Answered s n packet → Answered { s with
      d_waiters := s.d_waiters.erase a.pident
      running := true
      resumed := ⟨w₀, a⟩ :: s.resumed
      kernel := kernel } n packet :=
    fun ha => ha.mono fun u hu => mem_cons_of_mem _ hu
  constructor
  case chained_lt => exact h.chained_lt
  case waiting =>
    intro v hv hfd _ n hn
    obtain ⟨hvmem, hother⟩ := Table.mem_erase.mp hv
    have hns : ¬Served s v := by
      rw [served_sending hkernel, htarget]
      rintro heq
      obtain rfl := some.inj heq
      rw [hw₀same] at hother
      cases hother
    refine (h.waiting v hvmem hfd hns n hn).imp_right fun hp => ?_
    refine hp.mono (fun w hw _ hwfd _ => ⟨w, Table.mem_erase.mpr ⟨hw, ?_⟩, rfl, PacketID.Agree.refl _⟩)
      ⟨rfl, rfl, rfl⟩ fun _ hid => hid
    by_contra hsame
    rw [not_eq_false, PacketID.same_less_iff] at hsame
    omega
  case resending =>
    rintro a' iter cursor rfl
    cases hquiet
  case sending =>
    rintro a' rfl
    cases hquiet
  case answered =>
    intro u hu hfd n hn
    rcases mem_cons.mp hu with rfl | hu
    · exact (h.sending a hkernel w₀ htarget n hn).imp_right hmono
    · exact (h.answered u hu hfd n hn).imp_right hmono

/-- The scan counts near misses, and leaves the chains as they are. -/
theorem nearMiss_chain (pident : PacketID) (stop : Option Waiter) (w : Waiter) :
    (nearMiss pident stop w).key.chain = w.key.chain := by
  unfold nearMiss
  split <;> rfl

/-- A packet that has a name is not given the name of a waiter. -/
theorem weakTarget_named {t : Waiters} {pident : PacketID} (h : pident.type ≠ 0) :
    weakTarget t pident = none := by
  have hno : t.find (weakMatch pident) = none := by
    unfold Table.find
    rw [find?_eq_none]
    intro w _
    simp [weakMatch, h]
  unfold weakTarget
  rw [hno]
  rfl

/-- What the scan leaves for `sendEvent`. -/
def retryKernel (t : Waiters) (a : Arrival) : Kernel :=
  match t.find (weakMatch a.pident) with
  | some m =>
    .sending { a with pident := { a.pident with domain := m.key.domain, type := m.key.type } }
  | none => .idle

/-- What the scan leaves wakes who was to be woken. -/
theorem target_retry {t t' : Waiters} {f : Waiter → Waiter}
    (hlookup : ∀ key, t'.lookup key = (t.lookup key).map f) (hfailed : a.failed = false)
    {b : Arrival} (hb : retryKernel t a = .sending b) :
    target t' b = (weakTarget t a.pident).map f := by
  unfold retryKernel at hb
  unfold weakTarget
  cases hm : t.find (weakMatch a.pident) with
  | none =>
    rw [hm] at hb
    cases hb
  | some m =>
    rw [hm] at hb
    cases hb
    -- the waiter whose name and type were taken has a type
    have hweak := (Table.find_some hm).2
    simp only [weakMatch, and_eq_true, decide_eq_true_eq] at hweak
    have hnamed : weakTarget t'
        { a.pident with domain := m.key.domain, type := m.key.type } = none :=
      weakTarget_named hweak.1.1.2
    unfold target
    dsimp only [bind_some]
    rw [hlookup, hfailed, if_neg Bool.false_ne_true, hnamed]
    cases t.lookup { a.pident with domain := m.key.domain, type := m.key.type } <;> rfl

/-- Who is to be woken is found after the scan, too. -/
theorem retryKernel_of_target {t : Waiters} {v : Waiter} (h : weakTarget t a.pident = some v) :
    ∃ b, retryKernel t a = .sending b := by
  unfold retryKernel
  obtain ⟨m, hm, -⟩ := bind_eq_some_iff.mp h
  rw [hm]
  exact ⟨_, rfl⟩

/-- **The scan of all waiters**: it does not change who will be woken. -/
theorem ChainInv.retry (h : ChainInv s) (hkernel : s.kernel = .sending a)
    (hnone : s.d_waiters.lookup a.pident = none) (hfailed : a.failed = false) :
    ChainInv (s.retryWithName a) := by
  have hkey := nearMiss_agree a.pident (s.d_waiters.find (weakMatch a.pident))
  have hf := fun v w => PacketID.less_congr (hkey v) (hkey w)
  have hseq := nearMiss_seq a.pident (s.d_waiters.find (weakMatch a.pident))
  have hchain := nearMiss_chain a.pident (s.d_waiters.find (weakMatch a.pident))
  have htarget : target s.d_waiters a = weakTarget s.d_waiters a.pident := by
    unfold target
    rw [hnone, hfailed]
    rfl
  have hdef : s.retryWithName a = { s with
      d_waiters := s.d_waiters.modify _ hf
      kernel := retryKernel s.d_waiters a } := rfl
  generalize nearMiss a.pident (s.d_waiters.find (weakMatch a.pident)) = f at *
  have hpending : ∀ {w n}, Pending s.d_waiters none w.key n →
      Pending (s.d_waiters.modify f hf) none (f w).key n := by
    intro w n hp
    refine hp.mono (fun w' hw' _ _ _ => ⟨_, Table.mem_modify_of_mem hf hw', hseq w', hkey w'⟩)
      (hkey w).symm.sameQuestion fun id hid => ?_
    rw [hchain]
    exact hid
  have hretry := fun b =>
    @target_retry a s.d_waiters (s.d_waiters.modify f hf) f (lookup_modify hf hkey) hfailed b
  rw [hdef]
  constructor
  case chained_lt => exact h.chained_lt
  case waiting =>
    intro v hv hfd hns n hn
    obtain ⟨w, hw, rfl⟩ := (Table.mem_modify hf).mp hv
    rw [hseq] at hn
    rw [(hkey w).fd] at hfd
    refine (h.waiting w hw hfd (fun hs => hns ?_) n hn).imp_right hpending
    rw [served_sending hkernel, htarget] at hs
    obtain ⟨b, hb⟩ := retryKernel_of_target hs
    refine .inr ⟨b, hb, (hretry b hb).trans ?_⟩
    rw [hs]
    rfl
  case resending =>
    intro b iter cursor hk
    unfold retryKernel at hk
    split at hk <;> cases hk
  case sending =>
    intro b hb v hv n hn
    have hpacket : b.packet = a.packet := by
      unfold retryKernel at hb
      split at hb
      next =>
        cases hb
        rfl
      next => cases hb
    obtain ⟨w, hw, rfl⟩ := map_eq_some_iff.mp ((hretry b hb).symm.trans hv)
    rw [hseq] at hn
    rw [hpacket]
    exact h.sending a hkernel w (htarget.trans hw) n hn
  case answered => exact h.answered

/-- **A step of the handler** keeps what is owed. -/
theorem ChainInv.proceed (h : ChainInv s) (hI : Inv s) : ChainInv s.proceed := by
  rcases s.proceed_cases with ⟨-, heq⟩ | ⟨a, iter, cursor, hkernel, hcase⟩ | ⟨a, hkernel, hcase⟩ |
    ⟨fd, hkernel, heq⟩
  · rw [heq]
    exact h
  · rcases hcase with ⟨id, hnext, hor⟩ | ⟨hnext, heq⟩
    · exact h.resend hI hkernel hnext hor
    · rw [heq]
      exact h.resent hI hkernel hnext
  · rcases hcase with ⟨w, hw, heq⟩ | ⟨hnone, ⟨hfailed, heq⟩ | ⟨hfailed, heq⟩⟩
    · rw [heq]
      exact h.wake_owner hI hkernel hw (by cases a.failed <;> rfl)
    · rw [heq]
      refine @ChainInv.quiet s h .idle s.d_socks rfl fun v _ => ?_
      rw [served_sending hkernel]
      unfold target
      rw [hnone, hfailed]
      nofun
    · rw [heq]
      exact h.retry hkernel hnone hfailed
  · rw [heq]
    refine @ChainInv.quiet s h .idle _ rfl fun v _ => ?_
    rintro (⟨a, iter, cursor, hk, -⟩ | ⟨a, hk, -⟩)
    · rw [hkernel] at hk
      cases hk
    · rw [hkernel] at hk
      cases hk

/-- Nothing but who runs, and which sockets are open, changes. -/
theorem ChainInv.frame (h : ChainInv s) (running : Bool) (socks : List UDPSocket) :
    ChainInv { s with running := running, d_socks := socks } where
  chained_lt := h.chained_lt
  waiting := h.waiting
  resending := h.resending
  sending := h.sending
  answered := h.answered

/-- A key that is found has the number of the socket that was looked for. -/
theorem fd_of_target {v : Waiter} (h : target s.d_waiters a = some v) : v.key.fd = a.pident.fd := by
  have hlookup : ∀ {key v}, s.d_waiters.lookup key = some v → v.key.fd = key.fd :=
    fun h => (PacketID.same_less_iff.mp (Table.lookup_some h).2).2.1
  unfold target at h
  split at h
  next w hw =>
    obtain rfl := some.inj h
    exact hlookup hw
  next =>
    split at h
    next => cases h
    next =>
      obtain ⟨m, -, hm⟩ := bind_eq_some_iff.mp h
      have hfd := hlookup hm
      exact hfd

/-- **A packet, or an error, arrives.** -/
theorem ChainInv.receive (h : ChainInv s) (hI : Inv s) (hkernel : s.kernel = .idle) {k : UDPSocket}
    (hk : k ∈ s.d_socks) (fromaddr : ComboAddress) (recvfrom : Option Octets) (behind : UInt8)
    (hok : ∀ data, recvfrom = some data → 12 ≤ (data.take 1500).length →
      headerQr (data.take 1500) = true → ReplyOK s k.fd fromaddr (data.take 1500) behind) :
    ChainInv (s.handleUDPServerResponse k fromaddr recvfrom behind) := by
  obtain ⟨hfd, hpid⟩ := hI.sockets.fd k hk
  unfold handleUDPServerResponse
  dsimp only
  split
  next =>
    -- an error, for the waiter that has the socket or for nobody
    have hclosed : ChainInv (s.returnSocket k.fd) := h.frame s.running _
    refine hclosed.dispatch hkernel (fun v hv => ?_) fun hnone v hv => ?_
    · rw [fd_of_target hv]
      rw [hpid]
      exact hfd
    · unfold target at hv
      rw [hnone] at hv
      cases hv
  next hlen =>
    split
    next hqr =>
      split
      next => exact h
      next domain type hq =>
        cases recvfrom with
        | none => exact absurd (Nat.succ_pos _) hlen
        | some data =>
          have hweak : WeakOK s (eventKey k.fd fromaddr (data.take 1500) domain type) := by
            have hreply := hok data rfl (not_lt.mp hlen) hqr
            unfold ReplyOK at hreply
            change question (data.take 1500) behind = _ at hq
            rw [hq] at hreply
            exact hreply
          refine h.dispatch hkernel (fun v hv => ?_) fun hnone v hv => ?_
          · rw [fd_of_target hv]
            exact hfd
          · have hv' : weakTarget s.d_waiters (eventKey k.fd fromaddr (data.take 1500) domain type) =
                some v := by
              unfold target at hv
              rw [hnone] at hv
              exact hv
            refine ⟨?_, hweak hnone v hv'⟩
            obtain ⟨m, -, hm⟩ := bind_eq_some_iff.mp hv'
            exact (Table.lookup_some hm).1
    next => exact h

/-- **A timeout**: whoever it is does not wait any more. -/
theorem ChainInv.timeOut (h : ChainInv s) (hkernel : s.kernel = .idle) {w : Waiter}
    (hw : w ∈ s.d_waiters) : ChainInv (s.timeOut w) := by
  have herased : ChainInv { s with
      d_waiters := s.d_waiters.erase w.key, running := true, timedOut := w.seq :: s.timedOut } := by
    constructor
    case chained_lt => exact h.chained_lt
    case waiting =>
      intro v hv hfd _ n hn
      rcases h.waiting v (Table.mem_erase.mp hv).1 hfd (not_served_idle hkernel v) n hn with
        ht | ⟨w', hw', hseq, hrest⟩
      · exact .inl (mem_cons_of_mem _ ht)
      · cases hsame : same PacketID.less w'.key w.key with
        | true =>
          obtain rfl := Table.eq_of_same hw' hw hsame
          exact .inl (hseq ▸ mem_cons_self)
        | false => exact .inr ⟨w', Table.mem_erase.mpr ⟨hw', hsame⟩, hseq, hrest⟩
    case resending =>
      intro a iter cursor hk
      rw [hkernel] at hk
      cases hk
    case sending =>
      intro a hk
      rw [hkernel] at hk
      cases hk
    case answered =>
      exact fun u hu hfd n hn => (h.answered u hu hfd n hn).imp_left (mem_cons_of_mem _)
  unfold OutgoingUDP.timeOut
  split
  next => exact herased.frame true _
  next => exact herased

/-- **Every step that meets the condition** keeps what is owed. -/
theorem ChainInv.step (h : ChainInv s) (hI : Inv s) {act : Action} (hok : ChainsKept s act) :
    ChainInv (s.step act) := by
  unfold OutgoingUDP.step
  cases act with
  | start =>
    dsimp only
    split
    next => exact h.frame true s.d_socks
    next => exact h
  | ask q os =>
    dsimp only
    split
    next hrun => exact h.ask hI hrun.1 hrun.2 (hok hrun.1)
    next => exact h
  | stop => exact h.frame false s.d_socks
  | receive fd fromaddr recvfrom behind =>
    dsimp only
    split
    next hidle =>
      split
      next => exact h
      next k hk =>
        obtain ⟨hmem, rfl⟩ := socketOf_some hk
        refine h.receive hI (isIdle_iff.mp hidle).1 hmem fromaddr recvfrom behind fun data hdata => ?_
        subst hdata
        exact hok hidle
    next => exact h
  | proceed =>
    dsimp only
    split
    next => exact h
    next => exact h.proceed hI
  | timeout key =>
    dsimp only
    split
    next hidle =>
      split
      next => exact h
      next w hw => exact h.timeOut (isIdle_iff.mp hidle).1 (Table.lookup_some hw).1
    next => exact h

end Handler

/-- **Chained queries are answered.** In every run whose steps meet the condition, whenever a
thread with a socket was woken by a packet or an error, every query that was chained onto it was
woken with the same, exactly once, unless it had timed out. -/
theorem chained_answered (acts : List Action) (hg : Guarded step ChainsKept {} acts) :
    ChainsAnswered (run step {} acts) ∧ (run step {} acts).past.Nodup := by
  have hinv : Inv (run step {} acts) ∧ ChainInv (run step {} acts) :=
    @run_invariant _ _ step ChainsKept (fun s => Inv s ∧ ChainInv s)
      (fun _ act h hok => ⟨h.1.step act, h.2.step h.1 hok⟩) _ _ ⟨inv_start, chainInv_start⟩ hg
  exact ⟨hinv.2.answered, hinv.1.numbered.once⟩

/-- The query for the address of `a.` once more, with another id. -/
def askAgain : Ask := { askAddress with id := 9 }

/-- Two threads ask for the address of `a.`, and a packet arrives on the socket of the first. -/
def chainedRun (reply : Octets) : List Action :=
  [.start, .ask askAddress (.opened 3 true), .start, .ask askAgain .noSocket,
    .receive 3 askAddress.remote (some reply) 0, .proceed, .stop, .proceed, .proceed, .stop,
    .proceed]

/-- The reply to `askAddress`. -/
def addressReply : Octets := [0, 7, 0x80, 0, 0, 1, 0, 0, 0, 0, 0, 0, 1, 97, 0, 0, 1, 0, 1]

/-- The reply that was asked for wakes both queries. -/
theorem both_answered :
    ((run step {} (chainedRun addressReply)).resumed.map fun u => u.waiter.seq) = [0, 1] ∧
      ChainsAnswered (run step {} (chainedRun addressReply)) ∧
      (run step {} (chainedRun addressReply)).past.Nodup :=
  ⟨by decide, chained_answered _ (by decide)⟩

/-- **A reply without a question** wakes the query with its id, and not the one that is chained
onto it. -/
theorem bare_reply_loses_chain :
    ¬ChainsAnswered (run step {} (chainedRun [0, 7, 0x80, 1, 0, 0, 0, 0, 0, 0, 0, 0])) := by
  decide

/-- Two queries with one id are chained: the second returns an error at once. -/
example : ¬ChainsAnswered (run step {}
    [.start, .ask askAddress (.opened 3 true), .start, .ask askAgain .noSocket, .start,
      .ask askAgain .noSocket, .stop, .receive 3 askAddress.remote (some addressReply) 0, .proceed,
      .stop, .proceed, .proceed]) := by
  decide

/-- A query that `doResends` wakes is made again, with a smaller id. -/
example : ¬ChainsAnswered (run step {}
    [.start, .ask askAddress (.opened 3 true), .start, .ask askAgain .noSocket,
      .receive 3 askAddress.remote (some addressReply) 0, .proceed,
      .ask { askAddress with id := 5 } .noSocket, .proceed, .proceed]) := by
  decide

end OutgoingUDP

end PowerDNS
