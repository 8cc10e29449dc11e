import PowerDNS.Recursor.LWRes
import PowerDNS.Recursor.PacketID
import PowerDNS.Recursor.QuestionExpand

/-!
# The recursor's outgoing queries: `asendto`, `arecvfrom` and `handleUDPServerResponse`

A thread that asks a server calls `asendto` and then waits in `arecvfrom`, in the table of
waiters of the `MTasker`. When a thread already waits for the answer to the same question from
the same remote, its id is put into the chain of that waiter, and it waits without a socket of
its own. `handleUDPServerResponse` reads a packet, wakes first the threads that are chained
(`doResends`) and then the one that asked.

The threads are coroutines: `sendEvent` hands control to the thread it wakes, and gets it back
when that thread waits again or ends. In between the thread may ask other questions, also while
`doResends` is under way. So the handler is modelled by its steps, `Kernel` says where it
stands, and `running` whether a thread has control. What threads ask is up to them, and so are
the packets that arrive, the sockets that the operating system hands out, and the timeouts.
-/

namespace PowerDNS

open GuardedRun OrderedUnique List Bool

/-- A thread in `waitEvent`. `seq` is the number of the query it waits for, in the order in which
queries are made. -/
structure Waiter where
  key : PacketID
  seq : Nat

/-- `waiters_t`, ordered by the keys. -/
abbrev Waiters := Table Waiter.key PacketID.less

/-- A socket in `d_socks`, the parameter that `addReadFD` registered with it, and the query it
was opened for. -/
structure UDPSocket where
  fd : Int
  pid : PacketID
  seq : Nat

/-- What `asendto` and `arecvfrom` are called with. -/
structure Ask where
  remote : ComboAddress
  id : UInt16
  domain : Octets
  type : UInt16

/-- The key for a query on a socket. -/
def Ask.pident (q : Ask) (fd : Int) : PacketID where
  id := q.id
  remote := q.remote
  domain := q.domain
  type := q.type
  nearMisses := 0
  chain := Table.empty
  fd := fd

/-- What comes of `getSocket` and `send`. -/
inductive SocketResult
  | noSocket
  | opened (fd : Int) (sent : Bool)

/-- A packet on its way through `handleUDPServerResponse`: the socket it arrived on, who it says
it is from, the event key it is given, and what the waiters get. `failed` says that there is
none, or that it is shorter than a header. -/
structure Arrival where
  socket : UDPSocket
  fromaddr : ComboAddress
  pident : PacketID
  packet : Octets
  failed : Bool

/-- Where the handler stands: in `doResends`, at the waiter `iter` and behind the id `cursor`;
in front of `sendEvent`; or in front of `returnSocket`. -/
inductive Kernel
  | idle
  | resending (a : Arrival) (iter : PacketID) (cursor : Option UInt16)
  | sending (a : Arrival)
  | closing (fd : Int)

/-- A waiter that was woken by an arrival. -/
structure Resumption where
  waiter : Waiter
  arrival : Arrival

/-- The waiters, the sockets, and what happens at the moment. The rest is history: the number of
queries made; the queries that were chained, each with the one that was waiting; the waiters
that were woken; and the queries that timed out. -/
structure OutgoingUDP where
  d_waiters : Waiters := Table.empty
  d_socks : List UDPSocket := []
  kernel : Kernel := .idle
  running : Bool := false
  asked : Nat := 0
  chained : List (Nat × Nat) := []
  resumed : List Resumption := []
  timedOut : List Nat := []

namespace OutgoingUDP

/-! ### `asendto` and `arecvfrom` -/

/-- `returnSocket(fd)`. -/
def returnSocket (s : OutgoingUDP) (fd : Int) : OutgoingUDP :=
  { s with d_socks := s.d_socks.filter fun k => k.fd ≠ fd }

/-- Puts an id into the chain of the waiter with the key `k`. -/
def chainOnto (k : PacketID) (id : UInt16) (w : Waiter) : Waiter :=
  if same PacketID.less w.key k then
    { w with key := { w.key with chain := w.key.chain.insert id } }
  else w

theorem chainOnto_agree (k : PacketID) (id : UInt16) (w : Waiter) :
    PacketID.Agree (chainOnto k id w).key w.key := by
  unfold chainOnto
  split
  · exact ⟨rfl, rfl, rfl, rfl, rfl⟩
  · exact PacketID.Agree.refl _

/-- An outstanding query that the new one can be chained onto. -/
def outstanding (s : OutgoingUDP) (q : Ask) : Option Waiter :=
  s.d_waiters.find fun w =>
    same PacketID.birthdayLess w.key (q.pident (-1)) && decide (w.key.fd > -1)

/-- `asendto`: the socket it hands out, unless it returns an error. -/
def asendto (s : OutgoingUDP) (q : Ask) (os : SocketResult) : OutgoingUDP × Option Int :=
  match s.outstanding q with
  | some w =>
    ({ s with
        d_waiters := s.d_waiters.modify (chainOnto w.key q.id) fun _ _ =>
          PacketID.less_congr (chainOnto_agree _ _ _) (chainOnto_agree _ _ _)
        chained := (s.asked, w.seq) :: s.chained }, some (-1))
  | none =>
    match os with
    | .noSocket => (s, none)
    | .opened fd sent =>
      let s' := { s with d_socks := ⟨fd, q.pident fd, s.asked⟩ :: s.d_socks }
      if sent then (s', some fd) else (s'.returnSocket fd, none)

/-- `arecvfrom` up to where the thread waits: `waitEvent` returns an error at once when there is
a waiter with the same key. -/
def arecvfrom (s : OutgoingUDP) (q : Ask) (fd : Int) (seq : Nat) : OutgoingUDP :=
  match s.d_waiters.lookup (q.pident fd) with
  | some _ => if 0 ≤ fd then s.returnSocket fd else s
  | none => { s with d_waiters := s.d_waiters.insert ⟨q.pident fd, seq⟩, running := false }

/-- A thread asks, and waits unless there is an error. -/
def ask (s : OutgoingUDP) (q : Ask) (os : SocketResult) : OutgoingUDP :=
  let r := s.asendto q os
  let s' := { r.1 with asked := s.asked + 1 }
  match r.2 with
  | none => s'
  | some fd => s'.arecvfrom q fd s.asked

/-- A socket that is opened has a number that is not in use. -/
def Fresh (s : OutgoingUDP) : SocketResult → Prop
  | .noSocket => True
  | .opened fd _ => 0 ≤ fd ∧ ∀ k ∈ s.d_socks, k.fd ≠ fd

instance (s : OutgoingUDP) (os : SocketResult) : Decidable (s.Fresh os) := by
  cases os <;> unfold Fresh <;> infer_instance

/-! ### `handleUDPServerResponse` -/

/-- `dh.id`. -/
def headerId (packet : Octets) : UInt16 := UInt16.ofNat (beNat (packet.take 2))

/-- `dh.qr`. -/
def headerQr (packet : Octets) : Bool := packet.getD 2 0 &&& 0x80 != 0

/-- Name and type of the event key for a packet. -/
def question (packet : Octets) (behind : UInt8) : Except String (Octets × UInt16) :=
  if (Dnsheader.ofPacket packet).qdcount = 0 then .ok ([], 0) else questionExpand packet behind

/-- `sendEvent`: the thread that waits under the key, if there is one, gets control. -/
def sendEvent (s : OutgoingUDP) (key : PacketID) (a : Arrival) : Option OutgoingUDP :=
  (s.d_waiters.lookup key).map fun w =>
    { s with d_waiters := s.d_waiters.erase key, running := true, resumed := ⟨w, a⟩ :: s.resumed }

/-- Looks up the event key, and starts `doResends` when it is there. -/
def dispatch (s : OutgoingUDP) (a : Arrival) : OutgoingUDP :=
  { s with
    kernel := match s.d_waiters.lookup a.pident with
      | some w => .resending a w.key none
      | none => .sending a }

/-- `handleUDPServerResponse` up to `doResends`. -/
def handleUDPServerResponse (s : OutgoingUDP) (socket : UDPSocket) (fromaddr : ComboAddress)
    (recvfrom : Option Octets) (behind : UInt8) : OutgoingUDP :=
  let data := (recvfrom.getD []).take 1500
  if data.length < 12 then
    (s.returnSocket socket.fd).dispatch ⟨socket, fromaddr, socket.pid, [], true⟩
  else if headerQr data then
    match question data behind with
    | .error _ => s
    | .ok (domain, type) =>
      s.dispatch
        { socket := socket
          fromaddr := fromaddr
          pident := ⟨headerId data, fromaddr, domain, type, 0, Table.empty, socket.fd⟩
          packet := data
          failed := false }
  else s

/-- "be a bit paranoid here since we're weakening our matching". -/
def weakMatch (pident : PacketID) (w : Waiter) : Bool :=
  pident.domain = [] && w.key.domain ≠ [] && pident.type = 0 && w.key.type ≠ 0 &&
    pident.id = w.key.id && w.key.remote = pident.remote

/-- Counts a near miss of a waiter; the scan ends at the waiter `stop`. -/
def nearMiss (pident : PacketID) (stop : Option Waiter) (w : Waiter) : Waiter :=
  if pident.fd = w.key.fd && w.key.remote = pident.remote && w.key.type = pident.type &&
      pdnsIequals pident.domain w.key.domain && (stop.all fun m => !m.key.less w.key) then
    { w with key := { w.key with nearMisses := w.key.nearMisses + 1 } }
  else w

theorem nearMiss_agree (pident : PacketID) (stop : Option Waiter) (w : Waiter) :
    PacketID.Agree (nearMiss pident stop w).key w.key := by
  unfold nearMiss
  split
  · exact ⟨rfl, rfl, rfl, rfl, rfl⟩
  · exact PacketID.Agree.refl _

/-- The scan of all waiters after a packet that nobody waits for: it counts near misses, and ends
at a waiter whose name and type the packet, which has none, is given. -/
def retryWithName (s : OutgoingUDP) (a : Arrival) : OutgoingUDP :=
  let m := s.d_waiters.find (weakMatch a.pident)
  { s with
    d_waiters := s.d_waiters.modify (nearMiss a.pident m) fun _ _ =>
      PacketID.less_congr (nearMiss_agree _ _ _) (nearMiss_agree _ _ _)
    kernel := match m with
      | some m =>
        .sending { a with pident := { a.pident with domain := m.key.domain, type := m.key.type } }
      -- an unexpected packet
      | none => .idle }

/-- The next step of the handler. -/
def proceed (s : OutgoingUDP) : OutgoingUDP :=
  match s.kernel with
  | .idle => s
  | .resending a iter cursor =>
    match (s.d_waiters.lookup iter).bind fun w => w.key.chain.next cursor with
    | none => { s with kernel := .sending a }
    | some id =>
      let s' := { s with kernel := .resending a iter (some id) }
      (s'.sendEvent { a.pident with fd := -1, id := id } a).getD s'
  | .sending a =>
    match s.sendEvent a.pident a with
    | some s' => { s' with kernel := if a.failed then .idle else .closing a.socket.fd }
    | none => if a.failed then { s with kernel := .idle } else s.retryWithName a
  | .closing fd => { s.returnSocket fd with kernel := .idle }

/-! ### Runs -/

/-- What can happen: the scheduler runs a thread; the thread that runs asks, or stops; a packet
arrives, or an error is found on a socket; the handler goes on; or a waiter times out. -/
inductive Action
  | start
  | ask (q : Ask) (os : SocketResult)
  | stop
  | receive (fd : Int) (fromaddr : ComboAddress) (recvfrom : Option Octets) (behind : UInt8)
  | proceed
  | timeout (key : PacketID)

/-- Neither the handler nor a thread is at work. -/
def isIdle (s : OutgoingUDP) : Bool :=
  match s.kernel with
  | .idle => !s.running
  | _ => false

/-- The socket with this number. -/
def socketOf (s : OutgoingUDP) (fd : Int) : Option UDPSocket := s.d_socks.find? fun k => k.fd = fd

/-- A waiter times out: it returns its socket. -/
def timeOut (s : OutgoingUDP) (w : Waiter) : OutgoingUDP :=
  let s' := { s with
    d_waiters := s.d_waiters.erase w.key, running := true, timedOut := w.seq :: s.timedOut }
  if 0 ≤ w.key.fd then s'.returnSocket w.key.fd else s'

/-- One step; what cannot happen in a state leaves it as it is. -/
def step (s : OutgoingUDP) : Action → OutgoingUDP
  | .start => if s.isIdle then { s with running := true } else s
  | .ask q os => if s.running ∧ s.Fresh os then s.ask q os else s
  | .stop => { s with running := false }
  | .receive fd fromaddr recvfrom behind =>
    if s.isIdle then
      match s.socketOf fd with
      | none => s
      | some socket => s.handleUDPServerResponse socket fromaddr recvfrom behind
    else s
  | .proceed => if s.running then s else s.proceed
  | .timeout key =>
    if s.isIdle then
      match s.d_waiters.lookup key with
      | none => s
      | some w => s.timeOut w
    else s

/-! ### The waiters and their numbers -/

/-- The waiters of `t'` are waiters of `t`, but for what may change in place. -/
def Keeps (t t' : Waiters) : Prop :=
  ∀ w' ∈ t', ∃ w ∈ t, w.seq = w'.seq ∧ PacketID.Agree w.key w'.key

theorem keeps_erase (t : Waiters) (k : PacketID) : Keeps t (t.erase k) :=
  fun w hw => ⟨w, (Table.mem_erase.mp hw).1, rfl, PacketID.Agree.refl _⟩

theorem chainOnto_seq (k : PacketID) (id : UInt16) (w : Waiter) :
    (chainOnto k id w).seq = w.seq := by
  unfold chainOnto
  split <;> rfl

theorem nearMiss_seq (pident : PacketID) (stop : Option Waiter) (w : Waiter) :
    (nearMiss pident stop w).seq = w.seq := by
  unfold nearMiss
  split <;> rfl

theorem keeps_modify {t : Waiters} {f : Waiter → Waiter}
    (hf : ∀ a b, PacketID.less (f a).key (f b).key = PacketID.less a.key b.key)
    (hseq : ∀ w, (f w).seq = w.seq) (hkey : ∀ w, PacketID.Agree (f w).key w.key) :
    Keeps t (t.modify f hf) := by
  intro w' hw'
  obtain ⟨w, hw, rfl⟩ := (Table.mem_modify hf).mp hw'
  exact ⟨w, hw, (hseq w).symm, (hkey w).symm⟩

/-- Waiters with keys that agree are one. -/
theorem eq_of_agree {t : Waiters} {w w' : Waiter} (hw : w ∈ t) (hw' : w' ∈ t)
    (h : PacketID.Agree w.key w'.key) : w = w' :=
  Table.eq_of_same hw hw' h.same

/-- A waiter with a new key is inserted. -/
theorem mem_insert_waiter {t : Waiters} {key : PacketID} {seq : Nat} {w : Waiter}
    (hnew : t.lookup key = none) : w ∈ t.insert ⟨key, seq⟩ ↔ w = ⟨key, seq⟩ ∨ w ∈ t :=
  @Table.mem_insert _ _ Waiter.key _ _ ⟨key, seq⟩ w t hnew

/-- The numbers: each query waits at most once, and not any more when it was woken or timed
out. -/
structure Numbered (t : Waiters) (asked : Nat) (past : List Nat) : Prop where
  seq_inj : ∀ w ∈ t, ∀ w' ∈ t, w.seq = w'.seq → w = w'
  seq_lt : ∀ w ∈ t, w.seq < asked
  past_lt : ∀ n ∈ past, n < asked
  waiting : ∀ w ∈ t, w.seq ∉ past
  once : past.Nodup

/-- The threads that own a socket wait for different questions. -/
structure Owners (t : Waiters) : Prop where
  fd : ∀ w ∈ t, 0 ≤ w.key.fd ∨ w.key.fd = -1
  unique : ∀ v ∈ t, ∀ v' ∈ t, 0 ≤ v.key.fd → 0 ≤ v'.key.fd →
    PacketID.SameQuestion v.key v'.key → v = v'

section Keeping

variable {t t' : Waiters} {asked : Nat} {past : List Nat}

theorem Numbered.keeps (h : Numbered t asked past) (hk : Keeps t t') : Numbered t' asked past where
  seq_inj := by
    intro w hw w' hw' heq
    obtain ⟨v, hv, hseq, hagree⟩ := hk w hw
    obtain ⟨v', hv', hseq', hagree'⟩ := hk w' hw'
    obtain rfl := h.seq_inj v hv v' hv' (by rw [hseq, hseq', heq])
    exact eq_of_agree hw hw' (hagree.symm.trans hagree')
  seq_lt := by
    intro w hw
    obtain ⟨v, hv, hseq, -⟩ := hk w hw
    exact hseq ▸ h.seq_lt v hv
  past_lt := h.past_lt
  waiting := by
    intro w hw
    obtain ⟨v, hv, hseq, -⟩ := hk w hw
    exact hseq ▸ h.waiting v hv
  once := h.once

/-- A new query, whether it waits or not. -/
theorem Numbered.ask (h : Numbered t asked past) : Numbered t (asked + 1) past where
  seq_inj := h.seq_inj
  seq_lt := fun w hw => Nat.lt_succ_of_lt (h.seq_lt w hw)
  past_lt := fun n hn => Nat.lt_succ_of_lt (h.past_lt n hn)
  waiting := h.waiting
  once := h.once

variable {key : PacketID}

theorem Numbered.insert (h : Numbered t asked past)
    (hnew : t.lookup key = none) :
    Numbered (t.insert ⟨key, asked⟩) (asked + 1) past where
  seq_inj := by
    intro w hw w' hw' heq
    rcases (mem_insert_waiter hnew).mp hw with rfl | hw <;>
      rcases (mem_insert_waiter hnew).mp hw' with rfl | hw'
    · rfl
    · exact absurd heq.symm (Nat.ne_of_lt (h.seq_lt w' hw'))
    · exact absurd heq (Nat.ne_of_lt (h.seq_lt w hw))
    · exact h.seq_inj w hw w' hw' heq
  seq_lt := by
    intro w hw
    rcases (mem_insert_waiter hnew).mp hw with rfl | hw
    · exact Nat.lt_succ_self _
    · exact Nat.lt_succ_of_lt (h.seq_lt w hw)
  past_lt := fun n hn => Nat.lt_succ_of_lt (h.past_lt n hn)
  waiting := by
    intro w hw
    rcases (mem_insert_waiter hnew).mp hw with rfl | hw
    · exact fun hmem => Nat.lt_irrefl _ (h.past_lt _ hmem)
    · exact h.waiting w hw
  once := h.once

/-- A waiter is woken, or times out. -/
theorem Numbered.wake {w : Waiter} (h : Numbered t asked past)
    (hw : t.lookup key = some w) : Numbered (t.erase key) asked (w.seq :: past) where
  seq_inj := (h.keeps (keeps_erase t key)).seq_inj
  seq_lt := (h.keeps (keeps_erase t key)).seq_lt
  past_lt := by
    intro n hn
    rcases mem_cons.mp hn with rfl | hn
    · exact h.seq_lt w (Table.lookup_some hw).1
    · exact h.past_lt n hn
  waiting := by
    intro w' hw' hmem
    obtain ⟨hin, hother⟩ := Table.mem_erase.mp hw'
    rcases mem_cons.mp hmem with heq | hmem
    · obtain rfl := h.seq_inj w' hin w (Table.lookup_some hw).1 heq
      rw [(Table.lookup_some hw).2] at hother
      cases hother
    · exact h.waiting w' hin hmem
  once := nodup_cons.mpr ⟨h.waiting w (Table.lookup_some hw).1, h.once⟩

theorem Owners.keeps (h : Owners t) (hk : Keeps t t') : Owners t' where
  fd := by
    intro w hw
    obtain ⟨v, hv, -, hagree⟩ := hk w hw
    exact hagree.fd ▸ h.fd v hv
  unique := by
    intro v hv v' hv' hfd hfd' hq
    obtain ⟨w, hw, -, hagree⟩ := hk v hv
    obtain ⟨w', hw', -, hagree'⟩ := hk v' hv'
    obtain rfl := h.unique w hw w' hw' (by rw [hagree.fd]; exact hfd) (by rw [hagree'.fd]; exact hfd')
      (hagree.sameQuestion.trans (hq.trans hagree'.sameQuestion.symm))
    exact eq_of_agree hv hv' (hagree.symm.trans hagree')

/-- A query that is chained. -/
theorem Owners.insert_chained {seq : Nat} (h : Owners t)
    (hnew : t.lookup key = none) (hfd : key.fd = -1) : Owners (t.insert ⟨key, seq⟩) where
  fd := by
    intro w hw
    rcases (mem_insert_waiter hnew).mp hw with rfl | hw
    · exact .inr hfd
    · exact h.fd w hw
  unique := by
    intro v hv v' hv' hv0 hv0' hq
    rcases (mem_insert_waiter hnew).mp hv with rfl | hv
    · rw [hfd] at hv0
      exact absurd hv0 (by decide)
    · rcases (mem_insert_waiter hnew).mp hv' with rfl | hv'
      · rw [hfd] at hv0'
        exact absurd hv0' (by decide)
      · exact h.unique v hv v' hv' hv0 hv0' hq

/-- A query that nobody with a socket waits for. -/
theorem Owners.insert_owner {seq : Nat} (h : Owners t)
    (hnew : t.lookup key = none) (hfd : 0 ≤ key.fd)
    (hother : ∀ v ∈ t, 0 ≤ v.key.fd → ¬PacketID.SameQuestion v.key key) :
    Owners (t.insert ⟨key, seq⟩) where
  fd := by
    intro w hw
    rcases (mem_insert_waiter hnew).mp hw with rfl | hw
    · exact .inl hfd
    · exact h.fd w hw
  unique := by
    intro v hv v' hv' hv0 hv0' hq
    rcases (mem_insert_waiter hnew).mp hv with rfl | hv <;>
      rcases (mem_insert_waiter hnew).mp hv' with rfl | hv'
    · rfl
    · exact absurd hq.symm (hother v' hv' hv0')
    · exact absurd hq (hother v hv hv0)
    · exact h.unique v hv v' hv' hv0 hv0' hq

end Keeping

/-! ### The invariant -/

/-- The event key fits the packet. Name and type are those of its question, unless it has none
that `question` finds. -/
structure Fits (a : Arrival) : Prop where
  fd : a.pident.fd = a.socket.fd
  remote : a.pident.remote = a.fromaddr
  id : a.pident.id = headerId a.packet
  qr : headerQr a.packet = true
  question : ∃ behind domain type, OutgoingUDP.question a.packet behind = .ok (domain, type) ∧
    (a.pident.domain = domain ∧ a.pident.type = type ∨ domain = [] ∧ type = 0)

/-- An arrival under way: an error has no packet; a packet has arrived on a socket that is still
open. -/
def Underway (socks : List UDPSocket) (a : Arrival) : Prop :=
  a.failed = true ∧ a.packet = [] ∧ 0 ≤ a.pident.fd ∨
    a.failed = false ∧ a.socket ∈ socks ∧ Fits a

/-- The sockets have different numbers, and are registered with these. -/
structure Sockets (socks : List UDPSocket) : Prop where
  fd : ∀ k ∈ socks, 0 ≤ k.fd ∧ k.pid.fd = k.fd
  inj : ∀ k ∈ socks, ∀ k' ∈ socks, k.fd = k'.fd → k = k'

/-- The waiter's socket was found to be in error, and is closed already. -/
def Failing (kernel : Kernel) (w : Waiter) : Prop :=
  ∃ a, (kernel = .sending a ∨ ∃ iter cursor, kernel = .resending a iter cursor) ∧
    a.failed = true ∧ PacketID.Agree a.pident w.key

/-- The waiter has its own socket. -/
def HasSocket (socks : List UDPSocket) (w : Waiter) : Prop :=
  ∃ k ∈ socks, k.seq = w.seq ∧ PacketID.Agree k.pid w.key

/-- What holds where the handler stands. -/
def KernelOK (s : OutgoingUDP) : Kernel → Prop
  | .idle => True
  | .resending a iter _ =>
    Underway s.d_socks a ∧ ∃ v ∈ s.d_waiters, PacketID.Agree v.key iter ∧
      same PacketID.less v.key a.pident = true ∧ 0 ≤ v.key.fd
  | .sending a => Underway s.d_socks a ∧ s.running = false
  | .closing fd =>
    (∃ k ∈ s.d_socks, k.fd = fd) ∧ ∀ w ∈ s.d_waiters, 0 ≤ w.key.fd → w.key.fd ≠ fd

/-- What a waiter with a socket was woken by: an error, or a packet on its own socket whose
event key is the waiter's. -/
def Delivered (u : Resumption) : Prop :=
  u.arrival.failed = true ∧ u.arrival.packet = [] ∨
    u.arrival.failed = false ∧ u.arrival.socket.seq = u.waiter.seq ∧
      same PacketID.less u.waiter.key u.arrival.pident = true ∧ Fits u.arrival

/-- The queries that do not wait any more. -/
def past (s : OutgoingUDP) : List Nat := s.resumed.map (fun u => u.waiter.seq) ++ s.timedOut

/-- **The invariant.** -/
structure Inv (s : OutgoingUDP) : Prop where
  numbered : Numbered s.d_waiters s.asked s.past
  owners : Owners s.d_waiters
  sockets : Sockets s.d_socks
  owned : ∀ w ∈ s.d_waiters, 0 ≤ w.key.fd → HasSocket s.d_socks w ∨ Failing s.kernel w
  kernel : KernelOK s s.kernel
  delivered : ∀ u ∈ s.resumed, 0 ≤ u.waiter.key.fd → Delivered u

/-- Before the first query. -/
theorem inv_start : Inv {} where
  numbered := ⟨nofun, nofun, nofun, nofun, nodup_nil⟩
  owners := ⟨nofun, nofun⟩
  sockets := ⟨nofun, nofun⟩
  owned := nofun
  kernel := trivial
  delivered := nofun

section Sockets

variable {socks : List UDPSocket}

theorem Sockets.filter (h : Sockets socks) (p : UDPSocket → Bool) : Sockets (socks.filter p) where
  fd := fun k hk => h.fd k (mem_of_mem_filter hk)
  inj := fun k hk k' hk' =>
    h.inj k (mem_of_mem_filter hk) k' (mem_of_mem_filter hk')

/-- The number of a waiter's socket. -/
theorem Sockets.fd_eq (h : Sockets socks) {k : UDPSocket} {w : Waiter} (hk : k ∈ socks)
    (hagree : PacketID.Agree k.pid w.key) : k.fd = w.key.fd :=
  (h.fd k hk).2.symm.trans hagree.fd

/-- A waiter keeps its socket when another one is closed. -/
theorem HasSocket.filter (h : Sockets socks) {w : Waiter} (hw : HasSocket socks w) {fd : Int}
    (hne : w.key.fd ≠ fd) : HasSocket (socks.filter fun k => k.fd ≠ fd) w := by
  obtain ⟨k, hk, hseq, hagree⟩ := hw
  refine ⟨k, mem_filter.mpr ⟨hk, ?_⟩, hseq, hagree⟩
  rw [h.fd_eq hk hagree]
  exact decide_eq_true hne

variable {w w' : Waiter}

theorem HasSocket.agree (hw : HasSocket socks w) (hseq : w.seq = w'.seq)
    (hagree : PacketID.Agree w.key w'.key) : HasSocket socks w' := by
  obtain ⟨k, hk, hkseq, hkagree⟩ := hw
  exact ⟨k, hk, hkseq.trans hseq, hkagree.trans hagree⟩

theorem Failing.agree {kernel : Kernel} (hw : Failing kernel w)
    (hagree : PacketID.Agree w.key w'.key) : Failing kernel w' := by
  obtain ⟨a, ha, hfailed, hkey⟩ := hw
  exact ⟨a, ha, hfailed, hkey.trans hagree⟩

/-- Waiters whose sockets have one number are one. -/
theorem eq_of_fd {t : Waiters} {asked : Nat} {past : List Nat} (hn : Numbered t asked past)
    (h : Sockets socks) (hw : w ∈ t) (hw' : w' ∈ t) (hs : HasSocket socks w)
    (hs' : HasSocket socks w') (hfd : w.key.fd = w'.key.fd) : w = w' := by
  obtain ⟨k, hk, hseq, hagree⟩ := hs
  obtain ⟨k', hk', hseq', hagree'⟩ := hs'
  obtain rfl := h.inj k hk k' hk' (by rw [h.fd_eq hk hagree, h.fd_eq hk' hagree', hfd])
  exact hn.seq_inj w hw w' hw' (hseq.symm.trans hseq')

end Sockets

/-- What is there of a waiter in a table that keeps it. -/
theorem owned_keeps {s : OutgoingUDP} {t : Waiters} (h : Inv s) (hk : Keeps s.d_waiters t) :
    ∀ w ∈ t, 0 ≤ w.key.fd → HasSocket s.d_socks w ∨ Failing s.kernel w := by
  intro w hw hfd
  obtain ⟨v, hv, hseq, hagree⟩ := hk w hw
  exact (h.owned v hv (by rw [hagree.fd]; exact hfd)).imp (fun hs => hs.agree hseq hagree)
    fun hf => hf.agree hagree

/-! ### Queries keep the invariant -/

/-- Where the handler stands is not disturbed by new sockets, and by waiters that are added or
changed in place. -/
theorem KernelOK.mono {s s' : OutgoingUDP} {k : Kernel} (h : KernelOK s k)
    (hsocks : ∀ x ∈ s.d_socks, x ∈ s'.d_socks)
    (hold : ∀ v ∈ s.d_waiters, ∃ v' ∈ s'.d_waiters, PacketID.Agree v'.key v.key)
    (hnew : ∀ w' ∈ s'.d_waiters, 0 ≤ w'.key.fd →
      (∃ w ∈ s.d_waiters, w.key.fd = w'.key.fd) ∨ ∀ x ∈ s.d_socks, x.fd ≠ w'.key.fd)
    (hrun : s.running = false → s'.running = false) : KernelOK s' k := by
  have hunderway : ∀ a, Underway s.d_socks a → Underway s'.d_socks a :=
    fun a ha => ha.imp_right fun ⟨hf, hmem, hfits⟩ => ⟨hf, hsocks _ hmem, hfits⟩
  cases k with
  | idle => trivial
  | resending a iter cursor =>
    obtain ⟨ha, v, hv, hiter, hsame, hfd⟩ := h
    obtain ⟨v', hv', hagree⟩ := hold v hv
    exact ⟨hunderway a ha, v', hv', hagree.trans hiter, same_trans hagree.same hsame,
      by rw [hagree.fd]; exact hfd⟩
  | sending a => exact ⟨hunderway a h.1, hrun h.2⟩
  | closing fd =>
    obtain ⟨⟨x, hx, hxfd⟩, hne⟩ := h
    refine ⟨⟨x, hsocks x hx, hxfd⟩, fun w' hw' hfd' heq => ?_⟩
    rcases hnew w' hw' hfd' with ⟨w, hw, hsame⟩ | hfresh
    · exact hne w hw (by rw [hsame]; exact hfd') (hsame.trans heq)
    · exact hfresh x hx (hxfd.trans heq.symm)

section Ask

variable {s : OutgoingUDP} {q : Ask} {os : SocketResult}

theorem Inv.stop (h : Inv s) : Inv { s with running := false } where
  numbered := h.numbered
  owners := h.owners
  sockets := h.sockets
  owned := h.owned
  kernel := h.kernel.mono (fun _ hx => hx) (fun v hv => ⟨v, hv, PacketID.Agree.refl _⟩)
    (fun w hw _ => .inl ⟨w, hw, rfl⟩) fun _ => rfl
  delivered := h.delivered

theorem isIdle_iff : s.isIdle = true ↔ s.kernel = .idle ∧ s.running = false := by
  unfold isIdle
  split
  next heq => simp [heq]
  next hne => exact ⟨nofun, fun h => absurd h.1 hne⟩

theorem Inv.start (h : Inv s) (hidle : s.isIdle = true) : Inv { s with running := true } where
  numbered := h.numbered
  owners := h.owners
  sockets := h.sockets
  owned := h.owned
  kernel := by
    rw [(isIdle_iff.mp hidle).1]
    trivial
  delivered := h.delivered

/-- A query that returns an error at once. -/
theorem Inv.count (h : Inv s) : Inv { s with asked := s.asked + 1 } where
  numbered := h.numbered.ask
  owners := h.owners
  sockets := h.sockets
  owned := h.owned
  kernel := h.kernel.mono (fun _ hx => hx) (fun v hv => ⟨v, hv, PacketID.Agree.refl _⟩)
    (fun w hw _ => .inl ⟨w, hw, rfl⟩) fun hrun => hrun
  delivered := h.delivered

/-- Changes in place, and more history of the chains. -/
theorem Inv.modify (h : Inv s) {f : Waiter → Waiter}
    (hf : ∀ a b, PacketID.less (f a).key (f b).key = PacketID.less a.key b.key)
    (hseq : ∀ w, (f w).seq = w.seq) (hkey : ∀ w, PacketID.Agree (f w).key w.key)
    (chained : List (Nat × Nat)) :
    Inv { s with d_waiters := s.d_waiters.modify f hf, chained := chained } where
  numbered := h.numbered.keeps (keeps_modify hf hseq hkey)
  owners := h.owners.keeps (keeps_modify hf hseq hkey)
  sockets := h.sockets
  owned := @owned_keeps s _ h (keeps_modify hf hseq hkey)
  kernel := by
    refine h.kernel.mono (fun _ hx => hx) ?_ ?_ fun hrun => hrun
    · exact fun v hv => ⟨f v, Table.mem_modify_of_mem hf hv, hkey v⟩
    · intro w' hw' _
      obtain ⟨w, hw, rfl⟩ := (Table.mem_modify hf).mp hw'
      exact .inl ⟨w, hw, (hkey w).fd.symm⟩
  delivered := h.delivered

/-- A socket is opened. -/
theorem Inv.open (h : Inv s) {k : UDPSocket} (hpid : k.pid.fd = k.fd) (hfd : 0 ≤ k.fd)
    (hnew : ∀ x ∈ s.d_socks, x.fd ≠ k.fd) : Inv { s with d_socks := k :: s.d_socks } where
  numbered := h.numbered
  owners := h.owners
  sockets := by
    constructor
    · intro x hx
      rcases mem_cons.mp hx with rfl | hx
      · exact ⟨hfd, hpid⟩
      · exact h.sockets.fd x hx
    · intro x hx y hy heq
      rcases mem_cons.mp hx with rfl | hx' <;> rcases mem_cons.mp hy with rfl | hy'
      · rfl
      · exact absurd heq.symm (hnew y hy')
      · exact absurd heq (hnew x hx')
      · exact h.sockets.inj x hx' y hy' heq
  owned := fun w hw hfd => (h.owned w hw hfd).imp_left
    fun ⟨x, hx, hseq, hagree⟩ => ⟨x, mem_cons_of_mem _ hx, hseq, hagree⟩
  kernel := h.kernel.mono (fun _ hx => mem_cons_of_mem _ hx)
    (fun v hv => ⟨v, hv, PacketID.Agree.refl _⟩) (fun w hw _ => .inl ⟨w, hw, rfl⟩) fun hrun => hrun
  delivered := h.delivered

/-- A socket that was just opened is closed again. -/
theorem returnSocket_open {k : UDPSocket} (hnew : ∀ x ∈ s.d_socks, x.fd ≠ k.fd) :
    returnSocket { s with d_socks := k :: s.d_socks } k.fd = s := by
  have hfilter : ((k :: s.d_socks).filter fun x => x.fd ≠ k.fd) = s.d_socks := by
    rw [filter_cons_of_neg (by simp), filter_eq_self]
    exact fun x hx => decide_eq_true (hnew x hx)
  unfold returnSocket
  rw [hfilter]

/-- A chained waiter has no socket. -/
theorem not_le_pident : ¬0 ≤ (q.pident (-1)).fd := by
  change ¬(0 : Int) ≤ -1
  decide

/-- A thread that is chained waits. -/
theorem Inv.wait_chained (h : Inv s)
    (hnew : s.d_waiters.lookup (q.pident (-1)) = none) :
    Inv { s with
      d_waiters := s.d_waiters.insert ⟨q.pident (-1), s.asked⟩
      running := false
      asked := s.asked + 1 } where
  numbered := h.numbered.insert hnew
  owners := h.owners.insert_chained hnew rfl
  sockets := h.sockets
  owned := by
    intro w hw hfd
    rcases (mem_insert_waiter hnew).mp hw with rfl | hw
    · exact absurd hfd not_le_pident
    · exact h.owned w hw hfd
  kernel := by
    refine h.kernel.mono (fun _ hx => hx) ?_ ?_ fun _ => rfl
    · exact fun v hv => ⟨v, (mem_insert_waiter hnew).mpr (.inr hv), PacketID.Agree.refl _⟩
    · intro w' hw' hfd
      rcases (mem_insert_waiter hnew).mp hw' with rfl | hw'
      · exact absurd hfd not_le_pident
      · exact .inl ⟨w', hw', rfl⟩
  delivered := h.delivered

/-- A thread that opened a socket waits, when no other thread with a socket waits for the
answer to its question. -/
theorem Inv.wait_owner (h : Inv s) {fd : Int}
    (hnew : s.d_waiters.lookup (q.pident fd) = none) (hfd : 0 ≤ fd)
    (hfresh : ∀ x ∈ s.d_socks, x.fd ≠ fd)
    (hother : ∀ v ∈ s.d_waiters, 0 ≤ v.key.fd → ¬v.key.SameQuestion (q.pident fd)) :
    Inv { s with
      d_waiters := s.d_waiters.insert ⟨q.pident fd, s.asked⟩
      d_socks := ⟨fd, q.pident fd, s.asked⟩ :: s.d_socks
      running := false
      asked := s.asked + 1 } where
  numbered := h.numbered.insert hnew
  owners := h.owners.insert_owner hnew hfd hother
  sockets := (@Inv.open s h ⟨fd, q.pident fd, s.asked⟩ rfl hfd hfresh).sockets
  owned := by
    intro w hw hfd'
    rcases (mem_insert_waiter hnew).mp hw with rfl | hw
    · exact .inl ⟨_, mem_cons_self, rfl, PacketID.Agree.refl _⟩
    · exact (@Inv.open s h ⟨fd, q.pident fd, s.asked⟩ rfl hfd hfresh).owned w hw hfd'
  kernel := by
    refine h.kernel.mono (fun _ hx => mem_cons_of_mem _ hx) ?_ ?_ fun _ => rfl
    · exact fun v hv => ⟨v, (mem_insert_waiter hnew).mpr (.inr hv), PacketID.Agree.refl _⟩
    · intro w' hw' _
      rcases (mem_insert_waiter hnew).mp hw' with rfl | hw'
      · exact .inr hfresh
      · exact .inl ⟨w', hw', rfl⟩
  delivered := h.delivered

variable {v : Waiter}

/-- What an outstanding query is. -/
theorem outstanding_some (h : s.outstanding q = some v) :
    v ∈ s.d_waiters ∧ v.key.SameQuestion (q.pident (-1)) ∧ -1 < v.key.fd := by
  obtain ⟨hv, hp⟩ := Table.find_some h
  rw [and_eq_true, PacketID.same_birthdayLess_iff, decide_eq_true_eq] at hp
  exact ⟨hv, hp⟩

theorem outstanding_none (h : s.outstanding q = none) (hv : v ∈ s.d_waiters)
    (hfd : 0 ≤ v.key.fd) : ¬v.key.SameQuestion (q.pident (-1)) := by
  intro hq
  have hp := Table.find_none h hv
  rw [and_eq_false_iff, decide_eq_false_iff_not] at hp
  rcases hp with hp | hp
  · rw [PacketID.same_birthdayLess_iff.mpr hq] at hp
    cases hp
  · exact hp (by omega)

/-- The state once an id is in the chain of `v`. -/
def withChained (s : OutgoingUDP) (q : Ask) (v : Waiter) : OutgoingUDP :=
  { s with
    d_waiters := s.d_waiters.modify (chainOnto v.key q.id) fun _ _ =>
      PacketID.less_congr (chainOnto_agree _ _ _) (chainOnto_agree _ _ _)
    chained := (s.asked, v.seq) :: s.chained }

theorem asendto_chain (h : s.outstanding q = some v) :
    s.asendto q os = (s.withChained q v, some (-1)) := by
  unfold asendto
  rw [h]
  rfl

theorem asendto_sent {fd : Int} (h : s.outstanding q = none) :
    s.asendto q (.opened fd true) =
      ({ s with d_socks := ⟨fd, q.pident fd, s.asked⟩ :: s.d_socks }, some fd) := by
  unfold asendto
  rw [h]
  rfl

theorem asendto_unsent {fd : Int} (h : s.outstanding q = none)
    (hfree : ∀ x ∈ s.d_socks, x.fd ≠ fd) : s.asendto q (.opened fd false) = (s, none) := by
  have hclose := @returnSocket_open s ⟨fd, q.pident fd, s.asked⟩ hfree
  unfold asendto
  rw [h]
  exact Prod.ext hclose rfl

theorem asendto_noSocket (h : s.outstanding q = none) : s.asendto q .noSocket = (s, none) := by
  unfold asendto
  rw [h]

/-- What a chained query does: it waits, or is refused because another one has its id. -/
theorem ask_chain (h : s.outstanding q = some v) :
    s.ask q os =
      match (s.withChained q v).d_waiters.lookup (q.pident (-1)) with
      | some _ => { s.withChained q v with asked := s.asked + 1 }
      | none =>
        { s.withChained q v with
          d_waiters := (s.withChained q v).d_waiters.insert ⟨q.pident (-1), s.asked⟩
          running := false
          asked := s.asked + 1 } := by
  unfold ask
  rw [asendto_chain h]
  dsimp only [arecvfrom]
  split
  next => rfl
  next => rfl

/-- What any other query does: it opens a socket and waits, or it fails at once. -/
theorem ask_alone (h : s.outstanding q = none) (hfresh : s.Fresh os) :
    (∃ fd, 0 ≤ fd ∧ (∀ x ∈ s.d_socks, x.fd ≠ fd) ∧ s.d_waiters.lookup (q.pident fd) = none ∧
      s.ask q os = { s with
        d_waiters := s.d_waiters.insert ⟨q.pident fd, s.asked⟩
        d_socks := ⟨fd, q.pident fd, s.asked⟩ :: s.d_socks
        running := false
        asked := s.asked + 1 }) ∨
    s.ask q os = { s with asked := s.asked + 1 } := by
  unfold ask
  cases os with
  | noSocket =>
    rw [asendto_noSocket h]
    exact .inr rfl
  | opened fd sent =>
    obtain ⟨hfd, hfree⟩ := hfresh
    cases sent with
    | false =>
      rw [asendto_unsent h hfree]
      exact .inr rfl
    | true =>
      rw [asendto_sent h]
      dsimp only [arecvfrom]
      split
      next w hw =>
        -- a waiter with the same key: the socket is returned
        have hclose := @returnSocket_open { s with asked := s.asked + 1 }
          ⟨fd, q.pident fd, s.asked⟩ hfree
        rw [if_pos hfd]
        exact .inr hclose
      next hw => exact .inl ⟨fd, hfd, hfree, hw, rfl⟩

/-- **A query** keeps the invariant. -/
theorem Inv.ask (h : Inv s) (hfresh : s.Fresh os) : Inv (s.ask q os) := by
  cases hout : s.outstanding q with
  | some v =>
    have h₁ : Inv (s.withChained q v) :=
      h.modify _ (chainOnto_seq v.key q.id) (chainOnto_agree v.key q.id) _
    rw [ask_chain hout]
    split
    next => exact h₁.count
    next hnew => exact h₁.wait_chained hnew
  | none =>
    rcases @ask_alone s q os hout hfresh with ⟨fd, hfd, hfree, hnew, heq⟩ | heq
    · rw [heq]
      exact h.wait_owner hnew hfd hfree fun v hv hv0 => outstanding_none hout hv hv0
    · rw [heq]
      exact h.count

end Ask

/-! ### The handler keeps the invariant -/

section Handler

variable {s : OutgoingUDP} {a : Arrival}

/-- What `question` finds. -/
theorem Fits.retry (h : Fits a) (hdomain : a.pident.domain = []) (htype : a.pident.type = 0)
    (domain : Octets) (type : UInt16) :
    Fits { a with pident := { a.pident with domain := domain, type := type } } where
  fd := h.fd
  remote := h.remote
  id := h.id
  qr := h.qr
  question := by
    obtain ⟨behind, d, t, hq, hor⟩ := h.question
    refine ⟨behind, d, t, hq, .inr ?_⟩
    rcases hor with ⟨hd, ht⟩ | hnone
    · exact ⟨hd ▸ hdomain, ht ▸ htype⟩
    · exact hnone

/-- The event key is looked up. -/
theorem kernelOK_dispatch (hkernel : Underway s.d_socks a) (hfd : 0 ≤ a.pident.fd)
    (hrun : s.running = false) : KernelOK (s.dispatch a) (s.dispatch a).kernel := by
  unfold dispatch
  split
  next w hw =>
    obtain ⟨hmem, hsame⟩ := Table.lookup_some hw
    refine ⟨hkernel, w, hmem, PacketID.Agree.refl _, hsame, ?_⟩
    rw [(PacketID.same_less_iff.mp hsame).2.1]
    exact hfd
  next => exact ⟨hkernel, hrun⟩

variable {w : Waiter}

/-- An error waits in the kernel for the waiter that it is for. -/
theorem failing_dispatch (hfailed : a.failed = true)
    (hagree : PacketID.Agree a.pident w.key) : Failing (s.dispatch a).kernel w := by
  refine ⟨a, ?_, hfailed, hagree⟩
  unfold dispatch
  split
  next v _ => exact .inr ⟨v.key, none, rfl⟩
  next => exact .inl rfl

/-- In an idle state every waiter with a socket number has its socket. -/
theorem Inv.hasSocket (h : Inv s) (hidle : s.kernel = .idle) (hw : w ∈ s.d_waiters)
    (hfd : 0 ≤ w.key.fd) : HasSocket s.d_socks w := by
  refine (h.owned w hw hfd).resolve_right ?_
  rintro ⟨a, ha, -, -⟩
  rw [hidle] at ha
  rcases ha with ha | ⟨iter, cursor, ha⟩ <;> cases ha

variable {k : UDPSocket}

theorem socketOf_some {fd : Int} (h : s.socketOf fd = some k) :
    k ∈ s.d_socks ∧ k.fd = fd :=
  ⟨mem_of_find?_eq_some h, by simpa using find?_some h⟩

/-- An error on a socket: the socket is closed, and its waiter is looked up. -/
theorem Inv.receive_failed (h : Inv s) (hidle : s.isIdle = true)
    (hk : k ∈ s.d_socks) (fromaddr : ComboAddress) :
    Inv ((s.returnSocket k.fd).dispatch ⟨k, fromaddr, k.pid, [], true⟩) := by
  obtain ⟨hkernel, hrun⟩ := isIdle_iff.mp hidle
  obtain ⟨hfd, hpid⟩ := h.sockets.fd k hk
  have hpid0 : 0 ≤ k.pid.fd := by rw [hpid]; exact hfd
  constructor
  case numbered => exact h.numbered
  case owners => exact h.owners
  case sockets => exact h.sockets.filter _
  case delivered => exact h.delivered
  case kernel => exact kernelOK_dispatch (.inl ⟨rfl, rfl, hpid0⟩) hpid0 hrun
  case owned =>
    intro w hw hw0
    have hs := h.hasSocket hkernel hw hw0
    by_cases heq : w.key.fd = k.fd
    · -- the waiter whose socket it is
      obtain ⟨k', hk', -, hagree⟩ := hs
      obtain rfl := h.sockets.inj k' hk' k hk ((h.sockets.fd_eq hk' hagree).trans heq)
      exact .inr (failing_dispatch rfl hagree)
    · exact .inl (hs.filter h.sockets heq)

/-- A reply arrives. -/
theorem Inv.receive_reply (h : Inv s) (hidle : s.isIdle = true) (hsocket : a.socket ∈ s.d_socks)
    (hfailed : a.failed = false) (hfits : Fits a) : Inv (s.dispatch a) := by
  obtain ⟨hkernel, hrun⟩ := isIdle_iff.mp hidle
  have hfd : 0 ≤ a.pident.fd := by
    rw [hfits.fd]
    exact (h.sockets.fd a.socket hsocket).1
  exact ⟨h.numbered, h.owners, h.sockets, fun w hw hw0 => .inl (h.hasSocket hkernel hw hw0),
    kernelOK_dispatch (.inr ⟨hfailed, hsocket, hfits⟩) hfd hrun, h.delivered⟩

/-- **A packet, or an error, arrives.** -/
theorem Inv.receive (h : Inv s) (hidle : s.isIdle = true) (hk : k ∈ s.d_socks)
    (fromaddr : ComboAddress) (recvfrom : Option Octets) (behind : UInt8) :
    Inv (s.handleUDPServerResponse k fromaddr recvfrom behind) := by
  unfold handleUDPServerResponse
  dsimp only
  split
  next => exact h.receive_failed hidle hk fromaddr
  next =>
    split
    next hqr =>
      split
      next => exact h
      next domain type hq =>
        exact h.receive_reply hidle hk rfl
          ⟨rfl, rfl, rfl, hqr, behind, domain, type, hq, .inl ⟨rfl, rfl⟩⟩
    next => exact h

variable {key : PacketID}

/-- What `sendEvent` does. -/
theorem sendEvent_some {s' : OutgoingUDP} (h : s.sendEvent key a = some s') :
    ∃ w, s.d_waiters.lookup key = some w ∧
      s' = { s with
        d_waiters := s.d_waiters.erase key, running := true, resumed := ⟨w, a⟩ :: s.resumed } := by
  obtain ⟨w, hw, rfl⟩ := Option.map_eq_some_iff.mp h
  exact ⟨w, hw, rfl⟩

theorem sendEvent_none (h : s.sendEvent key a = none) :
    s.d_waiters.lookup key = none :=
  Option.map_eq_none_iff.mp h

/-- A chained thread is woken, while `doResends` goes on. -/
theorem Inv.resend (h : Inv s) {iter : PacketID} {cursor : Option UInt16} {id : UInt16}
    (hkernel : s.kernel = .resending a iter cursor) :
    Inv { s with kernel := .resending a iter (some id) } where
  numbered := h.numbered
  owners := h.owners
  sockets := h.sockets
  owned := by
    intro w hw hfd
    refine (h.owned w hw hfd).imp_right ?_
    rintro ⟨a', ha', hfailed, hagree⟩
    rw [hkernel] at ha'
    rcases ha' with ha' | ⟨iter', cursor', ha'⟩ <;> cases ha'
    exact ⟨a, .inr ⟨iter, some id, rfl⟩, hfailed, hagree⟩
  kernel := by
    have hk := h.kernel
    rw [hkernel] at hk
    exact hk
  delivered := h.delivered

/-- A thread without a socket is woken. -/
theorem Inv.wake_chained (h : Inv s) {iter : PacketID} {cursor : Option UInt16}
    (hkernel : s.kernel = .resending a iter cursor) (hfd : key.fd = -1)
    (hw : s.d_waiters.lookup key = some w) :
    Inv { s with
      d_waiters := s.d_waiters.erase key, running := true, resumed := ⟨w, a⟩ :: s.resumed } where
  numbered := h.numbered.wake hw
  owners := h.owners.keeps (keeps_erase _ _)
  sockets := h.sockets
  owned := @owned_keeps s _ h (keeps_erase _ _)
  kernel := by
    have hk := h.kernel
    rw [hkernel] at hk
    rw [hkernel]
    obtain ⟨hunderway, v, hv, hiter, hsame, hv0⟩ := hk
    refine ⟨hunderway, v, Table.mem_erase.mpr ⟨hv, ?_⟩, hiter, hsame, hv0⟩
    by_contra hkey
    rw [not_eq_false, PacketID.same_less_iff] at hkey
    omega
  delivered := by
    intro u hu hu0
    rcases mem_cons.mp hu with rfl | hu
    · have hkey := PacketID.same_less_iff.mp (Table.lookup_some hw).2
      dsimp only at hu0
      omega
    · exact h.delivered u hu hu0

/-- The thread that asked is woken. -/
theorem Inv.wake_owner (h : Inv s) (hkernel : s.kernel = .sending a)
    (hw : s.d_waiters.lookup a.pident = some w) :
    Inv { s with
      d_waiters := s.d_waiters.erase a.pident
      running := true
      resumed := ⟨w, a⟩ :: s.resumed
      kernel := if a.failed then .idle else .closing a.socket.fd } := by
  have hk := h.kernel
  rw [hkernel] at hk
  obtain ⟨hwmem, hwsame⟩ := Table.lookup_some hw
  have hwfd := (PacketID.same_less_iff.mp hwsame).2.1
  -- an error wakes the waiter whose socket is closed already, so the others have theirs
  have howned : ∀ w' ∈ s.d_waiters.erase a.pident, 0 ≤ w'.key.fd → HasSocket s.d_socks w' := by
    intro w' hw' hw0
    obtain ⟨hmem, hother⟩ := Table.mem_erase.mp hw'
    refine (h.owned w' hmem hw0).resolve_right ?_
    rintro ⟨a', ha', -, hagree⟩
    rw [hkernel] at ha'
    rcases ha' with ha' | ⟨iter, cursor, ha'⟩ <;> cases ha'
    rw [hagree.symm.same] at hother
    cases hother
  rcases hk.1 with ⟨hfailed, hpacket, -⟩ | ⟨hfailed, hsocket, hfits⟩
  · rw [hfailed, if_pos rfl]
    refine ⟨h.numbered.wake hw, h.owners.keeps (keeps_erase _ _), h.sockets,
      fun w' hw' hw0 => .inl (howned w' hw' hw0), trivial, ?_⟩
    intro u hu hu0
    rcases mem_cons.mp hu with rfl | hu
    · exact .inl ⟨hfailed, hpacket⟩
    · exact h.delivered u hu hu0
  · rw [hfailed, if_neg Bool.false_ne_true]
    -- the waiter's socket is the one the packet arrived on
    have hw0 : 0 ≤ w.key.fd := by
      rw [hwfd, hfits.fd]
      exact (h.sockets.fd _ hsocket).1
    have hws : HasSocket s.d_socks w := by
      refine (h.owned w hwmem hw0).resolve_right ?_
      rintro ⟨a', ha', hfailed', -⟩
      rw [hkernel] at ha'
      rcases ha' with ha' | ⟨iter, cursor, ha'⟩ <;> cases ha'
      rw [hfailed] at hfailed'
      cases hfailed'
    have hseq : a.socket.seq = w.seq := by
      obtain ⟨k, hk, hkseq, hkagree⟩ := hws
      obtain rfl := h.sockets.inj k hk a.socket hsocket
        ((h.sockets.fd_eq hk hkagree).trans (hwfd.trans hfits.fd))
      exact hkseq
    refine ⟨h.numbered.wake hw, h.owners.keeps (keeps_erase _ _), h.sockets,
      fun w' hw' hw0' => .inl (howned w' hw' hw0'), ?_, ?_⟩
    · refine ⟨⟨a.socket, hsocket, rfl⟩, fun w' hw' hw0' heq => ?_⟩
      obtain rfl := eq_of_fd h.numbered h.sockets (Table.mem_erase.mp hw').1 hwmem
        (howned w' hw' hw0') hws (heq.trans (hwfd.trans hfits.fd).symm)
      rw [(Table.mem_erase.mp hw').2] at hwsame
      cases hwsame
    · intro u hu hu0
      rcases mem_cons.mp hu with rfl | hu
      · exact .inr ⟨hfailed, hseq, hwsame, hfits⟩
      · exact h.delivered u hu hu0

/-- An error that nobody waits for. -/
theorem Inv.drop_failed (h : Inv s) (hkernel : s.kernel = .sending a)
    (hnone : s.d_waiters.lookup a.pident = none) : Inv { s with kernel := .idle } where
  numbered := h.numbered
  owners := h.owners
  sockets := h.sockets
  owned := by
    intro w hw hfd
    refine .inl ((h.owned w hw hfd).resolve_right ?_)
    rintro ⟨a', ha', -, hagree⟩
    rw [hkernel] at ha'
    rcases ha' with ha' | ⟨iter, cursor, ha'⟩ <;> cases ha'
    have hother := Table.lookup_none hnone hw
    rw [hagree.symm.same] at hother
    cases hother
  kernel := trivial
  delivered := h.delivered

/-- The scan of all waiters. -/
theorem Inv.retry (h : Inv s) (hkernel : s.kernel = .sending a) (hfailed : a.failed = false) :
    Inv (s.retryWithName a) := by
  have hk := h.kernel
  rw [hkernel] at hk
  obtain ⟨hunderway, hrun⟩ := hk
  obtain ⟨hsocket, hfits⟩ : a.socket ∈ s.d_socks ∧ Fits a := by
    rcases hunderway with ⟨hf, -⟩ | ⟨-, hor⟩
    · rw [hfailed] at hf
      cases hf
    · exact hor
  have hseq := nearMiss_seq a.pident (s.d_waiters.find (weakMatch a.pident))
  have hkey := nearMiss_agree a.pident (s.d_waiters.find (weakMatch a.pident))
  have hmod := h.modify (fun _ _ => PacketID.less_congr (hkey _) (hkey _)) hseq hkey s.chained
  refine ⟨hmod.numbered, hmod.owners, h.sockets, ?_, ?_, h.delivered⟩
  · intro w hw hfd
    refine .inl ((hmod.owned w hw hfd).resolve_right ?_)
    rintro ⟨a', ha', hfailed', -⟩
    rw [hkernel] at ha'
    rcases ha' with ha' | ⟨iter, cursor, ha'⟩ <;> cases ha'
    rw [hfailed] at hfailed'
    cases hfailed'
  · unfold retryWithName
    dsimp only
    split
    next m hm =>
      obtain ⟨-, hweak⟩ := Table.find_some hm
      simp only [weakMatch, and_eq_true, decide_eq_true_eq] at hweak
      exact ⟨.inr ⟨hfailed, hsocket, hfits.retry hweak.1.1.1.1.1 hweak.1.1.1.2 _ _⟩, hrun⟩
    next => trivial

/-- The socket of a thread that was woken is closed. -/
theorem Inv.close (h : Inv s) {fd : Int} (hkernel : s.kernel = .closing fd) :
    Inv { s.returnSocket fd with kernel := .idle } := by
  have hk := h.kernel
  rw [hkernel] at hk
  refine ⟨h.numbered, h.owners, h.sockets.filter _, ?_, trivial, h.delivered⟩
  intro w hw hw0
  have hs : HasSocket s.d_socks w := by
    refine (h.owned w hw hw0).resolve_right ?_
    rintro ⟨a', ha', -⟩
    rw [hkernel] at ha'
    rcases ha' with ha' | ⟨iter, cursor, ha'⟩ <;> cases ha'
  exact .inl (hs.filter h.sockets (hk.2 w hw hw0))

/-- **What the handler does next.** -/
theorem proceed_cases (s : OutgoingUDP) :
    (s.kernel = .idle ∧ s.proceed = s) ∨
    (∃ a iter cursor, s.kernel = .resending a iter cursor ∧
      ((∃ id, ((s.d_waiters.lookup iter).bind fun v => v.key.chain.next cursor) = some id ∧
          ((∃ w, s.d_waiters.lookup { a.pident with fd := -1, id := id } = some w ∧
              s.proceed = { s with
                kernel := .resending a iter (some id)
                d_waiters := s.d_waiters.erase { a.pident with fd := -1, id := id }
                running := true
                resumed := ⟨w, a⟩ :: s.resumed }) ∨
            s.d_waiters.lookup { a.pident with fd := -1, id := id } = none ∧
              s.proceed = { s with kernel := .resending a iter (some id) })) ∨
        ((s.d_waiters.lookup iter).bind fun v => v.key.chain.next cursor) = none ∧
          s.proceed = { s with kernel := .sending a })) ∨
    (∃ a, s.kernel = .sending a ∧
      ((∃ w, s.d_waiters.lookup a.pident = some w ∧
          s.proceed = { s with
            d_waiters := s.d_waiters.erase a.pident
            running := true
            resumed := ⟨w, a⟩ :: s.resumed
            kernel := if a.failed then .idle else .closing a.socket.fd }) ∨
        s.d_waiters.lookup a.pident = none ∧
          (a.failed = true ∧ s.proceed = { s with kernel := .idle } ∨
            a.failed = false ∧ s.proceed = s.retryWithName a))) ∨
    ∃ fd, s.kernel = .closing fd ∧ s.proceed = { s.returnSocket fd with kernel := .idle } := by
  unfold proceed
  cases hkernel : s.kernel with
  | idle => exact .inl ⟨rfl, rfl⟩
  | resending a iter cursor =>
    refine .inr (.inl ⟨a, iter, cursor, rfl, ?_⟩)
    dsimp only
    split
    next hnext => exact .inr ⟨hnext, rfl⟩
    next id hnext =>
      refine .inl ⟨id, hnext, ?_⟩
      cases hsend : s.d_waiters.lookup { a.pident with fd := -1, id := id } with
      | none =>
        unfold sendEvent
        rw [hsend]
        exact .inr ⟨rfl, rfl⟩
      | some w =>
        unfold sendEvent
        rw [hsend]
        exact .inl ⟨w, rfl, rfl⟩
  | sending a =>
    refine .inr (.inr (.inl ⟨a, rfl, ?_⟩))
    dsimp only
    split
    next s' hs' =>
      obtain ⟨w, hw, rfl⟩ := sendEvent_some hs'
      exact .inl ⟨w, hw, rfl⟩
    next hnone =>
      refine .inr ⟨sendEvent_none hnone, ?_⟩
      cases a.failed with
      | true => exact .inl ⟨rfl, rfl⟩
      | false => exact .inr ⟨rfl, rfl⟩
  | closing fd => exact .inr (.inr (.inr ⟨fd, rfl, rfl⟩))

/-- **A step of the handler** keeps the invariant. -/
theorem Inv.proceed (h : Inv s) (hrun : s.running = false) : Inv s.proceed := by
  rcases s.proceed_cases with ⟨-, heq⟩ | ⟨a, iter, cursor, hkernel, hcase⟩ | ⟨a, hkernel, hcase⟩ |
    ⟨fd, hkernel, heq⟩
  · rw [heq]
    exact h
  · rcases hcase with ⟨id, -, ⟨w, hw, heq⟩ | ⟨-, heq⟩⟩ | ⟨-, heq⟩
    · rw [heq]
      exact (h.resend hkernel).wake_chained rfl rfl hw
    · rw [heq]
      exact h.resend hkernel
    · -- the end of the chain
      rw [heq]
      have hk := h.kernel
      rw [hkernel] at hk
      refine ⟨h.numbered, h.owners, h.sockets, ?_, ⟨hk.1, hrun⟩, h.delivered⟩
      intro w hw hfd
      refine (h.owned w hw hfd).imp_right ?_
      rintro ⟨a', ha', hfailed, hagree⟩
      rw [hkernel] at ha'
      rcases ha' with ha' | ⟨iter', cursor', ha'⟩ <;> cases ha'
      exact ⟨a, .inl rfl, hfailed, hagree⟩
  · rcases hcase with ⟨w, hw, heq⟩ | ⟨hnone, ⟨-, heq⟩ | ⟨hfailed, heq⟩⟩
    · rw [heq]
      exact h.wake_owner hkernel hw
    · rw [heq]
      exact h.drop_failed hkernel hnone
    · rw [heq]
      exact h.retry hkernel hfailed
  · rw [heq]
    exact h.close hkernel

/-- The order of what is past does not matter. -/
theorem Numbered.perm {t : Waiters} {asked : Nat} {past past' : List Nat}
    (h : Numbered t asked past) (hp : past.Perm past') : Numbered t asked past' where
  seq_inj := h.seq_inj
  seq_lt := h.seq_lt
  past_lt := fun n hn => h.past_lt n (hp.mem_iff.mpr hn)
  waiting := fun w hw hn => h.waiting w hw (hp.mem_iff.mpr hn)
  once := hp.nodup_iff.mp h.once

/-- **A timeout** keeps the invariant. -/
theorem Inv.timeOut (h : Inv s) (hidle : s.isIdle = true)
    (hw : s.d_waiters.lookup key = some w) : Inv (s.timeOut w) := by
  obtain ⟨hkernel, -⟩ := isIdle_iff.mp hidle
  have hwmem := (Table.lookup_some hw).1
  have hself : s.d_waiters.lookup w.key = some w := Table.lookup_eq hwmem (same_refl _)
  have hnumbered : Numbered (s.d_waiters.erase w.key) s.asked
      (s.resumed.map (fun u => u.waiter.seq) ++ w.seq :: s.timedOut) :=
    (h.numbered.wake hself).perm perm_middle.symm
  have howned : ∀ w' ∈ s.d_waiters.erase w.key, 0 ≤ w'.key.fd → HasSocket s.d_socks w' :=
    fun w' hw' hw0 => h.hasSocket hkernel (Table.mem_erase.mp hw').1 hw0
  unfold OutgoingUDP.timeOut
  split
  next hw0 =>
    refine ⟨hnumbered, h.owners.keeps (keeps_erase _ _), h.sockets.filter _, ?_, ?_, h.delivered⟩
    · intro w' hw' hw0'
      -- the others have other sockets
      refine .inl ((howned w' hw' hw0').filter h.sockets fun heq => ?_)
      obtain rfl := eq_of_fd h.numbered h.sockets (Table.mem_erase.mp hw').1 hwmem
        (howned w' hw' hw0') (h.hasSocket hkernel hwmem hw0) heq
      have hother := (Table.mem_erase.mp hw').2
      rw [same_refl] at hother
      cases hother
    · change KernelOK _ s.kernel
      rw [hkernel]
      trivial
  next =>
    refine ⟨hnumbered, h.owners.keeps (keeps_erase _ _), h.sockets,
      fun w' hw' hw0' => .inl (howned w' hw' hw0'), ?_, h.delivered⟩
    rw [hkernel]
    trivial

/-- **Every step** keeps the invariant. -/
theorem Inv.step (h : Inv s) (act : Action) : Inv (s.step act) := by
  unfold OutgoingUDP.step
  cases act with
  | start =>
    dsimp only
    split
    next hidle => exact h.start hidle
    next => exact h
  | ask q os =>
    dsimp only
    split
    next hok => exact h.ask hok.2
    next => exact h
  | stop => exact h.stop
  | receive fd fromaddr recvfrom behind =>
    dsimp only
    split
    next hidle =>
      split
      next => exact h
      next k hk => exact h.receive hidle (socketOf_some hk).1 fromaddr recvfrom behind
    next => exact h
  | proceed =>
    dsimp only
    split
    next => exact h
    next hrun => exact h.proceed (eq_false_of_not_eq_true hrun)
  | timeout key =>
    dsimp only
    split
    next hidle =>
      split
      next => exact h
      next w hw => exact h.timeOut hidle hw
    next => exact h

end Handler

/-- **The invariant holds in every run.** -/
theorem inv_run (acts : List Action) : Inv (run step {} acts) :=
  run_invariant (fun _ act h _ => h.step act) inv_start (guarded_true _ acts)

end OutgoingUDP

end PowerDNS
