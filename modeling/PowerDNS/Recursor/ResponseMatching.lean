import PowerDNS.Recursor.OutgoingUDP

/-!
# Which packets wake a query

A thread that waits on a socket of its own is woken under the key it waits under, so the packet
came in on its socket, from the remote it asked, with the id of its query. The question is
another matter. `handleUDPServerResponse` gives a packet that has no question to a waiter by the
other fields alone, and it takes `questionExpand`'s word for what the question is. That function
returns an empty name and type 0 not only when there is no question, but also when the packet
ends inside the question, and a type of 0 when the type is cut off. So a packet that announces a
question and ends behind its first octet wakes a waiter like one that has none.

`response_matched` says that nothing else can go wrong: packets that end inside their first
question are all that must not arrive.
-/

namespace PowerDNS

open GuardedRun OrderedUnique Option List

/-- The arrival that the handler is at. -/
def Kernel.arrival : Kernel → Option Arrival
  | .idle => none
  | .resending a _ _ => some a
  | .sending a => some a
  | .closing _ => none

/-- What `arecvfrom` leaves in the buffer of `asyncresolve`: at most 1499 octets are copied, and
the length is that of the packet. -/
def receiveBuffer (packet : Octets) (stale : UInt8) : Octets :=
  packet.take 1499 ++ List.replicate (packet.length - 1499) stale

namespace OutgoingUDP

/-- No question is announced, or the first one is all there. -/
def Whole (packet : Octets) : Prop :=
  (Dnsheader.ofPacket packet).qdcount = 0 ∨ ¬EndsInQuestion packet

instance (packet : Octets) : Decidable (Whole packet) := inferInstanceAs (Decidable (_ ∨ _))

/-- A reply that arrives does not end inside its first question. -/
def ReplyWhole : OutgoingUDP → Action → Prop
  | _, .receive _ _ (some data) _ =>
    12 ≤ (data.take 1500).length → headerQr (data.take 1500) = true → Whole (data.take 1500)
  | _, _ => True

instance (s : OutgoingUDP) (act : Action) : Decidable (ReplyWhole s act) := by
  unfold ReplyWhole
  split <;> infer_instance

/-- The packet is the reply that the waiter waits for. -/
structure Matched (u : Resumption) : Prop where
  /-- It arrived on the socket that was opened for the query. -/
  socket : u.arrival.socket.seq = u.waiter.seq ∧ u.arrival.socket.fd = u.waiter.key.fd
  remote : u.arrival.fromaddr = u.waiter.key.remote
  qr : headerQr u.arrival.packet = true
  id : headerId u.arrival.packet = u.waiter.key.id
  question : (Dnsheader.ofPacket u.arrival.packet).qdcount = 0 ∨
    AsksFor u.arrival.packet u.waiter.key.domain u.waiter.key.type

/-- What `asyncresolve` delivers to the waiter comes from a packet whose question has the name
that was asked. -/
def DeliversAsked (u : Resumption) : Prop :=
  ∀ types getZoneRepresentation EDNS0Level ping stale lwr,
    (asyncresolve types getZoneRepresentation u.waiter.key.domain EDNS0Level ping
      (receiveBuffer u.arrival.packet stale) lwr).2.d_result ≠ [] →
    ∃ mdp, MOADNSParser.init types (receiveBuffer u.arrival.packet stale) = .ok mdp ∧
      pdnsIequals u.waiter.key.domain mdp.d_qname = true ∧
      (u.waiter.key.domain ≠ [] →
        (Dnsheader.ofPacket (receiveBuffer u.arrival.packet stale)).qdcount ≠ 0)

/-! ### Packets under way -/

/-- All that is under way, or has woken a waiter, is an error or has the property. -/
structure Arrivals (P : Octets → Prop) (s : OutgoingUDP) : Prop where
  underway : ∀ a, s.kernel.arrival = some a → a.failed = true ∨ P a.packet
  resumed : ∀ u ∈ s.resumed, u.arrival.failed = true ∨ P u.arrival.packet

section Arrivals

variable {P : Octets → Prop} {s s' : OutgoingUDP}

/-- Nothing new is under way. -/
theorem Arrivals.mono (h : Arrivals P s)
    (hkernel : ∀ a, s'.kernel.arrival = some a →
      ∃ b, s.kernel.arrival = some b ∧ b.failed = a.failed ∧ b.packet = a.packet)
    (hresumed : ∀ u ∈ s'.resumed, u ∈ s.resumed ∨ s.kernel.arrival = some u.arrival) :
    Arrivals P s' where
  underway := by
    intro a ha
    obtain ⟨b, hb, hfailed, hpacket⟩ := hkernel a ha
    rw [← hfailed, ← hpacket]
    exact h.underway b hb
  resumed := by
    intro u hu
    rcases hresumed u hu with hu | hu
    · exact h.resumed u hu
    · exact h.underway _ hu

theorem Arrivals.same (h : Arrivals P s) (hkernel : s'.kernel = s.kernel)
    (hresumed : s'.resumed = s.resumed) : Arrivals P s' :=
  h.mono (fun a ha => ⟨a, by rw [← hkernel]; exact ha, rfl, rfl⟩)
    fun _ hu => .inl (hresumed ▸ hu)

/-- A query leaves the handler, and what was woken, as they are. -/
theorem ask_frame {q : Ask} {os : SocketResult} (hfresh : s.Fresh os) :
    (s.ask q os).kernel = s.kernel ∧ (s.ask q os).resumed = s.resumed := by
  cases hout : s.outstanding q with
  | some v =>
    rw [ask_chain hout]
    split
    next => exact ⟨rfl, rfl⟩
    next => exact ⟨rfl, rfl⟩
  | none =>
    rcases @ask_alone s q os hout hfresh with ⟨fd, -, -, -, heq⟩ | heq
    · rw [heq]
      exact ⟨rfl, rfl⟩
    · rw [heq]
      exact ⟨rfl, rfl⟩

/-- An arrival goes under way. -/
theorem Arrivals.dispatch (h : Arrivals P s) {a : Arrival} (ha : a.failed = true ∨ P a.packet) :
    Arrivals P (s.dispatch a) where
  underway := by
    intro b hb
    unfold OutgoingUDP.dispatch at hb
    split at hb
    next =>
      obtain rfl := some.inj hb
      exact ha
    next =>
      obtain rfl := some.inj hb
      exact ha
  resumed := h.resumed

/-- A packet arrives. -/
theorem Arrivals.receive (h : Arrivals P s) (k : UDPSocket) (fromaddr : ComboAddress)
    (recvfrom : Option Octets) (behind : UInt8)
    (hP : ∀ data, recvfrom = some data → 12 ≤ (data.take 1500).length →
      headerQr (data.take 1500) = true → P (data.take 1500)) :
    Arrivals P (s.handleUDPServerResponse k fromaddr recvfrom behind) := by
  unfold handleUDPServerResponse
  dsimp only
  split
  next =>
    have hclosed : Arrivals P (s.returnSocket k.fd) := h.same rfl rfl
    exact hclosed.dispatch (.inl rfl)
  next hlen =>
    split
    next hqr =>
      split
      next => exact h
      next =>
        cases recvfrom with
        | none => exact absurd (Nat.succ_pos _) hlen
        | some data => exact h.dispatch (.inr (hP data rfl (not_lt.mp hlen) hqr))
    next => exact h

/-- The handler goes on. -/
theorem Arrivals.proceed (h : Arrivals P s) : Arrivals P s.proceed := by
  rcases s.proceed_cases with ⟨-, heq⟩ | ⟨a, iter, cursor, hkernel, hcase⟩ | ⟨a, hkernel, hcase⟩ |
    ⟨fd, hkernel, heq⟩
  · rw [heq]
    exact h
  · have harrival : s.kernel.arrival = some a := by rw [hkernel]; rfl
    rcases hcase with ⟨id, -, ⟨w, -, heq⟩ | ⟨-, heq⟩⟩ | ⟨-, heq⟩
    · rw [heq]
      refine h.mono (fun b hb => ⟨b, harrival.trans hb, rfl, rfl⟩) fun u hu => ?_
      rcases mem_cons.mp hu with rfl | hu
      · exact .inr harrival
      · exact .inl hu
    · rw [heq]
      exact h.mono (fun b hb => ⟨b, harrival.trans hb, rfl, rfl⟩) fun _ hu => .inl hu
    · rw [heq]
      exact h.mono (fun b hb => ⟨b, harrival.trans hb, rfl, rfl⟩) fun _ hu => .inl hu
  · have harrival : s.kernel.arrival = some a := by rw [hkernel]; rfl
    rcases hcase with ⟨w, -, heq⟩ | ⟨-, ⟨-, heq⟩ | ⟨-, heq⟩⟩
    · rw [heq]
      refine h.mono (fun b hb => ?_) fun u hu => ?_
      · dsimp only at hb
        split at hb <;> cases hb
      · rcases mem_cons.mp hu with rfl | hu
        · exact .inr harrival
        · exact .inl hu
    · rw [heq]
      exact h.mono nofun fun _ hu => .inl hu
    · -- the name and the type of a waiter are taken, the packet stays
      rw [heq]
      refine h.mono (fun b hb => ⟨a, harrival, ?_⟩) fun _ hu => .inl hu
      unfold retryWithName at hb
      dsimp only at hb
      split at hb
      next =>
        obtain rfl := some.inj hb
        exact ⟨rfl, rfl⟩
      next => cases hb
  · rw [heq]
    exact h.mono nofun fun _ hu => .inl hu

theorem Arrivals.step (h : Arrivals Whole s) {act : Action} (hok : ReplyWhole s act) :
    Arrivals Whole (s.step act) := by
  unfold OutgoingUDP.step
  cases act with
  | start =>
    dsimp only
    split
    next => exact h.same rfl rfl
    next => exact h
  | ask q os =>
    dsimp only
    split
    next hfresh => exact h.same (ask_frame hfresh.2).1 (ask_frame hfresh.2).2
    next => exact h
  | stop => exact h.same rfl rfl
  | receive fd fromaddr recvfrom behind =>
    dsimp only
    split
    next =>
      split
      next => exact h
      next k _ =>
        refine h.receive k fromaddr recvfrom behind fun data hdata => ?_
        subst hdata
        exact hok
    next => exact h
  | proceed =>
    dsimp only
    split
    next => exact h
    next => exact h.proceed
  | timeout key =>
    dsimp only
    split
    next =>
      split
      next => exact h
      next w _ =>
        unfold OutgoingUDP.timeOut
        split
        next => exact h.same rfl rfl
        next => exact h.same rfl rfl
    next => exact h

end Arrivals

/-! ### What wakes a waiter -/

/-- The question of a packet whose event key is that of a waiter. -/
theorem asksFor_of_fits {a : Arrival} (hfits : Fits a) (hwhole : ¬EndsInQuestion a.packet)
    (hqdcount : (Dnsheader.ofPacket a.packet).qdcount ≠ 0) {key : PacketID}
    (hsame : key.SameQuestion a.pident) : AsksFor a.packet key.domain key.type := by
  obtain ⟨behind, domain, type, hq, hor⟩ := hfits.question
  unfold question at hq
  rw [if_neg hqdcount] at hq
  rcases hor with ⟨hdomain, htype⟩ | ⟨rfl, -⟩
  · obtain ⟨-, htype', hdomain'⟩ := hsame
    rw [htype', htype]
    exact questionExpand_whole hq hwhole (by rw [← hdomain, hdomain'])
  · -- the text of a name that is there is not empty
    exfalso
    obtain ⟨labels, rest, -, -, htext⟩ := questionExpand_whole hq hwhole rfl
    rw [toLower_nil, toLower_eq_nil] at htext
    unfold questionText at htext
    split at htext
    next => cases htext
    next hne => exact dottedText_ne_nil hne htext

theorem Delivered.matched {u : Resumption} (h : Delivered u) (hpacket : u.arrival.packet ≠ [])
    (hwhole : u.arrival.failed = true ∨ Whole u.arrival.packet) : Matched u := by
  rcases h with ⟨-, hnil⟩ | ⟨hfailed, hseq, hsame, hfits⟩
  · exact absurd hnil hpacket
  · obtain ⟨hquestion, hfd, hid⟩ := PacketID.same_less_iff.mp hsame
    refine ⟨⟨hseq, hfits.fd.symm.trans hfd.symm⟩, hfits.remote.symm.trans hquestion.1.symm,
      hfits.qr, hfits.id.symm.trans hid.symm, ?_⟩
    rw [hfailed] at hwhole
    rcases hwhole with hwhole | hnone | hends
    · cases hwhole
    · exact .inl hnone
    · by_cases hqdcount : (Dnsheader.ofPacket u.arrival.packet).qdcount = 0
      · exact .inl hqdcount
      · exact .inr (asksFor_of_fits hfits hends hqdcount hquestion)

/-- The last check, of the parser's question, needs no condition. -/
theorem delivers_asked (u : Resumption) : DeliversAsked u :=
  fun _ _ _ _ _ _ h => qname_of_delivered h

/-- **Replies are matched.** In every run in which no reply arrives that ends inside its first
question, a waiter with a socket is woken with a packet only if that packet is the reply it waits
for, and gets records only from a packet whose question has the name that it asked. -/
theorem response_matched (acts : List Action) (hg : Guarded step ReplyWhole {} acts) :
    ∀ u ∈ (run step {} acts).resumed, 0 ≤ u.waiter.key.fd → u.arrival.packet ≠ [] →
      Matched u ∧ DeliversAsked u := by
  intro u hu hfd hpacket
  have harrivals : Arrivals Whole (run step {} acts) :=
    run_invariant (fun _ _ h hok => h.step hok) ⟨nofun, nofun⟩ hg
  exact ⟨((inv_run acts).delivered u hu hfd).matched hpacket (harrivals.resumed u hu),
    delivers_asked u⟩

/-- A query for the address of `a.`, with id 7. -/
def askAddress : Ask where
  remote := ⟨[192, 0, 2, 53], 53⟩
  id := 7
  domain := ascii "a."
  type := QType.A

/-- The query goes out on socket 3, and a reply arrives there. -/
def replyRun (reply : Octets) : List Action :=
  [.start, .ask askAddress (.opened 3 true), .receive 3 askAddress.remote (some reply) 0, .proceed,
    .proceed, .proceed]

/-- The reply that was asked for wakes the query. -/
theorem reply_matched :
    ((run step {} (replyRun [0, 7, 0x80, 0, 0, 1, 0, 0, 0, 0, 0, 0, 1, 65, 0, 0, 1, 0, 1])).resumed.map
        fun u => u.waiter.key.fd) = [3] ∧
      ∀ u ∈ (run step {}
          (replyRun [0, 7, 0x80, 0, 0, 1, 0, 0, 0, 0, 0, 0, 1, 65, 0, 0, 1, 0, 1])).resumed,
        0 ≤ u.waiter.key.fd → u.arrival.packet ≠ [] → Matched u ∧ DeliversAsked u :=
  ⟨by decide, response_matched _ (by decide)⟩

/-- **A reply that is cut off.** A packet that announces a question and has one octet of it, a
length, wakes a query that it does not match. -/
theorem cut_reply_accepted :
    ∃ u ∈ (run step {} (replyRun [0, 7, 0x80, 0, 0, 1, 0, 0, 0, 0, 0, 0, 3])).resumed,
      0 ≤ u.waiter.key.fd ∧ u.arrival.packet ≠ [] ∧ ¬Matched u := by
  have hresumed : ((run step {}
      (replyRun [0, 7, 0x80, 0, 0, 1, 0, 0, 0, 0, 0, 0, 3])).resumed.map
        fun u => (u.waiter.key.fd, u.arrival.packet)) =
      [(3, [0, 7, 0x80, 0, 0, 1, 0, 0, 0, 0, 0, 0, 3])] := by
    decide
  obtain ⟨u, hu, heq⟩ := mem_map.mp (hresumed ▸ mem_singleton.mpr rfl)
  obtain ⟨hfd, hpacket⟩ := Prod.mk.inj heq
  refine ⟨u, hu, by rw [hfd]; decide, by rw [hpacket]; exact cons_ne_nil _ _, fun h => ?_⟩
  have hquestion := h.question
  rw [hpacket] at hquestion
  rcases hquestion with hnone | ⟨labels, rest, -, heq, -⟩
  · exact absurd hnone (by decide)
  · -- a question has at least a root label and a type
    have hlength := congrArg List.length heq
    cases labels <;> simp [wireLabels, be16] at hlength

end OutgoingUDP

end PowerDNS
