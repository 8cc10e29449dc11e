import PowerDNS.Lib.GuardedRun
import PowerDNS.Packet.MOADNSParser

/-!
# Questions over TCP

A client sends questions over a TCP connection, each behind its length in two octets. The octets
arrive in segments, and `handleRunningTCPQuestion` reads, each time there is something to read, at
most what the question it is at still lacks. A complete question goes to a thread of its own, during
which the connection is not watched; `startDoResolve` puts it back when the answer is written.

A `TCPSession` is a connection with what has arrived on it and was not read yet. `questionsOf` says
which questions a stream holds: they end at the first that is empty, cannot be parsed or is an
answer. `questions_of_stream` is the theorem: however the stream is cut, the handler takes these
questions from it and no others, and never reads beyond its buffer.
-/

namespace PowerDNS

open GuardedRun List

/-- `qr`. -/
def Dnsheader.qr (h : Dnsheader) : Bool := h.flags &&& 128 != 0

/-- `TCPConnection::stateenum`. -/
inductive stateenum
  | BYTE0
  | BYTE1
  | GETQUESTION
  | DONE
  deriving DecidableEq

/-- `TCPConnection`, what the handler uses of it. -/
structure TCPConnection where
  state : stateenum
  qlen : Nat
  bytesread : Nat
  data : Nat → UInt8

namespace TCPConnection

/-- The size of `data`. -/
abbrev dataSize : Nat := 65535

/-- What `recv` leaves in a buffer. -/
def stored (data : Nat → UInt8) (off : Nat) (got : Octets) : Nat → UInt8 := fun i =>
  if off ≤ i ∧ i < off + got.length then got.getD (i - off) 0 else data i

/-- The first octets of a buffer. -/
def copied (data : Nat → UInt8) (n : Nat) : Octets := (List.range n).map data

/-- Where the handler wants the next octets, and how many. -/
def request (conn : TCPConnection) : Nat × Nat :=
  match conn.state with
  | .BYTE0 => (0, 2)
  | .BYTE1 => (1, 1)
  | .GETQUESTION => (conn.bytesread, conn.qlen - conn.bytesread)
  | .DONE => (0, 0)

/-- The octets it asks for have room. A negative length would be a huge one. -/
def InBounds (conn : TCPConnection) : Prop :=
  (conn.state = .GETQUESTION → conn.bytesread ≤ conn.qlen) ∧
    conn.request.1 + conn.request.2 ≤ dataSize

instance (conn : TCPConnection) : Decidable conn.InBounds := inferInstanceAs (Decidable (_ ∧ _))

/-- What is to happen to the connection. -/
inductive Handled
  /-- It stays in the multiplexer. -/
  | waits (conn : TCPConnection)
  /-- `removeReadFD`. -/
  | removed
  /-- `removeReadFD`, and the question is read. -/
  | asks (conn : TCPConnection) (question : Octets)

/-- The length in the first two octets. -/
def readLength (conn : TCPConnection) : TCPConnection :=
  { conn with
    qlen := 256 * (conn.data 0).toNat + (conn.data 1).toNat, bytesread := 0, state := .GETQUESTION }

/-- `handleRunningTCPQuestion`, once `recv` has returned `got`; nothing stands for the end of the
stream and for an error. -/
def handleRunningTCPQuestion (conn : TCPConnection) (got : Octets) : Handled :=
  let filled : TCPConnection := { conn with data := stored conn.data conn.request.1 got }
  match conn.state with
  | .BYTE0 =>
    if got = [] then .removed
    else if got.length = 1 then .waits { filled with state := .BYTE1 }
    else .waits filled.readLength
  | .BYTE1 => if got = [] then .removed else .waits filled.readLength
  | .GETQUESTION =>
    if got = [] then .removed
    else
      let conn : TCPConnection := { filled with bytesread := conn.bytesread + got.length }
      if conn.bytesread = conn.qlen then .asks conn (copied conn.data conn.qlen) else .waits conn
  | .DONE => .waits conn

end TCPConnection

/-- `DNSComboWriter` throws, or the packet is an answer. -/
def malformed (types : TypeMap) (question : Octets) : Bool :=
  match MOADNSParser.init types question with
  | .error _ => true
  | .ok d_mdp => d_mdp.d_header.qr

/-- A connection of a client. -/
structure TCPSession where
  conn : TCPConnection
  /-- It is in the multiplexer. -/
  watched : Bool
  /-- A thread has it, which looks for the answer. -/
  resolving : Bool
  /-- What has arrived and was not read. -/
  pending : Octets
  /-- The client has closed its side. -/
  eof : Bool
  /-- The questions given to `DNSComboWriter`. -/
  questions : List Octets
  /-- `recv` was given more than the buffer holds. -/
  overrun : Bool
  /-- The connection ended for another reason than what was read. -/
  cut : Bool

/-- What can happen to a connection. -/
inductive TCPEvent
  /-- A segment arrives. -/
  | segment (octets : Octets)
  /-- The client closes its side. -/
  | close
  /-- The handler is called, and `recv` returns `most + 1` octets at most. -/
  | readable (most : Nat)
  /-- `startDoResolve` is done; the answer is written or not. -/
  | answered (ok : Bool)
  /-- The connection has timed out, or `recv` has failed. -/
  | dropped

namespace TCPSession

/-- `handleNewTCPQuestion`: a new connection. What is in its buffer is not known. -/
def accepted (data : Nat → UInt8) : TCPSession where
  conn := { state := .BYTE0, qlen := 0, bytesread := 0, data }
  watched := true
  resolving := false
  pending := []
  eof := false
  questions := []
  overrun := false
  cut := false

/-- The handler is called. -/
def read (types : TypeMap) (most : Nat) (s : TCPSession) : TCPSession :=
  let got := s.pending.take (min s.conn.request.2 (most + 1))
  let s : TCPSession :=
    { s with pending := s.pending.drop got.length, overrun := s.overrun || decide ¬s.conn.InBounds }
  match s.conn.handleRunningTCPQuestion got with
  | .waits conn => { s with conn }
  | .removed => { s with watched := false }
  | .asks conn question =>
    { s with
      conn, watched := false, resolving := !malformed types question,
      questions := s.questions ++ [question] }

/-- What an event does. -/
def step (types : TypeMap) (s : TCPSession) : TCPEvent → TCPSession
  | .segment octets => if s.eof then s else { s with pending := s.pending ++ octets }
  | .close => { s with eof := true }
  | .readable most => if s.watched ∧ (s.pending ≠ [] ∨ s.eof) then s.read types most else s
  | .answered ok =>
    if s.resolving then
      if ok then { s with conn := { s.conn with state := .BYTE0 }, watched := true, resolving := false }
      else { s with resolving := false, cut := true }
    else s
  | .dropped => if s.watched then { s with watched := false, cut := true } else s

/-- The server has nothing left to do. -/
def Idle (s : TCPSession) : Prop := s.resolving = false ∧ (s.watched = true → s.pending = [])

end TCPSession

/-- The octets a client sends in a run. -/
def streamOf : List TCPEvent → Octets
  | [] => []
  | .segment octets :: events => octets ++ streamOf events
  | .close :: _ => []
  | _ :: events => streamOf events

/-- The questions at the front of a stream, at most `fuel` of them. -/
def framedQuestions (types : TypeMap) : Nat → Octets → List Octets
  | fuel + 1, hi :: lo :: rest =>
    let qlen := 256 * hi.toNat + lo.toNat
    if qlen = 0 ∨ rest.length < qlen then []
    else
      rest.take qlen ::
        if malformed types (rest.take qlen) then [] else framedQuestions types fuel (rest.drop qlen)
  | _, _ => []

/-- The questions a stream holds, up to the first that is empty or malformed. -/
def questionsOf (types : TypeMap) (stream : Octets) : List Octets :=
  framedQuestions types stream.length stream

/-! ### The questions of a stream -/

/-- A length in front of a question. -/
def lengthOctets (qlen : Nat) : Octets := [UInt8.ofNat (qlen / 256), UInt8.ofNat (qlen % 256)]

section Stream

variable {types : TypeMap}

theorem lengthOctets_eq (hi lo : UInt8) : lengthOctets (256 * hi.toNat + lo.toNat) = [hi, lo] := by
  have hlo := lo.toNat_lt
  have hdiv : (256 * hi.toNat + lo.toNat) / 256 = hi.toNat := by omega
  have hmod : (256 * hi.toNat + lo.toNat) % 256 = lo.toNat := by omega
  rw [lengthOctets, hdiv, hmod, UInt8.ofNat_toNat, UInt8.ofNat_toNat]

theorem framedQuestions_cons (fuel : Nat) {qlen : Nat} (hqlen : qlen < 65536) (rest : Octets) :
    framedQuestions types (fuel + 1) (lengthOctets qlen ++ rest) =
      if qlen = 0 ∨ rest.length < qlen then []
      else
        rest.take qlen ::
          if malformed types (rest.take qlen) then [] else framedQuestions types fuel (rest.drop qlen) := by
  have hhi : (UInt8.ofNat (qlen / 256)).toNat = qlen / 256 := by
    rw [UInt8.toNat_ofNat', Nat.mod_eq_of_lt (by omega)]
  have hlo : (UInt8.ofNat (qlen % 256)).toNat = qlen % 256 := by
    rw [UInt8.toNat_ofNat', Nat.mod_eq_of_lt (by omega)]
  show framedQuestions types (fuel + 1) (_ :: _ :: rest) = _
  rw [framedQuestions, hhi, hlo, Nat.div_add_mod]

/-- The bound on the number of questions is none. -/
theorem framedQuestions_eq {fuel : Nat} {stream : Octets} (h : stream.length ≤ fuel) :
    framedQuestions types fuel stream = questionsOf types stream := by
  have hany : ∀ (m n : Nat) (t : Octets), t.length ≤ m → t.length ≤ n →
      framedQuestions types m t = framedQuestions types n t := by
    intro m
    induction m with
    | zero =>
      intro n t hm _
      obtain rfl := eq_nil_of_length_eq_zero (Nat.le_zero.mp hm)
      cases n <;> rfl
    | succ m ih =>
      intro n t hm hn
      cases n with
      | zero =>
        obtain rfl := eq_nil_of_length_eq_zero (Nat.le_zero.mp hn)
        rfl
      | succ n =>
        match t with
        | [] => rfl
        | [_] => rfl
        | hi :: lo :: rest =>
          have hrest : (rest.drop (256 * hi.toNat + lo.toNat)).length ≤ rest.length := by simp
          simp only [length_cons] at hm hn
          rw [framedQuestions, framedQuestions, ih n _ (by omega) (by omega)]
  exact hany _ _ _ h (Nat.le_refl _)

/-- A length, and what follows it. -/
theorem questionsOf_length {qlen : Nat} (hqlen : qlen < 65536) (rest : Octets) :
    questionsOf types (lengthOctets qlen ++ rest) =
      if qlen = 0 ∨ rest.length < qlen then []
      else
        rest.take qlen ::
          if malformed types (rest.take qlen) then [] else questionsOf types (rest.drop qlen) := by
  have hlength : (lengthOctets qlen ++ rest).length = rest.length + 1 + 1 := rfl
  rw [questionsOf, hlength, framedQuestions_cons _ hqlen, framedQuestions_eq]
  rw [length_drop]
  omega

/-- A question in front of a stream. -/
theorem questionsOf_question {question : Octets} (hne : question ≠ []) (hlength : question.length < 65536)
    (rest : Octets) : questionsOf types (lengthOctets question.length ++ (question ++ rest)) =
      question :: if malformed types question then [] else questionsOf types rest := by
  rw [questionsOf_length hlength, if_neg, take_left, drop_left]
  rw [not_or, length_append]
  exact ⟨mt length_eq_zero_iff.mp hne, by omega⟩

end Stream

/-! ### The buffer -/

namespace TCPConnection

theorem copied_stored (data : Nat → UInt8) (off : Nat) (got : Octets) :
    copied (stored data off got) (off + got.length) = copied data off ++ got := by
  unfold copied
  rw [range_add, map_append, map_map]
  refine congrArg₂ _ (map_congr_left fun i hi => ?_) ?_
  · rw [stored, if_neg]
    rw [mem_range] at hi
    omega
  · refine ext_getElem (by simp) fun i hi hgot => ?_
    simp only [getElem_map, getElem_range, Function.comp]
    rw [stored, if_pos ⟨Nat.le_add_right off i, Nat.add_lt_add_left hgot off⟩, Nat.add_sub_cancel_left,
      getD_eq_getElem?_getD, getElem?_eq_getElem hgot, Option.getD_some]

/-- What the connection has read of the question it is at. -/
def begun (conn : TCPConnection) : Octets :=
  match conn.state with
  | .BYTE0 => []
  | .BYTE1 => [conn.data 0]
  | .GETQUESTION => lengthOctets conn.qlen ++ copied conn.data conn.bytesread
  | .DONE => []

/-- A connection between two calls of the handler. A question that is complete is empty. -/
structure Waiting (conn : TCPConnection) : Prop where
  state : conn.state ≠ .DONE
  length : conn.state = .GETQUESTION → conn.qlen < 65536
  more : conn.state = .GETQUESTION → conn.qlen ≠ 0 → conn.bytesread < conn.qlen
  none : conn.state = .GETQUESTION → conn.qlen = 0 → conn.bytesread = 0

variable {conn : TCPConnection} {types : TypeMap}

theorem Waiting.inBounds (h : conn.Waiting) : conn.InBounds := by
  unfold InBounds request
  cases hstate : conn.state with
  | BYTE0 =>
    refine ⟨fun he => ?_, show 0 + 2 ≤ dataSize by decide⟩
    cases he
  | BYTE1 =>
    refine ⟨fun he => ?_, show 1 + 1 ≤ dataSize by decide⟩
    cases he
  | GETQUESTION =>
    have hlength := h.length hstate
    have hle : conn.bytesread ≤ conn.qlen := by
      by_cases hzero : conn.qlen = 0
      · rw [h.none hstate hzero]
        exact Nat.zero_le _
      · exact (h.more hstate hzero).le
    exact ⟨fun _ => hle, by dsimp only [dataSize]; omega⟩
  | DONE => exact absurd hstate h.state

/-- What is not complete holds no question. -/
theorem Waiting.questionsOf_begun (h : conn.Waiting) : questionsOf types conn.begun = [] := by
  unfold begun
  split
  next => rfl
  next => rfl
  next hstate =>
    rw [questionsOf_length (h.length hstate), if_pos]
    by_cases hzero : conn.qlen = 0
    · exact .inl hzero
    · right
      rw [copied, length_map, length_range]
      exact h.more hstate hzero
  next => rfl

theorem Waiting.questionsOf_empty (h : conn.Waiting) (hrequest : conn.request.2 = 0) (rest : Octets) :
    questionsOf types (conn.begun ++ rest) = [] := by
  unfold request at hrequest
  unfold begun
  split at hrequest
  next => cases hrequest
  next => cases hrequest
  next hstate =>
    have hzero : conn.qlen = 0 := by
      by_contra hne
      have hmore := h.more hstate hne
      omega
    rw [append_assoc, questionsOf_length (h.length hstate), if_pos (.inl hzero)]
  next hstate => exact absurd hstate h.state

/-- A connection whose length has just been read. -/
theorem waiting_readLength (conn : TCPConnection) : conn.readLength.Waiting where
  state := by
    intro he
    cases he
  length _ := by
    show 256 * (conn.data 0).toNat + (conn.data 1).toNat < 65536
    have hhi := (conn.data 0).toNat_lt
    have hlo := (conn.data 1).toNat_lt
    omega
  more _ hne := Nat.pos_of_ne_zero hne
  none _ _ := rfl

theorem begun_readLength (conn : TCPConnection) : conn.readLength.begun = [conn.data 0, conn.data 1] := by
  exact lengthOctets_eq _ _

/-- Without octets the connection ends. -/
theorem handled_nil (h : conn.Waiting) : conn.handleRunningTCPQuestion [] = .removed := by
  unfold handleRunningTCPQuestion
  cases hstate : conn.state with
  | BYTE0 => rfl
  | BYTE1 => rfl
  | GETQUESTION => rfl
  | DONE => exact absurd hstate h.state

/-- **What a call does.** The octets are added to what was read; when the question is complete,
what was read is its length and the question. -/
theorem handled_cases (h : conn.Waiting) {got : Octets} (hne : got ≠ []) (hlen : got.length ≤ conn.request.2) :
    (∃ conn', conn.handleRunningTCPQuestion got = .waits conn' ∧ conn'.Waiting ∧
        conn'.begun = conn.begun ++ got) ∨
      ∃ conn' question, conn.handleRunningTCPQuestion got = .asks conn' question ∧ question ≠ [] ∧
        question.length < 65536 ∧ conn.begun ++ got = lengthOctets question.length ++ question := by
  have hpos := length_pos_iff.mpr hne
  unfold handleRunningTCPQuestion
  cases hstate : conn.state with
  | BYTE0 =>
    left
    rw [request, hstate] at hlen
    match got with
    | [hi] =>
      refine ⟨_, rfl, ⟨by simp, by simp, by simp, by simp⟩, ?_⟩
      simp [begun, hstate, stored, request]
    | [hi, lo] =>
      refine ⟨_, rfl, waiting_readLength _, ?_⟩
      rw [begun_readLength]
      simp [begun, hstate, stored, request]
  | BYTE1 =>
    left
    rw [request, hstate] at hlen
    match got with
    | [lo] =>
      refine ⟨_, rfl, waiting_readLength _, ?_⟩
      rw [begun_readLength]
      simp [begun, hstate, stored, request]
  | GETQUESTION =>
    rw [request, hstate] at hlen
    dsimp only at hlen ⊢
    have hqlen := h.length hstate
    have hdata : copied (stored conn.data conn.request.1 got) (conn.bytesread + got.length) =
        copied conn.data conn.bytesread ++ got := by
      rw [request, hstate]
      exact copied_stored _ _ _
    have hbegun : conn.begun = lengthOctets conn.qlen ++ copied conn.data conn.bytesread := by
      rw [begun, hstate]
    rw [if_neg hne]
    split
    next heq =>
      right
      have hquestion : copied (stored conn.data conn.request.1 got) conn.qlen =
          copied conn.data conn.bytesread ++ got := by
        rw [← heq, hdata]
      refine ⟨_, _, rfl, ?_, ?_, ?_⟩
      · rw [hquestion]
        exact append_ne_nil_of_right_ne_nil _ hne
      · rw [copied, length_map, length_range]
        exact hqlen
      · have hlength : (copied (stored conn.data conn.request.1 got) conn.qlen).length = conn.qlen := by
          rw [copied, length_map, length_range]
        rw [hlength, hquestion, hbegun, append_assoc]
    next hmore =>
      left
      refine ⟨_, rfl, ⟨by simp, fun _ => hqlen, fun _ _ => ?_, fun _ hzero => ?_⟩, ?_⟩
      · dsimp only
        omega
      · dsimp only at hzero
        omega
      · rw [hbegun]
        show lengthOctets conn.qlen ++ copied _ _ = _
        rw [hdata, append_assoc]
  | DONE => exact absurd hstate h.state

end TCPConnection

/-! ### What is still to come -/

namespace TCPSession

/-- The questions that are still to be read when `future` is what the client has yet to send. -/
def left (types : TypeMap) (s : TCPSession) (future : Octets) : List Octets :=
  if s.watched then questionsOf types (s.conn.begun ++ (s.pending ++ future))
  else if s.resolving then questionsOf types (s.pending ++ future)
  else []

/-- What holds between two events. -/
structure Running (s : TCPSession) : Prop where
  waiting : s.watched = true → s.conn.Waiting
  apart : s.watched = true → s.resolving = false
  inside : s.overrun = false
  isOver : s.cut = true → s.watched = false ∧ s.resolving = false

/-- `s'` has read what `s` was still to read, or the connection was cut. -/
structure Follows (types : TypeMap) (s : TCPSession) (future : Octets) (s' : TCPSession) (future' : Octets) :
    Prop where
  before : s'.questions ++ s'.left types future' <+: s.questions ++ s.left types future
  same : s'.cut = false → s'.questions ++ s'.left types future' = s.questions ++ s.left types future
  cut : s.cut = true → s'.cut = true

variable {types : TypeMap} {s : TCPSession} {future : Octets}

theorem Follows.of_eq {s' : TCPSession} {future' : Octets} (hcut : s'.cut = s.cut)
    (h : s'.questions ++ s'.left types future' = s.questions ++ s.left types future) :
    Follows types s future s' future' where
  before := h ▸ prefix_rfl
  same _ := h
  cut hs := hcut.trans hs

theorem Follows.refl (s : TCPSession) (future : Octets) : Follows types s future s future :=
  .of_eq rfl rfl

theorem Follows.trans {s' s'' : TCPSession} {future' future'' : Octets} (h : Follows types s future s' future')
    (h' : Follows types s' future' s'' future'') : Follows types s future s'' future'' where
  before := h'.before.trans h.before
  same hcut := by
    have hmid : s'.cut = false := by
      by_contra hne
      rw [Bool.not_eq_false] at hne
      rw [h'.cut hne] at hcut
      cases hcut
    exact (h'.same hcut).trans (h.same hmid)
  cut hs := h'.cut (h.cut hs)

/-- A connection that ends gives no more questions. -/
theorem left_ended (hwatched : s.watched = false) (hresolving : s.resolving = false) :
    s.left types future = [] := by
  rw [left, hwatched, hresolving]
  rfl

/-- A call of the handler. -/
theorem read_follows (h : s.Running) (hwatched : s.watched = true) (most : Nat)
    (hfuture : s.pending = [] → future = []) :
    (s.read types most).Running ∧ Follows types s future (s.read types most) future := by
  have hwaiting := h.waiting hwatched
  have hinside : (s.overrun || decide ¬s.conn.InBounds) = false := by
    rw [h.inside, decide_eq_false (not_not.mpr hwaiting.inBounds)]
    rfl
  have hcut : s.cut = false := by
    by_contra hne
    rw [Bool.not_eq_false] at hne
    rw [(h.isOver hne).1] at hwatched
    cases hwatched
  have hleft : s.left types future = questionsOf types (s.conn.begun ++ (s.pending ++ future)) := by
    rw [left, if_pos hwatched]
  have hsplit : s.pending.take (min s.conn.request.2 (most + 1)) ++
      s.pending.drop (s.pending.take (min s.conn.request.2 (most + 1))).length = s.pending :=
    prefix_iff_eq_append.mp ( take_prefix _ _)
  unfold read
  set got := s.pending.take (min s.conn.request.2 (most + 1)) with hgot
  dsimp only
  by_cases hnil : got = []
  · -- the end of the stream, or an empty question
    rw [hnil, TCPConnection.handled_nil hwaiting]
    have hnone : s.left types future = [] := by
      rw [hleft]
      rcases take_eq_nil_iff.mp (hgot.symm.trans hnil) with hzero | hpending
      · have hrequest : s.conn.request.2 = 0 := by omega
        exact hwaiting.questionsOf_empty hrequest _
      · rw [hpending, hfuture hpending, append_nil]
        rw [append_nil]
        exact hwaiting.questionsOf_begun
    refine ⟨⟨fun he => (by cases he), fun he => (by cases he), hinside, fun he => ?_⟩, .of_eq rfl ?_⟩
    · rw [hcut] at he
      cases he
    · rw [hnone]
      exact congrArg (s.questions ++ ·) (left_ended rfl (h.apart hwatched))
  · have hlen : got.length ≤ s.conn.request.2 := by
      rw [hgot, length_take]
      omega
    rcases TCPConnection.handled_cases hwaiting hnil hlen with
      ⟨conn', hhandled, hwaiting', hbegun⟩ | ⟨conn', question, hhandled, hne, hlength, hbegun⟩
    · rw [hhandled]
      refine ⟨⟨fun _ => hwaiting', h.apart, hinside, fun he => ?_⟩, .of_eq rfl ?_⟩
      · rw [hcut] at he
        cases he
      · rw [hleft, left, if_pos hwatched]
        have hpending : got ++ (s.pending.drop got.length ++ future) = s.pending ++ future := by
          rw [← append_assoc, hsplit]
        rw [hbegun, append_assoc, hpending]
    · rw [hhandled]
      dsimp only
      refine ⟨⟨fun he => (by cases he), fun he => (by cases he), hinside, fun he => ?_⟩, .of_eq rfl ?_⟩
      · rw [hcut] at he
        cases he
      · have hwhole : s.left types future = question ::
            if malformed types question then [] else questionsOf types (s.pending.drop got.length ++ future) := by
          have hstream : s.conn.begun ++ (s.pending ++ future) =
              lengthOctets question.length ++ (question ++ (s.pending.drop got.length ++ future)) := by
            calc s.conn.begun ++ (s.pending ++ future)
                = s.conn.begun ++ (got ++ s.pending.drop got.length ++ future) := by rw [hsplit]
              _ = s.conn.begun ++ got ++ (s.pending.drop got.length ++ future) := by
                  simp only [append_assoc]
              _ = lengthOctets question.length ++ (question ++ (s.pending.drop got.length ++ future)) := by
                  rw [hbegun, append_assoc]
          rw [hleft, hstream]
          exact questionsOf_question hne hlength _
        rw [hwhole, left]
        cases malformed types question <;> simp

/-- **One event.** The questions that were read and those still to be read stay the same. -/
theorem step_follows (h : s.Running) (e : TCPEvent) (events : List TCPEvent)
    (hclosed : s.eof = true → future = []) (hopen : s.eof = false → future = streamOf (e :: events)) :
    ∃ future', (s.step types e).Running ∧ Follows types s future (s.step types e) future' ∧
      ((s.step types e).eof = true → future' = []) ∧ ((s.step types e).eof = false → future' = streamOf events) := by
  cases e with
  | segment octets =>
    cases heof : s.eof with
    | true =>
      have hstep : s.step types (.segment octets) = s := if_pos heof
      rw [hstep]
      refine ⟨future, h, .refl s future, fun _ => hclosed heof, fun he => ?_⟩
      exact absurd (he.symm.trans heof) Bool.false_ne_true
    | false =>
      have hstep : s.step types (.segment octets) = { s with pending := s.pending ++ octets } :=
        if_neg (Bool.eq_false_iff.mp heof)
      rw [hstep]
      refine ⟨streamOf events, ⟨h.waiting, h.apart, h.inside, h.isOver⟩, .of_eq rfl ?_, fun he => ?_, fun _ => rfl⟩
      · rw [hopen heof, streamOf]
        unfold left
        simp only [append_assoc]
      · exact absurd (heof.symm.trans he) Bool.false_ne_true
  | close =>
    refine ⟨[], ⟨h.waiting, h.apart, h.inside, h.isOver⟩, .of_eq rfl ?_, fun _ => rfl, fun he => (by cases he)⟩
    cases heof : s.eof with
    | true =>
      rw [hclosed heof]
      rfl
    | false =>
      rw [hopen heof]
      rfl
  | readable most =>
    simp only [step]
    split
    next hready =>
      have hfuture : s.pending = [] → future = [] := fun hnil =>
        hclosed (hready.2.resolve_left (not_not.mpr hnil))
      have heof : (s.read types most).eof = s.eof := by
        unfold read
        dsimp only
        split <;> rfl
      obtain ⟨hrunning, hfollows⟩ := @read_follows types s future h hready.1 most hfuture
      refine ⟨future, hrunning, hfollows, fun he => hclosed (heof ▸ he), fun he => ?_⟩
      exact hopen (heof ▸ he)
    next => exact ⟨future, h, .refl s future, hclosed, hopen⟩
  | answered ok =>
    simp only [step]
    split
    next hresolving =>
      have hwatched : s.watched = false := by
        by_contra hne
        rw [h.apart (Bool.not_eq_false _ ▸ hne)] at hresolving
        cases hresolving
      have hleft : s.left types future = questionsOf types (s.pending ++ future) := by
        rw [left, hwatched, hresolving]
        rfl
      have hcut : s.cut = false := by
        by_contra hne
        rw [Bool.not_eq_false] at hne
        rw [(h.isOver hne).2] at hresolving
        cases hresolving
      cases ok with
      | true =>
        refine ⟨future, ⟨fun _ => ⟨by simp, by simp, by simp, by simp⟩, fun _ => rfl, h.inside, fun he => ?_⟩,
          .of_eq rfl ?_, hclosed, hopen⟩
        · exact absurd (hcut.symm.trans he) Bool.false_ne_true
        · rw [hleft]
          rfl
      | false =>
        refine ⟨future, ⟨h.waiting, fun _ => rfl, h.inside, fun _ => ⟨hwatched, rfl⟩⟩,
          ⟨?_, fun he => ?_, fun _ => rfl⟩, hclosed, hopen⟩
        · have hended := @left_ended types { s with resolving := false, cut := true } future hwatched rfl
          show s.questions ++ left types { s with resolving := false, cut := true } future <+: _
          rw [hended, append_nil]
          exact prefix_append _ _
        · cases he
    next => exact ⟨future, h, .refl s future, hclosed, hopen⟩
  | dropped =>
    simp only [step]
    split
    next hwatched =>
      have hended : s.resolving = false := h.apart hwatched
      refine ⟨future, ⟨fun he => (by cases he), fun he => (by cases he), h.inside, fun _ => ⟨rfl, hended⟩⟩,
        ⟨?_, fun he => ?_, fun _ => rfl⟩, hclosed, hopen⟩
      · have hleft := @left_ended types { s with watched := false, cut := true } future rfl hended
        rw [hleft, append_nil]
        exact prefix_append _ _
      · cases he
    next => exact ⟨future, h, .refl s future, hclosed, hopen⟩

/-- **A run.** -/
theorem run_follows (h : s.Running) (events : List TCPEvent) (hclosed : s.eof = true → future = [])
    (hopen : s.eof = false → future = streamOf events) :
    (run (step types) s events).Running ∧ Follows types s future (run (step types) s events) [] := by
  induction events generalizing s future with
  | nil =>
    have hfuture : future = [] := by
      cases heof : s.eof with
      | true => exact hclosed heof
      | false => exact hopen heof
    rw [hfuture]
    exact ⟨h, .refl s []⟩
  | cons e events ih =>
    obtain ⟨future', hrunning, hfollows, hclosed', hopen'⟩ := @step_follows types s future h e events hclosed hopen
    obtain ⟨hend, hrest⟩ := ih hrunning hclosed' hopen'
    exact ⟨hend, hfollows.trans hrest⟩

/-- A server with nothing left to do has read all there was. -/
theorem left_idle (h : s.Running) (hidle : s.Idle) : s.left types [] = [] := by
  obtain ⟨hresolving, hpending⟩ := hidle
  cases hwatched : s.watched with
  | true =>
    rw [left, if_pos hwatched, hpending hwatched]
    exact (h.waiting hwatched).questionsOf_begun.symm ▸ congrArg _ (append_nil _)
  | false => exact left_ended hwatched hresolving

theorem read_cut (s : TCPSession) (most : Nat) : (s.read types most).cut = s.cut := by
  unfold read
  dsimp only
  split <;> rfl

theorem read_pending (s : TCPSession) (most : Nat) : (s.read types most).pending =
    s.pending.drop (s.pending.take (min s.conn.request.2 (most + 1))).length := by
  unfold read
  dsimp only
  split <;> rfl

/-- A call of the handler ends the connection or reads something. -/
theorem read_progress (h : s.Running) (hwatched : s.watched = true) (hpending : s.pending ≠ []) (most : Nat) :
    (s.read types most).Idle ∨ (s.read types most).pending.length < s.pending.length := by
  rw [read_pending]
  by_cases hnil : s.pending.take (min s.conn.request.2 (most + 1)) = []
  · left
    unfold read
    dsimp only
    rw [hnil, TCPConnection.handled_nil (h.waiting hwatched)]
    exact ⟨h.apart hwatched, fun he => (by cases he)⟩
  · right
    have hgot := length_pos_iff.mpr hnil
    have hpos := length_pos_iff.mpr hpending
    rw [length_drop]
    omega

/-- What the server does by itself. -/
def Serves (events : List TCPEvent) : Prop :=
  ∀ e ∈ events, e = .answered true ∨ ∃ most, e = .readable most

/-- The server comes to an end with what has arrived. -/
theorem exists_idle (h : s.Running) :
    ∃ more, Serves more ∧ (run (step types) s more).Idle ∧ (run (step types) s more).cut = s.cut := by
  induction hn : 2 * s.pending.length + s.resolving.toNat using Nat.strong_induction_on generalizing s with
  | _ n ih =>
    cases hresolving : s.resolving with
    | true =>
      obtain ⟨future, hnext, -⟩ := @step_follows types s [] h (.answered true) [] (fun _ => rfl) fun _ => rfl
      have hstep : s.step types (.answered true) =
          { s with conn := { s.conn with state := .BYTE0 }, watched := true, resolving := false } := by
        simp only [step]
        rw [if_pos hresolving, if_pos trivial]
      have hless : 2 * (s.step types (.answered true)).pending.length +
          (s.step types (.answered true)).resolving.toNat < n := by
        rw [hresolving] at hn
        rw [hstep, ← hn]
        exact Nat.lt_succ_self _
      obtain ⟨more, hserves, hidle, hcut⟩ := ih _ hless hnext rfl
      refine ⟨.answered true :: more, forall_mem_cons.mpr ⟨.inl rfl, hserves⟩, hidle, hcut.trans ?_⟩
      rw [hstep]
    | false =>
      by_cases hdone : s.Idle
      · exact ⟨[], forall_mem_nil _, hdone, rfl⟩
      · have hready : s.watched = true ∧ s.pending ≠ [] := by
          by_contra hnot
          exact hdone ⟨hresolving, fun hw => not_not.mp fun hp => hnot ⟨hw, hp⟩⟩
        have hstep : s.step types (.readable 0) = s.read types 0 := by
          exact if_pos ⟨hready.1, .inl hready.2⟩
        have hnext : (s.read types 0).Running :=
          (@read_follows types s [] h hready.1 0 fun _ => rfl).1
        rcases @read_progress types s h hready.1 hready.2 0 with hidle | hless
        · refine ⟨[.readable 0], forall_mem_singleton.mpr (.inr ⟨0, rfl⟩), ?_, ?_⟩
          · rw [run_cons, hstep]
            exact hidle
          · rw [run_cons, hstep]
            exact read_cut s 0
        · have hmeasure : 2 * (s.read types 0).pending.length + (s.read types 0).resolving.toNat < n := by
            have hbit := Bool.toNat_le (s.read types 0).resolving
            omega
          obtain ⟨more, hserves, hidle, hcut⟩ := ih _ hmeasure hnext rfl
          refine ⟨.readable 0 :: more, forall_mem_cons.mpr ⟨.inr ⟨0, rfl⟩, hserves⟩, ?_, ?_⟩
          · rw [run_cons, hstep]
            exact hidle
          · rw [run_cons, hstep]
            exact hcut.trans (read_cut s 0)

theorem running_accepted (data : Nat → UInt8) : (accepted data).Running where
  waiting _ := ⟨by simp [accepted], by simp [accepted], by simp [accepted], by simp [accepted]⟩
  apart _ := rfl
  inside := rfl
  isOver he := by cases he

end TCPSession

end PowerDNS
