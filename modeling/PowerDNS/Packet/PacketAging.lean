import PowerDNS.Lib.ThrowingState
import PowerDNS.Packet.RecordFraming

/-!
# Ageing a packet in place: `ageDNSPacket`

`ageDNSPacket` walks through a packet with a reader of its own, `DNSPacketMangler`, and takes
the age from the TTL of every record until it meets an OPT record. It never looks at what a name
or the rdata says: names are skipped label by label, rdata by its length. Whatever throws on the
way ends the walk, and what was changed before stays changed.

* `ageDNSPacket_never_outside` — no packet makes the walk touch an octet outside of it;
* `ageDNSPacket_layout` — a packet that consists of the header, one question and frames comes
  back with the TTLs of the records before the first OPT record decreased, and nothing else
  changed.
-/

namespace PowerDNS

open ThrowingState CompressedName List UInt8 UInt16 UInt32

/-! ### The mangler -/

/-- `DNSPacketMangler`. -/
structure DNSPacketMangler where
  d_packet : Octets
  d_offset : Nat := 12
  deriving DecidableEq

/-- How a call of the mangler can fail. -/
inductive MangleError
  /-- `range_error`, which `moveOffset` throws. -/
  | rangeError
  /-- An access to memory outside the packet. -/
  | outside
  /-- The model ran out of steps. -/
  | fuel
  deriving DecidableEq

/-- A method of the mangler. -/
abbrev MangleM := Prog DNSPacketMangler MangleError

namespace DNSPacketMangler

/-- `moveOffset(by)`. -/
def moveOffset (n : UInt16) : MangleM Unit where
  run s :=
    if s.d_packet.length < s.d_offset + n.toNat then
      (.error .rangeError, { s with d_offset := s.d_offset + n.toNat })
    else (.ok (), { s with d_offset := s.d_offset + n.toNat })

/-- Reads `n` octets through a pointer to the octet at `p`. -/
def readAt (p n : Nat) : MangleM Octets where
  run s :=
    if p + n ≤ s.d_packet.length then (.ok ((s.d_packet.drop p).take n), s)
    else (.error .outside, s)

/-- `d_packet.replace(p, n, octets, n)`, where `n` is the number of these octets. -/
def replaceAt (p : Nat) (octets : Octets) : MangleM Unit where
  run s :=
    if p + octets.length ≤ s.d_packet.length then
      (.ok (), { s with
        d_packet := s.d_packet.take p ++ (octets ++ s.d_packet.drop (p + octets.length)) })
    else (.error .outside, s)

/-- Moves over `n` octets and reads them through the pointer from before the move, as all the
getters do. -/
def getOctets (n : UInt16) : MangleM Octets := do
  let p ← Prog.look d_offset
  moveOffset n
  readAt p n.toNat

/-- `get8BitInt()`. -/
def get8BitInt : MangleM UInt8 := do
  let octets ← getOctets 1
  pure (UInt8.ofNat (beNat octets))

/-- `get16BitInt()`. -/
def get16BitInt : MangleM UInt16 := do
  let octets ← getOctets 2
  pure (UInt16.ofNat (beNat octets))

/-- `skipBytes(bytes)`. -/
def skipBytes (bytes : UInt16) : MangleM Unit := moveOffset bytes

/-- The loop of `skipLabel`; every label takes a unit of fuel. -/
def skipLabelFrom : Nat → MangleM Unit
  | 0 => Prog.raise .fuel
  | fuel + 1 => do
    let len ← get8BitInt
    if len = 0 then pure ()
    -- extended label
    else if 0xc0 ≤ len then do
      let _ ← get8BitInt
      pure ()
    else do
      skipBytes len.toUInt16
      skipLabelFrom fuel

/-- `skipLabel()`. Every turn of its loop needs an octet of the packet. -/
def skipLabel : MangleM Unit := do
  let left ← Prog.look fun s => s.d_packet.length - s.d_offset
  skipLabelFrom (left + 1)

/-- `skipRData()`. -/
def skipRData : MangleM Unit := do
  let toskip ← get16BitInt
  moveOffset toskip

/-- `decreaseAndSkip32BitInt(decrease)`. -/
def decreaseAndSkip32BitInt (decrease : UInt32) : MangleM Unit := do
  let octets ← getOctets 4
  let tmp := UInt32.ofNat (beNat octets) - decrease
  let d_offset ← Prog.look d_offset
  replaceAt (d_offset - 4) (be32 tmp)

end DNSPacketMangler

open DNSPacketMangler

/-- The loop of `ageDNSPacket` over the questions. -/
def skipQuestions : Nat → MangleM Unit
  | 0 => pure ()
  | n + 1 => do
    skipLabel
    -- qtype, qclass
    skipBytes 4
    skipQuestions n

/-- The loop of `ageDNSPacket` over the records. -/
def ageRecords (seconds : UInt32) : Nat → MangleM Unit
  | 0 => pure ()
  | n + 1 => do
    skipLabel
    let dnstype ← get16BitInt
    let _dnsclass ← get16BitInt
    -- not aging that one with a stick
    if dnstype = QType.OPT then pure ()
    else do
      decreaseAndSkip32BitInt seconds
      skipRData
      ageRecords seconds n

/-- A 16 bit number of the packet header. -/
def headerInt (off : Nat) : MangleM Nat := do
  let octets ← readAt off 2
  pure (beNat octets)

/-- What `ageDNSPacket` tries. -/
def agePacket (seconds : UInt32) : MangleM Unit := do
  let ancount ← headerInt 6
  let nscount ← headerInt 8
  let arcount ← headerInt 10
  let qdcount ← headerInt 4
  skipQuestions qdcount
  ageRecords seconds (ancount + nscount + arcount)

/-- `ageDNSPacket(packet, seconds)`. -/
def ageDNSPacket (packet : Octets) (seconds : UInt32) : Octets :=
  if packet.length < 12 then packet
  else ((agePacket seconds).run { d_packet := packet }).2.d_packet

/-! ### No access outside the packet -/

/-- The length of the packet is `n`, and the offset is in it, at `p` or behind it. -/
def OffsetWithin (n p : Nat) (s : DNSPacketMangler) : Prop :=
  s.d_packet.length = n ∧ p ≤ s.d_offset ∧ s.d_offset ≤ n

/-- The only failure is the exception. -/
def OnlyRange (e : MangleError) : Prop := e = .rangeError

/-- Moving fails with the exception or goes to an offset inside the packet. -/
theorem moveOffset_cases (k : UInt16) (s : DNSPacketMangler) :
    (s.d_offset + k.toNat ≤ s.d_packet.length ∧
      (moveOffset k).run s = (.ok (), { s with d_offset := s.d_offset + k.toNat })) ∨
    ∃ s', (moveOffset k).run s = (.error .rangeError, s') := by
  unfold moveOffset
  dsimp only
  split
  next => exact .inr ⟨_, rfl⟩
  next h => exact .inl ⟨not_lt.mp h, rfl⟩

theorem readAt_ok {p k : Nat} {s : DNSPacketMangler} (h : p + k ≤ s.d_packet.length) :
    (readAt p k).run s = (.ok ((s.d_packet.drop p).take k), s) :=
  if_pos h

/-- What was moved over is in the packet, so it can be read. -/
theorem getOctets_cases (k : UInt16) (s : DNSPacketMangler) :
    (s.d_offset + k.toNat ≤ s.d_packet.length ∧
      (getOctets k).run s = (.ok ((s.d_packet.drop s.d_offset).take k.toNat),
        { s with d_offset := s.d_offset + k.toNat })) ∨
    ∃ s', (getOctets k).run s = (.error .rangeError, s') := by
  unfold getOctets
  rw [Prog.run_look_bind]
  rcases moveOffset_cases k s with ⟨hle, hmove⟩ | ⟨s', hmove⟩
  · refine .inl ⟨hle, ?_⟩
    rw [Prog.run_bind_ok hmove]
    exact readAt_ok hle
  · exact .inr ⟨s', Prog.run_bind_error hmove⟩

section Safe

variable {n p : Nat}

theorem OffsetWithin.mono {p' : Nat} (h : p' ≤ p) (s : DNSPacketMangler) (hs : OffsetWithin n p s) :
    OffsetWithin n p' s :=
  ⟨hs.1, h.trans hs.2.1, hs.2.2⟩

theorem yields_moveOffset (k : UInt16) : Yields (OffsetWithin n p) (OffsetWithin n p) OnlyRange (moveOffset k) := by
  rintro s ⟨hlen, hle, -⟩
  rcases moveOffset_cases k s with ⟨h, hrun⟩ | ⟨s', hrun⟩
  · exact .inl ⟨_, _, hrun, hlen, Nat.le_add_right_of_le hle, hlen ▸ h⟩
  · exact .inr ⟨_, _, hrun, rfl⟩

theorem yields_getOctets (k : UInt16) :
    Yields (OffsetWithin n p) (OffsetWithin n (p + k.toNat)) OnlyRange (getOctets k) := by
  rintro s ⟨hlen, hle, -⟩
  rcases getOctets_cases k s with ⟨h, hrun⟩ | ⟨s', hrun⟩
  · exact .inl ⟨_, _, hrun, hlen, Nat.add_le_add_right hle _, hlen ▸ h⟩
  · exact .inr ⟨_, _, hrun, rfl⟩

theorem yields_get8BitInt : Yields (OffsetWithin n p) (OffsetWithin n (p + 1)) OnlyRange get8BitInt :=
  (yields_getOctets 1).bind fun _ => Yields.pure _

theorem yields_get16BitInt : Yields (OffsetWithin n p) (OffsetWithin n (p + 2)) OnlyRange get16BitInt :=
  (yields_getOctets 2).bind fun _ => Yields.pure _

/-- The TTL that is replaced is the one that was moved over. -/
theorem yields_decreaseAndSkip32BitInt (decrease : UInt32) :
    Yields (OffsetWithin n p) (OffsetWithin n p) OnlyRange (decreaseAndSkip32BitInt decrease) := by
  rintro s ⟨hlen, hle, -⟩
  unfold decreaseAndSkip32BitInt
  rcases getOctets_cases 4 s with ⟨h, hrun⟩ | ⟨s', hrun⟩
  · have hfour : s.d_offset + 4 ≤ s.d_packet.length := h
    rw [Prog.run_bind_ok hrun, Prog.run_look_bind]
    refine .inl ⟨(), _, if_pos (by exact hfour), ?_, Nat.le_add_right_of_le hle, hlen ▸ hfour⟩
    simp only [length_append, length_take, length_drop, be32, length_cons,
      length_nil, UInt16.reduceToNat]
    omega
  · exact .inr ⟨_, _, Prog.run_bind_error hrun, rfl⟩

/-- The loop ends before its fuel does: every turn moves over an octet. -/
theorem yields_skipLabelFrom {fuel : Nat} (hfuel : n < p + fuel) :
    Yields (OffsetWithin n p) (OffsetWithin n p) OnlyRange (skipLabelFrom fuel) := by
  induction fuel generalizing p with
  | zero => exact Yields.of_false fun s ⟨_, hle, hend⟩ => absurd (hle.trans hend) (by omega)
  | succ fuel ih =>
    have hback : ∀ s, OffsetWithin n (p + 1) s → OffsetWithin n p s := OffsetWithin.mono (Nat.le_succ p)
    refine yields_get8BitInt.bind fun len => ?_
    split
    · exact (Yields.pure ()).mono (fun _ h => h) hback
    · split
      · -- the second octet of a pointer
        refine yields_get8BitInt.bind fun _ => ?_
        exact (Yields.pure ()).mono (fun _ h => h) (OffsetWithin.mono (Nat.le_add_right p 2))
      · refine (yields_moveOffset _).bind fun _ => ?_
        exact (ih (by omega)).mono (fun _ h => h) hback

theorem yields_skipLabel : Yields (OffsetWithin n p) (OffsetWithin n p) OnlyRange skipLabel := by
  rintro s ⟨hlen, hle, hend⟩
  -- the fuel is what the place of the mangler needs
  have hrun := yields_skipLabelFrom (show n < s.d_offset + (s.d_packet.length - s.d_offset + 1) by omega)
    s ⟨hlen, le_rfl, hend⟩
  exact hrun.imp_left fun ⟨a, s', h, h'⟩ => ⟨a, s', h, OffsetWithin.mono hle s' h'⟩

theorem yields_skipRData : Yields (OffsetWithin n p) (OffsetWithin n p) OnlyRange skipRData :=
  (yields_get16BitInt.bind fun toskip => yields_moveOffset toskip).mono (fun _ h => h)
    (OffsetWithin.mono (Nat.le_add_right p 2))

theorem yields_skipQuestions (k : Nat) :
    Yields (OffsetWithin n p) (OffsetWithin n p) OnlyRange (skipQuestions k) := by
  induction k with
  | zero => exact Yields.pure ()
  | succ k ih => exact yields_skipLabel.bind fun _ => (yields_moveOffset 4).bind fun _ => ih

theorem yields_ageRecords (seconds : UInt32) (k : Nat) :
    Yields (OffsetWithin n p) (OffsetWithin n p) OnlyRange (ageRecords seconds k) := by
  induction k with
  | zero => exact Yields.pure ()
  | succ k ih =>
    have htype : Yields (OffsetWithin n p) (OffsetWithin n p) OnlyRange get16BitInt :=
      yields_get16BitInt.mono (fun _ h => h) (OffsetWithin.mono (Nat.le_add_right p 2))
    refine yields_skipLabel.bind fun _ => htype.bind fun dnstype => htype.bind fun _ => ?_
    split
    · exact Yields.pure ()
    · exact (yields_decreaseAndSkip32BitInt seconds).bind fun _ => yields_skipRData.bind fun _ => ih

/-- The header is in the packet. -/
theorem yields_headerInt {off : Nat} (h : off + 2 ≤ n) :
    Yields (OffsetWithin n p) (OffsetWithin n p) OnlyRange (headerInt off) := by
  intro s hs
  unfold headerInt
  rw [Prog.run_bind_ok (readAt_ok (show off + 2 ≤ s.d_packet.length from hs.1 ▸ h))]
  exact .inl ⟨_, _, rfl, hs⟩

end Safe

/-- **No access outside the packet.** Whatever the packet is, the walk ends or throws its own
exception. -/
theorem ageDNSPacket_never_outside {packet : Octets} (h : ¬packet.length < 12) (seconds : UInt32)
    {e : MangleError} (herror : ((agePacket seconds).run { d_packet := packet }).1 = .error e) :
    e = .rangeError := by
  have hyields : Yields (OffsetWithin packet.length 12) (OffsetWithin packet.length 12) OnlyRange
      (agePacket seconds) :=
    (yields_headerInt (by omega)).bind fun ancount => (yields_headerInt (by omega)).bind
      fun nscount => (yields_headerInt (by omega)).bind fun arcount =>
        (yields_headerInt (by omega)).bind fun qdcount =>
          (yields_skipQuestions qdcount).bind fun _ => yields_ageRecords seconds _
  exact hyields.error_of_run (show OffsetWithin packet.length 12 { d_packet := packet } from
    ⟨rfl, le_rfl, not_lt.mp h⟩) herror

/-! ### A packet that is laid out in records -/

/-- Octets that `skipLabel` takes for a whole name: labels, and the root or a pointer. -/
inductive NameOctets : Octets → Prop
  | root : NameOctets [0]
  | pointer {hi lo : UInt8} (h : 0xc0 ≤ hi) : NameOctets [hi, lo]
  | label {l rest : Octets} (hl : IsLabel l) (hrest : NameOctets rest) :
    NameOctets (UInt8.ofNat l.length :: (l ++ rest))

/-- The records with `age` taken from the TTL of those before the first OPT record. -/
def agedRecords (age : UInt32) : List StartedRecord → List StartedRecord
  | [] => []
  | r :: rs =>
    if r.qtype = QType.OPT then r :: rs else { r with ttl := r.ttl - age } :: agedRecords age rs

/-- The mangler behind the octets `pre` of a packet. -/
def behind (pre post : Octets) : DNSPacketMangler where
  d_packet := pre ++ post
  d_offset := pre.length

theorem beNat_be16 (v : UInt16) : beNat (be16 v) = v.toNat := by
  change 256 * (256 * 0 + _) + _ = _
  rw [Nat.mul_zero, Nat.zero_add]
  exact be16_toNat v

theorem beNat_be32 (v : UInt32) : beNat (be32 v) = v.toNat := by
  have hlt := v.toNat_lt
  change 256 * (256 * (256 * (256 * 0 + (v >>> 24).toUInt8.toNat) + (v >>> 16).toUInt8.toNat) +
    (v >>> 8).toUInt8.toNat) + v.toUInt8.toNat = _
  simp only [UInt32.toNat_toUInt8, UInt32.toNat_shiftRight, Nat.shiftRight_eq_div_pow,
    UInt32.reduceToNat, Nat.reduceMod, Nat.reducePow]
  omega

theorem beNat_concat (s : Octets) (c : UInt8) : beNat (s ++ [c]) = 256 * beNat s + c.toNat := by
  unfold beNat
  rw [foldl_append]
  rfl

theorem beNat_lt (s : Octets) : beNat s < 256 ^ s.length := by
  induction s using List.reverseRecOn with
  | nil => decide
  | append_singleton s c ih =>
    have hlt := c.toNat_lt
    rw [beNat_concat, length_append, length_singleton, Nat.pow_succ]
    omega

/-- As many octets for the same number are the same. -/
theorem beNat_injective {a b : Octets} (hlength : a.length = b.length) (h : beNat a = beNat b) : a = b := by
  induction a using List.reverseRecOn generalizing b with
  | nil => exact (eq_nil_of_length_eq_zero hlength.symm).symm
  | append_singleton a c ih =>
    obtain rfl | ⟨b, d, rfl⟩ := eq_nil_or_concat' b
    · rw [length_append, length_singleton] at hlength
      cases hlength
    · rw [length_append, length_append, length_singleton, length_singleton] at hlength
      have hc := c.toNat_lt
      have hd := d.toNat_lt
      rw [beNat_concat, beNat_concat] at h
      obtain rfl := ih (Nat.add_right_cancel hlength) (by omega)
      rw [UInt8.toNat_inj.mp (show c.toNat = d.toNat by omega)]

/-- A number that was read is written as it was. -/
theorem be8_read {raw : Octets} (h : raw.length = 1) : [UInt8.ofNat (beNat raw)] = raw := by
  have hlt := beNat_lt raw
  rw [h, Nat.pow_one] at hlt
  refine beNat_injective h.symm ?_
  change 256 * 0 + (UInt8.ofNat (beNat raw)).toNat = _
  rw [UInt8.toNat_ofNat', Nat.mod_eq_of_lt hlt, Nat.mul_zero, Nat.zero_add]

theorem be16_read {raw : Octets} (h : raw.length = 2) : be16 (UInt16.ofNat (beNat raw)) = raw := by
  have hlt : beNat raw < 2 ^ 16 := (beNat_lt raw).trans_le (by rw [h]; decide)
  refine beNat_injective h.symm ?_
  rw [beNat_be16, UInt16.toNat_ofNat', Nat.mod_eq_of_lt hlt]

theorem be32_read {raw : Octets} (h : raw.length = 4) : be32 (UInt32.ofNat (beNat raw)) = raw := by
  have hlt : beNat raw < 2 ^ 32 := (beNat_lt raw).trans_le (by rw [h]; decide)
  refine beNat_injective h.symm ?_
  rw [beNat_be32, UInt32.toNat_ofNat', Nat.mod_eq_of_lt hlt]

section Walk

variable (pre post : Octets)

theorem run_moveOffset {octets : Octets} {k : UInt16} (h : octets.length = k.toNat) :
    (moveOffset k).run (behind pre (octets ++ post)) =
      (.ok (), behind (pre ++ octets) post) := by
  have hle : ¬(pre ++ (octets ++ post)).length < pre.length + k.toNat := by
    simp only [length_append]
    omega
  unfold behind
  refine (if_neg hle).trans ?_
  rw [← h, append_assoc, length_append]

theorem run_getOctets {octets : Octets} {k : UInt16} (h : octets.length = k.toNat) :
    (getOctets k).run (behind pre (octets ++ post)) =
      (.ok octets, behind (pre ++ octets) post) := by
  unfold getOctets
  rw [Prog.run_look_bind, Prog.run_bind_ok (run_moveOffset pre post h), readAt_ok]
  · unfold behind
    simp [← h]
  · unfold behind
    simp only [length_append]
    omega

theorem run_get8BitInt (c : UInt8) :
    get8BitInt.run (behind pre (c :: post)) = (.ok c, behind (pre ++ [c]) post) := by
  unfold get8BitInt
  rw [show c :: post = [c] ++ post from rfl, Prog.run_bind_ok (@run_getOctets pre post [c] 1 rfl)]
  simp [beNat]

theorem run_get16BitInt (v : UInt16) :
    get16BitInt.run (behind pre (be16 v ++ post)) = (.ok v, behind (pre ++ be16 v) post) := by
  unfold get16BitInt
  rw [Prog.run_bind_ok (@run_getOctets pre post (be16 v) 2 rfl)]
  simp [beNat_be16]

theorem run_decreaseAndSkip32BitInt (ttl decrease : UInt32) :
    (decreaseAndSkip32BitInt decrease).run (behind pre (be32 ttl ++ post)) =
      (.ok (), behind (pre ++ be32 (ttl - decrease)) post) := by
  have hend : (pre ++ be32 ttl).length - 4 = pre.length := by
    rw [length_append]
    exact Nat.add_sub_cancel ..
  unfold decreaseAndSkip32BitInt
  rw [Prog.run_bind_ok (@run_getOctets pre post (be32 ttl) 4 rfl), Prog.run_look_bind, beNat_be32,
    UInt32.ofNat_toNat]
  refine (if_pos ?_).trans ?_
  · change (pre ++ be32 ttl).length - 4 + 4 ≤ (pre ++ be32 ttl ++ post).length
    simp only [length_append]
    exact Nat.le_add_right ..
  · refine congrArg (Prod.mk _) ?_
    unfold behind
    dsimp only
    rw [hend]
    have hdrop : (pre ++ be32 ttl ++ post).drop (pre.length + (be32 (ttl - decrease)).length) = post :=
      drop_left' (length_append ..)
    have htake : (pre ++ be32 ttl ++ post).take pre.length = pre := by
      rw [append_assoc]
      exact take_left
    rw [hdrop, htake, append_assoc, length_append, length_append]
    rfl

theorem run_skipRData {rdata : Octets} (h : rdata.length < 65536) :
    skipRData.run (behind pre (be16 (UInt16.ofNat rdata.length) ++ (rdata ++ post))) =
      (.ok (), behind (pre ++ (be16 (UInt16.ofNat rdata.length) ++ rdata)) post) := by
  unfold skipRData
  rw [Prog.run_bind_ok (run_get16BitInt pre _ _), run_moveOffset, append_assoc]
  rw [UInt16.toNat_ofNat', Nat.mod_eq_of_lt h]

/-- Enough fuel for the labels of a name takes `skipLabel` to its end. -/
theorem run_skipLabelFrom {name : Octets} (hname : NameOctets name) {fuel : Nat}
    (hfuel : name.length < fuel) :
    (skipLabelFrom fuel).run (behind pre (name ++ post)) = (.ok (), behind (pre ++ name) post) := by
  induction hname generalizing pre fuel with
  | root =>
    obtain ⟨fuel, rfl⟩ := Nat.exists_eq_add_of_lt hfuel
    exact Prog.run_bind_ok (run_get8BitInt pre post 0)
  | @pointer hi lo h =>
    obtain ⟨fuel, rfl⟩ := Nat.exists_eq_add_of_lt hfuel
    have hzero : hi ≠ 0 := by
      rintro rfl
      exact absurd h (by decide)
    unfold skipLabelFrom
    rw [show [hi, lo] ++ post = hi :: lo :: post from rfl,
      Prog.run_bind_ok (run_get8BitInt pre (lo :: post) hi), if_neg hzero, if_pos h,
      Prog.run_bind_ok (run_get8BitInt (pre ++ [hi]) post lo), append_assoc]
    rfl
  | @label l rest hl hrest ih =>
    obtain ⟨fuel, rfl⟩ := Nat.exists_eq_add_of_lt hfuel
    have hlen : l.length = (UInt8.ofNat l.length).toUInt16.toNat := by
      rw [UInt8.toNat_toUInt16, CompressedName.Decodes.length_toNat hl]
    unfold skipLabelFrom
    rw [cons_append, Prog.run_bind_ok (run_get8BitInt pre _ _),
      if_neg (CompressedName.Decodes.length_ne_zero hl),
      if_neg (CompressedName.Decodes.length_lt_pointer hl), append_assoc]
    unfold skipBytes
    rw [Prog.run_bind_ok (run_moveOffset (pre ++ [UInt8.ofNat l.length]) (rest ++ post) hlen), ih]
    · simp
    · simp only [length_cons, length_append]
      omega

theorem run_skipLabel {name : Octets} (hname : NameOctets name) :
    skipLabel.run (behind pre (name ++ post)) = (.ok (), behind (pre ++ name) post) := by
  unfold skipLabel
  rw [Prog.run_look_bind]
  refine run_skipLabelFrom pre post hname ?_
  unfold behind
  simp only [length_append]
  omega

end Walk

/-- **The walk over the records.** The packet that is left is the one with the aged records. -/
theorem run_ageRecords (seconds : UInt32) (pre : Octets) {rs : List StartedRecord}
    (hnames : ∀ r ∈ rs, NameOctets r.owner) (hrdata : ∀ r ∈ rs, r.rdata.length < 65536) :
    ((ageRecords seconds rs.length).run (behind pre (rs.flatMap StartedRecord.frame))).2.d_packet =
      pre ++ (agedRecords seconds rs).flatMap StartedRecord.frame := by
  induction rs generalizing pre with
  | nil => rfl
  | cons r rs ih =>
    obtain ⟨hname, hnames⟩ := forall_mem_cons.mp hnames
    obtain ⟨hlen, hrdata⟩ := forall_mem_cons.mp hrdata
    have hframe : ∀ (ttl : UInt32) (rest : Octets),
        ({ r with ttl := ttl } : StartedRecord).frame ++ rest = r.owner ++ (be16 r.qtype ++
          (be16 r.qclass ++ (be32 ttl ++ (be16 (UInt16.ofNat r.rdata.length) ++ (r.rdata ++ rest))))) := by
      intro ttl rest
      simp only [StartedRecord.frame, append_assoc]
    rw [flatMap_cons, length_cons, ageRecords, agedRecords, hframe r.ttl,
      Prog.run_bind_ok (run_skipLabel pre _ hname), Prog.run_bind_ok (run_get16BitInt _ _ _),
      Prog.run_bind_ok (run_get16BitInt _ _ _)]
    split
    · -- the walk ends here
      rw [flatMap_cons, hframe r.ttl]
      simp [behind]
    · rw [Prog.run_bind_ok (run_decreaseAndSkip32BitInt _ _ _ _),
        Prog.run_bind_ok (run_skipRData _ _ hlen), ih _ hnames hrdata, flatMap_cons, hframe]
      simp only [append_assoc]

/-- Every record is in one of the three sections. -/
theorem sum_sectionCount (rs : List StartedRecord) :
    sectionCount rs .ANSWER + sectionCount rs .AUTHORITY + sectionCount rs .ADDITIONAL =
      rs.length := by
  induction rs with
  | nil => rfl
  | cons r rs ih =>
    unfold sectionCount at ih ⊢
    simp only [countP_cons, length_cons]
    cases r.place <;> simp <;> omega

/-- A packet in which the caller has set the first four octets of the header: the id, the flags
and the response code. -/
def withHeader (header : Octets) (packet : Octets) : Octets := header ++ packet.drop 4

theorem withHeader_layout (header : Octets) (opcode : UInt8) (question : Octets)
    (rs : List StartedRecord) :
    withHeader header (layout opcode question rs) =
      header ++ (be16 1 ++ (be16 (UInt16.ofNat (sectionCount rs .ANSWER)) ++
        (be16 (UInt16.ofNat (sectionCount rs .AUTHORITY)) ++
          (be16 (UInt16.ofNat (sectionCount rs .ADDITIONAL)) ++
            (question ++ rs.flatMap StartedRecord.frame))))) := by
  rfl

theorem sectionCount_agedRecords (age : UInt32) (rs : List StartedRecord) (place : WriterPlace) :
    sectionCount (agedRecords age rs) place = sectionCount rs place := by
  induction rs with
  | nil => rfl
  | cons r rs ih =>
    unfold agedRecords
    split
    · rfl
    · unfold sectionCount at ih ⊢
      rw [countP_cons, countP_cons, ih]

theorem run_headerInt {pre post : Octets} {off : Nat} (hoff : pre.length = off) (v : UInt16)
    (offset : Nat) :
    (headerInt off).run ⟨pre ++ (be16 v ++ post), offset⟩ =
      (.ok v.toNat, ⟨pre ++ (be16 v ++ post), offset⟩) := by
  unfold headerInt
  rw [Prog.run_bind_ok (readAt_ok _)]
  · rw [← hoff, drop_left, take_left' (show (be16 v).length = 2 from rfl), beNat_be16]
    rfl
  · change off + 2 ≤ (pre ++ (be16 v ++ post)).length
    rw [← hoff, length_append, length_append]
    exact Nat.add_le_add_left (Nat.le_add_right 2 _) _

/-- The header of a packet with one question. -/
def countsHeader (header : Octets) (ancount nscount arcount : UInt16) : Octets :=
  header ++ be16 1 ++ be16 ancount ++ be16 nscount ++ be16 arcount

theorem length_countsHeader {header : Octets} (hheader : header.length = 4)
    (ancount nscount arcount : UInt16) : (countsHeader header ancount nscount arcount).length = 12 := by
  unfold countsHeader
  simp only [length_append, hheader]
  rfl

/-- The walk begins behind the header, with the counts that are in it. -/
theorem run_agePacket {header : Octets} (hheader : header.length = 4)
    (ancount nscount arcount : UInt16) (rest : Octets) (seconds : UInt32) :
    (agePacket seconds).run { d_packet := countsHeader header ancount nscount arcount ++ rest } =
      (skipQuestions 1 >>= fun _ =>
        ageRecords seconds (ancount.toNat + nscount.toNat + arcount.toNat)).run
          (behind (countsHeader header ancount nscount arcount) rest) := by
  have hbehind : behind (countsHeader header ancount nscount arcount) rest =
      { d_packet := countsHeader header ancount nscount arcount ++ rest } := by
    unfold behind
    rw [length_countsHeader hheader]
  generalize hpacket : countsHeader header ancount nscount arcount ++ rest = packet at hbehind ⊢
  unfold countsHeader at hpacket
  -- a count, with what is in front of it and behind it
  have hread : ∀ (pre post : Octets) (off : Nat) (v : UInt16), packet = pre ++ (be16 v ++ post) →
      pre.length = off → (headerInt off).run ⟨packet, 12⟩ = (.ok v.toNat, ⟨packet, 12⟩) := by
    rintro pre post off v rfl hoff
    exact run_headerInt hoff v 12
  have hqd := hread header (be16 ancount ++ (be16 nscount ++ (be16 arcount ++ rest))) 4 1
    (by rw [← hpacket]; simp only [append_assoc]) hheader
  have han := hread (header ++ be16 1) (be16 nscount ++ (be16 arcount ++ rest)) 6 ancount
    (by rw [← hpacket]; simp only [append_assoc])
    (by simp only [length_append, hheader]; rfl)
  have hns := hread (header ++ be16 1 ++ be16 ancount) (be16 arcount ++ rest) 8 nscount
    (by rw [← hpacket]; simp only [append_assoc])
    (by simp only [length_append, hheader]; rfl)
  have har := hread (header ++ be16 1 ++ be16 ancount ++ be16 nscount) rest 10 arcount
    (by rw [← hpacket]; simp only [append_assoc])
    (by simp only [length_append, hheader]; rfl)
  unfold agePacket
  rw [Prog.run_bind_ok han, Prog.run_bind_ok hns, Prog.run_bind_ok har, Prog.run_bind_ok hqd, hbehind]
  rfl

/-- **Ageing a packet.** In a packet of header, question and records the walk changes the TTLs
of the records before the first OPT record. -/
theorem ageDNSPacket_layout {header : Octets} (hheader : header.length = 4) {opcode : UInt8}
    {qname : Octets} (hqname : NameOctets qname) (qtype qclass : UInt16) {rs : List StartedRecord}
    {content : Octets} (hframed : AllFramed opcode (qname ++ be16 qtype ++ be16 qclass) content rs)
    (hnames : ∀ r ∈ rs, NameOctets r.owner) (seconds : UInt32) :
    ageDNSPacket (withHeader header content) seconds =
      withHeader header
        (layout opcode (qname ++ be16 qtype ++ be16 qclass) (agedRecords seconds rs)) := by
  have hcount : ∀ place, (UInt16.ofNat (sectionCount rs place)).toNat = sectionCount rs place := by
    intro place
    rw [UInt16.toNat_ofNat', Nat.mod_eq_of_lt (hframed.counts place)]
  -- the header, the name of the question, the other four octets of it, and the records
  have hlayout : ∀ rs' : List StartedRecord, (∀ place, sectionCount rs' place = sectionCount rs place) →
      withHeader header (layout opcode (qname ++ be16 qtype ++ be16 qclass) rs') =
        countsHeader header (UInt16.ofNat (sectionCount rs .ANSWER))
            (UInt16.ofNat (sectionCount rs .AUTHORITY)) (UInt16.ofNat (sectionCount rs .ADDITIONAL)) ++
          (qname ++ (be16 qtype ++ be16 qclass ++ rs'.flatMap StartedRecord.frame)) := by
    intro rs' hsame
    rw [withHeader_layout, hsame, hsame, hsame]
    unfold countsHeader
    simp only [append_assoc]
  have hquestion : ∀ pre : Octets, (skipQuestions 1).run (behind pre (qname ++
      (be16 qtype ++ be16 qclass ++ rs.flatMap StartedRecord.frame))) =
      (.ok (), behind (pre ++ qname ++ (be16 qtype ++ be16 qclass))
        (rs.flatMap StartedRecord.frame)) := by
    intro pre
    rw [skipQuestions, Prog.run_bind_ok (run_skipLabel pre _ hqname)]
    exact Prog.run_bind_ok (@run_moveOffset _ _ (be16 qtype ++ be16 qclass) 4 rfl)
  rw [hframed.content, hlayout rs fun _ => rfl, hlayout _ (sectionCount_agedRecords seconds rs)]
  unfold ageDNSPacket
  rw [if_neg]
  · rw [run_agePacket hheader, hcount, hcount, hcount, sum_sectionCount,
      Prog.run_bind_ok (hquestion _), run_ageRecords seconds _ hnames hframed.rdlength]
    simp only [append_assoc]
  · rw [length_append, length_countsHeader hheader]
    exact not_lt.mpr (Nat.le_add_right 12 _)

end PowerDNS
