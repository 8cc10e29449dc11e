import PowerDNS.Packet.PacketAging

/-!
# Reading the question of a reply: `questionExpand`

Before a reply of an authoritative server is given to the query that waits for it, its first
question is read by hand. The loop of `questionExpand` looks at the length octet first and then
whether there is anything behind it, so a label that extends beyond the packet is an error, but
a packet that ends where a label ends, or right behind a length octet, is not: the loop just
stops. And when the type is not all there it is left at 0.

`EndsInQuestion` tells such packets from those in which the question is whole, and
`questionExpand_whole` says that for these the function returns what is there.
-/

namespace PowerDNS

open UInt8 List

/-- The loop of `questionExpand` on what is left of the packet, with what it returns behind the
loop: the name and the type. -/
def expandLabels : Nat → Octets → Octets → Except String (Octets × UInt16)
  | 0, _, ret => .ok (ret, 0)
  | fuel + 1, pos, ret =>
    match pos with
    -- whatever lies behind the packet is no length: `pos < end` fails
    | [] => .ok (ret, 0)
    | labellen :: pos =>
      if labellen = 0 then
        .ok (ret, if 2 ≤ pos.length then UInt16.ofNat (beNat (pos.take 2)) else 0)
      else if pos = [] then .ok (ret, 0)
      else if pos.length < labellen.toNat then
        .error "Error parsing question in incoming packet: label extends beyond packet"
      else
        expandLabels fuel (pos.drop labellen.toNat)
          (ret ++ escapeLabel (pos.take labellen.toNat) ++ [dot])

/-- `questionExpand`: the name and the type of the first question. `behind` is the octet that
lies behind the packet in the buffer. -/
def questionExpand (packet : Octets) (behind : UInt8) : Except String (Octets × UInt16) :=
  if packet.length < 12 then
    .error "Error parsing question in incoming packet: packet too short"
  else
    let pos := packet.drop 12
    expandLabels (pos.length + 1) pos (if pos.headD behind = 0 then [dot] else [])

/-- Whether the loop of `questionExpand` stops because the packet ends: behind a label, behind a
length octet, or in front of the last octet of the type. -/
def endsInLabels : Nat → Octets → Bool
  | 0, _ => true
  | fuel + 1, pos =>
    match pos with
    | [] => true
    | labellen :: pos =>
      if labellen = 0 then decide (pos.length < 2)
      else if pos = [] then true
      else if pos.length < labellen.toNat then false
      else endsInLabels fuel (pos.drop labellen.toNat)

/-- The packet ends inside its first question, and no label extends beyond it. -/
def EndsInQuestion (packet : Octets) : Prop :=
  endsInLabels ((packet.drop 12).length + 1) (packet.drop 12) = true

instance (packet : Octets) : Decidable (EndsInQuestion packet) :=
  inferInstanceAs (Decidable (_ = true))

/-- The text of the name in a question. -/
def questionText (labels : List Octets) : Octets :=
  if labels = [] then [dot] else dottedText labels

/-- The first question of the packet is for `domain`, in any letter case, and `type`. -/
def AsksFor (packet : Octets) (domain : Octets) (type : UInt16) : Prop :=
  ∃ labels rest, (∀ l ∈ labels, l ≠ [] ∧ l.length < 256) ∧
    packet.drop 12 = wireLabels labels ++ be16 type ++ rest ∧
    toLower (questionText labels) = toLower domain

/-- When the packet does not end in them, labels that are read are there, with the type behind
them. -/
theorem expandLabels_whole {fuel : Nat} {pos ret : Octets} {r : Octets × UInt16}
    (h : expandLabels fuel pos ret = .ok r) (hends : endsInLabels fuel pos = false) :
    ∃ labels rest, (∀ l ∈ labels, l ≠ [] ∧ l.length < 256) ∧
      pos = wireLabels labels ++ be16 r.2 ++ rest ∧ r.1 = ret ++ dottedText labels := by
  induction fuel generalizing pos ret with
  | zero => cases hends
  | succ fuel ih =>
    cases pos with
    | nil => cases hends
    | cons labellen pos =>
      simp only [expandLabels] at h
      simp only [endsInLabels] at hends
      split at h
      next hzero =>
        -- the root: the type is behind it
        rw [if_pos hzero, decide_eq_false_iff_not, not_lt] at hends
        cases h
        refine ⟨[], pos.drop 2, by simp, ?_, by simp⟩
        rw [if_pos hends, be16_read (by rw [length_take]; omega), hzero]
        change _ = 0 :: (pos.take 2 ++ pos.drop 2)
        rw [take_append_drop]
      next hzero =>
        rw [if_neg hzero] at hends
        split at h
        next hnil =>
          rw [if_pos hnil] at hends
          cases hends
        next hnil =>
          rw [if_neg hnil] at hends
          split at h
          next => cases h
          next hle =>
            rw [if_neg hle] at hends
            obtain ⟨labels, rest, hlabels, hpos, hret⟩ := ih h hends
            have hlt := labellen.toNat_lt
            have hlen : (pos.take labellen.toNat).length = labellen.toNat := by
              rw [length_take, Nat.min_eq_left (not_lt.mp hle)]
            have hne : labellen.toNat ≠ 0 := fun h0 => hzero (UInt8.toNat_inj.mp h0)
            refine ⟨pos.take labellen.toNat :: labels, rest, ?_, ?_, ?_⟩
            · intro l hl
              rcases mem_cons.mp hl with rfl | hl
              · refine ⟨fun h0 => hne ?_, by rw [hlen]; exact hlt⟩
                rw [← hlen, h0]
                rfl
              · exact hlabels l hl
            · rw [wireLabels, hlen, UInt8.ofNat_toNat]
              simp only [cons_append, append_assoc]
              rw [← append_assoc (wireLabels labels), ← hpos, take_append_drop]
            · rw [hret, dottedText_cons]
              simp

/-- **A whole question is read as it is.** -/
theorem questionExpand_whole {packet : Octets} {behind : UInt8} {r : Octets × UInt16}
    (h : questionExpand packet behind = .ok r) (hends : ¬EndsInQuestion packet) {domain : Octets}
    (hdomain : toLower r.1 = toLower domain) : AsksFor packet domain r.2 := by
  unfold questionExpand at h
  split at h
  next => cases h
  next =>
    obtain ⟨labels, rest, hlabels, hpos, hret⟩ :=
      expandLabels_whole h (Bool.eq_false_of_not_eq_true hends)
    refine ⟨labels, rest, hlabels, hpos, hdomain ▸ congrArg toLower ?_⟩
    rw [hret, hpos]
    unfold questionText
    cases labels with
    | nil => rfl
    | cons l labels =>
      have hl := hlabels l mem_cons_self
      have hne : UInt8.ofNat l.length ≠ 0 := by
        intro h0
        have hzero := congrArg UInt8.toNat h0
        rw [toNat_ofNat', Nat.mod_eq_of_lt hl.2] at hzero
        exact hl.1 (eq_nil_of_length_eq_zero hzero)
      rw [if_neg (cons_ne_nil _ _), if_neg (by simpa [wireLabels] using hne)]
      rfl

end PowerDNS
