import PowerDNS.Packet.DecodeEncode
import PowerDNS.Packet.ResponseFraming
import PowerDNS.Recursor.QuestionExpand

/-!
# The first question, read twice

`questionExpand` is a second parser for what the loop over the questions in `MOADNSParser::init` reads.
`questionExpandChecked` is the same function with every read held against the end of the packet: nothing is what it
gives when one of them is at the end or behind it, and where it gives something this is what `questionExpand` returns.

A question that agrees with the other parser is a whole one without pointers (`HasQuestion`). `expandsRightly_iff`
says which packets are expanded rightly: short ones, those with a label that extends beyond the packet, and those that
have a whole question. The others end in their first question, or have a pointer in it that is taken for a label.
-/

namespace PowerDNS

open List Option UInt8 UInt16

/-! ### The code, with its reads checked -/

/-- The loop of `questionExpand`, with what it returns behind the loop. -/
def expandLabelsChecked : Nat → Octets → Octets → Option (Except String (Octets × UInt16))
  | 0, _, _ => none
  | fuel + 1, pos, ret =>
    match pos with
    -- `*pos++` with `pos` at the end
    | [] => none
    | labellen :: pos =>
      if labellen = 0 ∨ pos = [] then
        some (.ok (ret, if labellen.toNat + 2 ≤ pos.length then UInt16.ofNat (beNat (pos.take 2)) else 0))
      else if pos.length < labellen.toNat then
        some (.error "Error parsing question in incoming packet: label extends beyond packet")
      else
        expandLabelsChecked fuel (pos.drop labellen.toNat) (ret ++ escapeLabel (pos.take labellen.toNat) ++ [dot])

/-- `questionExpand`. -/
def questionExpandChecked (packet : Octets) : Option (Except String (Octets × UInt16)) :=
  if packet.length < 12 then some (.error "Error parsing question in incoming packet: packet too short")
  else
    match packet.drop 12 with
    -- `!*pos` with `pos` at the end
    | [] => none
    | first :: pos => expandLabelsChecked (pos.length + 2) (first :: pos) (if first = 0 then [dot] else [])

/-! ### What a packet has -/

/-- The packet has a whole question, and no pointer in it. -/
def HasQuestion (packet : Octets) (labels : List Octets) (qtype qclass : UInt16) : Prop :=
  (∀ l ∈ labels, l ≠ [] ∧ l.length ≤ 191) ∧
    ∃ rest, packet.drop 12 = wireLabels labels ++ (be16 qtype ++ (be16 qclass ++ rest))

/-- There is a label with something of it in the packet that extends beyond the packet. -/
def LabelBeyond (packet : Octets) : Prop :=
  ∃ labels labellen rest, (∀ l ∈ labels, l ≠ [] ∧ l.length ≤ 255) ∧
    packet.drop 12 = labelOctets labels ++ labellen :: rest ∧ rest ≠ [] ∧ rest.length < labellen.toNat

/-- What the other parser has after the first turn of its loop over the questions. -/
def firstQuestion (packet : Octets) : Except ReadError (Octets × UInt16 × UInt16) :=
  (readQuestions (packetContent packet) 1 (([], 0, 0), 0)).map Prod.fst

/-- **The packet is expanded rightly.** No read is outside of it; and either there is an exception, or the question is
a whole one without pointers and what is returned is what the other parser finds. -/
def ExpandsRightly (packet : Octets) : Prop :=
  ∃ r, questionExpandChecked packet = some r ∧ ∀ qname type, r = .ok (qname, type) →
    ∃ labels qclass, HasQuestion packet labels type qclass ∧ firstQuestion packet = .ok (qname, type, qclass)

/-! ### Checked reads -/

section Checked

variable {fuel : Nat} {pos ret packet : Octets} {r : Except String (Octets × UInt16)}

/-- When no read is outside of the packet the checks change nothing. -/
theorem expandLabels_of_checked (h : expandLabelsChecked fuel pos ret = some r) : expandLabels fuel pos ret = r := by
  induction fuel generalizing pos ret with
  | zero => cases h
  | succ fuel ih =>
    cases pos with
    | nil => cases h
    | cons labellen pos =>
      simp only [expandLabelsChecked] at h
      rw [expandLabels]
      by_cases hzero : labellen = 0
      · subst hzero
        exact some.inj h
      rw [if_neg hzero]
      by_cases hnil : pos = []
      · subst hnil
        have hend : ¬ labellen.toNat + 2 ≤ ([] : List UInt8).length := Nat.not_succ_le_zero _
        rw [if_pos (.inr rfl), if_neg hend] at h
        exact some.inj h
      rw [if_neg (not_or.mpr ⟨hzero, hnil⟩)] at h
      rw [if_neg hnil]
      by_cases hbeyond : pos.length < labellen.toNat
      · rw [if_pos hbeyond] at h ⊢
        exact some.inj h
      · rw [if_neg hbeyond] at h ⊢
        exact ih h

theorem ofNat_length_ne_zero {l : Octets} (h : l ≠ [] ∧ l.length ≤ 255) :
    UInt8.ofNat l.length ≠ 0 ∧ (UInt8.ofNat l.length).toNat = l.length := by
  have hlen : (UInt8.ofNat l.length).toNat = l.length := by
    rw [UInt8.toNat_ofNat', Nat.mod_eq_of_lt (by omega)]
  refine ⟨fun hzero => h.1 (eq_nil_of_length_eq_zero ?_), hlen⟩
  rw [← hlen, hzero]
  rfl

/-- Labels that are all there. -/
theorem expandLabelsChecked_labels {labels : List Octets} (hlabels : ∀ l ∈ labels, l ≠ [] ∧ l.length ≤ 255)
    (pos : Octets) (fuel : Nat) (ret : Octets) :
    expandLabelsChecked (fuel + labels.length) (labelOctets labels ++ pos) ret =
      expandLabelsChecked fuel pos (ret ++ dottedText labels) := by
  induction labels generalizing ret with
  | nil =>
    rw [dottedText_nil, append_nil]
    rfl
  | cons l labels ih =>
    obtain ⟨hl, hrest⟩ := forall_mem_cons.mp hlabels
    obtain ⟨hzero, hlen⟩ := ofNat_length_ne_zero hl
    have hsplit : labelOctets (l :: labels) ++ pos = UInt8.ofNat l.length :: (l ++ (labelOctets labels ++ pos)) := by
      simp only [labelOctets, flatMap_cons, cons_append, append_assoc]
    have hnil : l ++ (labelOctets labels ++ pos) ≠ [] := append_ne_nil_of_left_ne_nil hl.1 _
    have hin : ¬ (l ++ (labelOctets labels ++ pos)).length < (UInt8.ofNat l.length).toNat := by
      rw [hlen, length_append]
      omega
    rw [hsplit, length_cons, ← Nat.add_assoc, expandLabelsChecked, if_neg (not_or.mpr ⟨hzero, hnil⟩), if_neg hin,
      hlen, drop_left, take_left, ih hrest, dottedText_cons]
    simp only [append_assoc, singleton_append]

/-- An exception is about a label that extends beyond the packet. -/
theorem labels_of_error {e : String} (h : expandLabelsChecked fuel pos ret = some (.error e)) :
    ∃ labels labellen rest, (∀ l ∈ labels, l ≠ [] ∧ l.length ≤ 255) ∧
      pos = labelOctets labels ++ labellen :: rest ∧ rest ≠ [] ∧ rest.length < labellen.toNat := by
  induction fuel generalizing pos ret with
  | zero => cases h
  | succ fuel ih =>
    cases pos with
    | nil => cases h
    | cons labellen pos =>
      simp only [expandLabelsChecked] at h
      split at h
      · cases h
      next hgoes =>
      obtain ⟨hzero, hnil⟩ := not_or.mp hgoes
      split at h
      next hbeyond => exact ⟨[], labellen, pos, forall_mem_nil _, rfl, hnil, hbeyond⟩
      next hin =>
      obtain ⟨labels, labellen', rest, hlabels, hpos, hrest⟩ := ih h
      have hlen : (pos.take labellen.toNat).length = labellen.toNat := length_take_of_le (Nat.le_of_not_lt hin)
      refine ⟨pos.take labellen.toNat :: labels, labellen', rest,
        forall_mem_cons.mpr ⟨⟨fun hempty => hzero ?_, ?_⟩, hlabels⟩, ?_, hrest⟩
      · rw [hempty] at hlen
        exact UInt8.toNat_inj.mp hlen.symm
      · rw [hlen]
        exact Nat.le_of_lt_succ labellen.toNat_lt
      · -- the label, and what the loop has behind it
        have htaken : pos = pos.take labellen.toNat ++ (labelOctets labels ++ labellen' :: rest) := by
          rw [← hpos, take_append_drop]
        unfold labelOctets at htaken ⊢
        rw [flatMap_cons, hlen, UInt8.ofNat_toNat, cons_append, cons_append, append_assoc]
        exact congrArg (List.cons labellen) htaken

end Checked

/-! ### The two parsers -/

section Parsers

variable {packet rest : Octets} {labels : List Octets} {qtype qclass : UInt16}

/-- The loop comes to what is behind the labels that are all there. -/
theorem questionExpandChecked_labels {x : UInt8} (hlabels : ∀ l ∈ labels, l ≠ [] ∧ l.length ≤ 255)
    (hpacket : packet.drop 12 = labelOctets labels ++ x :: rest) :
    ∃ fuel, questionExpandChecked packet = expandLabelsChecked (fuel + 1) (x :: rest)
      ((if labels = [] ∧ x = 0 then [dot] else []) ++ dottedText labels) := by
  have hlong : ¬ packet.length < 12 := by
    intro hshort
    rw [drop_eq_nil_of_le (Nat.le_of_lt hshort)] at hpacket
    cases labels <;> cases hpacket
  unfold questionExpandChecked
  rw [if_neg hlong, hpacket]
  cases labels with
  | nil =>
    refine ⟨rest.length + 1, ?_⟩
    change expandLabelsChecked _ _ _ = _
    rw [dottedText_nil, append_nil]
    simp only [true_and]
  | cons l labels =>
    have hzero := (ofNat_length_ne_zero (hlabels l mem_cons_self)).1
    have hcount := length_le_labelOctets (l :: labels)
    have hrun (fuel : Nat) := expandLabelsChecked_labels hlabels (x :: rest) fuel []
    have hcons : labelOctets (l :: labels) = UInt8.ofNat l.length :: (l ++ labelOctets labels) := rfl
    -- there is fuel for each of the labels, and more
    obtain ⟨fuel, hfuel⟩ :
        ∃ fuel, (l ++ labelOctets labels ++ x :: rest).length + 2 = fuel + 1 + (labels.length + 1) := by
      refine ⟨(l ++ labelOctets labels ++ x :: rest).length - labels.length, ?_⟩
      rw [hcons] at hcount
      simp only [length_cons, length_append] at hcount ⊢
      omega
    refine ⟨fuel, ?_⟩
    rw [if_neg (fun h => cons_ne_nil _ _ h.1), ← hrun, hcons, cons_append]
    dsimp only
    rw [if_neg hzero, hfuel]
    rfl

/-- **A whole question is found by the other parser.** -/
theorem firstQuestion_of_question (hsize : packet.length < 2 ^ 16) (h : HasQuestion packet labels qtype qclass) :
    firstQuestion packet = .ok (questionText labels, qtype, qclass) := by
  obtain ⟨hlabels, rest, hpacket⟩ := h
  have hlength := congrArg List.length hpacket
  have htwo (v : UInt16) : (be16 v).length = 2 := rfl
  rw [length_drop, length_append, length_append, length_append, htwo, htwo] at hlength
  have hcontent : packetContent packet = wireLabels labels ++ (be16 qtype ++ (be16 qclass ++ rest)) := by
    unfold packetContent
    rw [Nat.mod_eq_of_lt (by omega), ← hpacket, ← length_drop, take_length]
  have hcount : labels.length < labelFuel := by
    have hle := length_le_labelOctets labels
    rw [wireLabels_eq, length_append] at hlength
    unfold labelFuel
    omega
  have hname : rawLabels (packetContent packet) labelFuel 0 0 =
      .ok (labels, UInt16.ofNat (wireLabels labels).length) := by
    have hraw := @rawLabels_wireLabels [] (be16 qtype ++ (be16 qclass ++ rest)) labels labelFuel 0 hlabels
      (by rw [length_nil]; omega) hcount (Nat.zero_le 10)
    rw [nil_append, length_nil, Nat.zero_add, ← hcontent] at hraw
    exact hraw
  have htype : readOctets (packetContent packet) 2 (UInt16.ofNat (wireLabels labels).length) =
      .ok (be16 qtype, UInt16.ofNat ((wireLabels labels).length + 2)) := by
    rw [hcontent]
    exact @readOctets_append (wireLabels labels) (be16 qtype) (be16 qclass ++ rest)
      (show (wireLabels labels).length + 2 ≤ 65536 by omega)
  have hclass : readOctets (packetContent packet) 2 (UInt16.ofNat ((wireLabels labels).length + 2)) =
      .ok (be16 qclass, UInt16.ofNat ((wireLabels labels).length + 2 + 2)) := by
    have hlen : (wireLabels labels ++ be16 qtype).length = (wireLabels labels).length + 2 := length_append
    rw [hcontent, ← append_assoc, ← hlen]
    exact @readOctets_append (wireLabels labels ++ be16 qtype) (be16 qclass) rest
      (show (wireLabels labels ++ be16 qtype).length + 2 ≤ 65536 by omega)
  have htext : readText [] labels = questionText labels := by
    unfold readText questionText
    cases labels with
    | nil => rfl
    | cons l labels =>
      rw [nil_append, if_neg (dottedText_ne_nil (cons_ne_nil l labels)), if_neg (cons_ne_nil l labels)]
  unfold firstQuestion readQuestions getLabel
  rw [getLabelFromContent_eq, hname]
  simp only [Except.map, bind, Except.bind]
  rw [htype]
  dsimp only
  rw [hclass]
  dsimp only
  rw [readQuestions, htext, beNat_be16, beNat_be16, UInt16.ofNat_toNat, UInt16.ofNat_toNat]

/-- **A whole question is expanded.** -/
theorem questionExpandChecked_of_question (h : HasQuestion packet labels qtype qclass) :
    questionExpandChecked packet = some (.ok (questionText labels, qtype)) := by
  obtain ⟨hlabels, rest, hpacket⟩ := h
  rw [wireLabels_eq, append_assoc] at hpacket
  obtain ⟨fuel, hrun⟩ :=
    questionExpandChecked_labels (fun l hl => ⟨(hlabels l hl).1, (hlabels l hl).2.trans (by decide)⟩) hpacket
  rw [hrun]
  change expandLabelsChecked (fuel + 1) (0 :: (be16 qtype ++ (be16 qclass ++ rest))) _ = _
  have htype : ((be16 qtype ++ (be16 qclass ++ rest)).take 2) = be16 qtype := rfl
  have hroom : (0 : UInt8).toNat + 2 ≤ (be16 qtype ++ (be16 qclass ++ rest)).length := Nat.le_add_left 2 _
  rw [expandLabelsChecked, if_pos (.inl rfl), htype, beNat_be16, UInt16.ofNat_toNat, if_pos hroom]
  unfold questionText
  cases labels with
  | nil => rw [if_pos ⟨rfl, rfl⟩, if_pos rfl, dottedText_nil, append_nil]
  | cons l labels =>
    rw [if_neg (fun h => cons_ne_nil _ _ h.1), if_neg (cons_ne_nil _ _), nil_append]

theorem questionExpandChecked_of_beyond (h : LabelBeyond packet) :
    ∃ e, questionExpandChecked packet = some (.error e) := by
  obtain ⟨labels, labellen, rest, hlabels, hpacket, hne, hbeyond⟩ := h
  obtain ⟨fuel, hrun⟩ := questionExpandChecked_labels hlabels hpacket
  have hzero : labellen ≠ 0 := by
    rintro rfl
    exact Nat.not_lt_zero _ hbeyond
  refine ⟨"Error parsing question in incoming packet: label extends beyond packet", ?_⟩
  rw [hrun, expandLabelsChecked, if_neg (not_or.mpr ⟨hzero, hne⟩), if_pos hbeyond]

end Parsers

/-- **The first question.** A packet is expanded rightly when it is shorter than a header, when a label in it extends
beyond it, or when it has a whole question without pointers. -/
theorem expandsRightly_iff (packet : Octets) (hsize : packet.length < 2 ^ 16) :
    ExpandsRightly packet ↔
      packet.length < 12 ∨ LabelBeyond packet ∨ ∃ labels qtype qclass, HasQuestion packet labels qtype qclass := by
  constructor
  · rintro ⟨r, hchecked, hright⟩
    cases r with
    | ok q =>
      obtain ⟨labels, qclass, hquestion, -⟩ := hright q.1 q.2 rfl
      exact .inr (.inr ⟨labels, q.2, qclass, hquestion⟩)
    | error e =>
      unfold questionExpandChecked at hchecked
      split at hchecked
      next hshort => exact .inl hshort
      next =>
      refine .inr (.inl ?_)
      unfold LabelBeyond
      generalize packet.drop 12 = pos at hchecked ⊢
      cases pos with
      | nil => cases hchecked
      | cons first pos => exact labels_of_error hchecked
  · rintro (hshort | hbeyond | ⟨labels, qtype, qclass, hquestion⟩)
    · exact ⟨_, if_pos hshort, fun _ _ herror => nomatch herror⟩
    · obtain ⟨e, hchecked⟩ := questionExpandChecked_of_beyond hbeyond
      exact ⟨_, hchecked, fun _ _ herror => nomatch herror⟩
    · refine ⟨_, questionExpandChecked_of_question hquestion, fun qname type hok => ?_⟩
      cases hok
      exact ⟨labels, qclass, hquestion, firstQuestion_of_question hsize hquestion⟩

/-- A question for the root. -/
theorem root_expanded_rightly :
    ExpandsRightly (List.replicate 12 0 ++ [0, 0, 2, 0, 1]) :=
  (expandsRightly_iff _ (by decide)).mpr
    (.inr (.inr ⟨[], 2, 1, forall_mem_nil _, [], rfl⟩))

/-- Behind a header without anything there is a read at the end; and behind a root without type there is none, but no
exception either. -/
theorem header_read_beyond :
    ¬ ExpandsRightly (List.replicate 12 0) ∧ ¬ ExpandsRightly (List.replicate 12 0 ++ [0]) := by
  constructor
  · rintro ⟨r, hchecked, -⟩
    have hnone : questionExpandChecked (List.replicate 12 0) = none := by decide
    cases hnone.symm.trans hchecked
  · rintro ⟨r, hchecked, hright⟩
    have hroot : questionExpandChecked (List.replicate 12 0 ++ [0]) = some (.ok ([dot], 0)) := by decide
    cases hroot.symm.trans hchecked
    obtain ⟨labels, qclass, ⟨-, rest, hpacket⟩, -⟩ := hright [dot] 0 rfl
    have hlength := congrArg List.length hpacket
    rw [length_append, length_append] at hlength
    change 1 = _ + (2 + _) at hlength
    omega

end PowerDNS
