import PowerDNS.Packet.LabelWriting
import PowerDNS.Packet.NameReading

/-!
# Reading a name and writing it again

`rawLabels` walks through a packet as `getLabelFromContent` does, and returns the octets of the
labels instead of a text. `getLabelFromContent_eq` says that the text the reader returns is the
one of these labels, whatever octets they consist of. `decode_encode` concludes that `xfrLabel`,
given that text and no compression, writes these labels again, and that they are read back as
the same text, as long as their octets are within reach of the reader's 16 bit positions.

A name that is read through pointers can be longer than that: `overlong_name_never_ends` is a
name of 1025 labels in a packet of 32796 octets.
-/

namespace PowerDNS

open List

/-! ### Labels as the reader finds them -/

/-- The octets of one label. -/
def readRawOctets (content : Octets) : Nat → UInt16 → Except ReadError (Octets × UInt16)
  | 0, frompos => .ok ([], frompos)
  | n + 1, frompos => do
    let c ← contentAt content frompos
    let r ← readRawOctets content n (frompos + 1)
    pure (c :: r.1, r.2)

/-- The labels that `getLabelFromContent` reads, and the position behind them. -/
def rawLabels (content : Octets) :
    Nat → UInt16 → Nat → Except ReadError (List Octets × UInt16)
  | 0, _, _ => .error .fuel
  | fuel + 1, frompos, recurs =>
    if recurs > 10 then .error (.moadns "Loop")
    else do
      let labellen ← contentAt content frompos
      if labellen = 0 then pure ([], frompos + 1)
      else if labellen &&& 0xc0 = 0xc0 then do
        let lo ← contentAt content (frompos + 1)
        let offset : UInt16 := 256 * (labellen &&& 0x3f).toUInt16 + lo.toUInt16 - 12
        let r ← rawLabels content fuel offset (recurs + 1)
        pure (r.1, frompos + 2)
      else do
        let l ← readRawOctets content labellen.toNat (frompos + 1)
        let r ← rawLabels content fuel l.2 recurs
        pure (l.1 :: r.1, r.2)

theorem readLabelOctets_eq (content : Octets) (n : Nat) (frompos : UInt16) (ret : Octets) :
    readLabelOctets content n frompos ret =
      (readRawOctets content n frompos).map fun r => (ret ++ escapeLabel r.1, r.2) := by
  induction n generalizing frompos ret with
  | zero => simp [readLabelOctets, readRawOctets, Except.map]
  | succ n ih =>
    rw [readLabelOctets, readRawOctets]
    cases contentAt content frompos with
    | error e => rfl
    | ok c =>
      change readLabelOctets content n (frompos + 1) _ = _
      rw [ih]
      simp only [bind, Except.bind]
      cases readRawOctets content n (frompos + 1) with
      | error e => rfl
      | ok r => simp [Except.map, pure, Except.pure, escapeLabel]

/-- **The text the reader returns** is the one of the labels that it finds. -/
theorem getLabelFromContent_eq (content : Octets) (fuel : Nat) (frompos : UInt16) (ret : Octets)
    (recurs : Nat) :
    getLabelFromContent content fuel frompos ret recurs =
      (rawLabels content fuel frompos recurs).map fun r => (readText ret r.1, r.2) := by
  induction fuel generalizing frompos ret recurs with
  | zero => rfl
  | succ fuel ih =>
    rw [getLabelFromContent, rawLabels]
    split
    next => rfl
    next =>
      simp only [bind, Except.bind]
      cases contentAt content frompos with
      | error e => rfl
      | ok labellen =>
        dsimp only
        split
        next => simp [Except.map, pure, Except.pure, readText]
        next =>
          split
          next =>
            -- a pointer: the name goes on elsewhere
            cases contentAt content (frompos + 1) with
            | error e => rfl
            | ok lo =>
              dsimp only
              rw [ih]
              cases rawLabels content fuel _ (recurs + 1) with
              | error e => rfl
              | ok r => rfl
          next =>
            rw [readLabelOctets_eq]
            cases readRawOctets content labellen.toNat (frompos + 1) with
            | error e => rfl
            | ok l =>
              simp only [Except.map]
              rw [ih]
              cases rawLabels content fuel l.2 recurs with
              | error e => rfl
              | ok r => simp [Except.map, pure, Except.pure, readText]

theorem length_readRawOctets {content : Octets} {n : Nat} {frompos : UInt16}
    {r : Octets × UInt16} (h : readRawOctets content n frompos = .ok r) : r.1.length = n := by
  induction n generalizing frompos r with
  | zero =>
    cases h
    rfl
  | succ n ih =>
    rw [readRawOctets] at h
    simp only [bind, Except.bind] at h
    cases hc : contentAt content frompos with
    | error e => simp [hc] at h
    | ok c =>
      cases hrest : readRawOctets content n (frompos + 1) with
      | error e => simp [hc, hrest] at h
      | ok rest =>
        simp only [hc, hrest, pure, Except.pure, Except.ok.injEq] at h
        rw [← h, length_cons, ih hrest]

/-- The reader's labels are not empty. The upper two bits of the length are set in a pointer
only, so they have at most 191 octets. -/
theorem length_rawLabels {content : Octets} {fuel : Nat} {frompos : UInt16} {recurs : Nat}
    {r : List Octets × UInt16} (h : rawLabels content fuel frompos recurs = .ok r) :
    ∀ l ∈ r.1, l ≠ [] ∧ l.length ≤ 191 := by
  induction fuel generalizing frompos recurs r with
  | zero => cases h
  | succ fuel ih =>
    rw [rawLabels] at h
    split at h
    next => cases h
    next =>
      simp only [bind, Except.bind] at h
      cases hlen : contentAt content frompos with
      | error e => simp [hlen] at h
      | ok labellen =>
        simp only [hlen] at h
        split at h
        next =>
          cases h
          exact nofun
        next hzero =>
          split at h
          next hptr =>
            cases hlo : contentAt content (frompos + 1) with
            | error e => simp [hlo] at h
            | ok lo =>
              simp only [hlo] at h
              split at h
              next => cases h
              next rest hrest =>
                have hlabels := ih hrest
                cases h
                exact hlabels
          next hptr =>
            cases hl : readRawOctets content labellen.toNat (frompos + 1) with
            | error e => simp [hl] at h
            | ok l =>
              simp only [hl] at h
              split at h
              next => cases h
              next rest hrest =>
                cases h
                rw [and_c0_iff, UInt8.le_iff_toNat_le] at hptr
                have hlength := length_readRawOctets hl
                have hpos : labellen.toNat ≠ 0 := fun h0 => hzero (UInt8.toNat_inj.mp h0)
                have hmax : (192 : UInt8).toNat = 192 := rfl
                have hlabel : l.1 ≠ [] ∧ l.1.length ≤ 191 := by
                  refine ⟨fun hnil => hpos ?_, by omega⟩
                  rw [← hlength, hnil, length_nil]
                exact forall_mem_cons.mpr ⟨hlabel, ih hrest⟩

/-! ### Reading labels that stand one after the other -/

/-- Labels with their lengths, without the root. -/
def labelOctets (ls : List Octets) : Octets := ls.flatMap fun l => UInt8.ofNat l.length :: l

theorem wireLabels_eq (ls : List Octets) : wireLabels ls = labelOctets ls ++ [0] := by
  induction ls with
  | nil => rfl
  | cons l ls ih =>
    rw [wireLabels, ih]
    simp [labelOctets]

theorem length_le_labelOctets (ls : List Octets) : ls.length ≤ (labelOctets ls).length := by
  induction ls with
  | nil => exact Nat.zero_le _
  | cons l ls ih =>
    simp only [labelOctets, flatMap_cons, length_append, length_cons] at ih ⊢
    omega

theorem contentAt_append {pre : Octets} (c : UInt8) (rest : Octets) (h : pre.length < 65536) :
    contentAt (pre ++ c :: rest) (UInt16.ofNat pre.length) = .ok c := by
  unfold contentAt
  rw [UInt16.toNat_ofNat', Nat.mod_eq_of_lt h]
  simp

theorem ofNat_length_succ (pre : Octets) (c : UInt8) :
    UInt16.ofNat pre.length + 1 = UInt16.ofNat (pre ++ [c]).length := by
  rw [length_append, UInt16.ofNat_add]
  rfl

/-- Octets that stand one after the other are read one after the other. -/
theorem readOctets_append {pre l : Octets} (rest : Octets) (h : pre.length + l.length ≤ 65536) :
    readOctets (pre ++ (l ++ rest)) l.length (UInt16.ofNat pre.length) =
      .ok (l, UInt16.ofNat (pre.length + l.length)) := by
  induction l generalizing pre with
  | nil => rfl
  | cons c l ih =>
    rw [length_cons] at h
    have hrest := @ih (pre ++ [c]) (by rw [length_append, length_singleton]; omega)
    rw [append_assoc, singleton_append] at hrest
    rw [cons_append, length_cons, readOctets, contentAt_append c _ (by omega)]
    rw [ofNat_length_succ pre c, hrest, length_append, length_singleton,
      Nat.add_right_comm, Nat.add_assoc pre.length]
    rfl

theorem readRawOctets_eq (content : Octets) (n : Nat) (frompos : UInt16) :
    readRawOctets content n frompos = readOctets content n frompos := by
  induction n generalizing frompos with
  | zero => rfl
  | succ n ih =>
    rw [readRawOctets, readOctets]
    simp only [ih]

/-- Labels that stand one after the other are read one after the other. -/
theorem rawLabels_append {pre : Octets} {ls : List Octets} (rest : Octets) (fuel : Nat)
    {recurs : Nat} (hls : ∀ l ∈ ls, l ≠ [] ∧ l.length ≤ 191)
    (hsize : pre.length + (labelOctets ls).length ≤ 65536) (hrecurs : recurs ≤ 10) :
    rawLabels (pre ++ (labelOctets ls ++ rest)) (fuel + ls.length) (UInt16.ofNat pre.length)
        recurs =
      (rawLabels (pre ++ (labelOctets ls ++ rest)) fuel
        (UInt16.ofNat (pre.length + (labelOctets ls).length)) recurs).map
          fun r => (ls ++ r.1, r.2) := by
  induction ls generalizing pre with
  | nil =>
    simp only [length_nil, Nat.add_zero, labelOctets, flatMap_nil, nil_append]
    cases rawLabels (pre ++ rest) fuel (UInt16.ofNat pre.length) recurs with
    | error e => rfl
    | ok r => rfl
  | cons l ls ih =>
    obtain ⟨hne, hlen⟩ := hls l mem_cons_self
    have hoctets : labelOctets (l :: ls) = UInt8.ofNat l.length :: (l ++ labelOctets ls) := rfl
    rw [hoctets, length_cons, length_append] at hsize
    have hlenNat : (UInt8.ofNat l.length).toNat = l.length := by
      rw [UInt8.toNat_ofNat']
      omega
    have hzero : UInt8.ofNat l.length ≠ 0 := by
      intro h0
      rw [h0] at hlenNat
      exact hne (eq_nil_of_length_eq_zero hlenNat.symm)
    have hptr : ¬UInt8.ofNat l.length &&& 0xc0 = 0xc0 := by
      rw [and_c0_iff, UInt8.le_iff_toNat_le, hlenNat]
      have hmax : (192 : UInt8).toNat = 192 := rfl
      omega
    -- the packet seen from behind the length, and from behind the label
    have hbehind : pre ++ (labelOctets (l :: ls) ++ rest) =
        (pre ++ [UInt8.ofNat l.length]) ++ (l ++ (labelOctets ls ++ rest)) := by
      rw [hoctets]
      simp
    have hrest : pre ++ (labelOctets (l :: ls) ++ rest) =
        (pre ++ [UInt8.ofNat l.length] ++ l) ++ (labelOctets ls ++ rest) := by
      rw [hbehind, append_assoc (pre ++ _)]
    have hpos : (pre ++ [UInt8.ofNat l.length] ++ l).length = pre.length + (1 + l.length) := by
      simp [Nat.add_comm 1]
    have hlabel := @readOctets_append (pre ++ [UInt8.ofNat l.length]) l (labelOctets ls ++ rest)
      (by rw [length_append, length_singleton]; omega)
    have hmore := @ih (pre ++ [UInt8.ofNat l.length] ++ l)
      (fun l' hl' => hls l' (mem_cons_of_mem _ hl')) (by rw [hpos]; omega)
    rw [← hrest] at hmore
    rw [← hbehind, ← readRawOctets_eq] at hlabel
    rw [length_cons, ← Nat.add_assoc, rawLabels, if_neg (by omega)]
    rw [show contentAt (pre ++ (labelOctets (l :: ls) ++ rest)) (UInt16.ofNat pre.length) =
      .ok (UInt8.ofNat l.length) from contentAt_append _ _ (by omega)]
    simp only [bind, Except.bind, if_neg hzero, if_neg hptr, hlenNat]
    rw [ofNat_length_succ pre (UInt8.ofNat l.length), hlabel, ← length_append]
    dsimp only
    rw [hmore, hpos, hoctets, length_cons, length_append,
      show pre.length + (1 + l.length) + (labelOctets ls).length =
        pre.length + (l.length + (labelOctets ls).length + 1) by omega]
    rw [← hoctets]
    cases rawLabels (pre ++ (labelOctets (l :: ls) ++ rest)) fuel
      (UInt16.ofNat (pre.length + (l.length + (labelOctets ls).length + 1))) recurs with
    | error e => rfl
    | ok r => rfl

/-- A pointer is followed to the rest of the name. -/
theorem rawLabels_pointer {content : Octets} {fuel : Nat} {frompos : UInt16} {hi lo : UInt8}
    {recurs : Nat} {r : List Octets × UInt16} (hrecurs : recurs ≤ 10)
    (hhi : contentAt content frompos = .ok hi) (hptr : 192 ≤ hi)
    (hlo : contentAt content (frompos + 1) = .ok lo)
    (hrest : rawLabels content fuel (256 * (hi &&& 0x3f).toUInt16 + lo.toUInt16 - 12)
      (recurs + 1) = .ok r) :
    rawLabels content (fuel + 1) frompos recurs = .ok (r.1, frompos + 2) := by
  have hzero : hi ≠ 0 := by
    rintro rfl
    exact absurd hptr (by decide)
  rw [rawLabels, if_neg (by omega), hhi]
  simp only [bind, Except.bind, if_neg hzero, if_pos ((and_c0_iff hi).mpr hptr), hlo, hrest]
  rfl

/-- **Reading what was written.** Labels of at most 191 octets are read back, from wherever in
a packet they stand. -/
theorem rawLabels_wireLabels {pre post : Octets} {ls : List Octets} {fuel recurs : Nat}
    (hls : ∀ l ∈ ls, l ≠ [] ∧ l.length ≤ 191)
    (hsize : pre.length + (wireLabels ls).length ≤ 65536) (hfuel : ls.length < fuel)
    (hrecurs : recurs ≤ 10) :
    rawLabels (pre ++ (wireLabels ls ++ post)) fuel (UInt16.ofNat pre.length) recurs =
      .ok (ls, UInt16.ofNat (pre.length + (wireLabels ls).length)) := by
  obtain ⟨k, rfl⟩ : ∃ k, fuel = k + 1 + ls.length := ⟨fuel - 1 - ls.length, by omega⟩
  rw [wireLabels_eq, length_append, length_singleton] at hsize
  rw [wireLabels_eq, append_assoc,
    rawLabels_append ([0] ++ post) (k + 1) hls (by omega) hrecurs]
  have hroot : contentAt (pre ++ (labelOctets ls ++ ([0] ++ post)))
      (UInt16.ofNat (pre.length + (labelOctets ls).length)) = .ok 0 := by
    rw [← append_assoc, ← length_append]
    exact contentAt_append 0 post (by rw [length_append]; omega)
  rw [rawLabels, if_neg (by omega), hroot]
  simp only [bind, Except.bind, if_true, Except.map, pure, Except.pure, append_nil]
  rw [length_append, length_singleton, ← Nat.add_assoc,
    UInt16.ofNat_add (pre.length + (labelOctets ls).length) 1]
  rfl

/-! ### The identity -/

/-- The text of a label sequence is the text of a dotted name. -/
theorem readText_cons {l : Octets} {ls : List Octets} : readText [] (l :: ls) =
    labelsText true (l :: ls) := by
  unfold readText
  rw [nil_append, if_neg (dottedText_ne_nil (cons_ne_nil l ls))]
  rfl

/-- Writing the text of labels that the reader has read. -/
theorem xfrLabel_readText (w : DNSPacketWriter) {ls : List Octets}
    (hls : ∀ l ∈ ls, l ≠ [] ∧ l.length ≤ 191) :
    ∃ entries, w.xfrLabel (readText [] ls) false =
      some { w.xfrBlob (wireLabels ls) with d_labelmap := w.d_labelmap ++ entries } := by
  cases ls with
  | nil =>
    refine ⟨[], ?_⟩
    change w.xfrLabel [dot] false = _
    simp [DNSPacketWriter.xfrLabel, DNSPacketWriter.xfrBlob, wireLabels]
  | cons l ls =>
    rw [readText_cons]
    obtain ⟨entries, octets, heq, hwire⟩ := w.exists_xfrLabel_labelsText true false
      fun l' hl' => ⟨(hls l' hl').1, (hls l' hl').2.trans (by decide)⟩
    exact ⟨entries, by rw [heq, hwire rfl]⟩

/-- **Decode, then encode.** The writer, given the text of a name that the reader accepts and
no compression, adds the octets of the labels that were read. Wherever these octets stand
within the first 65536 octets of a packet, they are read as the same text. -/
theorem decode_encode {content : Octets} {fuel : Nat} {frompos : UInt16}
    {r : Octets × UInt16} (h : getLabelFromContent content fuel frompos [] 0 = .ok r) :
    ∃ ls, rawLabels content fuel frompos 0 = .ok (ls, r.2) ∧
      (∀ w : DNSPacketWriter, ∃ entries, w.xfrLabel r.1 false =
        some { w.xfrBlob (wireLabels ls) with d_labelmap := w.d_labelmap ++ entries }) ∧
      ∀ pre post : Octets, pre.length + (wireLabels ls).length ≤ 65536 →
        getLabel (pre ++ (wireLabels ls ++ post)) (UInt16.ofNat pre.length) =
          .ok (r.1, UInt16.ofNat (pre.length + (wireLabels ls).length)) := by
  rw [getLabelFromContent_eq] at h
  cases hraw : rawLabels content fuel frompos 0 with
  | error e =>
    rw [hraw] at h
    cases h
  | ok labels =>
    rw [hraw] at h
    obtain rfl := Except.ok.inj h
    have hls := length_rawLabels hraw
    refine ⟨labels.1, rfl, fun w => xfrLabel_readText w hls, fun pre post hsize => ?_⟩
    have hfuel : labels.1.length < labelFuel := by
      have hle := length_le_labelOctets labels.1
      have hmax : labelFuel = 786444 := rfl
      rw [wireLabels_eq, length_append] at hsize
      omega
    unfold getLabel
    rw [getLabelFromContent_eq, rawLabels_wireLabels hls hsize hfuel (Nat.zero_le 10)]
    rfl

/-- The octets `a`, dot, backslash as one label. -/
theorem escaped_label_reads_back :
    ∃ ls, rawLabels [3, 97, 46, 92, 0] 2 0 0 = .ok (ls, 5) ∧
      (∀ w : DNSPacketWriter, ∃ entries, w.xfrLabel (ascii "a\\.\\\\.") false =
        some { w.xfrBlob (wireLabels ls) with d_labelmap := w.d_labelmap ++ entries }) ∧
      ∀ pre post : Octets, pre.length + (wireLabels ls).length ≤ 65536 →
        getLabel (pre ++ (wireLabels ls ++ post)) (UInt16.ofNat pre.length) =
          .ok (ascii "a\\.\\\\.", UInt16.ofNat (pre.length + (wireLabels ls).length)) :=
  @decode_encode [3, 97, 46, 92, 0] 2 0 (ascii "a\\.\\\\.", 5) (by decide)

/-! ### A name longer than 65536 octets -/

/-- The label of 63 octets `?`, whose length is also a `?`. -/
def fullLabel : Octets := List.replicate 63 63

theorem labelOctets_append (ls ls' : List Octets) :
    labelOctets (ls ++ ls') = labelOctets ls ++ labelOctets ls' := flatMap_append

theorem labelOctets_fullLabels (n : Nat) :
    labelOctets (List.replicate n fullLabel) = List.replicate (64 * n) 63 := by
  induction n with
  | zero => rfl
  | succ n ih =>
    have hone : labelOctets [fullLabel] = List.replicate 64 63 := rfl
    rw [replicate_succ', labelOctets_append, ih, hone, replicate_append_replicate,
      Nat.mul_succ]

/-- A packet content of 512 full labels and a pointer to its second octet. -/
def overlongContent : Octets :=
  labelOctets (List.replicate 512 fullLabel) ++ ([0xc0, 0x0d] ++ (List.replicate 13 63 ++ [0]))

/-- The labels that the pointer leads to: read from the second octet on, the last full label
ends with the first octet of the pointer, whose second octet is a length. -/
def shiftedLabels : List Octets :=
  List.replicate 511 fullLabel ++ [List.replicate 62 63 ++ [0xc0], List.replicate 13 63]

theorem overlongContent_eq : overlongContent = [63] ++ (labelOctets shiftedLabels ++ [0]) := by
  unfold overlongContent shiftedLabels
  rw [labelOctets_append, labelOctets_fullLabels, labelOctets_fullLabels]
  have hlast : labelOctets [List.replicate 62 63 ++ [0xc0], List.replicate 13 63] =
      List.replicate 63 63 ++ ([0xc0, 0x0d] ++ List.replicate 13 63) := by decide
  have hfirst : ([63] : Octets) = List.replicate 1 63 := rfl
  have hcount : (List.replicate (64 * 512) 63 : Octets) =
      List.replicate 1 63 ++ (List.replicate (64 * 511) 63 ++ List.replicate 63 63) := by
    rw [replicate_append_replicate, replicate_append_replicate]
  rw [hlast, hfirst, hcount]
  simp only [append_assoc]

theorem isFull_of_mem_replicate {n : Nat} : ∀ l ∈ List.replicate n fullLabel,
    l ≠ [] ∧ l.length ≤ 191 := by
  intro l hl
  rw [eq_of_mem_replicate hl]
  decide

theorem length_shiftedLabels : (labelOctets shiftedLabels).length = 32782 := by
  rw [shiftedLabels, labelOctets_append, labelOctets_fullLabels, length_append,
    length_replicate]
  rfl

/-- The reader's labels in that packet. -/
theorem rawLabels_overlong (k : Nat) : rawLabels overlongContent (k + 1027) 0 0 =
    .ok (List.replicate 512 fullLabel ++ shiftedLabels, 32770) := by
  have hshifted : ∀ l ∈ shiftedLabels, l ≠ [] ∧ l.length ≤ 191 := by
    intro l hl
    rcases mem_append.mp hl with hl | hl
    · exact isFull_of_mem_replicate l hl
    · have hall : ∀ l ∈ ([List.replicate 62 63 ++ [0xc0], List.replicate 13 63] : List Octets),
          l ≠ [] ∧ l.length ≤ 191 := by decide
      exact hall l hl
  have hwire : (wireLabels shiftedLabels).length = 32783 := by
    rw [wireLabels_eq, length_append, length_shiftedLabels]
    rfl
  have hcount : shiftedLabels.length = 513 := by
    rw [shiftedLabels, length_append, length_replicate]
    rfl
  -- from the second octet on
  have hsecond : rawLabels overlongContent (k + 514) 1 1 = .ok (shiftedLabels, 32784) := by
    have h := @rawLabels_wireLabels [63] [] shiftedLabels (k + 514) 1 hshifted
      (by rw [hwire, length_singleton]; omega) (by omega) (by omega)
    rw [hwire, append_nil, wireLabels_eq, ← overlongContent_eq] at h
    exact h
  -- up to the pointer
  have hlen : (labelOctets (List.replicate 512 fullLabel)).length = 32768 := by
    rw [labelOctets_fullLabels, length_replicate]
  have hhi : contentAt overlongContent (UInt16.ofNat 32768) = .ok 0xc0 := by
    have h := @contentAt_append (labelOctets (List.replicate 512 fullLabel)) 0xc0
      (0x0d :: (List.replicate 13 63 ++ [0])) (by rw [hlen]; omega)
    rw [hlen] at h
    exact h
  have hlo : contentAt overlongContent (UInt16.ofNat 32769) = .ok 0x0d := by
    have hlen' : (labelOctets (List.replicate 512 fullLabel) ++ [0xc0]).length = 32769 := by
      rw [length_append, hlen, length_singleton]
    have h := @contentAt_append (labelOctets (List.replicate 512 fullLabel) ++ [0xc0]) 0x0d
      (List.replicate 13 63 ++ [0]) (by rw [hlen']; omega)
    rw [hlen', append_assoc, cons_append, nil_append] at h
    exact h
  have hpointer : rawLabels overlongContent (k + 515) (UInt16.ofNat 32768) 0 =
      .ok (shiftedLabels, 32770) :=
    @rawLabels_pointer _ (k + 514) (UInt16.ofNat 32768) 0xc0 0x0d 0 _ (by omega) hhi (by decide)
      hlo hsecond
  have h := @rawLabels_append [] (List.replicate 512 fullLabel)
    ([0xc0, 0x0d] ++ (List.replicate 13 63 ++ [0])) (k + 515) 0 isFull_of_mem_replicate
    (by rw [hlen, length_nil]; omega) (by omega)
  rw [nil_append, ← overlongContent, hlen, length_replicate, length_nil,
    Nat.zero_add, hpointer] at h
  exact h

/-- The octets of these labels begin with 65536 octets of labels. -/
theorem labelOctets_overlong :
    labelOctets (List.replicate 512 fullLabel ++ shiftedLabels) =
      labelOctets (List.replicate 1023 fullLabel ++ [List.replicate 62 63 ++ [0xc0]]) ++
        labelOctets [List.replicate 13 63] := by
  rw [← labelOctets_append, append_assoc, shiftedLabels, ← append_assoc,
    replicate_append_replicate]
  rfl

/-- **A name that is not read back.** The reader accepts it, and in the octets that the writer
makes of it the 16 bit position comes back to the first label before the root is reached. -/
theorem overlong_name_never_ends :
    getLabelFromContent overlongContent 1027 0 [] 0 =
        .ok (readText [] (List.replicate 512 fullLabel ++ shiftedLabels), 32770) ∧
      ∀ fuel, getLabelFromContent
        (wireLabels (List.replicate 512 fullLabel ++ shiftedLabels)) fuel 0 [] 0 =
          .error .fuel := by
  refine ⟨by rw [getLabelFromContent_eq, rawLabels_overlong 0]; rfl, fun fuel => ?_⟩
  rw [getLabelFromContent_eq]
  suffices h : rawLabels (wireLabels (List.replicate 512 fullLabel ++ shiftedLabels)) fuel 0 0 =
      .error .fuel by
    rw [h]
    rfl
  rw [wireLabels_eq, labelOctets_overlong, append_assoc]
  generalize hround : List.replicate 1023 fullLabel ++ [List.replicate 62 63 ++ [0xc0]] = round
  generalize labelOctets [List.replicate 13 63] ++ [0] = rest
  have hlabels : ∀ l ∈ round, l ≠ [] ∧ l.length ≤ 191 := by
    intro l hl
    rw [← hround] at hl
    rcases mem_append.mp hl with hl | hl
    · exact isFull_of_mem_replicate l hl
    · rw [mem_singleton.mp hl]
      decide
  have hsize : (labelOctets round).length = 65536 := by
    rw [← hround, labelOctets_append, labelOctets_fullLabels, length_append,
      length_replicate]
    rfl
  have hcount : round.length = 1024 := by
    rw [← hround, length_append, length_replicate]
    rfl
  induction fuel using Nat.strong_induction_on with
  | _ fuel ih =>
    by_cases hfuel : fuel < 1024
    · -- the fuel does not reach the end of the labels
      have hsplit : labelOctets round ++ rest =
          labelOctets (round.take fuel) ++ (labelOctets (round.drop fuel) ++ rest) := by
        rw [← append_assoc, ← labelOctets_append, take_append_drop]
      have htake : (labelOctets (round.take fuel)).length ≤ 65536 := by
        have h := congrArg List.length hsplit
        simp only [length_append] at h
        omega
      have h := @rawLabels_append [] (round.take fuel) (labelOctets (round.drop fuel) ++ rest) 0 0
        (fun l hl => hlabels l (mem_of_mem_take hl)) (by rw [length_nil]; omega)
        (by decide)
      rw [length_take, hcount, min_eq_left (by omega), Nat.zero_add, nil_append,
        ← hsplit] at h
      exact h
    · -- once around, and again from the first label
      obtain ⟨k, rfl⟩ : ∃ k, fuel = k + 1024 := ⟨fuel - 1024, by omega⟩
      have h := @rawLabels_append [] round rest k 0 hlabels (by rw [hsize]; decide) (by decide)
      rw [hcount, hsize, nil_append] at h
      exact h.trans (congrArg (Except.map _) (ih k (by omega)))

end PowerDNS
