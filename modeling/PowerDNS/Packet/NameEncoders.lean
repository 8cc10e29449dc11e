import PowerDNS.Packet.DecodeEncode

/-!
# Three encoders of a name

Besides `xfrLabel` there are two functions that turn the text of a name into octets.
`EncodeDNSLabel` (`dnsparser.cc`) takes the text apart like `xfrLabel` and undoes the escaping
with the same two replacements in the other order, which makes no difference
(`EncodeDNSLabel_labelsText`). `simpleCompress` cuts the text at every dot and undoes nothing.

`encoders_agree_iff` says when the three agree on a text that the packet reader returns: when
there is no backslash in it.
-/

namespace PowerDNS

open List

/-! ### `EncodeDNSLabel` -/

/-- `EncodeDNSLabel(input)`. -/
def EncodeDNSLabel (input : Octets) : Octets :=
  -- otherwise we encode ..
  if input = [dot] then [0]
  else
    let parts := labeltokUnescape input
    let encodePart (i : Nat × Nat) : Octets :=
      if parts.2 then
        let part := replaceAll backslash dot dot
          (replaceAll backslash backslash backslash (rawPart input i))
        UInt8.ofNat part.length :: part
      else UInt8.ofNat (i.2 - i.1) :: rawPart input i
    parts.1.flatMap encodePart ++ [0]

/-- A label with its dots escaped: what the replacement of the backslashes leaves. -/
def escapeDots : Octets → Octets
  | [] => []
  | c :: l => if c = dot then backslash :: dot :: escapeDots l else c :: escapeDots l

/-- A label whose dots are escaped does not begin with a dot. -/
theorem head?_escapeDots (l : Octets) : (escapeDots l).head? ≠ some dot := by
  cases l with
  | nil => simp [escapeDots]
  | cons c l =>
    unfold escapeDots
    split
    next => simp [dot_ne_backslash.symm]
    next hc =>
      intro h
      exact hc (Option.some.inj h)

theorem replaceAll_backslashes_escapeLabel (l : Octets) :
    replaceAll backslash backslash backslash (escapeLabel l) = escapeDots l := by
  induction l with
  | nil => rfl
  | cons c l ih =>
    unfold escapeLabel escapeDots
    by_cases hd : c = dot
    · -- the backslash stays, and so does the dot behind it
      rw [if_pos (.inl hd), if_pos hd, hd]
      change replaceAll backslash backslash backslash (backslash :: dot :: escapeLabel l) = _
      rw [replaceAll_cons fun _ => by simp [dot_ne_backslash],
        replaceAll_cons fun h => absurd h dot_ne_backslash, ih]
    · by_cases hb : c = backslash
      · rw [if_pos (.inr hb), if_neg hd, hb]
        change replaceAll backslash backslash backslash (backslash :: backslash :: escapeLabel l) = _
        rw [replaceAll, if_pos ⟨rfl, rfl⟩, ih]
      · rw [if_neg (not_or.mpr ⟨hd, hb⟩), if_neg hd]
        change replaceAll backslash backslash backslash (c :: escapeLabel l) = _
        rw [replaceAll_cons fun h => absurd h hb, ih]

theorem replaceAll_escapeDots (l : Octets) : replaceAll backslash dot dot (escapeDots l) = l := by
  induction l with
  | nil => rfl
  | cons c l ih =>
    unfold escapeDots
    split
    next hd => rw [replaceAll, if_pos ⟨rfl, rfl⟩, ih, hd]
    next hd => rw [replaceAll_cons fun _ => head?_escapeDots l, ih]

variable {ls : List Octets}

/-- The parts of the text of labels, encoded one after the other. -/
theorem flatMap_labelOffsets {label : Octets} {dotted unescaped : Bool} {p : Nat}
    (hls : ∀ l ∈ ls, l ≠ []) (hdrop : label.drop p = labelsText dotted ls)
    (hunescaped : unescaped = true ∨ ∀ l ∈ ls, escapeLabel l = l) :
    ((labelOffsets p ls).flatMap fun i =>
      if unescaped then
        UInt8.ofNat (replaceAll backslash dot dot
          (replaceAll backslash backslash backslash (rawPart label i))).length ::
            replaceAll backslash dot dot
              (replaceAll backslash backslash backslash (rawPart label i))
      else UInt8.ofNat (i.2 - i.1) :: rawPart label i) = labelOctets ls := by
  induction ls generalizing p with
  | nil => rfl
  | cons l ls ih =>
    have hrest : label.drop (p + (escapeLabel l).length + 1) = labelsText dotted ls := by
      rw [Nat.add_assoc, ← drop_drop, hdrop, drop_labelsText]
    rw [labelOffsets, flatMap_cons, rawPart_labelsText (hls l mem_cons_self) hdrop,
      replaceAll_backslashes_escapeLabel, replaceAll_escapeDots,
      ih (fun l' hl' => hls l' (mem_cons_of_mem _ hl')) hrest
        (hunescaped.imp_right fun h l' hl' => h l' (mem_cons_of_mem _ hl'))]
    split
    next => rfl
    next hflag =>
      rw [hunescaped.resolve_left hflag l mem_cons_self, Nat.add_sub_cancel_left]
      rfl

variable {l : Octets}

/-- **`EncodeDNSLabel`** encodes the text of labels as these labels. -/
theorem EncodeDNSLabel_labelsText (dotted : Bool)
    (hls : ∀ l' ∈ l :: ls, l' ≠ []) :
    EncodeDNSLabel (labelsText dotted (l :: ls)) = wireLabels (l :: ls) := by
  have hparts : labeltokUnescape (labelsText dotted (l :: ls)) =
      (labelOffsets 0 (l :: ls), (l :: ls).any fun l => escapeLabel l != l) :=
    labeltokUnescape_labelsText dotted 0 hls
  unfold EncodeDNSLabel
  rw [if_neg (labelsText_ne_root (hls l mem_cons_self)), hparts, wireLabels_eq,
    ← flatMap_labelOffsets hls drop_zero (any_escaped_or (l :: ls))]

theorem EncodeDNSLabel_readText (hls : ∀ l ∈ ls, l ≠ []) :
    EncodeDNSLabel (readText [] ls) = wireLabels ls := by
  cases ls with
  | nil => rfl
  | cons l ls =>
    rw [readText_cons]
    exact EncodeDNSLabel_labelsText true hls

/-! ### `simpleCompress` -/

/-- The loop of `vstringtok(parts, in, ".")` at position `pos`, behind leading dots or inside a
token that began at `start`. -/
def vstringtokFrom : Nat → Option Nat → Octets → List (Nat × Nat)
  | _, none, [] => []
  | pos, some start, [] => [(start, pos)]
  | pos, none, c :: t =>
    if c = dot then vstringtokFrom (pos + 1) none t else vstringtokFrom (pos + 1) (some pos) t
  | pos, some start, c :: t =>
    if c = dot then (start, pos) :: vstringtokFrom (pos + 1) none t
    else vstringtokFrom (pos + 1) (some start) t

/-- `strncasecmp(a, b, n) == 0` for C strings. -/
def strncasecmpEq : Nat → Octets → Octets → Bool
  | 0, _, _ => true
  | n + 1, a, b =>
    dnsTolower (a.headD 0) == dnsTolower (b.headD 0) &&
      (a.headD 0 == 0 || strncasecmpEq n a.tail b.tail)

/-- The loop of `simpleCompress` over the parts of `label`. -/
def simpleCompressParts (label root : Octets) : List (Nat × Nat) → Octets
  | [] => [0]
  | i :: is =>
    -- also match trailing 0, hence '1 +'
    if root ≠ [] ∧ strncasecmpEq (1 + label.length - i.1) root (label.drop i.1) then [0xc0, 0x11]
    else UInt8.ofNat (i.2 - i.1) :: rawPart label i ++ simpleCompressParts label root is

/-- `simpleCompress(label, root)`. -/
def simpleCompress (label : Octets) (root : Octets := []) : Octets :=
  simpleCompressParts label root (vstringtokFrom 0 none label)

/-- Inside a token the loop runs up to the next dot. -/
theorem vstringtokFrom_some {tok t : Octets} (htok : dot ∉ tok) (pos start : Nat) :
    vstringtokFrom pos (some start) (tok ++ dot :: t) =
      (start, pos + tok.length) :: vstringtokFrom (pos + tok.length + 1) none t := by
  induction tok generalizing pos with
  | nil => rfl
  | cons c tok ih =>
    rw [mem_cons, not_or] at htok
    rw [cons_append, vstringtokFrom, if_neg (Ne.symm htok.1), ih htok.2, length_cons,
      Nat.add_right_comm, Nat.add_assoc pos]

/-- A token without dots, and the dot behind it. -/
theorem vstringtokFrom_none {tok t : Octets} (hne : tok ≠ []) (htok : dot ∉ tok) (pos : Nat) :
    vstringtokFrom pos none (tok ++ dot :: t) =
      (pos, pos + tok.length) :: vstringtokFrom (pos + tok.length + 1) none t := by
  obtain ⟨c, tok, rfl⟩ := exists_cons_of_ne_nil hne
  rw [mem_cons, not_or] at htok
  rw [cons_append, vstringtokFrom, if_neg (Ne.symm htok.1), vstringtokFrom_some htok.2,
    length_cons, Nat.add_right_comm, Nat.add_assoc pos]

/-- What `simpleCompress` makes of the text from `p` on, when a token begins there. -/
theorem simpleCompressParts_token {label tok t : Octets} {p : Nat} (hne : tok ≠ [])
    (htok : dot ∉ tok) (hdrop : label.drop p = tok ++ dot :: t) :
    simpleCompressParts label [] (vstringtokFrom p none (label.drop p)) =
      UInt8.ofNat tok.length :: tok ++ simpleCompressParts label []
        (vstringtokFrom (p + tok.length + 1) none (label.drop (p + tok.length + 1))) := by
  have hp : p ≤ label.length := by
    by_contra hlt
    rw [drop_eq_nil_of_le (by omega)] at hdrop
    simp at hdrop
  have hraw : rawPart label (p, p + tok.length) = tok := by
    unfold rawPart
    rw [drop_append_of_le_length hp, hdrop, Nat.add_sub_cancel_left, append_assoc,
      take_left]
  have hrest : label.drop (p + tok.length + 1) = t := by
    rw [Nat.add_assoc, ← drop_drop, hdrop, ← drop_drop, drop_left]
    rfl
  rw [hrest, hdrop, vstringtokFrom_none hne htok, simpleCompressParts, if_neg (by simp), hraw,
    Nat.add_sub_cancel_left]

/-! ### When they agree -/

theorem mem_escapeLabel {c : UInt8} (h : c ≠ backslash) :
    c ∈ escapeLabel l ↔ c ∈ l := by
  induction l with
  | nil => exact Iff.rfl
  | cons d l ih =>
    unfold escapeLabel
    split
    next => simp [ih, h]
    next => simp [ih]

theorem backslash_mem_escapeLabel : backslash ∈ escapeLabel l ↔ escapeLabel l ≠ l := by
  induction l with
  | nil => simp
  | cons c l ih =>
    unfold escapeLabel
    split
    next hc =>
      refine iff_of_true (by simp) fun h => ?_
      have hlen := congrArg List.length h
      have hle := length_le_escapeLabel l
      simp only [length_append, length_cons, length_nil] at hlen
      omega
    next hc =>
      rw [not_or] at hc
      simp [ih, Ne.symm hc.2]

theorem length_escapeLabel_le (l : Octets) : (escapeLabel l).length ≤ 2 * l.length := by
  induction l with
  | nil => exact Nat.le_refl 0
  | cons c l ih =>
    unfold escapeLabel
    split <;> simp only [length_append, length_cons, length_nil] <;> omega

/-- There is a backslash in a text when a label is escaped. -/
theorem backslash_mem_dottedText :
    backslash ∉ dottedText ls ↔ ∀ l ∈ ls, escapeLabel l = l := by
  induction ls with
  | nil => simp
  | cons l ls ih =>
    rw [dottedText_cons, mem_append, mem_cons, backslash_mem_escapeLabel, not_or, not_or,
      not_not, ih, forall_mem_cons]
    exact and_congr_right fun _ => and_iff_right dot_ne_backslash.symm

/-- A label that is escaped is not what `simpleCompress` makes of it: its first token has a
length of its own. -/
theorem token_ne_label {l tok rest X Y : Octets} (hlen : l.length ≤ 191) (htok : dot ∉ tok)
    (htext : escapeLabel l = tok ∨ escapeLabel l = tok ++ dot :: rest) (hescaped : escapeLabel l ≠ l) :
    UInt8.ofNat tok.length :: tok ++ X ≠ UInt8.ofNat l.length :: l ++ Y := by
  intro h
  rw [cons_append, cons_append, List.cons.injEq] at h
  obtain ⟨hhead, htail⟩ := h
  have hle : tok.length ≤ (escapeLabel l).length := by
    rcases htext with heq | heq
    · rw [heq]
    · rw [heq, length_append]
      exact Nat.le_add_right _ _
  have htwice := length_escapeLabel_le l
  -- the lengths are equal, for they differ by less than 256
  have hmod := congrArg UInt8.toNat hhead
  rw [UInt8.toNat_ofNat', UInt8.toNat_ofNat'] at hmod
  have hlength : tok.length = l.length := by omega
  have htokl : tok = l := (append_inj htail hlength).1
  rw [htokl] at htok htext
  have hnodot : dot ∉ escapeLabel l := fun h => htok ((mem_escapeLabel dot_ne_backslash).mp h)
  rcases htext with heq | heq
  · exact hescaped heq
  · exact hnodot (heq ▸ mem_append_right l mem_cons_self)

/-- The first token of an escaped label. -/
theorem exists_token (hl : l ≠ []) :
    ∃ tok rest, tok ≠ [] ∧ dot ∉ tok ∧
      (escapeLabel l = tok ∨ escapeLabel l = tok ++ dot :: rest) := by
  by_cases hdot : dot ∈ escapeLabel l
  · obtain ⟨tok, rest, heq, htok⟩ := eq_append_cons_of_mem hdot
    refine ⟨tok, rest, ?_, htok, .inr heq⟩
    rintro rfl
    exact head?_escapeLabel l (by rw [heq]; rfl)
  · exact ⟨escapeLabel l, [], mt escapeLabel_eq_nil.mp hl, hdot, .inl rfl⟩

/-- **`simpleCompress`** makes the labels of a text if and only if no label is escaped. -/
theorem simpleCompressParts_eq_iff {label : Octets} {p : Nat}
    (hls : ∀ l ∈ ls, l ≠ [] ∧ l.length ≤ 191) (hdrop : label.drop p = dottedText ls) :
    simpleCompressParts label [] (vstringtokFrom p none (label.drop p)) = wireLabels ls ↔
      ∀ l ∈ ls, escapeLabel l = l := by
  induction ls generalizing p with
  | nil =>
    rw [hdrop]
    simp [vstringtokFrom, simpleCompressParts, wireLabels]
  | cons l ls ih =>
    obtain ⟨hne, hlen⟩ := hls l mem_cons_self
    rw [forall_mem_cons]
    by_cases hescaped : escapeLabel l = l
    · -- the label is the token, and what follows decides
      rw [dottedText_cons, hescaped] at hdrop
      have hnodot : dot ∉ l := by
        intro hdot
        obtain ⟨pre, post, heq, -⟩ := eq_append_cons_of_mem hdot
        have hcons : escapeLabel (dot :: post) = backslash :: dot :: escapeLabel post := rfl
        have hlength := congrArg List.length hescaped
        rw [heq, escapeLabel_append, hcons] at hlength
        have hpre := length_le_escapeLabel pre
        have hpost := length_le_escapeLabel post
        simp only [length_append, length_cons] at hlength
        omega
      have hrest : label.drop (p + l.length + 1) = dottedText ls := by
        rw [Nat.add_assoc, ← drop_drop, hdrop, ← drop_drop, drop_left]
        rfl
      rw [simpleCompressParts_token hne hnodot hdrop, wireLabels, append_cancel_left_eq,
        ih (fun l' hl' => hls l' (mem_cons_of_mem _ hl')) hrest]
      exact (and_iff_right hescaped).symm
    · obtain ⟨tok, rest, htokne, htok, htext⟩ := exists_token hne
      refine iff_of_false ?_ fun h => hescaped h.1
      obtain ⟨t, ht⟩ : ∃ t, label.drop p = tok ++ dot :: t := by
        rw [hdrop, dottedText_cons]
        rcases htext with heq | heq
        · exact ⟨dottedText ls, by rw [heq]⟩
        · exact ⟨rest ++ dot :: dottedText ls, by rw [heq, append_assoc, cons_append]⟩
      rw [simpleCompressParts_token htokne htok ht, wireLabels]
      exact token_ne_label hlen htok htext hescaped

/-- **When the encoders agree.** On a text that the packet reader returns, `xfrLabel` without
compression, `EncodeDNSLabel` and `simpleCompress` with an empty root make the same octets if
and only if there is no backslash in it. -/
theorem encoders_agree_iff {content : Octets} {fuel : Nat} {frompos : UInt16}
    {r : Octets × UInt16} (h : getLabelFromContent content fuel frompos [] 0 = .ok r)
    (w : DNSPacketWriter) :
    ((∃ w', w.xfrLabel r.1 false = some w' ∧ w'.d_record = w.d_record ++ EncodeDNSLabel r.1) ∧
      EncodeDNSLabel r.1 = simpleCompress r.1 []) ↔ backslash ∉ r.1 := by
  rw [getLabelFromContent_eq] at h
  cases hraw : rawLabels content fuel frompos 0 with
  | error e =>
    rw [hraw] at h
    cases h
  | ok labels =>
    rw [hraw] at h
    obtain rfl := Except.ok.inj h
    have hls := length_rawLabels hraw
    have hencode := EncodeDNSLabel_readText fun l hl => (hls l hl).1
    have hxfr : ∃ w', w.xfrLabel (readText [] labels.1) false = some w' ∧
        w'.d_record = w.d_record ++ EncodeDNSLabel (readText [] labels.1) := by
      obtain ⟨entries, heq⟩ := xfrLabel_readText w hls
      refine ⟨_, heq, ?_⟩
      rw [hencode]
      rfl
    dsimp only
    rw [and_iff_right hxfr, hencode]
    cases hlabels : labels.1 with
    | nil => decide
    | cons l ls =>
      rw [hlabels] at hls
      have htext : readText [] (l :: ls) = dottedText (l :: ls) := readText_cons
      rw [htext, backslash_mem_dottedText, eq_comm]
      exact simpleCompressParts_eq_iff hls rfl

/-- A writer with nothing but a header. -/
def emptyWriter : DNSPacketWriter :=
  { d_content := DNSPacketWriter.questionHeader 0, d_qname := [], d_sor := 12 }

/-- The name `a.b.`. -/
theorem encoders_agree_plain :
    (∃ w', emptyWriter.xfrLabel (ascii "a.b.") false = some w' ∧
        w'.d_record = emptyWriter.d_record ++ EncodeDNSLabel (ascii "a.b.")) ∧
      EncodeDNSLabel (ascii "a.b.") = simpleCompress (ascii "a.b.") [] :=
  (@encoders_agree_iff [1, 97, 1, 98, 0] 3 0 (ascii "a.b.", 5) (by decide)
    emptyWriter).mpr (by decide)

/-- One label of the octets `a`, dot, `b`: two encoders make three octets of it, the third makes
two labels. -/
theorem encoders_disagree_dot :
    getLabelFromContent [3, 97, 46, 98, 0] 2 0 [] 0 = .ok (ascii "a\\.b.", 5) ∧
      (emptyWriter.xfrLabel (ascii "a\\.b.") false).map (·.d_record) =
        some [3, 97, 46, 98, 0] ∧
      EncodeDNSLabel (ascii "a\\.b.") = [3, 97, 46, 98, 0] ∧
      simpleCompress (ascii "a\\.b.") [] = [2, 97, 92, 1, 98, 0] := by
  decide

end PowerDNS
