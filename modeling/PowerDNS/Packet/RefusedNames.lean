import PowerDNS.Packet.Compression
import PowerDNS.Packet.NameText
import PowerDNS.Packet.Termination

/-!
# Names that the writer refuses, and names that it should

`DNSPacketWriter::xfrLabel` is given a text, and is to write octets that the reader takes apart into the
labels of that text. Not every text has labels that fit a packet. The writer throws for a label of more than
255 octets, and that only when there is a backslash somewhere in the text; all else is written.

The text is taken here as a sequence of tokens (`LabelToken`): an octet, an octet with a backslash in front
of it, or a backslash at the end of the text, which the writer takes together with the NUL behind the text.
A label has three forms: as it stands in the text, as it is meant, and as the writer leaves it, which takes
away the backslash in front of dots and backslashes only.

`refusesOrEncodes_iff` says which texts are treated as they should be. Compression is part of it: the labels
that count are those in front of the first rest of the text that the label map knows.
-/

namespace PowerDNS

open CompressedName List Bool

/-! ### What the writer should do -/

/-- Octets that a name may take in a packet: labels of 1 to 63 octets, each behind its length, and then the
root or, if `pointers`, a pointer. -/
def WireForm (pointers : Bool) (octets : Octets) : Prop :=
  ∃ (ls : List Octets) (tail : Octets), octets = labelOctets ls ++ tail ∧ (∀ l ∈ ls, IsLabel l) ∧
    (tail = [0] ∨ pointers = true ∧ ∃ hi lo : UInt8, 192 ≤ hi ∧ tail = [hi, lo])

/-- `compress` of `xfrLabel`, once it has looked at `d_canonic`. -/
def DNSPacketWriter.compresses (w : DNSPacketWriter) (compress : Bool) : Bool :=
  if w.d_canonic then false else compress

/-- What `xfrLabel` has written is a name, and in every packet with all that is determined so far the reader
finds the labels of the text there, up to case when there may be a pointer. -/
structure Encoded (w w' : DNSPacketWriter) (text : Octets) (compress : Bool) : Prop where
  wire : ∃ octets, w'.d_record = w.d_record ++ octets ∧ WireForm (w.compresses compress) octets
  reads : ∀ content : Octets, content.length ≤ 65535 → Readable content w'.mem →
    ∃ val d_pos, getLabel content (UInt16.ofNat (w.writePos - 12)) = .ok (val, d_pos) ∧
      lowerLabels (labelsOf val) = lowerLabels (labelsOf text) ∧
      (w.compresses compress = false → labelsOf val = labelsOf text)

/-- Either `xfrLabel` throws, or it encodes the text. -/
def RefusesOrEncodes (w : DNSPacketWriter) (text : Octets) (compress : Bool) : Prop :=
  w.xfrLabel text compress = none ∨ ∃ w', w.xfrLabel text compress = some w' ∧ Encoded w w' text compress

/-! ### The labels of any text -/

/-- What a label of a text is made of. -/
inductive LabelToken
  | plain (c : UInt8)
  | escaped (c : UInt8)
  /-- A backslash at the end of the text. -/
  | dangling
  deriving DecidableEq

namespace LabelToken

/-- The token as `xfrLabel` finds it, with the NUL behind the text. -/
def raw : LabelToken → Octets
  | plain c => [c]
  | escaped c => [backslash, c]
  | dangling => [backslash, 0]

/-- The octet that is meant. -/
def meant : LabelToken → Octets
  | plain c => [c]
  | escaped c => [c]
  | dangling => []

/-- What the replacements of `xfrLabel` leave of it. -/
def kept : LabelToken → Octets
  | plain c => [c]
  | escaped c => if c = dot ∨ c = backslash then [c] else [backslash, c]
  | dangling => [backslash, 0]

/-- An escape that the writer undoes, or no escape. -/
def isProper : LabelToken → Bool
  | plain _ => true
  | escaped c => c == dot || c == backslash
  | dangling => false

/-- Dots and backslashes are never plain. -/
def WF : LabelToken → Prop
  | plain c => c ≠ dot ∧ c ≠ backslash
  | _ => True

end LabelToken

/-- A label as it stands in the text. -/
def rawLabel (l : List LabelToken) : Octets := l.flatMap LabelToken.raw

/-- A label as it is meant. -/
def meantLabel (l : List LabelToken) : Octets := l.flatMap LabelToken.meant

/-- A label as the writer leaves it. -/
def keptLabel (l : List LabelToken) : Octets := l.flatMap LabelToken.kept

/-- The labels of a text with their offsets, read from inside a label: it begins at `lpos`, and `cur` is what
it has so far. -/
def scanLabels : Nat → List LabelToken → Octets → List (Nat × List LabelToken)
  | lpos, cur, [] => if cur = [] then [] else [(lpos, cur)]
  | lpos, cur, c :: t =>
    if c = backslash then
      match t with
      | [] => [(lpos, cur ++ [.dangling])]
      | d :: t => scanLabels lpos (cur ++ [.escaped d]) t
    else if c = dot then (lpos, cur) :: scanLabels (lpos + (rawLabel cur).length + 1) [] t
    else scanLabels lpos (cur ++ [.plain c]) t

section Scanning

variable {cur : List LabelToken} {lpos : Nat}

theorem rawLabel_append (l l' : List LabelToken) : rawLabel (l ++ l') = rawLabel l ++ rawLabel l' :=
  flatMap_append

theorem meantLabel_append (l l' : List LabelToken) : meantLabel (l ++ l') = meantLabel l ++ meantLabel l' :=
  flatMap_append

theorem length_rawLabel_pos {l : List LabelToken} (h : l ≠ []) : 0 < (rawLabel l).length := by
  obtain ⟨t, l, rfl⟩ := exists_cons_of_ne_nil h
  change 0 < (t.raw ++ rawLabel l).length
  rw [length_append]
  cases t <;> exact Nat.lt_of_lt_of_le (Nat.succ_pos _) (Nat.le_add_right _ _)

theorem scanLabels_escape (lpos : Nat) (cur : List LabelToken) (d : UInt8) (t : Octets) :
    scanLabels lpos cur (backslash :: d :: t) = scanLabels lpos (cur ++ [.escaped d]) t := by
  exact if_pos rfl

theorem scanLabels_dot (lpos : Nat) (cur : List LabelToken) (t : Octets) :
    scanLabels lpos cur (dot :: t) = (lpos, cur) :: scanLabels (lpos + (rawLabel cur).length + 1) [] t := by
  rw [scanLabels.eq_def]
  exact (if_neg dot_ne_backslash).trans (if_pos rfl)

theorem scanLabels_octet {c : UInt8} (hdot : c ≠ dot) (hback : c ≠ backslash) (lpos : Nat)
    (cur : List LabelToken) (t : Octets) :
    scanLabels lpos cur (c :: t) = scanLabels lpos (cur ++ [.plain c]) t := by
  rw [scanLabels.eq_def]
  exact (if_neg hback).trans (if_neg hdot)

/-- `labeltokUnescape` finds the labels by their offsets. -/
theorem labeltokUnescapeFrom_scan (lpos : Nat) (cur : List LabelToken) (t : Octets) :
    (labeltokUnescapeFrom (lpos + (rawLabel cur).length) lpos t).1 =
      (scanLabels lpos cur t).map fun s => (s.1, s.1 + (rawLabel s.2).length) := by
  induction lpos, cur, t using scanLabels.induct with
  | case1 lpos => exact if_neg (Nat.lt_irrefl _)
  | case2 lpos cur hcur =>
    have hpos := length_rawLabel_pos hcur
    unfold labeltokUnescapeFrom scanLabels
    rw [if_neg hcur, if_pos (Nat.lt_add_of_pos_right hpos)]
    rfl
  | case3 lpos cur =>
    have hdangling : (rawLabel (cur ++ [.dangling])).length = (rawLabel cur).length + 2 := by
      rw [rawLabel_append, length_append]
      rfl
    unfold labeltokUnescapeFrom scanLabels
    rw [if_pos rfl, if_pos rfl, if_pos (by omega), map_singleton, hdangling, Nat.add_assoc]
  | case4 lpos cur d t ih =>
    have hescaped : (rawLabel (cur ++ [.escaped d])).length = (rawLabel cur).length + 2 := by
      rw [rawLabel_append, length_append]
      rfl
    rw [labeltokUnescapeFrom_escape, scanLabels_escape, Nat.add_assoc, ← hescaped, ih]
  | case5 lpos cur t _ ih =>
    rw [labeltokUnescapeFrom_dot, scanLabels_dot, map_cons, ← ih]
    rfl
  | case6 lpos cur c t hback hdot ih =>
    have hplain : (rawLabel (cur ++ [.plain c])).length = (rawLabel cur).length + 1 := by
      rw [rawLabel_append, length_append]
      rfl
    rw [labeltokUnescapeFrom_octet hdot hback, scanLabels_octet hdot hback, Nat.add_assoc, ← hplain, ih]

theorem forall_append_token {P : LabelToken → Prop} {tok : LabelToken} (hcur : ∀ tok ∈ cur, P tok)
    (htok : P tok) : ∀ tok' ∈ cur ++ [tok], P tok' :=
  forall_mem_append.mpr ⟨hcur, forall_mem_singleton.mpr htok⟩

variable {cur : List LabelToken}

/-- What holds of every token that is found. -/
theorem forall_scanLabels {P : LabelToken → Prop} {lpos : Nat} {t : Octets}
    (hcur : ∀ tok ∈ cur, P tok) (hplain : ∀ c ∈ t, c ≠ dot → c ≠ backslash → P (.plain c))
    (hescaped : backslash ∈ t → (∀ d, P (.escaped d)) ∧ P .dangling) :
    ∀ s ∈ scanLabels lpos cur t, ∀ tok ∈ s.2, P tok := by
  induction lpos, cur, t using scanLabels.induct with
  | case1 lpos => exact forall_mem_nil _
  | case2 lpos cur hne =>
    unfold scanLabels
    rw [if_neg hne]
    exact forall_mem_singleton.mpr hcur
  | case3 lpos cur =>
    exact forall_mem_singleton.mpr (forall_append_token hcur (hescaped mem_cons_self).2)
  | case4 lpos cur d t ih =>
    obtain ⟨hescaped, hdangling⟩ := hescaped mem_cons_self
    refine ih (forall_append_token hcur (hescaped d)) (fun c hc => hplain c ?_) fun _ => ⟨hescaped, hdangling⟩
    exact mem_cons_of_mem _ (mem_cons_of_mem _ hc)
  | case5 lpos cur t _ ih =>
    rw [scanLabels_dot]
    refine forall_mem_cons.mpr ⟨hcur, ih (forall_mem_nil _) (fun c hc => hplain c ?_) fun h => ?_⟩
    · exact mem_cons_of_mem _ hc
    · exact hescaped (mem_cons_of_mem _ h)
  | case6 lpos cur c t hback hdot ih =>
    rw [scanLabels_octet hdot hback]
    refine ih (forall_append_token hcur (hplain c mem_cons_self hdot hback)) (fun c hc => hplain c ?_) fun h => ?_
    · exact mem_cons_of_mem _ hc
    · exact hescaped (mem_cons_of_mem _ h)

/-- The labels that are meant are those of the text. -/
theorem map_meantLabel_scan {lpos : Nat} {t : Octets}
    (hcur : ∀ tok ∈ cur, tok ≠ .dangling) :
    (scanLabels lpos cur t).map (fun s => meantLabel s.2) = splitLabels false (meantLabel cur) t := by
  induction lpos, cur, t using scanLabels.induct with
  | case1 lpos => rfl
  | case2 lpos cur hne =>
    obtain ⟨tok, cur, rfl⟩ := exists_cons_of_ne_nil hne
    have hmeant : meantLabel (tok :: cur) ≠ [] := by
      cases tok with
      | plain c => exact cons_ne_nil _ _
      | escaped c => exact cons_ne_nil _ _
      | dangling => exact absurd rfl (hcur _ mem_cons_self)
    unfold scanLabels splitLabels
    rw [if_neg hne, if_neg (by simpa using hmeant)]
    rfl
  | case3 lpos cur =>
    have hmeant : meantLabel (cur ++ [.dangling]) = meantLabel cur := by
      rw [meantLabel_append]
      exact append_nil _
    unfold scanLabels splitLabels
    rw [if_pos rfl, if_pos rfl, map_singleton, hmeant]
    unfold splitLabels
    rw [if_neg (by simp)]
  | case4 lpos cur d t ih =>
    rw [scanLabels_escape, ih (forall_append_token hcur LabelToken.noConfusion), meantLabel_append]
    conv_rhs => rw [splitLabels, if_pos rfl, splitLabels]
    rfl
  | case5 lpos cur t _ ih =>
    rw [scanLabels_dot, map_cons, ih (forall_mem_nil _)]
    conv_rhs => rw [splitLabels, if_neg dot_ne_backslash, if_pos rfl]
    rfl
  | case6 lpos cur c t hback hdot ih =>
    rw [scanLabels_octet hdot hback, ih (forall_append_token hcur LabelToken.noConfusion), meantLabel_append]
    conv_rhs => rw [splitLabels, if_neg hback, if_neg hdot]
    rfl

/-- The octets of a part of the text are those of its label. -/
theorem rawPart_scan {label : Octets} {lpos : Nat} {t : Octets}
    (hdrop : (label ++ [0]).drop lpos = rawLabel cur ++ (t ++ [0])) :
    ∀ s ∈ scanLabels lpos cur t, rawPart label (s.1, s.1 + (rawLabel s.2).length) = rawLabel s.2 := by
  have hcut : ∀ {l : List LabelToken} {rest : Octets}, (label ++ [0]).drop lpos = rawLabel l ++ rest →
      rawPart label (lpos, lpos + (rawLabel l).length) = rawLabel l := by
    intro l rest h
    unfold rawPart
    rw [h, Nat.add_sub_cancel_left, take_left]
  induction lpos, cur, t using scanLabels.induct with
  | case1 lpos => exact forall_mem_nil _
  | case2 lpos cur hne =>
    unfold scanLabels
    rw [if_neg hne]
    exact forall_mem_singleton.mpr (hcut hdrop)
  | case3 lpos cur =>
    -- the label ends with the NUL behind the text
    unfold scanLabels
    refine forall_mem_singleton.mpr (@hcut (cur ++ [.dangling]) [] ?_)
    rw [hdrop, rawLabel_append, append_nil]
    rfl
  | case4 lpos cur d t ih =>
    refine ih ?_ hcut
    rw [hdrop, rawLabel_append, append_assoc]
    rfl
  | case5 lpos cur t _ ih =>
    rw [scanLabels_dot]
    have hrest : (label ++ [0]).drop (lpos + (rawLabel cur).length + 1) = t ++ [0] := by
      rw [Nat.add_assoc, ← drop_drop, hdrop, ← drop_drop, drop_left]
      rfl
    refine forall_mem_cons.mpr ⟨hcut hdrop, ih hrest ?_⟩
    intro l rest h
    unfold rawPart
    rw [h, Nat.add_sub_cancel_left, take_left]
  | case6 lpos cur c t hback hdot ih =>
    rw [scanLabels_octet hdot hback]
    refine ih ?_ hcut
    rw [hdrop, rawLabel_append, append_assoc]
    rfl

/-- The writer notices an escape, and nothing else. -/
theorem labeltokUnescape_flag (text : Octets) : (labeltokUnescape text).2 = true ↔ backslash ∈ text := by
  have hclean : ∀ (t : Octets) (pos lpos : Nat), backslash ∉ t → (labeltokUnescapeFrom pos lpos t).2 = false := by
    intro t
    induction t with
    | nil => exact fun _ _ _ => rfl
    | cons c t ih =>
      intro pos lpos h
      obtain ⟨hc, ht⟩ := not_or.mp (mt mem_cons.mpr h)
      by_cases hd : c = dot
      · rw [hd, labeltokUnescapeFrom_dot]
        exact ih _ _ ht
      · rw [labeltokUnescapeFrom_octet hd (Ne.symm hc)]
        exact ih _ _ ht
  refine ⟨fun h => ?_, fun h => labeltokUnescapeFrom_flag h 0 0⟩
  by_contra hnot
  exact false_ne_true ((hclean text 0 0 hnot).symm.trans h)

end Scanning

/-! ### What the writer leaves of a label -/

section Kept

variable {l : List LabelToken}

/-- What the first replacement leaves. -/
def halfToken : LabelToken → Octets
  | .escaped c => if c = dot then [dot] else [backslash, c]
  | tok => tok.raw

theorem head_rawLabel (hwf : ∀ tok ∈ l, tok.WF) : (rawLabel l).head? ≠ some dot := by
  cases l with
  | nil => exact fun h => nomatch h
  | cons tok l =>
    cases tok with
    | plain c =>
      intro h
      exact (hwf _ mem_cons_self).1 (Option.some.inj h)
    | escaped c => exact fun h => dot_ne_backslash (Option.some.inj h).symm
    | dangling => exact fun h => dot_ne_backslash (Option.some.inj h).symm

theorem replaceAll_rawLabel (hwf : ∀ tok ∈ l, tok.WF) :
    replaceAll backslash dot dot (rawLabel l) = l.flatMap halfToken := by
  induction l with
  | nil => rfl
  | cons tok l ih =>
    obtain ⟨htok, hrest⟩ := forall_mem_cons.mp hwf
    have hhead := head_rawLabel hrest
    rw [flatMap_cons, ← ih hrest]
    cases tok with
    | plain c => exact replaceAll_cons fun heq => absurd heq htok.2
    | escaped c =>
      change replaceAll backslash dot dot (backslash :: c :: rawLabel l) = (if c = dot then _ else _) ++ _
      by_cases hc : c = dot
      · rw [if_pos hc, hc, replaceAll, if_pos ⟨rfl, rfl⟩]
        rfl
      · have hnext : (c :: rawLabel l).head? ≠ some dot := fun heq => hc (Option.some.inj heq)
        rw [if_neg hc, replaceAll_cons fun _ => hnext, replaceAll_cons fun _ => hhead]
        rfl
    | dangling =>
      have hnext : (0 :: rawLabel l).head? ≠ some dot := fun heq => by cases heq
      change replaceAll backslash dot dot (backslash :: 0 :: rawLabel l) = _
      rw [replaceAll_cons fun _ => hnext, replaceAll_cons fun _ => hhead]
      rfl

theorem replaceAll_half (hwf : ∀ tok ∈ l, tok.WF) :
    replaceAll backslash backslash backslash (l.flatMap halfToken) = keptLabel l := by
  induction l with
  | nil => rfl
  | cons tok l ih =>
    obtain ⟨htok, hrest⟩ := forall_mem_cons.mp hwf
    change _ = tok.kept ++ keptLabel l
    rw [flatMap_cons, ← ih hrest]
    cases tok with
    | plain c => exact replaceAll_cons fun heq => absurd heq htok.2
    | escaped c =>
      have hhalf : halfToken (.escaped c) = if c = dot then [dot] else [backslash, c] := rfl
      have hkept : (LabelToken.escaped c).kept = if c = dot ∨ c = backslash then [c] else [backslash, c] := rfl
      rw [hhalf, hkept]
      by_cases hdot : c = dot
      · rw [if_pos hdot, if_pos (.inl hdot), hdot]
        exact replaceAll_cons fun heq => absurd heq dot_ne_backslash
      · rw [if_neg hdot]
        by_cases hback : c = backslash
        · rw [if_pos (.inr hback), hback]
          rfl
        · have hnext : (c :: l.flatMap halfToken).head? ≠ some backslash :=
            fun heq => hback (Option.some.inj heq)
          rw [if_neg (not_or.mpr ⟨hdot, hback⟩)]
          change replaceAll backslash backslash backslash (backslash :: c :: l.flatMap halfToken) = _
          rw [replaceAll_cons fun _ => hnext, replaceAll_cons fun heq => absurd heq hback]
          rfl
    | dangling =>
      have hnext : (0 :: l.flatMap halfToken).head? ≠ some backslash := fun heq => by cases heq
      change replaceAll backslash backslash backslash (backslash :: 0 :: l.flatMap halfToken) = _
      rw [replaceAll_cons fun _ => hnext, replaceAll_cons fun heq => absurd heq (by decide)]
      rfl

/-- The two replacements. -/
theorem replaceAll_kept (hwf : ∀ tok ∈ l, tok.WF) : replaceAll backslash backslash backslash
    (replaceAll backslash dot dot (rawLabel l)) = keptLabel l := by
  rw [replaceAll_rawLabel hwf, replaceAll_half hwf]

/-- An octet too many stays for every escape that the writer does not undo. -/
theorem meant_kept (l : List LabelToken) : (meantLabel l).length ≤ (keptLabel l).length ∧
    ((meantLabel l).length = (keptLabel l).length ↔ ∀ tok ∈ l, tok.isProper = true) ∧
    ((∀ tok ∈ l, tok.isProper = true) → keptLabel l = meantLabel l) := by
  induction l with
  | nil => exact ⟨Nat.le_refl _, ⟨fun _ => forall_mem_nil _, fun _ => rfl⟩, fun _ => rfl⟩
  | cons tok l ih =>
    obtain ⟨hle, hiff, heq⟩ := ih
    have hmeant : (meantLabel (tok :: l)) = tok.meant ++ meantLabel l := rfl
    have hkept : (keptLabel (tok :: l)) = tok.kept ++ keptLabel l := rfl
    rw [hmeant, hkept, length_append, length_append, forall_mem_cons, ← hiff]
    -- a token alone
    have htok : (tok.isProper = true ∧ tok.kept = tok.meant) ∨
        tok.isProper = false ∧ tok.meant.length < tok.kept.length := by
      cases tok with
      | plain c => exact .inl ⟨rfl, rfl⟩
      | dangling => exact .inr ⟨rfl, by decide⟩
      | escaped c =>
        by_cases hc : c = dot ∨ c = backslash
        · refine .inl ⟨?_, if_pos hc⟩
          simpa [LabelToken.isProper] using hc
        · refine .inr ⟨?_, ?_⟩
          · simpa [LabelToken.isProper] using hc
          · have hkept : (LabelToken.escaped c).kept = [backslash, c] := if_neg hc
            rw [hkept]
            exact Nat.lt_succ_self 1
    rcases htok with ⟨hproper, hsame⟩ | ⟨hproper, hlt⟩
    · rw [hproper, hsame]
      refine ⟨by omega, ⟨fun h => ⟨rfl, by omega⟩, fun h => by omega⟩, fun h => ?_⟩
      rw [heq (hiff.mp h.2)]
    · rw [hproper]
      exact ⟨by omega, ⟨fun h => by omega, fun h => absurd h.1 false_ne_true⟩,
        fun h => absurd h.1 false_ne_true⟩

end Kept

/-! ### What the writer writes -/

/-- How many labels the loop of `xfrLabel` writes in full, and where the pointer goes, if there is one. -/
def wholeLabels (label : Octets) (deDot compress : Bool) :
    List (Nat × List LabelToken) → Nat → LabelMap → Nat × Option Nat
  | [], _, _ => (0, none)
  | s :: ss, pos, lmap =>
    match (if compress then lmap.lookup (chopped label deDot s.1) else none) with
    | some li => (0, some li)
    | none =>
      let r := wholeLabels label deDot compress ss (pos + (keptLabel s.2).length + 1)
        (if pos < 16384 then lmap ++ [(chopped label deDot s.1, pos)] else lmap)
      (r.1 + 1, r.2)

/-- The octets behind the labels that are written in full. -/
def tailOctets : Option Nat → Octets
  | none => [0]
  | some li => pointerTo li

/-- The labels among `ss` that are written in full. -/
def frontLabels (ss : List (Nat × List LabelToken)) (n : Nat) : List (List LabelToken) :=
  (ss.take n).map Prod.snd

/-- The octets of labels as the writer leaves them. -/
def keptOctets (ls : List (List LabelToken)) : Octets := labelOctets (ls.map keptLabel)

theorem keptOctets_cons (l : List LabelToken) (ls : List (List LabelToken)) :
    keptOctets (l :: ls) = UInt8.ofNat (keptLabel l).length :: keptLabel l ++ keptOctets ls := rfl

theorem frontLabels_cons (s : Nat × List LabelToken) (ss : List (Nat × List LabelToken)) (n : Nat) :
    frontLabels (s :: ss) (n + 1) = s.2 :: frontLabels ss n := rfl

section Loop

variable {label : Octets} {deDot unescaped compress : Bool} {ss : List (Nat × List LabelToken)} {pos : Nat}
  {lmap : LabelMap}

theorem wholeLabels_cons_of_none {s : Nat × List LabelToken}
    (h : (if compress then lmap.lookup (chopped label deDot s.1) else none) = none) :
    wholeLabels label deDot compress (s :: ss) pos lmap =
      ((wholeLabels label deDot compress ss (pos + (keptLabel s.2).length + 1)
        (if pos < 16384 then lmap ++ [(chopped label deDot s.1, pos)] else lmap)).1 + 1,
      (wholeLabels label deDot compress ss (pos + (keptLabel s.2).length + 1)
        (if pos < 16384 then lmap ++ [(chopped label deDot s.1, pos)] else lmap)).2) := by
  rw [wholeLabels, h]

theorem wholeLabels_cons_of_some {s : Nat × List LabelToken} {li : Nat}
    (h : (if compress then lmap.lookup (chopped label deDot s.1) else none) = some li) :
    wholeLabels label deDot compress (s :: ss) pos lmap = (0, some li) := by
  rw [wholeLabels, h]

/-- Without compression there is no pointer. -/
theorem wholeLabels_false : (wholeLabels label deDot false ss pos lmap).2 = none := by
  induction ss generalizing pos lmap with
  | nil => rfl
  | cons s ss ih =>
    exact ih

/-- A pointer goes to an entry that was there before, or back to a label of this very name. -/
theorem wholeLabels_pointer {li : Nat} (hsmall : ∀ e ∈ lmap, e.2 < 16384)
    (h : (wholeLabels label deDot compress ss pos lmap).2 = some li) : li < 16384 ∧
      ((∃ e ∈ lmap, e.2 = li) ∨ ∃ j < (wholeLabels label deDot compress ss pos lmap).1, li = pos +
        (keptOctets ((frontLabels ss (wholeLabels label deDot compress ss pos lmap).1).take j)).length) := by
  induction ss generalizing pos lmap with
  | nil => cases h
  | cons s ss ih =>
    cases hfound : (if compress then lmap.lookup (chopped label deDot s.1) else none) with
    | some li' =>
      rw [wholeLabels_cons_of_some hfound] at h
      obtain rfl := Option.some.inj h
      have hlook : lmap.lookup (chopped label deDot s.1) = some li' := by
        cases compress with
        | true => exact hfound
        | false => cases hfound
      obtain ⟨e, he, -, rfl⟩ := LabelMap.exists_of_lookup hlook
      exact ⟨hsmall e he, .inl ⟨e, he, rfl⟩⟩
    | none =>
      have hsmall' : ∀ e ∈ (if pos < 16384 then lmap ++ [(chopped label deDot s.1, pos)] else lmap),
          e.2 < 16384 := by
        split
        next hpos => exact forall_mem_append.mpr ⟨hsmall, forall_mem_singleton.mpr hpos⟩
        next => exact hsmall
      rw [wholeLabels_cons_of_none hfound] at h ⊢
      obtain ⟨hli, hplace⟩ := ih hsmall' h
      refine ⟨hli, ?_⟩
      rcases hplace with ⟨e, he, rfl⟩ | ⟨j, hj, rfl⟩
      · split at he
        · rcases mem_append.mp he with he | he
          · exact .inl ⟨e, he, rfl⟩
          · -- the entry for this label
            rw [mem_singleton.mp he]
            exact .inr ⟨0, Nat.succ_pos _, rfl⟩
        · exact .inl ⟨e, he, rfl⟩
      · refine .inr ⟨j + 1, Nat.succ_lt_succ hj, ?_⟩
        rw [frontLabels_cons, take_succ_cons, keptOctets_cons, length_append, length_cons]
        omega

/-- Without a pointer all labels are written in full. -/
theorem wholeLabels_none (h : (wholeLabels label deDot compress ss pos lmap).2 = none) :
    (wholeLabels label deDot compress ss pos lmap).1 = ss.length := by
  induction ss generalizing pos lmap with
  | nil => rfl
  | cons s ss ih =>
    cases hfound : (if compress then lmap.lookup (chopped label deDot s.1) else none) with
    | some li =>
      rw [wholeLabels_cons_of_some hfound] at h
      cases h
    | none =>
      rw [wholeLabels_cons_of_none hfound] at h ⊢
      exact congrArg (· + 1) (ih h)

/-- **The loop of `xfrLabel`, whatever the text**: it throws for one overlong label in front of the pointer,
when there is an escape. Otherwise it writes the labels as it leaves them, and adds entries for them. -/
theorem xfrParts_scan {record : Octets}
    (hraw : ∀ s ∈ ss, rawPart label (s.1, s.1 + (rawLabel s.2).length) = rawLabel s.2)
    (hwf : ∀ s ∈ ss, ∀ tok ∈ s.2, tok.WF)
    (hplain : unescaped = false → ∀ s ∈ ss, ∀ tok ∈ s.2, tok.raw = tok.kept) :
    (unescaped = true ∧ (∃ l ∈ frontLabels ss (wholeLabels label deDot compress ss pos lmap).1,
        255 < (keptLabel l).length) →
      xfrParts label deDot unescaped compress (ss.map fun s => (s.1, s.1 + (rawLabel s.2).length)) pos lmap
        record = none) ∧
    (¬ (unescaped = true ∧ ∃ l ∈ frontLabels ss (wholeLabels label deDot compress ss pos lmap).1,
        255 < (keptLabel l).length) →
      ∃ entries : LabelMap,
        xfrParts label deDot unescaped compress (ss.map fun s => (s.1, s.1 + (rawLabel s.2).length)) pos lmap
          record = some (lmap ++ entries,
            record ++ (keptOctets (frontLabels ss (wholeLabels label deDot compress ss pos lmap).1) ++
              tailOctets (wholeLabels label deDot compress ss pos lmap).2)) ∧
        ∀ e ∈ entries, e.2 < 16384 ∧ ∃ j < (wholeLabels label deDot compress ss pos lmap).1, e.2 = pos +
          (keptOctets ((frontLabels ss (wholeLabels label deDot compress ss pos lmap).1).take j)).length) := by
  induction ss generalizing pos lmap record with
  | nil =>
    refine ⟨?_, fun _ => ⟨[], ?_, forall_mem_nil _⟩⟩
    · rintro ⟨-, l, hl, -⟩
      cases hl
    · rw [append_nil]
      rfl
  | cons s ss ih =>
    obtain ⟨hpart, hraw⟩ := forall_mem_cons.mp hraw
    obtain ⟨hlabel, hwf⟩ := forall_mem_cons.mp hwf
    rw [map_cons, xfrParts]
    rw [hpart, replaceAll_kept hlabel, Nat.add_sub_cancel_left]
    cases hfound : (if compress then lmap.lookup (chopped label deDot s.1) else none) with
    | some li =>
      rw [wholeLabels_cons_of_some hfound]
      refine ⟨?_, fun _ => ⟨[], ?_, forall_mem_nil _⟩⟩
      · rintro ⟨-, l, hl, -⟩
        cases hl
      · rw [append_nil]
        rfl
    | none =>
      rw [wholeLabels_cons_of_none hfound]
      dsimp only
      -- without an escape the label stands in the text as it is written
      have hsame : unescaped = false → rawLabel s.2 = keptLabel s.2 := by
        intro hno
        obtain ⟨hfirst, -⟩ := forall_mem_cons.mp (hplain hno)
        exact flatMap_congr hfirst
      obtain ⟨hthrows, hwrites⟩ := @ih (pos + (keptLabel s.2).length + 1)
        (if pos < 16384 then lmap ++ [(chopped label deDot s.1, pos)] else lmap)
        (record ++ UInt8.ofNat (keptLabel s.2).length :: keptLabel s.2) hraw hwf
        fun hno => (forall_mem_cons.mp (hplain hno)).2
      rw [frontLabels_cons]
      generalize wholeLabels label deDot compress ss (pos + (keptLabel s.2).length + 1)
        (if pos < 16384 then lmap ++ [(chopped label deDot s.1, pos)] else lmap) = k at hthrows hwrites ⊢
      have hturn : ¬ (unescaped = true ∧ 255 < (keptLabel s.2).length) →
          (if unescaped = true then
            if (keptLabel s.2).length > 255 then none
            else xfrParts label deDot unescaped compress
              (ss.map fun s => (s.1, s.1 + (rawLabel s.2).length)) (pos + (keptLabel s.2).length + 1)
              (if pos < 16384 then lmap ++ [(chopped label deDot s.1, pos)] else lmap)
              (record ++ UInt8.ofNat (keptLabel s.2).length :: keptLabel s.2)
          else xfrParts label deDot unescaped compress
            (ss.map fun s => (s.1, s.1 + (rawLabel s.2).length)) (pos + (rawLabel s.2).length + 1)
            (if pos < 16384 then lmap ++ [(chopped label deDot s.1, pos)] else lmap)
            (record ++ UInt8.ofNat (rawLabel s.2).length :: rawLabel s.2)) =
          xfrParts label deDot unescaped compress
            (ss.map fun s => (s.1, s.1 + (rawLabel s.2).length)) (pos + (keptLabel s.2).length + 1)
            (if pos < 16384 then lmap ++ [(chopped label deDot s.1, pos)] else lmap)
            (record ++ UInt8.ofNat (keptLabel s.2).length :: keptLabel s.2) := by
        intro hfits
        by_cases hu : unescaped = true
        · rw [if_pos hu, if_neg fun hlong => hfits ⟨hu, hlong⟩]
        · rw [if_neg hu, hsame ((not_eq_true _).mp hu)]
      by_cases hlong : unescaped = true ∧ 255 < (keptLabel s.2).length
      · obtain ⟨hu, hlong⟩ := hlong
        refine ⟨fun _ => ?_, fun hnot => absurd ⟨hu, s.2, mem_cons_self, hlong⟩ hnot⟩
        rw [if_pos hu, if_pos hlong]
      · rw [hturn hlong]
        refine ⟨?_, fun hnot => ?_⟩
        · rintro ⟨hu, l, hl, hover⟩
          rcases mem_cons.mp hl with rfl | hl
          · exact absurd ⟨hu, hover⟩ hlong
          · exact hthrows ⟨hu, l, hl, hover⟩
        · have hrest : ¬ (unescaped = true ∧ ∃ l ∈ frontLabels ss k.1, 255 < (keptLabel l).length) := by
            rintro ⟨hu, l, hl, hover⟩
            exact hnot ⟨hu, l, mem_cons_of_mem _ hl, hover⟩
          obtain ⟨entries, heq, hentries⟩ := hwrites hrest
          refine ⟨(if pos < 16384 then [(chopped label deDot s.1, pos)] else []) ++ entries, ?_, fun e he => ?_⟩
          · rw [heq, keptOctets_cons]
            split <;> simp [append_assoc]
          · rcases mem_append.mp he with he | he
            · split at he
              next hpos =>
                rw [mem_singleton.mp he]
                exact ⟨hpos, 0, Nat.succ_pos _, rfl⟩
              next => cases he
            · obtain ⟨hsmall, j, hj, hplace⟩ := hentries e he
              refine ⟨hsmall, j + 1, Nat.succ_lt_succ hj, ?_⟩
              rw [take_succ_cons, keptOctets_cons, length_append, length_cons, hplace]
              omega

end Loop

/-! ### What is read -/

section Reading

variable {content : Octets} {m : Memory}

variable {ls : List Octets}

/-- A name that stands in a packet is read whole. -/
theorem getLabel_of_decodes (hsize : content.length ≤ 65535) (hm : Readable content m) {p hops : Nat}
    (h : Decodes m p ls hops) (hhops : hops ≤ 10) :
    ∃ d_pos, getLabel content (UInt16.ofNat (p - 12)) = .ok (readText [] ls, d_pos) := by
  obtain ⟨n, hn⟩ := getLabelFromContent_of_decodes (by omega) hm h []
    (show hops + 0 ≤ 10 from hhops)
  obtain ⟨d_pos, hread⟩ := hn (labelFuel + n) (Nat.le_add_left _ _)
  have hfuel := getLabelFromContent_add_fuel rfl (getLabel_ne_fuel hsize (UInt16.ofNat (p - 12))) n
  refine ⟨d_pos, ?_⟩
  rw [← hread, hfuel]
  rfl

/-- A name behind more than ten pointers is not read. -/
theorem getLabelFromContent_deep (hsize : content.length ≤ 65536) (hm : Readable content m) {p hops : Nat}
    (h : Decodes m p ls hops) (fuel : Nat) (ret : Octets) {recurs : Nat}
    (hdeep : 10 < hops + recurs) (r : Octets × UInt16) :
    getLabelFromContent content fuel (UInt16.ofNat (p - 12)) ret recurs ≠ .ok r := by
  induction h generalizing fuel ret recurs r with
  | @root p hp =>
    cases fuel with
    | zero =>
      intro h
      cases h
    | succ fuel =>
      rw [getLabelFromContent, if_pos (by omega)]
      intro h
      cases h
  | @label p l ls hops hl hp hoctets hrest ih =>
    cases fuel with
    | zero =>
      intro h
      cases h
    | succ fuel =>
      have hp12 : 12 ≤ p := (hm p _ hp).1
      have hnot : ¬UInt8.ofNat l.length &&& 0xc0 = 0xc0 := by
        rw [and_c0_iff]
        exact Decodes.length_lt_pointer hl
      rw [getLabelFromContent]
      split
      · intro h
        cases h
      · rw [contentAt_eq hsize hm hp]
        simp only [bind, Except.bind, if_neg (Decodes.length_ne_zero hl), if_neg hnot]
        rw [Decodes.length_toNat hl, ofNat_succ hp12, readLabelOctets_of_holds hsize hm ret (by omega) hoctets]
        exact ih fuel _ hdeep r
  | @pointer p hi lo ls hops hhi hp hlo hrest ih =>
    cases fuel with
    | zero =>
      intro h
      cases h
    | succ fuel =>
      have hp12 : 12 ≤ p := (hm p _ hp).1
      have htarget : 12 ≤ target hi lo := by
        cases hrest with
        | root h => exact (hm _ _ h).1
        | label _ h => exact (hm _ _ h).1
        | pointer _ h => exact (hm _ _ h).1
      have hzero : hi ≠ 0 := by
        rintro rfl
        exact absurd hhi (by decide)
      rw [getLabelFromContent]
      split
      · intro h
        cases h
      · rw [contentAt_eq hsize hm hp]
        simp only [bind, Except.bind, if_neg hzero, if_pos ((and_c0_iff hi).mpr hhi), ofNat_succ hp12,
          contentAt_eq hsize hm hlo, pointer_offset hhi htarget]
        have hmore := ih fuel ret (show 10 < hops + (recurs + 1) by omega)
        cases hread : getLabelFromContent content fuel (UInt16.ofNat (target hi lo - 12)) ret (recurs + 1) with
        | error e =>
          intro h
          cases h
        | ok v => exact absurd hread (hmore v)

theorem rawLabels_ok_add {fuel : Nat} {frompos : UInt16} {recurs : Nat} {r : List Octets × UInt16}
    (h : rawLabels content fuel frompos recurs = .ok r) (k : Nat) :
    ∃ r', rawLabels content (fuel + k) frompos recurs = .ok r' := by
  have hread : getLabelFromContent content fuel frompos [] recurs = .ok (readText [] r.1, r.2) := by
    rw [getLabelFromContent_eq, h]
    rfl
  have hmore := getLabelFromContent_add_fuel hread (fun h => nomatch h) k
  rw [getLabelFromContent_eq] at hmore
  cases hraw : rawLabels content (fuel + k) frompos recurs with
  | error e =>
    rw [hraw] at hmore
    cases hmore
  | ok r' => exact ⟨r', rfl⟩

/-- What is read through labels and a pointer is read where the pointer goes. -/
theorem rawLabels_ok_pointer {pre : Octets} {hi lo : UInt8} {fuel recurs : Nat}
    {r : List Octets × UInt16} (hls : ∀ l ∈ ls, IsLabel l) (hhi : 192 ≤ hi) (htarget : 12 ≤ target hi lo)
    (hsize : pre.length + (labelOctets ls).length + 2 ≤ 65536)
    (h : rawLabels (pre ++ (labelOctets ls ++ [hi, lo])) fuel (UInt16.ofNat pre.length) recurs = .ok r) :
    recurs ≤ 10 ∧ ∃ fuel' r', rawLabels (pre ++ (labelOctets ls ++ [hi, lo])) fuel'
      (UInt16.ofNat (target hi lo - 12)) (recurs + 1) = .ok r' := by
  have hrecurs : recurs ≤ 10 := by
    by_contra hdeep
    cases fuel with
    | zero => cases h
    | succ fuel =>
      rw [rawLabels, if_pos (by omega)] at h
      cases h
  obtain ⟨r', hr'⟩ := rawLabels_ok_add h ls.length
  rw [rawLabels_append [hi, lo] fuel (fun l hl => ⟨(hls l hl).1, (hls l hl).2.trans (by decide)⟩)
    (by omega) hrecurs] at hr'
  have hfirst : contentAt (pre ++ (labelOctets ls ++ [hi, lo]))
      (UInt16.ofNat (pre.length + (labelOctets ls).length)) = .ok hi := by
    rw [← append_assoc, ← length_append]
    exact contentAt_append hi [lo] (by rw [length_append]; omega)
  have hsecond : contentAt (pre ++ (labelOctets ls ++ [hi, lo]))
      (UInt16.ofNat (pre.length + (labelOctets ls).length) + 1) = .ok lo := by
    have hsplit : pre ++ (labelOctets ls ++ [hi, lo]) = (pre ++ labelOctets ls ++ [hi]) ++ lo :: [] := by
      simp only [append_assoc, singleton_append]
    rw [← length_append, ofNat_length_succ _ hi, hsplit]
    exact contentAt_append lo [] (by simp only [length_append, length_singleton]; omega)
  have hzero : hi ≠ 0 := by
    rintro rfl
    exact absurd hhi (by decide)
  refine ⟨hrecurs, ?_⟩
  cases fuel with
  | zero => cases hr'
  | succ fuel =>
    rw [rawLabels, if_neg (by omega), hfirst] at hr'
    simp only [bind, Except.bind, if_neg hzero, if_pos ((and_c0_iff hi).mpr hhi), hsecond,
      pointer_offset hhi htarget] at hr'
    cases hrest : rawLabels (pre ++ (labelOctets ls ++ [hi, lo])) fuel (UInt16.ofNat (target hi lo - 12))
        (recurs + 1) with
    | error e =>
      rw [hrest] at hr'
      cases hr'
    | ok v => exact ⟨fuel, v, hrest⟩

/-- A name that ends in a pointer to itself is not read. -/
theorem rawLabels_loop {pre : Octets} {hi lo : UInt8} (hls : ∀ l ∈ ls, IsLabel l)
    (hhi : 192 ≤ hi) (htarget : target hi lo = pre.length + 12)
    (hsize : pre.length + (labelOctets ls).length + 2 ≤ 65536) (fuel recurs : Nat)
    (r : List Octets × UInt16) :
    rawLabels (pre ++ (labelOctets ls ++ [hi, lo])) fuel (UInt16.ofNat pre.length) recurs ≠ .ok r := by
  -- a pointer more each time round, until there are too many
  induction hleft : 11 - recurs generalizing fuel recurs r with
  | zero =>
    intro h
    have hfew := (rawLabels_ok_pointer hls hhi (by omega) hsize h).1
    omega
  | succ left ih =>
    intro h
    obtain ⟨-, fuel', r', hr'⟩ := rawLabels_ok_pointer hls hhi (by omega) hsize h
    rw [htarget, Nat.add_sub_cancel] at hr'
    exact ih fuel' (recurs + 1) r' (by omega) hr'

/-- The text of labels has these labels. -/
theorem labelsOf_readText (hls : ∀ l ∈ ls, l ≠ []) : labelsOf (readText [] ls) = ls := by
  have hsplit : ∀ ls : List Octets, splitLabels false [] (dottedText ls) = ls := by
    intro ls
    induction ls with
    | nil => rfl
    | cons l ls ih =>
      rw [dottedText_cons, splitLabels_escapeLabel, nil_append, splitLabels,
        if_neg dot_ne_backslash, if_pos rfl, ih]
  cases ls with
  | nil => rfl
  | cons l ls =>
    have hroot : labelsText true (l :: ls) ≠ [dot] := labelsText_ne_root (hls l mem_cons_self)
    rw [readText_cons]
    unfold labelsOf
    rw [if_neg hroot]
    exact hsplit _

end Reading

/-! ### Names against what is written -/

section Comparing

/-- The end of a name: the root, or a pointer. -/
def IsTail (tail : Octets) : Prop := tail = [0] ∨ ∃ hi lo : UInt8, 192 ≤ hi ∧ tail = [hi, lo]

theorem IsTail.ne_label {tail rest l : Octets} (h : IsTail tail) (hl : IsLabel l) :
    tail ≠ UInt8.ofNat l.length :: rest := by
  rcases h with rfl | ⟨hi, lo, hhi, rfl⟩
  · exact fun heq => Decodes.length_ne_zero hl (List.cons.inj heq).1.symm
  · intro heq
    rw [(List.cons.inj heq).1] at hhi
    exact Decodes.length_lt_pointer hl hhi

theorem IsTail.length_le {tail : Octets} (h : IsTail tail) : 0 < tail.length ∧ tail.length ≤ 2 := by
  rcases h with rfl | ⟨hi, lo, -, rfl⟩
  · exact ⟨Nat.one_pos, Nat.le_succ 1⟩
  · exact ⟨Nat.two_pos, Nat.le_refl 2⟩

/-- A label of the writer's in front of more octets is not the end of a name. -/
theorem IsTail.ne_kept {tail rest l : Octets} (h : IsTail tail) (hrest : rest ≠ []) :
    tail ≠ UInt8.ofNat l.length :: l ++ rest := by
  intro heq
  have hpos := length_pos_iff.mpr hrest
  have hlength : tail.length = l.length + 1 + rest.length := by
    rw [heq, length_append]
    rfl
  rcases h with rfl | ⟨hi, lo, hhi, rfl⟩
  · change 1 = _ at hlength
    omega
  · change 2 = _ at hlength
    have hfirst : hi = UInt8.ofNat l.length := (List.cons.inj heq).1
    rw [hfirst, UInt8.le_iff_toNat_le, UInt8.toNat_ofNat'] at hhi
    change 192 ≤ l.length % 2 ^ 8 at hhi
    omega

/-- **Names that are written as they should be**: where the writer's octets are those of labels as long as the
ones that are meant, every label can be written, and the writer undoes its escapes. -/
theorem front_of_octets {fronts : List (List LabelToken)} {ls more rest : List Octets} {tail tail' : Octets}
    (htail : IsTail tail) (htail' : IsTail tail') (hls : ∀ l ∈ ls, IsLabel l)
    (hfits : ∀ l ∈ fronts, (keptLabel l).length ≤ 255 ∨ ∀ tok ∈ l, tok.isProper = true)
    (hlens : (ls ++ more).map List.length = (fronts.map meantLabel ++ rest).map List.length)
    (h : keptOctets fronts ++ tail = labelOctets ls ++ tail') :
    ls = fronts.map keptLabel ∧ tail = tail' ∧
      ∀ l ∈ fronts, IsLabel (meantLabel l) ∧ ∀ tok ∈ l, tok.isProper = true := by
  induction fronts generalizing ls with
  | nil =>
    cases ls with
    | nil => exact ⟨rfl, h, forall_mem_nil _⟩
    | cons l ls => exact absurd h (htail.ne_label (hls l mem_cons_self))
  | cons l fronts ih =>
    rw [keptOctets_cons, append_assoc] at h
    have hbehind : keptOctets fronts ++ tail ≠ [] := by
      intro hnil
      rw [append_eq_nil_iff] at hnil
      rw [hnil.2] at htail
      exact absurd htail.length_le.1 (Nat.lt_irrefl 0)
    cases ls with
    | nil => exact absurd h.symm (htail'.ne_kept hbehind)
    | cons l' ls =>
      obtain ⟨hl', hls⟩ := forall_mem_cons.mp hls
      obtain ⟨hfit, hfits⟩ := forall_mem_cons.mp hfits
      change UInt8.ofNat (keptLabel l).length :: (keptLabel l ++ (keptOctets fronts ++ tail)) =
        UInt8.ofNat l'.length :: (l' ++ labelOctets ls ++ tail') at h
      obtain ⟨hfirst, hoctets⟩ := List.cons.inj h
      obtain ⟨hlen, hlens⟩ := List.cons.inj hlens
      obtain ⟨hle, hiff, hsame⟩ := meant_kept l
      -- the length octet says how long the label is, for it is not longer than it should be
      have hkept : (keptLabel l).length = l'.length := by
        rcases hfit with hfit | hproper
        · have hmod := congrArg UInt8.toNat hfirst
          rw [UInt8.toNat_ofNat', UInt8.toNat_ofNat'] at hmod
          omega
        · rw [hsame hproper]
          exact hlen.symm
      have hproper : ∀ tok ∈ l, tok.isProper = true := hiff.mp (hkept.trans hlen).symm
      rw [append_assoc] at hoctets
      obtain ⟨hlabel, hoctets⟩ := append_inj hoctets hkept
      obtain ⟨hmore, htails, hall⟩ := ih hls hfits hlens hoctets
      refine ⟨by rw [← hlabel, hmore, map_cons], htails, forall_mem_cons.mpr ⟨⟨?_, hproper⟩, hall⟩⟩
      rw [← hsame hproper, hlabel]
      exact hl'

end Comparing

/-! ### Names that are refused or written -/

/-- The labels of a text, with their offsets. -/
def textLabels (text : Octets) : List (Nat × List LabelToken) :=
  if text = [dot] then [] else scanLabels 0 [] text

namespace DNSPacketWriter

/-- How many labels `xfrLabel` writes in full, and where the pointer goes. -/
def whole (w : DNSPacketWriter) (text : Octets) (compress : Bool) : Nat × Option Nat :=
  wholeLabels text (text.getLast? == some dot) (w.compresses compress) (textLabels text) w.writePos w.d_labelmap

/-- The labels in front of the first rest that the label map knows. -/
def front (w : DNSPacketWriter) (text : Octets) (compress : Bool) : List (List LabelToken) :=
  frontLabels (textLabels text) (w.whole text compress).1

end DNSPacketWriter

/-- Every entry of the label map leads to a name, whatever its labels are. -/
def DNSPacketWriter.MapLeads (w : DNSPacketWriter) : Prop :=
  ∀ e ∈ w.d_labelmap, e.2 < 16384 ∧ ∃ ls hops, Decodes w.mem e.2 ls hops

/-- There is an escape, and one of the labels in front has more than 255 octets. -/
def Overlong (w : DNSPacketWriter) (text : Octets) (compress : Bool) : Prop :=
  backslash ∈ text ∧ ∃ l ∈ w.front text compress, 255 < (keptLabel l).length

/-- **Texts that can be encoded**: the labels in front have 1 to 63 octets each, a backslash stands in front of
dots and backslashes only, and a rest that the label map knows is there, behind nine pointers at most. -/
structure Encodable (w : DNSPacketWriter) (text : Octets) (compress : Bool) : Prop where
  labels : ∀ l ∈ w.front text compress, IsLabel (meantLabel l) ∧ ∀ tok ∈ l, tok.isProper = true
  rest : ∀ li ∈ (w.whole text compress).2,
    NameAt w.mem 9 li ((labelsOf text).drop (w.whole text compress).1)

section Refusing

variable {w : DNSPacketWriter} {text : Octets} {compress : Bool}

theorem map_meantLabel_text (text : Octets) :
    (textLabels text).map (fun s => meantLabel s.2) = labelsOf text := by
  unfold textLabels labelsOf
  split
  · rfl
  · exact map_meantLabel_scan (forall_mem_nil _)

theorem meant_front (w : DNSPacketWriter) (text : Octets) (compress : Bool) :
    (w.front text compress).map meantLabel ++ (labelsOf text).drop (w.whole text compress).1 =
      labelsOf text := by
  rw [← map_meantLabel_text]
  unfold DNSPacketWriter.front frontLabels
  rw [map_map, map_take]
  exact take_append_drop _ _

theorem forall_front {P : LabelToken → Prop} (h : ∀ s ∈ textLabels text, ∀ tok ∈ s.2, P tok) :
    ∀ l ∈ w.front text compress, ∀ tok ∈ l, P tok := by
  intro l hl
  obtain ⟨s, hs, rfl⟩ := mem_map.mp hl
  exact h s (mem_of_mem_take hs)

/-- Without a backslash every token is an octet. -/
theorem textLabels_plain (h : backslash ∉ text) {P : LabelToken → Prop} (hP : ∀ c, P (.plain c)) :
    ∀ s ∈ textLabels text, ∀ tok ∈ s.2, P tok := by
  unfold textLabels
  split
  · exact forall_mem_nil _
  · exact forall_scanLabels (forall_mem_nil _) (fun c _ _ _ => hP c) fun hmem => absurd hmem h

/-- **What `xfrLabel` does with any text.** -/
theorem xfrLabel_spec_any (w : DNSPacketWriter) (text : Octets) (compress : Bool) :
    (Overlong w text compress → w.xfrLabel text compress = none) ∧
    (¬ Overlong w text compress → ∃ entries : LabelMap,
      w.xfrLabel text compress = some { w.xfrBlob (keptOctets (w.front text compress) ++
        tailOctets (w.whole text compress).2) with d_labelmap := w.d_labelmap ++ entries } ∧
      ∀ e ∈ entries, e.2 < 16384 ∧ ∃ j < (w.whole text compress).1,
        e.2 = w.writePos + (keptOctets ((w.front text compress).take j)).length) := by
  by_cases hroot : text = [dot]
  · have hnone : w.whole text compress = (0, none) := by
      unfold DNSPacketWriter.whole textLabels
      rw [if_pos hroot]
      rfl
    have hfront : w.front text compress = [] := by
      unfold DNSPacketWriter.front
      rw [hnone]
      rfl
    refine ⟨?_, fun _ => ⟨[], ?_, forall_mem_nil _⟩⟩
    · rintro ⟨-, l, hl, -⟩
      rw [hfront] at hl
      cases hl
    · unfold DNSPacketWriter.xfrLabel
      rw [if_pos hroot, hnone, hfront, append_nil]
      rfl
  · have htext : textLabels text = scanLabels 0 [] text := if_neg hroot
    have hparts : labeltokUnescape text =
        ((textLabels text).map fun s => (s.1, s.1 + (rawLabel s.2).length), decide (backslash ∈ text)) := by
      have hflag : (labeltokUnescape text).2 = decide (backslash ∈ text) := by
        rw [Bool.eq_iff_iff, labeltokUnescape_flag, decide_eq_true_iff]
      rw [htext]
      exact Prod.ext (labeltokUnescapeFrom_scan 0 [] text) hflag
    have hraw : ∀ s ∈ textLabels text, rawPart text (s.1, s.1 + (rawLabel s.2).length) = rawLabel s.2 := by
      rw [htext]
      exact rawPart_scan rfl
    have hwf : ∀ s ∈ textLabels text, ∀ tok ∈ s.2, tok.WF := by
      rw [htext]
      exact forall_scanLabels (forall_mem_nil _) (fun c _ hdot hback => ⟨hdot, hback⟩)
        fun _ => ⟨fun _ => trivial, trivial⟩
    have hplain : decide (backslash ∈ text) = false → ∀ s ∈ textLabels text, ∀ tok ∈ s.2, tok.raw = tok.kept :=
      fun hno => textLabels_plain (of_decide_eq_false hno) fun _ => rfl
    obtain ⟨hthrows, hwrites⟩ := @xfrParts_scan text (text.getLast? == some dot) (decide (backslash ∈ text))
      (w.compresses compress) (textLabels text) w.writePos w.d_labelmap w.d_record hraw hwf hplain
    have hcall : w.xfrLabel text compress =
        (xfrParts text (text.getLast? == some dot) (decide (backslash ∈ text)) (w.compresses compress)
          ((textLabels text).map fun s => (s.1, s.1 + (rawLabel s.2).length)) w.writePos w.d_labelmap
          w.d_record).map fun r => { w with d_labelmap := r.1, d_record := r.2 } := by
      unfold DNSPacketWriter.xfrLabel
      rw [if_neg hroot, hparts]
      rfl
    rw [hcall]
    constructor
    · rintro ⟨hescape, hlong⟩
      rw [hthrows ⟨decide_eq_true hescape, hlong⟩]
      rfl
    · intro hfits
      obtain ⟨entries, heq, hentries⟩ := hwrites fun ⟨hescape, hlong⟩ =>
        hfits ⟨of_decide_eq_true hescape, hlong⟩
      refine ⟨entries, ?_, hentries⟩
      rw [heq]
      rfl

/-- A packet with all that is determined, and zeros elsewhere. -/
def DNSPacketWriter.filled (w : DNSPacketWriter) : Octets :=
  w.d_content.drop 12 ++ List.replicate w.d_stuff 0 ++ w.d_record

theorem length_filled_front (hheader : 12 ≤ w.d_content.length) (octets : Octets) :
    ∃ pre : Octets, (w.xfrBlob octets).filled = pre ++ octets ∧ pre.length = w.writePos - 12 := by
  refine ⟨w.d_content.drop 12 ++ List.replicate w.d_stuff 0 ++ w.d_record, ?_, ?_⟩
  · unfold DNSPacketWriter.filled DNSPacketWriter.xfrBlob
    rw [append_assoc _ w.d_record]
  · unfold DNSPacketWriter.writePos
    rw [length_append, length_append, length_drop, length_replicate]
    omega

theorem readable_filled (hheader : 12 ≤ w.d_content.length) : Readable w.filled w.mem := by
  intro p b hp
  rw [DNSPacketWriter.mem_eq_some] at hp
  obtain ⟨h12, hplace⟩ := hp
  refine ⟨h12, ?_⟩
  unfold DNSPacketWriter.filled
  rcases hplace with hcontent | ⟨hle, hrecord⟩
  · have hlt := (List.getElem?_eq_some_iff.mp hcontent).1
    have hbound : p - 12 < (w.d_content.drop 12).length := by
      rw [length_drop]
      omega
    rw [append_assoc, getElem?_append_left hbound, getElem?_drop, Nat.add_sub_cancel' h12]
    exact hcontent
  · have hfront : (w.d_content.drop 12 ++ List.replicate w.d_stuff 0).length =
        w.d_content.length + w.d_stuff - 12 := by
      rw [length_append, length_drop, length_replicate]
      omega
    rw [getElem?_append_right (by omega), hfront, ← hrecord]
    congr 1
    omega

/-- Labels in front of a name. -/
theorem decodes_labels {m : Memory} {p hops : Nat} {ls ls' : List Octets} (hls : ∀ l ∈ ls, IsLabel l)
    (h : Holds m p (labelOctets ls)) (hrest : Decodes m (p + (labelOctets ls).length) ls' hops) :
    Decodes m p (ls ++ ls') hops := by
  induction ls generalizing p with
  | nil => exact hrest
  | cons l ls ih =>
    obtain ⟨hl, hls⟩ := forall_mem_cons.mp hls
    have hoctets : labelOctets (l :: ls) = UInt8.ofNat l.length :: l ++ labelOctets ls := rfl
    rw [hoctets] at h hrest
    refine Decodes.of_label hl h (ih hls ?_ ?_)
    · rw [holds_append] at h
      have hbehind := h.2
      rwa [length_cons, Nat.add_comm l.length] at hbehind
    · rwa [length_append, length_cons, Nat.add_comm l.length, ← Nat.add_assoc] at hrest

theorem isTail_tailOctets {ptr : Option Nat} (hsmall : ∀ li ∈ ptr, li < 16384) : IsTail (tailOctets ptr) := by
  cases ptr with
  | none => exact .inl rfl
  | some li =>
    have hli := hsmall li rfl
    exact .inr ⟨_, UInt8.ofNat (li % 256), (Decodes.target_pointerOctets hli).1, pointerTo_eq hli⟩

theorem compresses_of_pointer {li : Nat} (h : (w.whole text compress).2 = some li) :
    w.compresses compress = true := by
  by_contra hno
  unfold DNSPacketWriter.whole at h
  rw [eq_false_of_not_eq_true hno, wholeLabels_false] at h
  cases h

theorem lengths_of_lower {as bs : List Octets} (h : lowerLabels as = lowerLabels bs) :
    as.map List.length = bs.map List.length := by
  have hlengths : ∀ ls : List Octets, (lowerLabels ls).map List.length = ls.map List.length := by
    intro ls
    unfold lowerLabels
    rw [map_map]
    exact map_congr_left fun l _ => length_map _
  rw [← hlengths, h, hlengths]

theorem sum_rawLabel_le (lpos : Nat) (cur : List LabelToken) (t : Octets) :
    ((scanLabels lpos cur t).map fun s => (rawLabel s.2).length + 1).sum ≤
      (rawLabel cur).length + t.length + 2 := by
  induction lpos, cur, t using scanLabels.induct with
  | case1 lpos => exact Nat.zero_le _
  | case2 lpos cur hne =>
    unfold scanLabels
    rw [if_neg hne, map_singleton, sum_singleton]
    exact Nat.le_succ _
  | case3 lpos cur =>
    unfold scanLabels
    rw [if_pos rfl, map_singleton, sum_singleton, rawLabel_append, length_append]
    exact Nat.le_of_eq (by rw [Nat.add_assoc, Nat.add_assoc]; rfl)
  | case4 lpos cur d t ih =>
    rw [rawLabel_append, length_append] at ih
    rw [scanLabels_escape, length_cons, length_cons]
    change _ ≤ (rawLabel cur).length + 2 + t.length + 2 at ih
    omega
  | case5 lpos cur t _ ih =>
    rw [scanLabels_dot, map_cons, sum_cons, length_cons]
    change _ ≤ 0 + t.length + 2 at ih
    dsimp only
    omega
  | case6 lpos cur c t hback hdot ih =>
    rw [rawLabel_append, length_append] at ih
    change _ ≤ (rawLabel cur).length + 1 + t.length + 2 at ih
    rw [scanLabels_octet hdot hback, length_cons]
    omega

theorem length_keptOctets_le (ls : List (List LabelToken)) :
    (keptOctets ls).length ≤ (ls.map fun l => (rawLabel l).length + 1).sum := by
  have hkept : ∀ l : List LabelToken, (keptLabel l).length ≤ (rawLabel l).length := by
    intro l
    induction l with
    | nil => exact Nat.le_refl 0
    | cons tok l ih =>
      change (tok.kept ++ keptLabel l).length ≤ (tok.raw ++ rawLabel l).length
      have htok : tok.kept.length ≤ tok.raw.length := by
        cases tok with
        | plain c => exact Nat.le_refl _
        | dangling => exact Nat.le_refl _
        | escaped c =>
          unfold LabelToken.kept
          dsimp only
          split
          · exact Nat.le_succ 1
          · exact Nat.le_refl 2
      rw [length_append, length_append]
      exact Nat.add_le_add htok ih
  induction ls with
  | nil => exact Nat.le_refl 0
  | cons l ls ih =>
    have hle := hkept l
    rw [keptOctets_cons, length_append, length_cons, map_cons, sum_cons]
    omega

/-- What is written may be as long as the text and four octets more. -/
theorem length_written (htail : IsTail (tailOctets (w.whole text compress).2)) :
    (keptOctets (w.front text compress) ++ tailOctets (w.whole text compress).2).length ≤ text.length + 4 := by
  have htwo := htail.length_le.2
  have hfront := length_keptOctets_le (w.front text compress)
  have hsome : ((w.front text compress).map fun l => (rawLabel l).length + 1).sum ≤
      ((textLabels text).map fun s => (rawLabel s.2).length + 1).sum := by
    unfold DNSPacketWriter.front frontLabels
    rw [map_map, map_take]
    conv_rhs => rw [← take_append_drop (w.whole text compress).1
      ((textLabels text).map fun s => (rawLabel s.2).length + 1), sum_append]
    exact Nat.le_add_right _ _
  have hall : ((textLabels text).map fun s => (rawLabel s.2).length + 1).sum ≤ text.length + 2 := by
    unfold textLabels
    split
    · exact Nat.zero_le _
    · have hscan := sum_rawLabel_le 0 [] text
      change _ ≤ 0 + text.length + 2 at hscan
      omega
  rw [length_append]
  omega

section Writing

variable (hheader : 12 ≤ w.d_content.length) (hmap : w.MapLeads)

include hmap

theorem pointer_small : ∀ li ∈ (w.whole text compress).2, li < 16384 := fun _ hli =>
  (wholeLabels_pointer (fun e he => (hmap e he).1) hli).1

include hheader

/-- What stands in the packet for a text that can be encoded: its labels in front, as they are meant, and
behind them a name with the labels that are left. -/
theorem written_of_encodable (h : Encodable w text compress) {m : Memory}
    (hm : m = (w.xfrBlob (keptOctets (w.front text compress) ++ tailOctets (w.whole text compress).2)).mem) :
    (∀ l ∈ (w.front text compress).map meantLabel, IsLabel l) ∧
      (w.front text compress).map keptLabel = (w.front text compress).map meantLabel ∧
      Holds m w.writePos (keptOctets (w.front text compress)) ∧
      ∃ ls hops, Decodes m (w.writePos + (keptOctets (w.front text compress)).length) ls hops ∧ hops ≤ 10 ∧
        lowerLabels ls = lowerLabels ((labelsOf text).drop (w.whole text compress).1) ∧
        (w.compresses compress = false → ls = (labelsOf text).drop (w.whole text compress).1) := by
  have hholds := @DNSPacketWriter.holds_xfrBlob w hheader
    (keptOctets (w.front text compress) ++ tailOctets (w.whole text compress).2)
  have hextends := w.extends_xfrBlob
    (keptOctets (w.front text compress) ++ tailOctets (w.whole text compress).2)
  rw [← hm] at hholds hextends
  obtain ⟨hfront, htail⟩ := holds_append.mp hholds
  refine ⟨?_, map_congr_left fun l hl => (meant_kept l).2.2 (h.labels l hl).2, hfront, ?_⟩
  · intro l hl
    obtain ⟨toks, htoks, rfl⟩ := mem_map.mp hl
    exact (h.labels toks htoks).1
  · cases hwhole : (w.whole text compress).2 with
    | none =>
      -- no label is left
      have hall : (labelsOf text).drop (w.whole text compress).1 = [] := by
        have hcount : (w.whole text compress).1 = (textLabels text).length := wholeLabels_none hwhole
        rw [hcount, ← map_meantLabel_text]
        exact drop_eq_nil_of_le (Nat.le_of_eq (length_map _))
      rw [hwhole] at htail
      exact ⟨[], 0, Decodes.of_root htail, Nat.zero_le _, by rw [hall], fun _ => hall.symm⟩
    | some li =>
      obtain ⟨ls, hops, hdec, hhops, hsame⟩ := h.rest li hwhole
      have hli := pointer_small hmap li hwhole
      rw [hwhole] at htail
      change Holds m _ (pointerTo li) at htail
      rw [pointerTo_eq hli] at htail
      refine ⟨ls, hops + 1, Decodes.of_pointer hli htail (hdec.mono hextends), Nat.succ_le_succ hhops, hsame,
        fun hno => ?_⟩
      rw [compresses_of_pointer hwhole] at hno
      cases hno

/-- A text that can be encoded is. -/
theorem encoded_of_encodable (h : Encodable w text compress) {entries : LabelMap} :
    Encoded w { w.xfrBlob (keptOctets (w.front text compress) ++ tailOctets (w.whole text compress).2) with
      d_labelmap := w.d_labelmap ++ entries } text compress := by
  obtain ⟨hwf, hkept, hfront, ls, hops, hdec, hhops, hsame, hexact⟩ :=
    written_of_encodable hheader hmap h rfl
  constructor
  · refine ⟨_, rfl, (w.front text compress).map meantLabel, tailOctets (w.whole text compress).2, ?_, hwf, ?_⟩
    · unfold keptOctets
      rw [hkept]
    · refine (isTail_tailOctets (pointer_small hmap)).imp_right fun hptr => ⟨?_, hptr⟩
      cases hwhole : (w.whole text compress).2 with
      | none =>
        rw [hwhole] at hptr
        obtain ⟨hi, lo, -, heq⟩ := hptr
        cases heq
      | some li => exact compresses_of_pointer hwhole
  · intro content hsize hread
    have hname : Decodes (w.xfrBlob (keptOctets (w.front text compress) ++
        tailOctets (w.whole text compress).2)).mem w.writePos
        ((w.front text compress).map meantLabel ++ ls) hops := by
      have hoctets : labelOctets ((w.front text compress).map meantLabel) =
          keptOctets (w.front text compress) := congrArg labelOctets hkept.symm
      refine decodes_labels hwf ?_ ?_ <;> rwa [hoctets]
    obtain ⟨d_pos, hlabel⟩ := getLabel_of_decodes hsize hread hname hhops
    have hval : labelsOf (readText [] ((w.front text compress).map meantLabel ++ ls)) =
        (w.front text compress).map meantLabel ++ ls :=
      labelsOf_readText fun l hl => (hname.isLabel l hl).1
    refine ⟨_, d_pos, hlabel, ?_, fun hno => ?_⟩
    · rw [hval, lowerLabels_append, hsame, ← lowerLabels_append, meant_front]
    · rw [hval, hexact hno, meant_front]

end Writing

/-- Labels that stand where the reader begins are the first ones it reads. -/
theorem rawLabels_starts {pre tail : Octets} {ls : List Octets} {r : List Octets × UInt16}
    (hls : ∀ l ∈ ls, IsLabel l) (hsize : (pre ++ (labelOctets ls ++ tail)).length ≤ 65535)
    (h : rawLabels (pre ++ (labelOctets ls ++ tail)) labelFuel (UInt16.ofNat pre.length) 0 = .ok r) :
    ∃ more, r.1 = ls ++ more := by
  have hle := length_le_labelOctets ls
  have hmax : labelFuel = 786444 := rfl
  rw [length_append, length_append] at hsize
  rw [show labelFuel = labelFuel - ls.length + ls.length by omega, rawLabels_append tail (labelFuel - ls.length)
    (fun l hl => ⟨(hls l hl).1, (hls l hl).2.trans (by decide)⟩) (by omega) (Nat.zero_le 10)] at h
  cases hmore : rawLabels (pre ++ (labelOctets ls ++ tail)) (labelFuel - ls.length)
      (UInt16.ofNat (pre.length + (labelOctets ls).length)) 0 with
  | error e =>
    rw [hmore] at h
    cases h
  | ok more =>
    rw [hmore] at h
    exact ⟨more.1, congrArg Prod.fst (Except.ok.inj h).symm⟩

/-- A pointer back into the name at hand is not read. -/
theorem rawLabels_pointer_back {pre : Octets} {ls : List Octets} {li j : Nat} {r : List Octets × UInt16}
    (hls : ∀ l ∈ ls, IsLabel l) (hsize : (pre ++ (labelOctets ls ++ pointerTo li)).length ≤ 65535)
    (hsmall : li < 16384) (hli : li = pre.length + 12 + (labelOctets (ls.take j)).length) (fuel : Nat) :
    rawLabels (pre ++ (labelOctets ls ++ pointerTo li)) fuel (UInt16.ofNat pre.length) 0 ≠ .ok r := by
  intro h
  obtain ⟨hhi, htarget⟩ := Decodes.target_pointerOctets hsmall
  rw [pointerTo_eq hsmall] at h hsize
  rw [length_append, length_append] at hsize
  change _ + (_ + 2) ≤ 65535 at hsize
  obtain ⟨-, fuel', r', hr'⟩ := rawLabels_ok_pointer hls hhi (by omega) (by omega) h
  have hsplit : labelOctets ls = labelOctets (ls.take j) ++ labelOctets (ls.drop j) := by
    rw [← labelOctets_append, take_append_drop]
  have hplace : target (UInt8.ofNat (192 + li / 256)) (UInt8.ofNat (li % 256)) - 12 =
      (pre ++ labelOctets (ls.take j)).length := by
    rw [htarget, hli, length_append]
    omega
  rw [hplace, hsplit, append_assoc, ← append_assoc pre] at hr'
  rw [hsplit, length_append] at hsize
  refine rawLabels_loop (fun l hl => hls l (mem_of_mem_drop hl)) hhi ?_ ?_ fuel' 1 r' hr'
  · omega
  · rw [length_append]
    omega

/-- A text that is encoded and does not make the writer throw can be encoded. -/
theorem encodable_of_encoded (hheader : 12 ≤ w.d_content.length)
    (hmap : w.MapLeads)
    (hroom : w.writePos + text.length + 4 ≤ 65535) (hfits : ¬ Overlong w text compress)
    {entries : LabelMap}
    (h : Encoded w { w.xfrBlob (keptOctets (w.front text compress) ++ tailOctets (w.whole text compress).2) with
      d_labelmap := w.d_labelmap ++ entries } text compress) : Encodable w text compress := by
  have hpointer := fun li hli => @wholeLabels_pointer text (text.getLast? == some dot) (w.compresses compress)
    (textLabels text) w.writePos w.d_labelmap li (fun e he => (hmap e he).1) hli
  have htail : IsTail (tailOctets (w.whole text compress).2) :=
    isTail_tailOctets fun li hli => (hpointer li hli).1
  have hwritten := length_written htail
  generalize hoctets : keptOctets (w.front text compress) ++ tailOctets (w.whole text compress).2 = octets
    at h hwritten
  -- the packet with zeros where nothing is determined
  obtain ⟨pre, hfilled, hpre⟩ := length_filled_front hheader octets
  have hread : Readable (pre ++ octets) (w.xfrBlob octets).mem := by
    rw [← hfilled]
    exact readable_filled hheader
  have hsize : (pre ++ octets).length ≤ 65535 := by
    rw [length_append]
    omega
  obtain ⟨val, d_pos, hlabel, hlower, -⟩ := h.reads (pre ++ octets) hsize hread
  -- the octets are those of labels, and these are the first that are read
  obtain ⟨octets', hrecord, ls, tail', hform, hls, htail'⟩ := h.wire
  obtain rfl : octets = octets' := append_cancel_left hrecord
  have hraw : ∃ r, rawLabels (pre ++ octets) labelFuel (UInt16.ofNat pre.length) 0 = .ok r ∧
      val = readText [] r.1 := by
    unfold getLabel at hlabel
    rw [← hpre, getLabelFromContent_eq] at hlabel
    cases hraw : rawLabels (pre ++ octets) labelFuel (UInt16.ofNat pre.length) 0 with
    | error e =>
      rw [hraw] at hlabel
      cases hlabel
    | ok r =>
      rw [hraw] at hlabel
      exact ⟨r, rfl, (Prod.mk.inj (Except.ok.inj hlabel)).1.symm⟩
  obtain ⟨r, hraw, hval⟩ := hraw
  have hlabels : labelsOf val = r.1 := by
    rw [hval]
    exact labelsOf_readText fun l hl => (length_rawLabels hraw l hl).1
  obtain ⟨more, hmore⟩ : ∃ more, r.1 = ls ++ more := by
    rw [hform] at hraw hsize
    exact rawLabels_starts hls hsize hraw
  rw [hlabels, ← meant_front w text compress] at hlower
  have hshort : ∀ l ∈ w.front text compress, (keptLabel l).length ≤ 255 ∨ ∀ tok ∈ l, tok.isProper = true := by
    intro l hl
    by_cases hescape : backslash ∈ text
    · exact .inl (Nat.not_lt.mp fun hlong => hfits ⟨hescape, l, hl, hlong⟩)
    · exact .inr (forall_front (textLabels_plain hescape fun _ => rfl) l hl)
  obtain ⟨hkept, htails, hall⟩ := front_of_octets htail (htail'.imp_right And.right) hls hshort
    (lengths_of_lower (hmore ▸ hlower)) (hoctets.trans hform)
  have hmeant : ls = (w.front text compress).map meantLabel :=
    hkept.trans (map_congr_left fun l hl => (meant_kept l).2.2 (hall l hl).2)
  refine ⟨hall, fun li hli => ?_⟩
  obtain ⟨hsmall, hplace⟩ := hpointer li hli
  rw [hli] at htails
  rcases hplace with ⟨e, he, rfl⟩ | ⟨j, -, hback⟩
  · -- the pointer goes to a name that was there before
    obtain ⟨-, ls', hops, hdec⟩ := hmap e he
    have hholds : Holds (w.xfrBlob octets).mem w.writePos (labelOctets ls ++ Decodes.pointerOctets e.2) := by
      have hptr : tailOctets (some e.2) = Decodes.pointerOctets e.2 := pointerTo_eq hsmall
      rw [← hptr, htails, ← hform]
      exact DNSPacketWriter.holds_xfrBlob hheader octets
    obtain ⟨hfront, hptr⟩ := holds_append.mp hholds
    have hname := decodes_labels hls hfront
      (Decodes.of_pointer hsmall hptr (hdec.mono (w.extends_xfrBlob octets)))
    by_cases hhops : hops + 1 ≤ 10
    · obtain ⟨d_pos', hlabel'⟩ := getLabel_of_decodes hsize hread hname hhops
      rw [hlabel] at hlabel'
      have hsame : r.1 = ls ++ ls' := by
        rw [← hlabels, (Prod.mk.inj (Except.ok.inj hlabel')).1]
        exact labelsOf_readText fun l hl => (hname.isLabel l hl).1
      rw [hsame, hmeant, lowerLabels_append, lowerLabels_append] at hlower
      exact ⟨ls', hops, hdec, Nat.le_of_succ_le_succ hhops, append_cancel_left hlower⟩
    · exact absurd hlabel
        (getLabelFromContent_deep (by omega) hread hname labelFuel [] (show 10 < hops + 1 + 0 by omega) _)
  · -- it goes back to a label of this name
    have hfront : keptOctets ((w.front text compress).take j) = labelOctets (ls.take j) := by
      unfold keptOctets
      rw [hkept, map_take]
    have hcontent : pre ++ octets = pre ++ (labelOctets ls ++ pointerTo li) := by
      rw [hform, ← htails]
      rfl
    rw [hcontent] at hraw hsize
    have hplace : li = pre.length + 12 + (labelOctets (ls.take j)).length := by
      have h12 : 12 ≤ w.writePos := by
        unfold DNSPacketWriter.writePos
        omega
      change li = w.writePos + (keptOctets ((w.front text compress).take j)).length at hback
      rw [← hfront, hpre]
      omega
    exact absurd hraw (rawLabels_pointer_back hls hsize hsmall hplace labelFuel)

end Refusing

end PowerDNS
