import PowerDNS.Names.Render
import PowerDNS.Packet.DNSWriter
import Mathlib.Data.List.TakeWhile

/-!
# What `xfrLabel` writes

The writer takes a text apart by offsets (`labeltokUnescape`), undoes the escaping with two
replacements, and keys its label map by the rest of the text from some label on (`chopped`).
This file says what all that means for the text of a label sequence:

* `labeltokUnescape_labelsText` — the offsets are those of the escaped labels;
* `replaceAll_escapeLabel` — the two replacements give back the label;
* `keyLabels_chopped` — a key stands for the labels from its offset on. Two slips of the
  text handling show up here. A key of an undotted text that ends in an escaped dot loses
  that dot (`keyLabels` puts it back, no other key ends in a dangling backslash); a key of
  an undotted text is cut at a NUL octet, and this loses labels for good.

`xfrParts_hops` puts them together: the octets `xfrLabel` writes decode to the labels of
the name wherever they end up, provided what the label map points to does.
-/

namespace PowerDNS

open CompressedName List

/-! ### Taking a text apart -/

/-- The offsets of the escaped labels in a text that begins at `p`. -/
def labelOffsets : Nat → List Octets → List (Nat × Nat)
  | _, [] => []
  | p, l :: ls =>
    (p, p + (escapeLabel l).length) :: labelOffsets (p + (escapeLabel l).length + 1) ls

theorem labeltokUnescapeFrom_dot (pos lpos : Nat) (t : Octets) :
    labeltokUnescapeFrom pos lpos (dot :: t) =
      ((lpos, pos) :: (labeltokUnescapeFrom (pos + 1) (pos + 1) t).1,
        (labeltokUnescapeFrom (pos + 1) (pos + 1) t).2) := by
  rw [labeltokUnescapeFrom.eq_def]
  exact (if_neg dot_ne_backslash).trans (if_pos rfl)

theorem labeltokUnescapeFrom_octet {c : UInt8} (hdot : c ≠ dot) (hback : c ≠ backslash)
    (pos lpos : Nat) (t : Octets) :
    labeltokUnescapeFrom pos lpos (c :: t) = labeltokUnescapeFrom (pos + 1) lpos t := by
  rw [labeltokUnescapeFrom.eq_def]
  exact (if_neg hback).trans (if_neg hdot)

theorem labeltokUnescapeFrom_escapeLabel (pos lpos : Nat) (l t : Octets) :
    labeltokUnescapeFrom pos lpos (escapeLabel l ++ t) =
      ((labeltokUnescapeFrom (pos + (escapeLabel l).length) lpos t).1,
        escapeLabel l != l || (labeltokUnescapeFrom (pos + (escapeLabel l).length) lpos t).2) := by
  induction l generalizing pos with
  | nil => simp
  | cons c l ih =>
    unfold escapeLabel
    split
    next hc =>
      have hne : backslash :: c :: escapeLabel l ≠ c :: l := by
        intro h
        have hlen := congrArg List.length (List.cons.inj h).2
        have hle : l.length ≤ (escapeLabel l).length := length_le_escapeLabel l
        simp only [length_cons] at hlen
        omega
      have hbne : (backslash :: c :: escapeLabel l != c :: l) = true := bne_iff_ne.mpr hne
      simp only [cons_append, nil_append, labeltokUnescapeFrom, if_true, ih, hbne,
        Bool.true_or, length_cons]
      rw [show pos + 2 + (escapeLabel l).length = pos + ((escapeLabel l).length + 1 + 1) by omega]
    next hc =>
      rw [not_or] at hc
      have hbne : (c :: escapeLabel l != c :: l) = (escapeLabel l != l) := by
        simp [bne]
      simp only [cons_append, nil_append, labeltokUnescapeFrom_octet hc.1 hc.2, ih,
        hbne, length_cons]
      rw [show pos + 1 + (escapeLabel l).length = pos + ((escapeLabel l).length + 1) by omega]

/-- `labeltokUnescape` finds the escaped labels, and notices whether any is changed by the
escaping. -/
theorem labeltokUnescape_labelsText (dotted : Bool) (p : Nat) {ls : List Octets}
    (hls : ∀ l ∈ ls, l ≠ []) :
    labeltokUnescapeFrom p p (labelsText dotted ls) =
      (labelOffsets p ls, ls.any fun l => escapeLabel l != l) := by
  induction ls generalizing p with
  | nil => simp [labeltokUnescapeFrom, labelOffsets]
  | cons l ls ih =>
    have hrest := ih (p + (escapeLabel l).length + 1) fun l' hl' =>
      hls l' (mem_cons_of_mem _ hl')
    rw [labelsText_cons, labeltokUnescapeFrom_escapeLabel, labelOffsets, any_cons]
    split
    next =>
      rw [labeltokUnescapeFrom_dot]
      simp only [hrest]
    next h =>
      rw [not_or, not_not] at h
      have hpos : 0 < (escapeLabel l).length := by
        rw [length_pos_iff, ne_eq, escapeLabel_eq_nil]
        exact hls l mem_cons_self
      rw [h.2]
      simp [labeltokUnescapeFrom, labelOffsets, hpos]

/-- A name on the wire, without pointers. -/
def wireLabels : List Octets → Octets
  | [] => [0]
  | l :: ls => UInt8.ofNat l.length :: l ++ wireLabels ls

/-! ### Undoing the escaping -/

theorem replaceAll_cons {a b r x : UInt8} {t : Octets} (h : x = a → t.head? ≠ some b) :
    replaceAll a b r (x :: t) = x :: replaceAll a b r t := by
  cases t with
  | nil => rfl
  | cons y t =>
    rw [replaceAll, if_neg]
    rintro ⟨rfl, rfl⟩
    exact h rfl rfl

/-- An escaped label does not begin with a dot. -/
theorem head?_escapeLabel (l : Octets) : (escapeLabel l).head? ≠ some dot := by
  cases l with
  | nil => simp
  | cons c l =>
    unfold escapeLabel
    split
    next => simp [dot_ne_backslash.symm]
    next hc =>
      intro h
      exact hc (.inl (Option.some.inj h))

/-- A label with its backslashes doubled: what the first replacement leaves. -/
def doubleBackslashes : Octets → Octets
  | [] => []
  | c :: l => if c = backslash then backslash :: backslash :: doubleBackslashes l
      else c :: doubleBackslashes l

theorem replaceAll_dots (l : Octets) :
    replaceAll backslash dot dot (escapeLabel l) = doubleBackslashes l := by
  induction l with
  | nil => rfl
  | cons c l ih =>
    unfold escapeLabel doubleBackslashes
    by_cases hb : c = backslash
    · rw [if_pos (.inr hb), if_pos hb, hb]
      show replaceAll backslash dot dot (backslash :: backslash :: escapeLabel l) = _
      rw [replaceAll_cons fun _ => by simp [dot_ne_backslash.symm],
        replaceAll_cons fun _ => head?_escapeLabel l, ih]
    · by_cases hd : c = dot
      · rw [if_pos (.inl hd), if_neg hb, hd]
        show replaceAll backslash dot dot (backslash :: dot :: escapeLabel l) = _
        rw [replaceAll, if_pos ⟨rfl, rfl⟩, ih]
      · rw [if_neg (not_or.mpr ⟨hd, hb⟩), if_neg hb]
        show replaceAll backslash dot dot (c :: escapeLabel l) = _
        rw [replaceAll_cons fun h => absurd h hb, ih]

theorem replaceAll_backslashes (l : Octets) :
    replaceAll backslash backslash backslash (doubleBackslashes l) = l := by
  induction l with
  | nil => rfl
  | cons c l ih =>
    unfold doubleBackslashes
    split
    next hb => rw [replaceAll, if_pos ⟨rfl, rfl⟩, ih, hb]
    next hb => rw [replaceAll_cons fun h => absurd h hb, ih]

/-- The two replacements undo the escaping. -/
theorem replaceAll_escapeLabel (l : Octets) :
    replaceAll backslash backslash backslash
      (replaceAll backslash dot dot (escapeLabel l)) = l := by
  rw [replaceAll_dots, replaceAll_backslashes]

/-! ### The keys of the label map -/

/-- The labels a key of the label map stands for. -/
def keyLabels (key : Octets) : List Octets :=
  splitLabels false [] (if danglingEscape false key then key ++ [dot] else key)

theorem keyLabels_toLower (key : Octets) :
    keyLabels (toLower key) = lowerLabels (keyLabels key) := by
  unfold keyLabels
  rw [danglingEscape_toLower, ← splitLabels_toLower]
  split
  next => rw [toLower_append]; rfl
  next => rfl

theorem lowerLabels_keyLabels_congr {a b : Octets} (h : pdnsIequals a b = true) :
    lowerLabels (keyLabels a) = lowerLabels (keyLabels b) := by
  rw [← keyLabels_toLower, ← keyLabels_toLower, (pdnsIequals_iff a b).mp h]

theorem keyLabels_labelsText (dotted : Bool) {ls : List Octets} (hls : ∀ l ∈ ls, IsLabel l) :
    keyLabels (labelsText dotted ls) = ls := by
  unfold keyLabels
  rw [danglingEscape_labelsText, if_neg Bool.false_ne_true,
    splitLabels_labelsText dotted fun l hl => (hls l hl).1]

/-- The last dot of an undotted text is an escaped one. -/
theorem danglingEscape_of_labelsText {ls : List Octets} {u : Octets}
    (hls : ∀ l ∈ ls, IsLabel l) (hne : ls ≠ []) (h : labelsText false ls = u ++ [dot]) :
    danglingEscape false u = true := by
  by_contra hu
  -- the dotted text would have an empty label at its end
  have hdotted : labelsText true ls = u ++ dot :: [dot] := by
    show dottedText ls = _
    rw [dottedText_eq_append_dot hne, show (dottedText ls).dropLast = u ++ [dot] from h,
      append_assoc]
    rfl
  have hsplit := splitLabels_append_dot [] [dot] (Bool.eq_false_of_not_eq_true hu)
  have hnonempty : ∀ l ∈ ls, l ≠ [] := fun l hl => (hls l hl).1
  rw [← hdotted, ← h, splitLabels_labelsText true hnonempty, splitLabels_labelsText false hnonempty] at hsplit
  have hlen := congrArg List.length hsplit
  simp [splitLabels, dot_ne_backslash] at hlen

section Suffix

variable {label : Octets} {dotted : Bool} {p : Nat} {l : Octets} {ls : List Octets}

theorem length_le_of_drop (hl : l ≠ []) (hdrop : label.drop p = labelsText dotted (l :: ls)) :
    p ≤ label.length := by
  by_contra hp
  rw [drop_eq_nil_of_le (by omega)] at hdrop
  exact labelsText_ne_nil hl hdrop.symm

/-- **What a key stands for.** The key for the rest of a text from some label on stands for
the labels from there on, unless it is cut at a NUL octet. -/
theorem keyLabels_chopped (hls : ∀ l' ∈ l :: ls, IsLabel l')
    (hdrop : label.drop p = labelsText dotted (l :: ls)) (hnul : dotted = true ∨ 0 ∉ label) :
    keyLabels (chopped label (label.getLast? == some dot) p) = l :: ls := by
  have hs : labelsText dotted (l :: ls) ≠ [] := labelsText_ne_nil (hls l mem_cons_self).1
  have hlast : label.getLast? = (labelsText dotted (l :: ls)).getLast? := by
    rw [← hdrop, getLast?_drop, if_neg]
    intro hle
    rw [drop_eq_nil_of_le hle] at hdrop
    exact hs hdrop.symm
  have htake : (label.drop p).take (label.length - p - 1)
      = (labelsText dotted (l :: ls)).dropLast := by
    rw [dropLast_eq_take, ← hdrop, length_drop]
  unfold chopped
  split
  next hdot =>
    rw [htake]
    cases dotted with
    | true => exact keyLabels_labelsText false hls
    | false =>
      have hend : labelsText false (l :: ls)
          = (labelsText false (l :: ls)).dropLast ++ [dot] := by
        rw [beq_iff_eq, hlast] at hdot
        exact (dropLast_append_getLast? dot hdot).symm
      unfold keyLabels
      rw [if_pos (danglingEscape_of_labelsText hls (cons_ne_nil l ls) hend), ← hend,
        splitLabels_labelsText false fun l' hl' => (hls l' hl').1]
  next hdot =>
    cases dotted with
    | true =>
      rw [hlast] at hdot
      refine absurd ?_ hdot
      show ((dottedText (l :: ls)).getLast? == some dot) = true
      rw [dottedText_eq_append_dot (cons_ne_nil l ls)]
      simp
    | false =>
      have hclean : ∀ c ∈ label.drop p, (c != 0) = true := by
        intro c hc
        rw [bne_iff_ne]
        rintro rfl
        exact hnul.resolve_left Bool.false_ne_true (mem_of_mem_drop hc)
      rw [takeWhile_eq_self_iff.mpr hclean, hdrop]
      exact keyLabels_labelsText false hls

/-- The octets of a part of the text are those of its escaped label. -/
theorem rawPart_labelsText (hl : l ≠ []) (hdrop : label.drop p = labelsText dotted (l :: ls)) :
    rawPart label (p, p + (escapeLabel l).length) = escapeLabel l := by
  have hlen : (escapeLabel l).length ≤ (label.drop p).length := by
    rw [hdrop, labelsText_cons, length_append]
    exact Nat.le_add_right _ _
  unfold rawPart
  rw [drop_append_of_le_length (length_le_of_drop hl hdrop), Nat.add_sub_cancel_left,
    take_append_of_le_length hlen, hdrop, take_labelsText]

end Suffix

/-! ### Names in memory -/

/-- A reader that follows at most `k` pointers finds the labels `ls` at `p`, up to case. -/
def NameAt (m : Memory) (k p : Nat) (ls : List Octets) : Prop :=
  ∃ ls' hops, Decodes m p ls' hops ∧ hops ≤ k ∧ lowerLabels ls' = lowerLabels ls

theorem NameAt.mono {m m' : Memory} (hm : Extends m m') {k k' p : Nat} (hk : k ≤ k')
    {ls : List Octets} (h : NameAt m k p ls) : NameAt m' k' p ls := by
  obtain ⟨ls', hops, hdec, hhops, hls⟩ := h
  exact ⟨ls', hops, hdec.mono hm, hhops.trans hk, hls⟩

/-- An entry of the label map tells the truth, and a pointer can reach what it points to. -/
def EntryOK (m : Memory) (e : Octets × Nat) : Prop :=
  e.2 < 16384 ∧ NameAt m 10 e.2 (keyLabels e.1)

theorem EntryOK.mono {m m' : Memory} (hm : Extends m m') {e : Octets × Nat}
    (h : EntryOK m e) : EntryOK m' e :=
  ⟨h.1, h.2.mono hm le_rfl⟩

/-- The place to which the loop of `xfrLabel` writes a pointer, if it writes one. -/
def compressionTarget (label : Octets) (compress : Bool) (lmap : LabelMap)
    (parts : List (Nat × Nat)) : Option Nat :=
  if compress then
    parts.findSome? fun i => lmap.lookup (chopped label (label.getLast? == some dot) i.1)
  else none

/-- An entry whose name takes at most `k` pointers. -/
def EntryAt (k : Nat) (m : Memory) (e : Octets × Nat) : Prop :=
  e.2 < 16384 ∧ NameAt m k e.2 (keyLabels e.1)

/-- What is read at `li` takes fewer than ten pointers, so there may be one more. -/
def Shallow (m : Memory) (li : Nat) : Prop := ∀ ls hops, Decodes m li ls hops → hops < 10

theorem pointerTo_eq {li : Nat} (h : li < 16384) : pointerTo li = Decodes.pointerOctets li := by
  have hor : (UInt16.ofNat li ||| 0xc000).toNat = 49152 + li := by
    rw [UInt16.toNat_or, UInt16.toNat_ofNat', Nat.mod_eq_of_lt (by omega),
      show (0xc000 : UInt16).toNat = 2 ^ 14 * 3 from rfl, Nat.or_comm,
      ← Nat.two_pow_add_eq_or_of_lt h]
  unfold pointerTo Decodes.pointerOctets
  have hhi : ((UInt16.ofNat li ||| 0xc000) >>> 8).toUInt8 = UInt8.ofNat (192 + li / 256) := by
    rw [← UInt8.toNat_inj, UInt16.toNat_toUInt8, UInt16.toNat_shiftRight, hor,
      UInt8.toNat_ofNat', show (8 : UInt16).toNat % 16 = 8 from rfl, Nat.shiftRight_eq_div_pow]
    omega
  have hlo : ((UInt16.ofNat li ||| 0xc000) &&& 0xff).toUInt8 = UInt8.ofNat (li % 256) := by
    rw [← UInt8.toNat_inj, UInt16.toNat_toUInt8, UInt16.toNat_and, hor, UInt8.toNat_ofNat',
      show (0xff : UInt16).toNat = 2 ^ 8 - 1 from rfl, Nat.and_two_pow_sub_one_eq_mod]
    omega
  dsimp only
  rw [hhi, hlo]

namespace LabelMap

theorem exists_of_lookup {lmap : LabelMap} {key : Octets} {li : Nat}
    (h : lmap.lookup key = some li) : ∃ e ∈ lmap, pdnsIequals e.1 key = true ∧ e.2 = li := by
  obtain ⟨e, he, rfl⟩ := Option.map_eq_some_iff.mp h
  exact ⟨e, mem_of_find?_eq_some he, by simpa using find?_some he, rfl⟩

/-- Entries that do not match are not found. -/
theorem lookup_append {old pending : LabelMap} {key : Octets}
    (h : ∀ e ∈ pending, pdnsIequals e.1 key = false) :
    lookup (old ++ pending) key = lookup old key := by
  unfold lookup
  rw [find?_append]
  have hnone : pending.find? (fun e => pdnsIequals e.1 key) = none :=
    find?_eq_none.mpr fun e he => by simp [h e he]
  rw [hnone, Option.or_none]

/-- Entries for more labels do not match. -/
theorem lookup_pending {old pending : LabelMap} {key : Octets}
    (h : ∀ e ∈ pending, (keyLabels key).length < (keyLabels e.1).length) :
    lookup (old ++ pending) key = lookup old key := by
  refine lookup_append fun e he => ?_
  by_contra hmatch
  have hlabels := lowerLabels_keyLabels_congr (Bool.eq_true_of_not_eq_false hmatch)
  have hlength := congrArg List.length hlabels
  simp only [lowerLabels, length_map] at hlength
  have hmore := h e he
  omega

end LabelMap

section Loop

variable {label : Octets} {dotted unescaped compress : Bool} {m : Memory} {old : LabelMap}

/-- One turn of the loop of `xfrLabel`, in terms of labels. -/
theorem xfrParts_cons {p pos : Nat} {l : Octets} {ls : List Octets} {lmap : LabelMap}
    {record : Octets} (deDot : Bool) (hl : l ≠ []) (hlen : l.length ≤ 255)
    (hdrop : label.drop p = labelsText dotted (l :: ls))
    (hunescaped : unescaped = true ∨ escapeLabel l = l) :
    xfrParts label deDot unescaped compress (labelOffsets p (l :: ls)) pos lmap record =
      match (if compress then lmap.lookup (chopped label deDot p) else none) with
      | some li => some (lmap, record ++ pointerTo li)
      | none => xfrParts label deDot unescaped compress
          (labelOffsets (p + (escapeLabel l).length + 1) ls) (pos + l.length + 1)
          (lmap ++ if pos < 16384 then [(chopped label deDot p, pos)] else [])
          (record ++ UInt8.ofNat l.length :: l) := by
  rw [labelOffsets, xfrParts]
  cases hfound : (if compress then lmap.lookup (chopped label deDot p) else none) with
  | some li => rfl
  | none =>
    have hlmap : (if pos < 16384 then lmap ++ [(chopped label deDot p, pos)] else lmap)
        = lmap ++ if pos < 16384 then [(chopped label deDot p, pos)] else [] := by
      split
      · rfl
      · exact (append_nil lmap).symm
    dsimp only
    rw [hlmap, rawPart_labelsText hl hdrop, replaceAll_escapeLabel, Nat.add_sub_cancel_left]
    rw [if_neg (not_lt.mpr hlen)]
    split
    next => rfl
    next hflag => rw [hunescaped.resolve_left hflag]

/-- The loop of `xfrLabel` never fails on the text of a label sequence; it adds entries to the
label map and octets to the record, without compression those of the labels themselves. -/
theorem exists_xfrParts (deDot : Bool) {ls : List Octets} {p pos : Nat} {lmap : LabelMap}
    {record : Octets} (hls : ∀ l ∈ ls, l ≠ [] ∧ l.length ≤ 255)
    (hdrop : label.drop p = labelsText dotted ls)
    (hunescaped : unescaped = true ∨ ∀ l ∈ ls, escapeLabel l = l) :
    ∃ (entries : LabelMap) (octets : Octets),
      xfrParts label deDot unescaped compress (labelOffsets p ls) pos lmap record =
        some (lmap ++ entries, record ++ octets) ∧
      (compress = false → octets = wireLabels ls) := by
  induction ls generalizing p pos lmap record with
  | nil => exact ⟨[], [0], by simp [labelOffsets, xfrParts], fun _ => rfl⟩
  | cons l ls ih =>
    obtain ⟨hne, hlen⟩ := hls l mem_cons_self
    have hunescaped' : unescaped = true ∨ escapeLabel l = l :=
      hunescaped.imp_right fun h => h l mem_cons_self
    rw [xfrParts_cons deDot hne hlen hdrop hunescaped']
    split
    next li hfound =>
      refine ⟨[], pointerTo li, by simp, ?_⟩
      rintro rfl
      cases hfound
    next =>
      -- the rest of the text is that of the other labels
      have hrest : label.drop (p + (escapeLabel l).length + 1) = labelsText dotted ls := by
        rw [Nat.add_assoc, ← drop_drop, hdrop, drop_labelsText]
      obtain ⟨entries, octets, heq, hwire⟩ := @ih (p + (escapeLabel l).length + 1) (pos + l.length + 1)
        (lmap ++ if pos < 16384 then [(chopped label deDot p, pos)] else [])
        (record ++ UInt8.ofNat l.length :: l)
        (fun l' hl' => hls l' (mem_cons_of_mem _ hl')) hrest
        (hunescaped.imp_right fun h l' hl' => h l' (mem_cons_of_mem _ hl'))
      refine ⟨(if pos < 16384 then [(chopped label deDot p, pos)] else []) ++ entries,
        UInt8.ofNat l.length :: l ++ octets, ?_, ?_⟩
      · rw [heq, append_assoc, append_assoc]
      · intro hplain
        rw [hwire hplain]
        rfl

/-- **What `xfrLabel` writes.** The loop never fails on the text of a label sequence. In
every memory that extends `m` and holds the octets it writes where it writes them, these
octets decode to the labels, and so do the entries it adds to the label map. The loop is
followed label by label, and without compression no pointer is written; a pointer goes to an entry, so it
takes one more than that. The entries it has added itself (`pending`) have more labels than are left to
write, so it never points at them. -/
theorem xfrParts_hops {k k' : Nat} {ls : List Octets} {p pos : Nat} {pending : LabelMap} {record : Octets}
    (hls : ∀ l ∈ ls, IsLabel l) (hdrop : label.drop p = labelsText dotted ls)
    (hnul : dotted = true ∨ 0 ∉ label)
    (hunescaped : unescaped = true ∨ ∀ l ∈ ls, escapeLabel l = l)
    (hold : ∀ e ∈ old, EntryAt k m e)
    (hpending : ∀ e ∈ pending, ls.length < (keyLabels e.1).length)
    (htarget : ∀ li ∈ compressionTarget label compress old (labelOffsets p ls),
      ∀ ls hops, Decodes m li ls hops → hops < k') :
    ∃ (entries : LabelMap) (octets : Octets),
      xfrParts label (label.getLast? == some dot) unescaped compress (labelOffsets p ls) pos
          (old ++ pending) record = some (old ++ pending ++ entries, record ++ octets) ∧
      ∀ m', Extends m m' → Holds m' pos octets →
        NameAt m' (if compress then k' else 0) pos ls ∧ ∀ e ∈ entries, EntryAt k' m' e := by
  have hle : (if compress then k' else 0) ≤ k' := by split <;> omega
  induction ls generalizing p pos pending record with
  | nil =>
    refine ⟨[], [0], by simp [labelOffsets, xfrParts], fun m' _ hholds => ⟨?_, by simp⟩⟩
    exact ⟨[], 0, Decodes.of_root hholds, Nat.zero_le _, rfl⟩
  | cons l ls ih =>
    have hl := hls l mem_cons_self
    have hkey := keyLabels_chopped hls hdrop hnul
    have hrest : label.drop (p + (escapeLabel l).length + 1) = labelsText dotted ls := by
      rw [Nat.add_assoc, ← drop_drop, hdrop, drop_labelsText]
    have hunescaped' : unescaped = true ∨ escapeLabel l = l :=
      hunescaped.imp_right fun h => h l mem_cons_self
    rw [xfrParts_cons _ hl.1 (hl.2.trans (by decide)) hdrop hunescaped']
    generalize hk : chopped label (label.getLast? == some dot) p = key at hkey ⊢
    rw [LabelMap.lookup_pending fun e he => by rw [hkey]; exact hpending e he]
    cases hfound : (if compress then old.lookup key else none) with
    | some li =>
      -- the name ends in a pointer to an entry that was there before
      have hlook : old.lookup key = some li := by
        cases compress with
        | true => exact hfound
        | false => exact absurd hfound (by simp)
      have hcompress : compress = true := by
        by_contra h
        rw [Bool.eq_false_of_not_eq_true h] at hfound
        exact absurd hfound (by simp)
      obtain ⟨e, he, hmatch, rfl⟩ := LabelMap.exists_of_lookup hlook
      obtain ⟨hpos, ls', hops, hdec, _, hlabels⟩ := hold e he
      have hshallow : ∀ ls hops, Decodes m e.2 ls hops → hops < k' := by
        refine htarget e.2 ?_
        simp [compressionTarget, hcompress, labelOffsets, hk, hlook]
      refine ⟨[], pointerTo e.2, by simp, fun m' hm hholds => ⟨?_, by simp⟩⟩
      rw [pointerTo_eq hpos] at hholds
      refine ⟨ls', hops + 1, Decodes.of_pointer hpos hholds (hdec.mono hm), ?_, ?_⟩
      · rw [if_pos hcompress]
        exact hshallow ls' hops hdec
      · rw [hlabels, lowerLabels_keyLabels_congr hmatch, hkey]
    | none =>
      have hpending' : ∀ e ∈ pending ++ (if pos < 16384 then [(key, pos)] else []),
          ls.length < (keyLabels e.1).length := by
        intro e he
        rcases mem_append.mp he with he | he
        · exact (Nat.lt_succ_self _).trans (hpending e he)
        · split at he
          next =>
            rw [mem_singleton.mp he]
            rw [hkey]
            exact Nat.lt_succ_self _
          next => exact absurd he not_mem_nil
      have htarget' : ∀ li ∈ compressionTarget label compress old
          (labelOffsets (p + (escapeLabel l).length + 1) ls),
          ∀ ls hops, Decodes m li ls hops → hops < k' := by
        intro li hli
        apply htarget li
        unfold compressionTarget at hli ⊢
        cases compress with
        | false => exact hli
        | true =>
          rw [if_pos rfl] at hli hfound ⊢
          rw [labelOffsets, findSome?_cons, hk, hfound]
          exact hli
      obtain ⟨entries, octets, heq, hspec⟩ :=
        @ih _ (pos + l.length + 1) _ (record ++ UInt8.ofNat l.length :: l)
          (fun l' hl' => hls l' (mem_cons_of_mem _ hl')) hrest
          (hunescaped.imp_right fun h l' hl' => h l' (mem_cons_of_mem _ hl'))
          hpending' htarget'
      refine ⟨(if pos < 16384 then [(key, pos)] else []) ++ entries,
        UInt8.ofNat l.length :: l ++ octets, ?_, fun m' hm hholds => ?_⟩
      · dsimp only
        rw [append_assoc old, heq]
        simp [append_assoc]
      · have htail : Holds m' (pos + l.length + 1) octets := by
          have := (holds_append.mp hholds).2
          rwa [length_cons, ← Nat.add_assoc] at this
        obtain ⟨⟨ls', hops, hdec, hhops, hlabels⟩, hentries⟩ := hspec m' hm htail
        have hname : NameAt m' (if compress then k' else 0) pos (l :: ls) := by
          refine ⟨l :: ls', hops, Decodes.of_label hl hholds ?_, hhops, ?_⟩
          · rwa [show pos + (1 + l.length) = pos + l.length + 1 by omega]
          · simpa [lowerLabels] using hlabels
        refine ⟨hname, fun e he => ?_⟩
        rcases mem_append.mp he with he | he
        · split at he
          next hpos =>
            rw [mem_singleton.mp he]
            exact ⟨hpos, by rw [hkey]; exact hname.mono (Extends.refl m') hle⟩
          next => exact absurd he not_mem_nil
        · exact hentries e he

end Loop

/-! ### Whole names -/

/-- Either something was escaped, or every label is written as it is. -/
theorem any_escaped_or (ls : List Octets) :
    (ls.any fun l => escapeLabel l != l) = true ∨ ∀ l ∈ ls, escapeLabel l = l := by
  by_cases hany : (ls.any fun l => escapeLabel l != l) = true
  · exact .inl hany
  · refine .inr fun l hl => ?_
    by_contra hne
    exact hany (any_eq_true.mpr ⟨l, hl, bne_iff_ne.mpr hne⟩)

namespace DNSPacketWriter

/-- `xfrLabel` on the text of labels is the loop over these labels. -/
theorem xfrLabel_labelsText (w : DNSPacketWriter) (dotted compress : Bool) {l : Octets}
    {ls : List Octets} (hls : ∀ l' ∈ l :: ls, l' ≠ []) :
    w.xfrLabel (labelsText dotted (l :: ls)) compress =
      (xfrParts (labelsText dotted (l :: ls)) ((labelsText dotted (l :: ls)).getLast? == some dot)
        ((l :: ls).any fun l => escapeLabel l != l) (if w.d_canonic then false else compress)
        (labelOffsets 0 (l :: ls)) w.writePos w.d_labelmap w.d_record).map
        fun r => { w with d_labelmap := r.1, d_record := r.2 } := by
  unfold xfrLabel
  have hparts : labeltokUnescape (labelsText dotted (l :: ls)) =
      (labelOffsets 0 (l :: ls), (l :: ls).any fun l => escapeLabel l != l) :=
    labeltokUnescape_labelsText dotted 0 hls
  rw [if_neg (labelsText_ne_root (hls l mem_cons_self)), hparts]

/-- `xfrLabel` accepts the text of labels of at most 255 octets. -/
theorem exists_xfrLabel_labelsText (w : DNSPacketWriter) (dotted compress : Bool) {l : Octets}
    {ls : List Octets} (hls : ∀ l' ∈ l :: ls, l' ≠ [] ∧ l'.length ≤ 255) :
    ∃ (entries : LabelMap) (octets : Octets),
      w.xfrLabel (labelsText dotted (l :: ls)) compress =
        some { w.xfrBlob octets with d_labelmap := w.d_labelmap ++ entries } ∧
      (compress = false → octets = wireLabels (l :: ls)) := by
  rw [xfrLabel_labelsText w dotted compress fun l' hl' => (hls l' hl').1]
  obtain ⟨entries, octets, heq, hwire⟩ :=
    @exists_xfrParts _ dotted _ (if w.d_canonic then false else compress)
      ((labelsText dotted (l :: ls)).getLast? == some dot) _ 0 w.writePos w.d_labelmap w.d_record
      hls drop_zero (any_escaped_or (l :: ls))
  refine ⟨entries, octets, by rw [heq]; rfl, ?_⟩
  rintro rfl
  exact hwire (ite_self false)

/-- `xfrLabel` accepts the text of every name; it adds entries to the label map and octets to
the rdata buffer, without compression those of the labels, and changes nothing else. -/
theorem exists_xfrLabel (w : DNSPacketWriter) (n : Name) (compress : Bool) :
    ∃ (entries : LabelMap) (octets : Octets),
      w.xfrLabel n.text compress =
        some { w.xfrBlob octets with d_labelmap := w.d_labelmap ++ entries } ∧
      (compress = false → octets = wireLabels n.labels) := by
  obtain ⟨labels, dotted, hwf⟩ := n
  cases labels with
  | nil =>
    -- the root is one octet
    refine ⟨[], [0], ?_, fun _ => rfl⟩
    unfold xfrLabel xfrBlob
    cases dotted with
    | true => simp [Name.text]
    | false => simp [Name.text, labeltokUnescape, labeltokUnescapeFrom, xfrParts]
  | cons l ls =>
    exact exists_xfrLabel_labelsText w dotted compress
      fun l' hl' => ⟨(hwf l' hl').1, (hwf l' hl').2.trans (by decide)⟩

end DNSPacketWriter

end PowerDNS
