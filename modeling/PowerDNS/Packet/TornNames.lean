import PowerDNS.Packet.RecordClasses

/-!
# Names that are changed in a text

`name_survives_iff` says which names come back from a text. Here is what becomes of the others when the record is
written again: with a blank in it a name gets longer, and without one it is cut at the first white space.

Either way the octets are others than those of the name, and not even the front of a record can have them:
`labelOctets_align` compares names with anything behind them, and a name in a packet that ends in a pointer with the
same names without one. `changed_name` is what the records with names in them need to know.
-/

namespace PowerDNS

open CompressedName List

/-! ### What is written for the text of labels -/

section Writing

variable {blanks : Bool} {l : Octets} {ls : List Octets}

/-- An octet of a label in a text, as `xfrLabel` takes it. -/
def fieldToken (blanks : Bool) (c : UInt8) : LabelToken :=
  if c = dot ∨ c = backslash then .escaped c else if blanks && dnsIsspace c then .escaped 32 else .plain c

/-- A label in a text. -/
def fieldTokens (blanks : Bool) (l : Octets) : List LabelToken := l.map (fieldToken blanks)

theorem fieldTokens_eq_nil : fieldTokens blanks l = [] ↔ l = [] := map_eq_nil_iff

theorem keptLabel_fieldTokens (blanks : Bool) (l : Octets) : keptLabel (fieldTokens blanks l) = spread blanks l := by
  induction l with
  | nil => rfl
  | cons c l ih =>
    change (fieldToken blanks c).kept ++ keptLabel (fieldTokens blanks l) = _
    rw [ih, spread_cons]
    refine congrArg (· ++ spread blanks l) ?_
    unfold fieldToken
    by_cases hspecial : c = dot ∨ c = backslash
    · have hblank : ¬ (blanks && dnsIsspace c) = true := by
        rw [Bool.and_eq_true, not_and]
        intro _
        obtain rfl | rfl := hspecial <;> decide
      rw [if_pos hspecial, if_neg hblank]
      exact if_pos hspecial
    · rw [if_neg hspecial]
      split <;> rfl

theorem scanLabels_fieldLabel (lpos : Nat) (cur : List LabelToken) (l t : Octets) :
    scanLabels lpos cur (fieldLabel blanks l ++ t) = scanLabels lpos (cur ++ fieldTokens blanks l) t := by
  induction l generalizing cur with
  | nil =>
    change scanLabels lpos cur t = scanLabels lpos (cur ++ []) t
    rw [append_nil]
  | cons c l ih =>
    have hcons (token : LabelToken) :
        cur ++ [token] ++ fieldTokens blanks l = cur ++ (token :: fieldTokens blanks l) := by
      rw [append_assoc]
      rfl
    change _ = scanLabels lpos (cur ++ (fieldToken blanks c :: fieldTokens blanks l)) t
    rw [fieldLabel_cons, append_assoc, ← hcons, ← ih]
    unfold fieldToken
    by_cases hspecial : c = dot ∨ c = backslash
    · rw [if_pos hspecial, if_pos hspecial]
      exact scanLabels_escape lpos cur c _
    · rw [if_neg hspecial, if_neg hspecial]
      by_cases hblank : (blanks && dnsIsspace c) = true
      · rw [if_pos hblank, if_pos hblank]
        exact scanLabels_escape lpos cur 32 _
      · rw [if_neg hblank, if_neg hblank]
        rw [not_or] at hspecial
        exact scanLabels_octet hspecial.1 hspecial.2 lpos cur _

/-- The labels of a text that may end within a label. -/
theorem scanLabels_fieldText (lpos : Nat) (ls : List Octets) (part : Octets) :
    (scanLabels lpos [] (fieldText blanks ls ++ fieldLabel blanks part)).map Prod.snd =
      (ls ++ if part = [] then [] else [part]).map (fieldTokens blanks) := by
  induction ls generalizing lpos with
  | nil =>
    have hpart := @scanLabels_fieldLabel blanks lpos [] part []
    rw [append_nil, nil_append] at hpart
    change (scanLabels lpos [] (fieldLabel blanks part)).map Prod.snd = _
    rw [hpart]
    change (if fieldTokens blanks part = [] then [] else [(lpos, fieldTokens blanks part)]).map Prod.snd = _
    by_cases hempty : part = []
    · rw [if_pos (fieldTokens_eq_nil.mpr hempty), if_pos hempty]
      rfl
    · rw [if_neg (mt fieldTokens_eq_nil.mp hempty), if_neg hempty]
      rfl
  | cons l ls ih =>
    rw [fieldText_cons, append_assoc, scanLabels_fieldLabel, nil_append]
    change (scanLabels lpos (fieldTokens blanks l) (dot :: (fieldText blanks ls ++ fieldLabel blanks part))).map
      Prod.snd = _
    rw [scanLabels_dot, map_cons, ih]
    rfl

/-- What is written for such a text, if anything is. -/
theorem canonicalName_fieldText {part out : Octets} (hroot : fieldText blanks ls ++ fieldLabel blanks part ≠ [dot])
    (h : canonicalName (fieldText blanks ls ++ fieldLabel blanks part) = some out) :
    out = wireLabels ((ls ++ if part = [] then [] else [part]).map (spread blanks)) ∧
      (backslash ∈ fieldText blanks ls ++ fieldLabel blanks part →
        ∀ l ∈ ls ++ (if part = [] then [] else [part]), (spread blanks l).length ≤ 255) := by
  have hlabels : (textLabels (fieldText blanks ls ++ fieldLabel blanks part)).map Prod.snd =
      (ls ++ if part = [] then [] else [part]).map (fieldTokens blanks) := by
    unfold textLabels
    rw [if_neg hroot]
    exact scanLabels_fieldText 0 ls part
  unfold canonicalName at h
  rw [hlabels] at h
  generalize (ls ++ if part = [] then [] else [part]) = labels at h ⊢
  dsimp only at h
  split at h
  · cases h
  next hshort =>
    rw [not_and] at hshort
    refine ⟨?_, fun hback l hl => ?_⟩
    · rw [← Option.some.inj h, wireLabels_eq]
      unfold keptOctets
      rw [map_map]
      refine congrArg (labelOctets · ++ [0]) (map_congr_left fun l _ => ?_)
      exact keptLabel_fieldTokens blanks l
    · by_contra hlong
      refine hshort hback ⟨fieldTokens blanks l, mem_map_of_mem hl, ?_⟩
      rw [keptLabel_fieldTokens]
      exact not_le.mp hlong

end Writing

/-! ### Comparing names with anything behind them -/

section Aligned

variable {front ls : List Octets} {s t : Octets}

theorem labelOctets_cons (l : Octets) (ls : List Octets) :
    labelOctets (l :: ls) = UInt8.ofNat l.length :: (l ++ labelOctets ls) := rfl

theorem toNat_length {l : Octets} (h : l.length ≤ 255) : (UInt8.ofNat l.length).toNat = l.length := by
  rw [UInt8.toNat_ofNat', Nat.mod_eq_of_lt (by omega)]

/-- **Names are self-delimiting.** When labels with an octet behind them stand in front of what a name stands in front
of too, the octet is the end of that name, or the length of its next label. -/
theorem labelOctets_align {x : UInt8} (hfront : ∀ l ∈ front, l ≠ [] ∧ l.length ≤ 255)
    (hls : ∀ l ∈ ls, l ≠ [] ∧ l.length ≤ 255) (h : labelOctets front ++ x :: s = wireLabels ls ++ t) :
    (x = 0 ∧ ls = front ∧ s = t) ∨ ∃ l more, ls = front ++ l :: more ∧ x = UInt8.ofNat l.length := by
  induction front generalizing ls with
  | nil =>
    cases ls with
    | nil =>
      obtain ⟨hx, hs⟩ := List.cons.inj h
      exact .inl ⟨hx, rfl, hs⟩
    | cons l more => exact .inr ⟨l, more, rfl, (List.cons.inj h).1⟩
  | cons f front ih =>
    obtain ⟨⟨hne, hf⟩, hothers⟩ := forall_mem_cons.mp hfront
    cases ls with
    | nil =>
      -- the length of the label would be zero
      have hzero := congrArg UInt8.toNat (List.cons.inj h).1
      rw [toNat_length hf] at hzero
      exact absurd (eq_nil_of_length_eq_zero hzero) hne
    | cons l ls =>
      obtain ⟨⟨-, hl⟩, hlater⟩ := forall_mem_cons.mp hls
      obtain ⟨hfirst, hrest⟩ := List.cons.inj h
      have hlength : f.length = l.length := by rw [← toNat_length hf, hfirst, toNat_length hl]
      change f ++ labelOctets front ++ x :: s = l ++ wireLabels ls ++ t at hrest
      rw [append_assoc, append_assoc] at hrest
      obtain ⟨rfl, hbehind⟩ := append_inj hrest hlength
      obtain ⟨hx, rfl, hs⟩ | ⟨l, more, rfl, hx⟩ := ih hothers hlater hbehind
      · exact .inl ⟨hx, rfl, hs⟩
      · exact .inr ⟨l, more, rfl, hx⟩

theorem wireLabels_align {ls' : List Octets} (hls : ∀ l ∈ ls, l ≠ [] ∧ l.length ≤ 255)
    (hls' : ∀ l ∈ ls', l ≠ [] ∧ l.length ≤ 255) (h : wireLabels ls ++ s = wireLabels ls' ++ t) :
    ls' = ls ∧ s = t := by
  rw [wireLabels_eq, append_assoc] at h
  obtain ⟨-, hsame, hrest⟩ | ⟨l, more, rfl, hx⟩ := labelOctets_align hls hls' h
  · exact ⟨hsame, hrest⟩
  · obtain ⟨hne, hl⟩ := hls' l (mem_append_right _ mem_cons_self)
    have hzero := congrArg UInt8.toNat hx
    rw [toNat_length hl] at hzero
    exact absurd (eq_nil_of_length_eq_zero hzero.symm) hne

/-- The octets of a name in a packet: its labels, or the first of them and a pointer. -/
inductive RawName (ls : List Octets) : Octets → Prop
  | whole : RawName ls (wireLabels ls)
  | pointed {front : List Octets} {hi lo : UInt8} (hfront : ∀ l ∈ front, l ≠ [] ∧ l.length ≤ 191) (hhi : 192 ≤ hi) :
      RawName ls (labelOctets front ++ [hi, lo])

/-- A pointer is in front of no name that is written, but for one with a label of more than 191 octets. -/
theorem pointer_align {hi lo : UInt8} (hfront : ∀ l ∈ front, l ≠ [] ∧ l.length ≤ 191) (hhi : 192 ≤ hi)
    (hls : ∀ l ∈ ls, l ≠ [] ∧ l.length ≤ 255) (h : labelOctets front ++ [hi, lo] ++ s = wireLabels ls ++ t) :
    ∃ l more, ls = front ++ l :: more ∧ 192 ≤ l.length := by
  rw [append_assoc] at h
  obtain ⟨rfl, -, -⟩ | ⟨l, more, rfl, hx⟩ :=
    labelOctets_align (fun l hl => ⟨(hfront l hl).1, (hfront l hl).2.trans (by decide)⟩) hls h
  · exact absurd hhi (by decide)
  · obtain ⟨-, hl⟩ := hls l (mem_append_right _ mem_cons_self)
    have hle := UInt8.le_iff_toNat_le.mp hhi
    rw [hx, toNat_length hl] at hle
    exact ⟨l, more, rfl, hle⟩

end Aligned

/-! ### What becomes of a name that does not come back -/

/-- What is written, and what the reader leaves over, for a name `ls` with `behind` behind it. -/
inductive Changed (ls : List Octets) (behind : Octets) : Octets → Octets → Prop
  /-- There is nothing in front of its first dot but white space. -/
  | root {out rest : Octets} (hzero : out.head? = some 0) : Changed ls behind out rest
  /-- It is cut at white space. -/
  | cut {ls' : List Octets} {rest : Octets} (hls' : ∀ l ∈ ls', l ≠ [] ∧ l.length ≤ 191)
      (hless : (wireLabels ls').length < (wireLabels ls).length) : Changed ls behind (wireLabels ls') rest
  /-- There is a blank in it, which gets a backslash. -/
  | longer (hblank : ∃ l ∈ ls, 32 ∈ l) (hshort : ∀ l ∈ ls, (spread true l).length ≤ 255) :
      Changed ls behind (wireLabels (ls.map (spread true))) behind

section Changes

variable {ls : List Octets} {behind : Octets}

theorem spread_ne_nil {l : Octets} (h : l ≠ []) : spread true l ≠ [] := by
  obtain ⟨c, l, rfl⟩ := exists_cons_of_ne_nil h
  rw [spread_cons]
  split <;> exact cons_ne_nil _ _

/-- **A changed name is not in front of a record**, as long as what stands behind the name is not much longer than
what is written behind it. -/
theorem Changed.ne_raw {out rest raw : Octets} (h : Changed ls behind out rest) (hraw : RawName ls raw)
    (hne : ls ≠ []) (hls : ∀ l ∈ ls, l ≠ [] ∧ l.length ≤ 191) {s t : Octets}
    (hlength : rest = behind → s.length < t.length + 192) : raw ++ s ≠ out ++ t := by
  have hls255 : ∀ l ∈ ls, l ≠ [] ∧ l.length ≤ 255 := fun l hl => ⟨(hls l hl).1, (hls l hl).2.trans (by decide)⟩
  intro heq
  cases h with
  | root hzero =>
    -- the first octet of the name is a length or that of a pointer
    have hfirst : ∀ f : Octets, f ≠ [] → f.length ≤ 191 → UInt8.ofNat f.length ≠ 0 := by
      intro f hf hlen h0
      have hzero := congrArg UInt8.toNat h0
      rw [toNat_length (hlen.trans (by decide))] at hzero
      exact hf (eq_nil_of_length_eq_zero hzero)
    have hhead : (raw ++ s).head? = some 0 := by
      rw [heq, head?_append, hzero]
      rfl
    cases hraw with
    | whole =>
      obtain ⟨l, ls, rfl⟩ := exists_cons_of_ne_nil hne
      obtain ⟨hl, hlen⟩ := hls l mem_cons_self
      exact hfirst l hl hlen (Option.some.inj hhead)
    | @pointed front hi lo hfront hhi =>
      cases front with
      | nil =>
        obtain rfl : hi = 0 := Option.some.inj hhead
        exact absurd hhi (by decide)
      | cons f front =>
        obtain ⟨hf, hlen⟩ := hfront f mem_cons_self
        exact hfirst f hf hlen (Option.some.inj hhead)
  | @cut ls' rest hls' hless =>
    have hls'255 : ∀ l ∈ ls', l ≠ [] ∧ l.length ≤ 255 :=
      fun l hl => ⟨(hls' l hl).1, (hls' l hl).2.trans (by decide)⟩
    cases hraw with
    | whole =>
      obtain ⟨rfl, -⟩ := wireLabels_align hls255 hls'255 heq
      exact Nat.lt_irrefl _ hless
    | pointed hfront hhi =>
      obtain ⟨l, more, rfl, hlong⟩ := pointer_align hfront hhi hls'255 heq
      have hle := (hls' l (mem_append_right _ mem_cons_self)).2
      omega
  | longer hblank hshort =>
    have hls'255 : ∀ l ∈ ls.map (spread true), l ≠ [] ∧ l.length ≤ 255 :=
      forall_mem_map.mpr fun l hl => ⟨spread_ne_nil (hls l hl).1, hshort l hl⟩
    cases hraw with
    | whole =>
      obtain ⟨hsame, -⟩ := wireLabels_align hls255 hls'255 heq
      obtain ⟨l, hl, hmem⟩ := hblank
      have hself : spread true l = l := map_inj_left.mp (hsame.trans (map_id _).symm) l hl
      exact absurd (spread_eq_self hself 32 hmem) (by decide)
    | @pointed front hi lo hfront hhi =>
      -- the label in the place of the pointer makes the name too long
      obtain ⟨l, more, hsplit, hlong⟩ := pointer_align hfront hhi hls'255 heq
      have hlengths := congrArg List.length heq
      have hbehind := hlength rfl
      rw [hsplit, wireLabels_eq, labelOctets_append, labelOctets_cons] at hlengths
      simp only [length_append, length_cons, length_nil] at hlengths
      omega

/-- The name that is one field is written as it was. -/
theorem canonicalName_readText (hls : ∀ l ∈ ls, l ≠ [] ∧ l.length ≤ 191) :
    canonicalName (readText [] ls) = some (wireLabels ls) := by
  obtain ⟨lmap, hcanonic⟩ := @xfrLabel_canonic { emptyWriter with d_canonic := true } rfl (readText [] ls) false
  obtain ⟨entries, hwritten⟩ := xfrLabel_readText { emptyWriter with d_canonic := true } hls
  rw [hwritten] at hcanonic
  cases hname : canonicalName (readText [] ls) with
  | none =>
    rw [hname] at hcanonic
    cases hcanonic
  | some name =>
    rw [hname, Option.map_some, Option.some.injEq] at hcanonic
    exact congrArg some (congrArg DNSPacketWriter.d_record hcanonic).symm

theorem skipSpaces_append {text rest : Octets} (h : RecordTextReader.skipSpaces text = .ok rest) (behind : Octets) :
    RecordTextReader.skipSpaces (text ++ behind) = .ok (rest ++ behind) := by
  unfold RecordTextReader.skipSpaces at h ⊢
  rw [dropWhile_append]
  cases hdrop : text.dropWhile dnsIsspace with
  | nil =>
    rw [hdrop] at h
    cases h
  | cons c t =>
    rw [hdrop] at h
    rw [← Except.ok.inj h]
    rfl

/-- Labels are read up to the first white space. -/
theorem labelField_front (hls : ∀ l ∈ ls, ∀ c ∈ l, endsField c = false) (t : Octets) :
    RecordTextReader.labelField (fieldText false ls ++ t) =
      (fieldText false ls ++ (RecordTextReader.labelField t).1, (RecordTextReader.labelField t).2) := by
  induction ls with
  | nil => rfl
  | cons l ls ih =>
    obtain ⟨hl, hls⟩ := forall_mem_cons.mp hls
    rw [fieldText_cons, append_assoc, RecordTextReader.labelField_fieldLabel (.inr hl)]
    rw [cons_append, RecordTextReader.labelField_plain (by decide) (by decide), ih hls]
    rw [append_assoc]
    rfl

/-- Where the first white space is that ends the field. -/
theorem exists_end (ls : List Octets) : (∀ l ∈ ls, ∀ c ∈ l, endsField c = false) ∨
    ∃ front part c tl more, ls = front ++ (part ++ c :: tl) :: more ∧ endsField c = true ∧
      (∀ l ∈ front, ∀ c ∈ l, endsField c = false) ∧ ∀ c ∈ part, endsField c = false := by
  by_cases hall : ∀ l ∈ ls, ∀ c ∈ l, endsField c = false
  · exact .inl hall
  have hlabel (l : Octets) : l.find? endsField = none ↔ ∀ c ∈ l, endsField c = false := by
    rw [find?_eq_none]
    exact forall₂_congr fun c hc => iff_of_eq (Bool.not_eq_true _)
  cases hfind : ls.find? fun l => (l.find? endsField).isSome with
  | none =>
    refine absurd (fun l hl => (hlabel l).mp ?_) hall
    exact Option.not_isSome_iff_eq_none.mp (find?_eq_none.mp hfind l hl)
  | some l =>
    obtain ⟨hl, front, more, rfl, hfront⟩ := find?_eq_some_iff_append.mp hfind
    obtain ⟨c, hc⟩ := Option.isSome_iff_exists.mp hl
    obtain ⟨hends, part, tl, rfl, hpart⟩ := find?_eq_some_iff_append.mp hc
    refine .inr ⟨front, part, c, tl, more, rfl, hends, fun f hf => (hlabel f).mp ?_, fun d hd => ?_⟩
    · exact Option.not_isSome_iff_eq_none.mp ((Bool.not_eq_true' _).mp (hfront f hf) ▸ Bool.false_ne_true)
    · exact (Bool.not_eq_true' _).mp (hpart d hd)

theorem length_wireLabels_append (front ls' : List Octets) :
    (wireLabels (front ++ ls')).length = (labelOctets front).length + (wireLabels ls').length := by
  rw [wireLabels_eq, wireLabels_eq, labelOctets_append, append_assoc, length_append]

theorem length_wireLabels_cons (l : Octets) (ls : List Octets) :
    (wireLabels (l :: ls)).length = l.length + 1 + (wireLabels ls).length := by
  rw [wireLabels, length_append, length_cons]

/-- A text that begins with a dot is written with an empty label, or as the root. -/
theorem head_canonicalName {t out : Octets} (h : canonicalName (dot :: t) = some out) : out.head? = some 0 := by
  by_cases ht : t = []
  · rw [ht] at h
    have hroot : canonicalName [dot] = some [0] := by decide
    rw [← Option.some.inj (hroot.symm.trans h)]
    rfl
  · have hlabels : textLabels (dot :: t) = (0, []) :: scanLabels (0 + 0 + 1) [] t := by
      unfold textLabels
      rw [if_neg fun heq => ht (List.cons.inj heq).2]
      exact scanLabels_dot 0 [] t
    unfold canonicalName at h
    rw [hlabels] at h
    dsimp only at h
    split at h
    · cases h
    · rw [← Option.some.inj h]
      rfl

/-- A field that ends within a label. -/
theorem labelField_cut {front more : List Octets} {part tl : Octets} {c : UInt8} (hends : endsField c = true)
    (hfront : ∀ l ∈ front, ∀ c ∈ l, endsField c = false) (hpart : ∀ c ∈ part, endsField c = false) (behind : Octets) :
    (RecordTextReader.labelField (fieldText false (front ++ (part ++ c :: tl) :: more) ++ behind)).1 =
      fieldText false front ++ fieldLabel false part := by
  have hplain : ¬ (c = dot ∨ c = backslash) := by
    rintro (rfl | rfl)
    · exact absurd hends (by decide)
    · exact absurd hends (by decide)
  have hlabel : fieldLabel false (part ++ c :: tl) = fieldLabel false part ++ c :: fieldLabel false tl := by
    unfold fieldLabel
    rw [flatMap_append, flatMap_cons, if_neg hplain]
    rfl
  have htext : fieldText false (front ++ (part ++ c :: tl) :: more) ++ behind =
      fieldText false front ++ (fieldLabel false part ++ c :: (fieldLabel false tl ++ dot :: fieldText false more ++
        behind)) := by
    rw [show fieldText false (front ++ (part ++ c :: tl) :: more) = fieldText false front ++
      fieldText false ((part ++ c :: tl) :: more) from flatMap_append, fieldText_cons, hlabel]
    simp only [append_assoc, cons_append]
  rw [htext, labelField_front hfront, RecordTextReader.labelField_fieldLabel (.inr hpart),
    RecordTextReader.labelField_ends hends, append_nil]

theorem front_ne_root {front : List Octets} (hfront : ∀ l ∈ front, l ≠ []) (part : Octets) :
    fieldText false front ++ fieldLabel false part ≠ [dot] := by
  intro h
  have hhead := congrArg List.head? h
  cases front with
  | nil => exact head?_fieldLabel part hhead
  | cons f front =>
    obtain ⟨c, f, rfl⟩ := exists_cons_of_ne_nil (hfront f mem_cons_self)
    refine @head?_fieldLabel false (c :: f) ?_
    rw [fieldText_cons, append_assoc, head?_append] at hhead
    obtain ⟨d, t, hcons⟩ := exists_cons_of_ne_nil (show fieldLabel false (c :: f) ≠ [] by
      rw [fieldLabel_cons]
      split <;> exact cons_ne_nil _ _)
    rw [hcons] at hhead ⊢
    exact hhead

/-- A name whose text is written as it is, read where it has been written. -/
theorem changed_of_unblanked {l val rest out : Octets} (hls : ∀ l' ∈ l :: ls, l' ≠ [] ∧ l'.length ≤ 191)
    (hnot : ¬ OneField (l :: ls))
    (hbehind : behind = [] ∨ behind.head? = some 32)
    (hread : RecordTextReader.xfrLabel [] (fieldText false (l :: ls) ++ behind) = .ok (val, rest))
    (hwritten : canonicalName val = some out) : Changed (l :: ls) behind out rest := by
  have hskip := skipSpaces_append (RecordTextReader.skipSpaces_fieldText l ls) behind
  rw [reader_xfrLabel hskip rfl] at hread
  obtain ⟨hval, -⟩ := Prod.mk.inj (Except.ok.inj hread)
  obtain ⟨hl, hothers⟩ := forall_mem_cons.mp hls
  have hle := length_dropWhile_le dnsIsspace l
  by_cases hempty : l.dropWhile dnsIsspace = []
  · -- the dot behind the first label is the first octet of the field
    rw [hempty] at hval
    change (RecordTextReader.labelField (dot :: (fieldText false ls ++ behind))).1 = val at hval
    rw [RecordTextReader.labelField_plain (by decide) (by decide)] at hval
    rw [← hval] at hwritten
    exact .root (head_canonicalName hwritten)
  have hfirst : l.dropWhile dnsIsspace ≠ [] ∧ (l.dropWhile dnsIsspace).length ≤ 191 := ⟨hempty, hle.trans hl.2⟩
  have hnames : ∀ l' ∈ l.dropWhile dnsIsspace :: ls, l' ≠ [] ∧ l'.length ≤ 191 :=
    forall_mem_cons.mpr ⟨hfirst, hothers⟩
  have hid (names : List Octets) : names.map (spread false) = names :=
    (map_congr_left fun l' _ => spread_false l').trans (map_id _)
  obtain hwhole | ⟨front, part, c, tl, more, hsplit, hends, hfront, hpart⟩ :=
    exists_end (l.dropWhile dnsIsspace :: ls)
  · -- only white space in front of the name is lost
    have hfield := @RecordTextReader.labelField_fieldText false _ _ (.inr hwhole) hbehind
    rw [hfield, ← append_nil (fieldText _ _)] at hval
    have hroot : fieldText false (l.dropWhile dnsIsspace :: ls) ++ fieldLabel false [] ≠ [dot] := by
      rw [show fieldLabel false [] = [] from rfl, append_nil]
      exact fieldText_ne_root hempty
    rw [← hval] at hwritten
    obtain ⟨rfl, -⟩ := canonicalName_fieldText hroot hwritten
    rw [if_pos rfl, append_nil, hid]
    refine .cut hnames ?_
    have hless : (l.dropWhile dnsIsspace).length < l.length := by
      refine lt_of_le_of_ne hle fun hsame => hnot ?_
      have hself : l.dropWhile dnsIsspace = l := (dropWhile_suffix dnsIsspace).eq_of_length hsame
      rw [hself] at hwhole
      refine ⟨hwhole, fun hcr => ?_⟩
      -- a carriage return in front would be white space
      obtain ⟨c, l, rfl⟩ := exists_cons_of_ne_nil hl.1
      obtain rfl : c = 13 := Option.some.inj hcr
      rw [dropWhile_cons_of_pos (by decide)] at hself
      have hshorter := length_dropWhile_le dnsIsspace l
      rw [hself, length_cons] at hshorter
      omega
    rw [length_wireLabels_cons, length_wireLabels_cons]
    omega
  · -- the field ends within a label
    have hpieces : (∀ l' ∈ front, l' ≠ [] ∧ l'.length ≤ 191) ∧ (part ++ c :: tl).length ≤ 191 := by
      rw [hsplit] at hnames
      exact ⟨fun l' hl' => hnames l' (mem_append_left _ hl'),
        (hnames _ (mem_append_right _ mem_cons_self)).2⟩
    rw [hsplit, labelField_cut hends hfront hpart] at hval
    rw [← hval] at hwritten
    obtain ⟨rfl, -⟩ := canonicalName_fieldText (front_ne_root (fun l' hl' => (hpieces.1 l' hl').1) part) hwritten
    rw [hid]
    rw [length_append, length_cons] at hpieces
    have hlengths : (wireLabels _).length = (wireLabels _).length := congrArg (List.length ∘ wireLabels) hsplit
    rw [length_wireLabels_append, length_wireLabels_cons, length_wireLabels_cons, length_append,
      length_cons] at hlengths
    refine .cut (fun l' hl' => ?_) ?_
    · obtain hl' | hl' := mem_append.mp hl'
      · exact hpieces.1 l' hl'
      · split at hl'
        · cases hl'
        next hne =>
          rw [mem_singleton.mp hl']
          exact ⟨hne, by omega⟩
    · have hend : (wireLabels (if part = [] then [] else [part])).length ≤ part.length + 2 := by
        split
        · exact Nat.le_add_left 1 _
        · rw [length_wireLabels_cons]
          exact Nat.le_refl _
      rw [length_wireLabels_append, length_wireLabels_cons]
      have hpos : 1 ≤ (wireLabels more).length := by
        rw [wireLabels_eq, length_append]
        exact Nat.le_add_left 1 _
      omega

/-- **A name that is not one field is changed**, wherever it is read and whatever is behind it. -/
theorem changed_name {val rest out : Octets} (hls : ∀ l ∈ ls, l ≠ [] ∧ l.length ≤ 191) (hnot : ¬ OneField ls)
    (hbehind : behind = [] ∨ behind.head? = some 32)
    (hread : RecordTextReader.xfrLabel [] (RecordTextWriter.xfrLabel [] (readText [] ls) ++ behind) = .ok (val, rest))
    (hwritten : canonicalName val = some out) : Changed ls behind out rest := by
  cases ls with
  | nil => exact absurd ⟨forall_mem_nil _, (Option.some_ne_none 13).symm⟩ hnot
  | cons l ls =>
    have hl := (hls l mem_cons_self).1
    rw [readText_fieldText (cons_ne_nil l ls)] at hread
    by_cases hblank : 32 ∈ fieldText false (l :: ls)
    · have htext : RecordTextWriter.xfrLabel [] (fieldText false (l :: ls)) = fieldText true (l :: ls) := by
        unfold RecordTextWriter.xfrLabel
        rw [if_pos rfl, if_neg (not_not.mpr hblank), writer_fieldText]
        rfl
      obtain ⟨c, t, hcons, hc⟩ := @head_fieldText l ls true hl (.inl rfl)
      have hskip : RecordTextReader.skipSpaces (fieldText true (l :: ls) ++ behind) =
          .ok (fieldText true (l :: ls) ++ behind) := by
        rw [hcons]
        exact skipSpaces_of_head hc
      rw [htext, reader_xfrLabel hskip (RecordTextReader.labelField_fieldText (.inl rfl) hbehind)] at hread
      obtain ⟨rfl, rfl⟩ := Prod.mk.inj (Except.ok.inj hread)
      have hroot : fieldText true (l :: ls) ++ fieldLabel true [] ≠ [dot] := by
        rw [show fieldLabel true [] = [] from rfl, append_nil]
        exact fieldText_ne_root hl
      have hwhole := @canonicalName_fieldText true (l :: ls) [] out hroot
      rw [show fieldLabel true [] = [] from rfl, append_nil, if_pos rfl, append_nil] at hwhole
      obtain ⟨rfl, hshort⟩ := hwhole hwritten
      -- the blank has a backslash in front of it
      have hback : backslash ∈ fieldText true (l :: ls) := by
        rw [← writer_fieldText, mem_flatMap]
        exact ⟨32, hblank, by decide⟩
      exact .longer (blank_mem_fieldText.mp hblank) (hshort hback)
    · have htext : RecordTextWriter.xfrLabel [] (fieldText false (l :: ls)) = fieldText false (l :: ls) := by
        unfold RecordTextWriter.xfrLabel
        rw [if_pos rfl, if_pos hblank]
        rfl
      rw [htext] at hread
      exact changed_of_unblanked hls hnot hbehind hread hwritten

end Changes

end PowerDNS
