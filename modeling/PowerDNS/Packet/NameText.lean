import PowerDNS.Packet.CharacterStrings
import PowerDNS.Packet.NameEncoders

/-!
# Names as fields of a text: `RecordTextWriter::xfrLabel`, `RecordTextReader::xfrLabel`

The recursor passes the records of an answer on as texts, and parses the texts again when it stores the
records. In such a text the fields are separated by blanks. When a name has a blank, the writer puts a
backslash in front of it, and makes a blank of other white space; when it has none, the writer does
nothing at all. The reader skips white space, and then takes the field as it is: it passes over what a
backslash stands in front of, and leaves the backslash there. And nothing takes that backslash away
later on: `DNSPacketWriter::xfrLabel` knows only of dots and backslashes.

So a name with a blank in it gets longer, and one with a tab or a line feed is torn. A carriage return is
no end of a field for the reader, but it is skipped in front of one. `name_survives_iff` says that all
other names survive.
-/

namespace PowerDNS

open List Option

/-! ### The code -/

namespace RecordTextWriter

/-- `xfrLabel(val)`. -/
def xfrLabel (d_string val : Octets) : Octets :=
  (if d_string = [] then [] else d_string ++ [32]) ++
    if 32 ∉ val then val
    else val.flatMap fun c =>
      if dnsIsspace c then [backslash, 32] else if c = backslash then [backslash] else [c]

end RecordTextWriter

namespace RecordTextReader

/-- The loop of `xfrLabel`: the field, and what is left of the text. -/
def labelField : Octets → Octets × Octets
  | [] => ([], [])
  | c :: rest =>
    if c ≠ 13 ∧ dnsIsspace c then ([], c :: rest)
    else if c = backslash then
      match rest with
      | [] => ([c], [])
      | d :: rest =>
        -- leave the \. escape around
        if d = dot then (c :: (labelField (d :: rest)).1, (labelField (d :: rest)).2)
        else (c :: d :: (labelField rest).1, (labelField rest).2)
    else (c :: (labelField rest).1, (labelField rest).2)

/-- `xfrLabel(val)`, with what is left of the text. -/
def xfrLabel (d_zone d_string : Octets) : Except TextError (Octets × Octets) :=
  match skipSpaces d_string with
  | .error e => .error e
  | .ok rest =>
    let r := labelField rest
    let val :=
      if r.1 = [] then d_zone
      else if d_zone ≠ [] then
        match r.1.getLast? with
        | none => d_zone
        | some last =>
          if last = dot then r.1.dropLast
          -- don't add zone to IP address
          else if !(48 ≤ last && last ≤ 57) then r.1 ++ dot :: d_zone
          else r.1
      else r.1
    .ok (val, r.2)

end RecordTextReader

/-- **A name survives** as a text behind and in front of any other fields: it is read as one field, and
when that is written it has the labels `ls`. -/
def SurvivesText (text : Octets) (ls : List Octets) : Prop :=
  ∀ d_string behind : Octets, behind = [] ∨ behind.head? = some 32 →
    ∃ val, RecordTextReader.xfrLabel []
        ((RecordTextWriter.xfrLabel d_string text).drop d_string.length ++ behind) = .ok (val, behind) ∧
      ∀ w : DNSPacketWriter, ∃ entries, w.xfrLabel val false =
        some { w.xfrBlob (wireLabels ls) with d_labelmap := w.d_labelmap ++ entries }

/-- An octet that ends a field. -/
def endsField (c : UInt8) : Bool := c != 13 && dnsIsspace c

/-- **Names that survive**: there are no blanks, tabs or line feeds in the labels, and no carriage return
in front of the first. -/
structure OneField (ls : List Octets) : Prop where
  whole : ∀ l ∈ ls, ∀ c ∈ l, endsField c = false
  front : ls.head?.bind List.head? ≠ some 13

/-! ### Labels in such a text -/

/-- A label in a text; when there is a blank in the name, `blanks`, white space is changed. -/
def fieldLabel (blanks : Bool) (l : Octets) : Octets :=
  l.flatMap fun c =>
    if c = dot ∨ c = backslash then [backslash, c]
    else if blanks && dnsIsspace c then [backslash, 32] else [c]

/-- The text of a name. -/
def fieldText (blanks : Bool) (ls : List Octets) : Octets :=
  ls.flatMap fun l => fieldLabel blanks l ++ [dot]

/-- What the label has become when it is written. -/
def spread (blanks : Bool) (l : Octets) : Octets :=
  l.flatMap fun c => if blanks && dnsIsspace c then [backslash, 32] else [c]

section Labels

variable {blanks : Bool} {l : Octets} {ls : List Octets}

theorem fieldLabel_false (l : Octets) : fieldLabel false l = escapeLabel l := by
  induction l with
  | nil => rfl
  | cons c l ih =>
    rw [escapeLabel, ← ih]
    rfl

theorem fieldText_false (ls : List Octets) : fieldText false ls = dottedText ls := by
  induction ls with
  | nil => rfl
  | cons l ls ih =>
    rw [dottedText_cons, ← ih, ← fieldLabel_false]
    change (fieldLabel false l ++ [dot]) ++ fieldText false ls = _
    rw [append_assoc]
    rfl

theorem readText_fieldText (hne : ls ≠ []) : readText [] ls = fieldText false ls := by
  obtain ⟨l, ls, rfl⟩ := exists_cons_of_ne_nil hne
  rw [readText_cons, fieldText_false]
  rfl

theorem spread_false (l : Octets) : spread false l = l := by
  induction l with
  | nil => rfl
  | cons c l ih => exact congrArg (c :: ·) ih

/-- A label with white space gets longer. -/
theorem spread_eq_self (h : spread true l = l) : ∀ c ∈ l, dnsIsspace c = false := by
  have hle : ∀ l : Octets, l.length ≤ (spread true l).length := by
    intro l
    induction l with
    | nil => exact Nat.le_refl 0
    | cons c l ih =>
      change l.length + 1 ≤ ((if true && dnsIsspace c then [backslash, 32] else [c]) ++ spread true l).length
      rw [length_append]
      split <;> simp only [length_cons, length_nil] <;> omega
  induction l with
  | nil => exact forall_mem_nil _
  | cons c l ih =>
    change (if true && dnsIsspace c then [backslash, 32] else [c]) ++ spread true l = c :: l at h
    by_cases hc : dnsIsspace c = true
    · rw [if_pos (by rw [Bool.true_and, hc])] at h
      have hlength := congrArg List.length h
      have hlater := hle l
      rw [length_append] at hlength
      simp only [length_cons, length_nil] at hlength
      omega
    · rw [if_neg (by rwa [Bool.true_and])] at h
      exact forall_mem_cons.mpr ⟨(Bool.not_eq_true _).mp hc, ih (List.cons.inj h).2⟩

end Labels

/-! ### What is read -/

namespace RecordTextReader

section Reading

variable {blanks : Bool} {c : UInt8} {l t : Octets} {ls : List Octets}

theorem labelField_ends (h : endsField c = true) (t : Octets) : labelField (c :: t) = ([], c :: t) := by
  rw [labelField.eq_def]
  refine if_pos ?_
  rwa [endsField, Bool.and_eq_true, bne_iff_ne] at h

theorem labelField_plain (h : endsField c = false) (hback : c ≠ backslash) (t : Octets) :
    labelField (c :: t) = (c :: (labelField t).1, (labelField t).2) := by
  have hends : ¬ (c ≠ 13 ∧ dnsIsspace c = true) := by
    rwa [endsField, ← Bool.not_eq_true, Bool.and_eq_true, bne_iff_ne] at h
  rw [labelField.eq_def]
  exact (if_neg hends).trans (if_neg hback)

theorem labelField_escape {d : UInt8} (hd : d ≠ dot) (t : Octets) :
    labelField (backslash :: d :: t) = (backslash :: d :: (labelField t).1, (labelField t).2) := by
  exact (if_neg (by decide)).trans ((if_pos rfl).trans (if_neg hd))

theorem labelField_dot (t : Octets) :
    labelField (backslash :: dot :: t) = (backslash :: dot :: (labelField t).1, (labelField t).2) := by
  have h := labelField_plain (by decide : endsField dot = false) (by decide) t
  refine (if_neg (by decide)).trans ((if_pos rfl).trans ((if_pos rfl).trans ?_))
  rw [h]

/-- Where nothing ends a field, a label is read to its end. -/
theorem labelField_fieldLabel (h : blanks = true ∨ ∀ c ∈ l, endsField c = false) (t : Octets) :
    labelField (fieldLabel blanks l ++ t) = (fieldLabel blanks l ++ (labelField t).1, (labelField t).2) := by
  induction l with
  | nil => rfl
  | cons c l ih =>
    have hlater := ih (h.imp_right fun hall c' hc' => hall c' (mem_cons_of_mem c hc'))
    change labelField ((if c = dot ∨ c = backslash then [backslash, c]
      else if blanks && dnsIsspace c then [backslash, 32] else [c]) ++ fieldLabel blanks l ++ t) =
        ((if c = dot ∨ c = backslash then [backslash, c]
          else if blanks && dnsIsspace c then [backslash, 32] else [c]) ++ fieldLabel blanks l ++ _, _)
    by_cases hspecial : c = dot ∨ c = backslash
    · rw [if_pos hspecial]
      rcases hspecial with rfl | rfl
      · refine (labelField_dot (fieldLabel blanks l ++ t)).trans ?_
        rw [hlater]
        rfl
      · refine (labelField_escape (by decide) (fieldLabel blanks l ++ t)).trans ?_
        rw [hlater]
        rfl
    · rw [if_neg hspecial]
      rw [not_or] at hspecial
      by_cases hblank : (blanks && dnsIsspace c) = true
      · rw [if_pos hblank]
        refine (labelField_escape (by decide) (fieldLabel blanks l ++ t)).trans ?_
        rw [hlater]
        rfl
      · rw [if_neg hblank]
        have hends : endsField c = false := by
          rcases h with rfl | hall
          · rw [Bool.true_and, Bool.not_eq_true] at hblank
            rw [endsField, hblank, Bool.and_false]
          · exact hall c mem_cons_self
        refine (labelField_plain hends hspecial.2 (fieldLabel blanks l ++ t)).trans ?_
        rw [hlater]
        rfl

/-- **A name is read as one field**, when nothing in it ends a field. -/
theorem labelField_fieldText (h : blanks = true ∨ ∀ l ∈ ls, ∀ c ∈ l, endsField c = false)
    (ht : t = [] ∨ t.head? = some 32) :
    labelField (fieldText blanks ls ++ t) = (fieldText blanks ls, t) := by
  induction ls with
  | nil =>
    rcases ht with rfl | ht
    · rfl
    · cases t with
      | nil => rfl
      | cons c t =>
        obtain rfl : c = 32 := some.inj ht
        exact labelField_ends (by decide) t
  | cons l ls ih =>
    have hlater := ih (h.imp_right fun hall l' hl' => hall l' (mem_cons_of_mem l hl'))
    change labelField (fieldLabel blanks l ++ [dot] ++ fieldText blanks ls ++ t) =
      (fieldLabel blanks l ++ [dot] ++ fieldText blanks ls, t)
    rw [append_assoc, append_assoc,
      labelField_fieldLabel (h.imp_right fun hall => hall l mem_cons_self)]
    change (fieldLabel blanks l ++ (labelField (dot :: (fieldText blanks ls ++ t))).1,
      (labelField (dot :: (fieldText blanks ls ++ t))).2) = _
    rw [labelField_plain (by decide) (by decide), hlater, append_assoc]
    rfl

/-- Something in a label that ends a field is left over. -/
theorem labelField_rest (hrest : (labelField (fieldText false ls)).2 = []) :
    ∀ l ∈ ls, ∀ c ∈ l, endsField c = false := by
  induction ls with
  | nil => exact forall_mem_nil _
  | cons l ls ih =>
    change (labelField (fieldLabel false l ++ [dot] ++ fieldText false ls)).2 = [] at hrest
    rw [append_assoc] at hrest
    have hl : ∀ c ∈ l, endsField c = false := by
      by_contra hsome
      push Not at hsome
      obtain ⟨c, hc, hends⟩ := hsome
      -- the first of these octets
      have hsplit := takeWhile_append_dropWhile (p := fun c => !endsField c) (l := l)
      cases hdrop : l.dropWhile fun c => !endsField c with
      | nil =>
        rw [hdrop, append_nil] at hsplit
        have hall := mem_takeWhile_imp (hsplit ▸ hc)
        rw [Bool.not_eq_true'] at hall
        exact hends hall
      | cons d rest =>
        have hd : endsField d = true := by
          have hnot := head?_dropWhile_not (fun c => !endsField c) l
          rw [hdrop] at hnot
          simpa using hnot
        have hplain : ¬ (d = dot ∨ d = backslash) := by
          rintro (rfl | rfl)
          · exact absurd hd (by decide)
          · exact absurd hd (by decide)
        rw [← hsplit, hdrop] at hrest
        have happend : fieldLabel false (l.takeWhile (fun c => !endsField c) ++ d :: rest) =
            fieldLabel false (l.takeWhile fun c => !endsField c) ++ d :: fieldLabel false rest := by
          rw [fieldLabel, flatMap_append, flatMap_cons, if_neg hplain]
          rfl
        rw [happend, append_assoc, labelField_fieldLabel (.inr fun c hc => ?_)] at hrest
        · change (labelField (d :: _)).2 = [] at hrest
          rw [labelField_ends hd] at hrest
          cases hrest
        · have hall := mem_takeWhile_imp hc
          rwa [Bool.not_eq_true'] at hall
    refine forall_mem_cons.mpr ⟨hl, ih ?_⟩
    rw [labelField_fieldLabel (.inr hl)] at hrest
    change (labelField (dot :: fieldText false ls)).2 = [] at hrest
    rwa [labelField_plain (by decide) (by decide)] at hrest

/-- White space in front of the first label is lost. -/
theorem skipSpaces_fieldText (l : Octets) (ls : List Octets) :
    skipSpaces (fieldText false (l :: ls)) = .ok (fieldText false (l.dropWhile dnsIsspace :: ls)) := by
  have hdrop : (fieldText false (l :: ls)).dropWhile dnsIsspace =
      fieldText false (l.dropWhile dnsIsspace :: ls) := by
    induction l with
    | nil => rfl
    | cons c l ih =>
      by_cases hc : dnsIsspace c = true
      · have hplain : ¬ (c = dot ∨ c = backslash) := by
          rintro (rfl | rfl)
          · exact absurd hc (by decide)
          · exact absurd hc (by decide)
        have hcons : fieldText false ((c :: l) :: ls) = c :: fieldText false (l :: ls) := by
          change ((if c = dot ∨ c = backslash then [backslash, c] else [c]) ++ fieldLabel false l ++
            [dot]) ++ fieldText false ls = _
          rw [if_neg hplain]
          rfl
        rw [hcons, dropWhile_cons_of_pos hc, dropWhile_cons_of_pos hc, ih]
      · rw [dropWhile_cons_of_neg hc]
        have hkept : ∀ d rest, fieldText false ((c :: l) :: ls) = d :: rest → dnsIsspace d ≠ true →
            (fieldText false ((c :: l) :: ls)).dropWhile dnsIsspace = fieldText false ((c :: l) :: ls) := by
          intro d rest heq hd
          rw [heq, dropWhile_cons_of_neg hd]
        by_cases hspecial : c = dot ∨ c = backslash
        · refine hkept backslash (c :: fieldText false (l :: ls)) ?_ (by decide)
          change ((if c = dot ∨ c = backslash then [backslash, c] else [c]) ++ fieldLabel false l ++
            [dot]) ++ fieldText false ls = _
          rw [if_pos hspecial]
          rfl
        · refine hkept c (fieldText false (l :: ls)) ?_ hc
          change ((if c = dot ∨ c = backslash then [backslash, c] else [c]) ++ fieldLabel false l ++
            [dot]) ++ fieldText false ls = _
          rw [if_neg hspecial]
          rfl
  unfold skipSpaces
  rw [hdrop]
  cases htext : fieldText false (l.dropWhile dnsIsspace :: ls) with
  | nil =>
    change fieldLabel false _ ++ [dot] ++ fieldText false ls = [] at htext
    simp at htext
  | cons c rest => rfl

end Reading

end RecordTextReader

/-! ### What is written again -/

section Writing

variable {blanks : Bool} {l : Octets} {ls : List Octets}

theorem fieldLabel_cons (blanks : Bool) (c : UInt8) (l : Octets) : fieldLabel blanks (c :: l) =
    (if c = dot ∨ c = backslash then [backslash, c]
      else if blanks && dnsIsspace c then [backslash, 32] else [c]) ++ fieldLabel blanks l :=
  flatMap_cons

theorem fieldText_cons (blanks : Bool) (l : Octets) (ls : List Octets) :
    fieldText blanks (l :: ls) = fieldLabel blanks l ++ dot :: fieldText blanks ls := by
  rw [fieldText, flatMap_cons, append_assoc]
  rfl

theorem spread_cons (blanks : Bool) (c : UInt8) (l : Octets) : spread blanks (c :: l) =
    (if blanks && dnsIsspace c then [backslash, 32] else [c]) ++ spread blanks l :=
  flatMap_cons

/-- A label in which dots are left alone: what the first replacement leaves. -/
def undotted (blanks : Bool) (l : Octets) : Octets :=
  l.flatMap fun c =>
    if c = backslash then [backslash, c]
    else if blanks && dnsIsspace c then [backslash, 32] else [c]

theorem undotted_cons (blanks : Bool) (c : UInt8) (l : Octets) : undotted blanks (c :: l) =
    (if c = backslash then [backslash, c]
      else if blanks && dnsIsspace c then [backslash, 32] else [c]) ++ undotted blanks l :=
  flatMap_cons

theorem head?_cons_ne {c d : UInt8} {t : Octets} (h : c ≠ d) : (c :: t).head? ≠ some d :=
  fun heq => h (some.inj heq)

theorem head?_fieldLabel (l : Octets) : (fieldLabel blanks l).head? ≠ some dot := by
  cases l with
  | nil => exact (some_ne_none dot).symm
  | cons c l =>
    rw [fieldLabel_cons]
    by_cases hspecial : c = dot ∨ c = backslash
    · rw [if_pos hspecial]
      exact head?_cons_ne (by decide)
    · rw [if_neg hspecial]
      split
      · exact head?_cons_ne (by decide)
      · exact head?_cons_ne fun hd => hspecial (.inl hd)

theorem replaceAll_dots_fieldLabel (l : Octets) :
    replaceAll backslash dot dot (fieldLabel blanks l) = undotted blanks l := by
  induction l with
  | nil => rfl
  | cons c l ih =>
    rw [fieldLabel_cons, undotted_cons]
    by_cases hb : c = backslash
    · rw [if_pos (.inr hb), if_pos hb, hb]
      change replaceAll backslash dot dot (backslash :: backslash :: fieldLabel blanks l) = _
      rw [replaceAll_cons fun _ => head?_cons_ne (by decide),
        replaceAll_cons fun _ => head?_fieldLabel l, ih]
      rfl
    · by_cases hd : c = dot
      · rw [if_pos (.inl hd), if_neg hb, hd]
        change replaceAll backslash dot dot (backslash :: dot :: fieldLabel blanks l) = _
        rw [replaceAll, if_pos ⟨rfl, rfl⟩, ih, if_neg (by cases blanks <;> decide)]
        rfl
      · rw [if_neg (not_or.mpr ⟨hd, hb⟩), if_neg hb]
        split
        · change replaceAll backslash dot dot (backslash :: 32 :: fieldLabel blanks l) = _
          rw [replaceAll_cons fun _ => head?_cons_ne (by decide),
            replaceAll_cons fun h => absurd h (by decide), ih]
          rfl
        · change replaceAll backslash dot dot (c :: fieldLabel blanks l) = _
          rw [replaceAll_cons fun h => absurd h hb, ih]
          rfl

theorem replaceAll_backslashes_undotted (l : Octets) :
    replaceAll backslash backslash backslash (undotted blanks l) = spread blanks l := by
  induction l with
  | nil => rfl
  | cons c l ih =>
    rw [undotted_cons, spread_cons]
    by_cases hb : c = backslash
    · rw [if_pos hb, hb, if_neg (by cases blanks <;> decide)]
      change replaceAll backslash backslash backslash (backslash :: backslash :: undotted blanks l) = _
      rw [replaceAll, if_pos ⟨rfl, rfl⟩, ih]
      rfl
    · rw [if_neg hb]
      split
      · change replaceAll backslash backslash backslash (backslash :: 32 :: undotted blanks l) = _
        rw [replaceAll_cons fun _ => head?_cons_ne (by decide),
          replaceAll_cons fun h => absurd h (by decide), ih]
        rfl
      · change replaceAll backslash backslash backslash (c :: undotted blanks l) = _
        rw [replaceAll_cons fun h => absurd h hb, ih]
        rfl

/-- Without a backslash in it, a label is written as it is. -/
theorem spread_eq_fieldLabel (h : backslash ∉ fieldLabel blanks l) :
    fieldLabel blanks l = l ∧ spread blanks l = l := by
  induction l with
  | nil => exact ⟨rfl, rfl⟩
  | cons c l ih =>
    rw [fieldLabel_cons, mem_append, not_or] at h
    have hspecial : ¬ (c = dot ∨ c = backslash) := by
      intro hc
      rw [if_pos hc] at h
      exact h.1 mem_cons_self
    rw [if_neg hspecial] at h
    have hblank : ¬ (blanks && dnsIsspace c) = true := by
      intro hc
      rw [if_pos hc] at h
      exact h.1 mem_cons_self
    obtain ⟨hfield, hspread⟩ := ih h.2
    rw [fieldLabel_cons, spread_cons, if_neg hspecial, if_neg hblank, hfield, hspread]
    exact ⟨rfl, rfl⟩

/-- The offsets of the labels in a text that begins at `p`. -/
def fieldOffsets (blanks : Bool) : Nat → List Octets → List (Nat × Nat)
  | _, [] => []
  | p, l :: ls =>
    (p, p + (fieldLabel blanks l).length) :: fieldOffsets blanks (p + (fieldLabel blanks l).length + 1) ls

theorem labeltokUnescapeFrom_escape (pos lpos : Nat) (d : UInt8) (t : Octets) :
    labeltokUnescapeFrom pos lpos (backslash :: d :: t) =
      ((labeltokUnescapeFrom (pos + 2) lpos t).1, true) := by
  exact if_pos rfl

theorem labeltokUnescapeFrom_fieldLabel (pos lpos : Nat) (l t : Octets) :
    (labeltokUnescapeFrom pos lpos (fieldLabel blanks l ++ t)).1 =
      (labeltokUnescapeFrom (pos + (fieldLabel blanks l).length) lpos t).1 := by
  induction l generalizing pos with
  | nil => rfl
  | cons c l ih =>
    rw [fieldLabel_cons, append_assoc, length_append, ← Nat.add_assoc]
    by_cases hspecial : c = dot ∨ c = backslash
    · rw [if_pos hspecial]
      change (labeltokUnescapeFrom pos lpos (backslash :: c :: (fieldLabel blanks l ++ t))).1 = _
      rw [labeltokUnescapeFrom_escape, ih]
      rfl
    · rw [if_neg hspecial]
      split
      · change (labeltokUnescapeFrom pos lpos (backslash :: 32 :: (fieldLabel blanks l ++ t))).1 = _
        rw [labeltokUnescapeFrom_escape, ih]
        rfl
      · rw [not_or] at hspecial
        change (labeltokUnescapeFrom pos lpos (c :: (fieldLabel blanks l ++ t))).1 = _
        rw [labeltokUnescapeFrom_octet hspecial.1 hspecial.2, ih]
        rfl

theorem labeltokUnescapeFrom_fieldText (p : Nat) (ls : List Octets) :
    (labeltokUnescapeFrom p p (fieldText blanks ls)).1 = fieldOffsets blanks p ls := by
  induction ls generalizing p with
  | nil =>
    change (if p < p then _ else _) = _
    rw [if_neg (Nat.lt_irrefl p)]
    rfl
  | cons l ls ih =>
    rw [fieldText_cons, labeltokUnescapeFrom_fieldLabel, labeltokUnescapeFrom_dot, ih]
    rfl

/-- The writer notices an escape. -/
theorem labeltokUnescapeFrom_flag {t : Octets} (h : backslash ∈ t) (pos lpos : Nat) :
    (labeltokUnescapeFrom pos lpos t).2 = true := by
  induction t generalizing pos lpos with
  | nil => exact absurd h not_mem_nil
  | cons c t ih =>
    by_cases hb : c = backslash
    · rw [hb]
      cases t with
      | nil => rfl
      | cons d t => rw [labeltokUnescapeFrom_escape]
    · have ht := (mem_cons.mp h).resolve_left fun heq => hb heq.symm
      by_cases hd : c = dot
      · rw [hd, labeltokUnescapeFrom_dot]
        exact ih ht _ _
      · rw [labeltokUnescapeFrom_octet hd hb]
        exact ih ht _ _

theorem rawPart_fieldText {label : Octets} {p : Nat} (hdrop : label.drop p = fieldText blanks (l :: ls)) :
    rawPart label (p, p + (fieldLabel blanks l).length) = fieldLabel blanks l := by
  rw [fieldText_cons] at hdrop
  have hp : p ≤ label.length := by
    by_contra hp
    rw [drop_eq_nil_of_le (by omega)] at hdrop
    exact append_ne_nil_of_right_ne_nil _ (cons_ne_nil _ _) hdrop.symm
  unfold rawPart
  rw [drop_append_of_le_length hp, hdrop, Nat.add_sub_cancel_left, append_assoc,
    take_left]

/-- The loop of `xfrLabel` writes the labels with every `\ ` of the text left in them. -/
theorem xfrParts_fieldText {label record : Octets} {deDot unescaped : Bool} {p pos : Nat}
    {lmap : LabelMap} {r : LabelMap × Octets} (hdrop : label.drop p = fieldText blanks ls)
    (hflag : unescaped = true ∨ backslash ∉ fieldText blanks ls) (hlen : ∀ l ∈ ls, l.length ≤ 255)
    (h : xfrParts label deDot unescaped false (fieldOffsets blanks p ls) pos lmap record = some r) :
    r.2 = record ++ wireLabels (ls.map (spread blanks)) ∧ ∀ l ∈ ls, (spread blanks l).length ≤ 255 := by
  induction ls generalizing p pos lmap record with
  | nil =>
    obtain rfl := some.inj h
    exact ⟨rfl, forall_mem_nil _⟩
  | cons l ls ih =>
    have hrest : label.drop (p + (fieldLabel blanks l).length + 1) = fieldText blanks ls := by
      rw [Nat.add_assoc, ← drop_drop, hdrop, fieldText_cons, ← drop_drop, drop_left]
      rfl
    have hflag' : unescaped = true ∨ backslash ∉ fieldText blanks ls := by
      refine hflag.imp_right fun hnot hmem => hnot ?_
      rw [fieldText_cons]
      exact mem_append_right _ (mem_cons_of_mem _ hmem)
    have hlen' := fun l' hl' => hlen l' (mem_cons_of_mem l hl')
    rw [fieldOffsets, xfrParts] at h
    simp only [Bool.false_eq_true, if_false, rawPart_fieldText hdrop, replaceAll_dots_fieldLabel,
      replaceAll_backslashes_undotted, Nat.add_sub_cancel_left] at h
    have hturn : ∀ {octets : Octets} {pos' : Nat} {lmap' : LabelMap}, octets = spread blanks l →
        octets.length ≤ 255 →
        xfrParts label deDot unescaped false (fieldOffsets blanks (p + (fieldLabel blanks l).length + 1) ls)
          pos' lmap' (record ++ UInt8.ofNat octets.length :: octets) = some r →
        r.2 = record ++ wireLabels ((l :: ls).map (spread blanks)) ∧
          ∀ l' ∈ l :: ls, (spread blanks l').length ≤ 255 := by
      rintro octets pos' lmap' rfl hle hrun
      obtain ⟨hwritten, hall⟩ := ih hrest hflag' hlen' hrun
      refine ⟨?_, forall_mem_cons.mpr ⟨hle, hall⟩⟩
      rw [hwritten, append_assoc]
      rfl
    by_cases hu : unescaped = true
    · rw [if_pos hu] at h
      split at h
      · cases h
      · next hle => exact hturn rfl (Nat.not_lt.mp hle) h
    · rw [if_neg hu] at h
      have hplain : backslash ∉ fieldLabel blanks l := by
        intro hmem
        refine hflag.resolve_left hu ?_
        rw [fieldText_cons]
        exact mem_append_left _ hmem
      obtain ⟨hfield, hspread⟩ := spread_eq_fieldLabel hplain
      have hle := hlen l mem_cons_self
      rw [hfield] at hturn h
      exact hturn hspread.symm hle h

/-- The text of labels, written by the packet writer. -/
theorem xfrLabel_fieldText {w w' : DNSPacketWriter} (hlen : ∀ l ∈ ls, l.length ≤ 255)
    (hroot : fieldText blanks ls ≠ [dot]) (h : w.xfrLabel (fieldText blanks ls) false = some w') :
    w'.d_record = w.d_record ++ wireLabels (ls.map (spread blanks)) ∧
      ∀ l ∈ ls, (spread blanks l).length ≤ 255 := by
  unfold DNSPacketWriter.xfrLabel at h
  rw [if_neg hroot, map_eq_some_iff, ite_self] at h
  obtain ⟨r, hr, rfl⟩ := h
  unfold labeltokUnescape at hr
  rw [labeltokUnescapeFrom_fieldText] at hr
  refine xfrParts_fieldText drop_zero ?_ hlen hr
  by_cases hmem : backslash ∈ fieldText blanks ls
  · exact .inl (labeltokUnescapeFrom_flag hmem 0 0)
  · exact .inr hmem

/-- Labels of at most 255 octets are told apart by what is written. -/
theorem labelOctets_injective {as bs : List Octets} (ha : ∀ l ∈ as, l.length ≤ 255)
    (hb : ∀ l ∈ bs, l.length ≤ 255) (h : labelOctets as = labelOctets bs) : as = bs := by
  induction as generalizing bs with
  | nil =>
    cases bs with
    | nil => rfl
    | cons b bs => cases h
  | cons a as ih =>
    cases bs with
    | nil => cases h
    | cons b bs =>
      obtain ⟨ha, has⟩ := forall_mem_cons.mp ha
      obtain ⟨hb, hbs⟩ := forall_mem_cons.mp hb
      obtain ⟨hfirst, hrest⟩ := List.cons.inj h
      have hlength : a.length = b.length := by
        have hmod := congrArg UInt8.toNat hfirst
        rw [UInt8.toNat_ofNat', UInt8.toNat_ofNat'] at hmod
        omega
      obtain ⟨rfl, hrest⟩ := append_inj hrest hlength
      exact congrArg (a :: ·) (ih has hbs (append_cancel_left hrest))

theorem wireLabels_injective {as bs : List Octets} (ha : ∀ l ∈ as, l.length ≤ 255)
    (hb : ∀ l ∈ bs, l.length ≤ 255) (h : wireLabels as = wireLabels bs) : as = bs := by
  rw [wireLabels_eq, wireLabels_eq] at h
  exact labelOctets_injective ha hb (append_cancel_right h)

end Writing

/-! ### Names that survive -/

section Surviving

variable {l : Octets} {ls : List Octets}

/-- A name with a blank in it gets a backslash in front of every white space. -/
theorem writer_fieldText (ls : List Octets) :
    ((fieldText false ls).flatMap fun c =>
      if dnsIsspace c then [backslash, 32] else if c = backslash then [backslash] else [c]) =
        fieldText true ls := by
  have hlabel : ∀ l : Octets, ((fieldLabel false l).flatMap fun c =>
      if dnsIsspace c then [backslash, 32] else if c = backslash then [backslash] else [c]) =
        fieldLabel true l := by
    intro l
    induction l with
    | nil => rfl
    | cons c l ih =>
      rw [fieldLabel_cons, fieldLabel_cons, flatMap_append, ih]
      congr 1
      by_cases hspecial : c = dot ∨ c = backslash
      · rw [if_pos hspecial, if_pos hspecial]
        rcases hspecial with rfl | rfl
        · rfl
        · rfl
      · rw [if_neg hspecial, if_neg hspecial, Bool.false_and, if_neg Bool.false_ne_true, Bool.true_and,
          flatMap_cons, flatMap_nil, append_nil]
        split
        · rfl
        · exact if_neg fun hb => hspecial (.inr hb)
  induction ls with
  | nil => rfl
  | cons l ls ih =>
    rw [fieldText_cons, fieldText_cons, flatMap_append, flatMap_cons, hlabel, ih]
    rfl

theorem mem_fieldLabel {c : UInt8} (hc : c ≠ backslash) : c ∈ fieldLabel false l ↔ c ∈ l := by
  induction l with
  | nil => rfl
  | cons d l ih =>
    rw [fieldLabel_cons, mem_append, mem_cons, ih]
    refine or_congr_left ?_
    split
    · rw [mem_cons, mem_singleton, or_iff_right hc]
    · exact mem_singleton

/-- A blank in the text is one in a label. -/
theorem blank_mem_fieldText : 32 ∈ fieldText false ls ↔ ∃ l ∈ ls, 32 ∈ l := by
  unfold fieldText
  rw [mem_flatMap]
  refine exists_congr fun l => and_congr_right fun _ => ?_
  rw [mem_append, mem_fieldLabel (by decide), mem_singleton, or_iff_left (by decide)]

theorem fieldText_ne_root {blanks : Bool} (hl : l ≠ []) : fieldText blanks (l :: ls) ≠ [dot] := by
  obtain ⟨c, l, rfl⟩ := exists_cons_of_ne_nil hl
  intro h
  have hlength := congrArg List.length h
  rw [fieldText_cons, fieldLabel_cons, length_append, length_append, length_cons] at hlength
  have hpos : 0 < (if c = dot ∨ c = backslash then [backslash, c]
      else if blanks && dnsIsspace c then [backslash, 32] else [c]).length := by
    split
    · exact Nat.succ_pos _
    · split <;> exact Nat.succ_pos _
  simp only [length_singleton] at hlength
  omega

/-- Without a blank in the text, it is written as it is. -/
theorem drop_xfrLabel {val : Octets} (h : 32 ∉ val) (d_string behind : Octets) :
    RecordTextReader.skipSpaces ((RecordTextWriter.xfrLabel d_string val).drop d_string.length ++ behind) =
      RecordTextReader.skipSpaces (val ++ behind) := by
  unfold RecordTextWriter.xfrLabel
  rw [if_pos h]
  by_cases hstart : d_string = []
  · rw [if_pos hstart, hstart]
    rfl
  · rw [if_neg hstart, append_assoc, drop_left]
    rfl

/-- The reader of a text that does not begin with white space. -/
theorem reader_xfrLabel {text rest field behind : Octets}
    (hskip : RecordTextReader.skipSpaces text = .ok rest)
    (hfield : RecordTextReader.labelField rest = (field, behind)) :
    RecordTextReader.xfrLabel [] text = .ok (field, behind) := by
  unfold RecordTextReader.xfrLabel
  rw [hskip]
  dsimp only
  rw [hfield]
  by_cases hempty : field = []
  · rw [if_pos hempty, hempty]
  · rw [if_neg hempty, if_neg (not_not.mpr rfl)]

theorem skipSpaces_of_head {c : UInt8} {t : Octets} (h : dnsIsspace c = false) :
    RecordTextReader.skipSpaces (c :: t) = .ok (c :: t) := by
  unfold RecordTextReader.skipSpaces
  rw [dropWhile_cons_of_neg ((Bool.not_eq_true _).mpr h)]

/-- The first octet of a text whose first label does not begin with white space. -/
theorem head_fieldText {blanks : Bool} (hl : l ≠ [])
    (h : blanks = true ∨ ∀ c, l.head? = some c → dnsIsspace c = false) :
    ∃ c t, fieldText blanks (l :: ls) = c :: t ∧ dnsIsspace c = false := by
  obtain ⟨c, l, rfl⟩ := exists_cons_of_ne_nil hl
  rw [fieldText_cons, fieldLabel_cons]
  by_cases hspecial : c = dot ∨ c = backslash
  · rw [if_pos hspecial]
    exact ⟨backslash, _, rfl, by decide⟩
  · rw [if_neg hspecial]
    by_cases hblank : (blanks && dnsIsspace c) = true
    · rw [if_pos hblank]
      exact ⟨backslash, _, rfl, by decide⟩
    · rw [if_neg hblank]
      refine ⟨c, _, rfl, ?_⟩
      rcases h with rfl | h
      · rwa [Bool.true_and, Bool.not_eq_true] at hblank
      · exact h c rfl

/-- A name that is one field is read as it was written. -/
theorem reader_readText (hls : ∀ l ∈ ls, l ≠ []) (h : OneField ls) (d_string : Octets) {behind : Octets}
    (hbehind : behind = [] ∨ behind.head? = some 32) :
    RecordTextReader.xfrLabel []
        ((RecordTextWriter.xfrLabel d_string (readText [] ls)).drop d_string.length ++ behind) =
      .ok (readText [] ls, behind) := by
  cases ls with
  | nil =>
    have hfield : RecordTextReader.labelField (dot :: behind) = ([dot], behind) := by
      have hbefore := @RecordTextReader.labelField_fieldText false behind [] (.inr (forall_mem_nil _))
        hbehind
      rw [RecordTextReader.labelField_plain (by decide) (by decide)]
      change RecordTextReader.labelField behind = _ at hbefore
      rw [hbefore]
      rfl
    refine reader_xfrLabel ?_ hfield
    rw [drop_xfrLabel (by decide)]
    exact skipSpaces_of_head (by decide)
  | cons l ls =>
    rw [readText_fieldText (cons_ne_nil l ls)]
    have hblank : 32 ∉ fieldText false (l :: ls) := by
      rw [blank_mem_fieldText]
      rintro ⟨l', hl', hc⟩
      exact absurd (h.whole l' hl' 32 hc) (by decide)
    have hfront : ∀ c, l.head? = some c → dnsIsspace c = false := by
      intro c hc
      have hends := h.whole l mem_cons_self c (mem_of_head? hc)
      have hcr : c ≠ 13 := fun heq => h.front (by rw [head?_cons, bind_some, hc, heq])
      rwa [endsField, bne_iff_ne.mpr hcr, Bool.true_and] at hends
    obtain ⟨c, t, htext, hc⟩ := @head_fieldText l ls false (hls l mem_cons_self) (.inr hfront)
    refine reader_xfrLabel ?_ (RecordTextReader.labelField_fieldText (.inr h.whole) hbehind)
    rw [drop_xfrLabel hblank, htext]
    exact skipSpaces_of_head hc

theorem survivesText_of_oneField (hls : ∀ l ∈ ls, l ≠ [] ∧ l.length ≤ 191) (h : OneField ls) :
    SurvivesText (readText [] ls) ls := by
  intro d_string behind hbehind
  exact ⟨readText [] ls, reader_readText (fun l hl => (hls l hl).1) h d_string hbehind,
    fun w => xfrLabel_readText w hls⟩

theorem oneField_of_survivesText (hls : ∀ l ∈ ls, l ≠ [] ∧ l.length ≤ 191)
    (h : SurvivesText (readText [] ls) ls) : OneField ls := by
  cases ls with
  | nil => exact ⟨forall_mem_nil _, (some_ne_none 13).symm⟩
  | cons l ls =>
    have hmax : ∀ l' ∈ l :: ls, l'.length ≤ 255 := fun l' hl' => (hls l' hl').2.trans (by decide)
    have hl := (hls l mem_cons_self).1
    rw [readText_fieldText (cons_ne_nil l ls)] at h
    obtain ⟨val, hread, hwrite⟩ := h [] [] (.inl rfl)
    obtain ⟨entries, hwrite⟩ := hwrite { d_content := [], d_qname := [], d_sor := 0 }
    rw [append_nil] at hread
    change RecordTextReader.xfrLabel [] (if 32 ∉ fieldText false (l :: ls) then _ else _) = _ at hread
    by_cases hblank : 32 ∈ fieldText false (l :: ls)
    · -- the backslash in front of the blank is written too
      rw [if_neg (not_not.mpr hblank), writer_fieldText] at hread
      obtain ⟨c, t, htext, hc⟩ := @head_fieldText l ls true hl (.inl rfl)
      have hskip : RecordTextReader.skipSpaces (fieldText true (l :: ls)) = .ok (fieldText true (l :: ls)) := by
        rw [htext]
        exact skipSpaces_of_head hc
      have hfield := @RecordTextReader.labelField_fieldText true [] (l :: ls) (.inl rfl) (.inl rfl)
      rw [append_nil] at hfield
      rw [reader_xfrLabel hskip hfield] at hread
      obtain ⟨rfl, -⟩ := Prod.mk.inj (Except.ok.inj hread)
      obtain ⟨hwritten, hspread⟩ := xfrLabel_fieldText hmax (fieldText_ne_root hl) hwrite
      have heq := wireLabels_injective hmax (forall_mem_map.mpr hspread)
        (append_cancel_left hwritten)
      obtain ⟨l', hl', hmem⟩ := blank_mem_fieldText.mp hblank
      have hsame : spread true l' = l' :=
        map_inj_left.mp (heq.symm.trans (map_id _).symm) l' hl'
      exact absurd (spread_eq_self hsame 32 hmem) (by decide)
    · rw [if_pos hblank] at hread
      have hskip := RecordTextReader.skipSpaces_fieldText l ls
      rw [reader_xfrLabel hskip rfl] at hread
      obtain ⟨rfl, hrest⟩ := Prod.mk.inj (Except.ok.inj hread)
      have hwhole := RecordTextReader.labelField_rest hrest
      have hfield := @RecordTextReader.labelField_fieldText false [] _ (.inr hwhole) (.inl rfl)
      rw [append_nil] at hfield
      rw [hfield] at hwrite
      have hshort : ∀ l' ∈ l.dropWhile dnsIsspace :: ls, l'.length ≤ 255 := by
        refine forall_mem_cons.mpr ⟨?_, fun l' hl' => hmax l' (mem_cons_of_mem l hl')⟩
        exact (length_dropWhile_le _ l).trans (hmax l mem_cons_self)
      have hsame : l.dropWhile dnsIsspace = l := by
        by_cases hroot : fieldText false (l.dropWhile dnsIsspace :: ls) = [dot]
        · -- the root is one octet
          rw [hroot] at hwrite
          have hwritten := congrArg DNSPacketWriter.d_record (some.inj hwrite)
          have hlength := congrArg List.length hwritten
          change 1 = (wireLabels (l :: ls)).length at hlength
          rw [wireLabels, length_append, length_cons] at hlength
          have hpos := length_pos_iff.mpr hl
          omega
        · obtain ⟨hwritten, -⟩ := xfrLabel_fieldText hshort hroot hwrite
          have hspread : (l.dropWhile dnsIsspace :: ls).map (spread false) = l.dropWhile dnsIsspace :: ls :=
            (map_congr_left fun l' _ => spread_false l').trans (map_id _)
          rw [hspread] at hwritten
          exact (List.cons.inj (wireLabels_injective hmax hshort (append_cancel_left hwritten))).1.symm
      rw [hsame] at hwhole
      refine ⟨hwhole, fun hcr => ?_⟩
      obtain ⟨c, l, rfl⟩ := exists_cons_of_ne_nil hl
      obtain rfl : c = 13 := some.inj hcr
      have hlength := congrArg List.length hsame
      have hle := length_dropWhile_le dnsIsspace l
      rw [dropWhile_cons_of_pos (by decide), length_cons] at hlength
      omega

/-- **A name survives the text form exactly when it has no white space** but for carriage returns that
are not its first octet. -/
theorem name_survives_iff {content : Octets} {fuel : Nat} {frompos : UInt16} {r : Octets × UInt16}
    (h : getLabelFromContent content fuel frompos [] 0 = .ok r) :
    ∃ ls, rawLabels content fuel frompos 0 = .ok (ls, r.2) ∧ (SurvivesText r.1 ls ↔ OneField ls) := by
  rw [getLabelFromContent_eq] at h
  cases hraw : rawLabels content fuel frompos 0 with
  | error e =>
    rw [hraw] at h
    cases h
  | ok labels =>
    rw [hraw] at h
    obtain rfl := Except.ok.inj h
    have hls := length_rawLabels hraw
    exact ⟨labels.1, rfl, oneField_of_survivesText hls, survivesText_of_oneField hls⟩

end Surviving

/-- A label of `a`, a quote, a carriage return and a dot. -/
theorem quoted_name_survives : SurvivesText [97, 34, 13, 92, 46, 46] [[97, 34, 13, 46]] := by
  obtain ⟨ls, hraw, hiff⟩ :=
    @name_survives_iff [4, 97, 34, 13, 46, 0] 2 0 ([97, 34, 13, 92, 46, 46], 6) (by decide)
  have hread : rawLabels [4, 97, 34, 13, 46, 0] 2 0 0 = .ok ([[97, 34, 13, 46]], 6) := by decide +kernel
  obtain ⟨rfl, -⟩ := Prod.mk.inj (Except.ok.inj (hread.symm.trans hraw))
  exact hiff.mpr ⟨by decide +kernel, by decide +kernel⟩

/-- The label `a b` becomes `a\ b`, and one octet longer. -/
theorem blank_is_spread :
    getLabelFromContent [3, 97, 32, 98, 0] 2 0 [] 0 = .ok (ascii "a b.", 5) ∧
      rawLabels [3, 97, 32, 98, 0] 2 0 0 = .ok ([[97, 32, 98]], 5) ∧
      RecordTextReader.xfrLabel [] (RecordTextWriter.xfrLabel [] (ascii "a b.")) =
        .ok (ascii "a\\ b.", []) ∧
      (emptyWriter.xfrLabel (ascii "a\\ b.") false).map (·.d_record) = some [4, 97, 92, 32, 98, 0] ∧
      ¬ SurvivesText (ascii "a b.") [[97, 32, 98]] := by
  refine ⟨by decide, by decide, by decide, by decide, fun h => ?_⟩
  obtain ⟨val, hread, hwrite⟩ := h [] [] (.inl rfl)
  have hval : RecordTextReader.xfrLabel [] ((RecordTextWriter.xfrLabel [] (ascii "a b.")).drop 0 ++ []) =
      .ok (ascii "a\\ b.", []) := by decide
  obtain ⟨rfl, -⟩ := Prod.mk.inj (Except.ok.inj (hval.symm.trans hread))
  obtain ⟨entries, hwrite⟩ := hwrite emptyWriter
  have hrecord : (emptyWriter.xfrLabel (ascii "a\\ b.") false).map (·.d_record) ≠
      some (wireLabels [[97, 32, 98]]) := by decide
  exact hrecord (congrArg (Option.map (·.d_record)) hwrite)

end PowerDNS
