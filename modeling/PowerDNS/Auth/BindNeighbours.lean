import PowerDNS.Auth.BindZone
import PowerDNS.Auth.Denial

/-!
# Neighbours in a zone of the Bind backend: `getBeforeAndAfterNamesAbsolute`

The records of a zone are in the order of their names relative to the zone, reversed by
`labelReverse`; with the octet between the labels below every octet of a label that is the canonical
order (`fullKey_lt_iff`). `DNSBackend::getBeforeAndAfterNames` makes the name that is asked for
relative and reverses it, and `Bind2Backend::getBeforeAndAfterNamesAbsolute` reverses it once more.
So what it looks for is the relative name with its dots, which has its right place among the
reversed ones only if no stored name tells the two apart; and a name that is an owner itself is
passed over, since `lower_bound` stops in front of it. `neighbours_iff` says when the names that are
found are the neighbours all the same.
-/

namespace PowerDNS

open OrderedChain SortedRange List

namespace Bind2Backend

/-! ### The code -/

/-- What the walks in `getBeforeAndAfterNamesAbsolute` stop at. -/
def Bind2DNSRecord.named (bdr : Bind2DNSRecord) : Bool := bdr.auth || bdr.qtype == QType.NS

/-- `before`, from the records in front of `iter`, the last one first. -/
def nameInFront : List Bind2DNSRecord → Octets
  | [] => []
  | bdr :: _ => bdr.qname

/-- `after`, from the records that `iter` is at the first one of; at the end it is the full name of
the first record of all. -/
def nameBehind (d_name : Octets) (d_records : List Bind2DNSRecord) : List Bind2DNSRecord → Octets
  | [] => dotConcat (labelReverse (nameInFront d_records)) d_name
  | bdr :: _ => bdr.qname

/-- `Bind2Backend::getBeforeAndAfterNamesAbsolute` on the zone `d_name` with the records `d_records`;
`before` and `after` stay as they are when it returns false. -/
def getBeforeAndAfterNamesAbsolute (d_name : Octets) (d_records : List Bind2DNSRecord)
    (qname before after : Octets) : Bool × Octets × Octets :=
  let lname := textKey (labelReverse (toLower qname))
  let front := wantedBefore Bind2DNSRecord.place Bind2DNSRecord.named d_records lname
  if front.length = d_records.length then (false, before, after)
  else
    (true, nameInFront front, nameBehind d_name d_records
      (wantedBehind Bind2DNSRecord.place Bind2DNSRecord.named d_records lname))

/-- `DNSBackend::getBeforeAndAfterNames`. The lower case of `qname` is thrown away at once. -/
def getBeforeAndAfterNames (d_name : Octets) (d_records : List Bind2DNSRecord)
    (zonename qname before after : Octets) : Bool × Octets × Octets :=
  let lcqname := labelReverse (makeRelative qname zonename)
  let found := getBeforeAndAfterNamesAbsolute d_name d_records lcqname before after
  (found.1, dotConcat (labelReverse found.2.1) zonename, dotConcat (labelReverse found.2.2) zonename)

/-! ### Names without special octets -/

/-- The labels of a name. -/
structure PlainLabel (l : Octets) : Prop where
  ne_nil : l ≠ []
  octet : ∀ c ∈ l, blank < c ∧ c ≠ dot ∧ c ≠ backslash

/-- A name as a host has it: labels with single dots between them, and no blank, control character
or backslash. -/
structure PlainName (t : Octets) : Prop where
  labels : joinWith dot (dotLabels t) = t
  octet : ∀ c ∈ t, blank < c ∧ c ≠ backslash

instance (t : Octets) : Decidable (PlainName t) :=
  haveI : Decidable (∀ c ∈ t, blank < c ∧ c ≠ backslash) := List.decidableBAll _ _
  decidable_of_iff (joinWith dot (dotLabels t) = t ∧ ∀ c ∈ t, blank < c ∧ c ≠ backslash)
    ⟨fun h => ⟨h.1, h.2⟩, fun h => ⟨h.1, h.2⟩⟩

section Plain

variable {l t x y : Octets} {L M : List Octets}

theorem PlainName.label (h : PlainName t) : ∀ l ∈ dotLabels t, PlainLabel l := by
  intro l hl
  obtain ⟨hne, hdot, -, hmem⟩ := mem_dotLabels hl
  refine ⟨hne, fun c hc => ⟨(h.octet c (hmem c hc)).1, ?_, (h.octet c (hmem c hc)).2⟩⟩
  rintro rfl
  exact hdot hc

theorem PlainLabel.not_delimiter (h : PlainLabel l) : l ≠ [] ∧ ∀ c ∈ l, c ∉ [dot, blank] := by
  refine ⟨h.ne_nil, fun c hc hmem => ?_⟩
  rcases mem_cons.mp hmem with rfl | hmem
  · exact (h.octet dot hc).2.1 rfl
  · obtain rfl := mem_singleton.mp hmem
    exact UInt8.lt_irrefl _ (h.octet blank hc).1

theorem PlainLabel.visible (h : PlainLabel l) : l ≠ [] ∧ ∀ c ∈ l, blank < c :=
  ⟨h.ne_nil, fun c hc => (h.octet c hc).1⟩

theorem PlainLabel.toLower (h : PlainLabel l) : PlainLabel (toLower l) := by
  refine ⟨mt (toLower_eq_nil l).mp h.ne_nil, fun c hc => ?_⟩
  obtain ⟨d, hd, rfl⟩ := mem_map.mp hc
  obtain ⟨hblank, hdot, hback⟩ := h.octet d hd
  refine ⟨?_, mt (dnsTolower_eq_dot d).mp hdot, mt (dnsTolower_eq_backslash d).mp hback⟩
  unfold dnsTolower
  split
  · unfold blank at hblank ⊢
    grind
  · exact hblank

theorem dotLabels_of_plain (hL : ∀ l ∈ L, PlainLabel l) : dotLabels (joinWith dot L) = L :=
  dotLabels_joinWith (by simp) fun l hl => (hL l hl).not_delimiter

/-- Reversing a name. -/
theorem labelReverse_dots (hL : ∀ l ∈ L, PlainLabel l) :
    labelReverse (joinWith dot L) = joinWith blank L.reverse := by
  by_cases h : L.length = 1
  · obtain ⟨l, rfl⟩ := length_eq_one_iff.mp h
    exact labelReverse_of_one (by rw [dotLabels_of_plain hL, h])
  · have hblank : blank ∉ joinWith dot L := by
      intro hmem
      rcases mem_joinWith hmem with heq | ⟨l, hl, hmem⟩
      · exact absurd heq (by decide)
      · exact (hL l hl).not_delimiter.2 blank hmem (by simp)
    rw [labelReverse_of_many hblank (by rwa [dotLabels_of_plain hL]),
      dotLabels_of_plain hL]

/-- Reversing a reversed name. -/
theorem labelReverse_blanks (hM : ∀ l ∈ M, PlainLabel l) :
    labelReverse (joinWith blank M) = joinWith dot M.reverse := by
  have hrev : ∀ l ∈ M.reverse, PlainLabel l := fun l hl => hM l (mem_reverse.mp hl)
  rw [← reverse_reverse M, ← labelReverse_dots hrev, reverse_reverse]
  by_cases h : M.length = 1
  · obtain ⟨l, rfl⟩ := length_eq_one_iff.mp h
    have hone : (dotLabels (joinWith dot [l].reverse)).length = 1 := by
      rw [dotLabels_of_plain hrev]
      rfl
    rw [labelReverse_of_one hone, labelReverse_of_one hone]
  · have hblank : blank ∉ joinWith dot M.reverse := by
      intro hmem
      rcases mem_joinWith hmem with heq | ⟨l, hl, hmem⟩
      · exact absurd heq (by decide)
      · exact (hrev l hl).not_delimiter.2 blank hmem (by simp)
    rw [labelReverse_labelReverse hblank (by
      rwa [dotLabels_of_plain hrev, length_reverse]),
      dotLabels_of_plain hrev]

theorem dotConcat_joinWith (hL : ∀ l ∈ L, l ≠ []) (hM : ∀ l ∈ M, l ≠ []) :
    dotConcat (joinWith dot L) (joinWith dot M) = joinWith dot (L ++ M) := by
  unfold dotConcat
  cases L with
  | nil => rfl
  | cons l L =>
    cases M with
    | nil =>
      show (if joinWith dot (l :: L) = [] ∨ ([] : Octets) = [] then joinWith dot (l :: L) ++ [] else _) = _
      rw [if_pos (.inr rfl), append_nil, append_nil]
    | cons m M =>
      have hne : joinWith dot (l :: L) ≠ [] := joinWith_ne_nil (cons_ne_nil l L) hL
      have hne' : joinWith dot (m :: M) ≠ [] := joinWith_ne_nil (cons_ne_nil m M) hM
      rw [if_neg (not_or.mpr ⟨hne, hne'⟩)]
      clear hne hL
      induction L generalizing l with
      | nil => rfl
      | cons l' L ih =>
        rw [joinWith_cons_cons, append_assoc, cons_append, ih l']
        rfl

theorem toLower_joinWith {sep : UInt8} (hsep : dnsTolower sep = sep) (L : List Octets) :
    toLower (joinWith sep L) = joinWith sep (lowerLabels L) := by
  induction L with
  | nil => rfl
  | cons l L ih =>
    cases L with
    | nil => rfl
    | cons m L =>
      rw [joinWith_cons_cons, toLower_append, toLower_cons, ih, hsep]
      rfl

theorem lowerLabels_plain (hL : ∀ l ∈ L, PlainLabel l) : ∀ l ∈ lowerLabels L, PlainLabel l := by
  intro l hl
  obtain ⟨m, hm, rfl⟩ := mem_map.mp hl
  exact (hL m hm).toLower

/-- A text is its labels with dots between them. -/
theorem labelsOf_joinWith (hL : ∀ l ∈ L, l ≠ [] ∧ dot ∉ l ∧ backslash ∉ l) :
    labelsOf (joinWith dot L) = L := by
  -- reading a label, up to a dot or to the end
  have hlabel : ∀ (l cur rest : Octets), dot ∉ l → backslash ∉ l →
      splitLabels false cur (l ++ rest) = splitLabels false (cur ++ l) rest := by
    intro l
    induction l with
    | nil => simp
    | cons c l ih =>
      intro cur rest hdot hback
      have hc : c ≠ dot := by
        rintro rfl
        exact hdot mem_cons_self
      have hc' : c ≠ backslash := by
        rintro rfl
        exact hback mem_cons_self
      rw [cons_append, splitLabels, if_neg hc', if_neg hc,
        ih _ _ (mt (mem_cons_of_mem c) hdot) (mt (mem_cons_of_mem c) hback),
        append_assoc, singleton_append]
  have hsplit : splitLabels false [] (joinWith dot L) = L := by
    induction L with
    | nil => rfl
    | cons l L ih =>
      obtain ⟨hne, hdot, hback⟩ := hL l mem_cons_self
      cases L with
      | nil =>
        have hread := hlabel l [] [] hdot hback
        rw [append_nil, nil_append] at hread
        rw [joinWith, hread, splitLabels]
        simp [hne]
      | cons m L =>
        rw [joinWith_cons_cons, hlabel l [] _ hdot hback, nil_append, splitLabels,
          if_neg dot_ne_backslash, if_pos rfl, ih fun l' hl' => hL l' (mem_cons_of_mem l hl')]
  unfold labelsOf
  rw [if_neg, hsplit]
  intro hroot
  cases L with
  | nil => cases hroot
  | cons l L =>
    obtain ⟨hne, hdot, -⟩ := hL l mem_cons_self
    obtain ⟨c, l, rfl⟩ := exists_cons_of_ne_nil hne
    have hhead : (joinWith dot ((c :: l) :: L)).head? = some c := by
      cases L <;> rfl
    rw [hroot] at hhead
    exact hdot (Option.some.inj hhead ▸ mem_cons_self)

theorem labelsOf_plain (hL : ∀ l ∈ L, PlainLabel l) : labelsOf (joinWith dot L) = L :=
  labelsOf_joinWith fun l hl => ⟨(hL l hl).ne_nil, fun h => ((hL l hl).octet dot h).2.1 rfl,
    fun h => ((hL l hl).octet backslash h).2.2 rfl⟩

end Plain

/-! ### The order of reversed names -/

section Order

variable {l m : Octets} {M N : List Octets}

/-- What follows the first label of a reversed name. -/
def behindKey : List Octets → List Nat
  | [] => []
  | m :: M => blank.toNat :: textKey (joinWith blank (m :: M))

theorem textKey_joinWith_cons (l : Octets) (M : List Octets) :
    textKey (joinWith blank (l :: M)) = textKey l ++ behindKey M := by
  cases M with
  | nil => exact (append_nil _).symm
  | cons m M => exact map_append

/-- Two labels that differ decide, whatever follows them: a blank is below their octets. -/
theorem textKey_append_lt {X : List Nat} (hm : ∀ c ∈ m, blank < c) (M : List Octets)
    (h : textKey l < textKey m) : textKey l ++ behindKey M < textKey m ++ X := by
  induction l generalizing m with
  | nil =>
    cases m with
    | nil => exact absurd h (lt_irrefl _)
    | cons c m =>
      cases M with
      | nil => exact nil_lt_cons _ _
      | cons l' M =>
        have hc : blank.toNat < c.toNat := hm c mem_cons_self
        exact cons_lt_cons_iff.mpr (.inl hc)
  | cons a l ih =>
    cases m with
    | nil => exact absurd h (not_lt_nil _)
    | cons b m =>
      rcases cons_lt_cons_iff.mp h with hlt | ⟨heq, hlt⟩
      · exact cons_lt_cons_iff.mpr (.inl hlt)
      · exact cons_lt_cons_iff.mpr
          (.inr ⟨heq, ih (fun c hc => hm c (mem_cons_of_mem b hc)) hlt⟩)

theorem joinWith_lt (hN : ∀ l ∈ N, l ≠ [] ∧ ∀ c ∈ l, blank < c) (h : M.map textKey < N.map textKey) :
    textKey (joinWith blank M) < textKey (joinWith blank N) := by
  induction M generalizing N with
  | nil =>
    cases N with
    | nil => exact absurd h (lt_irrefl _)
    | cons n N =>
      have hne : joinWith blank (n :: N) ≠ [] := joinWith_ne_nil (cons_ne_nil n N) fun l hl => (hN l hl).1
      obtain ⟨c, t, ht⟩ := exists_cons_of_ne_nil hne
      rw [ht]
      exact nil_lt_cons _ _
  | cons m M ih =>
    cases N with
    | nil => exact absurd h (not_lt_nil _)
    | cons n N =>
      have hN' : ∀ l ∈ N, l ≠ [] ∧ ∀ c ∈ l, blank < c := fun l hl => hN l (mem_cons_of_mem n hl)
      rw [textKey_joinWith_cons, textKey_joinWith_cons]
      rcases cons_lt_cons_iff.mp h with hlt | ⟨heq, hlt⟩
      · exact textKey_append_lt (hN n mem_cons_self).2 M hlt
      · rw [heq]
        refine append_left_lt ?_
        have hlater := ih hN' hlt
        cases M with
        | nil =>
          cases N with
          | nil => exact absurd hlt (lt_irrefl _)
          | cons n' N => exact nil_lt_cons _ _
        | cons m' M =>
          cases N with
          | nil => exact absurd hlt (not_lt_nil _)
          | cons n' N => exact cons_lt_cons_iff.mpr (.inr ⟨rfl, hlater⟩)

/-- **The order of reversed names** is that of their labels. -/
theorem joinWith_lt_iff (hM : ∀ l ∈ M, l ≠ [] ∧ ∀ c ∈ l, blank < c) (hN : ∀ l ∈ N, l ≠ [] ∧ ∀ c ∈ l, blank < c) :
    M.map textKey < N.map textKey ↔ textKey (joinWith blank M) < textKey (joinWith blank N) := by
  refine ⟨joinWith_lt hN, fun h => ?_⟩
  rcases lt_trichotomy (M.map textKey) (N.map textKey) with hlt | heq | hgt
  · exact hlt
  · obtain rfl := map_injective_iff.mpr (fun _ _ => textKey_inj.mp) heq
    exact absurd h (lt_irrefl _)
  · exact absurd (h.trans (joinWith_lt hM hgt)) (lt_irrefl _)

/-- A name as it is stored: its labels in lower case, reversed, with blanks between them. -/
def StoredName (x : Octets) : Prop :=
  ∃ M, (∀ l ∈ M, PlainLabel l) ∧ lowerLabels M = M ∧ x = joinWith blank M

theorem storedName_nil : StoredName [] := ⟨[], by simp, rfl, rfl⟩

/-- The place of a name in the canonical order. -/
def nameKey (t : Octets) : List (List Nat) := canonicalKey (labelsOf t)

theorem nameKey_congr {t t' : Octets} (h : toLower t = toLower t') : nameKey t = nameKey t' :=
  canonicalKey_eq_iff.mpr (lowerLabels_congr h)

theorem canonicalKey_append (A B : List Octets) :
    canonicalKey (A ++ B) = canonicalKey B ++ canonicalKey A := by
  simp only [canonicalKey, lowerLabels_append, map_append, reverse_append]

/-- The place of the name that a stored one stands for. -/
def fullKey (zonename x : Octets) : List (List Nat) := nameKey (dotConcat (labelReverse x) zonename)

theorem nameKey_plain {t : Octets} (ht : PlainName t) : nameKey t = canonicalKey (dotLabels t) := by
  have hlabels := labelsOf_plain ht.label
  rw [ht.labels] at hlabels
  exact congrArg canonicalKey hlabels

theorem fullKey_joinWith {zonename : Octets} (hzone : PlainName zonename)
    (hM : ∀ l ∈ M, PlainLabel l) : fullKey zonename (joinWith blank M) =
      canonicalKey (dotLabels zonename) ++ (lowerLabels M).map textKey := by
  have hrev : ∀ l ∈ M.reverse, PlainLabel l := fun l hl => hM l (mem_reverse.mp hl)
  have hall : ∀ l ∈ M.reverse ++ dotLabels zonename, PlainLabel l := fun l hl =>
    (mem_append.mp hl).elim (hrev l) (hzone.label l)
  have hconcat : dotConcat (joinWith dot M.reverse) zonename =
      joinWith dot (M.reverse ++ dotLabels zonename) := by
    rw [← dotConcat_joinWith (fun l hl => (hrev l hl).ne_nil) (fun l hl => (hzone.label l hl).ne_nil),
      hzone.labels]
  unfold fullKey nameKey
  rw [labelReverse_blanks hM, hconcat, labelsOf_plain hall, canonicalKey_append]
  refine congrArg (canonicalKey (dotLabels zonename) ++ ·) ?_
  unfold canonicalKey lowerLabels
  rw [map_reverse, map_reverse, reverse_reverse]
  rfl

/-- **Stored names are in canonical order.** -/
theorem orderAlike_fullKey {zonename : Octets} (hzone : PlainName zonename) :
    OrderAlike (fullKey zonename) textKey {x | StoredName x} := by
  rintro x ⟨M, hM, hlowerM, rfl⟩ y ⟨N, hN, hlowerN, rfl⟩
  rw [fullKey_joinWith hzone hM, fullKey_joinWith hzone hN, hlowerM, hlowerN,
    ← joinWith_lt_iff (fun l hl => (hM l hl).visible) fun l hl => (hN l hl).visible]
  constructor
  · intro h
    rcases lt_trichotomy (M.map textKey) (N.map textKey) with hlt | heq | hgt
    · exact hlt
    · rw [heq] at h
      exact absurd h (lt_irrefl _)
    · exact absurd (h.trans (append_left_lt hgt)) (lt_irrefl _)
  · exact fun h => append_left_lt h

end Order

/-! ### The name that is asked for -/

/-- The labels of a name in front of those of the zone. -/
def relativeLabels (zonename qname : Octets) : List Octets :=
  (dotLabels qname).take ((dotLabels qname).length - (dotLabels zonename).length)

/-- What is looked for: the relative name with its dots, or the whole name of the apex when its
letters are not those of `zonename`. -/
def sought (zonename qname : Octets) : Octets := toLower (makeRelative qname zonename)

/-- The stored name whose place the name has. -/
def belongs (zonename qname : Octets) : Octets :=
  joinWith blank (lowerLabels (relativeLabels zonename qname)).reverse

section Query

variable {zonename qname d_name : Octets} {A B : List Octets}

theorem length_eq_of_toLower {t t' : Octets} (h : toLower t = toLower t') : t.length = t'.length := by
  rw [← length_toLower t, h, length_toLower]

/-- What `makeRelative` and `insert` cut off. -/
theorem take_relative (hA : A ≠ []) (hB : B ≠ []) (hne : ∀ l ∈ A ++ B, l ≠ []) :
    (joinWith dot (A ++ B)).take ((joinWith dot (A ++ B)).length - ((joinWith dot B).length + 1)) =
        joinWith dot A ∧
      (joinWith dot B).length < (joinWith dot (A ++ B)).length := by
  have hne' : ∀ l ∈ A, l ≠ [] := fun l hl => hne l (mem_append_left B hl)
  have hne'' : ∀ l ∈ B, l ≠ [] := fun l hl => hne l (mem_append_right A hl)
  rw [← dotConcat_joinWith hne' hne'']
  unfold dotConcat
  rw [if_neg (not_or.mpr ⟨joinWith_ne_nil hA hne', joinWith_ne_nil hB hne''⟩), length_append,
    length_cons]
  refine ⟨?_, by omega⟩
  rw [Nat.add_sub_cancel]
  exact take_left

/-- **The relative name**; of the apex only if it is written as in `zonename`. -/
theorem makeRelative_eq (hzone : PlainName zonename) (hne : ∀ l ∈ A ++ B, l ≠ [])
    (hB : lowerLabels B = lowerLabels (dotLabels zonename)) (hq : qname = joinWith dot (A ++ B)) :
    makeRelative qname zonename =
      if A = [] ∧ qname ≠ zonename then qname else joinWith dot A := by
  have hlower : toLower (joinWith dot B) = toLower zonename := by
    rw [toLower_joinWith (by decide), hB, ← toLower_joinWith (by decide), hzone.labels]
  have hlength := length_eq_of_toLower hlower
  unfold makeRelative
  by_cases hz : zonename = []
  · have hBnil : B = [] := by
      rw [hz] at hB
      exact map_eq_nil_iff.mp hB
    rw [if_pos hz]
    split
    · rfl
    · rw [hq, hBnil, append_nil]
  · rw [if_neg hz]
    by_cases hA : A = []
    · subst hA
      by_cases heq : qname = zonename
      · rw [if_neg (not_not.mpr heq), if_neg fun h => h.2 heq]
        rfl
      · have hshort : qname.length < zonename.length + 1 := by
          rw [hq, nil_append, hlength]
          exact Nat.lt_succ_self _
        rw [if_pos heq, if_pos hshort, if_pos ⟨rfl, heq⟩]
    · have hBne : B ≠ [] := by
        rintro rfl
        have hnil : zonename.length = 0 := hlength.symm
        exact hz (length_eq_zero_iff.mp hnil)
      obtain ⟨htake, hlt⟩ := take_relative hA hBne hne
      rw [hlength, ← hq] at htake hlt
      have hneq : qname ≠ zonename := by
        rintro rfl
        exact absurd hlt (lt_irrefl _)
      rw [if_pos hneq, if_neg (Nat.not_lt.mpr hlt), if_neg fun h => hA h.1, ← htake, Nat.sub_sub]

/-- The labels of a name of the zone. -/
theorem exists_split (hzone : PlainName zonename) (hplain : PlainName qname)
    (hunder : AtOrBelow qname zonename) :
    ∃ B, dotLabels qname = relativeLabels zonename qname ++ B ∧
      lowerLabels B = lowerLabels (dotLabels zonename) := by
  unfold AtOrBelow at hunder
  rw [← hzone.labels, ← hplain.labels, labelsOf_plain hzone.label, labelsOf_plain hplain.label] at hunder
  refine ⟨(dotLabels qname).drop ((dotLabels qname).length - (dotLabels zonename).length),
    (take_append_drop _ _).symm, ?_⟩
  have hdrop := suffix_iff_eq_drop.mp hunder
  unfold lowerLabels at hdrop ⊢
  rw [length_map, length_map] at hdrop
  rw [map_drop, ← hdrop]

theorem relativeLabels_plain (hplain : PlainName qname) :
    ∀ l ∈ relativeLabels zonename qname, PlainLabel l := fun l hl =>
  hplain.label l (mem_of_mem_take hl)

theorem storedName_belongs (hplain : PlainName qname) : StoredName (belongs zonename qname) := by
  refine ⟨(lowerLabels (relativeLabels zonename qname)).reverse, fun l hl =>
    lowerLabels_plain (relativeLabels_plain hplain) l (mem_reverse.mp hl), ?_, rfl⟩
  unfold lowerLabels
  rw [map_reverse, map_map]
  exact congrArg List.reverse (map_congr_left fun l _ => toLower_toLower l)

/-- The place of the name in the canonical order. -/
theorem fullKey_belongs (hzone : PlainName zonename) (hplain : PlainName qname)
    (hunder : AtOrBelow qname zonename) : fullKey zonename (belongs zonename qname) = nameKey qname := by
  obtain ⟨B, hsplit, hB⟩ := exists_split hzone hplain hunder
  have hA : ∀ l ∈ relativeLabels zonename qname, PlainLabel l := relativeLabels_plain hplain
  have hkey : canonicalKey B = canonicalKey (dotLabels zonename) := canonicalKey_eq_iff.mpr hB
  rw [nameKey_plain hplain, hsplit, canonicalKey_append, hkey, belongs,
    fullKey_joinWith hzone fun l hl => lowerLabels_plain hA l (mem_reverse.mp hl)]
  refine congrArg (canonicalKey (dotLabels zonename) ++ ·) ?_
  unfold canonicalKey lowerLabels
  rw [map_reverse, map_reverse, map_map, map_map, map_map]
  refine congrArg List.reverse (map_congr_left fun l _ => ?_)
  exact congrArg textKey (toLower_toLower l)

/-- **What `getBeforeAndAfterNamesAbsolute` looks for**: reversed twice, the name is itself again. -/
theorem lname_eq (hzone : PlainName zonename) (hplain : PlainName qname)
    (hunder : AtOrBelow qname zonename) :
    labelReverse (toLower (labelReverse (makeRelative qname zonename))) = sought zonename qname := by
  obtain ⟨B, hsplit, hB⟩ := exists_split hzone hplain hunder
  have hne : ∀ l ∈ relativeLabels zonename qname ++ B, l ≠ [] := by
    rw [← hsplit]
    exact fun l hl => (hplain.label l hl).ne_nil
  obtain ⟨X, hX, hrelative⟩ : ∃ X, (∀ l ∈ X, PlainLabel l) ∧ makeRelative qname zonename = joinWith dot X := by
    rw [makeRelative_eq hzone hne hB (by rw [← hsplit, hplain.labels])]
    split
    · exact ⟨dotLabels qname, hplain.label, hplain.labels.symm⟩
    · exact ⟨_, relativeLabels_plain hplain, rfl⟩
  have hrev : ∀ l ∈ lowerLabels X.reverse, PlainLabel l :=
    lowerLabels_plain fun l hl => hX l (mem_reverse.mp hl)
  unfold sought
  rw [hrelative, labelReverse_dots hX, toLower_joinWith (by decide), labelReverse_blanks hrev,
    toLower_joinWith (by decide)]
  unfold lowerLabels
  rw [map_reverse, reverse_reverse]

end Query

/-! ### The records of a zone -/

/-- The full name of a record. -/
def Bind2DNSRecord.owner (d_name : Octets) (bdr : Bind2DNSRecord) : Octets :=
  dotConcat (labelReverse bdr.qname) d_name

/-- The names that own authoritative or NS records. -/
def namedOwners (d_name : Octets) (zone : List Bind2DNSRecord) : List Octets :=
  (zone.filter Bind2DNSRecord.named).map (Bind2DNSRecord.owner d_name)

/-- The names under which these records are stored. -/
def storedNames (zone : List Bind2DNSRecord) : List Octets :=
  (zone.filter Bind2DNSRecord.named).map Bind2DNSRecord.qname

/-- **The neighbours are right**: `before` is the last owner of an authoritative or NS record that is
canonically not after `qname`, `after` is such an owner, and the first one after `qname`, or the
apex when there is none. -/
structure RightNeighbours (d_name zonename : Octets) (zone : List Bind2DNSRecord)
    (qname before after : Octets) : Prop where
  pred : IsPred (points nameKey (namedOwners d_name zone)) (nameKey qname) (nameKey before)
  succ : IsSucc (points nameKey (namedOwners d_name zone)) (nameKey zonename) (nameKey qname)
    (nameKey after)
  owns : nameKey after ∈ points nameKey (namedOwners d_name zone)

/-- When the names that are found are the neighbours. What is looked for has its place among the
stored names where the name belongs, as far as these tell, and is none of them but the apex; or all
records are at the apex; or the zone is the root and nothing is behind; or the zone has one label,
its apex is asked for in other letters, and besides the apex there is only the name that has the
label of the zone once more. -/
inductive FindsNeighbours (d_name zonename : Octets) (zone : List Bind2DNSRecord) (qname : Octets) : Prop
  | between
      (hlater : ∃ x ∈ storedNames zone, textKey (sought zonename qname) < textKey x)
      (hfirst : [] ∈ storedNames zone ∨
        ∃ x ∈ storedNames zone, textKey x < textKey (sought zonename qname))
      (hbefore : ∀ x ∈ storedNames zone, textKey x < textKey (sought zonename qname) →
        textKey x ≤ textKey (belongs zonename qname))
      (hbehind : ∀ x ∈ storedNames zone, textKey (sought zonename qname) < textKey x →
        textKey (belongs zonename qname) < textKey x)
      (hself : sought zonename qname ∈ storedNames zone → sought zonename qname = [])
  | apexOnly (hne : zone ≠ []) (hall : ∀ bdr ∈ zone, bdr.qname = []) (hsought : sought zonename qname ≠ [])
  | root (hroot : d_name = []) (hapex : [] ∈ storedNames zone)
      (hlast : ∀ x ∈ storedNames zone, textKey x ≤ textKey (sought zonename qname))
      (hbelongs : ∀ x ∈ storedNames zone, textKey x ≤ textKey (belongs zonename qname))
      (hself : sought zonename qname ∈ storedNames zone → sought zonename qname = [])
      (hrest : (∃ bdr ∈ zone, textKey (sought zonename qname) ≤ bdr.place) ∨
        ∃ bdr ∈ zone.getLast?, bdr.named = false)
  | topLevel (hlabel : (dotLabels zonename).length = 1) (hcase : qname ≠ zonename)
      (hrelative : relativeLabels zonename qname = [])
      (honly : ∀ x ∈ storedNames zone, x = [] ∨ x = sought zonename qname)
      (hapex : [] ∈ storedNames zone) (hself : sought zonename qname ∈ storedNames zone)

section Neighbours

variable {d_name zonename qname : Octets} {rrs : List TextRR} {zone : List Bind2DNSRecord}
  {bdr : Bind2DNSRecord} {x a b : Octets}

theorem mem_storedNames : x ∈ storedNames zone ↔ ∃ bdr ∈ zone, bdr.named = true ∧ bdr.qname = x := by
  unfold storedNames
  rw [mem_map]
  exact exists_congr fun bdr => by rw [mem_filter, and_assoc]

theorem textKey_mem_points : textKey x ∈ points textKey (storedNames zone) ↔ x ∈ storedNames zone :=
  ⟨fun ⟨_, hy, heq⟩ => textKey_inj.mp heq ▸ hy, fun h => ⟨x, h, rfl⟩⟩

theorem toLower_dotConcat (x d : Octets) : toLower (dotConcat x d) = dotConcat (toLower x) (toLower d) := by
  unfold dotConcat
  simp only [toLower_eq_nil]
  split
  · exact toLower_append x d
  · rw [toLower_append, toLower_cons]
    rfl

theorem nil_le_key (n : List Nat) : [] ≤ n := not_lt.mp (not_lt_nil n)

/-- The owners are the full names of the stored ones. -/
theorem points_namedOwners (hname : toLower d_name = toLower zonename) :
    points nameKey (namedOwners d_name zone) = points (fullKey zonename) (storedNames zone) := by
  have hkey : ∀ bdr : Bind2DNSRecord, nameKey (bdr.owner d_name) = fullKey zonename bdr.qname := by
    intro bdr
    refine nameKey_congr ?_
    rw [Bind2DNSRecord.owner, toLower_dotConcat, toLower_dotConcat, hname]
  ext k
  constructor
  · rintro ⟨n, hn, rfl⟩
    obtain ⟨bdr, hbdr, rfl⟩ := mem_map.mp hn
    exact ⟨bdr.qname, mem_map_of_mem hbdr, (hkey bdr).symm⟩
  · rintro ⟨n, hn, rfl⟩
    obtain ⟨bdr, hbdr, rfl⟩ := mem_map.mp hn
    exact ⟨bdr.owner d_name, mem_map_of_mem hbdr, hkey bdr⟩

/-- The neighbours in the order of the stored names. -/
theorem rightNeighbours_iff (hname : toLower d_name = toLower zonename) (hzone : PlainName zonename)
    (hplain : PlainName qname) (hunder : AtOrBelow qname zonename)
    (hstored : ∀ x ∈ storedNames zone, StoredName x) (hb : StoredName b) (ha : StoredName a)
    {before after : Octets} (hbefore : nameKey before = fullKey zonename b)
    (hafter : nameKey after = fullKey zonename a) :
    RightNeighbours d_name zonename zone qname before after ↔
      IsPred (points textKey (storedNames zone)) (textKey (belongs zonename qname)) (textKey b) ∧
        IsSucc (points textKey (storedNames zone)) [] (textKey (belongs zonename qname)) (textKey a) ∧
          textKey a ∈ points textKey (storedNames zone) := by
  have horder := orderAlike_fullKey hzone
  have hq : StoredName (belongs zonename qname) := storedName_belongs hplain
  have hpred := horder.isPred_iff hstored hq hb
  have hsucc := horder.isSucc_iff hstored storedName_nil hq ha
  have howns := horder.mem_points hstored ha
  rw [fullKey_belongs hzone hplain hunder, ← points_namedOwners hname] at hpred hsucc
  rw [← points_namedOwners hname] at howns
  constructor
  · rintro ⟨h, h', h''⟩
    rw [hbefore] at h
    rw [hafter] at h' h''
    exact ⟨hpred.mp h, hsucc.mp h', howns.mp h''⟩
  · rintro ⟨h, h', h''⟩
    refine ⟨?_, ?_, ?_⟩
    · rw [hbefore]
      exact hpred.mpr h
    · rw [hafter]
      exact hsucc.mpr h'
    · rw [hafter]
      exact howns.mpr h''

/-- What is found in front. -/
theorem foundBefore (hsorted : Ascending Bind2DNSRecord.place zone) (k : List Nat) :
    FoundBefore (points textKey (storedNames zone)) [] k
      (textKey (nameInFront (wantedBefore Bind2DNSRecord.place Bind2DNSRecord.named zone k))) := by
  cases hfront : wantedBefore Bind2DNSRecord.place Bind2DNSRecord.named zone k with
  | nil =>
    refine .inr ⟨rfl, ?_⟩
    rintro n ⟨x, hx, rfl⟩
    obtain ⟨bdr, hbdr, hnamed, rfl⟩ := mem_storedNames.mp hx
    exact le_of_wantedBefore_eq_nil hsorted hfront bdr hbdr hnamed
  | cons bdr front =>
    obtain ⟨hbdr, hnamed, hlt, hall⟩ := greatest_of_wantedBefore hsorted hfront
    refine .inl ⟨⟨⟨bdr.qname, mem_storedNames.mpr ⟨bdr, hbdr, hnamed, rfl⟩, rfl⟩, hlt⟩, ?_⟩
    rintro n ⟨⟨x, hx, rfl⟩, hxk⟩
    obtain ⟨bdr', hbdr', hnamed', rfl⟩ := mem_storedNames.mp hx
    exact hall bdr' hbdr' hnamed' hxk

/-- What is found behind. -/
theorem foundBehind (hsorted : Ascending Bind2DNSRecord.place zone) {k : List Nat}
    {behind : List Bind2DNSRecord}
    (h : wantedBehind Bind2DNSRecord.place Bind2DNSRecord.named zone k = bdr :: behind) :
    bdr.qname ∈ storedNames zone ∧
      IsLeast {n | n ∈ points textKey (storedNames zone) ∧ k < n} (textKey bdr.qname) := by
  obtain ⟨hbdr, hnamed, hlt, hall⟩ := least_of_wantedBehind hsorted h
  have hmem : bdr.qname ∈ storedNames zone := mem_storedNames.mpr ⟨bdr, hbdr, hnamed, rfl⟩
  refine ⟨hmem, ⟨⟨bdr.qname, hmem, rfl⟩, hlt⟩, ?_⟩
  rintro n ⟨⟨x, hx, rfl⟩, hkx⟩
  obtain ⟨bdr', hbdr', hnamed', rfl⟩ := mem_storedNames.mp hx
  exact hall bdr' hbdr' hnamed' hkx

theorem le_of_nothingBehind (hsorted : Ascending Bind2DNSRecord.place zone) {k : List Nat}
    (h : wantedBehind Bind2DNSRecord.place Bind2DNSRecord.named zone k = []) :
    ∀ n ∈ points textKey (storedNames zone), n ≤ k := by
  rintro n ⟨x, hx, rfl⟩
  obtain ⟨bdr, hbdr, hnamed, rfl⟩ := mem_storedNames.mp hx
  exact le_of_wantedBehind_eq_nil hsorted h bdr hbdr hnamed

/-! ### What is taken for the next name at the end -/

/-- A single label in front of the zone. -/
theorem nameKey_label {l : Octets} (hl : PlainLabel l) :
    nameKey (dotConcat (labelReverse l) zonename) = fullKey zonename (toLower l) := by
  have hone : ∀ l : Octets, PlainLabel l → labelReverse l = l := fun l hl =>
    labelReverse_blanks (M := [l]) fun l' hl' => mem_singleton.mp hl' ▸ hl
  unfold fullKey
  rw [hone l hl, hone _ hl.toLower]
  refine nameKey_congr ?_
  rw [toLower_dotConcat, toLower_dotConcat, toLower_toLower]

/-- A name of several labels, reversed and put in front of the zone, is none of the zone: its first
label has blanks in it. -/
theorem reversed_not_owner {W : List Octets} (hW : ∀ l ∈ W, PlainLabel l) (htwo : 2 ≤ W.length)
    (hzone : PlainName zonename) (hstored : ∀ x ∈ storedNames zone, StoredName x) :
    nameKey (dotConcat (labelReverse (joinWith dot W)) zonename) ∉
      points (fullKey zonename) (storedNames zone) := by
  rintro ⟨x, hx, heq⟩
  obtain ⟨M, hM, hlower, rfl⟩ := hstored x hx
  have hrev : ∀ l ∈ W.reverse, PlainLabel l := fun l hl => hW l (mem_reverse.mp hl)
  have hblank : blank ∈ joinWith blank W.reverse :=
    sep_mem_joinWith (by rwa [length_reverse])
  have hfree : ∀ c : UInt8, c ≠ blank → (∀ l ∈ W.reverse, c ∉ l) → c ∉ joinWith blank W.reverse := by
    intro c hc hall hmem
    rcases mem_joinWith hmem with rfl | ⟨l, hl, hmem⟩
    · exact hc rfl
    · exact hall l hl hmem
  have hdot := hfree dot (by decide) fun l hl h => ((hrev l hl).octet dot h).2.1 rfl
  have hback := hfree backslash (by decide) fun l hl h => ((hrev l hl).octet backslash h).2.2 rfl
  have hne : joinWith blank W.reverse ≠ [] := fun h => absurd (h ▸ hblank) not_mem_nil
  have hlabels : labelsOf (dotConcat (joinWith blank W.reverse) zonename) =
      [joinWith blank W.reverse] ++ dotLabels zonename := by
    have hconcat := dotConcat_joinWith (L := [joinWith blank W.reverse]) (M := dotLabels zonename)
      (fun l hl => mem_singleton.mp hl ▸ hne) fun l hl => (hzone.label l hl).ne_nil
    rw [hzone.labels] at hconcat
    change dotConcat (joinWith blank W.reverse) zonename = _ at hconcat
    rw [hconcat]
    refine labelsOf_joinWith fun l hl => ?_
    rcases mem_append.mp hl with hl | hl
    · rw [mem_singleton.mp hl]
      exact ⟨hne, hdot, hback⟩
    · exact ⟨(hzone.label l hl).ne_nil, fun h => ((hzone.label l hl).octet dot h).2.1 rfl,
        fun h => ((hzone.label l hl).octet backslash h).2.2 rfl⟩
  rw [fullKey_joinWith hzone hM, hlower, labelReverse_dots hW, nameKey, hlabels, canonicalKey_append] at heq
  have hsame : M.map textKey = [textKey (toLower (joinWith blank W.reverse))] :=
    append_cancel_left heq
  obtain ⟨m, M', rfl, hm, -⟩ := map_eq_cons_iff.mp hsame
  have hmem : blank ∈ m := by
    rw [textKey_inj.mp hm]
    exact mem_map.mpr ⟨blank, hblank, rfl⟩
  exact UInt8.lt_irrefl _ ((hM m mem_cons_self).octet blank hmem).1

/-! ### The zone that was loaded -/

theorem toLower_relativeName {qnameu t : Octets} (h : relativeName d_name qnameu = some t) :
    toLower t = t := by
  have htake : ∀ n, toLower ((toLower (canonic qnameu)).take n) = (toLower (canonic qnameu)).take n := by
    intro n
    have htwice := toLower_toLower (canonic qnameu)
    unfold toLower at htwice ⊢
    rw [map_take, htwice]
  unfold relativeName at h
  dsimp only at h
  split at h
  · rw [← Option.some.inj h, toLower_toLower]
  · split at h
    · rw [← Option.some.inj h]
      rfl
    · split at h
      · rw [← Option.some.inj h, htake]
      · cases h

/-- The names of a loaded zone are in order, and what stands at the apex is authoritative. -/
theorem Loaded.stored (hload : Loaded d_name rrs zone)
    (hnames : ∀ rr ∈ rrs, ∀ t ∈ relativeName d_name rr.qname, PlainName t) :
    Ascending Bind2DNSRecord.place zone ∧
      ∀ bdr ∈ zone, StoredName bdr.qname ∧ (bdr.qname = [] → bdr.named = true) := by
  cases hload with
  | @intro inserted sorted hinsert hperm hsorted =>
    refine ⟨pairwise_map.mpr hsorted, fun bdr hbdr => ?_⟩
    obtain ⟨bdr', hbdr', rfl⟩ := mem_map.mp hbdr
    constructor
    · obtain ⟨rr, hrr, hnew⟩ := (insertAll_ok hinsert).2 bdr' (hperm.mem_iff.mp hbdr')
      obtain ⟨t, hrel, hqname, -⟩ := newRecord_ok hnew
      have ht := hnames rr hrr t hrel
      have hlower : lowerLabels (dotLabels t) = dotLabels t := by
        have hjoin := toLower_joinWith (show dnsTolower dot = dot by decide) (dotLabels t)
        rw [ht.labels, toLower_relativeName hrel] at hjoin
        have hlabels := dotLabels_of_plain (lowerLabels_plain ht.label)
        rw [← hjoin] at hlabels
        exact hlabels.symm
      refine ⟨(dotLabels t).reverse, fun l hl => ht.label l (mem_reverse.mp hl), ?_, ?_⟩
      · unfold lowerLabels at hlower ⊢
        rw [map_reverse, hlower]
      · rw [← labelReverse_dots ht.label, ht.labels]
        exact hqname
    · intro hapex
      have hauth : authOf sorted bdr' = true := by
        unfold authOf
        rw [hapex]
        exact Bool.or_true _
      unfold Bind2DNSRecord.named
      rw [hauth, Bool.true_or]

/-! ### Each way the search can end -/

theorem le_of_mem_storedNames (hsorted : Ascending Bind2DNSRecord.place zone)
    (hx : x ∈ storedNames zone) : textKey (nameInFront zone) ≤ textKey x := by
  obtain ⟨bdr, hbdr, -, rfl⟩ := mem_storedNames.mp hx
  cases zone with
  | nil => cases hbdr
  | cons first zone => exact hsorted.le hbdr

theorem nameInFront_eq_nil (hsorted : Ascending Bind2DNSRecord.place zone) (h : [] ∈ storedNames zone) :
    nameInFront zone = [] :=
  textKey_inj.mp (le_antisymm (le_of_mem_storedNames hsorted h) (nil_le_key _))

/-- What is looked for is behind all records. -/
theorem beyond_finds_iff (hsorted : Ascending Bind2DNSRecord.place zone)
    (hlt : ∀ bdr ∈ zone, bdr.place < textKey (sought zonename qname))
    (hlast : ∀ bdr ∈ zone.getLast?, bdr.named = true) :
    IsPred (points textKey (storedNames zone)) (textKey (belongs zonename qname)) (textKey []) ∧
        IsSucc (points textKey (storedNames zone)) [] (textKey (belongs zonename qname)) (textKey []) ∧
          textKey [] ∈ points textKey (storedNames zone) ↔
      FindsNeighbours d_name zonename zone qname := by
  have hltnamed : ∀ x ∈ storedNames zone, textKey x < textKey (sought zonename qname) := by
    intro x hx
    obtain ⟨bdr, hbdr, -, rfl⟩ := mem_storedNames.mp hx
    exact hlt bdr hbdr
  constructor
  · rintro ⟨hpred, hsucc, hmem⟩
    obtain ⟨first, hfirst, -, -⟩ := mem_storedNames.mp (textKey_mem_points.mp hmem)
    have hne : zone ≠ [] := ne_nil_of_mem hfirst
    refine .apexOnly hne (fun bdr hbdr => ?_) ?_
    · -- the last record is at the apex, and no record is behind it
      have hbelongs : ∀ n ∈ points textKey (storedNames zone), n ≤ textKey (belongs zonename qname) := by
        rcases hsucc with hleast | ⟨-, hall⟩
        · exact absurd hleast.1.2 (not_lt_nil _)
        · exact hall
      have hlastmem : zone.getLast hne ∈ zone := getLast_mem hne
      have hstored : (zone.getLast hne).qname ∈ storedNames zone := mem_storedNames.mpr
        ⟨_, hlastmem, hlast _ (getLast?_eq_some_getLast hne), rfl⟩
      have hle := hpred.2 ⟨textKey_mem_points.mpr hstored, hbelongs _ (textKey_mem_points.mpr hstored)⟩
      have hbdrlast : bdr.place ≤ (zone.getLast hne).place := by
        have hsplit := dropLast_append_getLast hne
        rw [← hsplit] at hbdr hsorted
        rcases mem_append.mp hbdr with hmem | hmem
        · exact (pairwise_append.mp hsorted).2.2 bdr hmem _ mem_cons_self
        · rw [mem_singleton.mp hmem]
      exact textKey_inj.mp (le_antisymm (hbdrlast.trans hle) (nil_le_key _))
    · intro hnil
      have h := hltnamed [] (textKey_mem_points.mp hmem)
      rw [hnil] at h
      exact lt_irrefl _ h
  · intro hfinds
    cases hfinds with
    | between hlater =>
      obtain ⟨x, hx, h⟩ := hlater
      exact absurd (h.trans (hltnamed x hx)) (lt_irrefl _)
    | apexOnly hne hall hsought =>
      have hlastmem : zone.getLast hne ∈ zone := getLast_mem hne
      have hmem : [] ∈ storedNames zone := mem_storedNames.mpr
        ⟨_, hlastmem, hlast _ (getLast?_eq_some_getLast hne), hall _ hlastmem⟩
      have honly : ∀ n ∈ points textKey (storedNames zone), n = [] := by
        rintro n ⟨x, hx, rfl⟩
        obtain ⟨bdr, hbdr, -, rfl⟩ := mem_storedNames.mp hx
        rw [hall bdr hbdr]
        rfl
      refine ⟨⟨⟨textKey_mem_points.mpr hmem, nil_le_key _⟩, ?_⟩, .inr ⟨rfl, ?_⟩,
        textKey_mem_points.mpr hmem⟩
      · rintro n ⟨hn, -⟩
        exact (honly n hn).le
      · exact fun n hn => (honly n hn).le.trans (nil_le_key _)
    | root _ _ _ _ _ hrest =>
      rcases hrest with ⟨bdr, hbdr, h⟩ | ⟨bdr, hbdr, h⟩
      · exact absurd h (not_le.mpr (hlt bdr hbdr))
      · rw [hlast bdr hbdr] at h
        cases h
    | topLevel _ _ _ _ _ hself => exact absurd (hltnamed _ hself) (lt_irrefl _)

/-- All records are at the apex, and something else is looked for: that is behind all records. -/
theorem not_apexOnly (hnamed : ∀ bdr ∈ zone, bdr.qname = [] → bdr.named = true)
    (hall : ∀ bdr ∈ zone, bdr.qname = []) (hsought : sought zonename qname ≠ []) :
    (∀ bdr ∈ zone, bdr.place < textKey (sought zonename qname)) ∧
      ∀ bdr ∈ zone.getLast?, bdr.named = true := by
  constructor
  · intro bdr hbdr
    have hplace : bdr.place = textKey [] := congrArg textKey (hall bdr hbdr)
    rw [hplace]
    exact lt_of_le_of_ne (nil_le_key _) fun h => hsought (textKey_inj.mp h).symm
  · intro bdr hbdr
    have hmem := mem_of_getLast? hbdr
    exact hnamed bdr hmem (hall bdr hmem)

/-- Something is behind what is looked for. -/
theorem between_finds_iff (hnamed : ∀ bdr ∈ zone, bdr.qname = [] → bdr.named = true)
    (hbeyond : ¬((∀ bdr ∈ zone, bdr.place < textKey (sought zonename qname)) ∧
      ∀ bdr ∈ zone.getLast?, bdr.named = true))
    (hb : FoundBefore (points textKey (storedNames zone)) [] (textKey (sought zonename qname)) (textKey b))
    (hmem : a ∈ storedNames zone)
    (ha : IsLeast {n | n ∈ points textKey (storedNames zone) ∧ textKey (sought zonename qname) < n}
      (textKey a)) :
    IsPred (points textKey (storedNames zone)) (textKey (belongs zonename qname)) (textKey b) ∧
        IsSucc (points textKey (storedNames zone)) [] (textKey (belongs zonename qname)) (textKey a) ∧
          textKey a ∈ points textKey (storedNames zone) ↔
      FindsNeighbours d_name zonename zone qname := by
  have haround := neighbours_around_iff (x := textKey (belongs zonename qname)) nil_le_key hb ha
  constructor
  · rintro ⟨hpred, hsucc, -⟩
    obtain ⟨hfirst, hbefore, hbehind, hself⟩ := haround.mp ⟨hpred, hsucc⟩
    refine .between ⟨a, hmem, ha.1.2⟩ ?_ (fun x hx => hbefore _ ⟨x, hx, rfl⟩)
      (fun x hx => hbehind _ ⟨x, hx, rfl⟩) fun h => textKey_inj.mp (hself (textKey_mem_points.mpr h))
    rcases hfirst with h | ⟨n, ⟨x, hx, rfl⟩, h⟩
    · exact .inl (textKey_mem_points.mp h)
    · exact .inr ⟨x, hx, h⟩
  · intro hfinds
    cases hfinds with
    | between _ hfirst hbefore hbehind hself =>
      have hright := haround.mpr ⟨?_, ?_, ?_, ?_⟩
      · exact ⟨hright.1, hright.2, textKey_mem_points.mpr hmem⟩
      · rcases hfirst with h | ⟨x, hx, h⟩
        · exact .inl (textKey_mem_points.mpr h)
        · exact .inr ⟨_, textKey_mem_points.mpr hx, h⟩
      · rintro n ⟨x, hx, rfl⟩
        exact hbefore x hx
      · rintro n ⟨x, hx, rfl⟩
        exact hbehind x hx
      · exact fun h => congrArg textKey (hself (textKey_mem_points.mp h))
    | apexOnly _ hall hsought => exact absurd (not_apexOnly hnamed hall hsought) hbeyond
    | root _ _ hlast => exact absurd ha.1.2 (not_lt.mpr (hlast a hmem))
    | topLevel _ _ _ honly =>
      rcases honly a hmem with rfl | rfl
      · exact absurd ha.1.2 (not_lt_nil _)
      · exact absurd ha.1.2 (lt_irrefl _)

/-- Nothing is behind what is looked for, in the root zone. -/
theorem root_finds_iff (hnamed : ∀ bdr ∈ zone, bdr.qname = [] → bdr.named = true)
    (hbeyond : ¬((∀ bdr ∈ zone, bdr.place < textKey (sought zonename qname)) ∧
      ∀ bdr ∈ zone.getLast?, bdr.named = true))
    (hroot : d_name = []) (hlabels : (dotLabels zonename).length = (dotLabels d_name).length)
    (hb : FoundBefore (points textKey (storedNames zone)) [] (textKey (sought zonename qname)) (textKey b))
    (hlast : ∀ n ∈ points textKey (storedNames zone), n ≤ textKey (sought zonename qname)) :
    IsPred (points textKey (storedNames zone)) (textKey (belongs zonename qname)) (textKey b) ∧
        IsSucc (points textKey (storedNames zone)) [] (textKey (belongs zonename qname)) (textKey []) ∧
          textKey [] ∈ points textKey (storedNames zone) ↔
      FindsNeighbours d_name zonename zone qname := by
  have haround := last_around_iff (x := textKey (belongs zonename qname)) nil_le_key hb hlast
  refine haround.trans ?_
  constructor
  · rintro ⟨hapex, hbelongs, hself⟩
    refine .root hroot (textKey_mem_points (x := []).mp hapex) (fun x hx => hlast _ ⟨x, hx, rfl⟩)
      (fun x hx => hbelongs _ ⟨x, hx, rfl⟩)
      (fun h => textKey_inj.mp (hself (textKey_mem_points.mpr h))) ?_
    by_contra hrest
    obtain ⟨hplace, hnot⟩ := not_or.mp hrest
    refine hbeyond ⟨fun bdr hbdr => ?_, fun bdr hbdr => ?_⟩
    · exact not_le.mp fun hle => hplace ⟨bdr, hbdr, hle⟩
    · by_contra hno
      exact hnot ⟨bdr, hbdr, Bool.eq_false_iff.mpr hno⟩
  · intro hfinds
    cases hfinds with
    | between hlater =>
      obtain ⟨x, hx, h⟩ := hlater
      exact absurd h (not_lt.mpr (hlast _ ⟨x, hx, rfl⟩))
    | apexOnly _ hall hsought => exact absurd (not_apexOnly hnamed hall hsought) hbeyond
    | root _ hapex _ hbelongs hself =>
      refine ⟨textKey_mem_points.mpr hapex, ?_, fun h => congrArg textKey (hself (textKey_mem_points.mp h))⟩
      rintro n ⟨x, hx, rfl⟩
      exact hbelongs x hx
    | topLevel hlabel =>
      rw [hlabels, hroot] at hlabel
      cases hlabel

/-- What is looked for, and where it belongs. -/
theorem sought_eq (hzone : PlainName zonename) (hplain : PlainName qname)
    (hunder : AtOrBelow qname zonename) :
    sought zonename qname =
      if relativeLabels zonename qname = [] ∧ qname ≠ zonename then toLower zonename
      else joinWith dot (lowerLabels (relativeLabels zonename qname)) := by
  obtain ⟨B, hsplit, hB⟩ := exists_split hzone hplain hunder
  have hne : ∀ l ∈ relativeLabels zonename qname ++ B, l ≠ [] := by
    rw [← hsplit]
    exact fun l hl => (hplain.label l hl).ne_nil
  unfold sought
  rw [makeRelative_eq hzone hne hB (by rw [← hsplit, hplain.labels])]
  split
  · next h =>
    rw [h.1, nil_append] at hsplit
    rw [← hplain.labels, toLower_joinWith (by decide), hsplit, hB, ← toLower_joinWith (by decide),
      hzone.labels]
  · exact toLower_joinWith (by decide) _

/-- Nothing is behind what is looked for, in another zone; `l` is the name of the first record. -/
theorem topLevel_finds_iff {l : Octets} (hl : PlainLabel l)
    (hnamed : ∀ bdr ∈ zone, bdr.qname = [] → bdr.named = true)
    (hbeyond : ¬((∀ bdr ∈ zone, bdr.place < textKey (sought zonename qname)) ∧
      ∀ bdr ∈ zone.getLast?, bdr.named = true))
    (hname : toLower d_name = toLower zonename) (hzone : PlainName zonename)
    (hplain : PlainName qname) (hunder : AtOrBelow qname zonename)
    (hfirst : [] ∈ storedNames zone → l = d_name)
    (hb : FoundBefore (points textKey (storedNames zone)) [] (textKey (sought zonename qname)) (textKey b))
    (hlast : ∀ n ∈ points textKey (storedNames zone), n ≤ textKey (sought zonename qname)) :
    IsPred (points textKey (storedNames zone)) (textKey (belongs zonename qname)) (textKey b) ∧
        IsSucc (points textKey (storedNames zone)) [] (textKey (belongs zonename qname))
          (textKey (toLower l)) ∧ textKey (toLower l) ∈ points textKey (storedNames zone) ↔
      FindsNeighbours d_name zonename zone qname := by
  have hne : textKey (toLower l) ≠ [] := fun h => hl.toLower.ne_nil (textKey_inj.mp (h.trans rfl))
  have hsought := sought_eq hzone hplain hunder
  refine (wrong_around_iff (x := textKey (belongs zonename qname)) nil_le_key hb hlast hne).trans ?_
  constructor
  · rintro ⟨hkey, hself, hlt, hbmem, hbefore⟩
    have heq : toLower l = sought zonename qname := textKey_inj.mp hkey
    have hone : dotLabels (toLower l) = [toLower l] :=
      dotLabels_of_plain (L := [toLower l]) fun l' hl' =>
        mem_singleton.mp hl' ▸ hl.toLower
    by_cases hcase : relativeLabels zonename qname = [] ∧ qname ≠ zonename
    · rw [if_pos hcase] at hsought
      have hbelongs : textKey (belongs zonename qname) = [] := by
        unfold belongs
        rw [hcase.1]
        rfl
      rw [hbelongs] at hbefore
      have honly : ∀ x ∈ storedNames zone, x = [] ∨ x = sought zonename qname := by
        intro x hx
        rcases lt_or_eq_of_le (hlast _ ⟨x, hx, rfl⟩) with hxlt | hxeq
        · exact .inl (textKey_inj.mp (le_antisymm (hbefore _ ⟨x, hx, rfl⟩ hxlt) (nil_le_key _)))
        · exact .inr (textKey_inj.mp hxeq)
      have hapex : [] ∈ storedNames zone := by
        rcases hb with hgreatest | ⟨hnil, -⟩
        · rcases honly b (textKey_mem_points.mp hbmem) with rfl | rfl
          · exact textKey_mem_points.mp hbmem
          · exact absurd hgreatest.1.2 (lt_irrefl _)
        · rw [hnil] at hbmem
          exact textKey_mem_points (x := []).mp hbmem
      refine .topLevel ?_ hcase.2 hcase.1 honly hapex (textKey_mem_points.mp hself)
      have hlabels := dotLabels_of_plain (lowerLabels_plain hzone.label)
      rw [← toLower_joinWith (by decide), hzone.labels, ← hsought, ← heq, hone] at hlabels
      have hlength := congrArg List.length hlabels
      unfold lowerLabels at hlength
      rw [length_map] at hlength
      exact hlength.symm
    · -- a single label is looked for where it belongs
      rw [if_neg hcase] at hsought
      have hrelative : ∀ l ∈ relativeLabels zonename qname, PlainLabel l := relativeLabels_plain hplain
      have hlabels := dotLabels_of_plain
        (lowerLabels_plain hrelative)
      rw [← hsought, ← heq, hone] at hlabels
      have hbelongs : belongs zonename qname = sought zonename qname := by
        unfold belongs
        rw [← hlabels, ← heq]
        rfl
      rw [hbelongs] at hlt
      exact absurd hlt (lt_irrefl _)
  · intro hfinds
    cases hfinds with
    | between hlater =>
      obtain ⟨x, hx, h⟩ := hlater
      exact absurd h (not_lt.mpr (hlast _ ⟨x, hx, rfl⟩))
    | apexOnly _ hall hsought' => exact absurd (not_apexOnly hnamed hall hsought') hbeyond
    | root hroot hapex =>
      rw [hfirst hapex, hroot] at hl
      exact absurd rfl hl.ne_nil
    | topLevel _ hcase hrelative honly hapex hself =>
      rw [if_pos ⟨hrelative, hcase⟩] at hsought
      have heq : toLower l = sought zonename qname := by rw [hsought, ← hname, hfirst hapex]
      have hbelongs : textKey (belongs zonename qname) = [] := by
        unfold belongs
        rw [hrelative]
        rfl
      rw [heq] at hne
      refine ⟨congrArg textKey heq, textKey_mem_points.mpr hself, ?_, ?_, ?_⟩
      · rw [hbelongs]
        exact lt_of_le_of_ne (nil_le_key _) hne.symm
      · rcases hb with hgreatest | ⟨hnil, -⟩
        · exact hgreatest.1.1
        · rw [hnil]
          exact textKey_mem_points.mpr hapex
      · rintro n ⟨x, hx, rfl⟩ hlt
        rcases honly x hx with rfl | rfl
        · exact nil_le_key _
        · exact absurd hlt (lt_irrefl _)

theorem length_dotLabels_of_toLower (hname : toLower d_name = toLower zonename) (hdomain : PlainName d_name)
    (hzone : PlainName zonename) : (dotLabels zonename).length = (dotLabels d_name).length := by
  have hlower : ∀ t : Octets, PlainName t → lowerLabels (dotLabels t) = dotLabels (toLower t) := by
    intro t ht
    have hlabels := dotLabels_of_plain (lowerLabels_plain ht.label)
    rw [← toLower_joinWith (by decide), ht.labels] at hlabels
    exact hlabels.symm
  have hsame : lowerLabels (dotLabels zonename) = lowerLabels (dotLabels d_name) := by
    rw [hlower zonename hzone, hlower d_name hdomain, hname]
  have hlength := congrArg List.length hsame
  unfold lowerLabels at hlength
  rwa [length_map, length_map] at hlength

theorem dotConcat_nil (d : Octets) : dotConcat [] d = d := by
  unfold dotConcat
  rw [if_pos (.inl rfl), nil_append]

/-- The full name of the first record. -/
theorem firstOwner (hdomain : PlainName d_name) (hx : StoredName x) :
    ∃ W, (∀ l ∈ W, PlainLabel l) ∧ (W = [] → d_name = []) ∧
      dotConcat (labelReverse x) d_name = joinWith dot W := by
  obtain ⟨M, hM, -, rfl⟩ := hx
  have hrev : ∀ l ∈ M.reverse, PlainLabel l := fun l hl => hM l (mem_reverse.mp hl)
  refine ⟨M.reverse ++ dotLabels d_name, fun l hl =>
    (mem_append.mp hl).elim (hrev l) (hdomain.label l), fun hnil => ?_, ?_⟩
  · rw [← hdomain.labels, (append_eq_nil_iff.mp hnil).2]
    rfl
  · rw [labelReverse_blanks hM, ← dotConcat_joinWith (fun l hl => (hrev l hl).ne_nil)
      (fun l hl => (hdomain.label l hl).ne_nil), hdomain.labels]

end Neighbours

end Bind2Backend

end PowerDNS
