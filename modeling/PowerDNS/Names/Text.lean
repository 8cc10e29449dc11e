import PowerDNS.Base.Octets

/-!
# Domain names as text

Between the packet and the caches a name is a text in which every label is followed by a
dot and a dot or backslash inside a label is written `\.` or `\\`. The suffix tests and
the functions that climb towards the root work on that text (`misc.cc`, `syncres.cc`).

The meaning of such a text is its sequence of labels (`labelsOf`). The suffix test
`dottedEndsOn` looks at one octet only to see whether the shorter name starts at a label
boundary, so it takes an *escaped* dot for a boundary. `BoundaryClean` is the condition
that it does not, and `dottedEndsOn_sound` shows that nothing else can go wrong.
-/

namespace PowerDNS

open List

/-! ### The textual functions -/

/-- The loop at the end of `endsOn` and `dottedEndsOn`, which stops at the end of
`domain`. -/
def tailMatches : Octets → Octets → Bool
  | [], _ => true
  | c :: domain, d :: suffix => dnsTolower c == dnsTolower d && tailMatches domain suffix
  | _ :: _, [] => false

/-- What `endsOn` and `dottedEndsOn` do once the trivial cases are out of the way: the
octet before the last `suffix.size()` ones must be a dot, the rest must match. -/
def endsOnAfterDot (domain suffix : Octets) : Bool :=
  if domain.length ≤ suffix.length then false
  else
    let dpos := domain.length - suffix.length - 1
    if domain.getD dpos 0 ≠ dot then false
    else tailMatches (domain.drop (dpos + 1)) suffix

/-- `dottedEndsOn` of `misc.cc`. -/
def dottedEndsOn (domain suffix : Octets) : Bool :=
  if suffix = [dot] || ciEqual domain suffix then true else endsOnAfterDot domain suffix

/-- `endsOn` of `misc.cc`, for names without trailing dots. -/
def endsOn (domain suffix : Octets) : Bool :=
  if suffix = [] || ciEqual domain suffix then true else endsOnAfterDot domain suffix

/-- `SyncRes::moreSpecificThan` of `syncres.cc`: counts the dots. -/
def moreSpecificThan (a b : Octets) : Bool :=
  let count (s : Octets) : Nat := (if s ≠ [dot] then 1 else 0) + s.count dot
  count a > count b

/-- `isCanonical` of `misc.hh`. -/
def isCanonical (dom : Octets) : Bool := dom.getLast? == some dot

/-! ### The labels of a text -/

theorem dot_ne_backslash : dot ≠ backslash := by decide

/-- The escaping state after reading a text: whether the last octet is a backslash that
escapes the octet to come. -/
def danglingEscape : Bool → Octets → Bool
  | esc, [] => esc
  | esc, c :: t => danglingEscape (!esc && c == backslash) t

/-- The labels of a text read from inside a label: `cur` is what that label has so far,
`esc` tells whether the next octet is escaped. -/
def splitLabels : Bool → Octets → Octets → List Octets
  | esc, cur, [] => if cur = [] && !esc then [] else [cur]
  | true, cur, c :: t => splitLabels false (cur ++ [c]) t
  | false, cur, c :: t =>
    if c = backslash then splitLabels true cur t
    else if c = dot then cur :: splitLabels false [] t
    else splitLabels false (cur ++ [c]) t

/-- The label sequence a text stands for. A dot or backslash after a backslash is part of
its label; the root `.` has no labels. -/
def labelsOf (name : Octets) : List Octets :=
  if name = [dot] then [] else splitLabels false [] name

/-- Labels up to letter case. -/
def lowerLabels (ls : List Octets) : List Octets := ls.map toLower

/-- `name` lies at or below `auth`, compared label by label and without regard to case. -/
def AtOrBelow (name auth : Octets) : Prop :=
  lowerLabels (labelsOf auth) <:+ lowerLabels (labelsOf name)

instance (name auth : Octets) : Decidable (AtOrBelow name auth) :=
  inferInstanceAs (Decidable (_ <:+ _))

/-- The dot in front of the last `suffix.size()` octets of `domain`, where the textual
suffix tests look for a label boundary, is not an escaped one. -/
def BoundaryClean (domain suffix : Octets) : Prop :=
  suffix = [dot] ∨ ciEqual domain suffix = true ∨
    danglingEscape false (domain.take (domain.length - suffix.length - 1)) = false

instance (domain suffix : Octets) : Decidable (BoundaryClean domain suffix) :=
  inferInstanceAs (Decidable (_ ∨ _ ∨ _))

/-! ### Splitting and case -/

@[simp] theorem lowerLabels_append (xs ys : List Octets) :
    lowerLabels (xs ++ ys) = lowerLabels xs ++ lowerLabels ys := map_append

/-- Splitting commutes with case folding: neither the dot nor the backslash has a case. -/
theorem splitLabels_toLower (esc : Bool) (cur t : Octets) :
    splitLabels esc (toLower cur) (toLower t) = lowerLabels (splitLabels esc cur t) := by
  induction t generalizing esc cur with
  | nil => cases cur <;> cases esc <;> simp [splitLabels, lowerLabels]
  | cons c t ih =>
    have hsnoc : toLower cur ++ [dnsTolower c] = toLower (cur ++ [c]) := by simp
    cases esc with
    | true => rw [toLower_cons, splitLabels, hsnoc, ih, splitLabels]
    | false =>
      simp only [toLower_cons, splitLabels, dnsTolower_eq_backslash, dnsTolower_eq_dot]
      split
      · exact ih true cur
      · split
        · simpa [lowerLabels] using ih false []
        · rw [hsnoc, ih]

theorem toLower_eq_root {name : Octets} : toLower name = [dot] ↔ name = [dot] := by
  cases name with
  | nil => simp
  | cons c t => simp

/-- The labels of a text depend on letter case only through the case of the labels. -/
theorem labelsOf_toLower (name : Octets) :
    labelsOf (toLower name) = lowerLabels (labelsOf name) := by
  unfold labelsOf
  by_cases h : name = [dot]
  · simp [h, toLower_eq_root.mpr, lowerLabels]
  · rw [if_neg h, if_neg (mt toLower_eq_root.mp h)]
    exact splitLabels_toLower false [] name

theorem lowerLabels_congr {a b : Octets} (h : toLower a = toLower b) :
    lowerLabels (labelsOf a) = lowerLabels (labelsOf b) := by
  rw [← labelsOf_toLower, ← labelsOf_toLower, h]

/-- A text may be cut at an unescaped dot: its labels are those of the two parts. -/
theorem splitLabels_append_dot {esc : Bool} {pre : Octets} (cur t : Octets)
    (h : danglingEscape esc pre = false) :
    splitLabels esc cur (pre ++ dot :: t) =
      splitLabels esc cur (pre ++ [dot]) ++ splitLabels false [] t := by
  induction pre generalizing esc cur with
  | nil =>
    obtain rfl : esc = false := h
    simp [splitLabels, dot_ne_backslash]
  | cons c pre ih =>
    cases esc with
    | true =>
      exact ih _ (by simpa [danglingEscape] using h)
    | false =>
      simp only [cons_append, splitLabels]
      rw [danglingEscape, Bool.not_false, Bool.true_and] at h
      split
      · next hc => exact ih _ (by simpa [hc] using h)
      · next hc =>
        rw [beq_false_of_ne hc] at h
        split
        · rw [ih _ h, cons_append]
        · exact ih _ h

/-! ### What a textual suffix means -/

theorem tailMatches_iff {a b : Octets} (hlen : a.length = b.length) :
    tailMatches a b = true ↔ toLower a = toLower b := by
  induction a generalizing b with
  | nil =>
    obtain rfl : b = [] := eq_nil_of_length_eq_zero hlen.symm
    simp [tailMatches]
  | cons x a ih =>
    cases b with
    | nil => simp at hlen
    | cons y b => simp [tailMatches, ih (Nat.succ.inj hlen)]

/-- The test behind `endsOn` and `dottedEndsOn` cuts `domain` in front of a dot that is
followed by the octets of `suffix` up to case. -/
theorem endsOnAfterDot_iff (domain suffix : Octets) :
    endsOnAfterDot domain suffix = true ↔
      ∃ t, domain = domain.take (domain.length - suffix.length - 1) ++ dot :: t ∧
        t.length = suffix.length ∧ toLower t = toLower suffix := by
  unfold endsOnAfterDot
  constructor
  · intro h
    split at h
    · cases h
    · next hlen =>
      simp only at h
      split at h
      · cases h
      · next hdot =>
        set dpos := domain.length - suffix.length - 1 with hdpos
        have hlt : dpos < domain.length := by omega
        have hd : domain.drop dpos = dot :: domain.drop (dpos + 1) := by
          rw [drop_eq_getElem_cons hlt]
          have : domain.getD dpos 0 = domain[dpos] := by simp [List.getD, hlt]
          rw [not_not.mp hdot] at this
          rw [← this]
        have hl : (domain.drop (dpos + 1)).length = suffix.length := by
          rw [length_drop]; omega
        refine ⟨domain.drop (dpos + 1), ?_, hl, (tailMatches_iff hl).mp h⟩
        rw [← hd, take_append_drop]
  · rintro ⟨t, hcut, hlen, ht⟩
    have hl := congrArg List.length hcut
    simp only [length_append, length_take, length_cons] at hl
    have hlt : ¬ domain.length ≤ suffix.length := by omega
    set dpos := domain.length - suffix.length - 1 with hdpos
    have hpre : (domain.take dpos).length = dpos := by rw [length_take]; omega
    rw [if_neg hlt]
    have hget : domain.getD dpos 0 = dot := by
      rw [hcut, getD_eq_getElem?_getD, getElem?_append_right (by omega), hpre]
      simp
    have hdrop : domain.drop (dpos + 1) = t := by
      rw [hcut, ← drop_drop, drop_left' hpre]; rfl
    simp only [hget, ne_eq, not_true, if_false, hdrop]
    exact (tailMatches_iff hlen).mpr ht

/-- **Soundness of the textual suffix test.** When the dot it takes for a label boundary
is not an escaped one, a name that `dottedEndsOn` accepts is at or below the suffix,
label by label. -/
theorem dottedEndsOn_sound {domain suffix : Octets} (h : dottedEndsOn domain suffix = true)
    (hc : BoundaryClean domain suffix) : AtOrBelow domain suffix := by
  unfold AtOrBelow
  by_cases hroot : suffix = [dot]
  · simp [hroot, labelsOf, lowerLabels]
  by_cases heq : ciEqual domain suffix = true
  · rw [lowerLabels_congr ((ciEqual_iff _ _).mp heq)]
  have hesc := (hc.resolve_left hroot).resolve_left heq
  have hends : endsOnAfterDot domain suffix = true := by
    simpa [dottedEndsOn, hroot, heq] using h
  obtain ⟨t, hcut, -, ht⟩ := (endsOnAfterDot_iff _ _).mp hends
  set pre := domain.take (domain.length - suffix.length - 1)
  have htroot : t ≠ [dot] := fun e => hroot (toLower_eq_root.mp (by rw [← ht, e]; rfl))
  have hsplit : splitLabels false [] domain =
      splitLabels false [] (pre ++ [dot]) ++ labelsOf t := by
    rw [labelsOf, if_neg htroot, hcut]
    exact splitLabels_append_dot [] t hesc
  rw [← lowerLabels_congr ht]
  by_cases hdom : domain = [dot]
  · -- only an empty suffix is shorter than the root text
    have : t = [] := by
      have := congrArg List.length hcut
      rw [hdom] at this
      simp only [length_append, length_cons, length_nil] at this
      exact eq_nil_of_length_eq_zero (by omega)
    simp [this, labelsOf, splitLabels, lowerLabels]
  · rw [show labelsOf domain = splitLabels false [] domain from if_neg hdom, hsplit,
      lowerLabels_append]
    exact suffix_append _ _

end PowerDNS
