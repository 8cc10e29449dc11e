import PowerDNS.Auth.Zone
import PowerDNS.Packet.NameEncoders
import PowerDNS.Recursor.Resolution

/-!
# Names as texts and names as label sequences

The packet reader makes a text of the labels it reads: the dots and backslashes in a label are
escaped, and a dot stands behind each label. `dottedEndsOn` and `chopOffDotted` work on such a
text, `endsOn` and `chopOff` on what `stripDot` leaves of it. All four look for plain dots.

`RespectsLabels` is what they are for: the suffix test compares label sequences, and chopping
takes one label at a time and ends at the root. `respectsLabels_iff` says when they do so. A dot
inside a label is taken for the end of the label; it does no harm only as the last octet of the
last label, where what is left behind it is the root.
-/

namespace PowerDNS

open List

/-- `stripDot` of `misc.cc`. -/
def stripDot (dom : Octets) : Octets := if dom.getLast? = some dot then dom.dropLast else dom

/-- A name as the packet reader finds it: labels, none of which is empty. -/
structure ReadName where
  labels : List Octets
  nonempty : ∀ l ∈ labels, l ≠ []

namespace ReadName

/-- The text that `getLabelFromContent` returns. -/
def text (n : ReadName) : Octets := readText [] n.labels

/-- The name without its first `k` labels. -/
def drop (k : Nat) (n : ReadName) : ReadName where
  labels := n.labels.drop k
  nonempty l hl := n.nonempty l (mem_of_mem_drop hl)

end ReadName

/-- Chopping a number of times; `none` once it has returned `false`. -/
def chopTimes (chopOff : Octets → Option Octets) : Nat → Octets → Option Octets
  | 0, domain => some domain
  | k + 1, domain => (chopOff domain).bind (chopTimes chopOff k)

/-- The suffix test is that of the label sequences, and chopping takes the labels one by one down
to the root, where it returns `false`. -/
structure RespectsLabels (endsOn : Octets → Octets → Bool) (chopOff : Octets → Option Octets)
    (text : ReadName → Octets) (a b : ReadName) : Prop where
  suffix : endsOn (text a) (text b) = true ↔ lowerLabels b.labels <:+ lowerLabels a.labels
  chop : ∀ k ≤ a.labels.length, chopTimes chopOff k (text a) = some (text (a.drop k))
  root : chopTimes chopOff (a.labels.length + 1) (text a) = none

namespace LabelView

/-! ### The two forms of the text -/

/-- The text of the root. -/
def rootText (dotted : Bool) : Octets := if dotted then [dot] else []

/-- The text of a name with or without the last dot. -/
def nameText (dotted : Bool) (ls : List Octets) : Octets :=
  if labelsText dotted ls = [] then rootText dotted else labelsText dotted ls

/-- The suffix test for a form. -/
def suffixTest (dotted : Bool) : Octets → Octets → Bool := if dotted then dottedEndsOn else endsOn

/-- The chopping for a form. -/
def chopText (dotted : Bool) : Octets → Option Octets := if dotted then chopOffDotted else chopOff

variable {dotted : Bool} {l : Octets} {ls : List Octets}

@[simp] theorem nameText_nil : nameText dotted [] = rootText dotted := by simp [nameText]

theorem nameText_cons (hl : l ≠ []) : nameText dotted (l :: ls) = labelsText dotted (l :: ls) :=
  if_neg (labelsText_ne_nil hl)

theorem text_eq (n : ReadName) : n.text = nameText true n.labels := rfl

theorem stripDot_text (n : ReadName) : stripDot n.text = nameText false n.labels := by
  obtain ⟨ls, hls⟩ := n
  cases ls with
  | nil => rfl
  | cons l ls =>
    have hl := hls l mem_cons_self
    have hlast := dottedText_eq_append_dot (cons_ne_nil l ls)
    rw [text_eq, nameText_cons hl, nameText_cons hl]
    show stripDot (dottedText (l :: ls)) = (dottedText (l :: ls)).dropLast
    rw [stripDot, if_pos]
    rw [hlast]
    exact getLast?_concat

/-- What follows the first label in the text of a name. -/
theorem nameText_split (hl : l ≠ []) : nameText dotted (l :: ls) = escapeLabel l ++
    (if dotted ∨ ls ≠ [] then dot :: labelsText dotted ls else []) := by
  rw [nameText_cons hl, labelsText_cons]

/-! ### Chopping -/

theorem idxOf?_dot {p : Octets} (hp : dot ∉ p) (r : Octets) : (p ++ dot :: r).idxOf? dot = some p.length := by
  rw [idxOf?_eq_some_iff]
  refine ⟨by simp, by simp, fun j hj he => hp ?_⟩
  rw [getElem_append_left hj] at he
  exact he ▸ getElem_mem hj

/-- Both functions cut behind the first dot. -/
theorem chopText_cut {p r : Octets} (hp : dot ∉ p) (hfirst : p ≠ []) :
    chopText dotted (p ++ dot :: r) = some (if r = [] then rootText dotted else r) := by
  have hne : p ++ dot :: r ≠ [] := by simp
  have hroot : p ++ dot :: r ≠ [dot] := by
    obtain ⟨c, p, rfl⟩ := exists_cons_of_ne_nil hfirst
    simp
  cases dotted with
  | true =>
    show chopOffDotted (p ++ dot :: r) = _
    rw [chopOffDotted, if_neg (not_or.mpr ⟨hne, hroot⟩), idxOf?_dot hp]
    have hlen : (p ++ dot :: r).length = p.length + 1 + r.length := by
      rw [length_append, length_cons, Nat.add_assoc, Nat.add_comm 1]
    have hdrop : (p ++ dot :: r).drop (p.length + 1) = r := by
      rw [← drop_drop, drop_left]
      rfl
    cases r with
    | nil => exact if_pos (by rw [hlen]; rfl)
    | cons c r =>
      have hmore : p.length ≠ (p ++ dot :: c :: r).length - 1 := by
        rw [hlen, length_cons]
        omega
      show (if p.length = _ then _ else _) = _
      rw [if_neg hmore, hdrop, if_neg (cons_ne_nil c r)]
  | false =>
    show chopOff (p ++ dot :: r) = _
    have hall : ∀ c ∈ p, decide (c ≠ dot) = true := fun c hc => decide_eq_true fun e => hp (e ▸ hc)
    rw [chopOff, if_neg hne, dropWhile_append_of_pos hall, dropWhile_cons_of_neg (by simp)]
    cases r <;> rfl

/-- Without a dot there is nothing left. -/
theorem chopOff_last {p : Octets} (hp : dot ∉ p) (hne : p ≠ []) : chopOff p = some [] := by
  have hall : ∀ c ∈ p, decide (c ≠ dot) = true := fun c hc => decide_eq_true fun e => hp (e ▸ hc)
  rw [chopOff, if_neg hne, dropWhile_eq_nil_iff.mpr hall]
  rfl

theorem chopText_root : chopText dotted (rootText dotted) = none := by cases dotted <;> decide

/-- **One step.** The chopping removes the first label exactly when no dot in it ends it too
early. -/
theorem chopText_iff (hl : l ≠ []) (hls : ∀ l' ∈ ls, l' ≠ []) :
    chopText dotted (nameText dotted (l :: ls)) = some (nameText dotted ls) ↔
      dot ∉ l.dropLast ∧ (ls ≠ [] → dot ∉ l) := by
  have hescape : escapeLabel l ≠ [] := mt escapeLabel_eq_nil.mp hl
  by_cases hdot : dot ∈ l
  · obtain ⟨p, q, rfl, hp⟩ := eq_append_cons_of_mem hdot
    have hcut : escapeLabel (p ++ dot :: q) = (escapeLabel p ++ [backslash]) ++ dot :: escapeLabel q := by
      rw [escapeLabel_append, escapeLabel, if_pos (Or.inl rfl)]
      simp
    have hplain : dot ∉ escapeLabel p ++ [backslash] := by
      simpa [dot_ne_backslash] using mt (mem_escapeLabel dot_ne_backslash).mp hp
    have hlast : dot ∉ (p ++ dot :: q).dropLast ↔ q = [] := by
      cases q with
      | nil => simp [hp]
      | cons c q =>
        simp
    rw [nameText_split hl, hcut, append_assoc, cons_append, chopText_cut hplain (by simp), hlast,
      imp_not_comm, imp_iff_right hdot, not_not]
    cases ls with
    | nil =>
      cases dotted <;> cases q <;> simp [rootText]
    | cons l' ls =>
      -- what is left begins inside the first label, and is too long
      have hne : l' :: ls ≠ [] := cons_ne_nil l' ls
      refine iff_of_false (fun h => ?_) fun h => hne h.2
      rw [if_pos (Or.inr hne), if_neg (by simp), nameText_cons (hls l' mem_cons_self)] at h
      have hlen := congrArg List.length (Option.some.inj h)
      rw [length_append, length_cons] at hlen
      omega
  · have hplain : dot ∉ escapeLabel l := mt (mem_escapeLabel dot_ne_backslash).mp hdot
    refine iff_of_true ?_ ⟨mt mem_of_mem_dropLast hdot, fun _ => hdot⟩
    rw [nameText_split hl]
    split
    next => rw [chopText_cut hplain hescape, nameText]
    next h =>
      rw [not_or, not_not] at h
      obtain ⟨hundotted, rfl⟩ := h
      obtain rfl := Bool.eq_false_of_not_eq_true hundotted
      rw [append_nil, nameText_nil]
      exact chopOff_last hplain hescape

/-- No octet but the last of the last label is a dot. -/
theorem dot_flatten (hls : ∀ l' ∈ ls, l' ≠ []) : dot ∉ (l :: ls).flatten.dropLast ↔
    (dot ∉ l.dropLast ∧ (ls ≠ [] → dot ∉ l)) ∧ dot ∉ ls.flatten.dropLast := by
  cases ls with
  | nil => simp
  | cons l' ls =>
    have hne : (l' :: ls).flatten ≠ [] := by simp [hls l' mem_cons_self]
    rw [flatten_cons, dropLast_append_of_ne_nil hne, mem_append, not_or,
      imp_iff_right (cons_ne_nil l' ls), and_iff_right_of_imp (mt mem_of_mem_dropLast)]

/-- **The run.** Chopping goes through the names above exactly when no step ends a label too
early. -/
theorem chopTimes_iff (hls : ∀ l ∈ ls, l ≠ []) :
    (∀ k ≤ ls.length, chopTimes (chopText dotted) k (nameText dotted ls) = some (nameText dotted (ls.drop k))) ↔
      dot ∉ ls.flatten.dropLast := by
  induction ls with
  | nil =>
    refine iff_of_true (fun k hk => ?_) not_mem_nil
    obtain rfl := Nat.le_zero.mp hk
    rfl
  | cons l ls ih =>
    have hrest : ∀ l' ∈ ls, l' ≠ [] := fun l' hl' => hls l' (mem_cons_of_mem l hl')
    rw [dot_flatten hrest, ← chopText_iff (hls l mem_cons_self) hrest, ← ih hrest]
    constructor
    · intro h
      have hfirst := h 1 (by simp)
      rw [chopTimes] at hfirst
      have hstep : chopText dotted (nameText dotted (l :: ls)) = some (nameText dotted ls) := by
        cases hchop : chopText dotted (nameText dotted (l :: ls)) with
        | none =>
          rw [hchop] at hfirst
          cases hfirst
        | some t =>
          rw [hchop] at hfirst
          exact hfirst
      refine ⟨hstep, fun k hk => ?_⟩
      have hnext := h (k + 1) (Nat.succ_le_succ hk)
      rwa [chopTimes, hstep] at hnext
    · rintro ⟨hstep, hruns⟩ k hk
      cases k with
      | zero => rfl
      | succ k =>
        rw [chopTimes, hstep]
        exact hruns k (Nat.le_of_succ_le_succ hk)

/-- Where chopping goes through the names above it stops behind the root. -/
theorem chopTimes_root (hls : ∀ l ∈ ls, l ≠ []) (h : dot ∉ ls.flatten.dropLast) :
    chopTimes (chopText dotted) (ls.length + 1) (nameText dotted ls) = none := by
  induction ls with
  | nil =>
    rw [nameText_nil, chopTimes, chopText_root]
    rfl
  | cons l ls ih =>
    have hrest : ∀ l' ∈ ls, l' ≠ [] := fun l' hl' => hls l' (mem_cons_of_mem l hl')
    obtain ⟨hstep, hlater⟩ := (dot_flatten hrest).mp h
    rw [length_cons, chopTimes, (chopText_iff (hls l mem_cons_self) hrest).mpr hstep]
    exact ih hrest hlater

/-! ### The suffix tests -/

theorem labelsOf_nameText (hls : ∀ l ∈ ls, l ≠ []) : labelsOf (nameText dotted ls) = ls := by
  cases ls with
  | nil =>
    cases dotted <;> rfl
  | cons l ls =>
    have hl := hls l mem_cons_self
    rw [nameText_cons hl, labelsOf, if_neg (labelsText_ne_root hl)]
    exact splitLabels_labelsText dotted hls

theorem toLower_escapeLabel (l : Octets) : toLower (escapeLabel l) = escapeLabel (toLower l) := by
  induction l with
  | nil => rfl
  | cons c l ih =>
    rw [escapeLabel, toLower_append, ih, toLower_cons, escapeLabel]
    simp only [dnsTolower_eq_dot, dnsTolower_eq_backslash]
    split
    next => rfl
    next => rfl

theorem toLower_labelsText (ls : List Octets) :
    toLower (labelsText dotted ls) = labelsText dotted (lowerLabels ls) := by
  induction ls with
  | nil => simp [lowerLabels]
  | cons l ls ih =>
    rw [labelsText_cons, toLower_append, toLower_escapeLabel]
    show _ = labelsText dotted (toLower l :: lowerLabels ls)
    rw [labelsText_cons]
    have hne : ls ≠ [] ↔ lowerLabels ls ≠ [] := by simp [lowerLabels]
    split
    next h =>
      rw [if_pos (h.imp_right hne.mp), toLower_cons, ih]
      rfl
    next h =>
      rw [if_neg (mt (Or.imp_right hne.mpr) h)]
      rfl

theorem toLower_nameText {ls' : List Octets} (h : lowerLabels ls = lowerLabels ls') :
    toLower (nameText dotted ls) = toLower (nameText dotted ls') := by
  have hnil : ∀ xs : List Octets, labelsText dotted xs = [] ↔ labelsText dotted (lowerLabels xs) = [] := fun xs => by
    rw [← toLower_labelsText, toLower_eq_nil]
  have hroot : toLower (rootText dotted) = rootText dotted := by cases dotted <;> rfl
  have heach : ∀ xs : List Octets, toLower (nameText dotted xs) = nameText dotted (lowerLabels xs) := fun xs => by
    rw [nameText, apply_ite toLower, hroot, toLower_labelsText, nameText]
    exact if_congr (hnil xs) rfl rfl
  rw [heach, heach, h]

theorem suffixTest_iff (domain suffix : Octets) : suffixTest dotted domain suffix = true ↔
    suffix = rootText dotted ∨ toLower domain = toLower suffix ∨ endsOnAfterDot domain suffix = true := by
  have heach : suffixTest dotted domain suffix =
      if suffix = rootText dotted || ciEqual domain suffix then true else endsOnAfterDot domain suffix := by
    cases dotted <;> rfl
  rw [heach, ← ciEqual_iff]
  split
  next h => simpa [or_assoc] using Or.inl h
  next h =>
    rw [Bool.or_eq_true, not_or, decide_eq_true_eq] at h
    simp [h.1, h.2]

/-- The test finds a suffix behind some dot. -/
theorem endsOnAfterDot_iff_exists (domain suffix : Octets) : endsOnAfterDot domain suffix = true ↔
    ∃ pre t, domain = pre ++ dot :: t ∧ toLower t = toLower suffix := by
  rw [endsOnAfterDot_iff]
  constructor
  · rintro ⟨t, hcut, -, ht⟩
    exact ⟨_, t, hcut, ht⟩
  · rintro ⟨pre, t, hcut, ht⟩
    have hlen : t.length = suffix.length := by simpa using congrArg List.length ht
    have hpre : domain.length - suffix.length - 1 = pre.length := by
      rw [hcut, length_append, length_cons]
      omega
    refine ⟨t, ?_, hlen, ht⟩
    rw [hpre, hcut, take_left]

/-- The text of an ancestor stands behind a dot. -/
theorem labelsText_append {xs ys : List Octets} (hxs : xs ≠ []) (hys : ys ≠ []) :
    ∃ pre, labelsText dotted (xs ++ ys) = pre ++ dot :: labelsText dotted ys := by
  induction xs with
  | nil => exact absurd rfl hxs
  | cons x xs ih =>
    have hmore : xs ++ ys ≠ [] := mt (fun h => (append_eq_nil_iff.mp h).2) hys
    rw [cons_append, labelsText_cons, if_pos (.inr hmore)]
    by_cases hxs' : xs = []
    · subst hxs'
      exact ⟨escapeLabel x, rfl⟩
    · obtain ⟨pre, hpre⟩ := ih hxs'
      exact ⟨escapeLabel x ++ dot :: pre, by rw [hpre, append_assoc]; rfl⟩

/-- Nothing that lies above a name is missed. -/
theorem suffixTest_complete {a b : List Octets} (ha : ∀ l ∈ a, l ≠ []) (hb : ∀ l ∈ b, l ≠ [])
    (h : lowerLabels b <:+ lowerLabels a) :
    suffixTest dotted (nameText dotted a) (nameText dotted b) = true := by
  rw [suffixTest_iff]
  cases b with
  | nil => exact .inl nameText_nil
  | cons l ls =>
    obtain ⟨b', ⟨pre, rfl⟩, hsame⟩ := @UnderName.exists_suffix (l :: ls) a h
    have hb' : b' ≠ [] := fun e => by simp [e, sameName, lowerLabels] at hsame
    right
    cases pre with
    | nil => exact .inl (toLower_nameText hsame)
    | cons x pre =>
      right
      obtain ⟨front, hfront⟩ := @labelsText_append dotted _ _ (cons_ne_nil x pre) hb'
      rw [endsOnAfterDot_iff_exists]
      have hwhole : nameText dotted (x :: pre ++ b') = labelsText dotted (x :: pre ++ b') :=
        nameText_cons (ha x mem_cons_self)
      have hpart : nameText dotted b' = labelsText dotted b' := by
        obtain ⟨y, ys, rfl⟩ := exists_cons_of_ne_nil hb'
        exact nameText_cons (ha y (mem_append_right _ mem_cons_self))
      exact ⟨front, nameText dotted b', by rw [hwhole, hfront, hpart], toLower_nameText hsame⟩

/-- The escaped form of a label has a dot where the label has one. -/
theorem dot_dropLast_escapeLabel (h : dot ∉ l.dropLast) : dot ∉ (escapeLabel l).dropLast := by
  rcases eq_nil_or_concat l with rfl | ⟨front, c, rfl⟩
  · exact not_mem_nil
  · rw [concat_eq_append] at h ⊢
    rw [dropLast_concat] at h
    have hfront : dot ∉ escapeLabel front := mt (mem_escapeLabel dot_ne_backslash).mp h
    rw [escapeLabel_append, dropLast_append_of_ne_nil (by simp)]
    have hlast : dot ∉ (escapeLabel [c]).dropLast := by
      unfold escapeLabel
      split <;> simp [dot_ne_backslash]
    exact fun hmem => (mem_append.mp hmem).elim hfront hlast

/-- What stands behind a dot, the end of the text apart, is the text of an ancestor. -/
theorem behind_dot (hls : ∀ l ∈ ls, l ≠ []) (hplain : dot ∉ ls.flatten.dropLast) {pre t : Octets}
    (hcut : nameText dotted ls = pre ++ dot :: t) (ht : t ≠ []) (hroot : t ≠ [dot]) :
    ∃ k, t = nameText dotted (ls.drop k) := by
  induction ls generalizing pre with
  | nil =>
    -- the text of the root is too short
    have hlen := congrArg List.length hcut
    have hpos := length_pos_iff.mpr ht
    cases dotted <;> simp [rootText] at hlen
    omega
  | cons l ls ih =>
    have hrest : ∀ l' ∈ ls, l' ≠ [] := fun l' hl' => hls l' (mem_cons_of_mem l hl')
    obtain ⟨⟨hfirst, hinner⟩, hlater⟩ := (dot_flatten hrest).mp hplain
    have hbehind : ∀ u, nameText dotted (l :: ls) = escapeLabel l ++ dot :: u → u ≠ [] →
        u = nameText dotted ls := by
      intro u hu hne
      rw [nameText_split (hls l mem_cons_self)] at hu
      have hrest' := append_cancel_left hu
      split at hrest'
      next =>
        obtain rfl := (List.cons.inj hrest').2
        rw [nameText, if_neg hne]
      next => cases hrest'
    rcases append_eq_append_iff.mp ((nameText_split (hls l mem_cons_self)).symm.trans hcut) with
      ⟨mid, rfl, hmid⟩ | ⟨mid, hlabel, hmid⟩
    · -- the dot is not in the first label
      cases mid with
      | nil => exact ⟨1, hbehind t (by rw [hcut, append_nil]) ht⟩
      | cons c mid =>
        obtain rfl : c = dot := by
          split at hmid
          next => exact (List.cons.inj hmid).1.symm
          next => cases hmid
        have hu := hbehind (mid ++ dot :: t) (by rw [hcut, append_assoc]; rfl) (by simp)
        obtain ⟨k, hk⟩ := ih hrest hlater hu.symm
        exact ⟨k + 1, hk⟩
    · cases mid with
      | nil =>
        rw [append_nil] at hlabel
        exact ⟨1, hbehind t (by rw [hcut, hlabel]) ht⟩
      | cons c mid =>
        -- the dot ends the first label, which is then the last one
        obtain ⟨rfl, rfl⟩ := List.cons.inj hmid
        have hmem : dot ∈ escapeLabel l := by simp [hlabel]
        obtain rfl : ls = [] := by
          by_contra hne
          exact hinner hne ((mem_escapeLabel dot_ne_backslash).mp hmem)
        have hmidnil : mid = [] := by
          by_contra hne
          refine dot_dropLast_escapeLabel hfirst ?_
          rw [hlabel, dropLast_append_of_ne_nil (cons_ne_nil _ _), dropLast_cons_of_ne_nil hne]
          simp
        subst hmidnil
        cases dotted with
        | true => exact absurd rfl hroot
        | false => exact absurd rfl ht

/-- Nothing else is taken for an ancestor. -/
theorem suffixTest_sound {a b : List Octets} (ha : ∀ l ∈ a, l ≠ []) (hb : ∀ l ∈ b, l ≠ [])
    (hplain : dot ∉ a.flatten.dropLast)
    (h : suffixTest dotted (nameText dotted a) (nameText dotted b) = true) : lowerLabels b <:+ lowerLabels a := by
  have hsame : ∀ k, toLower (nameText dotted (a.drop k)) = toLower (nameText dotted b) →
      lowerLabels b <:+ lowerLabels a := by
    intro k hk
    have hlabels := lowerLabels_congr hk
    rw [labelsOf_nameText fun l hl => ha l (mem_of_mem_drop hl), labelsOf_nameText hb] at hlabels
    rw [← hlabels]
    exact (drop_suffix k a).map _
  cases b with
  | nil => exact nil_suffix
  | cons l ls =>
    have hl := hb l mem_cons_self
    rcases (suffixTest_iff _ _).mp h with hroot | heq | hdot
    · rw [nameText_cons hl] at hroot
      cases dotted with
      | true => exact absurd hroot (labelsText_ne_root hl)
      | false => exact absurd hroot (labelsText_ne_nil hl)
    · exact hsame 0 heq
    · obtain ⟨pre, t, hcut, ht⟩ := (endsOnAfterDot_iff_exists _ _).mp hdot
      rw [nameText_cons hl] at ht
      have hne : t ≠ [] := by
        rintro rfl
        exact labelsText_ne_nil hl ((toLower_eq_nil _).mp ht.symm)
      have hroot : t ≠ [dot] := by
        rintro rfl
        exact labelsText_ne_root hl (toLower_eq_root.mp ht.symm)
      obtain ⟨k, rfl⟩ := behind_dot ha hplain hcut hne hroot
      exact hsame k (by rw [ht, nameText_cons hl])

/-- The two forms of a name are right together. -/
theorem respectsLabels_form (a b : ReadName) {text : ReadName → Octets}
    (htext : ∀ n, text n = nameText dotted n.labels) :
    RespectsLabels (suffixTest dotted) (chopText dotted) text a b ↔ dot ∉ a.labels.flatten.dropLast := by
  constructor
  · intro h
    rw [← @chopTimes_iff dotted a.labels a.nonempty]
    intro k hk
    have hchop := h.chop k hk
    rwa [htext, htext] at hchop
  · intro hplain
    refine ⟨?_, fun k hk => ?_, ?_⟩
    · rw [htext, htext]
      exact ⟨suffixTest_sound a.nonempty b.nonempty hplain, suffixTest_complete a.nonempty b.nonempty⟩
    · rw [htext, htext]
      exact (chopTimes_iff a.nonempty).mpr hplain k hk
    · rw [htext]
      exact chopTimes_root a.nonempty hplain

end LabelView

/-- **When the textual operations respect the labels.** The suffix test and the chopping of either
form do what they do to the label sequences exactly when no label of the name has a dot in it, the
last octet of the last label apart. -/
theorem respectsLabels_iff (a b : ReadName) :
    (RespectsLabels dottedEndsOn chopOffDotted ReadName.text a b ∧
        RespectsLabels endsOn chopOff (fun n => stripDot n.text) a b) ↔
      dot ∉ a.labels.flatten.dropLast := by
  have hdotted : RespectsLabels dottedEndsOn chopOffDotted ReadName.text a b ↔ _ :=
    @LabelView.respectsLabels_form true a b ReadName.text LabelView.text_eq
  have hplain : RespectsLabels endsOn chopOff (fun n => stripDot n.text) a b ↔ _ :=
    @LabelView.respectsLabels_form false a b (fun n => stripDot n.text) LabelView.stripDot_text
  rw [hdotted, hplain, and_self]

/-- The name with the labels `a.example` and `com`. -/
def dottedLabel : ReadName := ⟨[ascii "a.example", ascii "com"], by decide⟩

/-- The name with the labels `example` and `com`. -/
def exampleCom : ReadName := ⟨[ascii "example", ascii "com"], by decide⟩

/-- Read from a packet, the one is taken for a name below the other. -/
theorem dot_in_label :
    getLabelFromContent [9, 97, 46, 101, 120, 97, 109, 112, 108, 101, 3, 99, 111, 109, 0] 3 0 [] 0 =
        .ok (dottedLabel.text, 15) ∧
      getLabelFromContent [7, 101, 120, 97, 109, 112, 108, 101, 3, 99, 111, 109, 0] 3 0 [] 0 =
        .ok (exampleCom.text, 13) ∧
      ¬ RespectsLabels dottedEndsOn chopOffDotted ReadName.text dottedLabel exampleCom ∧
      ¬ RespectsLabels endsOn chopOff (fun n => stripDot n.text) dottedLabel exampleCom ∧
      chopOffDotted dottedLabel.text = some exampleCom.text ∧
      chopOff (stripDot dottedLabel.text) = some (stripDot exampleCom.text) := by
  have hlabels : ¬ lowerLabels exampleCom.labels <:+ lowerLabels dottedLabel.labels := by decide
  refine ⟨by decide, by decide, fun h => hlabels (h.suffix.mp (by decide)),
    fun h => hlabels (h.suffix.mp (by decide)), by decide, by decide⟩

end PowerDNS
