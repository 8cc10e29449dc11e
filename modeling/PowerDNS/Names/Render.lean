import PowerDNS.Lib.CompressedName
import PowerDNS.Names.Text

/-!
# Label sequences as text

The text of a name as the packet reader produces it: each label with its dots and
backslashes escaped, and a dot behind it (`dottedText`). The authoritative server strips
the last dot, so the writer sees texts of both kinds; `Name` is a label sequence together
with the way it is written, and `Name.text` the text. `labelsOf_text` says that nothing is
lost.
-/

namespace PowerDNS

open List

open CompressedName (IsLabel)

/-- A label with its dots and backslashes escaped. -/
def escapeLabel : Octets → Octets
  | [] => []
  | c :: l => (if c = dot ∨ c = backslash then [backslash, c] else [c]) ++ escapeLabel l

/-- The text of a label sequence with a dot behind every label. -/
def dottedText : List Octets → Octets
  | [] => []
  | l :: ls => escapeLabel l ++ dot :: dottedText ls

/-- The text of a label sequence, with or without the last dot. -/
def labelsText (dotted : Bool) (ls : List Octets) : Octets :=
  if dotted then dottedText ls else (dottedText ls).dropLast

/-- A name: non-empty labels of at most 63 octets, written with or without a dot at the
end. -/
structure Name where
  labels : List Octets
  dotted : Bool
  wf : ∀ l ∈ labels, IsLabel l

namespace Name

/-- The name as a text. The root is `.` or empty. -/
def text (n : Name) : Octets :=
  if n.labels = [] then (if n.dotted then [dot] else []) else labelsText n.dotted n.labels

end Name

/-! ### Escaping -/

@[simp] theorem escapeLabel_nil : escapeLabel [] = [] := rfl

theorem escapeLabel_append (l l' : Octets) :
    escapeLabel (l ++ l') = escapeLabel l ++ escapeLabel l' := by
  induction l with
  | nil => rfl
  | cons c l ih => simp [escapeLabel, ih]

@[simp] theorem escapeLabel_eq_nil {l : Octets} : escapeLabel l = [] ↔ l = [] := by
  cases l with
  | nil => simp
  | cons c l =>
    unfold escapeLabel
    split <;> simp

theorem length_le_escapeLabel (l : Octets) : l.length ≤ (escapeLabel l).length := by
  induction l with
  | nil => exact le_rfl
  | cons c l ih =>
    unfold escapeLabel
    split <;> simp only [length_append, length_cons, length_nil] <;> omega

/-- Reading an escaped label leaves the escaping state as it was. -/
@[simp] theorem danglingEscape_escapeLabel (l t : Octets) :
    danglingEscape false (escapeLabel l ++ t) = danglingEscape false t := by
  induction l with
  | nil => rfl
  | cons c l ih =>
    unfold escapeLabel
    split
    next => simpa [danglingEscape] using ih
    next hc =>
      have hne : (c == backslash) = false := beq_false_of_ne fun h => hc (.inr h)
      simpa [danglingEscape, hne] using ih

/-- Reading an escaped label adds its octets to the label being read. -/
@[simp] theorem splitLabels_escapeLabel (cur l t : Octets) :
    splitLabels false cur (escapeLabel l ++ t) = splitLabels false (cur ++ l) t := by
  induction l generalizing cur with
  | nil => simp
  | cons c l ih =>
    unfold escapeLabel
    split
    next =>
      simp only [cons_append, nil_append, splitLabels, if_true]
      rw [ih, append_assoc, singleton_append]
    next hc =>
      rw [not_or] at hc
      simp only [cons_append, nil_append, splitLabels, if_neg hc.1, if_neg hc.2]
      rw [ih, append_assoc, singleton_append]

theorem danglingEscape_toLower (esc : Bool) (t : Octets) :
    danglingEscape esc (toLower t) = danglingEscape esc t := by
  induction t generalizing esc with
  | nil => rfl
  | cons c t ih =>
    have hc : (dnsTolower c == backslash) = (c == backslash) := by
      rw [Bool.eq_iff_iff, beq_iff_eq, beq_iff_eq, dnsTolower_eq_backslash]
    rw [toLower_cons, danglingEscape, danglingEscape, hc, ih]

/-! ### Texts of label sequences -/

@[simp] theorem dottedText_nil : dottedText [] = [] := rfl

@[simp] theorem dottedText_cons (l : Octets) (ls : List Octets) :
    dottedText (l :: ls) = escapeLabel l ++ dot :: dottedText ls := rfl

variable {ls : List Octets}

theorem dottedText_ne_nil (h : ls ≠ []) : dottedText ls ≠ [] := by
  cases ls with
  | nil => exact absurd rfl h
  | cons l ls => simp

theorem dottedText_eq_append_dot (h : ls ≠ []) :
    dottedText ls = (dottedText ls).dropLast ++ [dot] := by
  induction ls with
  | nil => exact absurd rfl h
  | cons l ls ih =>
    cases ls with
    | nil => simp
    | cons l' ls =>
      have hrest := ih (cons_ne_nil l' ls)
      rw [dottedText_cons l, dropLast_append_of_ne_nil (by simp),
        dropLast_cons_of_ne_nil (dottedText_ne_nil (cons_ne_nil l' ls)),
        append_assoc, cons_append, ← hrest]

@[simp] theorem labelsText_nil (dotted : Bool) : labelsText dotted [] = [] := by
  cases dotted <;> rfl

/-- The text of a sequence begins with its first label. What follows, after a dot, is the
text of the others. -/
theorem labelsText_cons (dotted : Bool) (l : Octets) (ls : List Octets) :
    labelsText dotted (l :: ls) = escapeLabel l ++
      (if dotted ∨ ls ≠ [] then dot :: labelsText dotted ls else []) := by
  cases dotted with
  | true => simp [labelsText]
  | false =>
    cases ls with
    | nil => simp [labelsText]
    | cons l' ls =>
      rw [labelsText, if_neg Bool.false_ne_true, dottedText_cons l,
        dropLast_append_of_ne_nil (by simp),
        dropLast_cons_of_ne_nil (dottedText_ne_nil (cons_ne_nil l' ls)),
        if_pos (.inr (cons_ne_nil l' ls))]
      rfl

theorem labelsText_ne_nil {dotted : Bool} {l : Octets} (hl : l ≠ []) :
    labelsText dotted (l :: ls) ≠ [] := by
  rw [labelsText_cons]
  intro h
  exact hl (escapeLabel_eq_nil.mp (append_eq_nil_iff.mp h).1)

@[simp] theorem drop_labelsText (dotted : Bool) (l : Octets) (ls : List Octets) :
    (labelsText dotted (l :: ls)).drop ((escapeLabel l).length + 1) = labelsText dotted ls := by
  rw [labelsText_cons, ← drop_drop, drop_left]
  split
  next => rfl
  next h =>
    rw [not_or, not_not] at h
    rw [h.2, labelsText_nil]
    rfl

@[simp] theorem take_labelsText (dotted : Bool) (l : Octets) (ls : List Octets) :
    (labelsText dotted (l :: ls)).take (escapeLabel l).length = escapeLabel l := by
  rw [labelsText_cons, take_left]

theorem danglingEscape_labelsText (dotted : Bool) (ls : List Octets) :
    danglingEscape false (labelsText dotted ls) = false := by
  induction ls with
  | nil => simp [danglingEscape]
  | cons l ls ih =>
    rw [labelsText_cons, danglingEscape_escapeLabel]
    split
    next => simpa [danglingEscape, beq_false_of_ne dot_ne_backslash] using ih
    next => rfl

/-- The labels of the text of a label sequence are that sequence. -/
theorem splitLabels_labelsText (dotted : Bool)
    (hls : ∀ l ∈ ls, l ≠ []) : splitLabels false [] (labelsText dotted ls) = ls := by
  induction ls with
  | nil => simp [splitLabels]
  | cons l ls ih =>
    have hrest := ih fun l' hl' => hls l' (mem_cons_of_mem _ hl')
    rw [labelsText_cons, splitLabels_escapeLabel, nil_append]
    split
    next => simp [splitLabels, dot_ne_backslash, hrest]
    next h =>
      rw [not_or, not_not] at h
      simp [splitLabels, h.2, hls l mem_cons_self]

/-- A text of a label sequence is the root's only for the root. -/
theorem labelsText_ne_root {dotted : Bool} {l : Octets} (hl : l ≠ []) :
    labelsText dotted (l :: ls) ≠ [dot] := by
  intro h
  obtain ⟨c, l, rfl⟩ := exists_cons_of_ne_nil hl
  rw [labelsText_cons, escapeLabel] at h
  split at h
  next hc => simp at h
  next hc =>
    rw [not_or] at hc
    simp only [cons_append, nil_append, List.cons.injEq] at h
    exact hc.1 h.1

/-- **Texts lose nothing.** The labels of the text of a name are the labels of the name. -/
theorem Name.labelsOf_text (n : Name) : labelsOf n.text = n.labels := by
  obtain ⟨ls, dotted, hls⟩ := n
  unfold Name.text labelsOf
  cases ls with
  | nil => cases dotted <;> simp [splitLabels]
  | cons l ls =>
    have hl := hls l mem_cons_self
    simp only [cons_ne_nil, if_false, if_neg (labelsText_ne_root hl.1)]
    exact splitLabels_labelsText dotted fun l' hl' => (hls l' hl').1

end PowerDNS
