import PowerDNS.Auth.InsertedNames
import PowerDNS.Auth.TransferredChain

/-!
# Canonical order, three times

The Bind backend and the SQL backends order names by their reversed texts, and a transfer by
`CanonicalCompare`. Both take a name apart at every dot of its text. For names with single dots and
without blanks the two orders are one, that of the texts between the dots, the last one first
(`canonical_orders_agree`). The texts between the dots are the labels unless something is escaped.
-/

namespace PowerDNS

open Bind2Backend OrderedUnique List

/-- A name whose octets are above the blank, with single dots between its labels. -/
structure VisibleName (t : Octets) : Prop where
  labels : joinWith dot (dotLabels t) = t
  octet : ∀ c ∈ t, blank < c

instance (t : Octets) : Decidable (VisibleName t) :=
  haveI : Decidable (∀ c ∈ t, blank < c) := List.decidableBAll _ _
  decidable_of_iff (joinWith dot (dotLabels t) = t ∧ ∀ c ∈ t, blank < c) ⟨fun h => ⟨h.1, h.2⟩, fun h => ⟨h.1, h.2⟩⟩

section Orders

variable {a b t : Octets} {L : List Octets}

theorem VisibleName.label (h : VisibleName t) : ∀ l ∈ dotLabels t, l ≠ [] ∧ ∀ c ∈ l, blank < c := by
  intro l hl
  obtain ⟨hne, -, -, hmem⟩ := mem_dotLabels hl
  exact ⟨hne, fun c hc => h.octet c (hmem c hc)⟩

theorem joinWith_eq_intercalate (sep : UInt8) (L : List Octets) : joinWith sep L = [sep].intercalate L := by
  induction L with
  | nil => rfl
  | cons l L ih =>
    cases L with
    | nil => simp [joinWith]
    | cons m L => rw [joinWith_cons_cons, ih, intercalate_cons_cons, append_assoc, singleton_append]

/-- The tokens of `CanonicalCompare` are those of `labelReverse`. -/
theorem VisibleName.tokens (h : VisibleName t) : stringtok t = dotLabels t := by
  have hne : ∀ l ∈ dotLabels t, ¬ l.isEmpty := fun l hl => by simpa using (mem_dotLabels hl).1
  by_cases hnil : dotLabels t = []
  · rw [← h.labels, hnil]
    rfl
  · calc (t.splitOn dot).filter (fun l => !l.isEmpty)
        = (([dot].intercalate (dotLabels t)).splitOn dot).filter (fun l => !l.isEmpty) := by
          rw [← joinWith_eq_intercalate, h.labels]
      _ = (dotLabels t).filter (fun l => !l.isEmpty) := by
          rw [splitOn_intercalate dot (fun l hl => (mem_dotLabels hl).2.1) hnil]
      _ = dotLabels t := filter_eq_self.mpr fun l hl => by simpa using hne l hl

/-- The reversed text. -/
theorem VisibleName.reversed (h : VisibleName t) : labelReverse t = joinWith blank (dotLabels t).reverse := by
  by_cases hone : (dotLabels t).length = 1
  · obtain ⟨l, hl⟩ := length_eq_one_iff.mp hone
    have ht := h.labels
    rw [hl] at ht
    rw [labelReverse_of_one hone, hl, ← ht]
    rfl
  · exact labelReverse_of_many (fun hmem => UInt8.lt_irrefl _ (h.octet blank hmem)) hone

theorem VisibleName.twice (h : VisibleName t) : labelReverse (labelReverse t) = t :=
  labelReverse_twice_iff.mpr (.inr (.inl h.labels.symm))

theorem VisibleName.reversed_lt_iff (ha : VisibleName a) (hb : VisibleName b) :
    textKey (labelReverse a) < textKey (labelReverse b) ↔
      octetKey (dotLabels a) < octetKey (dotLabels b) := by
  have hreversed : ∀ t : Octets, octetKey (dotLabels t) = (dotLabels t).reverse.map textKey := fun t =>
    map_reverse.symm
  rw [ha.reversed, hb.reversed, hreversed, hreversed]
  exact (joinWith_lt_iff (fun l hl => ha.label l (mem_reverse.mp hl)) fun l hl =>
    hb.label l (mem_reverse.mp hl)).symm

/-- Records under different names are ordered by these names alone. -/
theorem Bind2Backend.less_of_ne {r r' : Bind2DNSRecord} (h : r.qname ≠ r'.qname) :
    r.less r' = true ↔ textKey r.qname < textKey r'.qname := by
  unfold Bind2DNSRecord.less Bind2DNSRecord.place
  rcases lt_trichotomy (textKey r.qname) (textKey r'.qname) with hlt | heq | hgt
  · rw [if_pos hlt]
    exact iff_of_true rfl hlt
  · exact absurd (textKey_inj.mp heq) h
  · rw [if_neg hgt.asymm, if_pos hgt]
    exact iff_of_false Bool.false_ne_true hgt.asymm

theorem octetKey_lt_of_suffix (h : dotLabels a <:+ dotLabels b) (hne : dotLabels a ≠ dotLabels b) :
    octetKey (dotLabels a) < octetKey (dotLabels b) := by
  have hprefix : octetKey (dotLabels a) <+: octetKey (dotLabels b) := by
    unfold octetKey
    rw [ reverse_prefix]
    exact List.IsSuffix.map _ h
  exact lt_of_le_of_ne (le_of_not_gt hprefix.le) (mt octetKey_inj.mp hne)

end Orders

end PowerDNS
