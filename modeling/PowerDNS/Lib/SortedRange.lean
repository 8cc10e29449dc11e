import Mathlib.Data.List.Sort
import Mathlib.Data.List.TakeWhile
import Mathlib.Order.Defs.LinearOrder

/-!
# Ranges of a sorted list

A list whose elements are in the order of their keys: the elements from the first one on that is
not before a key (`lowerBound`), those from the first one on that is behind it (`upperBound`), and
a scan from there that goes on while a condition on the key holds.

On a sorted list all of these can be said by membership: `mem_lowerBound`, `mem_upperBound`, and
`mem_takeWhile_iff` for a scan, which reaches an element exactly when nothing up to its key stops
it. The nearest element of a kind on either side of a key is the one a walk from the key meets first
(`greatest_of_wantedBefore`, `least_of_wantedBehind`).
-/

namespace SortedRange

open List

variable {α κ : Type*} [LinearOrder κ] {key : α → κ} {l : List α} {x : κ}

/-- The elements are in the order of their keys. -/
def Ascending (key : α → κ) (l : List α) : Prop := l.Pairwise fun a b => key a ≤ key b

instance (key : α → κ) (l : List α) : Decidable (Ascending key l) :=
  inferInstanceAs (Decidable (l.Pairwise fun a b => key a ≤ key b))

theorem Ascending.of_cons {a : α} (h : Ascending key (a :: l)) : Ascending key l :=
  (pairwise_cons.mp h).2

theorem Ascending.le {a b : α} (h : Ascending key (a :: l)) (hb : b ∈ a :: l) : key a ≤ key b := by
  rcases mem_cons.mp hb with rfl | hb
  · exact le_rfl
  · exact (pairwise_cons.mp h).1 b hb

/-- Sorting by a relation that compares the keys. -/
theorem ascending_insertionSort {r : α → α → Prop} [DecidableRel r]
    (hr : ∀ a ∈ l, ∀ b ∈ l, r a b ↔ key a ≤ key b) : Ascending key (l.insertionSort r) := by
  have hmap := map_insertionSort r (fun a b => key a ≤ key b) id l hr
  rw [map_id, map_id] at hmap
  rw [hmap]
  exact pairwise_insertionSort _ l

/-- The elements from the first one on whose key is not before `x`. -/
def lowerBound (key : α → κ) (l : List α) (x : κ) : List α := l.dropWhile fun a => key a < x

/-- The elements from the first one on whose key is behind `x`. -/
def upperBound (key : α → κ) (l : List α) (x : κ) : List α := l.dropWhile fun a => key a ≤ x

theorem Ascending.lowerBound (h : Ascending key l) (x : κ) :
    Ascending key (SortedRange.lowerBound key l x) :=
  h.sublist (dropWhile_sublist _)

variable {e : α} {p : α → Bool}

/-- What stands behind the elements for which a condition holds, when it holds of nothing behind an
element for which it does not. -/
theorem mem_dropWhile_iff (h : l.Pairwise fun a b => p b = true → p a = true)
    : e ∈ l.dropWhile p ↔ e ∈ l ∧ p e = false := by
  induction l with
  | nil => simp
  | cons a l ih =>
    obtain ⟨ha, hl⟩ := pairwise_cons.mp h
    cases hpa : p a with
    | true =>
      rw [dropWhile_cons_of_pos hpa, ih hl, mem_cons]
      constructor
      · exact fun ⟨he, hpe⟩ => ⟨.inr he, hpe⟩
      · rintro ⟨rfl | he, hpe⟩
        · rw [hpa] at hpe
          cases hpe
        · exact ⟨he, hpe⟩
    | false =>
      rw [dropWhile_cons_of_neg (by simp [hpa])]
      refine ⟨fun he => ⟨he, ?_⟩, And.left⟩
      rcases mem_cons.mp he with rfl | he
      · exact hpa
      · by_contra hpe
        rw [ha e he (by simpa using hpe)] at hpa
        cases hpa

theorem mem_lowerBound (h : Ascending key l) :
    e ∈ lowerBound key l x ↔ e ∈ l ∧ x ≤ key e := by
  unfold lowerBound
  rw [mem_dropWhile_iff, decide_eq_false_iff_not, not_lt]
  exact h.imp fun hle hlt => decide_eq_true (hle.trans_lt (of_decide_eq_true hlt))

theorem mem_upperBound (h : Ascending key l) :
    e ∈ upperBound key l x ↔ e ∈ l ∧ x < key e := by
  unfold upperBound
  rw [mem_dropWhile_iff, decide_eq_false_iff_not, not_le]
  exact h.imp fun hle hle' => decide_eq_true (hle.trans (of_decide_eq_true hle'))

/-- **A scan** reaches an element when nothing up to its key stops it. -/
theorem mem_takeWhile_iff (h : Ascending key l)
    (hp : ∀ a ∈ l, ∀ b ∈ l, key a = key b → p a = p b) :
    e ∈ l.takeWhile p ↔ e ∈ l ∧ ∀ b ∈ l, key b ≤ key e → p b = true := by
  induction l with
  | nil => simp
  | cons a l ih =>
    have hp' : ∀ a ∈ l, ∀ b ∈ l, key a = key b → p a = p b := fun a ha b hb =>
      hp a (mem_cons_of_mem _ ha) b (mem_cons_of_mem _ hb)
    cases hpa : p a with
    | true =>
      rw [takeWhile_cons_of_pos hpa, mem_cons, mem_cons, ih h.of_cons hp']
      constructor
      · rintro (rfl | ⟨he, hall⟩)
        · refine ⟨.inl rfl, fun b hb hle => ?_⟩
          rw [← hp e mem_cons_self b hb (le_antisymm (h.le hb) hle), hpa]
        · refine ⟨.inr he, fun b hb hle => ?_⟩
          rcases mem_cons.mp hb with rfl | hb
          · exact hpa
          · exact hall b hb hle
      · rintro ⟨rfl | he, hall⟩
        · exact .inl rfl
        · exact .inr ⟨he, fun b hb => hall b (mem_cons_of_mem _ hb)⟩
    | false =>
      rw [takeWhile_cons_of_neg (by simp [hpa])]
      refine iff_of_false not_mem_nil fun ⟨he, hall⟩ => ?_
      rw [hall a mem_cons_self (h.le he)] at hpa
      cases hpa

/-- The elements with the key `x`: from the lower bound to the upper one. -/
def equalRange (key : α → κ) (l : List α) (x : κ) : List α :=
  (lowerBound key l x).takeWhile fun a => key a ≤ x

theorem mem_equalRange (h : Ascending key l) :
    e ∈ equalRange key l x ↔ e ∈ l ∧ key e = x := by
  unfold equalRange
  rw [mem_takeWhile_iff (h.lowerBound x) fun a _ b _ hab => by rw [hab], mem_lowerBound h]
  constructor
  · rintro ⟨⟨he, hle⟩, hall⟩
    exact ⟨he, le_antisymm (of_decide_eq_true (hall e ((mem_lowerBound h).mpr ⟨he, hle⟩) le_rfl)) hle⟩
  · rintro ⟨he, rfl⟩
    exact ⟨⟨he, le_rfl⟩, fun b _ hb => decide_eq_true hb⟩

/-- In the order of the list, these are the elements with that key. -/
theorem equalRange_eq_filter (h : Ascending key l) : equalRange key l x = l.filter fun a => key a = x := by
  induction l with
  | nil => rfl
  | cons a l ih =>
    have hlater := ih h.of_cons
    unfold equalRange lowerBound at hlater ⊢
    rcases lt_trichotomy (key a) x with hlt | heq | hlt
    · simpa [hlt, hlt.ne] using hlater
    · -- nothing is in front of the first one
      have hrest : l.dropWhile (fun b => key b < x) = l := by
        cases l with
        | nil => rfl
        | cons b l => simpa using heq ▸ h.le (mem_cons_of_mem a mem_cons_self)
      rw [hrest] at hlater
      simpa [heq] using hlater
    · have hnone : ∀ b ∈ a :: l, key b ≠ x := fun b hb => (hlt.trans_le (h.le hb)).ne'
      rw [filter_eq_nil_iff.mpr fun b hb => by simpa using hnone b hb]
      simp [hlt.not_gt, hlt.not_ge]

/-- The first element of a list for which a condition does not hold comes before all others. -/
theorem first_of_dropWhile {r : α → α → Prop} {rest : List α}
    (h : l.Pairwise r) (hdrop : l.dropWhile p = e :: rest) :
    e ∈ l ∧ p e = false ∧ ∀ b ∈ l, p b = false → b = e ∨ r e b := by
  induction l with
  | nil => cases hdrop
  | cons a l ih =>
    obtain ⟨ha, hl⟩ := pairwise_cons.mp h
    cases hpa : p a with
    | true =>
      rw [dropWhile_cons_of_pos hpa] at hdrop
      obtain ⟨hmem, hpe, hall⟩ := ih hl hdrop
      refine ⟨mem_cons_of_mem a hmem, hpe, fun b hb hpb => ?_⟩
      rcases mem_cons.mp hb with rfl | hb
      · rw [hpa] at hpb
        cases hpb
      · exact hall b hb hpb
    | false =>
      rw [dropWhile_cons_of_neg (by simp [hpa])] at hdrop
      obtain ⟨rfl, rfl⟩ := List.cons.inj hdrop
      refine ⟨mem_cons_self, hpa, fun b hb _ => ?_⟩
      rcases mem_cons.mp hb with rfl | hb
      · exact .inl rfl
      · exact .inr (ha b hb)

theorem mem_takeWhile_lt (h : Ascending key l) :
    e ∈ l.takeWhile (fun a => key a < x) ↔ e ∈ l ∧ key e < x := by
  rw [mem_takeWhile_iff h fun a _ b _ hab => by rw [hab]]
  refine and_congr_right fun he => ⟨fun hall => of_decide_eq_true (hall e he le_rfl), ?_⟩
  exact fun hlt b _ hle => decide_eq_true (hle.trans_lt hlt)

/-! ### The nearest element on either side of a key -/

/-- The elements before the first one that is not before `x`, from the last one back to the first
one that is wanted. -/
def wantedBefore (key : α → κ) (wanted : α → Bool) (l : List α) (x : κ) : List α :=
  (l.takeWhile fun a => key a < x).reverse.dropWhile fun a => !wanted a

/-- The elements behind `x`, from the first one on that is wanted. -/
def wantedBehind (key : α → κ) (wanted : α → Bool) (l : List α) (x : κ) : List α :=
  (upperBound key l x).dropWhile fun a => !wanted a

section Wanted

variable {wanted : α → Bool} {e : α} {rest : List α}

/-- What stands before `x` with the greatest key. -/
theorem greatest_of_wantedBefore (h : Ascending key l) (hdrop : wantedBefore key wanted l x = e :: rest) :
    e ∈ l ∧ wanted e = true ∧ key e < x ∧
      ∀ b ∈ l, wanted b = true → key b < x → key b ≤ key e := by
  have hpair : (l.takeWhile fun a => key a < x).reverse.Pairwise fun a b => key b ≤ key a :=
    pairwise_reverse.mpr (h.sublist (takeWhile_sublist _))
  obtain ⟨hmem, hwanted, hall⟩ := first_of_dropWhile hpair hdrop
  rw [mem_reverse, mem_takeWhile_lt h] at hmem
  refine ⟨hmem.1, by simpa using hwanted, hmem.2, fun b hb hwb hlt => ?_⟩
  rcases hall b (mem_reverse.mpr ((mem_takeWhile_lt h).mpr ⟨hb, hlt⟩)) (by simp [hwb]) with
    rfl | hle
  · exact le_rfl
  · exact hle

theorem le_of_wantedBefore_eq_nil (h : Ascending key l) (hdrop : wantedBefore key wanted l x = []) :
    ∀ b ∈ l, wanted b = true → x ≤ key b := by
  intro b hb hwanted
  by_contra hlt
  have hnot := dropWhile_eq_nil_iff.mp hdrop b
    (mem_reverse.mpr ((mem_takeWhile_lt h).mpr ⟨hb, not_le.mp hlt⟩))
  rw [hwanted] at hnot
  cases hnot

/-- What stands behind `x` with the least key. -/
theorem least_of_wantedBehind (h : Ascending key l) (hdrop : wantedBehind key wanted l x = e :: rest) :
    e ∈ l ∧ wanted e = true ∧ x < key e ∧
      ∀ b ∈ l, wanted b = true → x < key b → key e ≤ key b := by
  obtain ⟨hmem, hwanted, hall⟩ := first_of_dropWhile (h.sublist (dropWhile_sublist _)) hdrop
  obtain ⟨hmem, hlt⟩ := (mem_upperBound h).mp hmem
  refine ⟨hmem, by simpa using hwanted, hlt, fun b hb hwb hlt => ?_⟩
  rcases hall b ((mem_upperBound h).mpr ⟨hb, hlt⟩) (by simp [hwb]) with rfl | hle
  · exact le_rfl
  · exact hle

theorem le_of_wantedBehind_eq_nil (h : Ascending key l) (hdrop : wantedBehind key wanted l x = []) :
    ∀ b ∈ l, wanted b = true → key b ≤ x := by
  intro b hb hwanted
  by_contra hlt
  have hnot := dropWhile_eq_nil_iff.mp hdrop b
    ((mem_upperBound h).mpr ⟨hb, not_le.mp hlt⟩)
  rw [hwanted] at hnot
  cases hnot

/-- The way back ends at the end of the list when everything is before `x` and the last element is
wanted. -/
theorem length_wantedBefore_eq_iff :
    (wantedBefore key wanted l x).length = l.length ↔
      (∀ a ∈ l, key a < x) ∧ ∀ a ∈ l.getLast?, wanted a = true := by
  unfold wantedBefore
  have hdrop := dropWhile_sublist (fun a => !wanted a) (l := (l.takeWhile fun a => key a < x).reverse)
  have htake := takeWhile_sublist (fun a => decide (key a < x)) (l := l)
  constructor
  · intro hlength
    have hle := hdrop.length_le
    rw [hlength, length_reverse] at hle
    have hall := htake.eq_of_length_le hle
    rw [hall] at hlength hdrop
    have hsame := hdrop.eq_of_length_le (by rw [hlength, length_reverse])
    refine ⟨fun a ha => ?_, fun a ha => ?_⟩
    · rw [← hall] at ha
      exact of_decide_eq_true (mem_takeWhile_imp (p := fun a => decide (key a < x)) ha)
    · rw [← head?_reverse] at ha
      obtain ⟨rest, hrest⟩ : ∃ rest, l.reverse = a :: rest := by
        cases hrev : l.reverse with
        | nil =>
          rw [hrev] at ha
          cases ha
        | cons b rest =>
          rw [hrev] at ha
          obtain rfl := Option.some.inj ha
          exact ⟨rest, rfl⟩
      rw [hrest] at hsame
      by_contra hnot
      rw [dropWhile_cons_of_pos (by simp [hnot])] at hsame
      have hlen := congrArg List.length hsame
      have hshort := (dropWhile_sublist (fun a => !wanted a) (l := rest)).length_le
      rw [length_cons] at hlen
      omega
  · rintro ⟨hall, hlast⟩
    have htakeall : (l.takeWhile fun a => decide (key a < x)) = l :=
      takeWhile_eq_self_iff.mpr fun a ha => decide_eq_true (hall a ha)
    have hlength : l.reverse.length = l.length := length_reverse
    rw [htakeall, ← hlength]
    cases hrev : l.reverse with
    | nil => rfl
    | cons a rest =>
      have hwanted : wanted a = true := by
        refine hlast a ?_
        rw [← head?_reverse, hrev]
        rfl
      rw [dropWhile_cons_of_neg (by simp [hwanted])]

end Wanted

end SortedRange
