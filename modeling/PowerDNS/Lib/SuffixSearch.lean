import Mathlib.Data.List.Infix
import Mathlib.Tactic.Common

/-!
# Searching upwards in a tree of lists

A list of labels is a node of the tree whose root is the empty list and in which the tail
is the parent. A search starts at a node and climbs until some node has an answer.

`upTo top n` lists the nodes met from `n` upwards before `top`, and `firstAnswer` asks them
in order. `firstAnswer_eq_nil_iff` and `firstAnswer_mem` say what an unsuccessful and a
successful search mean, `firstAnswer_upTo_start` which nodes may be left out. `closest` is
the deepest ancestor with a property.
-/

namespace SuffixSearch

open List

variable {α β : Type*}

/-! ### The nodes on the way up -/

/-- The nodes from `n` upwards, without `top` and what is above it. -/
def upTo [DecidableEq α] (top : List α) : List α → List (List α)
  | [] => if [] = top then [] else [[]]
  | a :: n => if a :: n = top then [] else (a :: n) :: upTo top n

/-- The nodes strictly between a node and the top are its strict descendants of the top. -/
theorem mem_upTo [DecidableEq α] {top n s : List α} (h : top <:+ n) :
    s ∈ upTo top n ↔ s <:+ n ∧ top <:+ s ∧ s ≠ top := by
  induction n with
  | nil =>
    obtain rfl : top = [] := suffix_nil.mp h
    simp only [upTo, if_true, not_mem_nil, false_iff]
    rintro ⟨hs, -, hne⟩
    exact hne (suffix_nil.mp hs)
  | cons a n ih =>
    unfold upTo
    by_cases heq : a :: n = top
    · rw [if_pos heq]
      subst heq
      simp only [not_mem_nil, false_iff]
      rintro ⟨hs, ht, hne⟩
      exact hne (hs.eq_of_length_le ht.length_le)
    · rw [if_neg heq, mem_cons]
      have htop : top <:+ n := (suffix_cons_iff.mp h).resolve_left (fun e => heq e.symm)
      rw [ih htop, suffix_cons_iff]
      constructor
      · rintro (rfl | ⟨hs, ht, hne⟩)
        · exact ⟨.inl rfl, h, heq⟩
        · exact ⟨.inr hs, ht, hne⟩
      · rintro ⟨rfl | hs, ht, hne⟩
        · exact .inl rfl
        · exact .inr ⟨hs, ht, hne⟩

/-! ### The first node with an answer -/

/-- The answer of the first node that has one. -/
def firstAnswer (f : List α → List β) : List (List α) → List β
  | [] => []
  | s :: rest => if f s = [] then firstAnswer f rest else f s

variable {f : List α → List β}

theorem firstAnswer_eq_nil_iff {nodes : List (List α)} :
    firstAnswer f nodes = [] ↔ ∀ s ∈ nodes, f s = [] := by
  induction nodes with
  | nil => simp [firstAnswer]
  | cons s rest ih =>
    unfold firstAnswer
    by_cases h : f s = []
    · simp [h, ih]
    · simp [h]

/-- A successful search answers with one of the nodes it went over. -/
theorem firstAnswer_mem {nodes : List (List α)}
    (h : firstAnswer f nodes ≠ []) : ∃ s ∈ nodes, firstAnswer f nodes = f s ∧ f s ≠ [] := by
  induction nodes with
  | nil => exact absurd rfl h
  | cons s rest ih =>
    unfold firstAnswer at h ⊢
    by_cases hs : f s = []
    · rw [if_pos hs] at h ⊢
      obtain ⟨t, ht, h'⟩ := ih h
      exact ⟨t, mem_cons_of_mem _ ht, h'⟩
    · rw [if_neg hs]
      exact ⟨s, mem_cons_self, rfl, hs⟩

/-- A climb to the top included may as well start at an ancestor when the nodes below that
ancestor have no answer. -/
theorem firstAnswer_upTo_start [DecidableEq α] {top s n : List α}
    (htop : top <:+ s) (hs : s <:+ n)
    (hnone : ∀ t, t <:+ n → s <:+ t → t ≠ s → f t = []) :
    firstAnswer f (upTo top n ++ [top]) = firstAnswer f (upTo top s ++ [top]) := by
  induction n with
  | nil => rw [suffix_nil.mp hs]
  | cons a n ih =>
    rcases suffix_cons_iff.mp hs with rfl | hs'
    · rfl
    · have hne : a :: n ≠ s := by
        intro e
        rw [← e] at hs'
        exact absurd hs'.length_le (by simp)
      have hnetop : a :: n ≠ top := by
        intro e
        have hlen := htop.length_le.trans hs'.length_le
        rw [← e] at hlen
        exact absurd hlen (by simp)
      rw [upTo, if_neg hnetop, cons_append, firstAnswer,
        if_pos (hnone _ suffix_rfl hs hne)]
      exact ih hs' fun t ht => hnone t (ht.trans (suffix_cons a n))

/-- The node where the climb starts is asked first. -/
theorem firstAnswer_upTo_self [DecidableEq α] {top s : List α}
    (h : f s ≠ []) (htop : top <:+ s) : firstAnswer f (upTo top s ++ [top]) = f s := by
  cases s with
  | nil =>
    rw [suffix_nil.mp htop, upTo, if_pos rfl, nil_append, firstAnswer, if_neg h]
  | cons a s =>
    unfold upTo
    by_cases heq : a :: s = top
    · rw [if_pos heq, nil_append, firstAnswer, ← heq, if_neg h]
    · rw [if_neg heq, cons_append, firstAnswer, if_neg h]

/-! ### The closest ancestor with a property -/

/-- The deepest node at or above `n` that satisfies `P`, or the root. -/
def closest (P : List α → Prop) [DecidablePred P] : List α → List α
  | [] => []
  | a :: n => if P (a :: n) then a :: n else closest P n

theorem closest_suffix (P : List α → Prop) [DecidablePred P] (n : List α) :
    closest P n <:+ n := by
  induction n with
  | nil => exact suffix_rfl
  | cons a n ih =>
    unfold closest
    split
    · exact suffix_rfl
    · exact ih.trans (suffix_cons a n)

/-- Some ancestor with the property is enough for the closest one to have it. -/
theorem closest_holds {P : List α → Prop} [DecidablePred P] {n s : List α}
    (hs : s <:+ n) (h : P s) : P (closest P n) := by
  induction n with
  | nil => rwa [suffix_nil.mp hs] at h
  | cons a n ih =>
    unfold closest
    split
    · assumption
    · next hn =>
      refine ih ((suffix_cons_iff.mp hs).resolve_left ?_)
      rintro rfl
      exact hn h

/-- Every ancestor with the property is at or above the closest one. -/
theorem suffix_closest {P : List α → Prop} [DecidablePred P] {n s : List α}
    (hs : s <:+ n) (h : P s) : s <:+ closest P n := by
  induction n with
  | nil => rw [suffix_nil.mp hs]; exact nil_suffix
  | cons a n ih =>
    unfold closest
    split
    · exact hs
    · next hn =>
      refine ih ((suffix_cons_iff.mp hs).resolve_left ?_)
      rintro rfl
      exact hn h

end SuffixSearch
