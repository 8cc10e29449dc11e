import Mathlib.Data.List.Nodup
import Mathlib.Tactic.Common

/-!
# Sequences with a unique key

A container that is ordered two ways at once: a *sequence*, in which elements can be moved
to either end, and a *unique index* on a key computed from the element. Caches use the
index to look up and the sequence as the queue in which elements are thrown away.

`SequencedIndex κ α key` is the sequence together with the fact that no two elements have
the same key, so every operation has to keep the index unique to be definable at all.
`find?_eq_some_iff` reduces a lookup to membership; each operation then has one membership
lemma, and these are all that a client needs to follow an element through a run.
-/

variable {κ α : Type*}

/-- A sequence of elements whose keys are pairwise distinct. -/
structure SequencedIndex (κ α : Type*) (key : α → κ) where
  items : List α
  nodup : (items.map key).Nodup

namespace SequencedIndex

open List

variable {key : α → κ}

instance : Membership α (SequencedIndex κ α key) := ⟨fun m x => x ∈ m.items⟩

variable {m : SequencedIndex κ α key}

@[simp] theorem mem_items {x : α} : x ∈ m.items ↔ x ∈ m := Iff.rfl

/-- The container without elements. -/
def empty : SequencedIndex κ α key := ⟨[], nodup_nil⟩

@[simp] theorem not_mem_empty (x : α) : x ∉ (empty : SequencedIndex κ α key) :=
  not_mem_nil

/-- Two elements with one key are the same element. -/
theorem eq_of_key_eq {x y : α} (hx : x ∈ m) (hy : y ∈ m)
    (h : key x = key y) : x = y :=
  inj_on_of_nodup_map m.nodup hx hy h

/-- Any selection of elements keeps the keys distinct. -/
def filter (p : α → Bool) (m : SequencedIndex κ α key) : SequencedIndex κ α key :=
  ⟨m.items.filter p, m.nodup.sublist (filter_sublist.map key)⟩

@[simp] theorem mem_filter {p : α → Bool} {x : α} :
    x ∈ m.filter p ↔ x ∈ m ∧ p x = true :=
  List.mem_filter

/-- Keeps part of the sequence. -/
def sublist (m : SequencedIndex κ α key) (left : List α) (h : left.Sublist m.items) :
    SequencedIndex κ α key :=
  ⟨left, m.nodup.sublist (h.map key)⟩

theorem mem_of_mem_sublist {left : List α} {h : left.Sublist m.items} {x : α}
    (hx : x ∈ m.sublist left h) : x ∈ m :=
  h.subset hx

/-- Puts an element in the place of the one that has its key; nothing happens when there is
none. -/
def replace [DecidableEq κ] (x : α) (m : SequencedIndex κ α key) : SequencedIndex κ α key where
  items := m.items.map fun y => if key y = key x then x else y
  nodup := by
    have hkeys : (m.items.map fun y => if key y = key x then x else y).map key
        = m.items.map key := by
      rw [map_map]
      apply map_congr_left
      intro y _
      show key (if key y = key x then x else y) = key y
      split
      next h => exact h.symm
      next => rfl
    rw [hkeys]
    exact m.nodup

theorem mem_replace [DecidableEq κ] {x y : α} :
    y ∈ m.replace x ↔ (y = x ∧ ∃ z ∈ m, key z = key x) ∨ (y ∈ m ∧ key y ≠ key x) := by
  show y ∈ m.items.map _ ↔ _
  rw [mem_map]
  constructor
  · rintro ⟨z, hz, rfl⟩
    split
    next h => exact .inl ⟨rfl, z, hz, h⟩
    next h => exact .inr ⟨hz, h⟩
  · rintro (⟨rfl, z, hz, h⟩ | ⟨hy, h⟩)
    · exact ⟨z, hz, if_pos h⟩
    · exact ⟨y, hy, if_neg h⟩

section Lookup

variable [DecidableEq κ]

/-- Lookup in the unique index. -/
def find? (m : SequencedIndex κ α key) (k : κ) : Option α :=
  m.items.find? fun x => key x = k

variable {m : SequencedIndex κ α key}

theorem find?_eq_some_iff {k : κ} {x : α} :
    m.find? k = some x ↔ x ∈ m ∧ key x = k := by
  constructor
  · intro h
    exact ⟨mem_of_find?_eq_some h, by simpa using find?_some h⟩
  · rintro ⟨hx, rfl⟩
    obtain ⟨y, hy⟩ : ∃ y, m.find? (key x) = some y := by
      rw [← Option.isSome_iff_exists]
      exact find?_isSome.mpr ⟨x, hx, by simp⟩
    have hkey : key y = key x := by simpa using find?_some hy
    rw [hy, eq_of_key_eq (mem_of_find?_eq_some hy) hx hkey]

theorem find?_eq_none_iff {k : κ} :
    m.find? k = none ↔ ∀ x ∈ m, key x ≠ k := by
  simp [find?, find?_eq_none]

/-- Adds an element at the end of the sequence unless its key is taken. -/
def insert (x : α) (m : SequencedIndex κ α key) : SequencedIndex κ α key :=
  if h : m.find? (key x) = none then
    ⟨m.items ++ [x], by
      rw [map_append, nodup_append]
      refine ⟨m.nodup, nodup_singleton _, ?_⟩
      rintro k hk _ hx rfl
      obtain ⟨y, hy, rfl⟩ := mem_map.mp hk
      exact find?_eq_none_iff.mp h y hy (mem_singleton.mp hx)⟩
  else m

theorem mem_insert {m : SequencedIndex κ α key} {x y : α} :
    y ∈ m.insert x ↔ y ∈ m ∨ (y = x ∧ m.find? (key x) = none) := by
  unfold insert
  split
  next h =>
    show y ∈ m.items ++ [x] ↔ _
    simp [h]
  next h => simp [h]

/-- Moves the element with key `k` to the front of the sequence. -/
def relocateFront (k : κ) (m : SequencedIndex κ α key) : SequencedIndex κ α key where
  items := m.items.filter (fun x => key x = k) ++ m.items.filter fun x => ¬key x = k
  nodup := by
    have hperm := (filter_append_perm (fun x => decide (key x = k)) m.items).symm
    simpa only [decide_not] using (hperm.map key).nodup m.nodup

theorem perm_relocateFront (k : κ) (m : SequencedIndex κ α key) :
    (m.relocateFront k).items.Perm m.items := by
  have hperm := filter_append_perm (fun x => decide (key x = k)) m.items
  simpa only [relocateFront, decide_not] using hperm

@[simp] theorem mem_relocateFront {k : κ} {x : α} :
    x ∈ m.relocateFront k ↔ x ∈ m := by
  show x ∈ (_ ++ _ : List α) ↔ x ∈ m.items
  rw [List.mem_append, List.mem_filter, List.mem_filter, ← and_or_left]
  simp [em]

/-- Moves the element with key `k` to the end of the sequence. -/
def relocateBack (k : κ) (m : SequencedIndex κ α key) : SequencedIndex κ α key where
  items := m.items.filter (fun x => ¬key x = k) ++ m.items.filter fun x => key x = k
  nodup := by
    have hperm : (m.relocateFront k).items.Perm _ := perm_append_comm
    exact (hperm.map key).nodup (m.relocateFront k).nodup

theorem perm_relocateBack (k : κ) (m : SequencedIndex κ α key) :
    (m.relocateBack k).items.Perm m.items :=
  perm_append_comm.trans (m.perm_relocateFront k)

@[simp] theorem mem_relocateBack {k : κ} {x : α} :
    x ∈ m.relocateBack k ↔ x ∈ m := by
  show x ∈ (_ ++ _ : List α) ↔ x ∈ m.items
  rw [List.mem_append, List.mem_filter, List.mem_filter, ← and_or_left]
  simp [or_comm, em]

end Lookup

end SequencedIndex
