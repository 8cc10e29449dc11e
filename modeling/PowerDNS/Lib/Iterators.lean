import Mathlib.Data.List.Nodup
import Mathlib.Tactic.Common

/-!
# Iterators into a container of nodes

Lists and trees whose elements sit in nodes of their own hand out *iterators*: a position is a node, or
the end. An iterator outlives every change to the container except the erasure of its own node; after
that it must not be followed, stepped or erased through.

Nodes are told apart by a key, and a position is the key of a node or `none` for the end. Every operation
answers `none` where a program would run into undefined behaviour, so a loop written with these
operations has a result exactly when it never uses a dead iterator. A loop stands somewhere in a
container `before ++ rest`, at the position `front key rest`; the lemmas say what the operations do there.
-/

namespace Iterators

open List Option

section Operations

variable {κ α : Type*} (key : α → κ)

/-- `begin()`. -/
def front (l : List α) : Option κ := l.head?.map key

@[simp] theorem front_nil : front key ([] : List α) = none := rfl

@[simp] theorem front_cons (x : α) (l : List α) : front key (x :: l) = some (key x) := rfl

variable [DecidableEq κ]

/-- `*it`. -/
def deref (l : List α) (it : Option κ) : Option α :=
  it.bind fun k => l.find? fun x => key x = k

/-- `++it`. -/
def next (l : List α) (it : Option κ) : Option (Option κ) :=
  match l.dropWhile fun x => some (key x) ≠ it with
  | [] => none
  | _ :: behind => some (front key behind)

/-- `erase(it)`. -/
def erase (l : List α) (it : Option κ) : Option (List α) :=
  if it ∈ l.map (fun x => some (key x)) then some (l.filter fun x => some (key x) ≠ it) else none

/-- `std::advance(it, n)`. -/
def advance (l : List α) : Nat → Option κ → Option (Option κ)
  | 0, it => some it
  | n + 1, it => (next key l it).bind (advance l n)

/-- `erase(first, last)`: `last` has to be reachable from `first`. -/
def eraseRange (l : List α) (first last : Option κ) : Option (List α) :=
  let behind := l.dropWhile fun x => some (key x) ≠ first
  if (first = none ∨ behind ≠ []) ∧ (last = none ∨ last ∈ behind.map fun x => some (key x)) then
    some (l.takeWhile (fun x => some (key x) ≠ first) ++ behind.dropWhile fun x => some (key x) ≠ last)
  else none

end Operations

/-! ### What is left is part of what was there -/

section Sublists

variable {κ α : Type*} [DecidableEq κ] {key : α → κ} {l left : List α}

theorem erase_sublist {it : Option κ} (h : erase key l it = some left) : left.Sublist l := by
  unfold erase at h
  split at h
  · obtain rfl := some.inj h
    exact filter_sublist
  · cases h

theorem eraseRange_sublist {first last : Option κ} (h : eraseRange key l first last = some left) :
    left.Sublist l := by
  unfold eraseRange at h
  dsimp only at h
  split at h
  · obtain rfl := some.inj h
    conv_rhs => rw [← takeWhile_append_dropWhile (p := fun x => decide (some (key x) ≠ first)) (l := l)]
    exact (List.Sublist.refl _).append (dropWhile_sublist _)
  · cases h

end Sublists

/-! ### What the operations do at a position -/

section Split

variable {κ α : Type*} {key : α → κ} {before rest : List α} {x : α}

/-- What stands in front of a node has other keys. -/
theorem ne_of_mem_before (h : ((before ++ x :: rest).map key).Nodup) {y : α} (hy : y ∈ before) :
    key y ≠ key x := by
  rw [map_append, nodup_append] at h
  exact h.2.2 _ (mem_map_of_mem hy) _ (mem_map_of_mem mem_cons_self)

/-- What stands behind a node has other keys. -/
theorem ne_of_mem_behind (h : ((before ++ x :: rest).map key).Nodup) {y : α} (hy : y ∈ rest) :
    key y ≠ key x := by
  rw [map_append, nodup_append, map_cons, nodup_cons] at h
  intro hkey
  exact h.2.1.1 (hkey ▸ mem_map_of_mem hy)

variable [DecidableEq κ]

theorem deref_split (h : ((before ++ x :: rest).map key).Nodup) :
    deref key (before ++ x :: rest) (some (key x)) = some x := by
  have hnone : before.find? (fun y => key y = key x) = none :=
    find?_eq_none.mpr fun y hy => by simpa using ne_of_mem_before h hy
  unfold deref
  rw [bind_some, find?_append, hnone, none_or]
  exact find?_cons_of_pos (by simp)

theorem next_split (h : ((before ++ x :: rest).map key).Nodup) :
    next key (before ++ x :: rest) (some (key x)) = some (front key rest) := by
  have hbefore : (before ++ x :: rest).dropWhile (fun y => some (key y) ≠ some (key x)) = x :: rest := by
    rw [dropWhile_append_of_pos fun y hy => by simpa using ne_of_mem_before h hy]
    exact dropWhile_cons_of_neg (by simp)
  unfold next
  rw [hbefore]

theorem erase_split (h : ((before ++ x :: rest).map key).Nodup) :
    erase key (before ++ x :: rest) (some (key x)) = some (before ++ rest) := by
  have hbefore : before.filter (fun y => some (key y) ≠ some (key x)) = before :=
    filter_eq_self.mpr fun y hy => by simpa using ne_of_mem_before h hy
  have hrest : rest.filter (fun y => some (key y) ≠ some (key x)) = rest :=
    filter_eq_self.mpr fun y hy => by simpa using ne_of_mem_behind h hy
  unfold erase
  rw [if_pos (by simp), filter_append, filter_cons_of_neg (by simp), hbefore, hrest]

/-- An iterator can be advanced as far as there are nodes. -/
theorem advance_split {taken : List α} (h : ((before ++ (taken ++ rest)).map key).Nodup) :
    advance key (before ++ (taken ++ rest)) taken.length (front key (taken ++ rest)) =
      some (front key rest) := by
  induction taken generalizing before with
  | nil => rfl
  | cons x taken ih =>
    have hassoc : before ++ (x :: taken ++ rest) = before ++ [x] ++ (taken ++ rest) := by simp
    have hnext : next key (before ++ (x :: taken ++ rest)) (some (key x)) =
        some (front key (taken ++ rest)) := next_split h
    rw [length_cons, advance, cons_append, front_cons, ← cons_append, hnext,
      bind_some, hassoc]
    rw [hassoc] at h
    exact ih h

/-- Erasing what stands in front of a position. -/
theorem eraseRange_split {taken : List α} (h : ((taken ++ rest).map key).Nodup) :
    eraseRange key (taken ++ rest) (front key (taken ++ rest)) (front key rest) = some rest := by
  have hfirst : ∀ l : List α, (l.dropWhile fun x => some (key x) ≠ front key l) = l ∧
      (l.takeWhile fun x => some (key x) ≠ front key l) = [] := by
    intro l
    cases l with
    | nil => exact ⟨rfl, rfl⟩
    | cons x l => exact ⟨dropWhile_cons_of_neg (by simp), takeWhile_cons_of_neg (by simp)⟩
  have hlast : ((taken ++ rest).dropWhile fun x => some (key x) ≠ front key rest) = rest := by
    rw [dropWhile_append_of_pos, (hfirst rest).1]
    intro y hy
    cases rest with
    | nil => simp
    | cons x rest => simpa using ne_of_mem_before h hy
  unfold eraseRange
  dsimp only
  rw [(hfirst (taken ++ rest)).1, (hfirst (taken ++ rest)).2, hlast, nil_append, if_pos]
  constructor
  · cases taken ++ rest with
    | nil => exact .inl rfl
    | cons x l => exact .inr (cons_ne_nil x l)
  · cases rest with
    | nil => exact .inl rfl
    | cons x rest => exact .inr (by simp)

end Split

end Iterators
