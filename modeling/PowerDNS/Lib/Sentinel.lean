import Mathlib.Data.List.DropRight
import Mathlib.Tactic.Common

/-!
# Scanning up to a sentinel

A pointer into a memory is what the memory has from there on, and a look behind the memory gives nothing. A loop that
steps over the elements with some property stays in the memory when it meets one without it (`skipWhile_eq_none_iff`);
in a memory that ends in a sentinel without the property this is always so (`Ends.skipWhile`), and so it is for a loop
that also holds its pointer against the last one (`Ends.skipBefore`).

`Gives` is the postcondition of a computation that stays in the memory; `Gives.bind` puts two of them together.
-/

namespace Sentinel

open List

variable {α : Type} {p : α → Bool} {e c : α} {cp : List α} {last : Nat}

/-- `while (p(*cp)) cp++`. -/
def skipWhile (p : α → Bool) : List α → Option (List α)
  | [] => none
  | c :: cp => if p c then skipWhile p cp else some (c :: cp)

/-- `while (p(*cp) && cp < maxcp) cp++`, where the memory has `last` elements from `maxcp` on. -/
def skipBefore (p : α → Bool) (last : Nat) : List α → Option (List α)
  | [] => none
  | c :: cp => if p c && last < cp.length + 1 then skipBefore p last cp else some (c :: cp)

/-- The memory from here on ends in the sentinel. -/
def Ends (e : α) (cp : List α) : Prop := cp.getLast? = some e

theorem Ends.ne_nil (h : Ends e cp) : cp ≠ [] := by
  rintro rfl
  cases h

/-- A step further when this is not the sentinel. -/
theorem Ends.tail (h : Ends e (c :: cp)) (hne : cp ≠ []) : Ends e cp := by
  unfold Ends at h ⊢
  rwa [getLast?_cons_of_ne_nil hne] at h

theorem Ends.tail_of_ne (h : Ends e (c :: cp)) (hc : c ≠ e) : Ends e cp := by
  refine h.tail ?_
  rintro rfl
  exact hc (Option.some.inj h)

/-- What is left of the memory. -/
theorem Ends.of_suffix {cp' : List α} (h : Ends e cp) (hsuffix : cp' <:+ cp) (hne : cp' ≠ []) : Ends e cp' := by
  obtain ⟨front, rfl⟩ := hsuffix
  unfold Ends at h ⊢
  rwa [getLast?_append_of_ne_nil front hne] at h

/-- A loop that steps over more goes on where another one has stopped. -/
theorem dropWhile_dropWhile_of_imp {q : α → Bool} (h : ∀ c, p c = true → q c = true) (cp : List α) :
    (cp.dropWhile p).dropWhile q = cp.dropWhile q := by
  induction cp with
  | nil => rfl
  | cons c cp ih =>
    rw [dropWhile_cons (p := p)]
    split
    next hc => rw [ih, dropWhile_cons_of_pos (h c hc)]
    next => rfl

/-- Where the loop stops. -/
theorem skipWhile_eq (p : α → Bool) (cp : List α) :
    skipWhile p cp = if cp.dropWhile p = [] then none else some (cp.dropWhile p) := by
  induction cp with
  | nil => rfl
  | cons c cp ih =>
    rw [skipWhile, dropWhile_cons]
    split
    · exact ih
    · rw [if_neg (cons_ne_nil c cp)]

theorem skipWhile_eq_none_iff : skipWhile p cp = none ↔ ∀ c ∈ cp, p c = true := by
  rw [skipWhile_eq, ← dropWhile_eq_nil_iff]
  split <;> simp_all

theorem Ends.dropWhile (h : Ends e cp) (he : p e = false) : Ends e (cp.dropWhile p) := by
  induction cp with
  | nil => exact h
  | cons c cp ih =>
    rw [dropWhile_cons]
    split
    next hc =>
      refine ih (h.tail_of_ne ?_)
      rintro rfl
      rw [he] at hc
      cases hc
    next => exact h

theorem Ends.skipWhile (h : Ends e cp) (he : p e = false) : skipWhile p cp = some (cp.dropWhile p) := by
  rw [skipWhile_eq, if_neg (h.dropWhile he).ne_nil]

/-! ### Computations that stay in the memory -/

section Gives

variable {β : Type} {m : Option α} {f : α → Option β} {P : α → Prop} {Q : β → Prop}

/-- The computation gives something with this property. -/
def Gives (m : Option α) (P : α → Prop) : Prop := ∃ a, m = some a ∧ P a

theorem bind_of_eq {a : α} (h : m = some a) (f : α → Option β) : (m >>= f) = f a := by
  rw [h]
  rfl

theorem Gives.pure {a : α} (h : P a) : Gives (some a) P := ⟨a, rfl, h⟩

theorem Gives.bind (hm : Gives m P) (hf : ∀ a, P a → Gives (f a) Q) : Gives (m >>= f) Q := by
  obtain ⟨a, rfl, ha⟩ := hm
  exact hf a ha

theorem Ends.head (h : Ends e cp) : Gives cp.head? fun c => cp = c :: cp.tail := by
  cases cp with
  | nil => exact absurd rfl h.ne_nil
  | cons c cp => exact ⟨c, rfl, rfl⟩

/-- A loop that does not go on at the last pointer stays in the memory, whatever it steps over. -/
theorem Ends.skipBefore (p : α → Bool) (h : Ends e cp) (hlast : 1 ≤ last) :
    Gives (skipBefore p last cp) (Ends e) := by
  induction cp with
  | nil => exact absurd rfl h.ne_nil
  | cons c cp ih =>
    rw [Sentinel.skipBefore]
    split
    next hgoes =>
      rw [Bool.and_eq_true, decide_eq_true_eq] at hgoes
      refine ih (h.tail ?_)
      rintro rfl
      exact absurd (lt_of_le_of_lt hlast hgoes.2) (lt_irrefl 1)
    next => exact ⟨c :: cp, rfl, h⟩

end Gives

end Sentinel
