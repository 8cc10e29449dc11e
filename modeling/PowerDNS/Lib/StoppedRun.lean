import Mathlib.Data.List.Induction
import Mathlib.Order.Basic

/-!
# Runs that stop

A run takes one step for each element of a list, and a step may fail. `runUntil` looks at the state
behind each step and stops at the first one that meets a test. `runUntil_cases` says what it comes
to: either no state on the way meets the test and all steps are taken, or the list splits at the
element whose step leads to the first state that does.

Often the test is about a size that grows with every step. `Within` says that the size has stayed at
or below a bound; what lies in front of elements within the bound is within it too
(`Within.of_append`), and nothing behind a state above the bound is (`not_within_behind`). When the
test holds in the first state above the bound, a run that does not stop stays within it
(`within_of_noneStops`).
-/

namespace StoppedRun

open Option Bool List

variable {σ α : Type*}

/-- The state behind steps that are all taken. -/
def through (step : σ → α → Option σ) (s : σ) (l : List α) : Option σ := l.foldlM step s

/-- The steps up to the first state that meets the test, with the element that led there. -/
def runUntil (step : σ → α → Option σ) (stops : σ → Bool) : σ → List α → Option (σ × Option α)
  | s, [] => some (s, none)
  | s, a :: l =>
    (step s a).bind fun t => if stops t then some (t, some a) else runUntil step stops t l

/-- No state on the way meets the test. -/
def NoneStops (step : σ → α → Option σ) (stops : σ → Bool) (s : σ) (l : List α) : Prop :=
  ∀ kept a rest t, l = kept ++ a :: rest → through step s (kept ++ [a]) = some t → stops t = false

variable {step : σ → α → Option σ} {stops : σ → Bool} {s t u : σ} {a : α} {l kept more rest : List α}

@[simp] theorem through_nil : through step s [] = some s := rfl

theorem through_cons : through step s (a :: l) = (step s a).bind fun t => through step t l :=
  foldlM_cons

theorem through_append : through step s (l ++ more) = (through step s l).bind fun t => through step t more :=
  foldlM_append

theorem through_concat : through step s (l ++ [a]) = (through step s l).bind fun t => step t a := by
  rw [through_append]
  refine congrArg _ (funext fun t => ?_)
  exact bind_fun_some _

/-- Steps in front of others that were taken. -/
theorem exists_through_of_append (h : through step s (l ++ more) = some t) :
    ∃ u, through step s l = some u ∧ through step u more = some t := by
  rw [through_append] at h
  exact bind_eq_some_iff.mp h

theorem NoneStops.cons (hstep : step s a = some t) (hstops : stops t = false)
    (h : NoneStops step stops t l) : NoneStops step stops s (a :: l) := by
  intro kept b rest u heq hu
  cases kept with
  | nil =>
    obtain ⟨rfl, -⟩ := List.cons.inj heq
    rw [through_concat, through_nil, bind_some, hstep] at hu
    rw [← some.inj hu]
    exact hstops
  | cons c kept =>
    obtain ⟨rfl, hrest⟩ := List.cons.inj heq
    rw [cons_append, through_cons, hstep] at hu
    exact h kept b rest u hrest hu

theorem NoneStops.of_append (h : NoneStops step stops s (l ++ more)) : NoneStops step stops s l := by
  intro kept b rest u heq hu
  refine h kept b (rest ++ more) u ?_ hu
  rw [heq, append_assoc]
  rfl

theorem noneStops_nil : NoneStops step stops s [] := by
  intro kept b rest u heq
  exact absurd (congrArg List.length heq) (by simp)

/-- **What a run comes to** that stops at the first state that meets the test. -/
theorem runUntil_cases {x : Option α} (h : runUntil step stops s l = some (t, x)) :
    x = none ∧ through step s l = some t ∧ NoneStops step stops s l ∨
      ∃ kept b rest u, x = some b ∧ l = kept ++ b :: rest ∧ through step s kept = some u ∧
        step u b = some t ∧ stops t = true ∧ NoneStops step stops s kept := by
  induction l generalizing s with
  | nil =>
    obtain ⟨rfl, rfl⟩ := Prod.mk.inj (some.inj h)
    exact .inl ⟨rfl, rfl, noneStops_nil⟩
  | cons a l ih =>
    obtain ⟨v, hv, h⟩ := bind_eq_some_iff.mp h
    by_cases hstops : stops v = true
    · rw [if_pos hstops] at h
      obtain ⟨rfl, rfl⟩ := Prod.mk.inj (some.inj h)
      exact .inr ⟨[], a, l, s, rfl, rfl, rfl, hv, hstops, noneStops_nil⟩
    · rw [if_neg hstops] at h
      have hfalse := (not_eq_true _).mp hstops
      rcases ih h with ⟨rfl, hall, hnone⟩ | ⟨kept, b, rest, u, rfl, rfl, hu, hb, htrue, hnone⟩
      · refine .inl ⟨rfl, ?_, hnone.cons hv hfalse⟩
        rw [through_cons, hv]
        exact hall
      · refine .inr ⟨a :: kept, b, rest, u, rfl, rfl, ?_, hb, htrue, hnone.cons hv hfalse⟩
        rw [through_cons, hv]
        exact hu

/-- A test that no state meets stops nothing. -/
theorem runUntil_of_never (h : ∀ t, stops t = false) :
    runUntil step stops s l = (through step s l).map fun t => (t, none) := by
  induction l generalizing s with
  | nil => rfl
  | cons a l ih =>
    rw [runUntil, through_cons, map_bind]
    refine congrArg _ (funext fun t => ?_)
    rw [h t, if_neg Bool.false_ne_true]
    exact ih

/-- Two ways to take one element out of a list. -/
theorem split_cases {a a' b b' : List α} {x x' : α} (h : a ++ x :: b = a' ++ x' :: b') :
    (∃ m, a = a' ++ x' :: m) ∨ (a = a' ∧ x = x' ∧ b = b') ∨ ∃ m, a' = a ++ x :: m := by
  rcases append_eq_append_iff.mp h with ⟨m, rfl, hm⟩ | ⟨m, rfl, hm⟩
  · cases m with
    | nil =>
      obtain ⟨rfl, rfl⟩ := List.cons.inj hm
      exact .inr (.inl ⟨(append_nil a).symm, rfl, rfl⟩)
    | cons y m =>
      obtain ⟨rfl, -⟩ := List.cons.inj hm
      exact .inr (.inr ⟨m, rfl⟩)
  · cases m with
    | nil =>
      obtain ⟨rfl, rfl⟩ := List.cons.inj hm
      exact .inr (.inl ⟨append_nil a', rfl, rfl⟩)
    | cons y m =>
      obtain ⟨rfl, -⟩ := List.cons.inj hm
      exact .inl ⟨m, rfl⟩

/-! ### Sizes that grow -/

/-- The size stays within a bound, if steps are taken at all. -/
def Within (step : σ → α → Option σ) (size : σ → Nat) (n : Nat) (s : σ) (l : List α) : Prop :=
  l = [] ∨ ∃ t, through step s l = some t ∧ size t ≤ n

section Growing

variable {size : σ → Nat} {n : Nat} {I : σ → Prop}
  (hgrows : ∀ s a t, I s → step s a = some t → I t ∧ size s ≤ size t)

include hgrows

/-- What every step keeps holds behind all of them, and the size has grown. -/
theorem through_grows (hs : I s) (h : through step s l = some t) : I t ∧ size s ≤ size t := by
  induction l generalizing s with
  | nil =>
    obtain rfl := some.inj h
    exact ⟨hs, Nat.le_refl _⟩
  | cons a l ih =>
    obtain ⟨u, hu, h⟩ := bind_eq_some_iff.mp h
    obtain ⟨hu', hle⟩ := hgrows s a u hs hu
    obtain ⟨ht, hle'⟩ := ih hu' h
    exact ⟨ht, Nat.le_trans hle hle'⟩

theorem Within.of_append (hs : I s) (h : Within step size n s (l ++ more)) :
    Within step size n s l := by
  rcases h with hnil | ⟨t, ht, hle⟩
  · exact .inl (append_eq_nil_iff.mp hnil).1
  · obtain ⟨u, hu, hut⟩ := exists_through_of_append ht
    obtain ⟨hI, -⟩ := through_grows hgrows hs hu
    exact .inr ⟨u, hu, Nat.le_trans (through_grows hgrows hI hut).2 hle⟩

/-- Behind a state above the bound nothing is within it. -/
theorem not_within_behind (hs : I s) (h : through step s (kept ++ [a]) = some t) (hlarge : n < size t) :
    ¬ Within step size n s (kept ++ a :: more) := by
  rintro (hnil | ⟨u, hu, hle⟩)
  · exact absurd (append_eq_nil_iff.mp hnil).2 (cons_ne_nil _ _)
  · rw [← singleton_append, ← append_assoc] at hu
    obtain ⟨t', ht', htu⟩ := exists_through_of_append hu
    obtain rfl := some.inj (h.symm.trans ht')
    have hgrown := (through_grows hgrows (through_grows hgrows hs h).1 htu).2
    omega

omit hgrows in
/-- When the first state above the bound meets the test, a run that does not stop stays within the
bound. -/
theorem within_of_noneStops (hfirst : ∀ kept a rest t, l = kept ++ a :: rest →
      Within step size n s kept → through step s (kept ++ [a]) = some t → n < size t → stops t = true)
    (hl : l = kept ++ rest) (hnone : NoneStops step stops s kept)
    (h : through step s kept = some t) : Within step size n s kept := by
  induction kept using List.reverseRecOn generalizing rest t with
  | nil => exact .inl rfl
  | append_singleton kept a ih =>
    obtain ⟨u, hu, -⟩ := exists_through_of_append h
    have hsplit : l = kept ++ a :: rest := by rw [hl, append_assoc]; rfl
    refine .inr ⟨t, h, ?_⟩
    by_contra hlarge
    have htrue := hfirst kept a rest t hsplit (ih hsplit hnone.of_append hu) h (Nat.lt_of_not_le hlarge)
    exact absurd htrue (by rw [hnone kept a [] t rfl h]; exact false_ne_true)

end Growing

end StoppedRun
