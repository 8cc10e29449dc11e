import Mathlib.Order.Defs.Unbundled

/-!
# Programs that can be interrupted

A program works on a state and ends with a result or is interrupted by an exception. The state is that of the
moment of the interruption: what was done to it is not undone.

`Moves R m` says that `m` moves every state along `R`, however it ends. For a preorder `R` the rules follow
the structure of a program, so a fact about what a program never takes back is proved piece by piece, and it
holds at every interruption.
-/

namespace Interruption

/-- A program over states `S` with results in `α` that is interrupted by exceptions `E`. -/
def Prog (S E α : Type) := S → Except E α × S

variable {S E α β : Type}

namespace Prog

/-- What follows a program, when it was not interrupted. -/
def andThen (m : Prog S E α) (k : α → Prog S E β) : Prog S E β := fun s =>
  match m s with
  | (.ok a, s) => k a s
  | (.error e, s) => (.error e, s)

instance : Monad (Prog S E) where
  pure a := fun s => (.ok a, s)
  bind := andThen

/-- An exception. -/
def raise (e : E) : Prog S E α := fun s => (.error e, s)

/-- A change of the state. -/
def update (f : S → S) : Prog S E Unit := fun s => (.ok (), f s)

/-- A look at the state. -/
def read (f : S → α) : Prog S E α := fun s => (.ok (f s), s)

/-- A program, under a condition. -/
def when (c : Prop) [Decidable c] (m : Prog S E Unit) : Prog S E Unit := if c then m else pure ()

/-- A program for each element of a list, in order. -/
def each (f : α → Prog S E Unit) : List α → Prog S E Unit
  | [] => pure ()
  | a :: l => do
    f a
    each f l

end Prog

open Prog

variable {γ : Type} {R : S → S → Prop} {m : Prog S E α} {k : α → Prog S E β} {s s' : S}

theorem pure_then (a : α) (k : α → Prog S E β) : (pure a >>= k) = k a := rfl

theorem bind_of_ok {a : α} (h : m s = (.ok a, s')) : (m >>= k) s = k a s' := by
  change andThen m k s = _
  unfold andThen
  rw [h]

theorem bind_of_error {e : E} (h : m s = (.error e, s')) : (m >>= k) s = (.error e, s') := by
  change andThen m k s = _
  unfold andThen
  rw [h]

theorem bind_bind (m : Prog S E α) (k : α → Prog S E β) (l : β → Prog S E γ) :
    ((m >>= k) >>= l) = m >>= fun a => k a >>= l := by
  funext s
  rcases hm : m s with ⟨e | a, s₁⟩
  · rw [bind_of_error (bind_of_error hm), bind_of_error hm]
  · rw [bind_of_ok hm]
    rcases hk : k a s₁ with ⟨e | b, s₂⟩
    · rw [bind_of_error ((bind_of_ok hm).trans hk), bind_of_error hk]
    · rw [bind_of_ok ((bind_of_ok hm).trans hk), bind_of_ok hk]

/-- How a composition is interrupted: in its first part, or behind it. -/
theorem bind_eq_error {e : E} (h : (m >>= k) s = (.error e, s')) :
    m s = (.error e, s') ∨ ∃ a s₁, m s = (.ok a, s₁) ∧ k a s₁ = (.error e, s') := by
  change andThen m k s = _ at h
  unfold andThen at h
  split at h
  next a s₁ hm => exact .inr ⟨a, s₁, hm, h⟩
  next e' s₁ hm =>
    rw [hm]
    exact .inl (by injection h with he hs; injection he with he; rw [he, hs])

/-- Every state is moved along `R`, whether the program is interrupted or not. -/
def Moves (R : S → S → Prop) (m : Prog S E α) : Prop := ∀ s, R s (m s).2

/-- At every interruption, the state has been moved along `R`. -/
def Interrupts (R : S → S → Prop) (m : Prog S E α) : Prop := ∀ s e s', m s = (.error e, s') → R s s'

section Rules

theorem moves_pure [Std.Refl R] (a : α) : Moves R (pure a : Prog S E α) := fun s => Std.Refl.refl s

theorem moves_raise [Std.Refl R] (e : E) : Moves R (raise e : Prog S E α) := fun s => Std.Refl.refl s

theorem moves_read [Std.Refl R] (f : S → α) : Moves R (read f : Prog S E α) := fun s => Std.Refl.refl s

theorem moves_update {f : S → S} (h : ∀ s, R s (f s)) : Moves R (update f : Prog S E Unit) := h

theorem moves_bind [IsTrans S R] (hm : Moves R m) (hk : ∀ a, Moves R (k a)) : Moves R (m >>= k) := by
  intro s
  change R s (andThen m k s).2
  unfold andThen
  have hfirst := hm s
  split
  next a s₁ hrun =>
    rw [hrun] at hfirst
    exact IsTrans.trans _ _ _ hfirst (hk a s₁)
  next e s₁ hrun =>
    rw [hrun] at hfirst
    exact hfirst

theorem moves_each [Std.Refl R] [IsTrans S R] {f : α → Prog S E Unit} (h : ∀ a, Moves R (f a)) (l : List α) :
    Moves R (each f l) := by
  induction l with
  | nil => exact moves_pure ()
  | cons a l ih => exact moves_bind (h a) fun _ => ih

theorem moves_ite {c : Prop} [Decidable c] {m' : Prog S E α} (hm : Moves R m) (hm' : Moves R m') :
    Moves R (if c then m else m') := by
  split
  · exact hm
  · exact hm'

theorem moves_when [Std.Refl R] {c : Prop} [Decidable c] {m : Prog S E Unit} (hm : Moves R m) :
    Moves R (Prog.when c m) := moves_ite hm (moves_pure ())

theorem Moves.mono {R' : S → S → Prop} (h : Moves R m) (hle : ∀ s s', R s s' → R' s s') : Moves R' m :=
  fun s => hle _ _ (h s)

theorem Moves.interrupts (h : Moves R m) : Interrupts R m := by
  intro s e s' hrun
  have hmoved := h s
  rwa [hrun] at hmoved

theorem interrupts_update (f : S → S) : Interrupts R (update f : Prog S E Unit) := fun _ _ _ h => nomatch h

/-- What stands at the end of a program may do anything, as long as it is not interrupted behind that. -/
theorem interrupts_bind [IsTrans S R] (hm : Moves R m) (hk : ∀ a, Interrupts R (k a)) :
    Interrupts R (m >>= k) := by
  intro s e s' hrun
  have hmoved := hm s
  rcases bind_eq_error hrun with hfirst | ⟨a, s₁, hfirst, hrest⟩
  · rwa [hfirst] at hmoved
  · rw [hfirst] at hmoved
    exact IsTrans.trans _ _ _ hmoved (hk a s₁ e s' hrest)

end Rules

/-- Exceptions, from the states in `P`, leave `Q`. -/
def Throws (P : S → Prop) (m : Prog S E α) (Q : E → S → Prop) : Prop :=
  ∀ s e s', P s → m s = (.error e, s') → Q e s'

/-- Results, from the states in `P`, come in the states in `T`. -/
def Ends (P : S → Prop) (m : Prog S E α) (T : S → Prop) : Prop := ∀ s a s', P s → m s = (.ok a, s') → T s'

/-- From the states in `P`, the program `m` is interrupted within its beginning `first`, and this leaves `Q`; or
behind that, and this leaves `Q'`. -/
def Ahead (P : S → Prop) (Q Q' : E → S → Prop) (first : Prog S E Unit) (m : Prog S E α) : Prop :=
  ∀ s e s', P s → m s = (.error e, s') →
    (first s = (.error e, s') ∧ Q e s') ∨ ((∃ s₁, first s = (.ok (), s₁)) ∧ Q' e s')

section Beginnings

variable {P T : S → Prop} {Q Q' : E → S → Prop} {first : α → Prog S E Unit}

theorem throws_update (f : S → S) : Throws P (update f : Prog S E Unit) Q := fun _ _ _ _ h => nomatch h

theorem throws_pure (a : α) : Throws P (pure a : Prog S E α) Q := fun _ _ _ _ h => nomatch h

theorem throws_read (f : S → α) : Throws P (read f : Prog S E α) Q := fun _ _ _ _ h => nomatch h

theorem throws_when {c : Prop} [Decidable c] {m : Prog S E Unit} (hm : c → Throws P m Q) :
    Throws P (Prog.when c m) Q := by
  unfold Prog.when
  split
  next hc => exact hm hc
  next => exact throws_pure ()

theorem Moves.throws (hm : Moves R m) (h : ∀ s e s', P s → R s s' → Q e s') : Throws P m Q :=
  fun s e s' hP hrun => h s e s' hP (hm.interrupts s e s' hrun)

theorem Interrupts.throws (hm : Interrupts R m) (h : ∀ s e s', P s → R s s' → Q e s') : Throws P m Q :=
  fun s e s' hP hrun => h s e s' hP (hm s e s' hrun)

theorem Moves.ends (hm : Moves R m) (h : ∀ s s', P s → R s s' → T s') : Ends P m T := by
  intro s a s' hP hrun
  have hmoved := hm s
  rw [hrun] at hmoved
  exact h s s' hP hmoved

theorem throws_bind (hm : Throws P m Q) (hends : Ends P m T) (hk : ∀ a, Throws T (k a) Q) :
    Throws P (m >>= k) Q := by
  intro s e s' hP hrun
  rcases bind_eq_error hrun with hfirst | ⟨a, s₁, hfirst, hrest⟩
  · exact hm s e s' hP hfirst
  · exact hk a s₁ e s' (hends s a s₁ hP hfirst) hrest

theorem throws_each {f : α → Prog S E Unit} (hf : ∀ a, Throws P (f a) Q) (hends : ∀ a, Ends P (f a) P)
    (l : List α) : Throws P (each f l) Q := by
  induction l with
  | nil => exact throws_pure ()
  | cons a l ih => exact throws_bind (hf a) (hends a) fun _ => ih

/-- A beginning that asks nothing. -/
theorem ahead_pure (h : Throws P m Q') : Ahead P Q Q' (pure ()) m :=
  fun s e s' hP hrun => .inr ⟨⟨s, rfl⟩, h s e s' hP hrun⟩

/-- The same first part, and a beginning of the rest. -/
theorem ahead_bind (hm : Throws P m Q) (hends : Ends P m T) (hk : ∀ a, Ahead T Q Q' (first a) (k a)) :
    Ahead P Q Q' (m >>= first) (m >>= k) := by
  intro s e s' hP hrun
  rcases bind_eq_error hrun with hthrown | ⟨a, s₁, hok, hrest⟩
  · exact .inl ⟨bind_of_error hthrown, hm s e s' hP hthrown⟩
  · rw [bind_of_ok hok]
    exact hk a s₁ e s' (hends s a s₁ hP hok) hrest

/-- The beginning is the first part. -/
theorem ahead_first {first : Prog S E Unit} {k : Unit → Prog S E β} (hm : Throws P first Q)
    (hends : Ends P first T) (hk : Throws T (k ()) Q') : Ahead P Q Q' first (first >>= k) := by
  intro s e s' hP hrun
  rcases bind_eq_error hrun with hthrown | ⟨_, s₁, hok, hrest⟩
  · exact .inl ⟨hthrown, hm s e s' hP hthrown⟩
  · exact .inr ⟨⟨s₁, hok⟩, hk s₁ e s' (hends s () s₁ hP hok) hrest⟩

/-- A look at the state follows. -/
theorem Ahead.bind_read {first : Prog S E Unit} (h : Ahead P Q Q' first m) (f : S → β) :
    Ahead P Q Q' first (m >>= fun _ => read f) := by
  intro s e s' hP hrun
  rcases bind_eq_error hrun with hm | ⟨_, _, _, hread⟩
  · exact h s e s' hP hm
  · cases hread

theorem Ahead.mono {first : Prog S E Unit} {Q₁ : E → S → Prop} (h : Ahead P Q Q' first m)
    (hle : ∀ e s, Q' e s → Q₁ e s) : Ahead P Q Q₁ first m :=
  fun s e s' hP hrun => (h s e s' hP hrun).imp id (And.imp id (hle e s'))

theorem ahead_ite {c : Prop} [Decidable c] {first first' : Prog S E Unit} {m m' : Prog S E α}
    (h : c → Ahead P Q Q' first (m >>= k)) (h' : ¬ c → Ahead P Q Q' first' (m' >>= k)) :
    Ahead P Q Q' (if c then first else first') ((if c then m else m') >>= k) := by
  split
  next hc => exact h hc
  next hc => exact h' hc

end Beginnings

end Interruption
