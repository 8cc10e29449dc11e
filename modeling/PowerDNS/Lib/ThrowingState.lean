import Mathlib.Data.List.Basic
import Mathlib.Tactic.Common

/-!
# Programs that throw and leave their state behind

An object with mutable fields is a state `σ`, and a method that may throw is a program
`σ → Except ε α × σ`: what it did to the fields before it threw stays done, and whoever catches
the exception sees it. (`StateT σ (Except ε)` would forget it.)

* `Prog.run_bind_ok`, `Prog.run_bind_error` — how a call runs on;
* `Yields I J E m` — from a state that meets `I` the program returns in a state that meets `J`,
  or it throws something that meets `E`. The rules follow the structure of a program.
-/

namespace ThrowingState

/-- A program with results in `α` over states `σ` that may throw an `ε`. -/
structure Prog (σ ε : Type*) (α : Type) where
  run : σ → Except ε α × σ

variable {σ ε : Type*} {α β : Type}

namespace Prog

instance : Monad (Prog σ ε) where
  pure a := ⟨fun s => (.ok a, s)⟩
  bind m k := ⟨fun s =>
    match m.run s with
    | (.ok a, s') => (k a).run s'
    | (.error e, s') => (.error e, s')⟩

/-- Throws, and leaves the state as it is. -/
def raise (e : ε) : Prog σ ε α := ⟨fun s => (.error e, s)⟩

/-- Looks at the state. -/
def look (f : σ → α) : Prog σ ε α := ⟨fun s => (.ok (f s), s)⟩

@[simp] theorem run_pure (a : α) (s : σ) : (pure a : Prog σ ε α).run s = (.ok a, s) := rfl

@[simp] theorem run_look_bind (f : σ → α) (k : α → Prog σ ε β) (s : σ) :
    (look f >>= k).run s = (k (f s)).run s := rfl

/-- A call that returns. -/
theorem run_bind_ok {m : Prog σ ε α} {k : α → Prog σ ε β} {s s' : σ} {a : α}
    (h : m.run s = (.ok a, s')) : (m >>= k).run s = (k a).run s' := by
  change (match m.run s with | (.ok a, s') => (k a).run s' | (.error e, s') => (.error e, s')) = _
  rw [h]

/-- A call that throws. -/
theorem run_bind_error {m : Prog σ ε α} {k : α → Prog σ ε β} {s s' : σ} {e : ε}
    (h : m.run s = (.error e, s')) : (m >>= k).run s = (.error e, s') := by
  change (match m.run s with | (.ok a, s') => (k a).run s' | (.error e, s') => (.error e, s')) = _
  rw [h]

end Prog

/-- From a state that meets `I` the program returns in a state that meets `J`, or it throws
something that meets `E`. -/
def Yields (I J : σ → Prop) (E : ε → Prop) (m : Prog σ ε α) : Prop :=
  ∀ s, I s → (∃ a s', m.run s = (.ok a, s') ∧ J s') ∨ ∃ e s', m.run s = (.error e, s') ∧ E e

namespace Yields

variable {I J K : σ → Prop} {E : ε → Prop}

protected theorem pure (a : α) : Yields I I E (pure a : Prog σ ε α) :=
  fun s hI => .inl ⟨a, s, rfl, hI⟩

/-- A program that returns leaves its postcondition to what follows. -/
protected theorem bind {m : Prog σ ε α} {k : α → Prog σ ε β} (hm : Yields I J E m)
    (hk : ∀ a, Yields J K E (k a)) : Yields I K E (m >>= k) := by
  intro s hI
  rcases hm s hI with ⟨a, s', hrun, hJ⟩ | ⟨e, s', hrun, hE⟩
  · rw [Prog.run_bind_ok hrun]
    exact hk a s' hJ
  · exact .inr ⟨e, s', Prog.run_bind_error hrun, hE⟩

/-- The rule of consequence. -/
theorem mono {I' J' : σ → Prop} {m : Prog σ ε α} (hm : Yields I J E m) (hI : ∀ s, I' s → I s)
    (hJ : ∀ s, J s → J' s) : Yields I' J' E m :=
  fun s h => (hm s (hI s h)).imp_left fun ⟨a, s', hrun, h'⟩ => ⟨a, s', hrun, hJ s' h'⟩

/-- A precondition that no state meets. -/
theorem of_false {m : Prog σ ε α} (h : ∀ s, ¬I s) : Yields I J E m :=
  fun s hI => absurd hI (h s)

/-- What a program that yields something can throw. -/
theorem error_of_run {m : Prog σ ε α} {s : σ} {e : ε} (hm : Yields I J E m) (hI : I s)
    (h : (m.run s).1 = .error e) : E e := by
  rcases hm s hI with ⟨a, s', hrun, -⟩ | ⟨e', s', hrun, hE⟩
  · rw [hrun] at h
    cases h
  · rw [hrun] at h
    cases h
    exact hE

end Yields

end ThrowingState
