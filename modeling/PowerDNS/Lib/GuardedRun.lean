import Mathlib.Data.List.Basic
import Mathlib.Logic.Function.Iterate
import Mathlib.Order.WellFounded
import Mathlib.Tactic.Common

/-!
# Guarded runs of a step function

A component whose operations are total is a step function `step : σ → ω → σ`, and a
run of it is the fold of `step` over a list of operations. Most facts about such a
component hold only along runs that are *guarded*: every operation meets a condition
`ok s o` on the state it is applied to (a clock that does not go back, an argument in
range, a branch that is not taken).

* `run step s ops` — the state after `ops`;
* `Guarded step ok s ops` — every operation of the run meets `ok` in its pre-state;
* `run_invariant` — an invariant kept by every guarded step holds after every guarded
  run;
* `run_forall_step` — a property of single steps that follows from the invariant and
  the guard holds of every step of a guarded run;
* `exists_iterate_of_decreasing` — a machine without operations, `f^[n] s`, comes to its
  end when a measure goes down until then.
-/

namespace GuardedRun

variable {σ ω : Type*} {step : σ → ω → σ} {ok : σ → ω → Prop}

/-- The state reached from `s` by performing `ops` in order. -/
def run (step : σ → ω → σ) : σ → List ω → σ
  | s, [] => s
  | s, o :: ops => run step (step s o) ops

@[simp] theorem run_nil (s : σ) : run step s [] = s := rfl

@[simp] theorem run_cons (s : σ) (o : ω) (ops : List ω) :
    run step s (o :: ops) = run step (step s o) ops := rfl

theorem run_append (s : σ) (xs ys : List ω) :
    run step s (xs ++ ys) = run step (run step s xs) ys := by
  induction xs generalizing s with
  | nil => rfl
  | cons o xs ih => exact ih (step s o)

/-- Every operation of the run meets `ok` in the state it is performed in. -/
def Guarded (step : σ → ω → σ) (ok : σ → ω → Prop) : σ → List ω → Prop
  | _, [] => True
  | s, o :: ops => ok s o ∧ Guarded step ok (step s o) ops

@[simp] theorem guarded_nil (s : σ) : Guarded step ok s [] := trivial

@[simp] theorem guarded_cons (s : σ) (o : ω) (ops : List ω) :
    Guarded step ok s (o :: ops) ↔ ok s o ∧ Guarded step ok (step s o) ops := Iff.rfl

/-- Whether a run is guarded can be computed when every guard can. -/
instance decidableGuarded [∀ s o, Decidable (ok s o)] :
    ∀ (s : σ) (ops : List ω), Decidable (Guarded step ok s ops)
  | _, [] => isTrue trivial
  | s, o :: ops =>
    have := decidableGuarded (step s o) ops
    inferInstanceAs (Decidable (ok s o ∧ Guarded step ok (step s o) ops))

theorem guarded_append (s : σ) (xs ys : List ω) :
    Guarded step ok s (xs ++ ys) ↔
      Guarded step ok s xs ∧ Guarded step ok (run step s xs) ys := by
  induction xs generalizing s with
  | nil => simp
  | cons o xs ih => simp [ih (step s o), and_assoc]

theorem guarded_true (s : σ) (ops : List ω) : Guarded step (fun _ _ => True) s ops := by
  induction ops generalizing s with
  | nil => trivial
  | cons o ops ih => exact ⟨trivial, ih _⟩

theorem Guarded.mono {ok' : σ → ω → Prop} {s : σ} {ops : List ω} (h : Guarded step ok s ops)
    (himp : ∀ s o, ok s o → ok' s o) : Guarded step ok' s ops := by
  induction ops generalizing s with
  | nil => trivial
  | cons o ops ih => exact ⟨himp s o h.1, ih h.2⟩

/-- The operations of a run are known to be among those it was given. -/
theorem Guarded.and_mem {s : σ} {ops all : List ω} (h : Guarded step ok s ops)
    (hsub : ∀ o ∈ ops, o ∈ all) : Guarded step (fun s o => ok s o ∧ o ∈ all) s ops := by
  induction ops generalizing s with
  | nil => trivial
  | cons o ops ih =>
    exact ⟨⟨h.1, hsub o List.mem_cons_self⟩,
      ih h.2 fun o' ho' => hsub o' (List.mem_cons_of_mem _ ho')⟩

/-- **The invariant rule.** An invariant that every guarded step keeps holds after
every guarded run. -/
theorem run_invariant {I : σ → Prop} (hstep : ∀ s o, I s → ok s o → I (step s o))
    {s : σ} {ops : List ω} (hI : I s) (hg : Guarded step ok s ops) :
    I (run step s ops) := by
  induction ops generalizing s with
  | nil => exact hI
  | cons o ops ih => exact ih (hstep s o hI hg.1) hg.2

/-- **The step rule.** In a guarded run, what the invariant and the guard say about a
single step holds of every step, wherever the run is cut. -/
theorem run_forall_step {I : σ → Prop} {P : σ → ω → Prop}
    (hstep : ∀ s o, I s → ok s o → I (step s o)) (hP : ∀ s o, I s → ok s o → P s o)
    {s : σ} {xs ys : List ω} {o : ω} (hI : I s)
    (hg : Guarded step ok s (xs ++ o :: ys)) : P (run step s xs) o := by
  rw [guarded_append] at hg
  exact hP _ _ (run_invariant hstep hI hg.1) hg.2.1

/-- A machine that steps by itself, and of which a measure goes down until it is done, is done after
some steps. -/
theorem exists_iterate_of_decreasing {τ : Type*} [Preorder τ] [WellFoundedLT τ] {f : σ → σ}
    {I done : σ → Prop} {measure : σ → τ} (hkept : ∀ s, I s → I (f s))
    (hless : ∀ s, I s → ¬done s → measure (f s) < measure s) {s : σ} (hI : I s) :
    ∃ n, done (f^[n] s) := by
  induction h : measure s using WellFoundedLT.induction generalizing s with
  | ind m ih =>
    by_cases hdone : done s
    · exact ⟨0, hdone⟩
    · obtain ⟨n, hn⟩ := ih (measure (f s)) (h ▸ hless s hI hdone) (hkept s hI) rfl
      exact ⟨n + 1, hn⟩

end GuardedRun
