import PowerDNS.Lib.GuardedRun

/-!
# Machines that answer

A component whose calls return something is a step function `step : σ → ω → σ × β`: the state behind
the call, and what the caller gets. `answers step s ops` are the answers to a list of calls.

Two such machines are compared by a relation between their states that every call keeps, and under
which a call gets the same answer from both; `answers_eq_of_simulation` is the rule. The calls may be
guarded, as in `GuardedRun`.
-/

namespace AnsweringRun

open GuardedRun

variable {σ τ ω β : Type*} {step : σ → ω → σ × β} {step' : τ → ω → τ × β} {ok : σ → ω → Prop}

/-- The answers to the calls, one after the other. -/
def answers (step : σ → ω → σ × β) : σ → List ω → List β
  | _, [] => []
  | s, o :: ops => (step s o).2 :: answers step (step s o).1 ops

@[simp] theorem answers_cons (s : σ) (o : ω) (ops : List ω) :
    answers step s (o :: ops) = (step s o).2 :: answers step (step s o).1 ops := rfl

/-- The state behind a call. -/
def next (step : σ → ω → σ × β) (s : σ) (o : ω) : σ := (step s o).1

/-- The answers, each one changed by `f`. -/
theorem answers_map {γ : Type*} (f : β → γ) (s : σ) (ops : List ω) :
    (answers step s ops).map f = answers (fun s o => ((step s o).1, f (step s o).2)) s ops := by
  induction ops generalizing s with
  | nil => rfl
  | cons o ops ih => exact congrArg (f (step s o).2 :: ·) (ih (step s o).1)

/-- **The simulation rule.** Machines in related states give the same answers, when each call does and
keeps the states related. -/
theorem answers_eq_of_simulation {R : σ → τ → Prop}
    (hstep : ∀ s t o, R s t → ok s o →
      (step s o).2 = (step' t o).2 ∧ R (step s o).1 (step' t o).1)
    {s : σ} {t : τ} {ops : List ω} (hR : R s t) (hg : Guarded (next step) ok s ops) :
    answers step s ops = answers step' t ops := by
  induction ops generalizing s t with
  | nil => rfl
  | cons o ops ih =>
    obtain ⟨hanswer, hR'⟩ := hstep s t o hR hg.1
    rw [answers_cons, answers_cons, hanswer, ih hR' hg.2]

/-- The same without guards. -/
theorem answers_eq {R : σ → τ → Prop}
    (hstep : ∀ s t o, R s t → (step s o).2 = (step' t o).2 ∧ R (step s o).1 (step' t o).1)
    {s : σ} {t : τ} (hR : R s t) (ops : List ω) : answers step s ops = answers step' t ops :=
  answers_eq_of_simulation (fun s t o hR _ => hstep s t o hR) hR (guarded_true s ops)

end AnsweringRun
