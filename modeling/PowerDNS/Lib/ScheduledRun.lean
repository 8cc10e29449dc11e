import Mathlib.Data.List.Basic

/-!
# Runs that are driven from outside

A program takes one step for each event from outside: what there was to read, how much was taken of what it wrote.
`run` is its state behind so many events of a schedule. Under a `Fair` schedule, in which each kind of event comes
again and again, a program gets somewhere when two things hold of each of its steps: a step leaves the state as it
is or brings a measure down, and as long as the program is not done there is a kind of event that does not leave the
state as it is (`exists_done`).

`loop` is a loop within a step, which takes what it needs from a list and may leave at each turn. `loop_spec` follows
an invariant through it; the invariant knows the states in which the turns so far began.
-/

namespace ScheduledRun

variable {σ ε κ α : Type*}

/-! ### Schedules -/

section Schedules

variable (step : ε → σ → σ) (events : Nat → ε) (s : σ)

/-- The state behind the first `n` events. -/
def run : Nat → σ
  | 0 => s
  | n + 1 => step (events n) (run n)

variable {step events s}

theorem run_spec {P : Nat → σ → Prop} (h : P 0 s) (hstep : ∀ n s, P n s → P (n + 1) (step (events n) s)) (n : Nat) :
    P n (run step events s n) := by
  induction n with
  | zero => exact h
  | succ n ih => exact hstep n _ ih

/-- Each kind of event comes again and again. -/
def Fair (kind : κ → ε → Prop) (events : Nat → ε) : Prop := ∀ k n, ∃ m, n ≤ m ∧ kind k (events m)

variable {P done : σ → Prop} {μ : σ → Nat} {kind : κ → ε → Prop}

/-- Behind any number of further events the state is the same, or the measure has come down. -/
theorem run_eq_or_lt (hP : ∀ n, P (run step events s n)) (hstep : ∀ e s, P s → step e s = s ∨ μ (step e s) < μ s)
    (n j : Nat) :
    run step events s (n + j) = run step events s n ∨ μ (run step events s (n + j)) < μ (run step events s n) := by
  induction j with
  | zero => exact .inl rfl
  | succ j ih =>
    have hlast := hstep (events (n + j)) _ (hP (n + j))
    change step (events (n + j)) (run step events s (n + j)) = _ ∨
      μ (step (events (n + j)) (run step events s (n + j))) < _
    rcases ih with hsame | hless
    · rwa [hsame] at hlast ⊢
    · rcases hlast with hkept | hlower
      · rw [hkept]
        exact .inr hless
      · exact .inr (Nat.lt_trans hlower hless)

/-- **Under a fair schedule the program gets done.** -/
theorem exists_done (h : P s) (hP : ∀ e s, P s → P (step e s))
    (hstep : ∀ e s, P s → step e s = s ∨ μ (step e s) < μ s)
    (hlive : ∀ s, P s → ¬ done s → ∃ k, ∀ e, kind k e → step e s ≠ s) (hfair : Fair kind events) :
    ∃ n, done (run step events s n) := by
  have hall (n : Nat) : P (run step events s n) := run_spec (P := fun _ => P) h (fun n s => hP (events n) s) n
  suffices hfrom : ∀ k n, μ (run step events s n) = k → ∃ m, done (run step events s m) from hfrom _ 0 rfl
  intro k
  induction k using Nat.strongRecOn with
  | ind k ih =>
    intro n hn
    by_cases hdone : done (run step events s n)
    · exact ⟨n, hdone⟩
    obtain ⟨kd, hmoves⟩ := hlive _ (hall n) hdone
    obtain ⟨m, hle, hevent⟩ := hfair kd n
    -- When nothing has changed until the event comes, it changes something itself.
    have hlower : ∃ m, μ (run step events s m) < μ (run step events s n) := by
      rcases run_eq_or_lt hall hstep n (m - n) with hsame | hless
      · rw [Nat.add_sub_cancel' hle] at hsame
        rcases hstep (events m) _ (hall m) with hkept | hless
        · rw [hsame] at hkept
          exact absurd hkept (hmoves _ hevent)
        · rw [hsame] at hless
          exact ⟨m + 1, by change μ (step _ _) < _; rwa [hsame]⟩
      · exact ⟨_, hless⟩
    obtain ⟨m', hm'⟩ := hlower
    exact ih _ (hn ▸ hm') m' rfl

end Schedules

/-! ### Loops -/

/-- How a turn of a loop ends. -/
inductive Next (σ : Type*)
  | again (s : σ)
  | leave (s : σ)

/-- A loop that takes an element from a list for each turn, and finds none when the list has come to its end: the
state behind it, and the states in which its turns began. -/
def loop (body : Option α → σ → Next σ) : List α → σ → σ × List σ
  | [], s =>
    match body none s with
    | .again s' => (s', [s])
    | .leave s' => (s', [s])
  | a :: l, s =>
    match body (some a) s with
    | .again s' => ((loop body l s').1, s :: (loop body l s').2)
    | .leave s' => (s', [s])

variable {body : Option α → σ → Next σ} {Before After : List σ → σ → Prop}

/-- **An invariant of the turns.** -/
theorem loop_spec (hagain : ∀ a heads s s', Before heads s → body (some a) s = .again s' → Before (heads ++ [s]) s')
    (hleave : ∀ a heads s s', Before heads s → body a s = .leave s' → After (heads ++ [s]) s')
    (hnone : ∀ s s', body none s ≠ .again s') (l : List α) {heads : List σ} {s : σ} (h : Before heads s) :
    After (heads ++ (loop body l s).2) (loop body l s).1 := by
  induction l generalizing heads s with
  | nil =>
    unfold loop
    cases hbody : body none s with
    | again s' => exact absurd hbody (hnone s s')
    | leave s' => exact hleave none heads s s' h hbody
  | cons a l ih =>
    unfold loop
    cases hbody : body (some a) s with
    | again s' =>
      have hrest := ih (hagain a heads s s' h hbody)
      rwa [List.append_assoc, List.singleton_append] at hrest
    | leave s' => exact hleave (some a) heads s s' h hbody

end ScheduledRun
