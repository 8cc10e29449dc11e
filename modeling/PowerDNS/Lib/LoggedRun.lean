import Mathlib.Data.List.Basic
import Mathlib.Tactic.Common

/-!
# Programs that log what they do

A program that talks to an environment is a state transformer over a world `W` that also
emits the list of events `E` it caused. Calls to the environment are arbitrary steps of the
world, so a fact proved for all worlds and all environment steps holds against an
adversarial environment.

`AssumeGuarantee A G Q m` says that in every run of `m` whose events all meet `A`, all
events meet `G` and the result meets `Q`. `A` reads as the condition on what the
environment put into the log, `G` as the safety property of what the program did with it.
The rules below follow the structure of a program (`pure`, `bind`, `tell`, `call`).

`Triple P G m Q` is for facts that need the world: from every world with `P`, the events of `m`
all meet `G`, and the result and the world it leaves meet `Q`. It has the same rules.
-/

namespace LoggedRun

open List

/-- A program with results in `α` over worlds `W` that emits events `E`. -/
def LogM (W E : Type*) (α : Type) := W → α × W × List E

variable {W E : Type*} {α β : Type}

namespace LogM

/-- The result of a run. -/
def value (m : LogM W E α) (w : W) : α := (m w).1

/-- The world a run leaves. -/
def final (m : LogM W E α) (w : W) : W := (m w).2.1

/-- The events of a run, in order. -/
def log (m : LogM W E α) (w : W) : List E := (m w).2.2

/-- Emits one event. -/
def tell (e : E) : LogM W E Unit := fun w => ((), w, [e])

/-- A step of the environment: the world moves and hands out an answer. -/
def call (f : W → W × α) : LogM W E α := fun w => ((f w).2, (f w).1, [])

instance : Monad (LogM W E) where
  pure a := fun w => (a, w, [])
  bind m k := fun w =>
    ((k (m w).1 (m w).2.1).1, (k (m w).1 (m w).2.1).2.1,
      (m w).2.2 ++ (k (m w).1 (m w).2.1).2.2)

/-! ### Running a program -/

variable {m : LogM W E α} {k : α → LogM W E β} {w : W}

/-- What follows a program only sees its run. -/
theorem bind_congr {m' : LogM W E α} {w' : W} (h : m w = m' w') :
    (m >>= k) w = (m' >>= k) w' := by
  change (_, _, (m w).2.2 ++ _) = (_, _, (m' w').2.2 ++ _)
  rw [h]

theorem value_bind : (m >>= k).value w = (k (m.value w)).value (m.final w) := rfl

@[simp] theorem value_pure (a : α) : (pure a : LogM W E α).value w = a := rfl

@[simp] theorem final_pure (a : α) : (pure a : LogM W E α).final w = w := rfl

theorem log_bind : (m >>= k).log w = m.log w ++ (k (m.value w)).log (m.final w) := rfl

@[simp] theorem log_pure (a : α) : (pure a : LogM W E α).log w = [] := rfl

@[simp] theorem log_call (f : W → W × α) : (call f : LogM W E α).log w = [] := rfl

@[simp] theorem log_tell (e : E) : (tell e : LogM W E Unit).log w = [e] := rfl

end LogM

/-- In every run of `m` whose events all meet `A`, the events all meet `G` and the result
meets `Q`. -/
def AssumeGuarantee (A G : E → Prop) (Q : α → Prop) (m : LogM W E α) : Prop :=
  ∀ w, (∀ e ∈ m.log w, A e) → (∀ e ∈ m.log w, G e) ∧ Q (m.value w)

namespace AssumeGuarantee

variable {A G : E → Prop} {Q : α → Prop} {R : β → Prop}

protected theorem pure {a : α} (h : Q a) :
    AssumeGuarantee A G Q (pure a : LogM W E α) :=
  fun _ _ => ⟨fun _ he => absurd he not_mem_nil, h⟩

protected theorem bind {m : LogM W E α} {k : α → LogM W E β}
    (hm : AssumeGuarantee A G Q m) (hk : ∀ a, Q a → AssumeGuarantee A G R (k a)) :
    AssumeGuarantee A G R (m >>= k) := by
  intro w hA
  obtain ⟨hG₁, hQ⟩ := hm w fun e he => hA e (mem_append_left _ he)
  obtain ⟨hG₂, hR⟩ := hk _ hQ (m w).2.1 fun e he => hA e (mem_append_right _ he)
  refine ⟨fun e he => ?_, hR⟩
  exact (mem_append.mp he).elim (hG₁ e) (hG₂ e)

/-- An event may be emitted when the guarantee follows from the assumption on it; the
assumption is then available to what comes after. -/
theorem tell {e : E} (h : A e → G e) :
    AssumeGuarantee A G (fun _ => A e) (LogM.tell e : LogM W E Unit) := by
  intro w hA
  have hAe : A e := hA e (mem_singleton.mpr rfl)
  refine ⟨fun e' he' => ?_, hAe⟩
  obtain rfl : e' = e := mem_singleton.mp he'
  exact h hAe

/-- A step of the environment emits nothing; of its answer nothing is known. -/
theorem call {f : W → W × α} :
    AssumeGuarantee A G (fun _ => True) (LogM.call f : LogM W E α) :=
  fun _ _ => ⟨fun _ he => absurd he not_mem_nil, trivial⟩

/-- After a step of the environment, whatever it answered. -/
theorem call_bind {f : W → W × α} {k : α → LogM W E β}
    (hk : ∀ a, AssumeGuarantee A G R (k a)) : AssumeGuarantee A G R (LogM.call f >>= k) :=
  AssumeGuarantee.bind call fun a _ => hk a

theorem mono {Q' : α → Prop} {m : LogM W E α} (hm : AssumeGuarantee A G Q m)
    (h : ∀ a, Q a → Q' a) : AssumeGuarantee A G Q' m :=
  fun w hA => ⟨(hm w hA).1, h _ (hm w hA).2⟩

/-- Emitting a list of events, each covered by the guarantee. -/
theorem forM {γ : Type*} {f : γ → LogM W E Unit} {xs : List γ}
    (h : ∀ x ∈ xs, AssumeGuarantee A G (fun _ => True) (f x)) :
    AssumeGuarantee A G (fun _ => True) (xs.forM f) := by
  induction xs with
  | nil => exact AssumeGuarantee.pure trivial
  | cons x xs ih =>
    exact (h x mem_cons_self).bind fun _ _ =>
      ih fun y hy => h y (mem_cons_of_mem _ hy)

end AssumeGuarantee

/-- From every world with `P`, the events of `m` all meet `G`, and its result and the world it
leaves meet `Q`. -/
def Triple (P : W → Prop) (G : E → Prop) (m : LogM W E α) (Q : α → W → Prop) : Prop :=
  ∀ w, P w → (∀ e ∈ m.log w, G e) ∧ Q (m.value w) (m.final w)

namespace Triple

variable {P : W → Prop} {G : E → Prop} {Q : α → W → Prop} {R : β → W → Prop}

protected theorem pure {a : α} (h : ∀ w, P w → Q a w) :
    Triple P G (pure a : LogM W E α) Q :=
  fun w hP => ⟨fun _ he => absurd he not_mem_nil, h w hP⟩

variable {m : LogM W E α}

protected theorem bind {k : α → LogM W E β} (hm : Triple P G m Q)
    (hk : ∀ a, Triple (Q a) G (k a) R) : Triple P G (m >>= k) R := by
  intro w hP
  obtain ⟨hG₁, hQ⟩ := hm w hP
  obtain ⟨hG₂, hR⟩ := hk _ _ hQ
  refine ⟨fun e he => ?_, hR⟩
  exact (mem_append.mp he).elim (hG₁ e) (hG₂ e)

theorem call {f : W → W × α} (h : ∀ w, P w → Q (f w).2 (f w).1) :
    Triple P G (LogM.call f : LogM W E α) Q :=
  fun w hP => ⟨fun _ he => absurd he not_mem_nil, h w hP⟩

/-- A step of the environment, and what comes after it. -/
theorem call_bind {f : W → W × α} {k : α → LogM W E β} (h : ∀ w, P w → Q (f w).2 (f w).1)
    (hk : ∀ a, Triple (Q a) G (k a) R) : Triple P G (LogM.call f >>= k) R :=
  Triple.bind (call h) hk

theorem tell {e : E} (h : G e) : Triple P G (LogM.tell e : LogM W E Unit) fun _ => P := by
  intro w hP
  refine ⟨fun e' he' => ?_, hP⟩
  obtain rfl : e' = e := mem_singleton.mp he'
  exact h

theorem mono {Q' : α → W → Prop} (hm : Triple P G m Q)
    (h : ∀ a w, Q a w → Q' a w) : Triple P G m Q' :=
  fun w hP => ⟨(hm w hP).1, h _ _ (hm w hP).2⟩

theorem pre {P' : W → Prop} (hm : Triple P G m Q) (h : ∀ w, P' w → P w) :
    Triple P' G m Q :=
  fun w hP => hm w (h w hP)

theorem weaken {G' : E → Prop} (hm : Triple P G m Q) (h : ∀ e, G e → G' e) :
    Triple P G' m Q :=
  fun w hP => ⟨fun e he => h e ((hm w hP).1 e he), (hm w hP).2⟩

/-- What holds before and says nothing about the world is a hypothesis. -/
theorem given {p : Prop} (hm : p → Triple P G m Q) :
    Triple (fun w => p ∧ P w) G m Q :=
  fun w hP => hm hP.1 w hP.2

/-- A loop over a list keeps what each of its rounds keeps. -/
theorem forM {γ : Type*} {f : γ → LogM W E Unit} {xs : List γ}
    (h : ∀ x ∈ xs, Triple P G (f x) fun _ => P) : Triple P G (xs.forM f) fun _ => P := by
  induction xs with
  | nil => exact Triple.pure fun _ hP => hP
  | cons x xs ih =>
    exact (h x mem_cons_self).bind fun _ => ih fun y hy => h y (mem_cons_of_mem _ hy)

end Triple

end LoggedRun
