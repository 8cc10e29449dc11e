import Mathlib.Data.List.Induction
import Mathlib.Logic.Function.Basic
import PowerDNS.Lib.GuardedRun

/-!
# Caches of computed values

A value is computed for a request and kept under a key of that request; a later request with the same key is
given the kept value. A request may have no key, or its value may not come about; nothing is kept then.

`served_explained` is the rule: what a request is given was computed for it or for an earlier request with the
same key. Whether the cache can be noticed is then a question about two requests: `served_transparent`.
-/

namespace KeyedCache

variable {R Q V : Type*} [DecidableEq Q]

/-- What a request is given, and the cache behind it. -/
def serve (key : R → Option Q) (fresh : R → Option V) (cache : Q → Option V) (r : R) :
    Option V × (Q → Option V) :=
  match key r with
  | none => (none, cache)
  | some k =>
    match cache k with
    | some v => (some v, cache)
    | none =>
      match fresh r with
      | none => (none, cache)
      | some v => (some v, Function.update cache k (some v))

/-- The cache behind requests, from an empty one. -/
def after (key : R → Option Q) (fresh : R → Option V) (history : List R) : Q → Option V :=
  GuardedRun.run (fun cache r => (serve key fresh cache r).2) (fun _ => none) history

variable {key : R → Option Q} {fresh : R → Option V} {cache : Q → Option V} {history : List R} {r : R} {v : V}

/-- Every kept value was computed for a request with that key. -/
def Explained (key : R → Option Q) (fresh : R → Option V) (history : List R) (cache : Q → Option V) : Prop :=
  ∀ k v, cache k = some v → ∃ e ∈ history, key e = some k ∧ fresh e = some v

/-- What a request is given was kept under its key, or is computed. -/
theorem serve_eq_some (h : (serve key fresh cache r).1 = some v) :
    ∃ k, key r = some k ∧ (cache k = some v ∨ fresh r = some v) := by
  unfold serve at h
  cases hkey : key r with
  | none =>
    rw [hkey] at h
    cases h
  | some k =>
    rw [hkey] at h
    dsimp only at h
    refine ⟨k, rfl, ?_⟩
    cases hkept : cache k with
    | some v' =>
      rw [hkept] at h
      exact .inl h
    | none =>
      rw [hkept] at h
      cases hfresh : fresh r with
      | none =>
        rw [hfresh] at h
        cases h
      | some v' =>
        rw [hfresh] at h
        exact .inr h

/-- A step keeps a value for its own request at most. -/
theorem serve_kept {k : Q} (h : (serve key fresh cache r).2 k = some v) :
    cache k = some v ∨ (key r = some k ∧ fresh r = some v) := by
  unfold serve at h
  split at h
  next => exact .inl h
  next k' hkey =>
    split at h
    next => exact .inl h
    next =>
      split at h
      next => exact .inl h
      next v' hfresh =>
        dsimp only at h
        by_cases hk : k = k'
        · rw [hk, Function.update_self] at h
          exact .inr ⟨by rw [hkey, hk], by rw [hfresh, h]⟩
        · rw [Function.update_of_ne hk] at h
          exact .inl h

theorem explained_after (history : List R) : Explained key fresh history (after key fresh history) := by
  unfold after
  induction history using List.reverseRecOn with
  | nil => exact fun _ _ h => nomatch h
  | append_singleton history r ih =>
    intro k v h
    rw [GuardedRun.run_append] at h
    rcases serve_kept h with h | ⟨hkey, hfresh⟩
    · obtain ⟨e, he, hkey, hfresh⟩ := ih k v h
      exact ⟨e, List.mem_append_left _ he, hkey, hfresh⟩
    · exact ⟨r, List.mem_append_right _ (List.mem_singleton.mpr rfl), hkey, hfresh⟩

/-- **What is served has been computed** for the request or for an earlier one with its key. -/
theorem served_explained (h : (serve key fresh (after key fresh history) r).1 = some v) :
    ∃ e, (e = r ∨ e ∈ history) ∧ key e = key r ∧ fresh e = some v := by
  obtain ⟨k, hkey, hkept | hfresh⟩ := serve_eq_some h
  · obtain ⟨e, he, hkey', hfresh⟩ := explained_after history k v hkept
    exact ⟨e, .inr he, hkey'.trans hkey.symm, hfresh⟩
  · exact ⟨r, .inl rfl, rfl, hfresh⟩

/-- **A cache is not noticed** by a request that agrees with all earlier requests of its key about the values. -/
theorem served_transparent {good : V → Prop} (hfresh : ∀ v, fresh r = some v → good v)
    (hagree : ∀ e ∈ history, key e = key r → ∀ v, fresh e = some v → good v)
    (h : (serve key fresh (after key fresh history) r).1 = some v) : good v := by
  obtain ⟨e, rfl | he, hkey, hv⟩ := served_explained h
  · exact hfresh v hv
  · exact hagree e he hkey v hv

end KeyedCache
