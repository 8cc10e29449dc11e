import Mathlib.Data.List.Basic
import Mathlib.Tactic.Common

/-!
# Quoted texts with escapes

A text is put between quotes, and what would end it early gets an escape character in front:
`escapeWith e special s`. A reader takes what stands in front of the closing quote (`takeQuoted e q`).

`takeQuoted_escapeWith` says that nothing is lost, for any text and whatever follows it, when the quote and the
escape character are among the characters that are escaped.
-/

namespace EscapedText

variable {α : Type*}

/-- A text with an escape character in front of each special one. -/
def escapeWith (e : α) (special : α → Prop) [DecidablePred special] (s : List α) : List α :=
  s.flatMap fun c => if special c then [e, c] else [c]

section Escape

variable {e c : α} {special : α → Prop} [DecidablePred special] {s : List α}

theorem escapeWith_cons : escapeWith e special (c :: s) =
    (if special c then [e, c] else [c]) ++ escapeWith e special s := rfl

theorem escapeWith_cons_of_pos (h : special c) :
    escapeWith e special (c :: s) = e :: c :: escapeWith e special s := by
  rw [escapeWith_cons, if_pos h]
  rfl

theorem escapeWith_cons_of_neg (h : ¬ special c) :
    escapeWith e special (c :: s) = c :: escapeWith e special s := by
  rw [escapeWith_cons, if_neg h]
  rfl

end Escape

section Reading

variable [DecidableEq α]

/-- What stands in front of the quote `q` that ends the text, as it is, and what stands behind it. -/
def takeQuoted (e q : α) : List α → Option (List α × List α)
  | [] => none
  | c :: s =>
    if c = e then
      match s with
      | [] => none
      | d :: s => (takeQuoted e q s).map fun r => (c :: d :: r.1, r.2)
    else if c = q then some ([], s)
    else (takeQuoted e q s).map fun r => (c :: r.1, r.2)

variable {e q : α} {special : α → Prop} [DecidablePred special]

theorem takeQuoted_quote (hne : q ≠ e) (rest : List α) : takeQuoted e q (q :: rest) = some ([], rest) := by
  rw [takeQuoted.eq_def]
  exact (if_neg hne).trans (if_pos rfl)

theorem takeQuoted_escape (c : α) (s : List α) :
    takeQuoted e q (e :: c :: s) = (takeQuoted e q s).map fun r => (e :: c :: r.1, r.2) := by
  exact if_pos rfl

theorem takeQuoted_plain {c : α} (he : c ≠ e) (hq : c ≠ q) (s : List α) :
    takeQuoted e q (c :: s) = (takeQuoted e q s).map fun r => (c :: r.1, r.2) := by
  rw [takeQuoted.eq_def]
  exact (if_neg he).trans (if_neg hq)

/-- **No text ends its literal early.** -/
theorem takeQuoted_escapeWith (he : special e) (hq : special q) (hne : q ≠ e) (s rest : List α) :
    takeQuoted e q (escapeWith e special s ++ q :: rest) = some (escapeWith e special s, rest) := by
  induction s with
  | nil => exact takeQuoted_quote hne rest
  | cons c s ih =>
    by_cases hc : special c
    · rw [escapeWith_cons_of_pos hc, List.cons_append, List.cons_append, takeQuoted_escape, ih]
      rfl
    · have hce : c ≠ e := fun h => hc (h ▸ he)
      have hcq : c ≠ q := fun h => hc (h ▸ hq)
      rw [escapeWith_cons_of_neg hc, List.cons_append, takeQuoted_plain hce hcq, ih]
      rfl

end Reading

end EscapedText
