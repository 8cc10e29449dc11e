import Mathlib.Data.List.Sort
import Mathlib.Order.Defs.LinearOrder

/-!
# Queues of timers

An index that is `ordered_non_unique` on a deadline is a list in ascending order of the deadlines
(`Sorted`), in which a new element goes behind those that are due at the same time (`insert`).
Each element is a node of its own, and an iterator is the node it points to, or `none` at the end:
so it is not moved by what is inserted, and `next` is about the queue as it is at that moment.

`Passed P Q l cursor` says how far an iteration has come that takes out the elements with the
property `P`: no element in front of the cursor has it, and the element at the cursor has the
property `Q`. It is kept when an element without `P` is inserted anywhere, and when the element at
the cursor is taken out and the cursor goes on.
-/

namespace TimerQueue

open List Option

variable {α δ ι : Type*}

/-! ### The order -/

section Order

variable [LinearOrder δ] {due : α → δ}

/-- No element is due before one in front of it. -/
def Sorted (due : α → δ) (l : List α) : Prop := l.Pairwise fun a b => due a ≤ due b

/-- Puts an element behind all that are not due after it. -/
def insert (due : α → δ) (a : α) (l : List α) : List α :=
  l.orderedInsert (fun a b => due a < due b) a

theorem perm_insert (a : α) (l : List α) : (insert due a l).Perm (a :: l) :=
  perm_orderedInsert _ a l

theorem mem_insert {a b : α} {l : List α} : b ∈ insert due a l ↔ b = a ∨ b ∈ l := by
  rw [(perm_insert a l).mem_iff, mem_cons]

/-- Somewhere in the queue. -/
theorem insert_eq (a : α) (l : List α) :
    ∃ before behind, l = before ++ behind ∧ insert due a l = before ++ a :: behind := by
  induction l with
  | nil => exact ⟨[], [], rfl, rfl⟩
  | cons b l ih =>
    unfold insert
    rw [orderedInsert_cons]
    split
    · exact ⟨[], b :: l, rfl, rfl⟩
    · obtain ⟨before, behind, hl, heq⟩ := ih
      exact ⟨b :: before, behind, congrArg _ hl, congrArg _ heq⟩

theorem Sorted.insert {l : List α} (h : Sorted due l) (a : α) :
    Sorted due (TimerQueue.insert due a l) := by
  induction l with
  | nil => exact pairwise_singleton _ _
  | cons b l ih =>
    obtain ⟨hb, hl⟩ := pairwise_cons.1 h
    unfold TimerQueue.insert
    rw [orderedInsert_cons]
    split
    next hab =>
      refine pairwise_cons.2 ⟨fun c hc => ?_, h⟩
      rcases mem_cons.1 hc with rfl | hc
      · exact hab.le
      · exact hab.le.trans (hb c hc)
    next hab =>
      refine pairwise_cons.2 ⟨fun c hc => ?_, ih hl⟩
      rcases mem_insert.1 hc with rfl | hc
      · exact not_lt.1 hab
      · exact hb c hc

end Order

/-! ### Nodes -/

section Nodes

variable [DecidableEq ι] (node : α → ι)

/-- `*i`. -/
def get (l : List α) (i : ι) : Option α := l.find? fun a => node a = i

/-- `begin`. -/
def first (l : List α) : Option ι := l.head?.map node

/-- `i + 1`. -/
def next (l : List α) (i : ι) : Option ι :=
  ((l.dropWhile fun a => node a ≠ i).tail.head?).map node

/-- `erase`. -/
def erase (l : List α) (i : ι) : List α := l.filter fun a => node a ≠ i

variable {node}

variable {l : List α}

theorem mem_erase {i : ι} {a : α} : a ∈ erase node l i ↔ a ∈ l ∧ node a ≠ i := by
  unfold erase
  rw [mem_filter, decide_eq_true_eq]

/-- What an iterator points to, what is behind it, and what is left without it. -/
theorem at_node {l₁ l₂ : List α} {a : α} (hnodes : ((l₁ ++ a :: l₂).map node).Nodup) :
    get node (l₁ ++ a :: l₂) (node a) = some a ∧
      next node (l₁ ++ a :: l₂) (node a) = first node l₂ ∧
      erase node (l₁ ++ a :: l₂) (node a) = l₁ ++ l₂ := by
  rw [map_append, map_cons, nodup_append, nodup_cons] at hnodes
  obtain ⟨-, ⟨h₂, -⟩, h₁⟩ := hnodes
  have hbefore : ∀ b ∈ l₁, node b ≠ node a := fun b hb =>
    h₁ _ (mem_map_of_mem hb) _ mem_cons_self
  have hbehind : ∀ b ∈ l₂, node b ≠ node a := fun b hb heq =>
    h₂ (heq ▸ mem_map_of_mem hb)
  refine ⟨?_, ?_, ?_⟩
  · have hnone : l₁.find? (fun b => node b = node a) = none :=
      find?_eq_none.2 fun b hb => by simpa using hbefore b hb
    unfold get
    rw [find?_append, hnone, none_or]
    exact find?_cons_of_pos (decide_eq_true rfl)
  · unfold next first
    rw [dropWhile_append_of_pos fun b hb => decide_eq_true (hbefore b hb),
      dropWhile_cons_of_neg (by simp)]
    rfl
  · unfold erase
    rw [filter_append, filter_cons_of_neg (by simp),
      filter_eq_self.2 fun b hb => decide_eq_true (hbefore b hb),
      filter_eq_self.2 fun b hb => decide_eq_true (hbehind b hb)]

/-! ### How far an iteration has come -/

/-- No element in front of the cursor has the property `P`, and the one at the cursor has the
property `Q`. -/
def Passed (node : α → ι) (P Q : α → Prop) (l : List α) : Option ι → Prop
  | none => ∀ x ∈ l, ¬ P x
  | some i => ∃ l₁ a l₂, l = l₁ ++ a :: l₂ ∧ node a = i ∧ Q a ∧ ∀ x ∈ l₁, ¬ P x

variable {P Q : α → Prop}

omit [DecidableEq ι] in
theorem passed_append {l₁ l₂ : List α} (hP : ∀ x ∈ l₁, ¬ P x) (hQ : ∀ x ∈ l₂, Q x) :
    Passed node P Q (l₁ ++ l₂) (first node l₂) := by
  cases l₂ with
  | nil => rwa [append_nil]
  | cons a l₂ => exact ⟨l₁, a, l₂, rfl, rfl, hQ a mem_cons_self, hP⟩

omit [DecidableEq ι] in
/-- Nothing is in front of the first element. -/
theorem passed_first (hQ : ∀ x ∈ l, Q x) : Passed node P Q l (first node l) :=
  @passed_append _ _ node P Q [] l nofun hQ

omit [DecidableEq ι] in
/-- An element without the property is put somewhere. -/
theorem Passed.insert [LinearOrder δ] {due : α → δ} {cursor : Option ι}
    (h : Passed node P Q l cursor) {b : α} (hb : ¬ P b) :
    Passed node P Q (insert due b l) cursor := by
  cases cursor with
  | none =>
    intro x hx
    rcases mem_insert.1 hx with rfl | hx
    · exact hb
    · exact h x hx
  | some i =>
    obtain ⟨l₁, a, l₂, rfl, hnode, hQ, hP⟩ := h
    obtain ⟨before, behind, hl, heq⟩ := @insert_eq _ _ _ due b (l₁ ++ a :: l₂)
    rw [heq]
    rcases append_eq_append_iff.1 hl with ⟨mid, rfl, hbehind⟩ | ⟨mid, rfl, hmid⟩
    · -- behind the cursor, or in front of it
      cases mid with
      | nil =>
        subst hbehind
        refine ⟨l₁ ++ [b], a, l₂, by simp, hnode, hQ, fun x hx => ?_⟩
        rcases mem_append.1 hx with hx | hx
        · exact hP x hx
        · rwa [mem_singleton.1 hx]
      | cons c mid =>
        obtain ⟨rfl, rfl⟩ := List.cons.inj hbehind
        exact ⟨l₁, a, mid ++ b :: behind, by simp, hnode, hQ, hP⟩
    · refine ⟨before ++ b :: mid, a, l₂, by rw [hmid]; simp, hnode, hQ, fun x hx => ?_⟩
      rcases mem_append.1 hx with hx | hx
      · exact hP x (mem_append_left _ hx)
      · rcases mem_cons.1 hx with rfl | hx
        · exact hb
        · exact hP x (mem_append_right _ hx)

/-- The element at the cursor is taken out, and the cursor goes on; all elements that are not due
before it have the property `Q`. -/
theorem Passed.erase [LinearOrder δ] {due : α → δ} {i : ι} {a : α}
    (h : Passed node P Q l (some i)) (hnodes : (l.map node).Nodup) (hsorted : Sorted due l)
    (hget : get node l i = some a) (hQ : ∀ x, due a ≤ due x → Q x) :
    Passed node P Q (erase node l i) (next node l i) := by
  obtain ⟨l₁, b, l₂, rfl, rfl, -, hP⟩ := h
  obtain ⟨hb, hnext, herase⟩ := at_node hnodes
  obtain rfl : b = a := some.inj (hb.symm.trans hget)
  rw [hnext, herase]
  refine passed_append hP fun x hx => hQ x ?_
  exact (pairwise_cons.1 (pairwise_append.1 hsorted).2.1).1 x hx

/-- The element at the cursor. -/
theorem Passed.get {i : ι} (h : Passed node P Q l (some i))
    (hnodes : (l.map node).Nodup) :
    ∃ a ∈ l, node a = i ∧ Q a ∧ TimerQueue.get node l i = some a := by
  obtain ⟨l₁, a, l₂, rfl, rfl, hQ, -⟩ := h
  exact ⟨a, by simp, rfl, hQ, (at_node hnodes).1⟩

/-- The element at the cursor is taken out: there is one fewer of its kind. -/
theorem Passed.countP_erase {i : ι} {a : α} (h : Passed node P Q l (some i))
    (hnodes : (l.map node).Nodup) (hget : TimerQueue.get node l i = some a) {p : α → Bool}
    (hp : p a = true) : (TimerQueue.erase node l i).countP p + 1 = l.countP p := by
  obtain ⟨l₁, b, l₂, rfl, rfl, -, -⟩ := h
  obtain ⟨hb, -, herase⟩ := at_node hnodes
  obtain rfl : b = a := some.inj (hb.symm.trans hget)
  rw [herase, countP_append, countP_append, countP_cons_of_pos hp]
  rfl

/-- When the element at the cursor does not have the property, and none that is not due before it
has, no element has it. -/
theorem Passed.stop [LinearOrder δ] {due : α → δ} {i : ι} {a : α}
    (h : Passed node P Q l (some i)) (hnodes : (l.map node).Nodup) (hsorted : Sorted due l)
    (hget : TimerQueue.get node l i = some a) (hP : ∀ x, due a ≤ due x → ¬ P x) :
    ∀ x ∈ l, ¬ P x := by
  obtain ⟨l₁, b, l₂, rfl, rfl, -, hbefore⟩ := h
  obtain rfl : b = a := some.inj ((at_node hnodes).1.symm.trans hget)
  intro x hx
  rcases mem_append.1 hx with hx | hx
  · exact hbefore x hx
  · rcases mem_cons.1 hx with rfl | hx
    · exact hP x le_rfl
    · exact hP x ((pairwise_cons.1 (pairwise_append.1 hsorted).2.1).1 x hx)

end Nodes

end TimerQueue
