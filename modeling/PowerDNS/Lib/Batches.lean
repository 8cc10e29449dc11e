import Mathlib.Data.List.Basic
import Mathlib.Data.List.Pairwise
import Mathlib.Tactic.Common

/-!
# Batches

A program goes through a list and gathers the items that count. Behind some of the items it turns:
it closes the batch, which takes all that was gathered since the last turn, or it drops what it
has. The batches are pieces of the list, so when each of them should be one class of the items,
whole and by itself, all depends on where the turns are.

* `batches keep acc l` — the batches of `l`, each with the item behind which it was closed;
* `number n l` — every item with the number of turns in front of it;
* `mem_batches` — a batch consists of all that count and have the number of the item it was
  closed behind;
* `whole_iff_separated` — **the batches are the classes** if and only if two items that count
  have the same number exactly when they are in one class, and the next turn behind each closes
  a batch that fits it;
* `apart_iff` — no class comes into two batches if and only if items of one class that come into
  batches have the same number.
-/

namespace Batches

open List Bool

variable {α β : Type*}

/-- What happens behind an item. -/
inductive Turn
  | stay
  | close
  | drop
  deriving DecidableEq

/-- One more item is gathered, if it counts. -/
def gather (keep : α → Bool) (acc : List α) (a : α) : List α := if keep a then acc ++ [a] else acc

/-- The batches of a list, with `acc` gathered already. A batch without items is none. -/
def batches (keep : α → Bool) : List α → List (α × Turn) → List (List α × α)
  | _, [] => []
  | acc, (a, .stay) :: l => batches keep (gather keep acc a) l
  | acc, (a, .close) :: l =>
    if (gather keep acc a).isEmpty then batches keep [] l
    else (gather keep acc a, a) :: batches keep [] l
  | _, (_, .drop) :: l => batches keep [] l

/-- Behind a turn a new batch begins. -/
theorem batches_append (keep : α → Bool) {acc : List α} {l : List (α × Turn)}
    (hnil : l = [] → acc = []) (hturn : ∀ x ∈ l.getLast?, x.2 ≠ .stay) (l' : List (α × Turn)) :
    batches keep acc (l ++ l') = batches keep acc l ++ batches keep [] l' := by
  induction l generalizing acc with
  | nil =>
    rw [hnil rfl]
    rfl
  | cons x l ih =>
    obtain ⟨a, turn⟩ := x
    have hrest : ∀ x ∈ l.getLast?, x.2 ≠ .stay := by
      intro x hx
      refine hturn x ?_
      cases l with
      | nil => cases hx
      | cons y l => exact hx
    cases turn with
    | stay =>
      rw [cons_append, batches, batches]
      refine ih (fun h => ?_) hrest
      rw [h] at hturn
      exact absurd rfl (hturn _ rfl)
    | close =>
      rw [cons_append, batches, batches, ih (fun _ => rfl) hrest]
      split <;> rfl
    | drop =>
      rw [cons_append, batches, batches]
      exact ih (fun _ => rfl) hrest

/-- Nothing is closed. -/
theorem batches_eq_nil (keep : α → Bool) (acc : List α) {l : List (α × Turn)}
    (h : ∀ x ∈ l, x.2 ≠ .close) : batches keep acc l = [] := by
  induction l generalizing acc with
  | nil => rfl
  | cons x l ih =>
    obtain ⟨a, turn⟩ := x
    have hrest : ∀ x ∈ l, x.2 ≠ .close := fun x hx => h x (mem_cons_of_mem _ hx)
    cases turn with
    | stay => exact ih _ hrest
    | close => exact absurd rfl (h _ mem_cons_self)
    | drop => exact ih _ hrest

/-- The items that count. -/
def kept (keep : α → Bool) (l : List (α × Turn)) : List α := (l.map Prod.fst).filter keep

/-- Every item with the number of turns in front of it, counted from `n`. -/
def number : Nat → List (α × Turn) → List ((α × Nat) × Turn)
  | _, [] => []
  | n, (a, turn) :: l => ((a, n), turn) :: number (if turn = .stay then n else n + 1) l

/-! ### Items under other names -/

theorem gather_map (keep : β → Bool) (f : α → β) (acc : List α) (a : α) :
    gather keep (acc.map f) (f a) = (gather (keep ∘ f) acc a).map f := by
  unfold gather
  cases h : keep (f a) <;> simp [h]

/-- Batches of items that were renamed. -/
theorem batches_map (keep : β → Bool) (f : α → β) (acc : List α) (l : List (α × Turn)) :
    batches keep (acc.map f) (l.map fun x => (f x.1, x.2)) =
      (batches (keep ∘ f) acc l).map fun b => (b.1.map f, f b.2) := by
  induction l generalizing acc with
  | nil => rfl
  | cons x l ih =>
    obtain ⟨a, turn⟩ := x
    have hempty := ih []
    rw [map_nil] at hempty
    cases turn with
    | stay =>
      rw [map_cons, batches, batches, gather_map]
      exact ih _
    | close =>
      rw [map_cons, batches, batches, gather_map, isEmpty_map, hempty]
      split <;> rfl
    | drop => exact hempty

theorem map_number (n : Nat) (l : List (α × Turn)) :
    ((number n l).map fun x => (x.1.1, x.2)) = l := by
  induction l generalizing n with
  | nil => rfl
  | cons x l ih =>
    rw [number, map_cons, ih]

/-- The batches, read off the numbered items. -/
theorem batches_eq_number (keep : α → Bool) (l : List (α × Turn)) (n : Nat) :
    batches keep [] l =
      (batches (keep ∘ Prod.fst) [] (number n l)).map fun b => (b.1.map Prod.fst, b.2.1) := by
  have h := batches_map keep Prod.fst [] (number n l)
  rw [map_number] at h
  exact h

theorem kept_eq_number (keep : α → Bool) (l : List (α × Turn)) (n : Nat) :
    kept keep l = (kept (keep ∘ Prod.fst) (number n l)).map Prod.fst := by
  unfold kept
  rw [← filter_map, map_map]
  congr 1
  calc l.map Prod.fst = ((number n l).map fun x => (x.1.1, x.2)).map Prod.fst := by rw [map_number]
    _ = (number n l).map (Prod.fst ∘ Prod.fst) := by rw [map_map]; rfl

/-! ### Numbers -/

section Numbers

variable {n : Nat} {l : List (α × Turn)}

theorem le_of_mem_number {x : (α × Nat) × Turn} (h : x ∈ number n l) : n ≤ x.1.2 := by
  induction l generalizing n with
  | nil => cases h
  | cons y l ih =>
    rw [number] at h
    rcases mem_cons.mp h with rfl | h
    · exact Nat.le_refl n
    · have hle := ih h
      split at hle
      · exact hle
      · exact Nat.le_of_succ_le hle

/-- There is one turn with a number. -/
theorem turn_unique {x y : (α × Nat) × Turn} (hx : x ∈ number n l) (hy : y ∈ number n l)
    (hxt : x.2 ≠ .stay) (hyt : y.2 ≠ .stay) (h : x.1.2 = y.1.2) : x = y := by
  induction l generalizing n with
  | nil => cases hx
  | cons z l ih =>
    rw [number] at hx hy
    rcases mem_cons.mp hx with rfl | hx <;> rcases mem_cons.mp hy with rfl | hy
    · rfl
    · -- behind the turn the numbers are larger
      rw [if_neg hxt] at hy
      have hle := le_of_mem_number hy
      dsimp only at h
      omega
    · rw [if_neg hyt] at hx
      have hle := le_of_mem_number hx
      dsimp only at h
      omega
    · exact ih hx hy

theorem le_of_mem_kept {keep : α × Nat → Bool} {x : α × Nat} (h : x ∈ kept keep (number n l)) :
    n ≤ x.2 := by
  obtain ⟨hx, -⟩ := mem_filter.mp h
  obtain ⟨y, hy, rfl⟩ := mem_map.mp hx
  exact le_of_mem_number hy

end Numbers

/-! ### What is in a batch -/

section Members

variable {keep : α × Nat → Bool} {n : Nat} {l : List (α × Turn)} {acc : List (α × Nat)}

/-- Those with the number of the ones gathered. -/
theorem filter_gathered (hacc : ∀ x ∈ acc, x.2 = n) :
    (acc ++ kept keep (number (n + 1) l)).filter (fun x => x.2 = n) = acc := by
  rw [filter_append, filter_eq_self.mpr fun x hx => decide_eq_true (hacc x hx),
    filter_eq_nil_iff.mpr, append_nil]
  intro x hx
  have hle := le_of_mem_kept hx
  rw [decide_eq_true_eq]
  omega

/-- Those with a larger number. -/
theorem filter_beyond (hacc : ∀ x ∈ acc, x.2 = n) {k : Nat} (hk : n < k)
    (l' : List (α × Nat)) :
    (acc ++ l').filter (fun x => x.2 = k) = l'.filter fun x => x.2 = k := by
  rw [filter_append, filter_eq_nil_iff.mpr, nil_append]
  intro x hx
  rw [decide_eq_true_eq, hacc x hx]
  omega

/-- What is gathered behind one more item. -/
theorem gather_append (a : α) (turn : Turn) (l : List ((α × Nat) × Turn)) :
    gather keep acc (a, n) ++ kept keep l = acc ++ kept keep (((a, n), turn) :: l) := by
  unfold gather kept
  rw [map_cons, filter_cons]
  split
  · rw [append_assoc]
    rfl
  · rfl

theorem gather_number (hacc : ∀ x ∈ acc, x.2 = n) (a : α) :
    ∀ x ∈ gather keep acc (a, n), x.2 = n := by
  intro x hx
  unfold gather at hx
  split at hx
  · rcases mem_append.mp hx with hx | hx
    · exact hacc x hx
    · rw [mem_singleton.mp hx]
  · exact hacc x hx

theorem nil_number (n : Nat) : ∀ x ∈ ([] : List (α × Nat)), x.2 = n := nofun

/-- **A batch** consists of all that count and have the number of the item it was closed
behind. -/
theorem mem_batches (hacc : ∀ x ∈ acc, x.2 = n) {b : List (α × Nat) × (α × Nat)}
    (h : b ∈ batches keep acc (number n l)) :
    (b.2, Turn.close) ∈ number n l ∧ b.1 ≠ [] ∧
      b.1 = (acc ++ kept keep (number n l)).filter fun x => x.2 = b.2.2 := by
  induction l generalizing n acc with
  | nil => cases h
  | cons y l ih =>
    obtain ⟨a, turn⟩ := y
    have hacc' : ∀ x ∈ gather keep acc (a, n), x.2 = n := gather_number hacc a
    -- what is closed behind a turn has a larger number
    have hbehind : b ∈ batches keep [] (number (n + 1) l) →
        (b.2, Turn.close) ∈ number (n + 1) l ∧ b.1 ≠ [] ∧
          b.1 = (gather keep acc (a, n) ++ kept keep (number (n + 1) l)).filter
            fun x => x.2 = b.2.2 := by
      intro hb
      obtain ⟨hclose, hne, heq⟩ := ih (nil_number _) hb
      refine ⟨hclose, hne, ?_⟩
      rw [filter_beyond hacc' (le_of_mem_number hclose)]
      exact heq
    rw [number, ← gather_append]
    cases turn with
    | stay =>
      obtain ⟨hclose, hne, heq⟩ := ih hacc' h
      exact ⟨mem_cons_of_mem _ hclose, hne, heq⟩
    | close =>
      rw [number, batches] at h
      split at h
      · obtain ⟨hclose, hrest⟩ := hbehind h
        exact ⟨mem_cons_of_mem _ hclose, hrest⟩
      next hne =>
        rcases mem_cons.mp h with rfl | h
        · refine ⟨mem_cons_self, fun heq => hne (List.isEmpty_iff.mpr heq), ?_⟩
          exact (filter_gathered hacc').symm
        · obtain ⟨hclose, hrest⟩ := hbehind h
          exact ⟨mem_cons_of_mem _ hclose, hrest⟩
    | drop =>
      obtain ⟨hclose, hrest⟩ := hbehind h
      exact ⟨mem_cons_of_mem _ hclose, hrest⟩

/-- An item that counts comes into the batch that the next turn closes. -/
theorem exists_batch (hacc : ∀ x ∈ acc, x.2 = n) {x c : α × Nat}
    (hx : x ∈ acc ++ kept keep (number n l)) (hc : (c, Turn.close) ∈ number n l)
    (hnumber : x.2 = c.2) : ∃ b ∈ batches keep acc (number n l), b.2 = c := by
  induction l generalizing n acc with
  | nil => cases hc
  | cons y l ih =>
    obtain ⟨a, turn⟩ := y
    have hacc' : ∀ x ∈ gather keep acc (a, n), x.2 = n := gather_number hacc a
    rw [number, ← gather_append] at hx
    rw [number] at hc
    have hbehind : (c, Turn.close) ∈ number (n + 1) l →
        x ∈ gather keep acc (a, n) ++ kept keep (number (n + 1) l) →
          ∃ b ∈ batches keep [] (number (n + 1) l), b.2 = c := by
      intro hc hx
      refine ih (nil_number _) ?_ hc
      rcases mem_append.mp hx with hx | hx
      · have hle := le_of_mem_number hc
        rw [hacc' x hx] at hnumber
        dsimp only at hle
        omega
      · exact mem_append_right _ hx
    cases turn with
    | stay =>
      rcases mem_cons.mp hc with heq | hc
      · cases heq
      · exact ih hacc' hx hc
    | close =>
      rw [number, batches]
      rcases mem_cons.mp hc with heq | hc
      · -- this turn closes it
        obtain ⟨rfl, -⟩ := Prod.mk.inj heq
        rcases mem_append.mp hx with hx | hx
        · have hne : ¬(gather keep acc (a, n)).isEmpty = true := fun h => by
            rw [List.isEmpty_iff.mp h] at hx
            cases hx
          rw [if_neg hne]
          exact ⟨_, mem_cons_self, rfl⟩
        · have hle := le_of_mem_kept hx
          rw [if_neg (by decide)] at hle
          dsimp only at hnumber
          omega
      · obtain ⟨b, hb, rfl⟩ := hbehind hc hx
        split
        · exact ⟨b, hb, rfl⟩
        · exact ⟨b, mem_cons_of_mem _ hb, rfl⟩
    | drop =>
      rcases mem_cons.mp hc with heq | hc
      · cases heq
      · exact hbehind hc hx

/-- Later batches have larger numbers. -/
theorem batches_ascending (hacc : ∀ x ∈ acc, x.2 = n) :
    (batches keep acc (number n l)).Pairwise fun b b' => b.2.2 < b'.2.2 := by
  induction l generalizing n acc with
  | nil => exact List.Pairwise.nil
  | cons y l ih =>
    obtain ⟨a, turn⟩ := y
    have hbehind : (batches keep [] (number (n + 1) l)).Pairwise fun b b' => b.2.2 < b'.2.2 :=
      ih (nil_number _)
    cases turn with
    | stay => exact ih (gather_number hacc a)
    | close =>
      rw [number, batches]
      split
      · exact hbehind
      · refine List.Pairwise.cons (fun b hb => ?_) hbehind
        have hle := le_of_mem_number (mem_batches (nil_number _) hb).1
        exact hle
    | drop => exact hbehind

end Members

/-! ### Batches and classes -/

/-- No class comes into two batches. -/
def Apart (keep : α → Bool) (same : α → α → Bool) (l : List (α × Turn)) : Prop :=
  (batches keep [] l).Pairwise fun b b' => ∀ a ∈ b.1, ∀ a' ∈ b'.1, same a a' = false

/-- Every batch is a whole class of those that count, and was closed behind an item that fits it.
Every class comes into one batch. -/
structure Whole (keep : α → Bool) (same fits : α → α → Bool) (l : List (α × Turn)) : Prop where
  whole : ∀ b ∈ batches keep [] l, ∃ a ∈ kept keep l,
    fits a b.2 = true ∧ b.1.Perm ((kept keep l).filter (same a))
  found : ∀ a ∈ kept keep l, ∃ b ∈ batches keep [] l, a ∈ b.1
  once : Apart keep same l

/-- The next turn behind the item `x`, in a numbered list, closes a batch behind the item `c`. -/
def ClosedBehind (l : List ((α × Nat) × Turn)) (x c : (α × Nat) × Turn) : Prop :=
  c ∈ l ∧ c.2 = .close ∧ c.1.2 = x.1.2

/-- Between two items that count there is a turn if and only if they are in different classes, and
the next turn behind each closes a batch behind an item that fits it. -/
structure Separated (keep : α → Bool) (same fits : α → α → Bool) (l : List (α × Turn)) : Prop where
  same_iff : ∀ x ∈ number 0 l, ∀ y ∈ number 0 l, keep x.1.1 = true → keep y.1.1 = true →
    (same x.1.1 y.1.1 = true ↔ x.1.2 = y.1.2)
  closed : ∀ x ∈ number 0 l, keep x.1.1 = true →
    ∃ c, ClosedBehind (number 0 l) x c ∧ fits x.1.1 c.1.1 = true

section Classes

variable {keep : α → Bool} {same fits : α → α → Bool} {l : List (α × Turn)}

instance [DecidableEq α] : Decidable (Apart keep same l) := by
  unfold Apart
  infer_instance

/-- Whether the turns separate the classes can be computed. -/
instance [DecidableEq α] : Decidable (Separated keep same fits l) :=
  decidable_of_iff
    ((∀ x ∈ number 0 l, ∀ y ∈ number 0 l, keep x.1.1 = true → keep y.1.1 = true →
        (same x.1.1 y.1.1 = true ↔ x.1.2 = y.1.2)) ∧
      ∀ x ∈ number 0 l, keep x.1.1 = true →
        ∃ c ∈ number 0 l, (c.2 = .close ∧ c.1.2 = x.1.2) ∧ fits x.1.1 c.1.1 = true)
    ⟨fun h => ⟨h.1, fun x hx hkeep =>
        let ⟨c, hc, ⟨hclose, hnumber⟩, hfits⟩ := h.2 x hx hkeep
        ⟨c, ⟨hc, hclose, hnumber⟩, hfits⟩⟩,
      fun h => ⟨h.same_iff, fun x hx hkeep =>
        let ⟨c, ⟨hc, hclose, hnumber⟩, hfits⟩ := h.closed x hx hkeep
        ⟨c, hc, ⟨hclose, hnumber⟩, hfits⟩⟩⟩

theorem mem_kept {a : α} : a ∈ kept keep l ↔ (∃ turn, (a, turn) ∈ l) ∧ keep a = true := by
  unfold kept
  rw [mem_filter]
  simp

/-- A batch of the list is one of the numbered list. -/
theorem mem_batches_iff {b : List α × α} :
    b ∈ batches keep [] l ↔
      ∃ b' ∈ batches (keep ∘ Prod.fst) [] (number 0 l), (b'.1.map Prod.fst, b'.2.1) = b := by
  rw [batches_eq_number keep l 0, mem_map]

/-- What is in a batch of the numbered list. -/
theorem mem_numbered_batch {b : List (α × Nat) × (α × Nat)}
    (hb : b ∈ batches (keep ∘ Prod.fst) [] (number 0 l)) {x : α × Nat} (hx : x ∈ b.1) :
    (∃ turn, (x, turn) ∈ number 0 l) ∧ keep x.1 = true ∧ x.2 = b.2.2 := by
  obtain ⟨-, -, heq⟩ := mem_batches (nil_number _) hb
  rw [heq, nil_append] at hx
  obtain ⟨hkept, hnumber⟩ := mem_filter.mp hx
  obtain ⟨hmem, hkeep⟩ := mem_kept.mp hkept
  exact ⟨hmem, hkeep, of_decide_eq_true hnumber⟩

/-- An item whose next turn closes a batch is in that batch. -/
theorem exists_numbered_batch {x c : (α × Nat) × Turn} (hx : x ∈ number 0 l)
    (hkeep : keep x.1.1 = true) (hc : ClosedBehind (number 0 l) x c) :
    ∃ b ∈ batches (keep ∘ Prod.fst) [] (number 0 l), b.2 = c.1 ∧ x.1 ∈ b.1 := by
  obtain ⟨hmem, hclose, hnumber⟩ := hc
  have hkept : x.1 ∈ [] ++ kept (keep ∘ Prod.fst) (number 0 l) :=
    mem_kept.mpr ⟨⟨x.2, hx⟩, hkeep⟩
  obtain ⟨b, hb, hbc⟩ := exists_batch (nil_number _) hkept
    (show (c.1, Turn.close) ∈ number 0 l by rw [← hclose]; exact hmem) hnumber.symm
  refine ⟨b, hb, hbc, ?_⟩
  rw [(mem_batches (nil_number _) hb).2.2, hbc]
  exact mem_filter.mpr ⟨hkept, decide_eq_true hnumber.symm⟩

/-- Of two filters, one of which implies the other, that leave the same number of items. -/
theorem filter_eq_of_length {p q : α → Bool} {l : List α}
    (himp : ∀ a ∈ l, p a = true → q a = true) (h : (l.filter p).length = (l.filter q).length) :
    ∀ a ∈ l, p a = q a := by
  have hsub : (l.filter p).Sublist (l.filter q) := by
    have heq : l.filter p = (l.filter q).filter p := by
      rw [filter_filter]
      refine filter_congr fun a ha => ?_
      cases hp : p a with
      | true => rw [himp a ha hp]; rfl
      | false => rfl
    rw [heq]
    exact filter_sublist
  have heq := hsub.eq_of_length h
  intro a ha
  have hiff : a ∈ l.filter p ↔ a ∈ l.filter q := by rw [heq]
  rw [mem_filter, mem_filter] at hiff
  exact eq_iff_iff.mpr ⟨fun hp => (hiff.mp ⟨ha, hp⟩).2, fun hq => (hiff.mpr ⟨ha, hq⟩).2⟩

theorem Separated.whole (h : Separated keep same fits l) : Whole keep same fits l where
  whole := by
    intro _ hlisted
    obtain ⟨b, hb, rfl⟩ := mem_batches_iff.mp hlisted
    obtain ⟨hclose, hne, heq⟩ := mem_batches (nil_number _) hb
    obtain ⟨x, hx⟩ := exists_mem_of_ne_nil _ hne
    obtain ⟨⟨turn, hmem⟩, hkeep, hnumber⟩ := mem_numbered_batch hb hx
    refine ⟨x.1, ?_, ?_, ?_⟩
    · rw [kept_eq_number keep l 0]
      exact mem_map_of_mem (mem_kept.mpr ⟨⟨turn, hmem⟩, hkeep⟩)
    · -- the turn that closes the batch is the next one behind each of its items
      obtain ⟨c, ⟨hcmem, hcclose, hcnumber⟩, hfits⟩ := h.closed _ hmem hkeep
      obtain rfl := turn_unique hcmem hclose (by rw [hcclose]; exact nofun) nofun
        (hcnumber.trans hnumber)
      exact hfits
    · refine List.Perm.of_eq ?_
      rw [kept_eq_number keep l 0, filter_map, heq, nil_append]
      refine congrArg (List.map Prod.fst) (filter_congr fun z hz => ?_)
      obtain ⟨⟨turn', hmem'⟩, hkeep'⟩ := mem_kept.mp hz
      have hiff := h.same_iff _ hmem _ hmem' hkeep hkeep'
      rw [Bool.eq_iff_iff, decide_eq_true_eq]
      exact ⟨fun hz => hiff.mpr (hnumber.trans hz.symm), fun hz => (hiff.mp hz).symm.trans hnumber⟩
  found := by
    intro a ha
    rw [kept_eq_number keep l 0] at ha
    obtain ⟨x, hx, rfl⟩ := mem_map.mp ha
    obtain ⟨⟨turn, hmem⟩, hkeep⟩ := mem_kept.mp hx
    obtain ⟨c, hc, -⟩ := h.closed _ hmem hkeep
    obtain ⟨b, hb, -, hxb⟩ := exists_numbered_batch hmem hkeep hc
    exact ⟨_, mem_batches_iff.mpr ⟨b, hb, rfl⟩, mem_map_of_mem hxb⟩
  once := by
    unfold Apart
    rw [batches_eq_number keep l 0, pairwise_map]
    refine (batches_ascending (nil_number 0)).imp_of_mem fun {b b'} hb hb' hlt => ?_
    intro a ha a' ha'
    obtain ⟨x, hx, rfl⟩ := mem_map.mp ha
    obtain ⟨y, hy, rfl⟩ := mem_map.mp ha'
    obtain ⟨⟨tx, hxmem⟩, hxkeep, hxnumber⟩ := mem_numbered_batch hb hx
    obtain ⟨⟨ty, hymem⟩, hykeep, hynumber⟩ := mem_numbered_batch hb' hy
    by_contra hsame
    rw [not_eq_false] at hsame
    have heq := (h.same_iff _ hxmem _ hymem hxkeep hykeep).mp hsame
    dsimp only at heq
    omega

/-- What the batches say about an item: those in its class are those with its number, and the
next turn behind it closes a batch that fits it. -/
theorem Whole.class_eq (h : Whole keep same fits l) (hrefl : ∀ a, same a a = true)
    (hsymm : ∀ a b, same a b = true → same b a = true)
    (htrans : ∀ a b c, same a b = true → same b c = true → same a c = true)
    (hfits : ∀ a b c, same a b = true → fits a c = true → fits b c = true)
    {x : (α × Nat) × Turn} (hx : x ∈ number 0 l) (hkeep : keep x.1.1 = true) :
    (∃ c, ClosedBehind (number 0 l) x c ∧ fits x.1.1 c.1.1 = true) ∧
      ∀ y ∈ number 0 l, keep y.1.1 = true → (same x.1.1 y.1.1 = true ↔ x.1.2 = y.1.2) := by
  have hxkept : x.1 ∈ kept (keep ∘ Prod.fst) (number 0 l) := mem_kept.mpr ⟨⟨x.2, hx⟩, hkeep⟩
  obtain ⟨_, hlisted, hxb⟩ := h.found x.1.1 (by
    rw [kept_eq_number keep l 0]
    exact mem_map_of_mem hxkept)
  obtain ⟨a, -, hafits, hperm⟩ := h.whole _ hlisted
  obtain ⟨b, hb, rfl⟩ := mem_batches_iff.mp hlisted
  obtain ⟨hclose, -, heq⟩ := mem_batches (nil_number _) hb
  rw [nil_append] at heq
  rw [kept_eq_number keep l 0, filter_map] at hperm
  have hsame : ∀ z ∈ b.1, same a z.1 = true := by
    intro z hz
    have hmem := hperm.mem_iff.mp (mem_map_of_mem hz)
    obtain ⟨z', hz', heq⟩ := mem_map.mp hmem
    rw [← heq]
    exact (mem_filter.mp hz').2
  -- the batch has as many items as the class, so it is the class
  have hclass := @filter_eq_of_length _ (fun z => decide (z.2 = b.2.2)) (same a ∘ Prod.fst)
    (kept (keep ∘ Prod.fst) (number 0 l))
    (fun z hz hnumber => hsame z (by rw [heq]; exact mem_filter.mpr ⟨hz, hnumber⟩))
    (by rw [← heq]; simpa using hperm.length_eq)
  have hax : same a x.1.1 = true := by
    obtain ⟨z, hz, hzx⟩ := mem_map.mp hxb
    rw [← hzx]
    exact hsame z hz
  have hiff : ∀ y ∈ number 0 l, keep y.1.1 = true →
      (same x.1.1 y.1.1 = true ↔ y.1.2 = b.2.2) := by
    intro y hy hykeep
    have hy' := hclass y.1 (mem_kept.mpr ⟨⟨y.2, hy⟩, hykeep⟩)
    rw [Bool.eq_iff_iff, decide_eq_true_eq] at hy'
    rw [hy']
    exact ⟨htrans _ _ _ hax, htrans _ _ _ (hsymm _ _ hax)⟩
  have hnumber := (hiff x hx hkeep).mp (hrefl _)
  refine ⟨⟨(b.2, .close), ⟨hclose, rfl, hnumber.symm⟩, hfits _ _ _ hax hafits⟩, fun y hy hykeep => ?_⟩
  rw [hiff y hy hykeep, hnumber]
  exact eq_comm

/-- **The batches are the classes** if and only if the turns separate these. -/
theorem whole_iff_separated (hrefl : ∀ a, same a a = true)
    (hsymm : ∀ a b, same a b = true → same b a = true)
    (htrans : ∀ a b c, same a b = true → same b c = true → same a c = true)
    (hfits : ∀ a b c, same a b = true → fits a c = true → fits b c = true) :
    Whole keep same fits l ↔ Separated keep same fits l := by
  refine ⟨fun h => ⟨?_, ?_⟩, Separated.whole⟩
  · exact fun x hx y hy hxkeep hykeep =>
      (h.class_eq hrefl hsymm htrans hfits hx hxkeep).2 y hy hykeep
  · exact fun x hx hkeep => (h.class_eq hrefl hsymm htrans hfits hx hkeep).1

/-- **No class comes into two batches** if and only if items of one class that come into batches
have no turn between them. -/
theorem apart_iff (hsymm : ∀ a b, same a b = true → same b a = true) :
    Apart keep same l ↔
      ∀ x ∈ number 0 l, ∀ y ∈ number 0 l, keep x.1.1 = true → keep y.1.1 = true →
        (∃ c, ClosedBehind (number 0 l) x c) → (∃ c, ClosedBehind (number 0 l) y c) →
        same x.1.1 y.1.1 = true → x.1.2 = y.1.2 := by
  unfold Apart
  rw [batches_eq_number keep l 0, pairwise_map]
  constructor
  · rintro h x hx y hy hxkeep hykeep ⟨c, hc⟩ ⟨d, hd⟩ hsame
    obtain ⟨b, hb, hbc, hxb⟩ := exists_numbered_batch hx hxkeep hc
    obtain ⟨b', hb', hbd, hyb⟩ := exists_numbered_batch hy hykeep hd
    by_contra hne
    have hbb : b ≠ b' := by
      rintro rfl
      exact hne (hc.2.2.symm.trans ((congrArg Prod.snd (hbc.symm.trans hbd)).trans hd.2.2))
    have hsymmetric : Std.Symm fun b b' : List (α × Nat) × (α × Nat) =>
        ∀ a ∈ b.1.map Prod.fst, ∀ a' ∈ b'.1.map Prod.fst, same a a' = false := by
      refine ⟨fun b b' hbb a ha a' ha' => ?_⟩
      by_contra hsame
      rw [not_eq_false] at hsame
      have hapart := hbb a' ha' a ha
      rw [hsymm _ _ hsame] at hapart
      cases hapart
    have hapart := h.forall hb hb' hbb
    rw [hapart _ (mem_map_of_mem hxb) _ (mem_map_of_mem hyb)] at hsame
    cases hsame
  · intro h
    refine (batches_ascending (nil_number 0)).imp_of_mem fun {b b'} hb hb' hlt => ?_
    intro a ha a' ha'
    obtain ⟨x, hx, rfl⟩ := mem_map.mp ha
    obtain ⟨y, hy, rfl⟩ := mem_map.mp ha'
    obtain ⟨⟨tx, hxmem⟩, hxkeep, hxnumber⟩ := mem_numbered_batch hb hx
    obtain ⟨⟨ty, hymem⟩, hykeep, hynumber⟩ := mem_numbered_batch hb' hy
    have hbclose := (mem_batches (nil_number _) hb).1
    have hbclose' := (mem_batches (nil_number _) hb').1
    by_contra hsame
    rw [not_eq_false] at hsame
    have heq := h _ hxmem _ hymem hxkeep hykeep ⟨_, hbclose, rfl, hxnumber.symm⟩
      ⟨_, hbclose', rfl, hynumber.symm⟩ hsame
    dsimp only at heq
    omega

end Classes

end Batches
