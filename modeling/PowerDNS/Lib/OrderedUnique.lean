import Mathlib.Data.List.Lex
import Mathlib.Data.List.Pairwise
import Mathlib.Order.Lattice
import Mathlib.Tactic.Common

/-!
# Ordered containers with unique keys

A `std::set`, or an index that is `ordered_unique`, is a list in ascending order of the keys of
its elements under a comparison `less`. Two keys are the `same` when neither is less than the
other, and no two elements have the same key. What the comparison does not look at may be changed
in place (`modify`).

The comparison must be a strict weak order. The rules below say what is in a container after
each operation, what a lookup finds, and what an iteration comes to next (`next`). The last is
about the container as it is at that moment, so it also describes an iteration during which
elements are inserted.
-/

namespace OrderedUnique

open List Bool

/-- The comparison is a strict weak order. -/
class StrictWeakOrder {κ : Type*} (less : κ → κ → Bool) : Prop where
  asymm : ∀ {a b}, less a b = true → less b a = false
  neg_trans : ∀ {a c}, less a c = true → ∀ b, less a b = true ∨ less b c = true

/-- Neither is less than the other. -/
def same {κ : Type*} (less : κ → κ → Bool) (a b : κ) : Bool := !less a b && !less b a

section Order

variable {κ : Type*} {less : κ → κ → Bool}

theorem same_iff {a b : κ} : same less a b = true ↔ less a b = false ∧ less b a = false := by
  simp [same]

theorem same_symm {a b : κ} (h : same less a b = true) : same less b a = true := by
  rw [same_iff] at h ⊢
  exact h.symm

variable [StrictWeakOrder less]

theorem less_irrefl (a : κ) : less a a = false := by
  by_contra h
  rw [not_eq_false] at h
  rw [StrictWeakOrder.asymm h] at h
  cases h

theorem less_trans {a b c : κ} (hab : less a b = true) (hbc : less b c = true) :
    less a c = true := by
  rcases StrictWeakOrder.neg_trans hab c with hac | hcb
  · exact hac
  · rw [StrictWeakOrder.asymm hbc] at hcb
    cases hcb

theorem same_refl (a : κ) : same less a a = true := by
  simp [same, less_irrefl]

/-- What is the same as `b` compares like `b`. -/
theorem less_false_of_same {a b c : κ} (hab : same less a b = true) (hbc : less b c = false) :
    less a c = false := by
  by_contra h
  rw [not_eq_false] at h
  rcases StrictWeakOrder.neg_trans h b with h | h
  · rw [(same_iff.mp hab).1] at h
    cases h
  · rw [hbc] at h
    cases h

theorem same_trans {a b c : κ} (hab : same less a b = true) (hbc : same less b c = true) :
    same less a c = true := by
  have hba := same_symm hab
  have hcb := same_symm hbc
  rw [same_iff]
  exact ⟨less_false_of_same hab (same_iff.mp hbc).1, less_false_of_same hcb (same_iff.mp hba).1⟩

end Order

/-! ### Comparisons built from others -/

section Lexicographic

variable {κ ι : Type*}

/-- Compares by `r`, and by `s` what is the same to `r`. -/
def lexThen (r s : κ → κ → Bool) (a b : κ) : Bool :=
  if r a b then true else if r b a then false else s a b

theorem lexThen_eq_true {r s : κ → κ → Bool} {a b : κ} :
    lexThen r s a b = true ↔ r a b = true ∨ r b a = false ∧ s a b = true := by
  unfold lexThen
  cases r a b <;> cases r b a <;> simp

variable {r s : κ → κ → Bool}

theorem lexThen_eq_false {a b : κ} :
    lexThen r s a b = false ↔ r a b = false ∧ (r b a = true ∨ s a b = false) := by
  unfold lexThen
  cases r a b <;> cases r b a <;> simp

theorem same_lexThen {r s : κ → κ → Bool} {a b : κ} :
    same (lexThen r s) a b = true ↔ same r a b = true ∧ same s a b = true := by
  simp only [same_iff, lexThen_eq_false]
  cases r a b <;> cases r b a <;> simp

theorem lexThen_asymm [StrictWeakOrder r] {a b : κ}
    (hs : s a b = true → s b a = false) (h : lexThen r s a b = true) :
    lexThen r s b a = false := by
  rw [lexThen_eq_true] at h
  rw [lexThen_eq_false]
  rcases h with h | ⟨h, h'⟩
  · exact ⟨StrictWeakOrder.asymm h, .inl h⟩
  · exact ⟨h, .inr (hs h')⟩

theorem lexThen_neg_trans [StrictWeakOrder r] {a b c : κ}
    (hs : s a c = true → s a b = true ∨ s b c = true) (h : lexThen r s a c = true) :
    lexThen r s a b = true ∨ lexThen r s b c = true := by
  simp only [lexThen_eq_true] at h ⊢
  rcases h with h | ⟨h, h'⟩
  · exact (StrictWeakOrder.neg_trans h b).imp .inl .inl
  · -- `b` comes behind `a` or before `c`, or all three are the same to `r`
    by_cases hab : r a b = true
    · exact .inl (.inl hab)
    by_cases hbc : r b c = true
    · exact .inr (.inl hbc)
    have hba : r b a = false := by
      by_contra hba
      rw [not_eq_false] at hba
      rcases StrictWeakOrder.neg_trans hba c with h1 | h1
      · exact hbc h1
      · rw [h] at h1
        cases h1
    have hcb : r c b = false := by
      by_contra hcb
      rw [not_eq_false] at hcb
      rcases StrictWeakOrder.neg_trans hcb a with h1 | h1
      · rw [h] at h1
        cases h1
      · exact hab h1
    exact (hs h').imp (fun h1 => .inr ⟨hba, h1⟩) fun h1 => .inr ⟨hcb, h1⟩

instance (r s : κ → κ → Bool) [StrictWeakOrder r] [StrictWeakOrder s] :
    StrictWeakOrder (lexThen r s) where
  asymm := lexThen_asymm StrictWeakOrder.asymm
  neg_trans := fun h b => lexThen_neg_trans (fun h' => StrictWeakOrder.neg_trans h' b) h

/-- Compares by `r` or by `s`, without looking at whether `r` says the opposite. -/
def eitherLess (r s : κ → κ → Bool) (a b : κ) : Bool := r a b || s a b

/-- **Two orders at once** are an order if and only if they never say the opposite. -/
theorem strictWeakOrder_eitherLess_iff (r s : κ → κ → Bool) [StrictWeakOrder r]
    [StrictWeakOrder s] :
    StrictWeakOrder (eitherLess r s) ↔ ∀ a b, r a b = true → s b a = false := by
  constructor
  · intro h a b hab
    have hba := h.asymm (show eitherLess r s a b = true by rw [eitherLess, hab, Bool.true_or])
    rw [eitherLess, Bool.or_eq_false_iff] at hba
    exact hba.2
  · intro h
    constructor
    · intro a b hab
      rw [eitherLess, Bool.or_eq_true] at hab
      rw [eitherLess, Bool.or_eq_false_iff]
      rcases hab with hr | hs
      · exact ⟨StrictWeakOrder.asymm hr, h a b hr⟩
      · refine ⟨?_, StrictWeakOrder.asymm hs⟩
        by_contra hr
        rw [Bool.not_eq_false] at hr
        rw [h b a hr] at hs
        cases hs
    · intro a c hac b
      simp only [eitherLess, Bool.or_eq_true] at hac ⊢
      rcases hac with hr | hs
      · exact (StrictWeakOrder.neg_trans hr b).imp Or.inl Or.inl
      · exact (StrictWeakOrder.neg_trans hs b).imp Or.inr Or.inr

/-- Compares a part. -/
def onPart (r : ι → ι → Bool) (f : κ → ι) (a b : κ) : Bool := r (f a) (f b)

instance (r : ι → ι → Bool) (f : κ → ι) [StrictWeakOrder r] : StrictWeakOrder (onPart r f) where
  asymm := fun h => @StrictWeakOrder.asymm _ r _ _ _ h
  neg_trans := fun h b => @StrictWeakOrder.neg_trans _ r _ _ _ h (f b)

/-- Compares lists element by element; a list is less than a longer one that it begins. -/
def lexList (r : κ → κ → Bool) : List κ → List κ → Bool
  | a :: as, b :: bs => if r a b then true else if r b a then false else lexList r as bs
  | [], _ :: _ => true
  | _, [] => false

theorem lexList_cons (r : κ → κ → Bool) (a b : κ) (as bs : List κ) :
    lexList r (a :: as) (b :: bs) =
      lexThen (onPart r Prod.fst) (onPart (lexList r) Prod.snd) (a, as) (b, bs) := rfl

instance (r : κ → κ → Bool) [StrictWeakOrder r] : StrictWeakOrder (lexList r) where
  asymm := by
    intro as bs h
    induction as generalizing bs with
    | nil => cases bs <;> rfl
    | cons a as ih =>
      cases bs with
      | nil => cases h
      | cons b bs =>
        rw [lexList_cons] at h ⊢
        exact lexThen_asymm ih h
  neg_trans := by
    intro as cs h bs
    induction as generalizing bs cs with
    | nil =>
      cases cs with
      | nil => cases h
      | cons c cs => cases bs <;> simp [lexList]
    | cons a as ih =>
      cases cs with
      | nil => cases h
      | cons c cs =>
        cases bs with
        | nil => exact .inr rfl
        | cons b bs =>
          rw [lexList_cons] at h ⊢
          rw [lexList_cons]
          exact lexThen_neg_trans (fun h' => ih h' bs) h

/-- Lists are the same when they agree in what the comparison of the elements looks at. -/
theorem same_lexList {r : κ → κ → Bool} {f : κ → ι}
    (hf : ∀ a b, same r a b = true ↔ f a = f b) {as bs : List κ} :
    same (lexList r) as bs = true ↔ as.map f = bs.map f := by
  induction as generalizing bs with
  | nil => cases bs <;> simp [same, lexList]
  | cons a as ih =>
    cases bs with
    | nil => simp [same, lexList]
    | cons b bs =>
      have hcons : same (lexList r) (a :: as) (b :: bs) = true ↔
          same r a b = true ∧ same (lexList r) as bs = true :=
        @same_lexThen _ (onPart r Prod.fst) (onPart (lexList r) Prod.snd) (a, as) (b, bs)
      rw [hcons, hf, ih]
      simp

/-- Where the comparison of the elements is the order of what `f` makes of them, that of the lists
is the lexicographic order. -/
theorem lexList_iff_lt [LinearOrder ι] {r : κ → κ → Bool} {f : κ → ι}
    (hf : ∀ a b, r a b = true ↔ f a < f b) {as bs : List κ} :
    lexList r as bs = true ↔ as.map f < bs.map f := by
  induction as generalizing bs with
  | nil => cases bs <;> simp [lexList]
  | cons a as ih =>
    cases bs with
    | nil => simp [lexList]
    | cons b bs =>
      have hcons : lexList r (a :: as) (b :: bs) = true ↔
          r a b = true ∨ r b a = false ∧ lexList r as bs = true :=
        @lexThen_eq_true _ (onPart r Prod.fst) (onPart (lexList r) Prod.snd) (a, as) (b, bs)
      have hba : r b a = false ↔ ¬ f b < f a := by rw [← hf, not_eq_true]
      rw [hcons, hf, hba, ih, map_cons, map_cons, cons_lt_cons_iff]
      constructor
      · rintro (hlt | ⟨hle, hlt⟩)
        · exact .inl hlt
        · rcases lt_or_eq_of_le (not_lt.mp hle) with hab | hab
          · exact .inl hab
          · exact .inr ⟨hab, hlt⟩
      · rintro (hlt | ⟨hab, hlt⟩)
        · exact .inl hlt
        · exact .inr ⟨not_lt.mpr (le_of_eq hab), hlt⟩

end Lexicographic

/-- A container: its elements in ascending order of their keys. -/
structure Table {α κ : Type*} (key : α → κ) (less : κ → κ → Bool) where
  items : List α
  ordered : items.Pairwise fun a b => less (key a) (key b) = true

/-- In a list of related elements any two are the same or related. -/
theorem eq_or_of_pairwise {α : Type*} {R : α → α → Prop} {l : List α} (h : l.Pairwise R) {a b : α}
    (ha : a ∈ l) (hb : b ∈ l) : a = b ∨ R a b ∨ R b a := by
  induction h with
  | nil => cases ha
  | cons hhead _ ih =>
    rcases mem_cons.mp ha with rfl | ha' <;> rcases mem_cons.mp hb with rfl | hb'
    · exact .inl rfl
    · exact .inr (.inl (hhead b hb'))
    · exact .inr (.inr (hhead a ha'))
    · exact ih ha' hb'

namespace Table

variable {α κ : Type*} {key : α → κ} {less : κ → κ → Bool}

instance : Membership α (Table key less) := ⟨fun t a => a ∈ t.items⟩

variable {t : Table key less}

theorem mem_items {a : α} : a ∈ t.items ↔ a ∈ t := Iff.rfl

/-- The empty container. -/
def empty : Table key less := ⟨[], List.Pairwise.nil⟩

@[simp] theorem not_mem_empty (a : α) : a ∉ (empty : Table key less) := not_mem_nil

/-- **Keys are unique.** -/
theorem eq_of_same {a b : α} (ha : a ∈ t) (hb : b ∈ t)
    (h : same less (key a) (key b) = true) : a = b := by
  rw [same_iff] at h
  rcases eq_or_of_pairwise t.ordered ha hb with heq | hless | hless
  · exact heq
  · rw [h.1] at hless
    cases hless
  · rw [h.2] at hless
    cases hless

/-! ### Lookups -/

/-- The first element, in order, that has the property. -/
def find (p : α → Bool) (t : Table key less) : Option α := t.items.find? p

theorem find_some {p : α → Bool} {a : α} (h : t.find p = some a) :
    a ∈ t ∧ p a = true :=
  ⟨mem_of_find?_eq_some h, find?_some h⟩

theorem find_none {p : α → Bool} (h : t.find p = none) {a : α} (ha : a ∈ t) :
    p a = false :=
  (not_eq_true _).mp (find?_eq_none.mp h a ha)

/-- The element with a key. -/
def lookup (k : κ) (t : Table key less) : Option α := t.find fun a => same less (key a) k

theorem lookup_some {k : κ} {a : α} (h : t.lookup k = some a) :
    a ∈ t ∧ same less (key a) k = true :=
  find_some h

theorem lookup_none {k : κ} (h : t.lookup k = none) {a : α} (ha : a ∈ t) :
    same less (key a) k = false :=
  find_none h ha

/-- An element is found under its key. -/
theorem lookup_eq [StrictWeakOrder less] {k : κ} {a : α} (ha : a ∈ t)
    (h : same less (key a) k = true) : t.lookup k = some a := by
  cases hb : t.lookup k with
  | none =>
    rw [lookup_none hb ha] at h
    cases h
  | some b =>
    obtain ⟨hmem, hsame⟩ := lookup_some hb
    rw [eq_of_same hmem ha (same_trans hsame (same_symm h))]

/-! ### Insertion -/

/-- Insertion into the list: an element whose key is there already is dropped. -/
def insertItem (key : α → κ) (less : κ → κ → Bool) (x : α) : List α → List α
  | [] => [x]
  | y :: ys =>
    if less (key x) (key y) then x :: y :: ys
    else if less (key y) (key x) then y :: insertItem key less x ys
    else y :: ys

theorem mem_insertItem {x a : α} {l : List α} (h : a ∈ insertItem key less x l) : a = x ∨ a ∈ l := by
  induction l with
  | nil => exact .inl (mem_singleton.mp h)
  | cons y ys ih =>
    rw [insertItem] at h
    split at h
    next => exact (mem_cons.mp h)
    next =>
      split at h
      next =>
        rcases mem_cons.mp h with rfl | h
        · exact .inr mem_cons_self
        · exact (ih h).imp_right (mem_cons_of_mem _)
      next => exact .inr h

theorem mem_insertItem_of_mem {x a : α} {l : List α} (h : a ∈ l) : a ∈ insertItem key less x l := by
  induction l with
  | nil => cases h
  | cons y ys ih =>
    rw [insertItem]
    split
    next => exact mem_cons_of_mem _ h
    next =>
      split
      next =>
        rcases mem_cons.mp h with rfl | h
        · exact mem_cons_self
        · exact mem_cons_of_mem _ (ih h)
      next => exact h

/-- After an insertion something with the key is there. -/
theorem exists_same_insertItem [StrictWeakOrder less] (x : α) (l : List α) :
    ∃ a ∈ insertItem key less x l, same less (key a) (key x) = true ∧ (a = x ∨ a ∈ l) := by
  induction l with
  | nil => exact ⟨x, mem_singleton.mpr rfl, same_refl _, .inl rfl⟩
  | cons y ys ih =>
    rw [insertItem]
    split
    next => exact ⟨x, mem_cons_self, same_refl _, .inl rfl⟩
    next hxy =>
      split
      next =>
        obtain ⟨a, ha, hsame, hor⟩ := ih
        exact ⟨a, mem_cons_of_mem _ ha, hsame, hor.imp_right (mem_cons_of_mem _)⟩
      next hyx =>
        refine ⟨y, mem_cons_self, ?_, .inr mem_cons_self⟩
        rw [same_iff]
        exact ⟨(not_eq_true _).mp hyx, (not_eq_true _).mp hxy⟩

theorem ordered_insertItem [StrictWeakOrder less] (x : α) {l : List α}
    (h : l.Pairwise fun a b => less (key a) (key b) = true) :
    (insertItem key less x l).Pairwise fun a b => less (key a) (key b) = true := by
  induction h with
  | nil => exact pairwise_singleton _ _
  | @cons y ys hhead htail ih =>
    rw [insertItem]
    split
    next hxy =>
      refine List.Pairwise.cons ?_ (List.Pairwise.cons hhead htail)
      intro z hz
      rcases mem_cons.mp hz with rfl | hz
      · exact hxy
      · exact less_trans hxy (hhead z hz)
    next =>
      split
      next hyx =>
        refine List.Pairwise.cons ?_ ih
        intro z hz
        rcases mem_insertItem hz with rfl | hz
        · exact hyx
        · exact hhead z hz
      next => exact List.Pairwise.cons hhead htail

/-- `insert`. -/
def insert [StrictWeakOrder less] (x : α) (t : Table key less) : Table key less :=
  ⟨insertItem key less x t.items, ordered_insertItem x t.ordered⟩

/-- An element with a new key is inserted. -/
theorem mem_insert [StrictWeakOrder less] {x a : α} {t : Table key less}
    (hnew : t.lookup (key x) = none) : a ∈ t.insert x ↔ a = x ∨ a ∈ t := by
  constructor
  · exact mem_insertItem
  · rintro (rfl | ha)
    · obtain ⟨b, hb, hsame, rfl | hmem⟩ := @exists_same_insertItem α κ key less _ a t.items
      · exact hb
      · rw [lookup_none hnew hmem] at hsame
        cases hsame
    · exact mem_insertItem_of_mem ha

/-- What is there after an insertion was there, or is new and has a new key. -/
theorem mem_insert_cases [StrictWeakOrder less] {x a : α}
    (h : a ∈ t.insert x) : a ∈ t ∨ a = x ∧ t.lookup (key x) = none := by
  cases hb : t.lookup (key x) with
  | none =>
    rcases (mem_insert hb).mp h with rfl | ha
    · exact .inr ⟨rfl, rfl⟩
    · exact .inl ha
  | some b =>
    obtain ⟨hbt, hsame⟩ := lookup_some hb
    rcases mem_insertItem h with rfl | ha
    · -- the element with this key is still there, and keys are unique
      have hbt' : b ∈ t.insert a := mem_insertItem_of_mem hbt
      rw [eq_of_same h hbt' (same_symm hsame)]
      exact .inl hbt
    · exact .inl ha

/-- When nothing but the element itself has its key, it is there after an insertion. -/
theorem mem_insert_of_injective [StrictWeakOrder less]
    (hinj : ∀ a b, same less (key a) (key b) = true → a = b) {x a : α} :
    a ∈ t.insert x ↔ a = x ∨ a ∈ t := by
  constructor
  · exact mem_insertItem
  · rintro (rfl | ha)
    · obtain ⟨b, hb, hsame, -⟩ := @exists_same_insertItem α κ key less _ a t.items
      rwa [hinj b a hsame] at hb
    · exact mem_insertItem_of_mem ha

/-! ### Erasing and changing in place -/

/-- `erase`. -/
def erase (k : κ) (t : Table key less) : Table key less :=
  ⟨t.items.filter fun a => !same less (key a) k, t.ordered.filter _⟩

theorem mem_erase {k : κ} {a : α} :
    a ∈ t.erase k ↔ a ∈ t ∧ same less (key a) k = false := by
  rw [← mem_items]
  simp [erase, mem_items]

/-- Changes elements in place, in what their keys are not compared by. -/
def modify (f : α → α) (hf : ∀ a b, less (key (f a)) (key (f b)) = less (key a) (key b))
    (t : Table key less) : Table key less :=
  ⟨t.items.map f, by
    rw [pairwise_map]
    exact t.ordered.imp fun h => by rwa [hf]⟩

theorem mem_modify {f : α → α} (hf : ∀ a b, less (key (f a)) (key (f b)) = less (key a) (key b))
    {b : α} {t : Table key less} : b ∈ t.modify f hf ↔ ∃ a ∈ t, f a = b :=
  mem_map

theorem mem_modify_of_mem {f : α → α}
    (hf : ∀ a b, less (key (f a)) (key (f b)) = less (key a) (key b)) {a : α}
    (ha : a ∈ t) : f a ∈ t.modify f hf :=
  mem_map_of_mem ha

/-! ### Iterating -/

/-- The key is beyond the point an iteration has come to; without one it has not begun. -/
def beyond (less : κ → κ → Bool) : Option κ → κ → Bool
  | none, _ => true
  | some cursor, k => less cursor k

/-- Where an iteration that has come to `cursor` goes next. -/
def next (cursor : Option κ) (t : Table key less) : Option α :=
  t.find fun a => beyond less cursor (key a)

/-- Nothing beyond the cursor is passed over. -/
theorem next_some [StrictWeakOrder less] {cursor : Option κ} {a : α}
    (h : t.next cursor = some a) :
    a ∈ t ∧ beyond less cursor (key a) = true ∧
      ∀ b ∈ t, beyond less cursor (key b) = true → b = a ∨ less (key a) (key b) = true := by
  obtain ⟨hmem, hbeyond⟩ := find_some h
  refine ⟨hmem, hbeyond, fun b hb hb' => ?_⟩
  rcases eq_or_of_pairwise t.ordered hb hmem with heq | hless | hless
  · exact .inl heq
  · -- `b` comes first and would have been found
    exfalso
    unfold next find at h
    rw [find?_eq_some_iff_append] at h
    obtain ⟨-, before, after, hitems, hnone⟩ := h
    have hordered := t.ordered
    rw [hitems, pairwise_append, pairwise_cons] at hordered
    have hmemb : b ∈ before ++ a :: after := hitems ▸ hb
    rcases mem_append.mp hmemb with hbefore | hafter
    · have hskipped := hnone b hbefore
      rw [hb'] at hskipped
      cases hskipped
    · rcases mem_cons.mp hafter with rfl | hafter
      · rw [@less_irrefl κ less _ (key b)] at hless
        cases hless
      · rw [StrictWeakOrder.asymm (hordered.2.1.1 b hafter)] at hless
        cases hless
  · exact .inr hless

/-- An iteration ends when nothing is beyond the cursor. -/
theorem next_none {cursor : Option κ} (h : t.next cursor = none) {a : α}
    (ha : a ∈ t) : beyond less cursor (key a) = false :=
  find_none h ha

end Table

end OrderedUnique
