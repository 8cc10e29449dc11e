import Mathlib.Data.List.MinMax
import Mathlib.Order.Bounds.Basic
import Mathlib.Tactic.Common

/-!
# Chains of neighbours in a linear order

A set of points of a linear order, closed to a ring: after the last point comes the first
one again. Each point together with the next one is a *link*, and a link shows of all points
strictly between its ends that they are not in the set. Denial of existence by neighbours
rests on three facts:

* the neighbours of any point form a link (`adjacent_of_neighbours`);
* a link covers exactly the points outside the set whose predecessor is its first end
  (`covers_iff`);
* two points have the same predecessor exactly when no point of the set separates them
  (`sameGap_iff`).

The points of a chain are often the keys of names. Two keys that put the names in the same order
give them the same neighbours (`OrderAlike`).
-/

namespace OrderedChain

open List

variable {α : Type*} [LinearOrder α]

/-- `b` is the last point of the chain that is not after `x`. -/
def IsPred (chain : Set α) (x b : α) : Prop := IsGreatest {n | n ∈ chain ∧ n ≤ x} b

/-- `a` is the first point of the chain after `x`, or the start of the chain when there is
none. -/
def IsSucc (chain : Set α) (start x a : α) : Prop :=
  IsLeast {n | n ∈ chain ∧ x < n} a ∨ a = start ∧ ∀ n ∈ chain, n ≤ x

/-- `b` and `a` are neighbours in the chain. -/
def Adjacent (chain : Set α) (start b a : α) : Prop := b ∈ chain ∧ IsSucc chain start b a

/-- The link from `b` to `a` covers `y`: it lies strictly between them, where the link back
to the start covers everything after `b`. -/
def Covers (start b a y : α) : Prop := b < y ∧ (y < a ∨ a = start)

/-- No point of the chain separates `x` from `y`. -/
def SameGap (chain : Set α) (x y : α) : Prop := ∀ n ∈ chain, n ≤ x ↔ n ≤ y

variable {chain : Set α} {start x y b a : α}

theorem IsPred.unique {b' : α} (h : IsPred chain x b) (h' : IsPred chain x b') : b = b' :=
  IsGreatest.unique h h'

theorem IsSucc.unique {a' : α} (h : IsSucc chain start x a) (h' : IsSucc chain start x a') :
    a = a' := by
  rcases h with h | ⟨rfl, hall⟩
  · rcases h' with h' | ⟨-, hall⟩
    · exact IsLeast.unique h h'
    · exact absurd (hall a h.1.1) (not_le.mpr h.1.2)
  · rcases h' with h' | ⟨rfl, -⟩
    · exact absurd (hall a' h'.1.1) (not_le.mpr h'.1.2)
    · rfl

/-- What comes after a point comes after its predecessor. -/
theorem IsPred.isSucc_iff (h : IsPred chain x b) :
    IsSucc chain start x a ↔ IsSucc chain start b a := by
  have hle : ∀ n ∈ chain, n ≤ x ↔ n ≤ b := fun n hn =>
    ⟨fun hnx => h.2 ⟨hn, hnx⟩, fun hnb => hnb.trans h.1.2⟩
  have hset : {n | n ∈ chain ∧ x < n} = {n | n ∈ chain ∧ b < n} := by
    ext n
    constructor
    · rintro ⟨hn, hlt⟩
      exact ⟨hn, not_le.mp fun hnb => not_le.mpr hlt ((hle n hn).mpr hnb)⟩
    · rintro ⟨hn, hlt⟩
      exact ⟨hn, not_le.mp fun hnx => not_le.mpr hlt ((hle n hn).mp hnx)⟩
  unfold IsSucc
  rw [hset]
  apply or_congr_right
  apply and_congr_right
  intro _
  exact forall₂_congr hle

/-- The neighbours of any point form a link of the chain. -/
theorem adjacent_of_neighbours (hb : IsPred chain x b) (ha : IsSucc chain start x a) :
    Adjacent chain start b a :=
  ⟨hb.1.1, hb.isSucc_iff.mp ha⟩

/-- A link covers a point exactly when the point is not in the chain and the link starts at
its predecessor. -/
theorem covers_iff (hstart : ∀ n ∈ chain, start ≤ n) (h : Adjacent chain start b a) :
    Covers start b a y ↔ y ∉ chain ∧ IsPred chain y b := by
  obtain ⟨hb, hsucc⟩ := h
  constructor
  · rintro ⟨hby, hya⟩
    -- no point of the chain lies after `b` and not after `y`
    have hgap : ∀ n ∈ chain, n ≤ y → n ≤ b := by
      intro n hn hny
      by_contra hnb
      rcases hsucc with hleast | ⟨-, hall⟩
      · have han : a ≤ n := hleast.2 ⟨hn, not_le.mp hnb⟩
        rcases hya with hya | rfl
        · exact absurd (han.trans hny) (not_le.mpr hya)
        · exact absurd (hstart b hb) (not_le.mpr hleast.1.2)
      · exact hnb (hall n hn)
    refine ⟨fun hy => absurd (hgap y hy le_rfl) (not_le.mpr hby), ⟨hb, hby.le⟩, ?_⟩
    rintro n ⟨hn, hny⟩
    exact hgap n hn hny
  · rintro ⟨hy, hpred⟩
    have hby : b < y := lt_of_le_of_ne hpred.1.2 fun e => hy (e ▸ hb)
    refine ⟨hby, ?_⟩
    rcases hsucc with hleast | ⟨hwrap, -⟩
    · left
      by_contra hya
      have hab := hpred.2 ⟨hleast.1.1, not_lt.mp hya⟩
      exact absurd hleast.1.2 (not_lt.mpr hab)
    · exact .inr hwrap

/-- Two points have one predecessor exactly when nothing separates them. -/
theorem sameGap_iff (hx : IsPred chain x b) : SameGap chain x y ↔ IsPred chain y b := by
  constructor
  · intro hgap
    refine ⟨⟨hx.1.1, (hgap b hx.1.1).mp hx.1.2⟩, ?_⟩
    rintro n ⟨hn, hny⟩
    exact hx.2 ⟨hn, (hgap n hn).mpr hny⟩
  · intro hy n hn
    constructor
    · exact fun hnx => (hx.2 ⟨hn, hnx⟩).trans hy.1.2
    · exact fun hny => (hy.2 ⟨hn, hny⟩).trans hx.1.2

/-- The link at the predecessor of `x` covers `y` exactly when `y` is outside the chain and
nothing separates the two. -/
theorem covers_of_pred_iff (hstart : ∀ n ∈ chain, start ≤ n) (hx : IsPred chain x b)
    (ha : IsSucc chain start x a) :
    Covers start b a y ↔ y ∉ chain ∧ SameGap chain x y := by
  rw [covers_iff hstart (adjacent_of_neighbours hx ha), sameGap_iff hx]

/-- The link at the predecessor of a point outside the chain covers the point. -/
theorem covers_self (hstart : ∀ n ∈ chain, start ≤ n) (hx : IsPred chain x b)
    (ha : IsSucc chain start x a) (hxc : x ∉ chain) : Covers start b a x :=
  (covers_of_pred_iff hstart hx ha).mpr ⟨hxc, fun _ _ => Iff.rfl⟩

/-! ### Looking at another place

The neighbours of `x` are looked for around a point `k` that need not be `x`: in front of it is the
last point before it, or the start when there is none. -/

section Around

variable {k w : α}

/-- `b` is found in front of `k`. -/
def FoundBefore (chain : Set α) (start k b : α) : Prop :=
  IsGreatest {n | n ∈ chain ∧ n < k} b ∨ b = start ∧ ∀ n ∈ chain, k ≤ n

/-- Everything before `k` is not after what is found there. -/
theorem FoundBefore.le {n : α} (h : FoundBefore chain start k b) (hn : n ∈ chain) (hlt : n < k) :
    n ≤ b := by
  rcases h with h | ⟨-, h⟩
  · exact h.2 ⟨hn, hlt⟩
  · exact absurd hlt (not_lt.mpr (h n hn))

/-- A neighbour that was found in front of `k` is not behind it. -/
theorem FoundBefore.eq_start (h : FoundBefore chain start k b) (hstart : ∀ n, start ≤ n) (hkb : k ≤ b) :
    k = start := by
  rcases h with h | ⟨rfl, -⟩
  · exact absurd h.1.2 (not_lt.mpr hkb)
  · exact le_antisymm hkb (hstart k)

/-- **The neighbours found around `k`** are those of `x` when the chain does not tell the two apart,
and `k` is not in it, or is its start. -/
theorem neighbours_around_iff (hstart : ∀ n, start ≤ n) (hb : FoundBefore chain start k b)
    (ha : IsLeast {n | n ∈ chain ∧ k < n} a) :
    IsPred chain x b ∧ IsSucc chain start x a ↔
      (start ∈ chain ∨ ∃ n ∈ chain, n < k) ∧ (∀ n ∈ chain, n < k → n ≤ x) ∧
        (∀ n ∈ chain, k < n → x < n) ∧ (k ∈ chain → k = start) := by
  constructor
  · rintro ⟨hpred, hsucc⟩
    have hxa : x < a := by
      rcases hsucc with hleast | ⟨rfl, -⟩
      · exact hleast.1.2
      · exact absurd ha.1.2 (not_lt.mpr (hstart k))
    refine ⟨?_, fun n hn hlt => (hb.le hn hlt).trans hpred.1.2, fun n hn hlt => hxa.trans_le (ha.2 ⟨hn, hlt⟩),
      fun hk => ?_⟩
    · rcases hb with hb | ⟨rfl, -⟩
      · exact .inr ⟨b, hb.1.1, hb.1.2⟩
      · exact .inl hpred.1.1
    · refine hb.eq_start hstart (hpred.2 ⟨hk, ?_⟩)
      by_contra hlt
      rcases hsucc with hleast | ⟨rfl, -⟩
      · exact absurd ha.1.2 (not_lt.mpr (hleast.2 ⟨hk, not_le.mp hlt⟩))
      · exact absurd ha.1.2 (not_lt.mpr (hstart k))
  · rintro ⟨hsome, hbefore, hbehind, hself⟩
    have hbmem : b ∈ chain ∧ b ≤ x := by
      rcases hb with hb | ⟨rfl, hall⟩
      · exact ⟨hb.1.1, hbefore b hb.1.1 hb.1.2⟩
      · refine ⟨hsome.resolve_right ?_, hstart x⟩
        rintro ⟨n, hn, hlt⟩
        exact absurd hlt (not_lt.mpr (hall n hn))
    refine ⟨⟨hbmem, ?_⟩, .inl ⟨⟨ha.1.1, hbehind a ha.1.1 ha.1.2⟩, ?_⟩⟩
    · rintro n ⟨hn, hnx⟩
      rcases lt_trichotomy n k with hlt | rfl | hgt
      · exact hb.le hn hlt
      · rw [hself hn]
        exact hstart b
      · exact absurd (hbehind n hn hgt) (not_lt.mpr hnx)
    · rintro n ⟨hn, hxn⟩
      rcases lt_trichotomy n k with hlt | rfl | hgt
      · exact absurd hxn (not_lt.mpr (hbefore n hn hlt))
      · rw [hself hn] at hxn
        exact absurd hxn (not_lt.mpr (hstart x))
      · exact ha.2 ⟨hn, hgt⟩

/-- Nothing is behind `k`, and the start is taken for the next point. -/
theorem last_around_iff (hstart : ∀ n, start ≤ n) (hb : FoundBefore chain start k b)
    (hlast : ∀ n ∈ chain, n ≤ k) :
    IsPred chain x b ∧ IsSucc chain start x start ∧ start ∈ chain ↔
      start ∈ chain ∧ (∀ n ∈ chain, n ≤ x) ∧ (k ∈ chain → k = start) := by
  constructor
  · rintro ⟨hpred, hsucc, hmem⟩
    have hall : ∀ n ∈ chain, n ≤ x := by
      rcases hsucc with hleast | ⟨-, hall⟩
      · exact absurd hleast.1.2 (not_lt.mpr (hstart x))
      · exact hall
    exact ⟨hmem, hall, fun hk => hb.eq_start hstart (hpred.2 ⟨hk, hall k hk⟩)⟩
  · rintro ⟨hmem, hall, hself⟩
    have hbmem : b ∈ chain := by
      rcases hb with hb | ⟨rfl, -⟩
      · exact hb.1.1
      · exact hmem
    refine ⟨⟨⟨hbmem, hall b hbmem⟩, ?_⟩, .inr ⟨rfl, hall⟩, hmem⟩
    rintro n ⟨hn, -⟩
    rcases lt_or_eq_of_le (hlast n hn) with hlt | rfl
    · exact hb.le hn hlt
    · rw [hself hn]
      exact hstart b

/-- Nothing is behind `k`, and a point other than the start is taken for the next one. -/
theorem wrong_around_iff (hstart : ∀ n, start ≤ n) (hb : FoundBefore chain start k b)
    (hlast : ∀ n ∈ chain, n ≤ k) (hw : w ≠ start) :
    IsPred chain x b ∧ IsSucc chain start x w ∧ w ∈ chain ↔
      w = k ∧ k ∈ chain ∧ x < k ∧ b ∈ chain ∧ ∀ n ∈ chain, n < k → n ≤ x := by
  constructor
  · rintro ⟨hpred, hsucc, hmem⟩
    have hxw : x < w := by
      rcases hsucc with hleast | ⟨heq, -⟩
      · exact hleast.1.2
      · exact absurd heq hw
    have hwk : w = k := by
      rcases lt_or_eq_of_le (hlast w hmem) with hlt | heq
      · exact absurd ((hb.le hmem hlt).trans hpred.1.2) (not_le.mpr hxw)
      · exact heq
    exact ⟨hwk, hwk ▸ hmem, hwk ▸ hxw, hpred.1.1, fun n hn hlt => (hb.le hn hlt).trans hpred.1.2⟩
  · rintro ⟨rfl, hmem, hxw, hbmem, hbefore⟩
    have hbx : b ≤ x := by
      rcases hb with hb | ⟨rfl, -⟩
      · exact hbefore b hb.1.1 hb.1.2
      · exact hstart x
    refine ⟨⟨⟨hbmem, hbx⟩, ?_⟩, .inl ⟨⟨hmem, hxw⟩, ?_⟩, hmem⟩
    · rintro n ⟨hn, hnx⟩
      exact hb.le hn (hnx.trans_lt hxw)
    · rintro n ⟨hn, hxn⟩
      by_contra hlt
      exact absurd hxn (not_lt.mpr (hbefore n hn (not_le.mp hlt)))

end Around

/-! ### Finding the neighbours -/

variable {ι : Type*} (key : ι → α)

/-- The set of points that a list of names stands for. -/
def points (names : List ι) : Set α := {k | ∃ n ∈ names, key n = k}

/-- The name of the last point not after `x`. -/
def predOf (names : List ι) (x : α) : Option ι := (names.filter fun n => key n ≤ x).argmax key

/-- The name of the first point after `x`. -/
def succOf (names : List ι) (x : α) : Option ι := (names.filter fun n => x < key n).argmin key

variable {key} {names : List ι}

theorem isPred_of_predOf {n : ι} (h : predOf key names x = some n) :
    IsPred (points key names) x (key n) := by
  obtain ⟨hmem, hle⟩ := mem_filter.mp (argmax_mem h)
  refine ⟨⟨⟨n, hmem, rfl⟩, of_decide_eq_true hle⟩, ?_⟩
  rintro k ⟨⟨m, hm, rfl⟩, hmx⟩
  exact le_of_mem_argmax (mem_filter.mpr ⟨hm, decide_eq_true hmx⟩) h

theorem mem_of_predOf {n : ι} (h : predOf key names x = some n) : n ∈ names :=
  (mem_filter.mp (argmax_mem h)).1

/-- No point is not after `x`. -/
theorem lt_of_predOf_eq_none (h : predOf key names x = none) : ∀ k ∈ points key names, x < k := by
  rintro k ⟨m, hm, rfl⟩
  by_contra hle
  have hnil := argmax_eq_none.mp h
  exact not_mem_nil
    (hnil ▸ mem_filter.mpr ⟨hm, decide_eq_true (not_lt.mp hle)⟩)

theorem isLeast_of_succOf {n : ι} (h : succOf key names x = some n) :
    IsLeast {k | k ∈ points key names ∧ x < k} (key n) := by
  obtain ⟨hmem, hlt⟩ := mem_filter.mp (argmin_mem h)
  refine ⟨⟨⟨n, hmem, rfl⟩, of_decide_eq_true hlt⟩, ?_⟩
  rintro k ⟨⟨m, hm, rfl⟩, hxm⟩
  exact le_of_mem_argmin (mem_filter.mpr ⟨hm, decide_eq_true hxm⟩) h

/-- No point is after `x`. -/
theorem le_of_succOf_eq_none (h : succOf key names x = none) : ∀ k ∈ points key names, k ≤ x := by
  rintro k ⟨m, hm, rfl⟩
  by_contra hlt
  have hnil := argmin_eq_none.mp h
  exact not_mem_nil
    (hnil ▸ mem_filter.mpr ⟨hm, decide_eq_true (not_le.mp hlt)⟩)

theorem isSucc_of_succOf {n : ι} (h : succOf key names x = some n) :
    IsSucc (points key names) start x (key n) :=
  .inl (isLeast_of_succOf h)

/-- No point after `x`: the chain starts again. -/
theorem isSucc_of_succOf_eq_none (h : succOf key names x = none) :
    IsSucc (points key names) start x start :=
  .inr ⟨rfl, le_of_succOf_eq_none h⟩

/-- There is a point not after `x` as soon as the start of the chain is one. -/
theorem predOf_ne_none {m : ι} (hm : m ∈ names) (hmx : key m ≤ x) :
    predOf key names x ≠ none :=
  fun h => absurd hmx (not_le.mpr (lt_of_predOf_eq_none h _ ⟨m, hm, rfl⟩))

/-! ### Two keys that order alike -/

variable {β : Type*} [LinearOrder β] {f : ι → α} {g : ι → β} {D : Set ι} {i j : ι}

/-- The keys put the names of `D` in the same order. -/
def OrderAlike (f : ι → α) (g : ι → β) (D : Set ι) : Prop := ∀ i ∈ D, ∀ j ∈ D, f i < f j ↔ g i < g j

namespace OrderAlike

theorem le_iff (h : OrderAlike f g D) (hi : i ∈ D) (hj : j ∈ D) : f i ≤ f j ↔ g i ≤ g j := by
  rw [← not_lt, ← not_lt, h j hj i hi]

theorem eq_iff (h : OrderAlike f g D) (hi : i ∈ D) (hj : j ∈ D) : f i = f j ↔ g i = g j := by
  rw [le_antisymm_iff, le_antisymm_iff, h.le_iff hi hj, h.le_iff hj hi]

theorem mem_points (h : OrderAlike f g D) (hnames : ∀ n ∈ names, n ∈ D) (hi : i ∈ D) :
    f i ∈ points f names ↔ g i ∈ points g names :=
  exists_congr fun n => and_congr_right fun hn => h.eq_iff (hnames n hn) hi

theorem isPred_iff (h : OrderAlike f g D) (hnames : ∀ n ∈ names, n ∈ D) (hi : i ∈ D) (hj : j ∈ D) :
    IsPred (points f names) (f i) (f j) ↔ IsPred (points g names) (g i) (g j) := by
  refine and_congr (and_congr (h.mem_points hnames hj) (h.le_iff hj hi)) ?_
  constructor
  · rintro hall k ⟨⟨n, hn, rfl⟩, hle⟩
    exact (h.le_iff (hnames n hn) hj).mp
      (hall ⟨⟨n, hn, rfl⟩, (h.le_iff (hnames n hn) hi).mpr hle⟩)
  · rintro hall k ⟨⟨n, hn, rfl⟩, hle⟩
    exact (h.le_iff (hnames n hn) hj).mpr
      (hall ⟨⟨n, hn, rfl⟩, (h.le_iff (hnames n hn) hi).mp hle⟩)

theorem isSucc_iff (h : OrderAlike f g D) (hnames : ∀ n ∈ names, n ∈ D) {o : ι} (ho : o ∈ D)
    (hi : i ∈ D) (hj : j ∈ D) :
    IsSucc (points f names) (f o) (f i) (f j) ↔ IsSucc (points g names) (g o) (g i) (g j) := by
  refine or_congr (and_congr (and_congr (h.mem_points hnames hj) (h i hi j hj)) ?_)
    (and_congr (h.eq_iff hj ho) ?_)
  · constructor
    · rintro hall k ⟨⟨n, hn, rfl⟩, hlt⟩
      exact (h.le_iff hj (hnames n hn)).mp (hall ⟨⟨n, hn, rfl⟩, (h i hi n (hnames n hn)).mpr hlt⟩)
    · rintro hall k ⟨⟨n, hn, rfl⟩, hlt⟩
      exact (h.le_iff hj (hnames n hn)).mpr (hall ⟨⟨n, hn, rfl⟩, (h i hi n (hnames n hn)).mp hlt⟩)
  · constructor
    · rintro hall k ⟨n, hn, rfl⟩
      exact (h.le_iff (hnames n hn) hi).mp (hall _ ⟨n, hn, rfl⟩)
    · rintro hall k ⟨n, hn, rfl⟩
      exact (h.le_iff (hnames n hn) hi).mpr (hall _ ⟨n, hn, rfl⟩)

end OrderAlike

end OrderedChain
