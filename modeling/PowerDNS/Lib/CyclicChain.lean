import Mathlib.Data.List.Rotate
import PowerDNS.Lib.OrderedChain

/-!
# Chains that are closed to a ring

In an `OrderedChain` every point has a predecessor, for the start of the chain lies before all
points that are asked for. Where the points are spread over the order without such a start (hash
values, say), the last point of the chain is also the one before the first.

* `covers_iff` — the link between the neighbours of a point covers what is outside of the chain
  and has the same predecessor;
* `sameGap_iff` — two points have the same predecessor exactly when they are in the same gap,
  the one around the ends of the order included;
* `isSucc_of_mem_zip_rotate` — in an ascending list, what stands behind a name, or in front when
  nothing stands behind it, comes next on the ring.
-/

namespace CyclicChain

open List Option

variable {α : Type*} [LinearOrder α]

/-- `b` is the last point of the chain that is not after `x`, or the last point of all when `x`
comes before them. -/
def IsPred (chain : Set α) (x b : α) : Prop :=
  IsGreatest {n | n ∈ chain ∧ n ≤ x} b ∨ IsGreatest chain b ∧ ∀ n ∈ chain, x < n

/-- `a` is the first point of the chain after `x`, or the first point of all when none comes
after `x`. -/
def IsSucc (chain : Set α) (x a : α) : Prop :=
  IsLeast {n | n ∈ chain ∧ x < n} a ∨ IsLeast chain a ∧ ∀ n ∈ chain, n ≤ x

/-- The link from `b` to `a` covers `y`: it lies strictly between them, around the ends of the
order when `a` does not come after `b`. -/
def Covers (b a y : α) : Prop := b < y ∧ y < a ∨ a ≤ b ∧ (b < y ∨ y < a)

/-- No point of the chain separates `x` from `y` on the ring. -/
def SameGap (chain : Set α) (x y : α) : Prop :=
  (∀ n ∈ chain, n ≤ x ↔ n ≤ y) ∨ (∀ n ∈ chain, n ≤ x ∧ y < n) ∨ ∀ n ∈ chain, x < n ∧ n ≤ y

variable {chain : Set α} {x y b a : α}

theorem SameGap.refl (chain : Set α) (x : α) : SameGap chain x x := .inl fun _ _ => Iff.rfl

theorem SameGap.symm (h : SameGap chain x y) : SameGap chain y x := by
  rcases h with h | h | h
  · exact .inl fun n hn => (h n hn).symm
  · exact .inr (.inr fun n hn => ⟨(h n hn).2, (h n hn).1⟩)
  · exact .inr (.inl fun n hn => ⟨(h n hn).2, (h n hn).1⟩)

theorem IsPred.mem (h : IsPred chain x b) : b ∈ chain := by
  rcases h with h | h
  · exact h.1.1
  · exact h.1.1

theorem isPred_self (hx : x ∈ chain) : IsPred chain x x :=
  .inl ⟨⟨hx, le_rfl⟩, fun _ hn => hn.2⟩

theorem IsPred.unique {b' : α} (h : IsPred chain x b) (h' : IsPred chain x b') : b = b' := by
  rcases h with h | ⟨h, hall⟩
  · rcases h' with h' | ⟨-, hall'⟩
    · exact IsGreatest.unique h h'
    · exact absurd h.1.2 (not_le.mpr (hall' b h.1.1))
  · rcases h' with h' | ⟨h', -⟩
    · exact absurd h'.1.2 (not_le.mpr (hall b' h'.1.1))
    · exact IsGreatest.unique h h'

theorem IsSucc.unique {a' : α} (h : IsSucc chain x a) (h' : IsSucc chain x a') : a = a' := by
  rcases h with h | ⟨h, hall⟩
  · rcases h' with h' | ⟨-, hall'⟩
    · exact IsLeast.unique h h'
    · exact absurd h.1.2 (not_lt.mpr (hall' a h.1.1))
  · rcases h' with h' | ⟨h', -⟩
    · exact absurd h'.1.2 (not_lt.mpr (hall a' h'.1.1))
    · exact IsLeast.unique h h'

/-- From the first point on, the ring is the chain that starts there. -/
theorem isSucc_iff_of_start {start : α} (hstart : IsLeast chain start) :
    IsSucc chain x a ↔ OrderedChain.IsSucc chain start x a := by
  refine or_congr_right (and_congr_left fun _ => ?_)
  constructor
  · exact fun h => h.unique hstart
  · rintro rfl
    exact hstart

/-- **Gaps.** Two points have one predecessor exactly when nothing separates them. -/
theorem sameGap_iff (hx : IsPred chain x b) : SameGap chain x y ↔ IsPred chain y b := by
  constructor
  · rintro (hgap | hgap | hgap)
    · rcases hx with ⟨⟨hb, hbx⟩, hmax⟩ | ⟨hb, hall⟩
      · refine .inl ⟨⟨hb, (hgap b hb).mp hbx⟩, ?_⟩
        rintro n ⟨hn, hny⟩
        exact hmax ⟨hn, (hgap n hn).mpr hny⟩
      · refine .inr ⟨hb, fun n hn => not_le.mp fun hny => ?_⟩
        exact absurd ((hgap n hn).mpr hny) (not_le.mpr (hall n hn))
    · -- `x` comes after all points and `y` before them
      rcases hx with ⟨⟨hb, -⟩, hmax⟩ | ⟨hb, hall⟩
      · exact .inr ⟨⟨hb, fun n hn => hmax ⟨hn, (hgap n hn).1⟩⟩, fun n hn => (hgap n hn).2⟩
      · exact absurd (hgap b hb.1).1 (not_le.mpr (hall b hb.1))
    · rcases hx with ⟨⟨hb, hbx⟩, -⟩ | ⟨hb, -⟩
      · exact absurd hbx (not_le.mpr (hgap b hb).1)
      · exact .inl ⟨⟨hb.1, (hgap b hb.1).2⟩, fun n hn => hb.2 hn.1⟩
  · intro hy
    rcases hx with ⟨⟨hb, hbx⟩, hmax⟩ | ⟨hb, hall⟩
    · rcases hy with ⟨⟨-, hby⟩, hmax'⟩ | ⟨hb', hall'⟩
      · refine .inl fun n hn => ⟨fun hnx => ?_, fun hny => ?_⟩
        · exact le_trans (hmax ⟨hn, hnx⟩) hby
        · exact le_trans (hmax' ⟨hn, hny⟩) hbx
      · exact .inr (.inl fun n hn => ⟨(hb'.2 hn).trans hbx, hall' n hn⟩)
    · rcases hy with ⟨⟨-, hby⟩, -⟩ | ⟨-, hall'⟩
      · exact .inr (.inr fun n hn => ⟨hall n hn, (hb.2 hn).trans hby⟩)
      · exact .inl fun n hn =>
          iff_of_false (not_le.mpr (hall n hn)) (not_le.mpr (hall' n hn))

/-- What nothing separates has one predecessor. -/
theorem SameGap.isPred_iff (h : SameGap chain x y) : IsPred chain x b ↔ IsPred chain y b :=
  ⟨fun hx => (sameGap_iff hx).mp h, fun hy => (sameGap_iff hy).mp h.symm⟩

theorem SameGap.isSucc (h : SameGap chain x y) (ha : IsSucc chain x a) : IsSucc chain y a := by
  rcases ha with ⟨⟨hac, hxa⟩, hmin⟩ | ⟨ha, hall⟩
  · rcases h with h | h | h
    · refine .inl ⟨⟨hac, not_le.mp fun hay => absurd ((h a hac).mpr hay) (not_le.mpr hxa)⟩, ?_⟩
      rintro n ⟨hn, hyn⟩
      exact hmin ⟨hn, not_le.mp fun hnx => absurd ((h n hn).mp hnx) (not_le.mpr hyn)⟩
    · exact absurd (h a hac).1 (not_le.mpr hxa)
    · exact .inr ⟨⟨hac, fun n hn => hmin ⟨hn, (h n hn).1⟩⟩, fun n hn => (h n hn).2⟩
  · rcases h with h | h | h
    · exact .inr ⟨ha, fun n hn => (h n hn).mp (hall n hn)⟩
    · exact .inl ⟨⟨ha.1, (h a ha.1).2⟩, fun n hn => ha.2 hn.1⟩
    · exact absurd (hall a ha.1) (not_le.mpr (h a ha.1).1)

/-- What nothing separates has one successor. -/
theorem SameGap.isSucc_iff (h : SameGap chain x y) : IsSucc chain x a ↔ IsSucc chain y a :=
  ⟨h.isSucc, h.symm.isSucc⟩

/-- The neighbours of a point are neighbours of each other. -/
theorem IsPred.isSucc (hb : IsPred chain x b) (ha : IsSucc chain x a) : IsSucc chain b a := by
  rcases hb with ⟨⟨hbc, hbx⟩, hmax⟩ | ⟨hb, hall⟩
  · rcases ha with ⟨⟨hac, hxa⟩, hmin⟩ | ⟨ha, hle⟩
    · refine .inl ⟨⟨hac, hbx.trans_lt hxa⟩, ?_⟩
      rintro n ⟨hn, hbn⟩
      exact hmin ⟨hn, not_le.mp fun hnx => absurd (hmax ⟨hn, hnx⟩) (not_le.mpr hbn)⟩
    · exact .inr ⟨ha, fun n hn => hmax ⟨hn, hle n hn⟩⟩
  · rcases ha with ⟨⟨hac, -⟩, hmin⟩ | ⟨ha, hle⟩
    · exact .inr ⟨⟨hac, fun n hn => hmin ⟨hn, hall n hn⟩⟩, fun n hn => hb.2 hn⟩
    · exact absurd (hle b hb.1) (not_le.mpr (hall b hb.1))

/-- A link between neighbours covers a point exactly when the point is outside of the chain and
the link starts at its predecessor. -/
theorem covers_link_iff (hb : b ∈ chain) (ha : IsSucc chain b a) :
    Covers b a y ↔ y ∉ chain ∧ IsPred chain y b := by
  rcases ha with ⟨⟨hac, hba⟩, hmin⟩ | ⟨hmin, hmax⟩
  · constructor
    · rintro (⟨hby, hya⟩ | ⟨hab, -⟩)
      · -- nothing of the chain lies between `b` and `y`
        have hgap : ∀ n ∈ chain, n ≤ y → n ≤ b := fun n hn hny =>
          not_lt.mp fun hbn => absurd (hmin ⟨hn, hbn⟩) (not_le.mpr (hny.trans_lt hya))
        refine ⟨fun hy => absurd (hgap y hy le_rfl) (not_le.mpr hby), .inl ⟨⟨hb, hby.le⟩, ?_⟩⟩
        rintro n ⟨hn, hny⟩
        exact hgap n hn hny
      · exact absurd hba (not_lt.mpr hab)
    · rintro ⟨hy, ⟨⟨-, hby⟩, hmax⟩ | ⟨hb', -⟩⟩
      · refine .inl ⟨lt_of_le_of_ne hby fun e => hy (e ▸ hb), not_le.mp fun hay => ?_⟩
        exact absurd (hmax ⟨hac, hay⟩) (not_le.mpr hba)
      · exact absurd (hb'.2 hac) (not_le.mpr hba)
  · have hgreatest : IsGreatest chain b := ⟨hb, fun n hn => hmax n hn⟩
    constructor
    · rintro (⟨hby, hya⟩ | ⟨-, hby | hya⟩)
      · exact absurd (hmin.2 hb) (not_le.mpr (hby.trans hya))
      · exact ⟨fun hy => absurd (hmax y hy) (not_le.mpr hby),
          .inl ⟨⟨hb, hby.le⟩, fun n hn => hmax n hn.1⟩⟩
      · exact ⟨fun hy => absurd (hmin.2 hy) (not_le.mpr hya),
          .inr ⟨hgreatest, fun n hn => hya.trans_le (hmin.2 hn)⟩⟩
    · rintro ⟨hy, ⟨⟨-, hby⟩, -⟩ | ⟨-, hall⟩⟩
      · exact .inr ⟨hmax a hmin.1, .inl (lt_of_le_of_ne hby fun e => hy (e ▸ hb))⟩
      · exact .inr ⟨hmax a hmin.1, .inr (hall a hmin.1)⟩

/-- **What the link around `x` covers**: the points outside of the chain that nothing separates
from `x`. -/
theorem covers_iff (hb : IsPred chain x b) (ha : IsSucc chain x a) :
    Covers b a y ↔ y ∉ chain ∧ SameGap chain x y := by
  rw [covers_link_iff hb.mem (hb.isSucc ha), sameGap_iff hb]

/-- **What the link around `x` starts at**: the point of the chain that nothing separates from
`x`. -/
theorem eq_pred_iff (hb : IsPred chain x b) : b = y ↔ y ∈ chain ∧ SameGap chain x y := by
  rw [sameGap_iff hb]
  constructor
  · rintro rfl
    exact ⟨hb.mem, isPred_self hb.mem⟩
  · rintro ⟨hy, hpred⟩
    exact hpred.unique (isPred_self hy)

/-! ### Finding the neighbours -/

open OrderedChain (points)

variable {ι : Type*} (key : ι → α)

/-- The name of the last point not after `x`, or of the last point. -/
def predOf (names : List ι) (x : α) : Option ι :=
  (OrderedChain.predOf key names x).or (names.argmax key)

/-- The name of the first point after `x`, or of the first point. -/
def succOf (names : List ι) (x : α) : Option ι :=
  (OrderedChain.succOf key names x).or (names.argmin key)

variable {key} {names : List ι}

theorem isPred_of_predOf {n : ι} (h : predOf key names x = some n) :
    IsPred (points key names) x (key n) := by
  unfold predOf at h
  cases hpred : OrderedChain.predOf key names x with
  | some m =>
    rw [hpred, some_or, Option.some.injEq] at h
    exact .inl (h ▸ OrderedChain.isPred_of_predOf hpred)
  | none =>
    rw [hpred, none_or] at h
    refine .inr ⟨⟨⟨n, argmax_mem h, rfl⟩, ?_⟩, OrderedChain.lt_of_predOf_eq_none hpred⟩
    rintro k ⟨m, hm, rfl⟩
    exact le_of_mem_argmax hm h

theorem isSucc_of_succOf {n : ι} (h : succOf key names x = some n) :
    IsSucc (points key names) x (key n) := by
  unfold succOf at h
  cases hsucc : OrderedChain.succOf key names x with
  | some m =>
    rw [hsucc, some_or, Option.some.injEq] at h
    exact .inl (h ▸ OrderedChain.isLeast_of_succOf hsucc)
  | none =>
    rw [hsucc, none_or] at h
    refine .inr ⟨⟨⟨n, argmin_mem h, rfl⟩, ?_⟩, OrderedChain.le_of_succOf_eq_none hsucc⟩
    rintro k ⟨m, hm, rfl⟩
    exact le_of_mem_argmin hm h

/-- A chain with a point has neighbours for every point. -/
theorem predOf_ne_none {m : ι} (hm : m ∈ names) : predOf key names x ≠ none := by
  intro h
  unfold predOf at h
  rw [or_eq_none_iff] at h
  exact not_mem_nil (argmax_eq_none.mp h.2 ▸ hm)

theorem succOf_ne_none {m : ι} (hm : m ∈ names) : succOf key names x ≠ none := by
  intro h
  unfold succOf at h
  rw [or_eq_none_iff] at h
  exact not_mem_nil (argmin_eq_none.mp h.2 ▸ hm)

/-! ### Ascending lists -/

/-- An ascending list is ascending at any two of its places. -/
theorem key_lt_key_iff (h : names.Pairwise fun a b => key a < key b) {i j : ℕ}
    (hi : i < names.length) (hj : j < names.length) : key names[i] < key names[j] ↔ i < j := by
  rw [pairwise_iff_getElem] at h
  constructor
  · intro hlt
    by_contra hle
    rcases Nat.lt_or_eq_of_le (not_lt.mp hle) with hji | rfl
    · exact absurd (h j i hj hi hji) (not_lt.mpr hlt.le)
    · exact absurd hlt (lt_irrefl _)
  · exact h i j hi hj

/-- The names of an ascending list, each with the one behind it and the last with the first. -/
theorem isSucc_of_mem_zip_rotate (h : names.Pairwise fun a b => key a < key b) {n m : ι}
    (hmem : (n, m) ∈ names.zip (names.rotate 1)) :
    n ∈ names ∧ m ∈ names ∧ IsSucc (points key names) (key n) (key m) := by
  obtain ⟨i, hi, heq⟩ := mem_iff_getElem.mp hmem
  rw [length_zip, length_rotate, Nat.min_self] at hi
  rw [getElem_zip, getElem_rotate, Prod.mk.injEq] at heq
  obtain ⟨rfl, rfl⟩ := heq
  refine ⟨getElem_mem hi, getElem_mem _, ?_⟩
  by_cases hlast : i + 1 < names.length
  · -- the next place is the first one beyond
    simp only [Nat.mod_eq_of_lt hlast]
    refine .inl ⟨⟨⟨_, getElem_mem hlast, rfl⟩,
      (key_lt_key_iff h hi hlast).mpr (Nat.lt_succ_self i)⟩, ?_⟩
    rintro k ⟨⟨m, hm, rfl⟩, hlt⟩
    obtain ⟨j, hj, rfl⟩ := mem_iff_getElem.mp hm
    have hij := (key_lt_key_iff h hi hj).mp hlt
    exact not_lt.mp fun hlt' => absurd ((key_lt_key_iff h hj hlast).mp hlt') (by omega)
  · -- behind the last place comes the first
    have hzero : (i + 1) % names.length = 0 := by
      rw [show i + 1 = names.length by omega, Nat.mod_self]
    simp only [hzero]
    have hpos : 0 < names.length := by omega
    refine .inr ⟨⟨⟨_, getElem_mem hpos, rfl⟩, ?_⟩, ?_⟩
    · rintro k ⟨m, hm, rfl⟩
      obtain ⟨j, hj, rfl⟩ := mem_iff_getElem.mp hm
      exact not_lt.mp fun hlt => absurd ((key_lt_key_iff h hj hpos).mp hlt) (by omega)
    · rintro k ⟨m, hm, rfl⟩
      obtain ⟨j, hj, rfl⟩ := mem_iff_getElem.mp hm
      exact not_lt.mp fun hlt => absurd ((key_lt_key_iff h hi hj).mp hlt) (by omega)

/-- Every name of the list has one that comes next. -/
theorem exists_mem_zip_rotate {n : ι} (hn : n ∈ names) : ∃ m, (n, m) ∈ names.zip (names.rotate 1) := by
  obtain ⟨i, hi, rfl⟩ := mem_iff_getElem.mp hn
  have hi' : i < (names.rotate 1).length := by rwa [length_rotate]
  have hzip : i < (names.zip (names.rotate 1)).length := by
    rw [length_zip, length_rotate, Nat.min_self]
    exact hi
  refine ⟨(names.rotate 1)[i], ?_⟩
  rw [← getElem_zip (h := hzip)]
  exact getElem_mem hzip

end CyclicChain
