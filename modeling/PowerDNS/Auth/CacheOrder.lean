import Mathlib.Data.Set.Basic
import PowerDNS.Auth.CachePurge

/-!
# When `CIBackwardsStringCompare` is an order

The unique index of the packet cache is only as good as the comparison of its names, and a reply that is
found has its question overwritten with the one of the asker, so equivalent names have to be equally long.

The comparison goes through both names from their end and takes the end of the shorter one for a NUL. A name
that goes on with a NUL octet there is then equivalent to the shorter one, and also to others that are not
equivalent to each other. Where no two names stand like that, the comparison is the order of
`NameOrder.key`, in which the end of a name has a place of its own (`ordersNames_iff`).
-/

namespace PowerDNS

open List

namespace PacketCache

namespace NameOrder

/-- The place of an octet, the end of the name having place 0. -/
def rank (c : UInt8) : Int := if signed c < 0 then signed c else signed c + 1

/-- A name, from its end, in the order of the index. -/
def key (s : Octets) : List Int := s.reverse.map rank ++ [0]

theorem places_rank : Places rank where
  lt_iff c d := by
    unfold rank
    split <;> split <;> omega
  ne_zero c _ := by
    unfold rank
    split <;> omega
  pos_iff c hc := by
    have hne : signed c ≠ 0 := fun h => hc (signed_eq_zero.mp h)
    unfold rank
    split <;> omega
  neg_iff c := by
    unfold rank
    split <;> omega

theorem rank_eq_iff {c d : UInt8} : rank c = rank d ↔ dnsTolower c = dnsTolower d := by
  rw [← signed_eq_iff]
  unfold rank
  split <;> split <;> omega

theorem map_rank_eq_iff {xs ys : Octets} : xs.map rank = ys.map rank ↔ toLower xs = toLower ys := by
  induction xs generalizing ys with
  | nil => cases ys <;> simp
  | cons x xs ih =>
    cases ys with
    | nil => simp
    | cons y ys => simp only [map_cons, List.cons.injEq, toLower_cons, rank_eq_iff, ih]

/-- Names have the same place exactly if they differ in letter case only. -/
theorem key_eq_iff {a b : Octets} : key a = key b ↔ toLower a = toLower b := by
  unfold key
  rw [append_left_inj, map_rank_eq_iff]
  unfold toLower
  rw [map_reverse, map_reverse, reverse_inj]

end NameOrder

open NameOrder

/-- `b` ends in `a`, up to letter case, and has a NUL octet right in front of that. -/
def NulExtends (a b : Octets) : Prop := ∃ p s, b = p ++ 0 :: s ∧ toLower s = toLower a

variable {a b : Octets}

theorem nulBehind_reverse : NulBehind a.reverse b.reverse ↔ NulExtends a b := by
  constructor
  · rintro ⟨zs, p, hb, hlower⟩
    refine ⟨p.reverse, zs.reverse, ?_, ?_⟩
    · rw [← reverse_inj, hb]
      simp
    · rw [← reverse_inj]
      unfold toLower at hlower ⊢
      rwa [← map_reverse, ← map_reverse, reverse_reverse]
  · rintro ⟨p, s, rfl, hlower⟩
    refine ⟨s.reverse, p.reverse, by simp, ?_⟩
    unfold toLower at hlower ⊢
    rw [map_reverse, map_reverse, hlower]

variable {xs ys : Octets}

/-- A NUL octet is not told from the end. -/
theorem ciBackwardsLoop_nulBehind (a : UInt8) (h : NulBehind xs ys) :
    ciBackwardsLoop a a xs ys = false ∧ ciBackwardsLoop a a ys xs = false := by
  obtain ⟨zs, p, rfl, hlower⟩ := h
  induction zs generalizing a xs with
  | nil =>
    obtain rfl : xs = [] := map_eq_nil_iff.mp hlower.symm
    exact ⟨rfl, rfl⟩
  | cons z zs ih =>
    cases xs with
    | nil => cases hlower
    | cons x xs =>
      rw [toLower_cons, toLower_cons, List.cons.injEq] at hlower
      obtain ⟨hhead, htail⟩ := hlower
      have hrest := ih (dnsTolower z) htail
      rw [cons_append]
      unfold ciBackwardsLoop
      rw [if_pos hhead.symm, if_pos hhead, ← hhead]
      exact hrest

/-- The comparison as an order of places. -/
theorem ciBackwardsLess_iff_key (hab : ¬NulExtends a b) (hba : ¬NulExtends b a) :
    ciBackwardsLess a b = true ↔ key a < key b :=
  ciBackwardsLoop_iff_places places_rank 0 (fun h => hab (nulBehind_reverse.mp h))
    fun h => hba (nulBehind_reverse.mp h)

/-- Neither name comes before the other. -/
def Equivalent (a b : Octets) : Prop := ciBackwardsLess a b = false ∧ ciBackwardsLess b a = false

theorem equivalent_of_nulExtends (h : NulExtends a b) : Equivalent a b :=
  ciBackwardsLoop_nulBehind 0 (nulBehind_reverse.mpr h)

/-- What the index relies on, for a set of names: a strict weak order, for which names are equivalent
exactly if they differ in letter case only. -/
structure OrdersNames (S : Set Octets) : Prop where
  irrefl : ∀ a ∈ S, ciBackwardsLess a a = false
  trans : ∀ a ∈ S, ∀ b ∈ S, ∀ c ∈ S, ciBackwardsLess a b = true → ciBackwardsLess b c = true →
    ciBackwardsLess a c = true
  equivalent_trans : ∀ a ∈ S, ∀ b ∈ S, ∀ c ∈ S, Equivalent a b → Equivalent b c → Equivalent a c
  equivalent_iff : ∀ a ∈ S, ∀ b ∈ S, Equivalent a b ↔ toLower a = toLower b

/-- Equivalent names are equally long, so that one question fits in the place of the other. -/
theorem OrdersNames.length_eq {S : Set Octets} (h : OrdersNames S) (ha : a ∈ S) (hb : b ∈ S)
    (hequivalent : Equivalent a b) : a.length = b.length := by
  have hlower := congrArg List.length ((h.equivalent_iff a ha b hb).mp hequivalent)
  unfold toLower at hlower
  rwa [length_map, length_map] at hlower

/-- **When the comparison is an order**: exactly on the sets of names in which none is another one, up to
letter case, with a NUL octet in front. -/
theorem ordersNames_iff (S : Set Octets) :
    OrdersNames S ↔ ∀ a ∈ S, ∀ b ∈ S, ¬NulExtends a b := by
  constructor
  · intro h a ha b hb hnul
    have hlength := h.length_eq ha hb (equivalent_of_nulExtends hnul)
    obtain ⟨p, s, rfl, hlower⟩ := hnul
    have hs := congrArg List.length hlower
    unfold toLower at hs
    rw [length_map, length_map] at hs
    rw [length_append, length_cons] at hlength
    omega
  · intro h
    have hless : ∀ a ∈ S, ∀ b ∈ S, (ciBackwardsLess a b = true ↔ key a < key b) :=
      fun a ha b hb => ciBackwardsLess_iff_key (h a ha b hb) (h b hb a ha)
    have hequivalent : ∀ a ∈ S, ∀ b ∈ S, (Equivalent a b ↔ key a = key b) := by
      intro a ha b hb
      unfold Equivalent
      rw [← Bool.not_eq_true, ← Bool.not_eq_true, hless a ha b hb, hless b hb a ha, not_lt, not_lt,
        and_comm, ← le_antisymm_iff]
    refine ⟨fun a ha => ?_, fun a ha b hb c hc hab hbc => ?_, fun a ha b hb c hc hab hbc => ?_,
      fun a ha b hb => ?_⟩
    · rw [← Bool.not_eq_true, hless a ha a ha]
      exact lt_irrefl _
    · rw [hless a ha c hc]
      exact lt_trans ((hless a ha b hb).mp hab) ((hless b hb c hc).mp hbc)
    · rw [hequivalent a ha c hc]
      exact ((hequivalent a ha b hb).mp hab).trans ((hequivalent b hb c hc).mp hbc)
    · rw [hequivalent a ha b hb, key_eq_iff]

/-- **A NUL octet is taken for the end**: the name of one octet NUL is equivalent to the empty one. -/
theorem nul_taken_for_end : ¬OrdersNames Set.univ := by
  intro h
  have hlength := h.length_eq (Set.mem_univ []) (Set.mem_univ [0]) (by unfold Equivalent; decide)
  cases hlength

/-- And what is equivalent to one name is not equivalent to itself: `a` with a NUL octet, and with `z` and a
NUL octet in front. -/
example : Equivalent [97] [0, 97] ∧ Equivalent [97] [122, 0, 97] ∧ ¬Equivalent [0, 97] [122, 0, 97] := by
  unfold Equivalent
  decide

end PacketCache

end PowerDNS
