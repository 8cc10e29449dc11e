import Mathlib.Data.List.Basic
import Mathlib.Data.UInt
import Mathlib.Tactic.Common

/-!
# Compressed names in a message

In a DNS message a name is a sequence of length-prefixed labels that ends in a zero octet
or in a two octet *pointer* to another place in the message, where the name goes on. A
message under construction is only partly known, so the library works over a partial
memory (`Memory`): `Decodes m p ls hops` says that the octets known so far determine a name
at `p`, that its labels are `ls`, and that `hops` pointers are followed on the way.

* `Decodes.mono` — knowing more octets does not change a name that is known already;
* `Decodes.unique` — a place in memory holds at most one name;
* `Decodes.of_label`, `Decodes.of_pointer`, `Decodes.of_root` — the three ways in which an
  encoder extends a name, each for octets that are laid out one after the other (`Holds`).
-/

namespace CompressedName

open Option UInt8 List

/-- The octets of a message, as far as they are known. -/
abbrev Memory := Nat → Option UInt8

/-- `m'` knows everything `m` knows. -/
def Extends (m m' : Memory) : Prop := ∀ p b, m p = some b → m' p = some b

theorem Extends.refl (m : Memory) : Extends m m := fun _ _ h => h

theorem Extends.trans {m₁ m₂ m₃ : Memory} (h₁ : Extends m₁ m₂) (h₂ : Extends m₂ m₃) :
    Extends m₁ m₃ :=
  fun p b h => h₂ p b (h₁ p b h)

/-- The octets `bs` stand at `p`. -/
def Holds (m : Memory) : Nat → List UInt8 → Prop
  | _, [] => True
  | p, b :: bs => m p = some b ∧ Holds m (p + 1) bs

@[simp] theorem holds_nil (m : Memory) (p : Nat) : Holds m p [] := trivial

variable {p : Nat} {m : Memory} {bs : List UInt8}

@[simp] theorem holds_cons {b : UInt8} :
    Holds m p (b :: bs) ↔ m p = some b ∧ Holds m (p + 1) bs := Iff.rfl

theorem holds_append {bs cs : List UInt8} :
    Holds m p (bs ++ cs) ↔ Holds m p bs ∧ Holds m (p + bs.length) cs := by
  induction bs generalizing p with
  | nil => simp
  | cons b bs ih =>
    simp only [cons_append, holds_cons, ih, length_cons, and_assoc]
    rw [show p + 1 + bs.length = p + (bs.length + 1) by omega]

/-- Octet by octet. -/
theorem holds_of_getElem?
    (h : ∀ i b, bs[i]? = some b → m (p + i) = some b) : Holds m p bs := by
  induction bs generalizing p with
  | nil => trivial
  | cons b bs ih =>
    refine ⟨h 0 b rfl, ih fun i b' hb' => ?_⟩
    rw [Nat.add_assoc, Nat.add_comm 1 i]
    exact h (i + 1) b' hb'

theorem Holds.mono {m m' : Memory} (hm : Extends m m')
    (h : Holds m p bs) : Holds m' p bs := by
  induction bs generalizing p with
  | nil => trivial
  | cons b bs ih => exact ⟨hm p b h.1, ih h.2⟩

/-- At one place there is one string of a given length. -/
theorem Holds.unique {bs cs : List UInt8} (hb : Holds m p bs)
    (hc : Holds m p cs) (hlen : bs.length = cs.length) : bs = cs := by
  induction bs generalizing p cs with
  | nil => exact (eq_nil_of_length_eq_zero hlen.symm).symm
  | cons b bs ih =>
    cases cs with
    | nil => simp at hlen
    | cons c cs =>
      have hbc : b = c := by
        have := hb.1
        rw [hc.1] at this
        exact (some.inj this).symm
      rw [hbc, ih hb.2 hc.2 (Nat.succ.inj hlen)]

/-- A label that can be written with a one octet length. -/
def IsLabel (l : List UInt8) : Prop := l ≠ [] ∧ l.length ≤ 63

instance (l : List UInt8) : Decidable (IsLabel l) := inferInstanceAs (Decidable (_ ∧ _))

/-- The place a pointer with octets `hi`, `lo` refers to. -/
def target (hi lo : UInt8) : Nat := 256 * (hi.toNat - 192) + lo.toNat

/-- The octets known so far determine a name at `p` with labels `ls`, behind `hops`
pointers. -/
inductive Decodes (m : Memory) : Nat → List (List UInt8) → Nat → Prop
  | root {p : Nat} (hp : m p = some 0) : Decodes m p [] 0
  | label {p : Nat} {l : List UInt8} {ls : List (List UInt8)} {hops : Nat} (hl : IsLabel l)
      (hp : m p = some (UInt8.ofNat l.length)) (hoctets : Holds m (p + 1) l)
      (hrest : Decodes m (p + 1 + l.length) ls hops) : Decodes m p (l :: ls) hops
  | pointer {p : Nat} {hi lo : UInt8} {ls : List (List UInt8)} {hops : Nat} (hhi : 192 ≤ hi)
      (hp : m p = some hi) (hlo : m (p + 1) = some lo)
      (hrest : Decodes m (target hi lo) ls hops) : Decodes m p ls (hops + 1)

namespace Decodes

variable {m m' : Memory} {p hops hops' : Nat} {ls ls' : List (List UInt8)}

/-- Knowing more octets does not change a name. -/
theorem mono (hm : Extends m m') (h : Decodes m p ls hops) : Decodes m' p ls hops := by
  induction h with
  | root hp => exact root (hm _ _ hp)
  | label hl hp hoctets _ ih => exact label hl (hm _ _ hp) (hoctets.mono hm) ih
  | pointer hhi hp hlo _ ih => exact pointer hhi (hm _ _ hp) (hm _ _ hlo) ih

/-- Every label of a name can be written. -/
theorem isLabel (h : Decodes m p ls hops) : ∀ l ∈ ls, IsLabel l := by
  induction h with
  | root => simp
  | label hl _ _ _ ih => simpa using ⟨hl, ih⟩
  | pointer _ _ _ _ ih => exact ih

variable {l : List UInt8}

theorem length_toNat (hl : IsLabel l) :
    (UInt8.ofNat l.length).toNat = l.length := by
  have := hl.2
  rw [toNat_ofNat']
  omega

theorem length_ne_zero (hl : IsLabel l) : UInt8.ofNat l.length ≠ 0 := by
  intro h
  have hnat := length_toNat hl
  rw [h] at hnat
  exact hl.1 (eq_nil_of_length_eq_zero hnat.symm)

theorem length_lt_pointer (hl : IsLabel l) : ¬192 ≤ UInt8.ofNat l.length := by
  rw [le_iff_toNat_le, length_toNat hl]
  have := hl.2
  simp only [UInt8.reduceToNat]
  omega

/-- A place in memory holds at most one name. -/
theorem unique (h : Decodes m p ls hops) (h' : Decodes m p ls' hops') :
    ls = ls' ∧ hops = hops' := by
  induction h generalizing ls' hops' with
  | root hp =>
    cases h' with
    | root => exact ⟨rfl, rfl⟩
    | label hl hp' =>
      rw [hp] at hp'
      exact absurd (some.inj hp').symm (length_ne_zero hl)
    | pointer hhi hp' =>
      rw [hp] at hp'
      rw [← some.inj hp'] at hhi
      exact absurd hhi (by decide)
  | label hl hp hoctets _ ih =>
    cases h' with
    | root hp' =>
      rw [hp] at hp'
      exact absurd (some.inj hp') (length_ne_zero hl)
    | label hl' hp' hoctets' hrest' =>
      rw [hp] at hp'
      have hlen := congrArg UInt8.toNat (some.inj hp')
      rw [length_toNat hl, length_toNat hl'] at hlen
      obtain rfl := hoctets.unique hoctets' hlen
      obtain ⟨rfl, rfl⟩ := ih hrest'
      exact ⟨rfl, rfl⟩
    | pointer hhi hp' =>
      rw [hp] at hp'
      rw [← some.inj hp'] at hhi
      exact absurd hhi (length_lt_pointer hl)
  | pointer hhi hp hlo _ ih =>
    cases h' with
    | root hp' =>
      rw [hp] at hp'
      rw [some.inj hp'] at hhi
      exact absurd hhi (by decide)
    | label hl hp' =>
      rw [hp] at hp'
      rw [some.inj hp'] at hhi
      exact absurd hhi (length_lt_pointer hl)
    | pointer _ hp' hlo' hrest' =>
      rw [hp] at hp'
      rw [hlo] at hlo'
      obtain rfl := some.inj hp'
      obtain rfl := some.inj hlo'
      obtain ⟨rfl, rfl⟩ := ih hrest'
      exact ⟨rfl, rfl⟩

/-! ### Encoding -/

theorem of_root (h : Holds m p [0]) : Decodes m p [] 0 := root h.1

/-- A label in front of a name. -/
theorem of_label {bs : List UInt8} (hl : IsLabel l)
    (h : Holds m p (UInt8.ofNat l.length :: l ++ bs))
    (hrest : Decodes m (p + (1 + l.length)) ls hops) : Decodes m p (l :: ls) hops := by
  rw [cons_append, holds_cons, holds_append] at h
  exact label hl h.1 h.2.1 (by rwa [Nat.add_assoc])

/-- The two octets of a pointer to `q`. -/
def pointerOctets (q : Nat) : List UInt8 :=
  [UInt8.ofNat (192 + q / 256), UInt8.ofNat (q % 256)]

theorem target_pointerOctets {q : Nat} (hq : q < 16384) : 192 ≤ UInt8.ofNat (192 + q / 256) ∧
    target (UInt8.ofNat (192 + q / 256)) (UInt8.ofNat (q % 256)) = q := by
  have hhi : (UInt8.ofNat (192 + q / 256)).toNat = 192 + q / 256 := by
    rw [toNat_ofNat']
    omega
  constructor
  · rw [le_iff_toNat_le, hhi]
    exact Nat.le_add_right 192 _
  · unfold target
    rw [hhi, toNat_ofNat']
    omega

/-- A pointer to a name. -/
theorem of_pointer {q : Nat} (hq : q < 16384) (h : Holds m p (pointerOctets q))
    (hrest : Decodes m q ls hops) : Decodes m p ls (hops + 1) := by
  obtain ⟨hhi, htarget⟩ := target_pointerOctets hq
  exact pointer hhi h.1 h.2.1 (by rwa [htarget])

end Decodes

end CompressedName
