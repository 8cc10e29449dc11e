import Mathlib.Data.List.Infix
import Mathlib.Tactic.Common

/-!
# Octet strings and ASCII case

`std::string` and `vector<uint8_t>` are octet strings. The functions here are the
character and string helpers of `misc.hh` and `misc.cc` that compare names without
regard to letter case: `dns_tolower`, `toLower`, `pdns_iequals` and `ciEqual`. The last
two are written separately in the source and compute the same thing
(`pdnsIequals_eq_ciEqual`): equality after folding every octet to lower case
(`ciEqual_iff`).
-/

namespace PowerDNS

open List

/-- A string of octets (`std::string`, `vector<uint8_t>`). -/
abbrev Octets := List UInt8

/-- The octets of an ASCII text. -/
def ascii (s : String) : Octets := s.toList.map fun c => UInt8.ofNat c.toNat

/-- The label separator `.`. -/
abbrev dot : UInt8 := 46

/-- The escape character `\`. -/
abbrev backslash : UInt8 := 92

/-- `dns_tolower`: folds `A`..`Z` to `a`..`z` and leaves every other octet alone. -/
def dnsTolower (c : UInt8) : UInt8 := if 65 ≤ c ∧ c ≤ 90 then c + 32 else c

/-- `toLower` of `misc.hh`. -/
def toLower (s : Octets) : Octets := s.map dnsTolower

/-- `ciEqual` of `misc.cc`: the lengths are compared first, then octet by octet. -/
def ciEqual (a b : Octets) : Bool :=
  a.length == b.length && (a.zip b).all fun p => dnsTolower p.1 == dnsTolower p.2

/-- `pdns_iequals` of `misc.hh`: the octets are compared first, then the lengths. -/
def pdnsIequals : Octets → Octets → Bool
  | [], [] => true
  | a :: as, b :: bs => dnsTolower a == dnsTolower b && pdnsIequals as bs
  | _, _ => false

/-- `pdns_ilexicographical_compare` of `misc.hh`. The difference of two `char`s is taken,
and `char` is signed. -/
def pdnsIlexicographicalCompare : Octets → Octets → Bool
  | a :: as, b :: bs =>
    let result := (dnsTolower a).toInt8.toInt - (dnsTolower b).toInt8.toInt
    if result ≠ 0 then result < 0 else pdnsIlexicographicalCompare as bs
  | [], _ :: _ => true
  | _, [] => false

/-- Insertion into an ordered container with unique keys (`std::set`): an element
equivalent to one that is present is dropped. -/
def setInsert {α : Type} (lt : α → α → Bool) (x : α) : List α → List α
  | [] => [x]
  | y :: ys => if lt x y then x :: y :: ys else if lt y x then y :: setInsert lt x ys else y :: ys

theorem mem_setInsert {α : Type} {lt : α → α → Bool} {x z : α} {ys : List α}
    (h : z ∈ setInsert lt x ys) : z = x ∨ z ∈ ys := by
  induction ys with
  | nil => simpa [setInsert] using h
  | cons y ys ih =>
    unfold setInsert at h
    split at h
    · simpa using h
    · split at h
      · rcases mem_cons.mp h with rfl | h
        · exact .inr mem_cons_self
        · exact (ih h).imp_right (mem_cons_of_mem _)
      · exact .inr h

/-! ### Case folding -/

theorem dnsTolower_dnsTolower (c : UInt8) : dnsTolower (dnsTolower c) = dnsTolower c := by
  simp only [dnsTolower]; grind

@[simp] theorem dnsTolower_eq_dot (c : UInt8) : dnsTolower c = dot ↔ c = dot := by
  simp only [dnsTolower]; grind

@[simp] theorem dnsTolower_eq_backslash (c : UInt8) :
    dnsTolower c = backslash ↔ c = backslash := by
  simp only [dnsTolower]; grind

@[simp] theorem toLower_nil : toLower [] = [] := rfl

@[simp] theorem toLower_cons (c : UInt8) (s : Octets) :
    toLower (c :: s) = dnsTolower c :: toLower s := rfl

@[simp] theorem toLower_append (s t : Octets) : toLower (s ++ t) = toLower s ++ toLower t :=
  map_append

@[simp] theorem length_toLower (s : Octets) : (toLower s).length = s.length :=
  length_map _

@[simp] theorem toLower_toLower (s : Octets) : toLower (toLower s) = toLower s := by
  simp [toLower, dnsTolower_dnsTolower]

@[simp] theorem toLower_eq_nil (s : Octets) : toLower s = [] ↔ s = [] :=
  map_eq_nil_iff

/-! ### The two comparisons -/

theorem pdnsIequals_iff (a b : Octets) : pdnsIequals a b = true ↔ toLower a = toLower b := by
  induction a generalizing b with
  | nil => cases b <;> simp [pdnsIequals]
  | cons x a ih => cases b <;> simp [pdnsIequals, ih]

theorem ciEqual_iff (a b : Octets) : ciEqual a b = true ↔ toLower a = toLower b := by
  induction a generalizing b with
  | nil => cases b <;> simp [ciEqual]
  | cons x a ih =>
    cases b with
    | nil => simp [ciEqual]
    | cons y b =>
      have := ih b
      simp only [ciEqual, Bool.and_eq_true, beq_iff_eq] at this ⊢
      simp only [length_cons, Nat.add_right_cancel_iff, zip_cons_cons,
        all_cons, Bool.and_eq_true, beq_iff_eq, toLower_cons, List.cons.injEq, ← this]
      tauto

end PowerDNS
