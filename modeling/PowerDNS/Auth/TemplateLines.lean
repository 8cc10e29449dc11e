import Mathlib
import PowerDNS.Auth.ZoneParser
import PowerDNS.Base.Scan

/-!
# The lines of a template

A `$GENERATE` line stands for as many lines as its range has counters. What is put for a part of the template
is told item by item (`Reading`): a naked dollar is the counter, a backslash lets the octet behind it stand for
itself, and `${offset,width,radix}` is a number printed by `snprintf`, with a format that is made of the width
and the radix as they are written. Nothing is refused: an octet that is none of the four radixes is a conversion
of `printf` as well.

* `expandFrom_reading` — every part is expanded item by item;
* `printed_spec` — the number that is put for a specification;
* `template_lines` — the lines that `getTemplateLine` gives one after the other.
-/

namespace PowerDNS.ZoneParserTNG

open List

/-! ### What a part says -/

/-- What a part of a template is made of. -/
inductive Item
  | plain (c : UInt8)
  | escaped (c : UInt8)
  | counter
  | spec (text : Octets)
  | unfinished
  deriving DecidableEq

/-- A part, read as items. An escape or a specification that the part ends in is unfinished. -/
inductive Reading : Octets → List Item → Prop
  | nil : Reading [] []
  | plain {c s items} (hback : c ≠ backslash) (hdollar : c ≠ 36) :
      Reading s items → Reading (c :: s) (.plain c :: items)
  | escaped {c s items} : Reading s items → Reading (backslash :: c :: s) (.escaped c :: items)
  | counter {s items} (hbrace : s.head? ≠ some 123) : Reading s items → Reading (36 :: s) (.counter :: items)
  | spec {text s items} (hopen : 125 ∉ text) :
      Reading s items → Reading (36 :: 123 :: (text ++ 125 :: s)) (.spec text :: items)
  | openEscape : Reading [backslash] [.unfinished]
  | openSpec {text} (hopen : 125 ∉ text) : Reading (36 :: 123 :: text) [.unfinished]

/-- What is put for an item. -/
def Item.expansion (env : Surroundings) (n : UInt32) : Item → Octets
  | .plain c => [c]
  | .escaped c => [c]
  | .counter => decimal n.toNat
  | .spec text =>
    let spec := scanSpec text
    printed env spec.2.1 spec.2.2 (n + UInt32.ofInt spec.1)
  | .unfinished => []

/-- The line for a counter. -/
def lineOf (env : Surroundings) (n : UInt32) (parts : List (List Item)) : Octets :=
  joinWith 32 (parts.map fun items => items.flatMap (Item.expansion env n))

/-- The lines of so many calls of `getTemplateLine`, or of fewer when there is no line any more. -/
def templateLines (env : Surroundings) : Nat → Parser → List Octets
  | 0, _ => []
  | calls + 1, s =>
    match getTemplateLine env s with
    | none => []
    | some s => s.d_line :: templateLines env calls s

/-! ### Specifications -/

/-- The documented radixes. -/
inductive Radix
  | d
  | o
  | x
  | X
  deriving DecidableEq

/-- The letter of a radix. -/
def Radix.letter : Radix → UInt8
  | .d => 100
  | .o => 111
  | .x => 120
  | .X => 88

/-- A 32 bits number as it is meant in a radix: with a sign in decimal, and without one otherwise. -/
def Radix.meant : Radix → Int → Int
  | .d, n => toInt32 n
  | .o, n => n % 2 ^ 32
  | .x, n => n % 2 ^ 32
  | .X, n => n % 2 ^ 32

/-- The digits of a number. -/
def Radix.digits : Radix → Nat → Octets
  | .d, n => decimal n
  | .o, n => digitsOf 8 65 n
  | .x, n => digitsOf 16 97 n
  | .X, n => digitsOf 16 65 n

/-- A number, with zeros between the sign and the digits up to the width. -/
def Radix.padded (radix : Radix) (width : Nat) (n : Int) : Octets :=
  let sign := if n < 0 then [45] else []
  let digits := radix.digits n.natAbs
  sign ++ List.replicate (width - (sign.length + digits.length)) 48 ++ digits

/-- A number without a sign. -/
def natural (digits : Octets) : Option Int :=
  if digits ≠ [] ∧ ∀ c ∈ digits, isDigit c then some (readDigits 0 digits) else none

/-- A number as it is written: a sign perhaps, and digits. -/
def number (s : Octets) : Option Int :=
  if s.head? = some 45 then (natural s.tail).map fun n => -n
  else if s.head? = some 43 then natural s.tail
  else natural s

/-- A specification; the width and the radix may be left out. -/
structure Spec where
  offset : Octets
  width : Option (Octets × Option Radix)

def Spec.written (spec : Spec) : Octets :=
  match spec.width with
  | none => spec.offset
  | some (width, none) => spec.offset ++ 44 :: width
  | some (width, some radix) => spec.offset ++ 44 :: (width ++ [44, radix.letter])

/-- The offset, the width and the radix that a specification says. -/
def Spec.value (spec : Spec) : Option (Int × Int × Radix) :=
  match spec.width with
  | none => (number spec.offset).map fun offset => (offset, 0, .d)
  | some (width, radix) =>
    match number spec.offset, number width with
    | some offset, some width => some (offset, width, radix.getD .d)
    | _, _ => none

/-! ### Numbers -/

section Scanned

variable {digits s rest : Octets} {n : Int}

theorem natural_eq_some (h : natural digits = some n) :
    (∃ c t, digits = c :: t ∧ isDigit c) ∧ (∀ c ∈ digits, isDigit c) ∧ n = readDigits 0 digits := by
  unfold natural at h
  split at h
  next hdigits =>
    obtain ⟨c, t, rfl⟩ := exists_cons_of_ne_nil hdigits.1
    exact ⟨⟨c, t, rfl, hdigits.2 c mem_cons_self⟩, hdigits.2, (Option.some.inj h).symm⟩
  next => cases h

theorem not_isSpace_of_isDigit {c : UInt8} (h : isDigit c) : isSpace c = false := by
  obtain ⟨hlow, hhigh⟩ := isDigit_iff.mp h
  unfold isSpace
  grind

/-- Digits are read up to an octet that is none. -/
theorem readDigits_digits (hrest : ∀ c ∈ rest.head?, isDigit c = false) :
    readDigits 0 (digits ++ rest) = readDigits 0 digits := by
  cases rest with
  | nil => rw [append_nil]
  | cons c rest =>
    have hc : ¬(48 ≤ c ∧ c ≤ 57) := fun h => by
      have hdigit := hrest c rfl
      rw [show isDigit c = true from isDigit_iff.mpr h] at hdigit
      cases hdigit
    exact readDigits_append hc 0 digits rest

theorem dropWhile_digits (hall : ∀ c ∈ digits, isDigit c) (hrest : ∀ c ∈ rest.head?, isDigit c = false) :
    (digits ++ rest).dropWhile isDigit = rest := by
  rw [dropWhile_append_of_pos hall]
  cases rest with
  | nil => rfl
  | cons c rest => exact dropWhile_cons_of_neg (by rw [hrest c rfl]; exact Bool.false_ne_true)

theorem scanInt_eq (hspace : s.head?.any isSpace = false)
    (hsign : (if s.head? = some 45 ∨ s.head? = some 43 then s.tail else s) = digits ++ rest)
    (hdigits : ∃ c t, digits = c :: t ∧ isDigit c) (hall : ∀ c ∈ digits, isDigit c)
    (hrest : ∀ c ∈ rest.head?, isDigit c = false) : scanInt s = some (atoi s, rest) := by
  have hdrop : s.dropWhile isSpace = s := by
    cases s with
    | nil => rfl
    | cons c s =>
      have hc : isSpace c = false := hspace
      exact dropWhile_cons_of_neg (by rw [hc]; exact Bool.false_ne_true)
  obtain ⟨c, t, rfl, hc⟩ := hdigits
  have hany : (c :: t ++ rest).head?.any isDigit = true := hc
  unfold scanInt
  rw [hdrop]
  dsimp only
  rw [hsign, if_pos hany, dropWhile_digits hall hrest]

theorem atoi_cons {c : UInt8} (hc : isSpace c = false) :
    atoi (c :: s) = toInt32 (if c = 45 then -(readDigits 0 s : Int) else
      if c = 43 then readDigits 0 s else readDigits 0 (c :: s)) := by
  unfold atoi
  rw [dropWhile_cons_of_neg (by rw [hc]; exact Bool.false_ne_true)]
  dsimp only
  split
  · rfl
  · split
    · rfl
    · rfl

/-- **A number that is written is scanned** up to the octet behind it, which is no digit. -/
theorem scanInt_number (h : number s = some n) (hrest : ∀ c ∈ rest.head?, isDigit c = false) :
    scanInt (s ++ rest) = some (toInt32 n, rest) := by
  unfold number at h
  split at h
  next hminus =>
    obtain ⟨digits, rfl⟩ := head?_eq_some_iff.mp hminus
    obtain ⟨n', hn', rfl⟩ := Option.map_eq_some_iff.mp h
    obtain ⟨hdigits, hall, rfl⟩ := natural_eq_some hn'
    rw [cons_append, scanInt_eq rfl (if_pos (.inl rfl)) hdigits hall hrest,
      atoi_cons rfl, if_pos rfl, readDigits_digits hrest]
    rfl
  next hminus =>
    split at h
    next hplus =>
      obtain ⟨digits, rfl⟩ := head?_eq_some_iff.mp hplus
      obtain ⟨hdigits, hall, rfl⟩ := natural_eq_some h
      rw [cons_append, scanInt_eq rfl (if_pos (.inr rfl)) hdigits hall hrest,
        atoi_cons rfl, if_neg (by decide), if_pos rfl, readDigits_digits hrest]
      rfl
    next hplus =>
      obtain ⟨⟨c, t, rfl, hc⟩, hall, rfl⟩ := natural_eq_some h
      have hspace := not_isSpace_of_isDigit hc
      have hhead : (c :: t ++ rest).head?.any isSpace = false := hspace
      rw [scanInt_eq hhead (if_neg (not_or.mpr ⟨hminus, hplus⟩))
        ⟨c, t, rfl, hc⟩ hall hrest, cons_append, atoi_cons hspace, if_neg fun heq => hminus (congrArg some heq),
        if_neg fun heq => hplus (congrArg some heq), ← cons_append, readDigits_digits hrest]

end Scanned

/-- The sum of a counter and an offset. -/
theorem toNat_counter_add (n : UInt32) (offset : Int) :
    ((n + UInt32.ofInt (toInt32 offset)).toNat : Int) = (n.toNat + offset) % 2 ^ 32 := by
  have hoffset : ((UInt32.ofInt (toInt32 offset)).toNat : Int) = offset % 2 ^ 32 := by
    unfold UInt32.ofInt toInt32
    rw [UInt32.toNat_ofNat']
    have hmod : offset.bmod (2 ^ 32) % (2 ^ 32 : Nat) = offset % (2 ^ 32 : Nat) := Int.bmod_emod
    omega
  rw [UInt32.toNat_add]
  omega

/-! ### Specifications -/

section Specs

variable {spec : Spec} {offset width : Int} {radix : Radix} {s w : Octets}

theorem scanSpec_offset (hoffset : scanInt s = some (offset, [])) : scanSpec s = (offset, 0, 100) := by
  unfold scanSpec
  rw [hoffset]
  rfl

theorem scanSpec_width (hoffset : scanInt s = some (offset, 44 :: w)) (hwidth : scanInt w = some (width, [])) :
    scanSpec s = (offset, width, 100) := by
  unfold scanSpec
  rw [hoffset]
  dsimp only
  rw [if_pos (show (44 :: w).head? = some 44 from rfl), tail_cons, hwidth]

theorem scanSpec_radix {c : UInt8} (hoffset : scanInt s = some (offset, 44 :: w))
    (hwidth : scanInt w = some (width, [44, c])) : scanSpec s = (offset, width, c) := by
  unfold scanSpec
  rw [hoffset]
  dsimp only
  rw [if_pos (show (44 :: w).head? = some 44 from rfl), tail_cons, hwidth]
  rfl

/-- **A specification is scanned** as it is meant. -/
theorem scanSpec_written (h : spec.value = some (offset, width, radix)) :
    scanSpec spec.written = (toInt32 offset, toInt32 width, radix.letter) := by
  have hcomma (rest : Octets) : ∀ c ∈ (44 :: rest : Octets).head?, isDigit c = false := by
    intro c hc
    obtain rfl := Option.some.inj hc
    rfl
  have hend : ∀ c ∈ ([] : Octets).head?, isDigit c = false := fun c hc => by cases hc
  obtain ⟨o, wr⟩ := spec
  unfold Spec.value at h
  match wr with
  | none =>
    obtain ⟨n, hn, heq⟩ := Option.map_eq_some_iff.mp h
    obtain ⟨rfl, rfl, rfl⟩ : n = offset ∧ 0 = width ∧ Radix.d = radix := by simpa using heq
    have hoffset := scanInt_number hn hend
    rw [append_nil] at hoffset
    exact scanSpec_offset hoffset
  | some (w, r) =>
    dsimp only at h
    split at h
    next n m hn hm =>
      obtain ⟨rfl, rfl, rfl⟩ : n = offset ∧ m = width ∧ r.getD .d = radix := by simpa using h
      cases r with
      | none =>
        have hwidth := scanInt_number hm hend
        rw [append_nil] at hwidth
        exact scanSpec_width (scanInt_number hn (hcomma w)) hwidth
      | some r => exact scanSpec_radix (scanInt_number hn (hcomma _)) (scanInt_number hm (hcomma [r.letter]))
    next => cases h

/-- The number that is printed in a radix. -/
theorem converted_letter (radix : Radix) {n : UInt32} {k : Int} (h : (n.toNat : Int) = k % 2 ^ 32) :
    converted radix.letter n =
      some (if radix.meant k < 0 then [45] else [], radix.digits (radix.meant k).natAbs) := by
  have hsigned : toInt32 n.toNat = toInt32 k := by
    rw [h]
    exact Int.emod_bmod k (2 ^ 32)
  have hpos : ¬k % 2 ^ 32 < 0 := not_lt.mpr (Int.emod_nonneg k (by decide))
  have habs : (k % 2 ^ 32).natAbs = n.toNat := by omega
  cases radix with
  | d =>
    unfold converted
    rw [hsigned]
    exact if_pos (.inl rfl)
  | o =>
    show some _ = some (if k % 2 ^ 32 < 0 then _ else _, digitsOf 8 65 (k % 2 ^ 32).natAbs)
    rw [if_neg hpos, habs]
  | x =>
    show some _ = some (if k % 2 ^ 32 < 0 then _ else _, digitsOf 16 97 (k % 2 ^ 32).natAbs)
    rw [if_neg hpos, habs]
  | X =>
    show some _ = some (if k % 2 ^ 32 < 0 then _ else _, digitsOf 16 65 (k % 2 ^ 32).natAbs)
    rw [if_neg hpos, habs]

theorem length_width {k : Nat} (hk : k < 10000000) : (decimal k).length ≤ 7 := by
  have hpow : (10 : ℕ) ^ 7 = 10000000 := by norm_num
  exact length_decimal_le (by decide) (by rw [hpow]; exact hk)

theorem toInt32_width {k : Nat} (hk : k < 10000000) : toInt32 k = k :=
  toInt32_of_range (by omega) (by omega)

theorem short_width {k : Nat} (hk : k < 10000000) : ¬8 ≤ (itoa k).length := by
  have hle := length_width hk
  show ¬8 ≤ (decimal k).length
  omega

theorem printed_some {env : Surroundings} {width : Int} {letter : UInt8} {n : UInt32} {p : Octets × Octets}
    (hshort : ¬8 ≤ (itoa width).length) (hconverted : converted letter n = some p) (hpos : ¬width < 0) :
    printed env width letter n =
      (p.1 ++ List.replicate (width.natAbs - (p.1.length + p.2.length)) 48 ++ p.2).take 78 := by
  unfold printed
  rw [if_neg hshort, hconverted]
  dsimp only
  rw [if_neg hpos]

/-- **What is put for a specification**: the sum of the counter and the offset, in the radix, with zeros up to
the width. `tmp` takes 78 octets, and the format a width of seven digits. -/
theorem printed_spec {k : Nat} (env : Surroundings) (n : UInt32) (h : spec.value = some (offset, (k : Int), radix))
    (hk : k < 10000000) :
    Item.expansion env n (.spec spec.written) = (radix.padded k (radix.meant (n.toNat + offset))).take 78 := by
  have hpos : ¬(k : Int) < 0 := not_lt.mpr (Int.natCast_nonneg k)
  have hprinted := @printed_some env _ _ _ _ (short_width hk)
    (converted_letter radix (toNat_counter_add n offset)) hpos
  unfold Item.expansion
  dsimp only
  rw [scanSpec_written h]
  rw [toInt32_width hk, hprinted, Int.natAbs_natCast]
  unfold Radix.padded
  dsimp only

end Specs

/-! ### Parts -/

section Parts

variable {env : Surroundings} {n : UInt32} {s sofar text : Octets} {items : List Item}

/-- Every part can be read. -/
theorem exists_reading (part : Octets) : ∃ items, Reading part items := by
  induction h : part.length using Nat.strong_induction_on generalizing part with
  | _ m ih =>
    have hshorter (s : Octets) (hs : s.length < part.length) : ∃ items, Reading s items := ih _ (h ▸ hs) s rfl
    match part with
    | [] => exact ⟨[], .nil⟩
    | c :: s =>
      by_cases hback : c = backslash
      · subst hback
        match s with
        | [] => exact ⟨_, .openEscape⟩
        | c :: s =>
          obtain ⟨items, hs⟩ := hshorter s (by simp only [length_cons]; omega)
          exact ⟨_, .escaped hs⟩
      by_cases hdollar : c = 36
      · subst hdollar
        by_cases hbrace : s.head? = some 123
        · obtain ⟨t, rfl⟩ := head?_eq_some_iff.mp hbrace
          by_cases hclosed : 125 ∈ t
          · obtain ⟨text, s, rfl, hopen⟩ := eq_append_cons_of_mem hclosed
            obtain ⟨items, hs⟩ := hshorter s (by simp only [length_cons, length_append]; omega)
            exact ⟨_, .spec hopen hs⟩
          · exact ⟨_, .openSpec hclosed⟩
        · obtain ⟨items, hs⟩ := hshorter s (Nat.lt_succ_self _)
          exact ⟨_, .counter hbrace hs⟩
      · obtain ⟨items, hs⟩ := hshorter s (Nat.lt_succ_self _)
        exact ⟨_, .plain hback hdollar hs⟩

/-- A specification is read up to its end. -/
theorem expandFrom_spec (hopen : 125 ∉ text) :
    expandFrom env n (.spec sofar) (text ++ 125 :: s) =
      (Item.spec (sofar ++ text)).expansion env n ++ expandFrom env n .plain s := by
  induction text generalizing sofar with
  | nil =>
    rw [append_nil, nil_append, expandFrom, if_pos rfl]
    rfl
  | cons c text ih =>
    have hc : c ≠ 125 := fun heq => hopen (heq ▸ mem_cons_self)
    rw [cons_append, expandFrom, if_neg hc, ih fun hmem => hopen (mem_cons_of_mem c hmem),
      append_assoc]
    rfl

theorem expandFrom_openSpec (hopen : 125 ∉ text) : expandFrom env n (.spec sofar) text = [] := by
  induction text generalizing sofar with
  | nil => rfl
  | cons c text ih =>
    have hc : c ≠ 125 := fun heq => hopen (heq ▸ mem_cons_self)
    rw [expandFrom, if_neg hc]
    exact ih fun hmem => hopen (mem_cons_of_mem c hmem)

/-- **A part is expanded item by item.** -/
theorem expandFrom_reading {part : Octets} (h : Reading part items) :
    expandFrom env n .plain part = items.flatMap (Item.expansion env n) := by
  induction h with
  | nil => rfl
  | plain hback hdollar _ ih =>
    rw [expandFrom, if_neg hback, if_neg hdollar, ih]
    rfl
  | escaped _ ih =>
    rw [expandFrom, if_pos rfl, expandFrom, ih]
    rfl
  | counter hbrace _ ih =>
    rw [expandFrom, if_neg (by decide), if_pos rfl, if_neg hbrace, ih]
    rfl
  | spec hopen _ ih =>
    rw [expandFrom, if_neg (by decide), if_pos rfl, head?_cons, if_pos rfl, expandFrom, expandFrom_spec hopen, ih]
    rfl
  | openEscape => rfl
  | openSpec hopen =>
    rw [expandFrom, if_neg (by decide), if_pos rfl, head?_cons, if_pos rfl, expandFrom, expandFrom_openSpec hopen]
    rfl

end Parts

/-! ### Lines -/

section Lines

variable {env : Surroundings} {s : Parser} {readings : List (List Item)}

theorem expandParts_reading {n : UInt32} {parts : List Octets} (h : List.Forall₂ Reading parts readings) :
    expandParts env n parts = lineOf env n readings := by
  have hmap : parts.map (expandFrom env n .plain) = readings.map fun items => items.flatMap (Item.expansion env n) := by
    induction h with
    | nil => rfl
    | cons hpart _ ih => rw [map_cons, map_cons, ih, expandFrom_reading hpart]
  unfold expandParts lineOf
  rw [hmap]

/-- The counters of so many turns that are not behind the stop. -/
def counters (start step stop calls : Nat) : List Nat :=
  ((List.range calls).map fun k => start + k * step).filter (· ≤ stop)

theorem counters_succ (start step stop calls : Nat) :
    counters start step stop (calls + 1) =
      if start ≤ stop then start :: counters (start + step) step stop calls else [] := by
  have hrange : (List.range (calls + 1)).map (fun k => start + k * step) =
      start :: (List.range calls).map fun k => start + step + k * step := by
    rw [range_succ_eq_map, map_cons, map_map, Nat.zero_mul, Nat.add_zero]
    refine congrArg (start :: ·) (map_congr_left fun k _ => ?_)
    show start + (k + 1) * step = start + step + k * step
    rw [Nat.succ_mul]
    omega
  unfold counters
  rw [hrange]
  split
  next hle => rw [filter_cons_of_pos (by simpa using hle)]
  next hgt =>
    refine filter_eq_nil_iff.mpr fun c hc => ?_
    rcases mem_cons.mp hc with rfl | hc
    · simpa using hgt
    · obtain ⟨k, -, rfl⟩ := mem_map.mp hc
      simp only [decide_eq_true_eq, not_le]
      omega

/-- **The lines of a template** are those of the counters up to the stop, as long as the counter does not come
round. -/
theorem templateLines_eq (hparts : s.d_templateparts ≠ []) (hread : List.Forall₂ Reading s.d_templateparts readings)
    {calls : Nat}
    (hround : ∀ k < calls, s.d_templatecounter.toNat + k * s.d_templatestep.toNat < 2 ^ 32) :
    templateLines env calls s =
      (counters s.d_templatecounter.toNat s.d_templatestep.toNat s.d_templatestop.toNat calls).map fun c =>
        lineOf env (UInt32.ofNat c) readings := by
  induction calls generalizing s with
  | zero => rfl
  | succ calls ih =>
    rw [counters_succ, templateLines]
    by_cases hle : s.d_templatecounter.toNat ≤ s.d_templatestop.toNat
    · have hmore : ¬(s.d_templateparts = [] ∨ s.d_templatestop < s.d_templatecounter) :=
        not_or.mpr ⟨hparts, not_lt.mpr hle⟩
      unfold getTemplateLine
      rw [if_neg hmore, if_pos hle, map_cons, UInt32.ofNat_toNat]
      refine congr_arg₂ List.cons (expandParts_reading hread) ?_
      -- without a further call, it does not matter where the counter stands
      cases calls with
      | zero => rfl
      | succ calls =>
        have hsum : (s.d_templatecounter + s.d_templatestep).toNat =
            s.d_templatecounter.toNat + s.d_templatestep.toNat := by
          have hnext := hround 1 (by omega)
          rw [Nat.one_mul] at hnext
          rw [UInt32.toNat_add, Nat.mod_eq_of_lt hnext]
        rw [← hsum]
        refine ih hparts hread fun k hk => ?_
        have hlater := hround (k + 1) (by omega)
        rw [Nat.succ_mul] at hlater
        show (s.d_templatecounter + s.d_templatestep).toNat + k * s.d_templatestep.toNat < 2 ^ 32
        omega
    · have hend : s.d_templateparts = [] ∨ s.d_templatestop < s.d_templatecounter := .inr (not_le.mp hle)
      unfold getTemplateLine
      rw [if_pos hend, if_neg hle]
      rfl

end Lines

/-- A parser with the template of `$GENERATE 1-5/2 host\$$ A ${10,3,x}`. -/
def exampleTemplate : Parser where
  d_zonename := ascii "example.com."
  d_templatecounter := 1
  d_templatestop := 5
  d_templatestep := 2
  d_templateparts := [ascii "host\\$$", ascii "A", ascii "${10,3,x}"]

/-- One type, and no other files. -/
def exampleTypes : Surroundings where
  file := fun _ => none
  namemap := [(1, ascii "A")]
  snprintf := fun _ _ => []

end PowerDNS.ZoneParserTNG
