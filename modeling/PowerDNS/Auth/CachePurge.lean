import Mathlib.Data.List.Lex
import PowerDNS.Auth.PacketCache
import PowerDNS.Lib.SortedRange

/-!
# Purging the packet cache: `PacketCache::purge`

A match is a name, or a suffix with a `$` behind it. For a suffix `purge` looks up the place of the
suffix in the unique index, and erases from there on until an entry is met that is not covered. In
the order of the index, which compares names from their end, a name `x` + suffix comes between the
suffix and the names below it when the last octet of `x` comes before the dot (a `-`, say): such an
entry *blocks* the suffix.

The loop starts with the second match, and the number it returns is that of the last name and of
what follows it. `purge_iff` says when all that is covered by the matches is gone, and the number
is right.

The comparison is an order on names without NUL octets only, and the container relies on an order.
-/

namespace PowerDNS

open SortedRange List

/-! ### The order of names -/

/-- An octet as `dns_tolower` returns it: a `char`, which is signed. -/
def signed (c : UInt8) : Int := (dnsTolower c).toInt8.toInt

theorem signed_neg_iff (c : UInt8) : signed c < 0 ↔ c.toInt8 < 0 := by
  obtain ⟨b⟩ := c
  revert b
  decide

theorem signed_pos_iff (c : UInt8) : 0 < signed c ↔ 0 < c.toInt8 := by
  obtain ⟨b⟩ := c
  revert b
  decide

theorem signed_before_dot {c : UInt8} : 0 < signed c ∧ signed c < signed dot ↔ 0 < c ∧ c < dot := by
  obtain ⟨b⟩ := c
  revert b
  decide

theorem signed_dot_pos : 0 < signed dot := by decide

theorem signed_eq_zero {c : UInt8} : signed c = 0 ↔ c = 0 := by
  obtain ⟨b⟩ := c
  revert b
  decide

theorem signed_eq_iff {c d : UInt8} : signed c = signed d ↔ dnsTolower c = dnsTolower d := by
  unfold signed
  rw [Int8.toInt_inj]
  constructor
  · exact fun h => congrArg Int8.toUInt8 h
  · exact fun h => congrArg UInt8.toInt8 h

/-- A name from its end. -/
def backwards (s : Octets) : List Int := s.reverse.map signed

/-- A name in the order of the index: its end counts as 0. -/
def backwardsKey (s : Octets) : List Int := backwards s ++ [0]

theorem backwards_cons (c : UInt8) (s : Octets) : backwards (c :: s) = backwards s ++ [signed c] := by
  simp [backwards]

theorem backwards_eq_map (s : Octets) :
    backwards s = (toLower s).reverse.map fun c => c.toInt8.toInt := by
  unfold backwards toLower
  rw [← map_reverse, map_map]
  rfl

theorem toInt_toInt8_injective : Function.Injective fun c : UInt8 => c.toInt8.toInt :=
  fun _ _ h => congrArg Int8.toUInt8 (Int8.toInt_inj.mp h)

theorem backwards_eq_iff {a b : Octets} : backwards a = backwards b ↔ toLower a = toLower b := by
  rw [backwards_eq_map, backwards_eq_map,
    (map_injective_iff.mpr toInt_toInt8_injective).eq_iff, reverse_inj]

theorem backwardsKey_eq_iff {a b : Octets} :
    backwardsKey a = backwardsKey b ↔ toLower a = toLower b := by
  unfold backwardsKey
  rw [append_left_inj, backwards_eq_iff]

theorem zero_notMem_backwards {s : Octets} (h : 0 ∉ s) : 0 ∉ backwards s := by
  intro hmem
  obtain ⟨c, hc, hzero⟩ := mem_map.mp hmem
  exact h (signed_eq_zero.mp hzero ▸ mem_reverse.mp hc)

namespace PacketCache

variable {xs ys : Octets}

/-- `ys` goes on, behind the octets of `xs`, with a NUL octet. -/
def NulBehind (xs ys : Octets) : Prop := ∃ zs p, ys = zs ++ 0 :: p ∧ toLower zs = toLower xs

theorem nulBehind_cons {x y : UInt8} (hxy : dnsTolower x = dnsTolower y)
    (h : NulBehind xs ys) : NulBehind (x :: xs) (y :: ys) := by
  obtain ⟨zs, p, rfl, hlower⟩ := h
  exact ⟨y :: zs, p, rfl, by rw [toLower_cons, toLower_cons, hlower, hxy]⟩

/-- Places of octets that go with the comparison, 0 being that of the end. -/
structure Places (place : UInt8 → Int) : Prop where
  lt_iff (c d) : place c < place d ↔ signed c < signed d
  ne_zero (c) : c ≠ 0 → place c ≠ 0
  pos_iff (c) : c ≠ 0 → (0 < place c ↔ 0 < signed c)
  neg_iff (c) : place c < 0 ↔ signed c < 0

/-- **The loop**, on names of which neither goes on with a NUL octet where the other ends. -/
theorem ciBackwardsLoop_iff_places {place : UInt8 → Int} (hplace : Places place) (a : UInt8)
    (hxy : ¬NulBehind xs ys) (hyx : ¬NulBehind ys xs) :
    ciBackwardsLoop a a xs ys = true ↔ xs.map place ++ [0] < ys.map place ++ [0] := by
  induction xs generalizing a ys with
  | nil =>
    cases ys with
    | nil => simp [ciBackwardsLoop]
    | cons y ys =>
      have hy : y ≠ 0 := fun h => hxy ⟨[], ys, by rw [h]; rfl, rfl⟩
      simp only [ciBackwardsLoop, decide_eq_true_eq, ← signed_pos_iff, map_nil, nil_append,
        map_cons, cons_append, cons_lt_cons_iff, ← hplace.pos_iff y hy]
      exact ⟨.inl, fun h => h.resolve_right fun h => hplace.ne_zero y hy h.1.symm⟩
  | cons x xs ih =>
    cases ys with
    | nil =>
      have hx : x ≠ 0 := fun h => hyx ⟨[], xs, by rw [h]; rfl, rfl⟩
      simp only [ciBackwardsLoop, decide_eq_true_eq, ← signed_neg_iff, map_nil, nil_append,
        map_cons, cons_append, cons_lt_cons_iff, ← hplace.neg_iff]
      exact ⟨.inl, fun h => h.resolve_right fun h => hplace.ne_zero x hx h.1⟩
    | cons y ys =>
      have hlt := hplace.lt_iff x y
      have hgt := hplace.lt_iff y x
      simp only [ciBackwardsLoop, map_cons, cons_append, cons_lt_cons_iff]
      by_cases hsame : dnsTolower x = dnsTolower y
      · have hrest := ih (dnsTolower y) (fun h => hxy (nulBehind_cons hsame h))
          fun h => hyx (nulBehind_cons hsame.symm h)
        have heq : place x = place y := by
          have hequal := signed_eq_iff.mpr hsame
          omega
        rw [if_pos hsame, hsame, hrest, heq]
        exact ⟨fun h => .inr ⟨rfl, h⟩, fun h => (h.resolve_left (lt_irrefl _)).2⟩
      · rw [if_neg hsame, decide_eq_true_eq, Int8.lt_iff_toInt_lt, hlt]
        refine ⟨.inl, fun h => h.resolve_right fun h => hsame (signed_eq_iff.mp ?_)⟩
        omega

theorem places_signed : Places signed :=
  ⟨fun _ _ => Iff.rfl, fun _ hc h => hc (signed_eq_zero.mp h), fun _ _ => Iff.rfl, fun _ => Iff.rfl⟩

theorem not_nulBehind (h : 0 ∉ ys) : ¬NulBehind xs ys := by
  rintro ⟨zs, p, rfl, -⟩
  exact h (mem_append_right zs mem_cons_self)

/-- **The order of the index** on names without NUL octets. -/
theorem ciBackwardsLess_iff {a b : Octets} (ha : 0 ∉ a) (hb : 0 ∉ b) :
    ciBackwardsLess a b = true ↔ backwardsKey a < backwardsKey b := by
  unfold ciBackwardsLess
  rw [ciBackwardsLoop_iff_places places_signed 0 (not_nulBehind (by simpa using hb))
    (not_nulBehind (by simpa using ha))]
  rfl

/-- **The name in the key.** Neither of two names without NUL octets is before the other
exactly if they differ in letter case only. -/
theorem ciBackwards_equiv_iff {a b : Octets} (ha : 0 ∉ a) (hb : 0 ∉ b) :
    (ciBackwardsLess a b = false ∧ ciBackwardsLess b a = false) ↔ toLower a = toLower b := by
  rw [← backwardsKey_eq_iff, ← Bool.not_eq_true, ← Bool.not_eq_true, ciBackwardsLess_iff ha hb,
    ciBackwardsLess_iff hb ha, not_lt, not_lt, le_antisymm_iff, and_comm]

/-! ### The code -/

variable {V : Type}

/-- `boost::iends_with`. -/
def iendsWith (input test : Octets) : Bool :=
  decide (test.length ≤ input.length) && pdnsIequals (input.drop (input.length - test.length)) test

/-- `ends_with(*match, "$")`. -/
def isSuffixMatch (m : Octets) : Bool := m.getLast? == some 36

/-- What the loop over the entries does not stop at. -/
def belowSuffix (suffix qname : Octets) : Bool :=
  pdnsIequals qname suffix || iendsWith qname (dot :: suffix)

/-- The entries in the order of the unique index, as far as it is one of names. -/
def byName (d_map : PacketCache V) : List (CacheEntry V) :=
  d_map.items.insertionSort fun a b => !ciBackwardsLess b.qname a.qname

/-- The entries that are erased for a suffix: from `lower_bound` to the first one that stops the
loop. -/
def suffixRange (d_map : PacketCache V) (suffix : Octets) : List (CacheEntry V) :=
  ((byName d_map).dropWhile fun e => ciBackwardsLess e.qname suffix).takeWhile fun e =>
    belowSuffix suffix e.qname

/-- The entries that are erased for a name: `equal_range`. -/
def nameRange (d_map : PacketCache V) (name : Octets) : List (CacheEntry V) :=
  (byName d_map).filter fun e => !ciBackwardsLess e.qname name && !ciBackwardsLess name e.qname

/-- The entries that are erased for a match. -/
def erasedBy (d_map : PacketCache V) (m : Octets) : List (CacheEntry V) :=
  if isSuffixMatch m then suffixRange d_map m.dropLast else nameRange d_map m

/-- `d_map.erase`. -/
def erase (gone : List (CacheEntry V)) (d_map : PacketCache V) : PacketCache V :=
  d_map.filter fun e => e.key ∉ gone.map CacheEntry.key

/-- The loop over the matches. -/
def purgeLoop : List Octets → PacketCache V → Nat → PacketCache V × Nat
  | [], d_map, delcount => (d_map, delcount)
  | m :: ms, d_map, delcount =>
    let gone := erasedBy d_map m
    -- for a name the number is set, for a suffix it is added to
    purgeLoop ms (erase gone d_map) (if isSuffixMatch m then delcount + gone.length else gone.length)

/-- `purge(matches)`: what is left, and the number that is returned. -/
def purge (ms : List Octets) (d_map : PacketCache V) : PacketCache V × Nat :=
  match ms with
  | [] => (.empty, d_map.items.length)
  -- `++matches.begin()`
  | _ :: ms => purgeLoop ms d_map 0

/-! ### What a match covers -/

/-- The name is one of those the match is for. -/
def covers (m qname : Octets) : Bool :=
  if isSuffixMatch m then belowSuffix m.dropLast qname else pdnsIequals qname m

/-- The name is the one in the match. -/
def named (m qname : Octets) : Bool :=
  pdnsIequals qname (if isSuffixMatch m then m.dropLast else m)

/-- The name ends in the suffix, behind an octet that comes before the dot. -/
def blocks (m qname : Octets) : Prop :=
  isSuffixMatch m = true ∧ ∃ c, 0 < c ∧ c < dot ∧ iendsWith qname (c :: m.dropLast) = true

/-- One of the matches is for the name. -/
def coveredBy (ms : List Octets) (qname : Octets) : Bool := ms.any fun m => covers m qname

/-- No name in the cache and no match has a NUL octet. -/
structure NoNUL (ms : List Octets) (d_map : PacketCache V) : Prop where
  names : ∀ e ∈ d_map, 0 ∉ e.qname
  matches' : ∀ m ∈ ms, 0 ∉ m

/-! ### Names from their end -/

theorem iendsWith_iff {input test : Octets} :
    iendsWith input test = true ↔ backwards test <+: backwards input := by
  have hsuffix : backwards test <+: backwards input ↔ toLower test <:+ toLower input := by
    rw [backwards_eq_map, backwards_eq_map,
      prefix_map_iff_of_injective toInt_toInt8_injective, reverse_prefix]
  unfold iendsWith
  rw [hsuffix, Bool.and_eq_true, decide_eq_true_eq, pdnsIequals_iff]
  constructor
  · rintro ⟨-, heq⟩
    rw [← heq]
    exact (drop_suffix _ _).map _
  · intro h
    have hle : test.length ≤ input.length := by simpa [toLower] using h.length_le
    refine ⟨hle, ?_⟩
    rw [suffix_iff_eq_drop.mp h]
    simp [toLower, map_drop]

theorem covers_toLower (m qname : Octets) : covers m (toLower qname) = covers m qname := by
  have hlower : ∀ t, pdnsIequals (toLower qname) t = pdnsIequals qname t := fun t => by
    rw [Bool.eq_iff_iff, pdnsIequals_iff, pdnsIequals_iff, toLower_toLower]
  have hends : ∀ t, iendsWith (toLower qname) t = iendsWith qname t := fun t => by
    rw [Bool.eq_iff_iff, iendsWith_iff, iendsWith_iff,
      backwards_eq_iff.mpr (toLower_toLower qname)]
  unfold covers belowSuffix
  rw [hlower, hlower, hends]

theorem cons_le_cons_iff {a b : Int} {l l' : List Int} :
    a :: l ≤ b :: l' ↔ a < b ∨ (a = b ∧ l ≤ l') := by
  rw [← not_lt, cons_lt_cons_iff, ← not_lt]
  rcases lt_trichotomy a b with h | rfl | h
  · exact iff_of_true (fun hlt => hlt.elim h.asymm fun heq => h.ne' heq.1) (.inl h)
  · simp
  · exact iff_of_false (fun hlt => hlt (.inl h)) fun hle => hle.elim h.asymm fun heq => h.ne' heq.1

/-- The key of a name, between that of a suffix and that of a name that goes on behind it. -/
theorem between_keys {S B Z : List Int} {z : Int} (hS : 0 ∉ S) (hB : 0 ∉ B)
    (hle : S ++ [0] ≤ B ++ [0]) (hle' : B ++ [0] ≤ S ++ z :: Z) :
    B = S ∨ ∃ x B', B = S ++ x :: B' ∧ 0 < x ∧ x ≤ z := by
  induction S generalizing B with
  | nil =>
    cases B with
    | nil => exact .inl rfl
    | cons b B =>
      refine .inr ⟨b, B, rfl, ?_, ?_⟩
      · rcases cons_le_cons_iff.mp hle with hlt | ⟨heq, -⟩
        · exact hlt
        · exact absurd (heq ▸ mem_cons_self) hB
      · rcases cons_le_cons_iff.mp hle' with hlt | ⟨heq, -⟩
        · exact hlt.le
        · exact heq.le
  | cons s S ih =>
    have hS' : 0 ∉ S := fun h => hS (mem_cons_of_mem s h)
    have hs : s ≠ 0 := fun h => hS (h ▸ mem_cons_self)
    cases B with
    | nil =>
      simp only [nil_append, cons_append, cons_le_cons_iff] at hle hle'
      omega
    | cons b B =>
      have hB' : 0 ∉ B := fun h => hB (mem_cons_of_mem b h)
      simp only [cons_append, cons_le_cons_iff] at hle hle'
      obtain rfl : s = b := by omega
      rcases ih hS' hB' (hle.resolve_left (lt_irrefl s)).2 (hle'.resolve_left (lt_irrefl s)).2 with
        rfl | ⟨x, B', rfl, hx⟩
      · exact .inl rfl
      · exact .inr ⟨x, B', rfl, hx⟩

theorem append_lt_append {S A B : List Int} (h : A < B) : S ++ A < S ++ B := by
  induction S with
  | nil => exact h
  | cons s S ih => exact cons_lt_cons_iff.mpr (.inr ⟨rfl, ih⟩)

theorem belowSuffix_iff {suffix qname : Octets} : belowSuffix suffix qname = true ↔
    backwards qname = backwards suffix ∨
      ∃ Z, backwards qname = backwards suffix ++ signed dot :: Z := by
  unfold belowSuffix
  rw [Bool.or_eq_true, pdnsIequals_iff, backwards_eq_iff, iendsWith_iff, backwards_cons]
  refine or_congr_right ?_
  constructor
  · rintro ⟨Z, hZ⟩
    exact ⟨Z, by rw [← hZ, append_assoc, singleton_append]⟩
  · rintro ⟨Z, hZ⟩
    exact ⟨Z, by rw [hZ, append_assoc, singleton_append]⟩

theorem blocks_iff {m qname : Octets} (hm : isSuffixMatch m = true) : blocks m qname ↔
    ∃ x Z, backwards qname = backwards m.dropLast ++ x :: Z ∧ 0 < x ∧ x < signed dot := by
  constructor
  · rintro ⟨-, c, hpos, hdot, hends⟩
    obtain ⟨Z, hZ⟩ := iendsWith_iff.mp hends
    rw [backwards_cons, append_assoc, singleton_append] at hZ
    exact ⟨signed c, Z, hZ.symm, signed_before_dot.mpr ⟨hpos, hdot⟩⟩
  · rintro ⟨x, Z, hZ, hx⟩
    have hmem : x ∈ backwards qname := by simp [hZ]
    obtain ⟨c, -, rfl⟩ := mem_map.mp hmem
    refine ⟨hm, c, (signed_before_dot.mp hx).1, (signed_before_dot.mp hx).2,
      iendsWith_iff.mpr ⟨Z, ?_⟩⟩
    rw [hZ, backwards_cons, append_assoc, singleton_append]

/-! ### What a match erases -/

/-- The place of an entry in the index, as far as it is one of names. -/
def CacheEntry.place (e : CacheEntry V) : List Int := backwardsKey e.qname

section Erased

variable {d_map : PacketCache V} {m : Octets} {e : CacheEntry V}

theorem mem_byName : e ∈ byName d_map ↔ e ∈ d_map :=
  (perm_insertionSort _ d_map.items).mem_iff

theorem ascending_byName (hnul : ∀ e ∈ d_map, 0 ∉ e.qname) :
    Ascending CacheEntry.place (byName d_map) := by
  refine ascending_insertionSort fun a ha b hb => ?_
  rw [Bool.not_eq_true', ← Bool.not_eq_true, ciBackwardsLess_iff (hnul b hb) (hnul a ha), not_lt]
  rfl

theorem mem_suffixRange {suffix : Octets} (hnul : ∀ e ∈ d_map, 0 ∉ e.qname) (hs : 0 ∉ suffix) :
    e ∈ suffixRange d_map suffix ↔ e ∈ d_map ∧ backwardsKey suffix ≤ e.place ∧
      ∀ b ∈ d_map, backwardsKey suffix ≤ b.place → b.place ≤ e.place →
        belowSuffix suffix b.qname = true := by
  have hsorted := ascending_byName hnul
  have hless : ∀ e ∈ byName d_map,
      ciBackwardsLess e.qname suffix = true ↔ e.place < backwardsKey suffix := fun e he =>
    ciBackwardsLess_iff (hnul e (mem_byName.mp he)) hs
  have hlower : ∀ {e : CacheEntry V},
      e ∈ (byName d_map).dropWhile (fun e => ciBackwardsLess e.qname suffix) ↔
        e ∈ d_map ∧ backwardsKey suffix ≤ e.place := by
    intro e
    rw [mem_dropWhile_iff, mem_byName, ← Bool.not_eq_true]
    · refine and_congr_right fun he => ?_
      rw [hless e (mem_byName.mpr he), not_lt]
    · exact hsorted.imp_of_mem fun ha hb hle hlt =>
        (hless _ ha).mpr (hle.trans_lt ((hless _ hb).mp hlt))
  unfold suffixRange
  rw [mem_takeWhile_iff (hsorted.sublist (dropWhile_sublist _)), hlower]
  · constructor
    · rintro ⟨⟨he, hle⟩, hall⟩
      exact ⟨he, hle, fun b hb hle' hle'' => hall b (hlower.mpr ⟨hb, hle'⟩) hle''⟩
    · rintro ⟨he, hle, hall⟩
      exact ⟨⟨he, hle⟩, fun b hb hle'' => hall b (hlower.mp hb).1 (hlower.mp hb).2 hle''⟩
  · intro a _ b _ hab
    have hback : backwards a.qname = backwards b.qname :=
      backwards_eq_iff.mpr (backwardsKey_eq_iff.mp hab)
    rw [Bool.eq_iff_iff, belowSuffix_iff, belowSuffix_iff, hback]

/-- **What is erased for a match**: what it covers, unless there is an entry that blocks the
suffix; and the name itself in any case. -/
theorem mem_erasedBy (hnul : ∀ e ∈ d_map, 0 ∉ e.qname) (hm : 0 ∉ m) :
    e ∈ erasedBy d_map m ↔ e ∈ d_map ∧ covers m e.qname = true ∧
      (named m e.qname = true ∨ ∀ b ∈ d_map, ¬blocks m b.qname) := by
  unfold erasedBy covers named
  by_cases hsuffix : isSuffixMatch m = true
  · have hs : 0 ∉ m.dropLast := fun h => hm (mem_of_mem_dropLast h)
    have hS : 0 ∉ backwards m.dropLast := zero_notMem_backwards hs
    rw [if_pos hsuffix, if_pos hsuffix, if_pos hsuffix, mem_suffixRange hnul hs, pdnsIequals_iff,
      ← backwards_eq_iff]
    refine and_congr_right fun he => ?_
    constructor
    · rintro ⟨hle, hall⟩
      have hbelow := hall e he hle le_rfl
      refine ⟨hbelow, or_iff_not_imp_left.mpr fun hne b hb hblocks => ?_⟩
      obtain ⟨Z, hZ⟩ := (belowSuffix_iff.mp hbelow).resolve_left hne
      obtain ⟨x, Z', hZ', hpos, hdot⟩ := (blocks_iff hsuffix).mp hblocks
      -- the entry that blocks stands between the suffix and the names below it
      have hnot : ¬belowSuffix m.dropLast b.qname = true := by
        rw [belowSuffix_iff, hZ']
        rintro (h | ⟨Z'', h⟩)
        · simp at h
        · rw [append_cancel_left_eq, List.cons.injEq] at h
          omega
      refine hnot (hall b hb (le_of_lt ?_) (le_of_lt ?_))
      · unfold CacheEntry.place backwardsKey
        rw [hZ', append_assoc]
        exact append_lt_append (cons_lt_cons_iff.mpr (.inl hpos))
      · unfold CacheEntry.place backwardsKey
        rw [hZ', hZ, append_assoc, append_assoc]
        exact append_lt_append (cons_lt_cons_iff.mpr (.inl hdot))
    · rintro ⟨hbelow, hfree⟩
      have hle : backwardsKey m.dropLast ≤ e.place := by
        unfold CacheEntry.place backwardsKey
        rcases belowSuffix_iff.mp hbelow with heq | ⟨Z, hZ⟩
        · rw [heq]
        · rw [hZ, append_assoc]
          exact (append_lt_append (cons_lt_cons_iff.mpr (.inl signed_dot_pos))).le
      refine ⟨hle, fun b hb hleb hble => ?_⟩
      have hB : 0 ∉ backwards b.qname := zero_notMem_backwards (hnul b hb)
      rcases belowSuffix_iff.mp hbelow with heq | ⟨Z, hZ⟩
      · have hplace : e.place = backwardsKey m.dropLast := by
          unfold CacheEntry.place backwardsKey
          rw [heq]
        rw [hplace] at hble
        exact belowSuffix_iff.mpr (.inl (backwards_eq_iff.mpr (backwardsKey_eq_iff.mp
          (le_antisymm hble hleb))))
      · have hne : backwards e.qname ≠ backwards m.dropLast := by simp [hZ]
        have hZe : e.place = backwards m.dropLast ++ signed dot :: (Z ++ [0]) := by
          unfold CacheEntry.place backwardsKey
          rw [hZ, append_assoc, cons_append]
        rw [hZe] at hble
        rcases between_keys hS hB hleb hble with heq | ⟨x, B', hx, hpos, hle'⟩
        · exact belowSuffix_iff.mpr (.inl heq)
        · rcases hle'.lt_or_eq with hlt | rfl
          · exact absurd ((blocks_iff hsuffix).mpr ⟨x, B', hx, hpos, hlt⟩)
              (hfree.resolve_left hne b hb)
          · exact belowSuffix_iff.mpr (.inr ⟨B', hx⟩)
  · have hfree : ∀ b ∈ d_map, ¬blocks m b.qname := fun b _ h => hsuffix h.1
    rw [if_neg hsuffix, if_neg hsuffix, if_neg hsuffix, pdnsIequals_iff]
    unfold nameRange
    rw [mem_filter, mem_byName]
    refine and_congr_right fun he => ?_
    rw [Bool.and_eq_true, Bool.not_eq_true', Bool.not_eq_true', ciBackwards_equiv_iff (hnul e he) hm]
    exact ⟨fun h => ⟨h, .inl h⟩, And.left⟩

theorem mem_of_mem_erasedBy (h : e ∈ erasedBy d_map m) : e ∈ d_map := by
  unfold erasedBy suffixRange nameRange at h
  split at h
  · exact mem_byName.mp ((dropWhile_sublist _).mem ((takeWhile_sublist _).mem h))
  · exact mem_byName.mp (mem_filter.mp h).1

theorem nodup_erasedBy : (erasedBy d_map m).Nodup := by
  have hnodup : (byName d_map).Nodup :=
    (perm_insertionSort _ d_map.items).nodup_iff.mpr d_map.nodup.of_map
  unfold erasedBy suffixRange nameRange
  split
  · exact hnodup.sublist ((takeWhile_sublist _).trans (dropWhile_sublist _))
  · exact hnodup.sublist filter_sublist

/-- One turn of the loop. -/
def sweep (d_map : PacketCache V) (m : Octets) : PacketCache V := erase (erasedBy d_map m) d_map

theorem key_mem_erasedBy (he : e ∈ d_map) :
    e.key ∈ (erasedBy d_map m).map CacheEntry.key ↔ e ∈ erasedBy d_map m := by
  constructor
  · intro h
    obtain ⟨e', he', hkey⟩ := mem_map.mp h
    rwa [← SequencedIndex.eq_of_key_eq (mem_of_mem_erasedBy he') he hkey]
  · exact mem_map_of_mem

theorem mem_sweep : e ∈ sweep d_map m ↔ e ∈ d_map ∧ e ∉ erasedBy d_map m := by
  unfold sweep erase
  rw [SequencedIndex.mem_filter, decide_eq_true_eq]
  exact and_congr_right fun he => not_congr (key_mem_erasedBy he)

/-- What is erased and what is left make up what was there. -/
theorem length_sweep :
    (erasedBy d_map m).length + (sweep d_map m).items.length = d_map.items.length := by
  have hperm : (erasedBy d_map m).Perm
      (d_map.items.filter fun e => decide (e.key ∈ (erasedBy d_map m).map CacheEntry.key)) := by
    refine (perm_ext_iff_of_nodup nodup_erasedBy (d_map.nodup.of_map.filter _)).mpr fun e => ?_
    rw [mem_filter, decide_eq_true_eq]
    constructor
    · intro h
      exact ⟨mem_of_mem_erasedBy h, mem_map_of_mem h⟩
    · rintro ⟨he, hkey⟩
      exact (key_mem_erasedBy he).mp hkey
  rw [hperm.length_eq, length_eq_length_filter_add (l := d_map.items) fun e =>
    decide (e.key ∈ (erasedBy d_map m).map CacheEntry.key)]
  unfold sweep erase SequencedIndex.filter
  simp only [decide_not]

end Erased

/-! ### The matches one after the other -/

/-- The matches are gone through. -/
def sweeps (d_map : PacketCache V) (ms : List Octets) : PacketCache V := ms.foldl sweep d_map

theorem purgeLoop_fst (ms : List Octets) (d_map : PacketCache V) (delcount : Nat) :
    (purgeLoop ms d_map delcount).1 = sweeps d_map ms := by
  induction ms generalizing d_map delcount with
  | nil => rfl
  | cons m ms ih => exact ih _ _

section Sweeps

variable {ms rest : List Octets} {d_map : PacketCache V} {e : CacheEntry V} {k k' : Nat}

theorem mem_of_mem_sweeps (h : e ∈ sweeps d_map ms) : e ∈ d_map := by
  induction ms generalizing d_map with
  | nil => exact h
  | cons m ms ih => exact (mem_sweep.mp (ih h)).1

theorem sweeps_append (d_map : PacketCache V) (ms ms' : List Octets) :
    sweeps d_map (ms ++ ms') = sweeps (sweeps d_map ms) ms' := foldl_append

/-- What is there after more turns was there after fewer. -/
theorem mem_sweeps_take_of_le (hle : k ≤ k') (h : e ∈ sweeps d_map (rest.take k')) :
    e ∈ sweeps d_map (rest.take k) := by
  obtain ⟨post, hpost⟩ := take_prefix_take_left hle (l := rest)
  rw [← hpost, sweeps_append] at h
  exact mem_of_mem_sweeps h

theorem mem_sweeps_succ {m : Octets} (hm : rest[k]? = some m) :
    e ∈ sweeps d_map (rest.take (k + 1)) ↔
      e ∈ sweeps d_map (rest.take k) ∧ e ∉ erasedBy (sweeps d_map (rest.take k)) m := by
  rw [take_add_one, hm, Option.toList_some, sweeps_append]
  exact mem_sweep

/-- What no match is for stays. -/
theorem mem_sweeps_of_not_covered (hnul : NoNUL ms d_map) (he : e ∈ d_map)
    (hcov : coveredBy ms e.qname = false) : e ∈ sweeps d_map ms := by
  induction ms generalizing d_map with
  | nil => exact he
  | cons m ms ih =>
    unfold coveredBy at hcov
    rw [any_cons, Bool.or_eq_false_iff] at hcov
    have hnul' : NoNUL ms (sweep d_map m) :=
      ⟨fun e he => hnul.names e (mem_sweep.mp he).1,
        fun m' hm' => hnul.matches' m' (mem_cons_of_mem m hm')⟩
    refine ih hnul' (mem_sweep.mpr ⟨he, fun herased => ?_⟩) hcov.2
    have hm : covers m e.qname = true :=
      ((mem_erasedBy hnul.names (hnul.matches' m mem_cons_self)).mp herased).2.1
    rw [hcov.1] at hm
    cases hm

/-! ### When everything that is covered goes -/

/-- A match that erases nothing from this cache. -/
def Idle (m : Octets) (d_map : PacketCache V) : Prop :=
  ∀ e ∈ d_map, covers m e.qname = true → named m e.qname = false ∧ ∃ b ∈ d_map, blocks m b.qname

theorem idle_iff {m : Octets} (hnul : ∀ e ∈ d_map, 0 ∉ e.qname) (hm : 0 ∉ m) :
    Idle m d_map ↔ erasedBy d_map m = [] := by
  rw [eq_nil_iff_forall_not_mem]
  constructor
  · intro hidle e he
    obtain ⟨hmem, hcov, hfree⟩ := (mem_erasedBy hnul hm).mp he
    obtain ⟨hname, b, hb, hblocks⟩ := hidle e hmem hcov
    rcases hfree with hnamed | hfree
    · rw [hname] at hnamed
      cases hnamed
    · exact hfree b hb hblocks
  · intro hnone e he hcov
    have hnot := fun h => hnone e ((mem_erasedBy hnul hm).mpr ⟨he, hcov, h⟩)
    obtain ⟨hname, hfree⟩ := not_or.mp hnot
    exact ⟨by simpa using hname, by simpa using hfree⟩

/-- **Reached**: every entry that the matches are for has a turn, at which it goes by its name, or
everything that blocks the suffix has had its turn. The first match has none. -/
def Reached (ms : List Octets) (d_map : PacketCache V) : Prop :=
  ∃ turn : CacheEntry V → Nat, ∀ e ∈ d_map, coveredBy ms e.qname = true →
    ∃ m, ms.tail[turn e]? = some m ∧ covers m e.qname = true ∧
      (named m e.qname = true ∨
        ∀ b ∈ d_map, blocks m b.qname → coveredBy ms b.qname = true ∧ turn b < turn e)

/-- **Counted**: nothing is erased before the turn of a name. -/
def Counted (rest : List Octets) (d_map : PacketCache V) : Prop :=
  ∀ pre m post, rest = pre ++ m :: post → isSuffixMatch m = false → ∀ m' ∈ pre, Idle m' d_map

theorem not_mem_sweeps_of_turn {turn : CacheEntry V → Nat} (hnul : NoNUL rest d_map)
    (hturn : ∀ e ∈ d_map, coveredBy ms e.qname = true →
      ∃ m, rest[turn e]? = some m ∧ covers m e.qname = true ∧
        (named m e.qname = true ∨
          ∀ b ∈ d_map, blocks m b.qname → coveredBy ms b.qname = true ∧ turn b < turn e))
    {n : Nat} : ∀ e ∈ d_map, coveredBy ms e.qname = true → turn e = n →
      e ∉ sweeps d_map (rest.take (n + 1)) := by
  induction n using Nat.strong_induction_on with
  | h n ih =>
    rintro e he hcov rfl hleft
    obtain ⟨m, hm, hmcov, hfree⟩ := hturn e he hcov
    obtain ⟨hbefore, hkept⟩ := (mem_sweeps_succ hm).mp hleft
    refine hkept ((mem_erasedBy (fun e he => hnul.names e (mem_of_mem_sweeps he))
      (hnul.matches' m (mem_of_getElem? hm))).mpr ⟨hbefore, hmcov, hfree.imp_right ?_⟩)
    intro hall b hb hblocks
    obtain ⟨hbcov, hlt⟩ := hall b (mem_of_mem_sweeps hb) hblocks
    exact ih (turn b) hlt b (mem_of_mem_sweeps hb) hbcov rfl (mem_sweeps_take_of_le hlt hb)

/-- An entry that goes does so at some turn. -/
theorem exists_turn (he : e ∈ d_map) (hgone : e ∉ sweeps d_map rest) :
    ∃ k, e ∈ sweeps d_map (rest.take k) ∧ e ∉ sweeps d_map (rest.take (k + 1)) := by
  by_contra hnone
  push Not at hnone
  have hall : ∀ k, e ∈ sweeps d_map (rest.take k) := by
    intro k
    induction k with
    | zero => exact he
    | succ k ih => exact hnone k ih
  have hend := hall rest.length
  rw [take_length] at hend
  exact hgone hend

/-- **What is left** after the loop. -/
theorem left_iff_reached (hnul : NoNUL ms d_map) :
    (∀ e, e ∈ sweeps d_map ms.tail ↔ e ∈ d_map ∧ coveredBy ms e.qname = false) ↔
      Reached ms d_map := by
  have hnul' : NoNUL ms.tail d_map :=
    ⟨hnul.names, fun m hm => hnul.matches' m (mem_of_mem_tail hm)⟩
  constructor
  · intro hleft
    have hgone : ∀ e ∈ d_map, coveredBy ms e.qname = true → e ∉ sweeps d_map ms.tail := by
      intro e he hcov h
      have hnot := ((hleft e).mp h).2
      rw [hcov] at hnot
      cases hnot
    have hex : ∀ e, ∃ k, e ∈ d_map → coveredBy ms e.qname = true →
        e ∈ sweeps d_map (ms.tail.take k) ∧ e ∉ sweeps d_map (ms.tail.take (k + 1)) := by
      intro e
      by_cases h : e ∈ d_map ∧ coveredBy ms e.qname = true
      · obtain ⟨k, hk⟩ := exists_turn h.1 (hgone e h.1 h.2)
        exact ⟨k, fun _ _ => hk⟩
      · exact ⟨0, fun he hcov => absurd ⟨he, hcov⟩ h⟩
    choose turn hturn using hex
    refine ⟨turn, fun e he hcov => ?_⟩
    obtain ⟨hbefore, hafter⟩ := hturn e he hcov
    -- a turn at which something goes is that of a match
    cases hm : ms.tail[turn e]? with
    | none =>
      rw [take_add_one, hm, Option.toList_none, append_nil] at hafter
      exact absurd hbefore hafter
    | some m =>
      have herased : e ∈ erasedBy (sweeps d_map (ms.tail.take (turn e))) m := by
        by_contra hkept
        exact hafter ((mem_sweeps_succ hm).mpr ⟨hbefore, hkept⟩)
      obtain ⟨-, hmcov, hfree⟩ := (mem_erasedBy (fun e he => hnul.names e (mem_of_mem_sweeps he))
        (hnul'.matches' m (mem_of_getElem? hm))).mp herased
      refine ⟨m, rfl, hmcov, hfree.imp_right fun hall b hb hblocks => ?_⟩
      have hbgone : b ∉ sweeps d_map (ms.tail.take (turn e)) := fun h => hall b h hblocks
      have hbcov : coveredBy ms b.qname = true := by
        by_contra hnot
        rw [Bool.not_eq_true] at hnot
        refine hbgone (mem_sweeps_take_of_le (Nat.le_max_left _ ms.tail.length) ?_)
        rw [take_of_length_le (Nat.le_max_right _ _)]
        exact (hleft b).mpr ⟨hb, hnot⟩
      refine ⟨hbcov, ?_⟩
      by_contra hge
      exact hbgone (mem_sweeps_take_of_le (Nat.le_of_not_lt hge) (hturn b hb hbcov).1)
  · rintro ⟨turn, hturn⟩ e
    constructor
    · intro h
      refine ⟨mem_of_mem_sweeps h, ?_⟩
      by_contra hcov
      rw [Bool.not_eq_false] at hcov
      refine not_mem_sweeps_of_turn hnul' hturn e (mem_of_mem_sweeps h) hcov rfl
        (mem_sweeps_take_of_le (Nat.le_max_left _ ms.tail.length) ?_)
      rwa [take_of_length_le (Nat.le_max_right _ _)]
    · rintro ⟨he, hcov⟩
      refine mem_sweeps_of_not_covered hnul' he ?_
      unfold coveredBy at hcov ⊢
      rw [any_eq_false] at hcov ⊢
      exact fun m hm => hcov m (mem_of_mem_tail hm)

/-! ### When the number is right -/

theorem sweep_eq_self {m : Octets} (h : erasedBy d_map m = []) : sweep d_map m = d_map := by
  have hitems : (sweep d_map m).items = d_map.items := by
    unfold sweep erase SequencedIndex.filter
    simp [h]
  cases d_map
  unfold sweep erase SequencedIndex.filter at hitems ⊢
  simpa using hitems

/-- `Counted`, when `delcount` is `n` already. -/
def CountedFrom (n : Nat) (rest : List Octets) (d_map : PacketCache V) : Prop :=
  ∀ pre m post, rest = pre ++ m :: post → isSuffixMatch m = false →
    n = 0 ∧ ∀ m' ∈ pre, Idle m' d_map

theorem countedFrom_cons {n : Nat} {m : Octets} : CountedFrom n (m :: ms) d_map ↔
    (isSuffixMatch m = false → n = 0) ∧
      ∀ pre m' post, ms = pre ++ m' :: post → isSuffixMatch m' = false →
        n = 0 ∧ Idle m d_map ∧ ∀ m'' ∈ pre, Idle m'' d_map := by
  constructor
  · intro h
    refine ⟨fun hm => (h [] m ms rfl hm).1, fun pre m' post hsplit hm' => ?_⟩
    obtain ⟨hn, hidle⟩ := h (m :: pre) m' post (by rw [hsplit, cons_append]) hm'
    exact ⟨hn, hidle m mem_cons_self, fun m'' h => hidle m'' (mem_cons_of_mem m h)⟩
  · rintro ⟨hfirst, hlater⟩ pre m' post hsplit hm'
    cases pre with
    | nil =>
      obtain ⟨rfl, -⟩ := List.cons.inj hsplit
      exact ⟨hfirst hm', fun _ h => absurd h not_mem_nil⟩
    | cons p pre =>
      obtain ⟨rfl, hsplit'⟩ := List.cons.inj hsplit
      obtain ⟨hn, hidle, hall⟩ := hlater pre m' post hsplit' hm'
      exact ⟨hn, forall_mem_cons.mpr ⟨hidle, hall⟩⟩

/-- After a turn that erased `n'` entries, everything erased so far is nothing when that turn was
idle and nothing was erased before. -/
theorem countedFrom_sweep {n : Nat} {m : Octets} (hnul : NoNUL (m :: ms) d_map) :
    CountedFrom (n + (erasedBy d_map m).length) ms (sweep d_map m) ↔
      ∀ pre m' post, ms = pre ++ m' :: post → isSuffixMatch m' = false →
        n = 0 ∧ Idle m d_map ∧ ∀ m'' ∈ pre, Idle m'' d_map := by
  have hidle := idle_iff hnul.names (hnul.matches' m mem_cons_self)
  refine forall_congr' fun pre => forall_congr' fun m' => forall_congr' fun post =>
    imp_congr_right fun _ => imp_congr_right fun _ => ?_
  rw [Nat.add_eq_zero_iff, length_eq_zero_iff, and_assoc, hidle]
  refine and_congr_right fun _ => and_congr_right fun hnone => ?_
  rw [sweep_eq_self hnone]

theorem NoNUL.sweep {m : Octets} (hnul : NoNUL (m :: ms) d_map) :
    NoNUL ms (PacketCache.sweep d_map m) :=
  ⟨fun e he => hnul.names e (mem_sweep.mp he).1,
    fun m' hm' => hnul.matches' m' (mem_cons_of_mem m hm')⟩

/-- **The number** that the loop returns is at most that of the entries that are gone (and those
counted before), and it is that number exactly when nothing is erased before the turn of a name. -/
theorem number_spec (hnul : NoNUL ms d_map) (n : Nat) :
    (purgeLoop ms d_map n).2 + (sweeps d_map ms).items.length ≤ n + d_map.items.length ∧
      ((purgeLoop ms d_map n).2 + (sweeps d_map ms).items.length = n + d_map.items.length ↔
        CountedFrom n ms d_map) := by
  induction ms generalizing d_map n with
  | nil =>
    refine ⟨le_rfl, iff_of_true rfl ?_⟩
    intro pre m post hsplit
    simp at hsplit
  | cons m ms ih =>
    have hlength : (erasedBy d_map m).length + (sweep d_map m).items.length = d_map.items.length :=
      length_sweep
    have hcount := countedFrom_sweep (n := n) hnul
    rw [countedFrom_cons]
    cases hm : isSuffixMatch m with
    | true =>
      have hstep : purgeLoop (m :: ms) d_map n =
          purgeLoop ms (sweep d_map m) (n + (erasedBy d_map m).length) := by
        simp [purgeLoop, hm, sweep]
      obtain ⟨hle, heq⟩ := ih hnul.sweep (n + (erasedBy d_map m).length)
      rw [hcount] at heq
      rw [hstep]
      refine ⟨?_, Iff.trans ?_ (heq.trans ?_)⟩
      · show _ + (sweeps (sweep d_map m) ms).items.length ≤ _
        omega
      · show _ + (sweeps (sweep d_map m) ms).items.length = _ ↔ _
        omega
      · exact ⟨fun h => ⟨fun hfalse => Bool.noConfusion hfalse, h⟩, And.right⟩
    | false =>
      have hstep : purgeLoop (m :: ms) d_map n =
          purgeLoop ms (sweep d_map m) (0 + (erasedBy d_map m).length) := by
        simp [purgeLoop, hm, sweep]
      obtain ⟨hle, heq⟩ := ih hnul.sweep (0 + (erasedBy d_map m).length)
      rw [hstep]
      -- what was counted before is lost
      have hlost : (purgeLoop ms (sweep d_map m) (0 + (erasedBy d_map m).length)).2 +
          (sweeps d_map (m :: ms)).items.length = n + d_map.items.length ↔
            n = 0 ∧ CountedFrom (0 + (erasedBy d_map m).length) ms (sweep d_map m) := by
        rw [← heq]
        show _ + (sweeps (sweep d_map m) ms).items.length = _ ↔ _
        omega
      refine ⟨?_, hlost.trans ?_⟩
      · show _ + (sweeps (sweep d_map m) ms).items.length ≤ _
        omega
      · constructor
        · rintro ⟨rfl, h⟩
          exact ⟨fun _ => rfl, hcount.mp h⟩
        · rintro ⟨hn, h⟩
          obtain rfl := hn rfl
          exact ⟨rfl, hcount.mpr h⟩

end Sweeps

/-! ### A purge -/

/-- What `purge` is for: what the matches are for is gone, the rest stays, and the number is that
of the entries that are gone. -/
structure Purged (ms : List Octets) (d_map : PacketCache V) (r : PacketCache V × Nat) : Prop where
  left : ∀ e, e ∈ r.1 ↔ e ∈ d_map ∧ coveredBy ms e.qname = false
  number : r.2 + r.1.items.length = d_map.items.length

theorem purge_eq {ms : List Octets} (hms : ms ≠ []) (d_map : PacketCache V) :
    purge ms d_map = purgeLoop ms.tail d_map 0 := by
  cases ms with
  | nil => exact absurd rfl hms
  | cons m ms => rfl

theorem mem_purge_iff {ms : List Octets} {d_map : PacketCache V} (hms : ms ≠ [])
    (hnul : NoNUL ms d_map) :
    (∀ e, e ∈ (purge ms d_map).1 ↔ e ∈ d_map ∧ coveredBy ms e.qname = false) ↔
      Reached ms d_map := by
  rw [purge_eq hms, purgeLoop_fst]
  exact left_iff_reached hnul

/-- A cached answer of the backends for an address. -/
def exampleEntry (name : String) : CacheEntry Octets where
  qname := ascii name
  qtype := 1
  ctype := .QUERYCACHE
  ttd := 1000
  value := ascii "192.0.2.1"

/-- Two names of the zone `example.com`, and one of another zone. -/
def exampleCache : PacketCache Octets where
  items := [exampleEntry "example.com", exampleEntry "www.example.com", exampleEntry "example.net"]
  nodup := by decide

end PacketCache

end PowerDNS
