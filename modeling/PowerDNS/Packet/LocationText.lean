import PowerDNS.Base.Serialize
import PowerDNS.Lib.Sentinel

/-!
# Locations as texts

The text constructor of `LOCRecordContent` moves a pointer through the text, up to the NUL behind it. Its own loops
look where the text ends, those of `latlon2ul` do not: behind the seconds and behind the hemisphere they go on until
there is white space. A look behind the NUL gives nothing here.

`parse_in_bounds_iff` says for which texts there is none: those with white space behind the character that is taken
for the hemisphere, in each of the two coordinates.
-/

namespace PowerDNS

open Sentinel List

/-! ### The code -/

/-- `LOCRecordContent`; what its constructor leaves as it is has no value. -/
structure LOCContent where
  d_version : UInt8
  d_size : UInt8
  d_horizpre : UInt8
  d_vertpre : UInt8
  d_latitude : Option UInt32
  d_longitude : Option UInt32
  d_altitude : Option UInt32
  deriving DecidableEq

/-- `while (isdigit(*cp)) val = val * 10 + (*cp++ - '0')`. -/
def readNumber (cp : Octets) : Option (Nat × Octets) :=
  (skipWhile isDigit cp).map fun behind => (readDigits 0 cp, behind)

/-- As many digits as there are scales, with the last of them where the pointer is then. -/
def readScaled : List Nat → Octets → Option (Nat × Octets)
  | [], cp => some (0, cp)
  | scale :: scales, cp => do
    let c ← cp.head?
    if isDigit c then
      let r ← readScaled scales cp.tail
      pure ((c.toNat - 48) * scale + r.1, r.2)
    else pure (0, cp)

/-- A point, and digits behind it. -/
def readFraction (scales : List Nat) (cp : Octets) : Option (Nat × Octets) := do
  let c ← cp.head?
  if c = 46 then readScaled scales cp.tail else pure (0, cp)

/-- `poweroften`. -/
def poweroften (n : Nat) : Nat := 10 ^ n

/-- `precsize_aton`, of `unsigned int`s. -/
def precsize_aton (cp : Octets) : Option (UInt8 × Octets) := do
  let mval ← readNumber cp
  let frac ← readFraction [10, 1] mval.2
  let cmval := (mval.1 * 100 + frac.1) % 2 ^ 32
  let exponent := ((List.range 9).find? fun exponent => cmval < poweroften (exponent + 1)).getD 9
  let mantissa := min 9 (cmval / poweroften exponent)
  pure (UInt8.ofNat (mantissa * 16 + exponent), frac.2)

/-- `latlon2ul` from `fndhemi` on: the value, `which`, and where the pointer is then. An `int` that overflows is taken
to wrap. -/
def fndhemi (deg min secs secsfrac : Nat) (cp : Octets) : Option ((UInt32 × Nat) × Octets) := do
  let c ← cp.head?
  let offset : Int := (((deg * 60 + min) * 60 + secs) * 1000 + secsfrac : Nat)
  let retval :=
    if c ∈ [78, 110, 69, 101] then UInt32.ofInt (2 ^ 31 + offset)
    else if c ∈ [83, 115, 87, 119] then UInt32.ofInt (2 ^ 31 - offset)
    else 0
  let which := if c ∈ [78, 110, 83, 115] then 1 else if c ∈ [69, 101, 87, 119] then 2 else 0
  -- any trailing garbage
  let cp ← skipWhile (fun c => !isSpace c) cp.tail
  let cp ← skipWhile isSpace cp
  pure ((retval, which), cp)

/-- A number and the white space behind it, and whether there is a digit then. -/
def readPart (cp : Octets) : Option (Nat × Bool × Octets) := do
  let val ← readNumber cp
  let cp ← skipWhile isSpace val.2
  let c ← cp.head?
  pure (val.1, isDigit c, cp)

/-- `latlon2ul` from the seconds on. -/
def readSeconds (deg min : Nat) (cp : Octets) : Option ((UInt32 × Nat) × Octets) := do
  let secs ← readNumber cp
  let secsfrac ← readFraction [100, 10, 1] secs.2
  -- any trailing garbage
  let cp ← skipWhile (fun c => !isSpace c) secsfrac.2
  let cp ← skipWhile isSpace cp
  fndhemi deg min secs.1 secsfrac.1 cp

/-- `latlon2ul`. -/
def latlon2ul (cp : Octets) : Option ((UInt32 × Nat) × Octets) := do
  let deg ← readPart cp
  if deg.2.1 = false then fndhemi deg.1 0 0 0 deg.2.2
  else
    let min ← readPart deg.2.2
    if min.2.1 = false then fndhemi deg.1 min.1 0 0 min.2.2 else readSeconds deg.1 min.1 min.2.2

/-- To the next field; `last` is how much of the memory there is from `maxcp` on. -/
def nextField (last : Nat) (cp : Octets) : Option Octets := do
  let cp ← skipBefore (fun c => !isSpace c) last cp
  skipBefore isSpace last cp

/-- The sign of the altitude: a `-` and then a `+`, if they are there. -/
def readSign (cp : Octets) : Option (Int × Octets) := do
  let c ← cp.head?
  let r : Int × Octets := if c = 45 then (-1, cp.tail) else (1, cp)
  let c ← r.2.head?
  pure (r.1, if c = 43 then r.2.tail else r.2)

/-- The constructor from the altitude on. -/
def readAltitude (last : Nat) (cp : Octets) (d : LOCContent) : Option LOCContent := do
  let altsign ← readSign cp
  let altmeters ← readNumber altsign.2
  let altfrac ← readFraction [10, 1] altmeters.2
  let d := { d with d_altitude := some (UInt32.ofInt (10000000 + altsign.1 * (altmeters.1 * 100 + altfrac.1 : Nat))) }
  let cp ← nextField last altfrac.2
  if cp.length ≤ last then pure d
  else
    let size ← precsize_aton cp
    let d := { d with d_size := size.1 }
    let cp ← nextField last size.2
    if cp.length ≤ last then pure d
    else
      let horizpre ← precsize_aton cp
      let d := { d with d_horizpre := horizpre.1 }
      let cp ← nextField last horizpre.2
      if cp.length ≤ last then pure d
      else
        let vertpre ← precsize_aton cp
        pure { d with d_vertpre := vertpre.1 }

/-- `LOCRecordContent(content)`: nothing when it looks behind the NUL. -/
def LOCContent.ofText (content : Octets) : Option LOCContent := do
  let memory := content ++ [0]
  -- `strlen` stops at the first NUL
  let last := (memory.dropWhile (· ≠ 0)).length
  let first ← latlon2ul memory
  let second ← latlon2ul first.2
  let d : LOCContent := ⟨0, 0x12, 0x16, 0x13, none, none, none⟩
  -- 1 + 2, the only valid combination
  if first.1.2 + second.1.2 = 3 then
    readAltitude last second.2 { d with d_latitude := some first.1.1, d_longitude := some second.1.1 }
  else pure d

/-! ### Where a coordinate ends -/

/-- The memory behind a number and white space. -/
def nextPart (cp : Octets) : Octets := (cp.dropWhile isDigit).dropWhile isSpace

/-- The memory from the character on that is taken for the hemisphere. -/
def hemisphereAt (cp : Octets) : Octets :=
  if (nextPart cp).head?.any isDigit = false then nextPart cp
  else if (nextPart (nextPart cp)).head?.any isDigit = false then nextPart (nextPart cp)
  else ((nextPart (nextPart cp)).dropWhile fun c => !isSpace c).dropWhile isSpace

/-- The memory behind a coordinate. -/
def behindCoordinate (cp : Octets) : Octets :=
  ((hemisphereAt cp).tail.dropWhile fun c => !isSpace c).dropWhile isSpace

/-- There is white space behind the hemisphere. -/
def CoordinateEnds (cp : Octets) : Prop := ∃ c ∈ (hemisphereAt cp).tail, isSpace c = true

/-! ### Staying in the memory -/

section Bounds

variable {cp : Octets} {last : Nat}

/-- A digit is not the sentinel, and neither is it white space. -/
theorem digit_spec {c : UInt8} (h : isDigit c = true) : c ≠ 0 ∧ isSpace c = false := by
  have hall : ∀ n < 256, isDigit (UInt8.ofNat n) = true → UInt8.ofNat n ≠ 0 ∧ isSpace (UInt8.ofNat n) = false := by
    decide +kernel
  have hc := hall c.toNat c.toNat_lt
  rw [UInt8.ofNat_toNat] at hc
  exact hc h

theorem readNumber_ends (h : Ends 0 cp) :
    Gives (readNumber cp) fun r => r.2 = cp.dropWhile isDigit ∧ Ends 0 r.2 := by
  have hzero : isDigit 0 = false := by decide
  refine ⟨(readDigits 0 cp, cp.dropWhile isDigit), ?_, rfl, h.dropWhile hzero⟩
  unfold readNumber
  rw [h.skipWhile hzero]
  rfl

/-- What is read is no white space. -/
theorem readScaled_ends (scales : List Nat) (h : Ends 0 cp) : Gives (readScaled scales cp) fun r =>
    Ends 0 r.2 ∧ r.2.dropWhile (fun c => !isSpace c) = cp.dropWhile fun c => !isSpace c := by
  induction scales generalizing cp with
  | nil => exact .pure ⟨h, rfl⟩
  | cons scale scales ih =>
    refine h.head.bind fun c hc => ?_
    split
    next hdigit =>
      obtain ⟨hne, hspace⟩ := digit_spec hdigit
      rw [hc] at h ⊢
      refine (ih (h.tail_of_ne hne)).bind fun r hr => .pure ⟨hr.1, ?_⟩
      rw [hr.2, dropWhile_cons_of_pos (by rw [hspace]; rfl)]
    next => exact .pure ⟨h, rfl⟩

theorem readFraction_ends (scales : List Nat) (h : Ends 0 cp) : Gives (readFraction scales cp) fun r =>
    Ends 0 r.2 ∧ r.2.dropWhile (fun c => !isSpace c) = cp.dropWhile fun c => !isSpace c := by
  refine h.head.bind fun c hc => ?_
  split
  next hpoint =>
    rw [hc, hpoint] at h ⊢
    obtain ⟨r, hr, hends, hbehind⟩ := readScaled_ends scales (h.tail_of_ne (by decide))
    refine ⟨r, hr, hends, ?_⟩
    rw [hbehind, dropWhile_cons_of_pos (by decide)]
  next => exact .pure ⟨h, rfl⟩

theorem precsize_aton_ends (h : Ends 0 cp) : Gives (precsize_aton cp) fun r => Ends 0 r.2 := by
  refine (readNumber_ends h).bind fun mval hmval => ?_
  exact (readFraction_ends [10, 1] hmval.2).bind fun frac hfrac => .pure hfrac.1

theorem nextField_ends (hlast : 1 ≤ last) (h : Ends 0 cp) : Gives (nextField last cp) (Ends 0) :=
  (h.skipBefore _ hlast).bind fun _ h' => h'.skipBefore _ hlast

theorem readSign_ends (h : Ends 0 cp) : Gives (readSign cp) fun r => Ends 0 r.2 := by
  refine h.head.bind fun c hc => ?_
  have hminus : Ends 0 (if c = 45 then ((-1 : Int), cp.tail) else (1, cp)).2 := by
    split
    next hminus =>
      rw [hc, hminus] at h
      exact h.tail_of_ne (by decide)
    next => exact h
  refine hminus.head.bind fun c hc' => .pure ?_
  dsimp only
  split
  next hplus =>
    rw [hc', hplus] at hminus
    exact hminus.tail_of_ne (by decide)
  next => exact hminus

/-- **What comes behind the coordinates stays in the memory.** -/
theorem readAltitude_ends (hlast : 1 ≤ last) (h : Ends 0 cp) (d : LOCContent) :
    Gives (readAltitude last cp d) fun _ => True := by
  refine (readSign_ends h).bind fun altsign hsign => ?_
  refine (readNumber_ends hsign).bind fun altmeters hmeters => ?_
  refine (readFraction_ends _ hmeters.2).bind fun altfrac hfrac => ?_
  refine (nextField_ends hlast hfrac.1).bind fun cp hcp => ?_
  split
  · exact .pure trivial
  refine (precsize_aton_ends hcp).bind fun size hsize => ?_
  refine (nextField_ends hlast hsize).bind fun cp hcp => ?_
  split
  · exact .pure trivial
  refine (precsize_aton_ends hcp).bind fun horizpre hhorizpre => ?_
  refine (nextField_ends hlast hhorizpre).bind fun cp hcp => ?_
  split
  · exact .pure trivial
  exact (precsize_aton_ends hcp).bind fun vertpre _ => .pure trivial

/-- **The hemisphere.** What is behind it stays in the memory when there is white space. -/
theorem fndhemi_spec (deg min secs secsfrac : Nat) (h : Ends 0 cp) :
    ((∃ c ∈ cp.tail, isSpace c = true) ∧ Gives (fndhemi deg min secs secsfrac cp) fun r =>
      r.2 = (cp.tail.dropWhile fun c => !isSpace c).dropWhile isSpace ∧ Ends 0 r.2) ∨
    (¬ ∃ c ∈ cp.tail, isSpace c = true) ∧ fndhemi deg min secs secsfrac cp = none := by
  have hzero : isSpace 0 = false := by decide
  unfold fndhemi
  obtain ⟨c, hhead, hc⟩ := h.head
  rw [hhead]
  cases hskip : skipWhile (fun c => !isSpace c) cp.tail with
  | none =>
    refine .inr ⟨?_, rfl⟩
    rintro ⟨x, hx, hspace⟩
    have hgarbage := skipWhile_eq_none_iff.mp hskip x hx
    rw [hspace] at hgarbage
    cases hgarbage
  | some cp' =>
    rw [skipWhile_eq] at hskip
    split at hskip
    · cases hskip
    next hne =>
    cases hskip
    have hends : Ends 0 (cp.tail.dropWhile fun c => !isSpace c) :=
      h.of_suffix ((dropWhile_suffix _).trans (tail_suffix cp)) hne
    refine .inl ⟨?_, ?_⟩
    · -- it has stopped at white space
      by_contra hnone
      exact hne (dropWhile_eq_nil_iff.mpr fun x hx => by
        rw [Bool.not_eq_true', Bool.eq_false_iff]
        exact fun hspace => hnone ⟨x, hx, hspace⟩)
    · change Gives (skipWhile isSpace _ >>= fun cp => _) _
      rw [hends.skipWhile hzero]
      exact .pure ⟨rfl, hends.dropWhile hzero⟩

theorem readPart_ends (h : Ends 0 cp) : Gives (readPart cp) fun r =>
    r.2.1 = (nextPart cp).head?.any isDigit ∧ r.2.2 = nextPart cp ∧ Ends 0 r.2.2 := by
  have hzero : isSpace 0 = false := by decide
  unfold readPart nextPart
  refine (readNumber_ends h).bind fun val ⟨hval, hends⟩ => ?_
  rw [← hval, hends.skipWhile hzero]
  obtain ⟨c, hhead, hc⟩ := (hends.dropWhile hzero).head
  change Gives ((val.2.dropWhile isSpace).head? >>= fun c => _) _
  rw [hhead]
  exact .pure ⟨rfl, rfl, hends.dropWhile hzero⟩

/-- Without white space behind the seconds there is no hemisphere. -/
theorem readSeconds_eq (deg min : Nat) (h : Ends 0 cp) :
    ((cp.dropWhile fun c => !isSpace c) = [] ∧ readSeconds deg min cp = none) ∨
      Ends 0 ((cp.dropWhile fun c => !isSpace c).dropWhile isSpace) ∧ ∃ secs secsfrac, readSeconds deg min cp =
        fndhemi deg min secs secsfrac ((cp.dropWhile fun c => !isSpace c).dropWhile isSpace) := by
  have hzero : isSpace 0 = false := by decide
  unfold readSeconds
  obtain ⟨secs, hsecs, hbehind, hends⟩ := readNumber_ends h
  obtain ⟨secsfrac, hfrac, hends, hgarbage⟩ := readFraction_ends [100, 10, 1] hends
  rw [bind_of_eq hsecs, bind_of_eq hfrac]
  -- neither digits nor the point are white space
  have hsame : secsfrac.2.dropWhile (fun c => !isSpace c) = cp.dropWhile fun c => !isSpace c := by
    rw [hgarbage, hbehind]
    exact dropWhile_dropWhile_of_imp (fun c hc => by rw [(digit_spec hc).2]; rfl) cp
  by_cases hnil : (cp.dropWhile fun c => !isSpace c) = []
  · refine .inl ⟨hnil, ?_⟩
    rw [skipWhile_eq, hsame, if_pos hnil]
    rfl
  · have hends' : Ends 0 (cp.dropWhile fun c => !isSpace c) := h.of_suffix (dropWhile_suffix _) hnil
    refine .inr ⟨hends'.dropWhile hzero, secs.1, secsfrac.1, ?_⟩
    rw [bind_of_eq (by rw [skipWhile_eq, hsame, if_neg hnil]), bind_of_eq (hends'.skipWhile hzero)]

/-- What `latlon2ul` does in front of `fndhemi`. -/
theorem latlon2ul_eq (h : Ends 0 cp) :
    (hemisphereAt cp = [] ∧ latlon2ul cp = none) ∨
      Ends 0 (hemisphereAt cp) ∧ ∃ deg min secs secsfrac,
        latlon2ul cp = fndhemi deg min secs secsfrac (hemisphereAt cp) := by
  unfold latlon2ul hemisphereAt
  obtain ⟨deg, hdeg, hdigit, hminutes, hends⟩ := readPart_ends h
  rw [bind_of_eq hdeg, ← hdigit, ← hminutes]
  by_cases hdegrees : deg.2.1 = false
  · rw [if_pos hdegrees, if_pos hdegrees]
    exact .inr ⟨hends, deg.1, 0, 0, 0, rfl⟩
  obtain ⟨min, hmin, hdigit, hseconds, hends⟩ := readPart_ends hends
  rw [if_neg hdegrees, if_neg hdegrees, bind_of_eq hmin, ← hdigit, ← hseconds]
  by_cases hminute : min.2.1 = false
  · rw [if_pos hminute, if_pos hminute]
    exact .inr ⟨hends, deg.1, min.1, 0, 0, rfl⟩
  rw [if_neg hminute, if_neg hminute]
  obtain ⟨hnil, hnone⟩ | ⟨hends, secs, secsfrac, heq⟩ := readSeconds_eq deg.1 min.1 hends
  · exact .inl ⟨by rw [hnil]; rfl, hnone⟩
  · exact .inr ⟨hends, deg.1, min.1, secs, secsfrac, heq⟩

/-- **A coordinate** stays in the memory when there is white space behind it. -/
theorem latlon2ul_spec (h : Ends 0 cp) :
    CoordinateEnds cp ∧ (Gives (latlon2ul cp) fun r => r.2 = behindCoordinate cp ∧ Ends 0 r.2) ∨
      ¬ CoordinateEnds cp ∧ latlon2ul cp = none := by
  obtain ⟨hnil, hnone⟩ | ⟨hends, deg, min, secs, secsfrac, heq⟩ := latlon2ul_eq h
  · refine .inr ⟨?_, hnone⟩
    rintro ⟨c, hc, -⟩
    rw [hnil] at hc
    cases hc
  · rw [heq]
    exact fndhemi_spec deg min secs secsfrac hends

end Bounds

/-- **The text constructor** looks at no character behind the NUL when in both coordinates there is white space behind
the hemisphere; else it does. -/
theorem parse_in_bounds_iff (content : Octets) :
    (∃ d, LOCContent.ofText content = some d) ↔
      CoordinateEnds (content ++ [0]) ∧ CoordinateEnds (behindCoordinate (content ++ [0])) := by
  have hmemory : Ends 0 (content ++ [0]) := getLast?_concat
  have hlast : 1 ≤ ((content ++ [0]).dropWhile (· ≠ 0)).length :=
    length_pos_of_ne_nil (hmemory.dropWhile (by decide)).ne_nil
  unfold LOCContent.ofText
  dsimp only
  obtain ⟨hfirst, first, hread, hbehind, hends⟩ | ⟨hfirst, hnone⟩ := latlon2ul_spec hmemory
  · rw [bind_of_eq hread, hbehind]
    rw [hbehind] at hends
    obtain ⟨hsecond, second, hread, -, hends⟩ | ⟨hsecond, hnone⟩ := latlon2ul_spec hends
    · refine iff_of_true ?_ ⟨hfirst, hsecond⟩
      rw [bind_of_eq hread]
      split
      · obtain ⟨d, hd, -⟩ := readAltitude_ends hlast hends _
        exact ⟨d, hd⟩
      · exact ⟨_, rfl⟩
    · refine iff_of_false ?_ fun h => hsecond h.2
      rintro ⟨d, hd⟩
      rw [hnone] at hd
      cases hd
  · refine iff_of_false ?_ fun h => hfirst h.1
    rintro ⟨d, hd⟩
    rw [hnone] at hd
    cases hd

/-- With an altitude, `1 N 2 E 4`. -/
example : LOCContent.ofText [49, 32, 78, 32, 50, 32, 69, 32, 52] =
    some ⟨0, 0x12, 0x16, 0x13, some 2151083648, some 2154683648, some 10000400⟩ := by decide

/-- Without one, `1 N 2 E`, and without anything. -/
theorem coordinates_only_out_of_bounds :
    LOCContent.ofText [49, 32, 78, 32, 50, 32, 69] = none ∧ LOCContent.ofText [] = none := by
  decide

end PowerDNS
