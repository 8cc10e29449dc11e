import PowerDNS.Base.Serialize
import PowerDNS.Packet.CharacterStrings

/-!
# IPv4 addresses in texts: `RecordTextReader::xfrIP`, `RecordTextWriter::xfrIP`

The reader goes through the field once, and counts the dots. At the fourth it stops; how many there are when it
comes to the end of the field, and whether there are digits between them, it does not look at. So it takes what it
should take (`reads_address`), and other things as well: `xfrIP_exact_iff` says which.

What the writer writes, the reader reads.
-/

namespace PowerDNS

open List UInt32

/-! ### The code -/

/-- `ntohl`, on a machine that has the least significant octet first in memory. -/
def ntohl (v : UInt32) : UInt32 :=
  UInt32.ofNat (v.toNat % 2 ^ 8 * 2 ^ 24 + v.toNat / 2 ^ 8 % 2 ^ 8 * 2 ^ 16 + v.toNat / 2 ^ 16 % 2 ^ 8 * 2 ^ 8 +
    v.toNat / 2 ^ 24)

/-- The octets of a number in the memory of such a machine. -/
def inMemory (v : UInt32) : Octets := [v.toUInt8, (v >>> 8).toUInt8, (v >>> 16).toUInt8, (v >>> 24).toUInt8]

/-- The exceptions of `xfrIP`. -/
inductive IPError
  /-- "missing field at the end of record content". -/
  | missingField
  /-- "while parsing IP address, expected digits at position". -/
  | expectedDigits
  /-- "unable to parse IP address". -/
  | octet
  /-- "unable to parse IP address, strange character: ". -/
  | strangeCharacter
  deriving DecidableEq

namespace RecordTextReader

/-- The loop of `xfrIP`: `val`, `octet` and `count` behind it, and what is left of the text. -/
def ipLoop : Octets → UInt32 → Nat → Nat → Except IPError (UInt32 × Nat × Nat × Octets)
  | [], val, octet, count => .ok (val, octet, count, [])
  | c :: rest, val, octet, count =>
    if c = dot then
      if 3 < count + 1 then .ok ((val <<< 8) + UInt32.ofNat octet, 0, count + 1, c :: rest)
      else ipLoop rest ((val <<< 8) + UInt32.ofNat octet) 0 (count + 1)
    else if isDigit c then
      if 255 < octet * 10 + (c.toNat - 48) then .error .octet
      else ipLoop rest val (octet * 10 + (c.toNat - 48)) count
    else if dnsIsspace c then .ok (val, octet, count, c :: rest)
    else .error .strangeCharacter

/-- What `xfrIP` does behind its loop. -/
def ipValue : UInt32 × Nat × Nat × Octets → UInt32 × Octets
  | (val, octet, count, rest) => (ntohl (if count ≤ 3 then (val <<< 8) + UInt32.ofNat octet else val), rest)

/-- `xfrIP(val)`, with what is left of the text. -/
def xfrIP (d_string : Octets) : Except IPError (UInt32 × Octets) :=
  match skipSpaces d_string with
  | .error _ => .error .missingField
  | .ok rest =>
    if rest.head?.any isDigit then (ipLoop rest 0 0 0).map ipValue else .error .expectedDigits

end RecordTextReader

namespace RecordTextWriter

/-- An octet in decimal. -/
def ipOctet (n : UInt8) : Octets :=
  if n < 10 then [n + 48]
  else if n < 100 then [n / 10 + 48, n % 10 + 48]
  else [n / 100 + 48, n % 100 / 10 + 48, n % 100 % 10 + 48]

/-- `xfrIP(val)`. -/
def xfrIP (d_string : Octets) (val : UInt32) : Octets :=
  (if d_string = [] then [] else d_string ++ [32]) ++ [dot].intercalate ((inMemory val).map ipOctet)

end RecordTextWriter

/-! ### Addresses -/

/-- The end of a field. -/
def Ended (behind : Octets) : Prop := ∀ c ∈ behind.head?, dnsIsspace c = true

/-- A decimal octet. -/
structure IsOctet (group : Octets) (n : UInt8) : Prop where
  nonempty : group ≠ []
  digits : ∀ c ∈ group, isDigit c = true
  value : readDigits 0 group = n.toNat

/-- Groups with dots between them. -/
def groupsText (g : Octets) (gs : List Octets) : Octets := g ++ gs.flatMap fun g => dot :: g

/-- **Four decimal octets**, separated by single dots. -/
def IsAddress (field : Octets) (octets : List UInt8) : Prop :=
  ∃ a b c d w x y z, field = groupsText a [b, c, d] ∧ octets = [w, x, y, z] ∧
    IsOctet a w ∧ IsOctet b x ∧ IsOctet c y ∧ IsOctet d z

/-- `xfrIP` takes what it should take: an address that ends at white space or at the end of the text, with the
octets in this order in memory, and nothing else; and it leaves what is behind the field. -/
def ReadsAddress (text : Octets) : Prop :=
  ∀ val behind, RecordTextReader.xfrIP text = .ok (val, behind) ↔
    ∃ field, text.dropWhile dnsIsspace = field ++ behind ∧ IsAddress field (inMemory val) ∧ Ended behind

/-- What the checks of `xfrIP` let pass: at most four groups of digits, the first with a digit, none above 255, up to
white space, the end of the text, or a fourth dot. -/
structure Passes (text g : Octets) (gs : List Octets) (behind : Octets) : Prop where
  text : text.dropWhile dnsIsspace = groupsText g gs ++ behind
  first : g ≠ []
  groups : ∀ g' ∈ g :: gs, (∀ c ∈ g', isDigit c = true) ∧ readDigits 0 g' ≤ 255
  behind : gs.length ≤ 3 ∧ Ended behind ∨ gs.length = 3 ∧ behind.head? = some dot

/-! ### Numbers in memory -/

section Memory

variable {w x y z : UInt8}

theorem toNat_octets (v : UInt32) :
    (inMemory v).map UInt8.toNat = [v.toNat % 256, v.toNat / 2 ^ 8 % 256, v.toNat / 2 ^ 16 % 256, v.toNat / 2 ^ 24] := by
  have hlt := v.toNat_lt
  have hshift (n : UInt32) (hn : n.toNat < 32) : (v >>> n).toUInt8.toNat = v.toNat / 2 ^ n.toNat % 256 := by
    rw [UInt32.toNat_toUInt8, UInt32.toNat_shiftRight, Nat.mod_eq_of_lt hn, Nat.shiftRight_eq_div_pow]
  change [v.toUInt8.toNat, (v >>> 8).toUInt8.toNat, (v >>> 16).toUInt8.toNat, (v >>> 24).toUInt8.toNat] = _
  rw [hshift 8 (by decide), hshift 16 (by decide), hshift 24 (by decide), toNat_toUInt8]
  change [v.toNat % 256, v.toNat / 2 ^ 8 % 256, v.toNat / 2 ^ 16 % 256, v.toNat / 2 ^ 24 % 256] = _
  rw [Nat.mod_eq_of_lt (a := v.toNat / 2 ^ 24) (by omega)]

theorem inMemory_inj {v v' : UInt32} (h : inMemory v = inMemory v') : v = v' := by
  have hmap := congrArg (List.map UInt8.toNat) h
  rw [toNat_octets, toNat_octets] at hmap
  simp only [List.cons.injEq, and_true] at hmap
  apply UInt32.toNat_inj.mp
  omega

/-- The digits of a number to the base of 256. -/
theorem digits_256 {a b c d : Nat} (hb : b < 256) (hc : c < 256) (hd : d < 256) :
    (((a * 256 + b) * 256 + c) * 256 + d) % 2 ^ 8 = d ∧ (((a * 256 + b) * 256 + c) * 256 + d) / 2 ^ 8 % 2 ^ 8 = c ∧
      (((a * 256 + b) * 256 + c) * 256 + d) / 2 ^ 16 % 2 ^ 8 = b ∧
        (((a * 256 + b) * 256 + c) * 256 + d) / 2 ^ 24 = a := by
  have hnext : (((a * 256 + b) * 256 + c) * 256 + d) / 2 ^ 8 = (a * 256 + b) * 256 + c := by omega
  have hbefore : (((a * 256 + b) * 256 + c) * 256 + d) / 2 ^ 16 = a * 256 + b := by omega
  refine ⟨by omega, ?_, ?_, by omega⟩
  · rw [hnext]
    omega
  · rw [hbefore]
    omega

/-- The octets of the field, put together as the loop does. -/
def packed (octets : List Nat) (val : UInt32) : UInt32 := octets.foldl (fun v o => (v <<< 8) + UInt32.ofNat o) val

/-- **In memory they come in their order.** -/
theorem inMemory_packed (w x y z : UInt8) :
    inMemory (ntohl (packed [w.toNat, x.toNat, y.toNat, z.toNat] 0)) = [w, x, y, z] := by
  have hw := w.toNat_lt
  have hx := x.toNat_lt
  have hy := y.toNat_lt
  have hz := z.toNat_lt
  have hstep (v : UInt32) (n : Nat) (hv : v.toNat < 2 ^ 24) (hn : n < 256) :
      ((v <<< 8) + UInt32.ofNat n).toNat = v.toNat * 256 + n := by
    change (v.toNat <<< 8 % 2 ^ 32 + n % 2 ^ 32) % 2 ^ 32 = _
    omega
  have hfirst := hstep 0 w.toNat (by decide) hw
  change _ = 0 * 256 + w.toNat at hfirst
  have hsecond := hstep _ x.toNat (by rw [hfirst]; omega) hx
  have hthird := hstep _ y.toNat (by rw [hsecond, hfirst]; omega) hy
  have hvalue : (packed [w.toNat, x.toNat, y.toNat, z.toNat] 0).toNat =
      ((w.toNat * 256 + x.toNat) * 256 + y.toNat) * 256 + z.toNat := by
    change (((((((0 : UInt32) <<< 8) + UInt32.ofNat w.toNat) <<< 8) + UInt32.ofNat x.toNat) <<< 8 +
      UInt32.ofNat y.toNat) <<< 8 + UInt32.ofNat z.toNat).toNat = _
    rw [UInt32.toNat_add, UInt32.toNat_shiftLeft, UInt32.toNat_ofNat', hthird, hsecond, hfirst]
    change ((_ <<< 8) % 2 ^ 32 + z.toNat % 2 ^ 32) % 2 ^ 32 = _
    omega
  refine map_injective_iff.mpr (fun _ _ => UInt8.toNat_inj.mp) ?_
  obtain ⟨hlast, hnext, hbefore, hfront⟩ := @digits_256 w.toNat _ _ _ hx hy hz
  rw [toNat_octets, ntohl, hvalue, hlast, hnext, hbefore, hfront, toNat_ofNat']
  have hsum : (z.toNat * 2 ^ 24 + y.toNat * 2 ^ 16 + x.toNat * 2 ^ 8 + w.toNat) % 2 ^ 32 =
      ((z.toNat * 256 + y.toNat) * 256 + x.toNat) * 256 + w.toNat := by
    clear hlast hnext hbefore hfront hstep hvalue hfirst hsecond hthird
    omega
  obtain ⟨hlast, hnext, hbefore, hfront⟩ := @digits_256 z.toNat _ _ _ hy hx hw
  rw [hsum]
  change [_ % 2 ^ 8, _ / 2 ^ 8 % 2 ^ 8, _ / 2 ^ 16 % 2 ^ 8, _] = _
  rw [hlast, hnext, hbefore, hfront]
  rfl

end Memory

/-! ### What the loop does -/

section Loop

open RecordTextReader

variable {g behind rest : Octets} {gs : List Octets} {val : UInt32} {octet count : Nat}

theorem le_readDigits (octet : Nat) (g : Octets) : octet ≤ readDigits octet g := by
  induction g generalizing octet with
  | nil => exact Nat.le_refl _
  | cons c g ih =>
    rw [readDigits]
    split
    · exact le_trans (by omega) (ih _)
    · exact Nat.le_refl _

theorem readDigits_cons {c : UInt8} (h : isDigit c = true) (octet : Nat) (g : Octets) :
    readDigits octet (c :: g) = readDigits (octet * 10 + (c.toNat - 48)) g := if_pos (isDigit_iff.mp h)

theorem isDigit_not_space {c : UInt8} (h : isDigit c = true) : dnsIsspace c = false := by
  rw [isDigit_iff] at h
  unfold dnsIsspace
  grind

theorem isDigit_ne_dot {c : UInt8} (h : isDigit c = true) : c ≠ dot := by
  rintro rfl
  exact absurd h (by decide)

/-- Digits are added to the octet, as long as it does not get too large. -/
theorem ipLoop_digits (hdigits : ∀ c ∈ g, isDigit c = true) (hle : readDigits octet g ≤ 255) :
    ipLoop (g ++ rest) val octet count = ipLoop rest val (readDigits octet g) count := by
  induction g generalizing octet with
  | nil => rfl
  | cons c g ih =>
    have hc := hdigits c mem_cons_self
    rw [readDigits_cons hc] at hle ⊢
    have hnow := (le_readDigits _ _).trans hle
    rw [cons_append, ipLoop, if_neg (isDigit_ne_dot hc), if_pos hc, if_neg (Nat.not_lt.mpr hnow)]
    exact ih (fun c' hc' => hdigits c' (mem_cons_of_mem c hc')) hle

/-- The end of the field ends the loop. -/
theorem ipLoop_ended (h : Ended behind) : ipLoop behind val octet count = .ok (val, octet, count, behind) := by
  cases behind with
  | nil => rfl
  | cons c behind =>
    have hspace := h c rfl
    have hdot : c ≠ dot := by
      rintro rfl
      exact absurd hspace (by decide)
    have hdigit : ¬ isDigit c = true := fun hdigit =>
      Bool.false_ne_true ((isDigit_not_space hdigit).symm.trans hspace)
    rw [ipLoop, if_neg hdot, if_neg hdigit, if_pos hspace]

/-- **Groups are taken up** one behind the other. -/
theorem ipLoop_groups (hgroups : ∀ g ∈ gs, (∀ c ∈ g, isDigit c = true) ∧ readDigits 0 g ≤ 255)
    (hbehind : count + gs.length ≤ 3 ∧ Ended behind ∨ count + gs.length = 3 ∧ behind.head? = some dot) :
    (ipLoop ((gs.flatMap fun g => dot :: g) ++ behind) val octet count).map ipValue =
      .ok (ntohl (packed (octet :: gs.map (readDigits 0)) val), behind) := by
  induction gs generalizing val octet count with
  | nil =>
    rcases hbehind with ⟨hcount, hended⟩ | ⟨hcount, hdot⟩
    · change (ipLoop behind val octet count).map ipValue = _
      rw [ipLoop_ended hended]
      change Except.ok (ntohl (if count ≤ 3 then _ else _), behind) = _
      rw [if_pos (show count ≤ 3 from hcount)]
      rfl
    · cases behind with
      | nil => cases hdot
      | cons c behind =>
        cases hdot
        obtain rfl : count = 3 := hcount
        rfl
  | cons g gs ih =>
    have hlt : count + 1 ≤ 3 := by
      rw [length_cons] at hbehind
      omega
    obtain ⟨hdigits, hle⟩ := hgroups g mem_cons_self
    rw [flatMap_cons, cons_append, cons_append, ipLoop, if_pos rfl, if_neg (Nat.not_lt.mpr hlt),
      append_assoc, ipLoop_digits hdigits hle]
    rw [length_cons, ← Nat.add_assoc, Nat.add_right_comm] at hbehind
    exact ih (fun g' hg' => hgroups g' (mem_cons_of_mem g hg')) hbehind

/-- **What the loop takes** is groups of digits. -/
theorem exists_groups {r : UInt32 × Nat × Nat × Octets} (h : ipLoop rest val octet count = .ok r) (hoctet : octet ≤ 255)
    (hcount : count ≤ 3) :
    ∃ g gs behind, rest = groupsText g gs ++ behind ∧ (∀ c ∈ g, isDigit c = true) ∧ readDigits octet g ≤ 255 ∧
      (∀ g' ∈ gs, (∀ c ∈ g', isDigit c = true) ∧ readDigits 0 g' ≤ 255) ∧
      (count + gs.length ≤ 3 ∧ Ended behind ∨ count + gs.length = 3 ∧ behind.head? = some dot) := by
  induction rest generalizing val octet count with
  | nil =>
    exact ⟨[], [], [], rfl, forall_mem_nil _, hoctet, forall_mem_nil _, .inl ⟨hcount, fun _ h => nomatch h⟩⟩
  | cons c rest ih =>
    rw [ipLoop] at h
    split at h
    next hdot =>
      subst hdot
      split at h
      next hfourth =>
        refine ⟨[], [], dot :: rest, rfl, forall_mem_nil _, hoctet, forall_mem_nil _, .inr ⟨?_, rfl⟩⟩
        exact Nat.le_antisymm hcount (Nat.le_of_lt_succ hfourth)
      next hmore =>
        obtain ⟨g, gs, behind, rfl, hdigits, hle, hgroups, hbehind⟩ := ih h (Nat.zero_le _) (Nat.not_lt.mp hmore)
        refine ⟨[], g :: gs, behind, rfl, forall_mem_nil _, hoctet, ?_, ?_⟩
        · exact forall_mem_cons.mpr ⟨⟨hdigits, hle⟩, hgroups⟩
        · rw [length_cons, ← Nat.add_assoc, Nat.add_right_comm]
          exact hbehind
    next hdot =>
      split at h
      next hdigit =>
        split at h
        next => cases h
        next hsmall =>
          obtain ⟨g, gs, behind, rfl, hdigits, hle, hrest⟩ := ih h (Nat.not_lt.mp hsmall) hcount
          refine ⟨c :: g, gs, behind, rfl, forall_mem_cons.mpr ⟨hdigit, hdigits⟩, ?_, hrest⟩
          rwa [readDigits_cons hdigit]
      next hdigit =>
        split at h
        next hspace =>
          refine ⟨[], [], c :: rest, rfl, forall_mem_nil _, hoctet, forall_mem_nil _, .inl ⟨hcount, ?_⟩⟩
          intro c' hc'
          cases hc'
          exact hspace
        next => cases h

end Loop

/-! ### Which fields are taken -/

section Fields

variable {text g g' behind : Octets} {gs gs' : List Octets} {val : UInt32}

theorem takeWhile_groupsText (gs : List Octets) (h : ∀ c ∈ g, isDigit c = true) : (groupsText g gs).takeWhile isDigit = g := by
  unfold groupsText
  rw [takeWhile_append_of_pos h]
  cases gs with
  | nil => exact append_nil g
  | cons g' gs =>
    rw [flatMap_cons, cons_append, takeWhile_cons_of_neg (by decide), append_nil]

/-- The groups can be told from the text. -/
theorem groupsText_inj (h : groupsText g gs = groupsText g' gs') (hg : ∀ l ∈ g :: gs, ∀ c ∈ l, isDigit c = true)
    (hg' : ∀ l ∈ g' :: gs', ∀ c ∈ l, isDigit c = true) : g = g' ∧ gs = gs' := by
  induction gs generalizing g g' gs' with
  | nil =>
    obtain rfl : g = g' := by
      rw [← takeWhile_groupsText [] (hg g mem_cons_self), h,
        takeWhile_groupsText _ (hg' g' mem_cons_self)]
    cases gs' with
    | nil => exact ⟨rfl, rfl⟩
    | cons g'' gs' => exact absurd (append_cancel_left h) (cons_ne_nil _ _).symm
  | cons g₁ gs ih =>
    obtain rfl : g = g' := by
      rw [← takeWhile_groupsText (g₁ :: gs) (hg g mem_cons_self), h,
        takeWhile_groupsText _ (hg' g' mem_cons_self)]
    cases gs' with
    | nil => exact absurd (append_cancel_left h) (cons_ne_nil _ _)
    | cons g₂ gs' =>
      have htail : groupsText g₁ gs = groupsText g₂ gs' := tail_eq_of_cons_eq (append_cancel_left h)
      obtain ⟨rfl, rfl⟩ := ih htail (forall_mem_cons.mp hg).2 (forall_mem_cons.mp hg').2
      exact ⟨rfl, rfl⟩

/-- **What passes is taken**, and its groups make up the address. -/
theorem xfrIP_of_passes (h : Passes text g gs behind) :
    RecordTextReader.xfrIP text = .ok (ntohl (packed ((g :: gs).map (readDigits 0)) 0), behind) := by
  obtain ⟨c, t, rfl⟩ := exists_cons_of_ne_nil h.first
  obtain ⟨hdigits, hle⟩ := h.groups _ mem_cons_self
  have hskip : RecordTextReader.skipSpaces text = .ok (groupsText (c :: t) gs ++ behind) := by
    unfold RecordTextReader.skipSpaces
    rw [h.text]
    rfl
  have hloop := @ipLoop_groups behind gs 0 (readDigits 0 (c :: t)) 0
    (fun g hg => h.groups g (mem_cons_of_mem _ hg)) (by rw [Nat.zero_add]; exact h.behind)
  unfold RecordTextReader.xfrIP
  rw [hskip]
  dsimp only
  rw [if_pos (show (groupsText (c :: t) gs ++ behind).head?.any isDigit = true from hdigits c mem_cons_self),
    groupsText, append_assoc, ipLoop_digits hdigits hle, hloop]
  rfl

/-- And nothing else is taken. -/
theorem passes_of_xfrIP (h : RecordTextReader.xfrIP text = .ok (val, behind)) : ∃ g gs, Passes text g gs behind := by
  have h₀ := h
  unfold RecordTextReader.xfrIP RecordTextReader.skipSpaces at h
  cases hdrop : text.dropWhile dnsIsspace with
  | nil =>
    rw [hdrop] at h
    cases h
  | cons c rest =>
    rw [hdrop] at h
    dsimp only at h
    split at h
    next hdigit =>
      cases hloop : RecordTextReader.ipLoop (c :: rest) 0 0 0 with
      | error e =>
        rw [hloop] at h
        cases h
      | ok r =>
        obtain ⟨g, gs, behind', hrest, hdigits, hle, hgroups, hbehind⟩ :=
          exists_groups hloop (Nat.zero_le _) (Nat.zero_le _)
        rw [Nat.zero_add] at hbehind
        have hfirst : g ≠ [] := by
          rintro rfl
          have hhead := congrArg List.head? hrest
          cases gs with
          | nil =>
            change some c = behind'.head? at hhead
            rcases hbehind with ⟨-, hended⟩ | ⟨-, hdot⟩
            · exact Bool.false_ne_true ((isDigit_not_space hdigit).symm.trans (hended c hhead.symm))
            · rw [hdot] at hhead
              obtain rfl : c = dot := Option.some.inj hhead
              exact Bool.false_ne_true hdigit
          | cons g' gs =>
            obtain rfl : c = dot := Option.some.inj hhead
            exact Bool.false_ne_true hdigit
        have hpasses : Passes text g gs behind' :=
          ⟨hdrop.trans hrest, hfirst, forall_mem_cons.mpr ⟨⟨hdigits, hle⟩, hgroups⟩, hbehind⟩
        rw [xfrIP_of_passes hpasses] at h₀
        cases h₀
        exact ⟨g, gs, hpasses⟩
    next => cases h

theorem digits_of_octets {a b c d : Octets} {w x y z : UInt8} (ha : IsOctet a w) (hb : IsOctet b x) (hc : IsOctet c y)
    (hd : IsOctet d z) : ∀ l ∈ [a, b, c, d], ∀ c ∈ l, isDigit c = true := by
  intro l hl
  simp only [mem_cons, not_mem_nil, or_false] at hl
  rcases hl with rfl | rfl | rfl | rfl
  · exact ha.digits
  · exact hb.digits
  · exact hc.digits
  · exact hd.digits

/-- **An address is taken.** -/
theorem reads_address {field : Octets} (hfield : text.dropWhile dnsIsspace = field ++ behind)
    (haddress : IsAddress field (inMemory val)) (hended : Ended behind) :
    RecordTextReader.xfrIP text = .ok (val, behind) := by
  obtain ⟨a, b, c, d, w, x, y, z, rfl, hoctets, ha, hb, hc, hd⟩ := haddress
  have hgroup {g : Octets} {n : UInt8} (h : IsOctet g n) : (∀ c ∈ g, isDigit c = true) ∧ readDigits 0 g ≤ 255 := by
    have hlt := n.toNat_lt
    exact ⟨h.digits, by rw [h.value]; omega⟩
  have hpasses : Passes text a [b, c, d] behind := by
    refine ⟨hfield, ha.nonempty, fun g hg => ?_, .inl ⟨Nat.le_refl 3, hended⟩⟩
    simp only [mem_cons, not_mem_nil, or_false] at hg
    rcases hg with rfl | rfl | rfl | rfl
    · exact hgroup ha
    · exact hgroup hb
    · exact hgroup hc
    · exact hgroup hd
  have hvalue : ntohl (packed (([a, b, c, d]).map (readDigits 0)) 0) = val := by
    apply inMemory_inj
    rw [map_cons, map_cons, map_cons, map_singleton, ha.value, hb.value, hc.value, hd.value,
      inMemory_packed, hoctets]
  rw [xfrIP_of_passes hpasses, hvalue]

end Fields

/-! ### The reader and the writer -/

theorem isOctet_ipOctet (n : UInt8) : IsOctet (RecordTextWriter.ipOctet n) n := by
  have hall : ∀ k < 256, RecordTextWriter.ipOctet (UInt8.ofNat k) ≠ [] ∧
      (RecordTextWriter.ipOctet (UInt8.ofNat k)).all isDigit = true ∧
        readDigits 0 (RecordTextWriter.ipOctet (UInt8.ofNat k)) = k := by decide +kernel
  have hn := hall n.toNat n.toNat_lt
  rw [UInt8.ofNat_toNat] at hn
  exact ⟨hn.1, all_eq_true.mp hn.2.1, hn.2.2⟩

/-- **What is written is an address.** -/
theorem written_address (val : UInt32) :
    IsAddress ([dot].intercalate ((inMemory val).map RecordTextWriter.ipOctet)) (inMemory val) := by
  refine ⟨_, _, _, _, _, _, _, _, ?_, rfl, isOctet_ipOctet _, isOctet_ipOctet _, isOctet_ipOctet _, isOctet_ipOctet _⟩
  unfold inMemory groupsText
  simp [List.intercalate, List.intersperse]

/-- **IPv4 addresses.** What is written is read again. And `xfrIP` takes addresses only, exactly when the digits and
dots that pass its checks are four groups, none of them empty, that do not end at a fourth dot. -/
theorem xfrIP_exact_iff (text : Octets) :
    (∀ (val : UInt32) (d_string behind : Octets), Ended behind →
      RecordTextReader.xfrIP ((RecordTextWriter.xfrIP d_string val).drop d_string.length ++ behind) =
        .ok (val, behind)) ∧
    (ReadsAddress text ↔
      ∀ g gs behind, Passes text g gs behind → gs.length = 3 ∧ [] ∉ gs ∧ behind.head? ≠ some dot) := by
  refine ⟨fun val d_string behind hended => ?_, fun h g gs behind hpasses => ?_, fun h val behind => ?_⟩
  · have haddress := written_address val
    refine reads_address ?_ haddress hended
    have hfield (rest : Octets) : ∃ c t, [dot].intercalate ((inMemory val).map RecordTextWriter.ipOctet) ++ rest = c :: t ∧
        dnsIsspace c = false := by
      obtain ⟨a, b, c, d, w, x, y, z, htext, -, ha, -⟩ := haddress
      obtain ⟨c', a, rfl⟩ := exists_cons_of_ne_nil ha.nonempty
      rw [htext]
      exact ⟨c', _, rfl, isDigit_not_space (ha.digits c' mem_cons_self)⟩
    unfold RecordTextWriter.xfrIP
    generalize [dot].intercalate ((inMemory val).map RecordTextWriter.ipOctet) = field at hfield
    obtain ⟨c, t, hhead, hspace⟩ := hfield behind
    have hstop : (field ++ behind).dropWhile dnsIsspace = field ++ behind := by
      rw [hhead, dropWhile_cons_of_neg (by rw [hspace]; exact Bool.false_ne_true)]
    by_cases hstart : d_string = []
    · rw [if_pos hstart, hstart]
      exact hstop
    · rw [if_neg hstart, append_assoc, drop_left]
      exact hstop
  · obtain ⟨field, hfield, ⟨a, b, c, d, w, x, y, z, rfl, -, ha, hb, hc, hd⟩, hended⟩ :=
      (h _ behind).mp (xfrIP_of_passes hpasses)
    have hsame : groupsText g gs = groupsText a [b, c, d] :=
      append_cancel_right (hpasses.text.symm.trans hfield)
    have hdigits := digits_of_octets ha hb hc hd
    obtain ⟨rfl, rfl⟩ := groupsText_inj hsame (fun l hl => (hpasses.groups l hl).1) hdigits
    refine ⟨rfl, ?_, fun hdot => ?_⟩
    · simp only [mem_cons, not_mem_nil, or_false, not_or]
      exact ⟨hb.nonempty.symm, hc.nonempty.symm, hd.nonempty.symm⟩
    · exact Bool.false_ne_true (hended dot hdot)
  · refine ⟨fun htaken => ?_, fun ⟨field, hfield, haddress, hended⟩ => reads_address hfield haddress hended⟩
    obtain ⟨g, gs, hpasses⟩ := passes_of_xfrIP htaken
    obtain ⟨hlength, hnone, hdot⟩ := h g gs behind hpasses
    rw [xfrIP_of_passes hpasses] at htaken
    cases htaken
    obtain ⟨b, c, d, rfl⟩ := length_eq_three.mp hlength
    have hended : Ended behind := hpasses.behind.elim (fun h => h.2) fun h => absurd h.2 hdot
    have hvalue {l : Octets} (hl : l ∈ [g, b, c, d]) : (UInt8.ofNat (readDigits 0 l)).toNat = readDigits 0 l := by
      have hle := (hpasses.groups l hl).2
      rw [UInt8.toNat_ofNat']
      omega
    have hoctet {l : Octets} (hl : l ∈ [g, b, c, d]) (hne : l ≠ []) : IsOctet l (UInt8.ofNat (readDigits 0 l)) :=
      ⟨hne, (hpasses.groups l hl).1, (hvalue hl).symm⟩
    simp only [mem_cons, not_mem_nil, or_false, not_or] at hnone
    have hb : b ∈ [g, b, c, d] := by simp
    have hc : c ∈ [g, b, c, d] := by simp
    have hd : d ∈ [g, b, c, d] := by simp
    refine ⟨_, hpasses.text, ⟨g, b, c, d, _, _, _, _, rfl, ?_, hoctet mem_cons_self hpasses.first,
      hoctet hb (Ne.symm hnone.1), hoctet hc (Ne.symm hnone.2.1), hoctet hd (Ne.symm hnone.2.2)⟩, hended⟩
    rw [← inMemory_packed, hvalue mem_cons_self, hvalue hb, hvalue hc, hvalue hd]
    rfl

theorem xfrIP_exact_at_ten :
    RecordTextReader.xfrIP ((RecordTextWriter.xfrIP (ascii "A") 0x0100000a).drop 1 ++ ascii " x") =
        .ok (0x0100000a, ascii " x") ∧
      (ReadsAddress (ascii "10.0.0.1") ↔ ∀ g gs behind, Passes (ascii "10.0.0.1") g gs behind →
        gs.length = 3 ∧ [] ∉ gs ∧ behind.head? ≠ some dot) :=
  ⟨(xfrIP_exact_iff []).1 0x0100000a (ascii "A") (ascii " x") (fun _ h => by cases h; rfl), (xfrIP_exact_iff _).2⟩

/-- Three octets are taken for an address that begins with a zero. -/
theorem three_octets_taken : ¬ ReadsAddress (ascii "1.2.3") := by
  intro h
  have htaken : RecordTextReader.xfrIP (ascii "1.2.3") = .ok (ntohl 0x010203, []) := by decide
  obtain ⟨field, hfield, ⟨a, b, c, d, w, x, y, z, rfl, -, ha, hb, hc, hd⟩, -⟩ := (h _ _).mp htaken
  have hdigits := digits_of_octets ha hb hc hd
  have hthree : (ascii "1.2.3").dropWhile dnsIsspace = groupsText [49] [[50], [51]] := rfl
  have hone : ∀ l ∈ [[49], [50], [51]], ∀ c ∈ l, isDigit c = true := by
    intro l hl c hc
    simp only [mem_cons, not_mem_nil, or_false] at hl
    obtain rfl | rfl | rfl := hl
    · rw [mem_singleton.mp hc]
      rfl
    · rw [mem_singleton.mp hc]
      rfl
    · rw [mem_singleton.mp hc]
      rfl
  rw [hthree, append_nil] at hfield
  obtain ⟨-, hgroups⟩ := groupsText_inj hfield hone hdigits
  cases hgroups

end PowerDNS
