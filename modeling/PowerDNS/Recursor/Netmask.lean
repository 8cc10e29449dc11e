import Mathlib.Data.List.GetD
import PowerDNS.Recursor.DomainMap

/-!
# Netmasks

`Netmask::match` compares the first bits of two addresses, and it is right for all of them (`match_spec`). An IPv6
netmask of 128 bits reads one octet behind an address that is its own, and only then does any.
-/

namespace PowerDNS

open List RecZones UInt8 Bool

/-! ### The code -/

namespace ComboAddress

/-- An address of one of the two families. -/
def Proper (ip : ComboAddress) : Prop := ip.addr.length = 4 ∨ ip.addr.length = 16

/-- `isMappedIPv4`. -/
def isMappedIPv4 (ip : ComboAddress) : Bool :=
  ip.addr.length == 16 && (ip.addr.take 10).all (· == 0) && ((ip.addr.drop 10).take 2).all (· == 255)

/-- `mapToIPv4`, of an address that `isMappedIPv4`. -/
def mapToIPv4 (ip : ComboAddress) : ComboAddress := { ip with addr := ip.addr.drop 12 }

/-- `ntohl` of `s_addr`. -/
def word (ip : ComboAddress) : BitVec 32 :=
  (ip.addr.getD 0 0).toBitVec ++ (ip.addr.getD 1 0).toBitVec ++ (ip.addr.getD 2 0).toBitVec ++
    (ip.addr.getD 3 0).toBitVec

end ComboAddress

/-- `Netmask`. -/
structure Netmask where
  d_network : ComboAddress
  d_mask : BitVec 32
  d_bits : UInt8

/-- What is in memory behind an address. -/
abbrev Behind := ComboAddress → Nat → UInt8

namespace Netmask

/-- The constructor; `none` is an exception of `makeComboAddress`. -/
def create (makeComboAddress : Octets → Option ComboAddress) (mask : Octets) : Option Netmask :=
  let split := splitField mask 47
  (makeComboAddress split.1).map fun network =>
    if split.2 ≠ [] then
      let bits := UInt8.ofInt (atoi split.2)
      ⟨network, if bits < 32 then ~~~(BitVec.allOnes 32 >>> bits.toNat) else BitVec.allOnes 32, bits⟩
    else if network.addr.length = 4 then ⟨network, BitVec.allOnes 32, 32⟩
    else ⟨network, 0, 128⟩

/-- `match4(ip)`. -/
def match4 (m : Netmask) (ip : BitVec 32) : Bool := ip &&& m.d_mask == m.d_network.word &&& m.d_mask

/-- `match(ip)`, and how many octets of the addresses it reads. -/
def matchAddress (behind : Behind) (m : Netmask) (ip : ComboAddress) : Bool × Nat :=
  if m.d_network.addr.length ≠ ip.addr.length then (false, 0)
  else if ip.addr.length = 4 then (m.match4 ip.word, 4)
  else
    let bytes := m.d_bits.toNat / 8
    let us n := m.d_network.addr.getD n (behind m.d_network n)
    let them n := ip.addr.getD n (behind ip n)
    match (range bytes).find? fun n => us n != them n with
    | some n => (false, n + 1)
    | none =>
      let mask := ~~~(BitVec.allOnes 8 >>> (m.d_bits.toNat % 8))
      ((us bytes).toBitVec &&& mask == (them bytes).toBitVec &&& mask, bytes + 1)

end Netmask

/-- `NetmaskGroup::match(ip)`. -/
def NetmaskGroup.matchAddress (behind : Behind) (d_masks : List Netmask) (ip : ComboAddress) : Bool :=
  d_masks.any fun i => (i.matchAddress behind ip).1 || (ip.isMappedIPv4 && (i.matchAddress behind ip.mapToIPv4).1)

/-! ### The bits of an address -/

/-- Bit `j` of an address, counted from its beginning. -/
def ComboAddress.bit (ip : ComboAddress) (j : Nat) : Bool := (ip.addr.getD (j / 8) 0).toBitVec.getMsbD (j % 8)

/-- The families agree, and so do the first bits. -/
def Netmask.Covers (m : Netmask) (ip : ComboAddress) : Prop :=
  m.d_network.addr.length = ip.addr.length ∧ ∀ j < m.d_bits.toNat, m.d_network.bit j = ip.bit j

/-- A mask of the first bits leaves just them. -/
theorem and_mask_iff {w : Nat} (x y : BitVec w) (n : Nat) :
    x &&& ~~~(BitVec.allOnes w >>> n) = y &&& ~~~(BitVec.allOnes w >>> n) ↔
      ∀ j < n, x.getMsbD j = y.getMsbD j := by
  have hmask : ∀ j < w, (~~~(BitVec.allOnes w >>> n)).getMsbD j = decide (j < n) := by
    intro j hj
    by_cases h : j < n
    · simp [h, hj]
    · simp [h, hj, (Nat.sub_le j n).trans_lt hj]
  constructor
  · intro h j hj
    by_cases hw : j < w
    · have hbit := congrArg (BitVec.getMsbD · j) h
      simpa only [BitVec.getMsbD_and, hmask j hw, decide_eq_true hj, Bool.and_true] using hbit
    · rw [BitVec.getMsbD_of_ge _ _ (Nat.le_of_not_lt hw), BitVec.getMsbD_of_ge _ _ (Nat.le_of_not_lt hw)]
  · intro h
    refine BitVec.eq_of_getMsbD_eq fun j hw => ?_
    rw [BitVec.getMsbD_and, BitVec.getMsbD_and, hmask j hw]
    by_cases hj : j < n
    · rw [h j hj]
    · rw [decide_eq_false hj, Bool.and_false, Bool.and_false]

theorem word_bit (ip : ComboAddress) {j : Nat} (h : j < 32) : ip.word.getMsbD j = ip.bit j := by
  unfold ComboAddress.word ComboAddress.bit
  rw [BitVec.getMsbD_append, BitVec.getMsbD_append, BitVec.getMsbD_append]
  have hlast : j / 8 = 0 ∨ j / 8 = 1 ∨ j / 8 = 2 ∨ j / 8 = 3 := by omega
  rcases hlast with h8 | h8 | h8 | h8
  · rw [h8, if_neg (by omega), if_neg (by omega), if_neg (by omega), show j % 8 = j by omega]
  · rw [h8, if_neg (by omega), if_neg (by omega), if_pos (by omega), show j % 8 = j - 8 by omega]
  · rw [h8, if_neg (by omega), if_pos (by omega), show j % 8 = j - (8 + 8) by omega]
  · rw [h8, if_pos (by omega), show j % 8 = j - (8 + 8 + 8) by omega]

theorem octet_eq_iff (x y : UInt8) : x = y ↔ ∀ j < 8, x.toBitVec.getMsbD j = y.toBitVec.getMsbD j := by
  rw [← UInt8.toBitVec_inj]
  exact ⟨fun h j _ => h ▸ rfl, BitVec.eq_of_getMsbD_eq⟩

/-- Whole octets and some bits more. -/
theorem bits_iff (a b : ComboAddress) (bits : Nat) :
    (∀ j < bits, a.bit j = b.bit j) ↔ (∀ n < bits / 8, a.addr.getD n 0 = b.addr.getD n 0) ∧
      ∀ j < bits % 8, (a.addr.getD (bits / 8) 0).toBitVec.getMsbD j =
        (b.addr.getD (bits / 8) 0).toBitVec.getMsbD j := by
  unfold ComboAddress.bit
  constructor
  · refine fun h => ⟨fun n hn => (octet_eq_iff _ _).mpr fun j hj => ?_, fun j hj => ?_⟩
    · have hbit := h (8 * n + j) (by omega)
      rwa [show (8 * n + j) / 8 = n by omega, show (8 * n + j) % 8 = j by omega] at hbit
    · have hbit := h (8 * (bits / 8) + j) (by omega)
      rwa [show (8 * (bits / 8) + j) / 8 = bits / 8 by omega,
        show (8 * (bits / 8) + j) % 8 = j by omega] at hbit
  · rintro ⟨hwhole, hrest⟩ j hj
    by_cases hn : j / 8 < bits / 8
    · rw [hwhole _ hn]
    · have hn' : j / 8 = bits / 8 := by omega
      rw [hn']
      exact hrest _ (by omega)

/-! ### What is matched -/

namespace Netmask

variable {makeComboAddress : Octets → Option ComboAddress} {mask : Octets} {m : Netmask} {ip : ComboAddress}

/-- The constructor makes a mask of the first bits. -/
theorem create_mask (h : create makeComboAddress mask = some m) (hfour : m.d_network.addr.length = 4)
    (hbits : m.d_bits ≤ 32) : m.d_mask = ~~~(BitVec.allOnes 32 >>> m.d_bits.toNat) := by
  obtain ⟨network, -, rfl⟩ := Option.map_eq_some_iff.mp h
  revert hfour hbits
  split
  · dsimp only
    intro hfour hbits
    split
    · rfl
    next hmore =>
      rw [UInt8.le_antisymm hbits (UInt8.not_lt.mp hmore)]
      decide
  · split
    · intros
      change BitVec.allOnes 32 = ~~~(BitVec.allOnes 32 >>> 32)
      decide
    next hsix => exact fun hfour => absurd hfour hsix

/-- A netmask matches the addresses of its family with the same first bits, whatever is in memory behind them; and
what it reads is theirs, unless it is all of an IPv6 address, and the other is the same. -/
theorem match_spec (behind : Behind) (hcreate : create makeComboAddress mask = some m) (hip : ip.Proper)
    (hbits : m.d_bits.toNat ≤ 8 * m.d_network.addr.length) :
    ((m.matchAddress behind ip).1 = true ↔ m.Covers ip) ∧
      ((m.matchAddress behind ip).2 ≤ ip.addr.length ↔
        ¬(ip.addr.length = 16 ∧ m.d_bits = 128 ∧ m.d_network.addr = ip.addr)) := by
  unfold matchAddress Covers
  split
  next hne =>
    exact ⟨⟨nofun, fun h => absurd h.1 hne⟩,
      iff_of_true (Nat.zero_le _) fun h => hne (congrArg length h.2.2)⟩
  next hsame =>
    have hsame' : m.d_network.addr.length = ip.addr.length := not_not.mp hsame
    rw [hsame'] at hbits
    split
    next hfour =>
      rw [hfour] at hbits
      refine ⟨?_, iff_of_true hfour.ge fun h => absurd (hfour.symm.trans h.1) (by decide)⟩
      have hmask := create_mask hcreate (hsame'.trans hfour) (le_iff_toNat_le.mpr hbits)
      rw [match4, beq_iff_eq, hmask, and_mask_iff, and_iff_right hsame']
      refine forall₂_congr fun j hj => ?_
      rw [word_bit _ (hj.trans_le hbits), word_bit _ (hj.trans_le hbits)]
      exact eq_comm
    next hnot =>
      have hlen : ip.addr.length = 16 := hip.resolve_left hnot
      rw [hlen] at hbits hsame'
      dsimp only
      rw [hlen, bits_iff, and_iff_right hsame', and_iff_right rfl]
      have hread (a : ComboAddress) (ha : a.addr.length = 16) {n : Nat} (hn : n < 16) (d : UInt8) :
          a.addr.getD n d = a.addr.getD n 0 := by
        rw [getD_eq_getElem _ _ (ha.symm ▸ hn), getD_eq_getElem _ _ (ha.symm ▸ hn)]
      split
      next n hfound =>
        have hn : n < m.d_bits.toNat / 8 := mem_range.mp (mem_of_find?_eq_some hfound)
        have hdiffer := find?_some hfound
        rw [hread _ hsame' (by omega), hread _ hlen (by omega), bne_iff_ne] at hdiffer
        refine ⟨⟨nofun, fun h => absurd (h.1 n hn) hdiffer⟩, iff_of_true ?_ fun h => hdiffer (by rw [h.2])⟩
        omega
      next hnone =>
        have hwhole : ∀ n < m.d_bits.toNat / 8, m.d_network.addr.getD n 0 = ip.addr.getD n 0 := by
          intro n hn
          have hn' := find?_eq_none.mp hnone n (mem_range.mpr hn)
          rw [hread _ hsame' (by omega), hread _ hlen (by omega)] at hn'
          exact not_not.mp fun h => hn' (bne_iff_ne.mpr h)
        have hfull : m.d_bits = 128 ↔ m.d_bits.toNat / 8 = 16 := by
          rw [← UInt8.toNat_inj]
          change m.d_bits.toNat = 128 ↔ _
          omega
        rw [hfull, beq_iff_eq, and_mask_iff, and_iff_right hwhole]
        by_cases hend : m.d_bits.toNat / 8 = 16
        · -- The octet behind the addresses is read, and then masked out.
          have hnothing : m.d_bits.toNat % 8 = 0 := by omega
          rw [hnothing]
          refine ⟨iff_of_true nofun nofun, iff_of_false (by dsimp only; omega) fun h => h ⟨hend, ?_⟩⟩
          refine ext_getElem (hsame'.trans hlen.symm) fun n h₁ h₂ => ?_
          have hoctet := hwhole n (by omega)
          rwa [getD_eq_getElem _ _ h₁, getD_eq_getElem _ _ h₂] at hoctet
        · have hin : m.d_bits.toNat / 8 < 16 := by omega
          rw [hread _ hsame' hin, hread _ hlen hin]
          exact ⟨Iff.rfl, iff_of_true hin fun h => hend h.1⟩

end Netmask

theorem isMappedIPv4_iff (ip : ComboAddress) :
    ip.isMappedIPv4 = true ↔ ∃ v4 : Octets, v4.length = 4 ∧
      ip.addr = replicate 10 0 ++ replicate 2 255 ++ v4 := by
  unfold ComboAddress.isMappedIPv4
  rw [and_eq_true, and_eq_true, beq_iff_eq, all_eq_true, all_eq_true]
  constructor
  · rintro ⟨⟨hlen, hzeros⟩, hones⟩
    have hzeros' : ip.addr.take 10 = replicate 10 0 :=
      eq_replicate_iff.mpr ⟨by rw [length_take, hlen]; rfl, fun x hx => beq_iff_eq.mp (hzeros x hx)⟩
    have hones' : (ip.addr.drop 10).take 2 = replicate 2 255 :=
      eq_replicate_iff.mpr ⟨by rw [length_take, length_drop, hlen]; rfl,
        fun x hx => beq_iff_eq.mp (hones x hx)⟩
    refine ⟨ip.addr.drop 12, by rw [length_drop, hlen], ?_⟩
    rw [← hzeros', ← hones', append_assoc, ← drop_drop (i := 2) (j := 10), take_append_drop, take_append_drop]
  · rintro ⟨v4, hlen, haddr⟩
    rw [haddr, append_assoc, take_left' length_replicate, drop_left' length_replicate,
      take_left' length_replicate]
    refine ⟨⟨?_, fun x hx => beq_iff_eq.mpr (eq_of_mem_replicate hx)⟩,
      fun x hx => beq_iff_eq.mpr (eq_of_mem_replicate hx)⟩
    rw [length_append, length_append, length_replicate, length_replicate, hlen]

variable {makeComboAddress : Octets → Option ComboAddress} {masks : List Netmask} {ip : ComboAddress}

/-- **A group of netmasks matches what one of its members covers**, an IPv4-mapped address as the IPv4 address, too;
and the members read what is theirs, unless one of 128 bits is the address. -/
theorem NetmaskGroup.match_iff (behind : Behind) (hip : ip.Proper)
    (hmasks : ∀ m ∈ masks, (∃ mask, Netmask.create makeComboAddress mask = some m) ∧
      m.d_bits.toNat ≤ 8 * m.d_network.addr.length) :
    ((∀ m ∈ masks, ((m.matchAddress behind ip).1 = true ↔ m.Covers ip) ∧
        (m.matchAddress behind ip).2 ≤ ip.addr.length) ∧
      (NetmaskGroup.matchAddress behind masks ip = true ↔ ∃ m ∈ masks, m.Covers ip ∨ ∃ v4 : Octets,
        v4.length = 4 ∧ ip.addr = replicate 10 0 ++ replicate 2 255 ++ v4 ∧ m.Covers { ip with addr := v4 })) ↔
    ∀ m ∈ masks, ¬(ip.addr.length = 16 ∧ m.d_bits = 128 ∧ m.d_network.addr = ip.addr) := by
  have hspec {a : ComboAddress} (ha : a.Proper) {m : Netmask} (hm : m ∈ masks) :=
    (hmasks m hm).1.elim fun _ hcreate => Netmask.match_spec behind hcreate ha (hmasks m hm).2
  have hgroup : NetmaskGroup.matchAddress behind masks ip = true ↔ ∃ m ∈ masks, m.Covers ip ∨ ∃ v4 : Octets,
      v4.length = 4 ∧ ip.addr = replicate 10 0 ++ replicate 2 255 ++ v4 ∧ m.Covers { ip with addr := v4 } := by
    unfold NetmaskGroup.matchAddress
    rw [any_eq_true]
    refine exists_congr fun m => and_congr_right fun hm => ?_
    rw [or_eq_true, (hspec hip hm).1, and_eq_true, isMappedIPv4_iff]
    refine or_congr_right ⟨?_, ?_⟩
    · rintro ⟨⟨v4, hlen, haddr⟩, hmatch⟩
      have hmap : ip.mapToIPv4 = { ip with addr := v4 } := by
        unfold ComboAddress.mapToIPv4
        rw [haddr]
        rfl
      rw [hmap] at hmatch
      exact ⟨v4, hlen, haddr, (hspec (.inl hlen) hm).1.mp hmatch⟩
    · rintro ⟨v4, hlen, haddr, hcovers⟩
      have hmap : ip.mapToIPv4 = { ip with addr := v4 } := by
        unfold ComboAddress.mapToIPv4
        rw [haddr]
        rfl
      rw [hmap]
      exact ⟨⟨v4, hlen, haddr⟩, (hspec (.inl hlen) hm).1.mpr hcovers⟩
  rw [and_iff_left hgroup]
  refine forall₂_congr fun m hm => ?_
  rw [and_iff_right (hspec hip hm).1, (hspec hip hm).2]

/-- A private network. -/
theorem NetmaskGroup.ten_slash_eight :
    NetmaskGroup.matchAddress (fun _ _ => 0) [⟨⟨[10, 0, 0, 0], 0⟩, 0xFF000000, 8⟩] ⟨[10, 1, 2, 3], 0⟩ = true := by
  have hip : ComboAddress.Proper ⟨[10, 1, 2, 3], 0⟩ := .inl rfl
  have hmasks : ∀ m ∈ [(⟨⟨[10, 0, 0, 0], 0⟩, 0xFF000000, 8⟩ : Netmask)],
      (∃ mask, Netmask.create (fun _ => some ⟨[10, 0, 0, 0], 0⟩) mask = some m) ∧
        m.d_bits.toNat ≤ 8 * m.d_network.addr.length := by
    intro m hm
    rw [mem_singleton.mp hm]
    exact ⟨⟨ascii "10.0.0.0/8", rfl⟩, by decide⟩
  refine ((match_iff (fun _ _ => 0) hip hmasks).mpr fun m hm h => absurd h.1 (by decide)).2.mpr ?_
  exact ⟨_, mem_singleton_self _, .inl ⟨rfl, by decide⟩⟩

/-- `::1/128` and `::1`: an octet behind the sixteen is read. -/
theorem Netmask.reads_behind :
    (Netmask.create (fun _ => some ⟨replicate 15 0 ++ [1], 0⟩) (ascii "::1/128")).map
      (fun m => (m.matchAddress (fun _ _ => 0) ⟨replicate 15 0 ++ [1], 0⟩).2) = some 17 := by decide

end PowerDNS
