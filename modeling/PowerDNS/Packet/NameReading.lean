import PowerDNS.Names.Render
import PowerDNS.Packet.PacketReader

/-!
# What `getLabelFromContent` reads

The reader follows at most ten pointers. `getLabelFromContent_of_decodes` says that within
this limit, and in a packet that its 16 bit positions can cover, it returns the text of the
name that stands at a place, for every name that stands there.

Positions are those of the whole packet; the reader's are smaller by the 12 octets of the
header it has cut off.
-/

namespace PowerDNS

open CompressedName

/-- `192 = 0xc0` is a mask of the upper two bits. -/
theorem and_c0_iff (b : UInt8) : b &&& 0xc0 = 0xc0 ↔ 192 ≤ b := by
  have hall : ∀ n : Fin 256, n.val &&& 192 = 192 ↔ 192 ≤ n.val := by decide +kernel
  rw [← UInt8.toNat_inj, UInt8.le_iff_toNat_le, UInt8.toNat_and]
  exact hall ⟨b.toNat, b.toNat_lt⟩

theorem and_3f_of_le {b : UInt8} (h : 192 ≤ b) : (b &&& 0x3f).toNat = b.toNat - 192 := by
  have hlt := b.toNat_lt
  rw [UInt8.le_iff_toNat_le, show (192 : UInt8).toNat = 192 from rfl] at h
  rw [UInt8.toNat_and, show (0x3f : UInt8).toNat = 2 ^ 6 - 1 from rfl,
    Nat.and_two_pow_sub_one_eq_mod]
  omega

/-- The `offset` the reader computes from the octets of a pointer. -/
theorem pointer_offset {hi lo : UInt8} (hhi : 192 ≤ hi) (htarget : 12 ≤ target hi lo) :
    256 * (hi &&& 0x3f).toUInt16 + lo.toUInt16 - 12 = UInt16.ofNat (target hi lo - 12) := by
  have hand := and_3f_of_le hhi
  unfold target at htarget ⊢
  rw [← UInt16.toNat_inj, UInt16.toNat_sub, UInt16.toNat_add, UInt16.toNat_mul,
    UInt8.toNat_toUInt16, UInt8.toNat_toUInt16, hand, UInt16.toNat_ofNat',
    show (256 : UInt16).toNat = 256 from rfl, show (12 : UInt16).toNat = 12 from rfl]
  omega

/-- More fuel changes nothing once there was enough. -/
theorem getLabelFromContent_add_fuel {content : Octets} {fuel : Nat} {frompos : UInt16}
    {ret : Octets} {recurs : Nat} {r : Except ReadError (Octets × UInt16)}
    (h : getLabelFromContent content fuel frompos ret recurs = r) (hr : r ≠ .error .fuel)
    (k : Nat) : getLabelFromContent content (fuel + k) frompos ret recurs = r := by
  induction fuel generalizing frompos ret recurs r with
  | zero => exact absurd h.symm hr
  | succ fuel ih =>
    rw [Nat.add_right_comm, getLabelFromContent]
    rw [getLabelFromContent] at h
    split
    next hrecurs => rwa [if_pos hrecurs] at h
    next hrecurs =>
      rw [if_neg hrecurs] at h
      cases hlen : contentAt content frompos with
      | error e => simpa [hlen, bind, Except.bind] using h
      | ok labellen =>
        simp only [hlen, bind, Except.bind] at h ⊢
        split
        next hzero => rwa [if_pos hzero] at h
        next hzero =>
          rw [if_neg hzero] at h
          split
          next hptr =>
            rw [if_pos hptr] at h
            cases hlo : contentAt content (frompos + 1) with
            | error e => simpa [hlo] using h
            | ok lo =>
              simp only [hlo] at h ⊢
              rw [ih rfl fun hfuel => hr (by rw [← h, hfuel])]
              exact h
          next hptr =>
            rw [if_neg hptr] at h
            cases hlabel : readLabelOctets content labellen.toNat (frompos + 1) ret with
            | error e => simpa [hlabel] using h
            | ok v =>
              simp only [hlabel] at h ⊢
              exact ih h hr

section Reading

variable {content : Octets} {m : Memory}

/-- The reader's view of a packet knows what `m` knows. -/
def Readable (content : Octets) (m : Memory) : Prop :=
  ∀ p b, m p = some b → 12 ≤ p ∧ content[p - 12]? = some b

theorem contentAt_eq (hsize : content.length ≤ 65536) (hm : Readable content m) {p : Nat}
    {b : UInt8} (h : m p = some b) : contentAt content (UInt16.ofNat (p - 12)) = .ok b := by
  obtain ⟨_, hget⟩ := hm p b h
  have hlt : p - 12 < content.length := (List.getElem?_eq_some_iff.mp hget).1
  unfold contentAt
  rw [UInt16.toNat_ofNat', Nat.mod_eq_of_lt (by omega), hget]

theorem ofNat_succ {p : Nat} (h : 12 ≤ p) :
    UInt16.ofNat (p - 12) + 1 = UInt16.ofNat (p + 1 - 12) := by
  rw [Nat.sub_add_comm h, UInt16.ofNat_add]
  rfl

theorem readLabelOctets_of_holds (hsize : content.length ≤ 65536) (hm : Readable content m)
    {l : Octets} {p : Nat} (ret : Octets) (hp : 12 ≤ p) (h : Holds m p l) :
    readLabelOctets content l.length (UInt16.ofNat (p - 12)) ret =
      .ok (ret ++ escapeLabel l, UInt16.ofNat (p + l.length - 12)) := by
  induction l generalizing p ret with
  | nil => simp [readLabelOctets]
  | cons c l ih =>
    rw [List.length_cons, readLabelOctets, contentAt_eq hsize hm h.1]
    show readLabelOctets content l.length (UInt16.ofNat (p - 12) + 1) _ = _
    rw [ofNat_succ hp, ih _ (by omega) h.2, escapeLabel, List.append_assoc,
      show p + 1 + l.length = p + (l.length + 1) by omega]

/-- The text the reader returns for labels read after `ret`. -/
def readText (ret : Octets) (ls : List Octets) : Octets :=
  if ret ++ dottedText ls = [] then [dot] else ret ++ dottedText ls

/-- **The reader finds the name.** Where a name stands, `getLabelFromContent` returns its
text, as long as the pointers it has followed and those still to come are ten at most. -/
theorem getLabelFromContent_of_decodes (hsize : content.length ≤ 65536)
    (hm : Readable content m) {p hops : Nat} {ls : List Octets} (h : Decodes m p ls hops)
    (ret : Octets) {recurs : Nat} (hhops : hops + recurs ≤ 10) :
    ∃ n, ∀ fuel ≥ n, ∃ frompos,
      getLabelFromContent content fuel (UInt16.ofNat (p - 12)) ret recurs =
        .ok (readText ret ls, frompos) := by
  induction h generalizing ret recurs with
  | @root p hp =>
    refine ⟨1, fun fuel hfuel => ⟨UInt16.ofNat (p - 12) + 1, ?_⟩⟩
    obtain ⟨fuel, rfl⟩ : ∃ k, fuel = k + 1 := ⟨fuel - 1, by omega⟩
    rw [getLabelFromContent, if_neg (by omega), contentAt_eq hsize hm hp]
    simp only [bind, Except.bind, if_true, pure, Except.pure, readText, dottedText_nil,
      List.append_nil]
  | @label p l ls hops hl hp hoctets hrest ih =>
    have hp12 : 12 ≤ p := (hm p _ hp).1
    obtain ⟨n, hn⟩ := ih (ret ++ escapeLabel l ++ [dot]) hhops
    refine ⟨n + 1, fun fuel hfuel => ?_⟩
    obtain ⟨fuel, rfl⟩ : ∃ k, fuel = k + 1 := ⟨fuel - 1, by omega⟩
    obtain ⟨frompos, hfrompos⟩ := hn fuel (by omega)
    refine ⟨frompos, ?_⟩
    have hnot : ¬UInt8.ofNat l.length &&& 0xc0 = 0xc0 := by
      rw [and_c0_iff]
      exact Decodes.length_lt_pointer hl
    rw [getLabelFromContent, if_neg (by omega), contentAt_eq hsize hm hp]
    simp only [bind, Except.bind, if_neg (Decodes.length_ne_zero hl), if_neg hnot]
    rw [Decodes.length_toNat hl, ofNat_succ hp12,
      readLabelOctets_of_holds hsize hm ret (by omega) hoctets]
    have htext : readText (ret ++ escapeLabel l ++ [dot]) ls = readText ret (l :: ls) := by
      simp [readText]
    rw [← htext]
    exact hfrompos
  | @pointer p hi lo ls hops hhi hp hlo hrest ih =>
    have hp12 : 12 ≤ p := (hm p _ hp).1
    have htarget : 12 ≤ target hi lo := by
      cases hrest with
      | root h => exact (hm _ _ h).1
      | label _ h => exact (hm _ _ h).1
      | pointer _ h => exact (hm _ _ h).1
    have hrecurs : hops + (recurs + 1) ≤ 10 := by omega
    obtain ⟨n, hn⟩ := ih ret hrecurs
    refine ⟨n + 1, fun fuel hfuel => ⟨UInt16.ofNat (p - 12) + 2, ?_⟩⟩
    obtain ⟨fuel, rfl⟩ : ∃ k, fuel = k + 1 := ⟨fuel - 1, by omega⟩
    obtain ⟨frompos, hfrompos⟩ := hn fuel (by omega)
    have hzero : hi ≠ 0 := by
      rintro rfl
      exact absurd hhi (by decide)
    rw [getLabelFromContent, if_neg (by omega), contentAt_eq hsize hm hp]
    simp only [bind, Except.bind, if_neg hzero, if_pos ((and_c0_iff hi).mpr hhi),
      ofNat_succ hp12, contentAt_eq hsize hm hlo, pointer_offset hhi htarget, hfrompos, pure,
      Except.pure]

end Reading

end PowerDNS
