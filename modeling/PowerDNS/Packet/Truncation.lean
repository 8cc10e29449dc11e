import PowerDNS.Packet.Framing

/-!
# Parsing a packet that was cut off

A reply whose TC bit is set may end anywhere. The parser reads it as far as it goes: what runs
out of octets throws `out_of_range`, which `init` takes for the end of a truncated packet, after
which it adjusts the counts.

Every getter but one gives on the first `m` octets what it gives on all of them, or runs out of
octets (`Cut`). The exception is `copyRecord` to a fixed buffer, which AAAA records use: it
throws a `MOADNSException`. And a record can be all there and still run out of octets: a blob
that is the rest of the record is looked for at the octet behind the record when it is empty.

`truncated_parse_iff` says that these two are all there is. A packet that is accepted as a
whole, framed, and without names that point ahead, is parsed up to any cut behind its questions
if and only if the cut is neither behind the header of an AAAA record and before its end, nor
right behind a record with such an empty rest.
-/

namespace PowerDNS

open List Option

/-! ### Reading from a part of the packet -/

/-- What reading a part of the packet gives, `y`, is what reading all of it gives, `x`, unless
the part has not enough octets. -/
def Cut {α : Type} (y x : Except ReadError α) : Prop := y = x ∨ y = .error .outOfRange

namespace Cut

variable {α β : Type}

protected theorem refl (x : Except ReadError α) : Cut x x := .inl rfl

/-- Running out of octets ends what follows as well. -/
protected theorem bind {y x : Except ReadError α} {k' k : α → Except ReadError β} (h : Cut y x)
    (hk : ∀ a, Cut (k' a) (k a)) : Cut (y >>= k') (x >>= k) := by
  rcases h with rfl | rfl
  · cases y with
    | error e => exact .inl rfl
    | ok a => exact hk a
  · exact .inr rfl

/-- What a part gives, all of it gives. -/
theorem eq_of_ok {y x : Except ReadError α} {a : α} (h : Cut y x) (hy : y = .ok a) :
    x = .ok a := by
  rcases h with h | h
  · exact h ▸ hy
  · rw [h] at hy
    cases hy

end Cut

section Getters

variable (content : Octets) (m : Nat)

theorem cut_contentAt (d_pos : UInt16) :
    Cut (contentAt (content.take m) d_pos) (contentAt content d_pos) := by
  unfold contentAt
  rw [getElem?_take]
  split
  next b hb =>
    split at hb
    next => exact .inl (by rw [hb])
    next => cases hb
  next => exact .inr rfl

theorem cut_readOctets (n : Nat) (d_pos : UInt16) :
    Cut (readOctets (content.take m) n d_pos) (readOctets content n d_pos) := by
  induction n generalizing d_pos with
  | zero => exact Cut.refl _
  | succ n ih =>
    exact (cut_contentAt content m d_pos).bind fun c => (ih _).bind fun r => Cut.refl _

theorem cut_readLabelOctets (n : Nat) (d_pos : UInt16) (ret : Octets) :
    Cut (readLabelOctets (content.take m) n d_pos ret) (readLabelOctets content n d_pos ret) := by
  induction n generalizing d_pos ret with
  | zero => exact Cut.refl _
  | succ n ih => exact (cut_contentAt content m d_pos).bind fun c => ih _ _

theorem cut_getLabelFromContent (fuel : Nat) (d_pos : UInt16) (ret : Octets) (recurs : Nat) :
    Cut (getLabelFromContent (content.take m) fuel d_pos ret recurs)
      (getLabelFromContent content fuel d_pos ret recurs) := by
  induction fuel generalizing d_pos ret recurs with
  | zero => exact Cut.refl _
  | succ fuel ih =>
    rw [getLabelFromContent, getLabelFromContent]
    split
    · exact Cut.refl _
    · refine (cut_contentAt content m d_pos).bind fun labellen => ?_
      split
      · exact Cut.refl _
      · split
        · exact (cut_contentAt content m _).bind fun lo => (ih _ _ _).bind fun r => Cut.refl _
        · exact (cut_readLabelOctets content m _ _ _).bind fun r => ih _ _ _

theorem cut_getLabel (d_pos : UInt16) :
    Cut (getLabel (content.take m) d_pos) (getLabel content d_pos) :=
  cut_getLabelFromContent content m _ _ _ _

/-- A range of octets, whichever of its ends is asked for first. -/
theorem cut_contentRange (first last : Nat) :
    Cut (contentRange (content.take m) first last) (contentRange content first last) := by
  unfold contentRange
  split
  next => exact .inr rfl
  next hin =>
    rw [length_take] at hin
    rw [if_neg (show ¬(content.length ≤ first ∨ content.length ≤ last - 1) by omega)]
    split
    next => exact Cut.refl _
    next =>
      left
      rw [drop_take, take_take, Nat.min_eq_left (by omega)]

theorem cut_textOctets (d_pos : UInt16) (labellen : UInt8) :
    Cut (textOctets (content.take m) d_pos labellen) (textOctets content d_pos labellen) := by
  unfold textOctets
  split
  · exact Cut.refl _
  · exact cut_contentRange content m _ _

theorem cut_getTextFrom (stop : Nat) (multi : Bool) (fuel : Nat) (d_pos : UInt16) (ret : Octets) :
    Cut (getTextFrom (content.take m) stop multi fuel d_pos ret)
      (getTextFrom content stop multi fuel d_pos ret) := by
  induction fuel generalizing d_pos ret with
  | zero => exact Cut.refl _
  | succ fuel ih =>
    rw [getTextFrom, getTextFrom]
    split
    · refine (cut_contentAt content m d_pos).bind fun labellen =>
        (cut_textOctets content m _ _).bind fun val => ?_
      dsimp only
      split
      · exact ih _ _
      · exact Cut.refl _
    · exact Cut.refl _

/-- **One field.** Only the copy to a fixed buffer fails in a way of its own. -/
theorem cut_readField (w : RecordWindow) (d_pos : UInt16) {f : Field} (hf : ∀ len, f ≠ .copyTo len) :
    Cut (readField (content.take m) w d_pos f) (readField content w d_pos f) := by
  cases f with
  | int n => exact (cut_readOctets content m n d_pos).bind fun r => Cut.refl _
  | label => exact (cut_getLabel content m d_pos).bind fun r => Cut.refl _
  | text multi => exact (cut_getTextFrom content m _ _ _ _ _).bind fun r => Cut.refl _
  | restBlob =>
    refine Cut.bind ?_ fun r => Cut.refl _
    unfold xfrRestBlob
    split
    · exact (cut_contentRange content m _ _).bind fun blob => Cut.refl _
    · exact Cut.refl _
  | sizedBlob n =>
    refine (cut_readOctets content m n d_pos).bind fun len => Cut.bind ?_ fun r => Cut.refl _
    unfold xfrSizedBlob
    split
    · exact (cut_contentRange content m _ _).bind fun blob => Cut.refl _
    · exact Cut.refl _
  | copyTo len => exact absurd rfl (hf len)
  | copyAll => exact (cut_readOctets content m _ d_pos).bind fun r => Cut.refl _

theorem cut_readFields (w : RecordWindow) {fs : List Field} (hfs : ∀ len, .copyTo len ∉ fs)
    (d_pos : UInt16) :
    Cut (readFields (content.take m) w fs d_pos) (readFields content w fs d_pos) := by
  induction fs generalizing d_pos with
  | nil => exact Cut.refl _
  | cons f fs ih =>
    refine (cut_readField content m w d_pos ?_).bind fun v => ?_
    · rintro len rfl
      exact hfs len mem_cons_self
    · exact (ih (fun len h => hfs len (mem_cons_of_mem _ h)) _).bind fun vs => Cut.refl _

end Getters

/-! ### What is read is there -/

section Ends

variable {content : Octets}

variable {d_pos : UInt16} {r : Octets × UInt16}

theorem readOctets_end_le (hsize : content.length ≤ 65535) {n : Nat}
    (hpos : d_pos.toNat ≤ content.length)
    (h : readOctets content n d_pos = .ok r) : r.2.toNat ≤ content.length := by
  induction n generalizing d_pos r with
  | zero =>
    cases h
    exact hpos
  | succ n ih =>
    obtain ⟨c, hc, h⟩ := bind_ok h
    obtain ⟨rest, hrest, h⟩ := bind_ok h
    cases h
    have hlt := contentAt_lt hc
    change rest.2.toNat ≤ _
    exact ih (by rw [toNat_succ hsize hlt]; exact hlt) hrest

theorem nameSizeFrom_le {skip : Nat} {l : Octets} {n : Nat} (h : nameSizeFrom skip l = some n) :
    n ≤ l.length := by
  induction l generalizing skip n with
  | nil => cases skip <;> cases h
  | cons c t ih =>
    cases skip with
    | zero =>
      rw [nameSizeFrom] at h
      split at h
      · cases h
        exact Nat.succ_le_succ (Nat.zero_le _)
      · split at h
        · split at h
          · cases h
          next hne =>
            cases h
            exact Nat.succ_le_succ (length_pos_iff.mpr hne)
        · obtain ⟨k, hk, rfl⟩ := map_eq_some_iff.mp h
          exact Nat.succ_le_succ (ih hk)
    | succ skip =>
      obtain ⟨k, hk, rfl⟩ := map_eq_some_iff.mp h
      exact Nat.succ_le_succ (ih hk)

theorem getLabel_end_le (hsize : content.length ≤ 65535)
    (hpos : d_pos.toNat ≤ content.length) (h : getLabel content d_pos = .ok r) :
    r.2.toNat ≤ content.length := by
  obtain ⟨n, hn, hr⟩ := getLabelFromContent_ok hsize h
  have hle := nameSizeFrom_le hn
  rw [length_drop] at hle
  omega

theorem getTextFrom_end_le (hsize : content.length ≤ 65535) {stop : Nat} {multi : Bool}
    {fuel : Nat} {ret : Octets}
    (hpos : d_pos.toNat ≤ content.length)
    (h : getTextFrom content stop multi fuel d_pos ret = .ok r) :
    r.2.toNat ≤ content.length := by
  induction fuel generalizing d_pos ret with
  | zero => cases h
  | succ fuel ih =>
    rw [getTextFrom] at h
    split at h
    next =>
      obtain ⟨len, hlen, h⟩ := bind_ok h
      obtain ⟨val, hval, h⟩ := bind_ok h
      have hnext := textOctets_pos hsize hlen hval
      have hlt := contentAt_lt hlen
      have hle : (d_pos + 1 + len.toUInt16).toNat ≤ content.length := by
        rw [hnext]
        unfold textOctets at hval
        split at hval
        next hzero =>
          rw [hzero]
          exact hlt
        next =>
          have hrange := (contentRange_ok hval).2.2
          rw [toNat_succ hsize hlt] at hrange
          omega
      dsimp only at h
      split at h
      · exact ih hle h
      · cases h
        exact hle
    next =>
      cases h
      exact hpos

/-- A field that is read ends in the packet. -/
theorem readField_end_le (hsize : content.length ≤ 65535) {w : RecordWindow}
    {f : Field} {r : FieldValue × UInt16} (hstart : w.d_startrecordpos.toNat ≤ content.length)
    (hpos : d_pos.toNat ≤ content.length) (h : readField content w d_pos f = .ok r) :
    r.2.toNat ≤ content.length := by
  cases f with
  | int n =>
    obtain ⟨v, hv, h⟩ := bind_ok h
    cases h
    exact readOctets_end_le hsize hpos hv
  | label =>
    obtain ⟨v, hv, h⟩ := bind_ok h
    cases h
    exact getLabel_end_le hsize hpos hv
  | text multi =>
    obtain ⟨v, hv, h⟩ := bind_ok h
    cases h
    exact getTextFrom_end_le hsize hpos hv
  | restBlob =>
    obtain ⟨v, hv, h⟩ := bind_ok h
    cases h
    unfold xfrRestBlob at hv
    split at hv
    next =>
      obtain ⟨blob, hblob, hv⟩ := bind_ok hv
      cases hv
      have hle := (contentRange_ok hblob).2.2
      unfold RecordWindow.stop at hle
      rw [toNat_add (by omega)]
      exact hle
    next hzero =>
      cases hv
      rw [ne_eq, not_not] at hzero
      rw [hzero, UInt16.add_zero]
      exact hstart
  | sizedBlob n =>
    obtain ⟨len, hlen, h⟩ := bind_ok h
    obtain ⟨v, hv, h⟩ := bind_ok h
    cases h
    have hle := readOctets_end_le hsize hpos hlen
    unfold xfrSizedBlob at hv
    split at hv
    next =>
      obtain ⟨blob, hblob, hv⟩ := bind_ok hv
      cases hv
      have hrange := (contentRange_ok hblob).2.2
      have hnat : (UInt16.ofNat (beNat len.1)).toNat = beNat len.1 := by
        rw [UInt16.toNat_ofNat']
        omega
      rw [toNat_add (by omega), hnat]
      exact hrange
    next =>
      cases hv
      exact hle
  | copyTo len =>
    obtain ⟨v, hv, h⟩ := bind_ok h
    cases h
    unfold copyRecordTo at hv
    split at hv
    next => cases hv
    next hle =>
      obtain ⟨_, _, hv⟩ := bind_ok hv
      cases hv
      have hnat : (UInt16.ofNat len).toNat = len := by
        rw [UInt16.toNat_ofNat']
        omega
      rw [toNat_add (by omega), hnat]
      exact not_lt.mp hle
  | copyAll =>
    obtain ⟨v, hv, h⟩ := bind_ok h
    cases h
    exact readOctets_end_le hsize hpos hv

theorem readFields_end_le (hsize : content.length ≤ 65535) {w : RecordWindow} {fs : List Field}
    {r : List FieldValue × UInt16}
    (hstart : w.d_startrecordpos.toNat ≤ content.length) (hpos : d_pos.toNat ≤ content.length)
    (h : readFields content w fs d_pos = .ok r) : r.2.toNat ≤ content.length := by
  induction fs generalizing d_pos r with
  | nil =>
    cases h
    exact hpos
  | cons f fs ih =>
    obtain ⟨v, hv, h⟩ := bind_ok h
    obtain ⟨vs, hvs, h⟩ := bind_ok h
    cases h
    change vs.2.toNat ≤ _
    exact ih (readField_end_le hsize hstart hpos hv) hvs

end Ends

/-! ### What is there can be read -/

/-- The octets up to the end of the name at `p`, which takes `n` octets, are enough to read it:
it does not point ahead. -/
def PointsBack (content : Octets) (p n : Nat) : Bool :=
  (getLabel (content.take (p + n)) (UInt16.ofNat p)).toOption ==
    (getLabel content (UInt16.ofNat p)).toOption

/-- The names among the fields of a record do not point ahead. -/
def FieldsPointBack (content : Octets) (clen stop : Nat) : List Field → Nat → Bool
  | [], _ => true
  | f :: fs, p =>
    match fieldSize content clen stop p f with
    | some n => (f != .label || PointsBack content p n) && FieldsPointBack content clen stop fs (p + n)
    | none => true

/-- The last field is the rest of the record, and there is none: the record has rdata, and the
fields in front take all of it. -/
def EmptyRest (content : Octets) (clen stop : Nat) : List Field → Nat → Bool
  | [], _ => false
  | f :: fs, p =>
    (f == .restBlob && p == stop && clen != 0) ||
      match fieldSize content clen stop p f with
      | some n => EmptyRest content clen stop fs (p + n)
      | none => false

section Whole

variable {content : Octets} {m : Nat}

theorem contentAt_take {d_pos : UInt16} {c : UInt8} (h : contentAt content d_pos = .ok c)
    (hlt : d_pos.toNat < m) : contentAt (content.take m) d_pos = .ok c := by
  unfold contentAt
  rw [getElem?_take, if_pos hlt, contentAt_ok h]

variable {d_pos : UInt16}

theorem readOctets_take (hsize : content.length ≤ 65535) {n : Nat}
    {r : Octets × UInt16} (h : readOctets content n d_pos = .ok r) (hle : r.2.toNat ≤ m) :
    readOctets (content.take m) n d_pos = .ok r := by
  induction n generalizing d_pos r with
  | zero => exact h
  | succ n ih =>
    have hend := (readOctets_ok hsize h).2
    obtain ⟨c, hc, h⟩ := bind_ok h
    obtain ⟨rest, hrest, h⟩ := bind_ok h
    cases h
    have hhead := @contentAt_take content m d_pos c hc (by omega)
    rw [readOctets, hhead]
    rw [ih hrest hle]
    rfl

theorem contentRange_take {first last : Nat} {s : Octets} (h : contentRange content first last = .ok s)
    (hfirst : first < m) (hlast : last ≤ m) : contentRange (content.take m) first last = .ok s := by
  have hbounds := contentRange_ok h
  rcases cut_contentRange content m first last with heq | hout
  · rw [heq, h]
  · -- both octets that are asked for are there
    unfold contentRange at hout
    rw [length_take] at hout
    rw [if_neg (by omega), if_neg (by omega)] at hout
    cases hout

theorem getLabel_take {p n : Nat} {r : Octets × UInt16} (hback : PointsBack content p n = true)
    (hle : p + n ≤ m) (h : getLabel content (UInt16.ofNat p) = .ok r) :
    getLabel (content.take m) (UInt16.ofNat p) = .ok r := by
  unfold PointsBack at hback
  rw [h, beq_iff_eq] at hback
  have hshort : getLabel ((content.take m).take (p + n)) (UInt16.ofNat p) = .ok r := by
    rw [take_take, Nat.min_eq_left hle]
    exact eq_ok_of_toOption hback
  exact (cut_getLabel (content.take m) (p + n) (UInt16.ofNat p)).eq_of_ok hshort

theorem getTextFrom_take (hsize : content.length ≤ 65535) {stop : Nat} {multi : Bool} {fuel : Nat}
    {ret : Octets} {r : Octets × UInt16}
    (h : getTextFrom content stop multi fuel d_pos ret = .ok r) (hle : r.2.toNat ≤ m) :
    getTextFrom (content.take m) stop multi fuel d_pos ret = .ok r := by
  induction fuel generalizing d_pos ret with
  | zero => cases h
  | succ fuel ih =>
    rw [getTextFrom] at h ⊢
    split at h
    next hlt =>
      rw [if_pos hlt]
      obtain ⟨len, hlen, h⟩ := bind_ok h
      obtain ⟨val, hval, h⟩ := bind_ok h
      dsimp only at h
      have hnext := textOctets_pos hsize hlen hval
      -- the string ends where the text does, or before
      have hend : (d_pos + 1 + len.toUInt16).toNat ≤ r.2.toNat := by
        split at h
        · obtain ⟨n, -, hn⟩ := getTextFrom_ok hsize h 0
          omega
        · cases h
          exact le_rfl
      have hval' : textOctets (content.take m) (d_pos + 1) len = .ok val := by
        unfold textOctets at hval ⊢
        split
        next hzero =>
          rw [if_pos hzero] at hval
          exact hval
        next hzero =>
          rw [if_neg hzero] at hval
          have hlenpos : 0 < len.toNat := Nat.pos_of_ne_zero fun h0 =>
            hzero (UInt8.toNat_inj.mp h0)
          have hsucc := toNat_succ hsize (contentAt_lt hlen)
          exact contentRange_take hval (by omega) (by omega)
      rw [contentAt_take hlen (by omega)]
      change (textOctets (content.take m) (d_pos + 1) len >>= _) = _
      rw [hval']
      change (if multi then _ else _) = _
      split
      next hmulti =>
        rw [if_pos hmulti] at h
        exact ih h
      next hmulti =>
        rw [if_neg hmulti] at h
        exact h
    next hlt =>
      rw [if_neg hlt]
      exact h

/-- **One field** that is there can be read, when its name does not point ahead and its blob is
not the empty rest of a record that ends at the cut. -/
theorem readField_take (hsize : content.length ≤ 65535) {w : RecordWindow}
    {f : Field} {r : FieldValue × UInt16} {n : Nat} (hin : d_pos.toNat ≤ w.stop)
    (h : readField content w d_pos f = .ok r)
    (hn : fieldSize content w.d_recordlen.toNat w.stop d_pos.toNat f = some n)
    (hend : d_pos.toNat + n ≤ m) (hcopy : f ≠ .copyTo 0)
    (hback : f = .label → PointsBack content d_pos.toNat n = true)
    (hrest : f = .restBlob → w.d_recordlen ≠ 0 → d_pos.toNat < m) :
    readField (content.take m) w d_pos f = .ok r := by
  have hpos : r.2.toNat = d_pos.toNat + n := by
    obtain ⟨n', hn', hr⟩ := readField_ok hsize hin h
    rw [hn] at hn'
    rwa [some.inj hn']
  cases f with
  | int k =>
    obtain ⟨v, hv, h⟩ := bind_ok h
    cases h
    rw [readField, readOctets_take hsize hv (by dsimp only at hpos; omega)]
    rfl
  | label =>
    obtain ⟨v, hv, h⟩ := bind_ok h
    cases h
    have hself : UInt16.ofNat d_pos.toNat = d_pos := UInt16.ofNat_toNat
    have hlabel := @getLabel_take content m d_pos.toNat n v (hback rfl) hend (by rw [hself]; exact hv)
    rw [hself] at hlabel
    rw [readField, hlabel]
    rfl
  | text multi =>
    obtain ⟨v, hv, h⟩ := bind_ok h
    cases h
    have htext : getText (content.take m) w multi d_pos = .ok v :=
      getTextFrom_take hsize hv (by dsimp only at hpos; omega)
    rw [readField, htext]
    rfl
  | restBlob =>
    obtain ⟨v, hv, h⟩ := bind_ok h
    cases h
    have hblob : xfrRestBlob (content.take m) w d_pos = .ok v := by
      unfold xfrRestBlob at hv ⊢
      split at hv
      next hlen =>
        obtain ⟨blob, hblob, hv⟩ := bind_ok hv
        have hstop : w.stop ≤ m := by
          have hsize' : n = w.stop - d_pos.toNat := (some.inj hn).symm
          omega
        rw [if_pos hlen, contentRange_take hblob (hrest rfl hlen) hstop]
        exact hv
      next hlen =>
        rw [if_neg hlen]
        exact hv
    rw [readField, hblob]
    rfl
  | sizedBlob k =>
    obtain ⟨len, hlen, h⟩ := bind_ok h
    obtain ⟨v, hv, h⟩ := bind_ok h
    cases h
    obtain ⟨hoctets, hlenpos⟩ := readOctets_ok hsize hlen
    have hk : n = k + beNat len.1 := by
      rw [hoctets]
      exact (some.inj hn).symm
    have hblob : xfrSizedBlob (content.take m) (beNat len.1) len.2 = .ok v := by
      unfold xfrSizedBlob at hv ⊢
      split at hv
      next hne =>
        obtain ⟨blob, hblob, hv⟩ := bind_ok hv
        rw [if_pos hne, contentRange_take hblob (by omega) (by omega)]
        exact hv
      next hne =>
        rw [if_neg hne]
        exact hv
    rw [readField, readOctets_take hsize hlen (by omega)]
    change (xfrSizedBlob (content.take m) (beNat len.1) len.2 >>= _) = _
    rw [hblob]
    rfl
  | copyTo len =>
    obtain ⟨v, hv, h⟩ := bind_ok h
    cases h
    have hlen : n = len := (some.inj hn).symm
    have hpositive : len ≠ 0 := fun h0 => hcopy (by rw [h0])
    have hcopied : copyRecordTo (content.take m) len d_pos = .ok v := by
      unfold copyRecordTo at hv ⊢
      split at hv
      next => cases hv
      next hfits =>
        obtain ⟨c, hc, hv⟩ := bind_ok hv
        cases hv
        rw [length_take, if_neg (by omega), contentAt_take hc (by omega)]
        change Except.ok _ = _
        rw [drop_take, take_take, Nat.min_eq_left (by omega)]
    rw [readField, hcopied]
    rfl
  | copyAll =>
    obtain ⟨v, hv, h⟩ := bind_ok h
    cases h
    rw [readField, readOctets_take hsize hv (by dsimp only at hpos; omega)]
    rfl

/-- **The fields of a record** that is there can be read, unless its rest is empty and looked for
at the cut. -/
theorem readFields_take (hsize : content.length ≤ 65535) {w : RecordWindow} {fs : List Field}
    {d_pos : UInt16} {r : List FieldValue × UInt16} (hin : d_pos.toNat ≤ w.stop)
    (h : readFields content w fs d_pos = .ok r)
    (htiles : Tiles content w.d_recordlen.toNat w.stop fs d_pos.toNat = true)
    (hback : FieldsPointBack content w.d_recordlen.toNat w.stop fs d_pos.toNat = true)
    (hcopy : .copyTo 0 ∉ fs) (hend : w.stop ≤ m)
    (hrest : w.stop = m → EmptyRest content w.d_recordlen.toNat w.stop fs d_pos.toNat = false) :
    readFields (content.take m) w fs d_pos = .ok r := by
  induction fs generalizing d_pos r with
  | nil => exact h
  | cons f fs ih =>
    obtain ⟨v, hv, h⟩ := bind_ok h
    obtain ⟨vs, hvs, h⟩ := bind_ok h
    cases h
    obtain ⟨n, hn, hpos⟩ := readField_ok hsize hin hv
    simp only [Tiles, hn, Bool.and_eq_true, decide_eq_true_eq] at htiles
    simp only [FieldsPointBack, hn, Bool.and_eq_true, Bool.or_eq_true, bne_iff_ne] at hback
    simp only [EmptyRest, hn, Bool.or_eq_false_iff] at hrest
    obtain ⟨hle, htiles⟩ := htiles
    have hfield : readField (content.take m) w d_pos f = .ok v := by
      refine readField_take hsize hin hv hn (hle.trans hend) ?_ ?_ ?_
      · rintro rfl
        exact hcopy mem_cons_self
      · exact fun hf => hback.1.resolve_left fun hne => hne hf
      · intro hf hlen
        -- an empty rest at the cut is excluded
        by_contra hge
        have hnone := (hrest (by omega)).1
        rw [hf] at hnone
        have hstop : d_pos.toNat = w.stop := by omega
        have hne : w.d_recordlen.toNat ≠ 0 := fun h0 => hlen (UInt16.toNat_inj.mp h0)
        simp [hstop, hne] at hnone
    rw [← hpos] at htiles hback hrest
    rw [readFields, hfield]
    change (readFields (content.take m) w fs v.2 >>= _) = _
    rw [ih (by omega) hvs htiles hback.2 (fun hmem => hcopy (mem_cons_of_mem _ hmem))
      fun hm => (hrest hm).2]
    rfl

/-- An empty rest at the cut runs out of octets. -/
theorem readFields_emptyRest (hsize : content.length ≤ 65535) {w : RecordWindow} {fs : List Field}
    {d_pos : UInt16} {r : List FieldValue × UInt16} (hin : d_pos.toNat ≤ w.stop)
    (h : readFields content w fs d_pos = .ok r)
    (htiles : Tiles content w.d_recordlen.toNat w.stop fs d_pos.toNat = true)
    (hcopy : ∀ len, .copyTo len ∉ fs) (hend : w.stop = m)
    (hrest : EmptyRest content w.d_recordlen.toNat w.stop fs d_pos.toNat = true) :
    readFields (content.take m) w fs d_pos = .error .outOfRange := by
  refine (cut_readFields content m w hcopy d_pos).resolve_left fun hsame => ?_
  rw [h] at hsame
  induction fs generalizing d_pos r with
  | nil => cases hrest
  | cons f fs ih =>
    obtain ⟨v, hv, h⟩ := bind_ok h
    obtain ⟨vs, hvs, h⟩ := bind_ok h
    cases h
    obtain ⟨v', hv', hsame⟩ := bind_ok hsame
    obtain ⟨vs', hvs', hsame⟩ := bind_ok hsame
    obtain rfl : v' = v := by
      have := (cut_readField content m w d_pos (fun len hf => hcopy len (hf ▸ mem_cons_self))).eq_of_ok hv'
      exact Except.ok.inj (this.symm.trans hv)
    obtain ⟨n, hn, hpos⟩ := readField_ok hsize hin hv
    simp only [Tiles, hn, Bool.and_eq_true, decide_eq_true_eq] at htiles
    simp only [EmptyRest, hn, Bool.or_eq_true, Bool.and_eq_true, beq_iff_eq, bne_iff_ne] at hrest
    rcases hrest with ⟨⟨rfl, hstop⟩, hlen⟩ | hrest
    · -- the first octet of the blob would be the one at the cut
      obtain ⟨b, hb, -⟩ := bind_ok hv'
      unfold xfrRestBlob at hb
      rw [if_pos fun h0 => hlen (by rw [h0]; rfl)] at hb
      obtain ⟨blob, hblob, -⟩ := bind_ok hb
      have hlt := (contentRange_ok hblob).1
      rw [length_take] at hlt
      omega
    · rw [← hpos] at htiles hrest
      have hvs'' : readFields (content.take m) w fs v'.2 = .ok vs := by
        obtain ⟨hvalues, hpos'⟩ := Prod.mk.inj (Except.ok.inj hsame)
        rw [hvs', Prod.ext (List.cons.inj hvalues).2 hpos']
      exact ih (by omega) hvs htiles.2 (fun len hmem => hcopy len (mem_cons_of_mem _ hmem)) hrest
        hvs''

end Whole

/-! ### Records -/

/-- The types that the program can register. -/
def Registered (types : TypeMap) : Prop :=
  ∀ t ∈ types, t ∈ reportBasicTypes ++ reportOtherTypes ++ reportFancyTypes

/-- Whether a field is a copy to a fixed buffer. -/
def Field.isCopyTo : Field → Bool
  | .copyTo _ => true
  | _ => false

/-- Only the content of AAAA records is copied to a fixed buffer. -/
theorem Registered.fields {types : TypeMap} (h : Registered types) (d_class d_type : UInt16) :
    (types.makerOf d_class d_type).fields = [.copyTo 16] ∨
      ∀ len, .copyTo len ∉ (types.makerOf d_class d_type).fields := by
  have hall : ∀ t ∈ reportBasicTypes ++ reportOtherTypes ++ reportFancyTypes,
      t.2.fields = [.copyTo 16] ∨ (t.2.fields.any Field.isCopyTo) = false := by
    decide
  unfold TypeMap.makerOf
  dsimp only
  split
  next t ht =>
    refine (hall t (h t (mem_of_find?_eq_some ht))).imp_right fun hnone len hmem => ?_
    have hany : t.2.fields.any Field.isCopyTo = true := any_eq_true.mpr ⟨.copyTo len, hmem, rfl⟩
    rw [hnone] at hany
    cases hany
  next =>
    refine .inr fun len hmem => ?_
    cases mem_singleton.mp hmem

section Records

variable {types : TypeMap} {content : Octets} {m : Nat}

variable {d_pos : UInt16} {v : List FieldValue × UInt16} {ah : DnsRecordHeader}

/-- Content that is made has passed its checks. -/
theorem mastermake_ok
    (h : mastermake types content ah d_pos = .ok v) :
    (types.makerOf ah.d_class ah.d_type).recordCheck ah.d_clen = none ∧
      readFields content ⟨d_pos, ah.d_clen⟩ (types.makerOf ah.d_class ah.d_type).fields d_pos = .ok v ∧
      (types.makerOf ah.d_class ah.d_type).contentCheck v.1 = none := by
  unfold mastermake at h
  dsimp only at h
  split at h
  next => cases h
  next hcheck =>
    obtain ⟨v', hv', h⟩ := bind_ok h
    split at h
    next => cases h
    next hcontent =>
      cases h
      exact ⟨hcheck, hv', hcontent⟩

variable {content' : Octets}

/-- Content whose checks are passed is made when its fields can be read. -/
theorem mastermake_of_readFields
    (h : mastermake types content ah d_pos = .ok v)
    (hv : readFields content' ⟨d_pos, ah.d_clen⟩ (types.makerOf ah.d_class ah.d_type).fields d_pos =
      .ok v) : mastermake types content' ah d_pos = .ok v := by
  obtain ⟨hcheck, -, hcontent⟩ := mastermake_ok h
  unfold mastermake
  dsimp only
  rw [hcheck, hv]
  dsimp only [bind, Except.bind]
  rw [hcontent]

/-- It throws what reading its fields throws. -/
theorem mastermake_of_error
    {e : ReadError} (h : mastermake types content ah d_pos = .ok v)
    (he : readFields content' ⟨d_pos, ah.d_clen⟩ (types.makerOf ah.d_class ah.d_type).fields d_pos =
      .error e) : mastermake types content' ah d_pos = .error e := by
  unfold mastermake
  dsimp only
  rw [(mastermake_ok h).1, he]
  rfl

/-- The parts of a record that was parsed at `d_pos`: its owner, of `own` octets, its header, and
its content. -/
structure Parsed (types : TypeMap) (content : Octets) (place : RecordPlace) (d_pos : UInt16)
    (r : DNSRecord × UInt16) (own : Nat) (label header : Octets × UInt16) : Prop where
  owner : getLabel content d_pos = .ok label
  owner_size : nameSize content d_pos.toNat = some own
  owner_end : label.2.toNat = d_pos.toNat + own
  octets : readOctets content 10 label.2 = .ok header
  rdata : header.2.toNat = d_pos.toNat + own + 10
  ofOctets : DnsRecordHeader.ofOctets header.1 = headerAt content (d_pos.toNat + own)
  made : mastermake types content (headerAt content (d_pos.toNat + own)) header.2 =
    .ok (r.1.d_content, r.2)
  record : r.1 =
    { d_label := label.1
      d_type := (headerAt content (d_pos.toNat + own)).d_type
      d_class := (headerAt content (d_pos.toNat + own)).d_class
      d_ttl := (headerAt content (d_pos.toNat + own)).d_ttl
      d_clen := (headerAt content (d_pos.toNat + own)).d_clen
      d_place := place
      d_content := r.1.d_content }

variable {r : DNSRecord × UInt16}

theorem exists_parsed (hsize : content.length ≤ 65535) {place : RecordPlace}
    (h : parseRecord types content place d_pos = .ok r) :
    ∃ own label header, Parsed types content place d_pos r own label header := by
  obtain ⟨label, hlabel, h⟩ := bind_ok h
  obtain ⟨header, hheader, h⟩ := bind_ok h
  obtain ⟨v, hv, h⟩ := bind_ok h
  obtain ⟨own, hown, hlabelpos⟩ := getLabelFromContent_ok hsize hlabel
  obtain ⟨hoctets, hheaderpos⟩ := readOctets_ok hsize hheader
  rw [hlabelpos] at hoctets hheaderpos
  have hat : DnsRecordHeader.ofOctets header.1 = headerAt content (d_pos.toNat + own) := by
    rw [hoctets]
    rfl
  rw [hat] at hv h
  cases h
  exact ⟨own, label, header, hlabel, hown, hlabelpos, hheader, hheaderpos, hat, hv, rfl⟩

/-- A record whose owner and header are read in the same way has the content that is made of
it. -/
theorem Parsed.parseRecord_eq {place : RecordPlace}
    {own : Nat} {label header : Octets × UInt16}
    (h : Parsed types content place d_pos r own label header)
    (hlabel : getLabel content' d_pos = .ok label)
    (hheader : readOctets content' 10 label.2 = .ok header) :
    parseRecord types content' place d_pos =
      mastermake types content' (headerAt content (d_pos.toNat + own)) header.2 >>= fun v =>
        .ok ({ r.1 with d_content := v.1 }, v.2) := by
  unfold parseRecord
  rw [hlabel]
  change (readOctets content' 10 label.2 >>= _) = _
  rw [hheader]
  change (mastermake types content' (DnsRecordHeader.ofOctets header.1) header.2 >>= _) = _
  rw [h.ofOctets, h.record]
  rfl

/-- The fields of the record whose owner ends at `p`. -/
def fieldsAt (types : TypeMap) (content : Octets) (p : Nat) : List Field :=
  (types.makerOf (headerAt content p).d_class (headerAt content p).d_type).fields

/-- The length of its rdata. -/
def clenAt (content : Octets) (p : Nat) : Nat := (headerAt content p).d_clen.toNat

/-- Where it ends. -/
def stopAt (content : Octets) (p : Nat) : Nat := p + 10 + clenAt content p

/-- Whether it ends in an empty rest. -/
def emptyRestAt (types : TypeMap) (content : Octets) (p : Nat) : Bool :=
  EmptyRest content (clenAt content p) (stopAt content p) (fieldsAt types content p) (p + 10)

/-- The record at `start`, with an owner of `own` octets, is framed, and its names do not point
ahead. -/
structure WellFormedAt (types : TypeMap) (content : Octets) (start own : Nat) : Prop where
  owner : PointsBack content start own = true
  tiles : Tiles content (clenAt content (start + own)) (stopAt content (start + own))
    (fieldsAt types content (start + own)) (start + own + 10) = true
  names : FieldsPointBack content (clenAt content (start + own)) (stopAt content (start + own))
    (fieldsAt types content (start + own)) (start + own + 10) = true

section Outcome

variable {place : RecordPlace} {d_pos : UInt16} {r : DNSRecord × UInt16} {own : Nat}
  {label header : Octets × UInt16}

/-- Where the rdata of the record ends by its header. -/
theorem Parsed.stop_eq (h : Parsed types content place d_pos r own label header) :
    RecordWindow.stop ⟨header.2, (headerAt content (d_pos.toNat + own)).d_clen⟩ =
      stopAt content (d_pos.toNat + own) := by
  unfold RecordWindow.stop stopAt clenAt
  rw [h.rdata]

/-- A record that is framed ends where its header says. -/
theorem Parsed.end_eq (hsize : content.length ≤ 65535)
    (h : Parsed types content place d_pos r own label header)
    (hwf : WellFormedAt types content d_pos.toNat own) :
    r.2.toNat = stopAt content (d_pos.toNat + own) := by
  have hfields := (mastermake_ok h.made).2.1
  have hiff := readFields_iff hsize (Nat.le_add_right _ _) hfields
  rw [h.stop_eq, h.rdata] at hiff
  exact (hiff.mpr hwf.tiles).2

/-- The owner and the header are read as they were when they are there. -/
theorem Parsed.front_take (hsize : content.length ≤ 65535)
    (h : Parsed types content place d_pos r own label header)
    (hwf : WellFormedAt types content d_pos.toNat own) (hm : d_pos.toNat + own + 10 ≤ m) :
    getLabel (content.take m) d_pos = .ok label ∧
      readOctets (content.take m) 10 label.2 = .ok header := by
  have hself : UInt16.ofNat d_pos.toNat = d_pos := UInt16.ofNat_toNat
  constructor
  · have hlabel := @getLabel_take content m d_pos.toNat own label hwf.owner (by omega)
      (by rw [hself]; exact h.owner)
    rwa [hself] at hlabel
  · exact readOctets_take hsize h.octets (by rw [h.rdata]; exact hm)

/-- When they are not, the octets run out. -/
theorem Parsed.front_short (hsize : content.length ≤ 65535)
    (h : Parsed types content place d_pos r own label header) (hpos : d_pos.toNat ≤ m)
    (hle : m ≤ content.length) (hm : m < d_pos.toNat + own + 10) :
    parseRecord types (content.take m) place d_pos = .error .outOfRange := by
  have htake : (content.take m).length = m := by
    rw [length_take, Nat.min_eq_left hle]
  unfold parseRecord
  rcases cut_getLabel content m d_pos with hlabel | hlabel
  · rw [hlabel, h.owner]
    change (readOctets (content.take m) 10 label.2 >>= _) = _
    rcases cut_readOctets content m 10 label.2 with hheader | hheader
    · -- the header would end behind the cut
      rw [h.owner] at hlabel
      rw [h.octets] at hheader
      have hlabelEnd := getLabel_end_le (by omega) (by omega) hlabel
      have hend := readOctets_end_le (by omega) hlabelEnd hheader
      rw [h.rdata] at hend
      omega
    · rw [hheader]
      rfl
  · rw [hlabel]
    rfl

/-- **A record that is there** is parsed as it was. -/
theorem Parsed.take (hsize : content.length ≤ 65535) (hreg : Registered types)
    (h : Parsed types content place d_pos r own label header)
    (hwf : WellFormedAt types content d_pos.toNat own)
    (hend : stopAt content (d_pos.toNat + own) ≤ m)
    (hrest : stopAt content (d_pos.toNat + own) = m →
      emptyRestAt types content (d_pos.toNat + own) = false) :
    parseRecord types (content.take m) place d_pos = .ok r := by
  have hfront : d_pos.toNat + own + 10 ≤ m := (Nat.le_add_right _ _).trans hend
  obtain ⟨hlabel, hheader⟩ := h.front_take hsize hwf hfront
  have hcopy : .copyTo 0 ∉ fieldsAt types content (d_pos.toNat + own) := by
    intro hmem
    rcases hreg.fields (headerAt content (d_pos.toNat + own)).d_class
      (headerAt content (d_pos.toNat + own)).d_type with heq | hnone
    · unfold fieldsAt at hmem
      rw [heq] at hmem
      simp at hmem
    · exact hnone 0 hmem
  have hfields := (mastermake_ok h.made).2.1
  have hread := @readFields_take content m hsize _ _ _ _ (Nat.le_add_right _ _) hfields
    (by rw [h.stop_eq, h.rdata]; exact hwf.tiles) (by rw [h.stop_eq, h.rdata]; exact hwf.names)
    hcopy (by rw [h.stop_eq]; exact hend) (by rw [h.stop_eq, h.rdata]; exact hrest)
  rw [h.parseRecord_eq hlabel hheader, mastermake_of_readFields h.made hread]
  rfl

/-- **A record with an empty rest at the cut** runs out of octets. -/
theorem Parsed.take_emptyRest (hsize : content.length ≤ 65535) (hreg : Registered types)
    (h : Parsed types content place d_pos r own label header)
    (hwf : WellFormedAt types content d_pos.toNat own)
    (hend : stopAt content (d_pos.toNat + own) = m)
    (hrest : emptyRestAt types content (d_pos.toNat + own) = true) :
    parseRecord types (content.take m) place d_pos = .error .outOfRange := by
  have hfront : d_pos.toNat + own + 10 ≤ m := (Nat.le_add_right _ _).trans hend.le
  obtain ⟨hlabel, hheader⟩ := h.front_take hsize hwf hfront
  have hcopy : ∀ len, .copyTo len ∉ fieldsAt types content (d_pos.toNat + own) := by
    rcases hreg.fields (headerAt content (d_pos.toNat + own)).d_class
      (headerAt content (d_pos.toNat + own)).d_type with heq | hnone
    · -- an address is no blob
      unfold emptyRestAt fieldsAt at hrest
      rw [heq] at hrest
      simp [EmptyRest, fieldSize] at hrest
    · exact hnone
  have hfields := (mastermake_ok h.made).2.1
  have hread := @readFields_emptyRest content m hsize _ _ _ _ (Nat.le_add_right _ _) hfields
    (by rw [h.stop_eq, h.rdata]; exact hwf.tiles) hcopy (by rw [h.stop_eq]; exact hend)
    (by rw [h.stop_eq, h.rdata]; exact hrest)
  rw [h.parseRecord_eq hlabel hheader, mastermake_of_error h.made hread]
  rfl

/-- **A record that is cut** runs out of octets, unless it is an AAAA record whose header is
there. -/
theorem Parsed.take_short (hsize : content.length ≤ 65535) (hreg : Registered types)
    (h : Parsed types content place d_pos r own label header)
    (hwf : WellFormedAt types content d_pos.toNat own) (hpos : d_pos.toNat ≤ m)
    (hle : m ≤ content.length) (hend : m < stopAt content (d_pos.toNat + own))
    (hcopy : fieldsAt types content (d_pos.toNat + own) = [.copyTo 16] →
      m < d_pos.toNat + own + 10) :
    parseRecord types (content.take m) place d_pos = .error .outOfRange := by
  by_cases hfront : m < d_pos.toNat + own + 10
  · exact h.front_short hsize hpos hle hfront
  · have hnone := (hreg.fields (headerAt content (d_pos.toNat + own)).d_class
      (headerAt content (d_pos.toNat + own)).d_type).resolve_left fun heq => hfront (hcopy heq)
    have htake : (content.take m).length = m := by
      rw [length_take, Nat.min_eq_left hle]
    obtain ⟨hlabel, hheader⟩ := h.front_take hsize hwf (not_lt.mp hfront)
    have hfields := (mastermake_ok h.made).2.1
    rw [h.parseRecord_eq hlabel hheader]
    rcases cut_readFields content m _ hnone _ with hsame | hout
    · -- the content would end behind the cut
      rw [hfields] at hsame
      have hstart : header.2.toNat ≤ (content.take m).length := by
        rw [h.rdata, htake]
        exact not_lt.mp hfront
      have hcontentEnd := readFields_end_le (by omega) hstart hstart hsame
      rw [h.end_eq hsize hwf, htake] at hcontentEnd
      omega
    · rw [mastermake_of_error h.made hout]
      rfl

/-- **An AAAA record** that is cut behind its header throws. -/
theorem Parsed.take_address (hsize : content.length ≤ 65535)
    (h : Parsed types content place d_pos r own label header)
    (hwf : WellFormedAt types content d_pos.toNat own)
    (hle : m ≤ content.length) (hfront : d_pos.toNat + own + 10 ≤ m)
    (hend : m < stopAt content (d_pos.toNat + own))
    (hcopy : fieldsAt types content (d_pos.toNat + own) = [.copyTo 16]) :
    parseRecord types (content.take m) place d_pos =
      .error (.moadns "Attempt to copy outside of packet") := by
  obtain ⟨hlabel, hheader⟩ := h.front_take hsize hwf hfront
  have htiles := hwf.tiles
  rw [hcopy] at htiles
  simp only [Tiles, fieldSize, Bool.and_eq_true, decide_eq_true_eq, beq_iff_eq] at htiles
  have hread : readFields (content.take m)
      ⟨header.2, (headerAt content (d_pos.toNat + own)).d_clen⟩
      (fieldsAt types content (d_pos.toNat + own)) header.2 =
        .error (.moadns "Attempt to copy outside of packet") := by
    rw [hcopy, readFields, readField]
    unfold copyRecordTo
    rw [length_take, Nat.min_eq_left hle, if_pos (by rw [h.rdata]; omega)]
    rfl
  rw [h.parseRecord_eq hlabel hheader, mastermake_of_error h.made hread]
  rfl

end Outcome

/-! ### Runs over the records -/

instance (types : TypeMap) (content : Octets) (start own : Nat) :
    Decidable (WellFormedAt types content start own) :=
  decidable_of_iff (PointsBack content start own = true ∧
    Tiles content (clenAt content (start + own)) (stopAt content (start + own))
      (fieldsAt types content (start + own)) (start + own + 10) = true ∧
    FieldsPointBack content (clenAt content (start + own)) (stopAt content (start + own))
      (fieldsAt types content (start + own)) (start + own + 10) = true)
    ⟨fun h => ⟨h.1, h.2.1, h.2.2⟩, fun h => ⟨h.owner, h.tiles, h.names⟩⟩

/-- The next `left` records are framed, one behind the other, and no name points ahead. -/
def RecordsWellFormed (types : TypeMap) (content : Octets) : Nat → Nat → Bool
  | 0, _ => true
  | left + 1, start =>
    match nameSize content start with
    | none => false
    | some own =>
      decide (WellFormedAt types content start own) &&
        RecordsWellFormed types content left (stopAt content (start + own))

/-- Cutting the content after `m` octets hits none of the next `left` records where it hurts: not
right behind an empty rest, and not behind the header of an AAAA record and before its end. -/
def SafeCut (types : TypeMap) (content : Octets) (m : Nat) : Nat → Nat → Bool
  | 0, _ => true
  | left + 1, start =>
    match nameSize content start with
    | none => true
    | some own =>
      if stopAt content (start + own) ≤ m then
        !(stopAt content (start + own) == m && emptyRestAt types content (start + own)) &&
          SafeCut types content m left (stopAt content (start + own))
      else fieldsAt types content (start + own) != [.copyTo 16] || decide (m < start + own + 10)

/-- The records that end in the first `m` octets. -/
def completeIn (m : Nat) (answers : List (DNSRecord × UInt16)) : List (DNSRecord × UInt16) :=
  answers.filter fun r => r.2.toNat ≤ m

variable {place : Nat → RecordPlace} {answers : List (DNSRecord × UInt16)} {left n : Nat}

/-- One turn of the loop over records that are all parsed. -/
theorem parseRecords_cons
    (h : parseRecords types content place (left + 1) n d_pos = (answers, none)) :
    ∃ r rest, answers = r :: rest ∧ parseRecord types content (place n) d_pos = .ok r ∧
      parseRecords types content place left (n + 1) r.2 = (rest, none) := by
  rw [parseRecords] at h
  cases hrecord : parseRecord types content (place n) d_pos with
  | error e =>
    rw [hrecord] at h
    cases h
  | ok r =>
    rw [hrecord] at h
    obtain ⟨hanswers, hnone⟩ := Prod.mk.inj h
    exact ⟨r, _, hanswers.symm, rfl, Prod.ext rfl hnone⟩

/-- Records that are framed end one behind the other. -/
theorem lt_of_mem_answers (hsize : content.length ≤ 65535)
    (h : parseRecords types content place left n d_pos = (answers, none))
    (hwf : RecordsWellFormed types content left d_pos.toNat = true)
    (hr : r ∈ answers) : d_pos.toNat < r.2.toNat := by
  induction left generalizing n d_pos answers with
  | zero =>
    cases h
    cases hr
  | succ left ih =>
    obtain ⟨r', rest, rfl, hrecord, hrest⟩ := parseRecords_cons h
    obtain ⟨own, label, header, hparsed⟩ := exists_parsed hsize hrecord
    simp only [RecordsWellFormed, hparsed.owner_size, Bool.and_eq_true, decide_eq_true_eq] at hwf
    have hend := hparsed.end_eq hsize hwf.1
    have hlt : d_pos.toNat < r'.2.toNat := by
      rw [hend]
      unfold stopAt
      omega
    rcases mem_cons.mp hr with rfl | hmem
    · exact hlt
    · exact hlt.trans (ih hrest (hend ▸ hwf.2) hmem)

/-- When the cut is before the end of the first record, no record ends in front of it. -/
theorem completeIn_eq_nil (hsize : content.length ≤ 65535)
    {rest : List (DNSRecord × UInt16)} {m : Nat}
    (hrest : parseRecords types content place left n r.2 = (rest, none))
    (hwf : RecordsWellFormed types content left r.2.toNat = true) (hm : m < r.2.toNat) :
    completeIn m (r :: rest) = [] := by
  unfold completeIn
  rw [filter_eq_nil_iff]
  intro r' hr'
  rcases mem_cons.mp hr' with rfl | hmem
  · simpa using hm
  · have hlt := lt_of_mem_answers hsize hrest hwf hmem
    simpa using hm.trans hlt

/-- **A safe cut.** The records in front of the cut are parsed as they were, and if there are
others the octets run out. -/
theorem parseRecords_safeCut (hsize : content.length ≤ 65535) (hreg : Registered types)
    (h : parseRecords types content place left n d_pos = (answers, none))
    (hwf : RecordsWellFormed types content left d_pos.toNat = true) (hpos : d_pos.toNat ≤ m)
    (hle : m ≤ content.length) (hsafe : SafeCut types content m left d_pos.toNat = true) :
    parseRecords types (content.take m) place left n d_pos =
      (completeIn m answers,
        if completeIn m answers = answers then none else some .outOfRange) := by
  induction left generalizing n d_pos answers with
  | zero =>
    cases h
    rfl
  | succ left ih =>
    obtain ⟨r, rest, rfl, hrecord, hrest⟩ := parseRecords_cons h
    obtain ⟨own, label, header, hparsed⟩ := exists_parsed hsize hrecord
    simp only [RecordsWellFormed, hparsed.owner_size, Bool.and_eq_true, decide_eq_true_eq] at hwf
    obtain ⟨hat, hwf⟩ := hwf
    have hend := hparsed.end_eq hsize hat
    simp only [SafeCut, hparsed.owner_size] at hsafe
    rw [← hend] at hwf
    split at hsafe
    next hin =>
      -- the record is there
      simp only [Bool.and_eq_true, Bool.not_eq_true', Bool.and_eq_false_iff, beq_eq_false_iff_ne]
        at hsafe
      have htake := hparsed.take hsize hreg hat hin
        fun heq => hsafe.1.resolve_left fun hne => hne heq
      rw [← hend] at hin
      have hrestTake := ih hrest hwf hin (hend ▸ hsafe.2)
      rw [parseRecords, htake]
      dsimp only
      rw [hrestTake]
      have hcons : completeIn m (r :: rest) = r :: completeIn m rest :=
        filter_cons_of_pos (by simpa using hin)
      rw [hcons]
      simp
    next hout =>
      simp only [Bool.or_eq_true, bne_iff_ne, decide_eq_true_eq] at hsafe
      have hshort := hparsed.take_short hsize hreg hat hpos hle (not_le.mp hout)
        fun heq => hsafe.resolve_left fun hne => hne heq
      rw [completeIn_eq_nil hsize hrest hwf (by rw [hend]; exact not_le.mp hout), parseRecords, hshort]
      rfl

/-- **Any other cut** makes the parser throw, or costs a record that is there. -/
theorem parseRecords_unsafeCut (hsize : content.length ≤ 65535) (hreg : Registered types)
    (h : parseRecords types content place left n d_pos = (answers, none))
    (hwf : RecordsWellFormed types content left d_pos.toNat = true)
    (hle : m ≤ content.length) (hbad : SafeCut types content m left d_pos.toNat = false) :
    (parseRecords types (content.take m) place left n d_pos).2 =
        some (.moadns "Attempt to copy outside of packet") ∨
      (parseRecords types (content.take m) place left n d_pos).1.length <
        (completeIn m answers).length := by
  induction left generalizing n d_pos answers with
  | zero => cases hbad
  | succ left ih =>
    obtain ⟨r, rest, rfl, hrecord, hrest⟩ := parseRecords_cons h
    obtain ⟨own, label, header, hparsed⟩ := exists_parsed hsize hrecord
    simp only [RecordsWellFormed, hparsed.owner_size, Bool.and_eq_true, decide_eq_true_eq] at hwf
    obtain ⟨hat, hwf⟩ := hwf
    have hend := hparsed.end_eq hsize hat
    simp only [SafeCut, hparsed.owner_size] at hbad
    rw [← hend] at hwf
    split at hbad
    next hin =>
      have hcons : completeIn m (r :: rest) = r :: completeIn m rest :=
        filter_cons_of_pos (by rw [hend]; simpa using hin)
      by_cases hrestAt : stopAt content (d_pos.toNat + own) = m ∧
          emptyRestAt types content (d_pos.toNat + own) = true
      · -- the record is there and is not found
        rw [hcons, parseRecords, hparsed.take_emptyRest hsize hreg hat hrestAt.1 hrestAt.2]
        exact .inr (Nat.succ_pos _)
      · have htake := hparsed.take hsize hreg hat hin
          fun heq => Bool.eq_false_of_not_eq_true fun ht => hrestAt ⟨heq, ht⟩
        have hlater : SafeCut types content m left r.2.toNat = false := by
          rw [hend]
          simp only [Bool.and_eq_false_iff, Bool.not_eq_false', Bool.and_eq_true, beq_iff_eq]
            at hbad
          exact hbad.resolve_left hrestAt
        rw [parseRecords, htake, hcons]
        exact (ih hrest hwf hlater).imp_right Nat.succ_lt_succ
    next hout =>
      simp only [Bool.or_eq_false_iff, bne_eq_false_iff_eq, decide_eq_false_iff_not, not_lt]
        at hbad
      rw [parseRecords, hparsed.take_address hsize hat hle hbad.2 (not_le.mp hout) hbad.1]
      exact .inl rfl

end Records

/-! ### The counts -/

/-- Of the first `k` records, the header puts so many into each section. -/
theorem countP_place (h : Dnsheader) (k : Nat) :
    ((List.range k).countP fun n => h.place n = .Answer) = min k h.ancount.toNat ∧
      ((List.range k).countP fun n => h.place n = .Nameserver) =
        min (k - h.ancount.toNat) h.nscount.toNat ∧
      ((List.range k).countP fun n => h.place n = .Additional) =
        k - h.ancount.toNat - h.nscount.toNat := by
  induction k with
  | zero => simp
  | succ k ih =>
    obtain ⟨han, hns, har⟩ := ih
    simp only [range_succ, countP_append, countP_singleton, han, hns, har]
    unfold Dnsheader.place
    by_cases hk : k < h.ancount.toNat
    · rw [if_pos hk]
      simp
      omega
    · rw [if_neg hk]
      by_cases hk' : k < h.ancount.toNat + h.nscount.toNat
      · rw [if_pos hk']
        simp
        omega
      · rw [if_neg hk']
        simp
        omega

/-- The counts of a truncated header are those of the records that were parsed. -/
theorem truncate_counts (h : Dnsheader) {k : Nat} (hk : k < h.recordCount) :
    (h.truncate k).ancount.toNat = min k h.ancount.toNat ∧
      (h.truncate k).nscount.toNat = min (k - h.ancount.toNat) h.nscount.toNat ∧
      (h.truncate k).arcount.toNat = k - h.ancount.toNat - h.nscount.toNat := by
  have han := h.ancount.toNat_lt
  have hns := h.nscount.toNat_lt
  have har := h.arcount.toNat_lt
  unfold Dnsheader.recordCount at hk
  unfold Dnsheader.truncate
  split
  next hlt =>
    refine ⟨?_, ?_, ?_⟩ <;> simp [UInt16.toNat_ofNat'] <;> omega
  next hge =>
    split
    next hlt => refine ⟨?_, ?_, ?_⟩ <;> simp [UInt16.toNat_ofNat'] <;> omega
    next hge' => refine ⟨?_, ?_, ?_⟩ <;> simp [UInt16.toNat_ofNat'] <;> omega

section Places

variable {types : TypeMap} {content : Octets}

/-- The records are put into the sections by their number. -/
theorem places_parseRecords (place : Nat → RecordPlace) (left n : Nat) (d_pos : UInt16) :
    (parseRecords types content place left n d_pos).1.map (fun r => r.1.d_place) =
      (List.range' n (parseRecords types content place left n d_pos).1.length).map place := by
  induction left generalizing n d_pos with
  | zero => rfl
  | succ left ih =>
    rw [parseRecords]
    cases hrecord : parseRecord types content (place n) d_pos with
    | error e => rfl
    | ok r =>
      have hplace : r.1.d_place = place n := by
        obtain ⟨label, -, h⟩ := bind_ok hrecord
        obtain ⟨header, -, h⟩ := bind_ok h
        obtain ⟨v, -, h⟩ := bind_ok h
        cases h
        rfl
      rw [map_cons, length_cons, range'_succ, map_cons, hplace, ih]

end Places

/-- The number of records of a section. -/
def placeCount (answers : List (DNSRecord × UInt16)) (place : RecordPlace) : Nat :=
  answers.countP fun r => r.1.d_place = place

/-- The header counts the records that were parsed, section by section. -/
def CountsMatch (p : MOADNSParser) : Prop :=
  p.d_header.ancount.toNat = placeCount p.d_answers .Answer ∧
    p.d_header.nscount.toNat = placeCount p.d_answers .Nameserver ∧
    p.d_header.arcount.toNat = placeCount p.d_answers .Additional

/-- The counts match when `k` records were parsed and the header is that of the packet, if `k` is
their number, or else truncated to `k`. -/
theorem countsMatch_of_places {h : Dnsheader} {p : MOADNSParser} {k : Nat} (hk : k ≤ h.recordCount)
    (hplaces : p.d_answers.map (fun r => r.1.d_place) = (List.range k).map h.place)
    (hheader : p.d_header = if k = h.recordCount then h else h.truncate k) : CountsMatch p := by
  have hcount : ∀ place, placeCount p.d_answers place =
      (List.range k).countP fun n => h.place n = place := by
    intro place
    have hmap := congrArg (List.countP fun x => decide (x = place)) hplaces
    rw [countP_map, countP_map] at hmap
    exact hmap
  obtain ⟨han, hns, har⟩ := countP_place h k
  unfold CountsMatch
  rw [hcount, hcount, hcount, han, hns, har, hheader]
  split
  next heq =>
    unfold Dnsheader.recordCount at heq
    omega
  next hne => exact truncate_counts h (Nat.lt_of_le_of_ne hk hne)

/-! ### Packets -/

/-- The names of `n` questions from `p` on do not point ahead. -/
def QuestionsPointBack (content : Octets) : Nat → Nat → Bool
  | 0, _ => true
  | n + 1, p =>
    match nameSize content p with
    | none => false
    | some own => PointsBack content p own && QuestionsPointBack content n (p + own + 4)

/-- Questions that are there are read as they were. -/
theorem readQuestions_take {content : Octets} {m : Nat} (hsize : content.length ≤ 65535) {n : Nat}
    {q r : (Octets × UInt16 × UInt16) × UInt16} (h : readQuestions content n q = .ok r)
    (hback : QuestionsPointBack content n q.2.toNat = true) (hle : r.2.toNat ≤ m) :
    readQuestions (content.take m) n q = .ok r ∧ q.2.toNat ≤ r.2.toNat := by
  induction n generalizing q with
  | zero =>
    cases h
    exact ⟨rfl, le_rfl⟩
  | succ n ih =>
    obtain ⟨label, hlabel, h⟩ := bind_ok h
    obtain ⟨qtype, hqtype, h⟩ := bind_ok h
    obtain ⟨qclass, hqclass, h⟩ := bind_ok h
    obtain ⟨own, hown, hlabelpos⟩ := getLabelFromContent_ok hsize hlabel
    have htypepos := (readOctets_ok hsize hqtype).2
    have hclasspos := (readOctets_ok hsize hqclass).2
    simp only [QuestionsPointBack, hown, Bool.and_eq_true] at hback
    have hnext : q.2.toNat + own + 4 = qclass.2.toNat := by omega
    rw [hnext] at hback
    obtain ⟨hrest, hbefore⟩ := ih h hback.2
    have hself : UInt16.ofNat q.2.toNat = q.2 := UInt16.ofNat_toNat
    have hname := @getLabel_take content m q.2.toNat own label hback.1 (by dsimp only at hbefore; omega)
      (by rw [hself]; exact hlabel)
    rw [hself] at hname
    dsimp only at hbefore
    refine ⟨?_, by omega⟩
    rw [readQuestions, hname]
    change (readOctets (content.take m) 2 label.2 >>= _) = _
    rw [readOctets_take hsize hqtype (by omega)]
    change (readOctets (content.take m) 2 qtype.2 >>= _) = _
    rw [readOctets_take hsize hqclass (by omega)]
    exact hrest

/-- What is left of a packet that is cut after `m` octets of its content. -/
def cutPacket (packet : Octets) (m : Nat) : Octets := packet.take (12 + m)

theorem packetContent_cutPacket {packet : Octets} {m : Nat} (hlen : ¬packet.length < 12)
    (hle : m ≤ (packetContent packet).length) :
    packetContent (cutPacket packet m) = (packetContent packet).take m := by
  have hcontent := length_packetContent packet
  unfold packetContent at hle hcontent ⊢
  rw [length_take, length_drop] at hle
  have hcut : (cutPacket packet m).length = 12 + m := by
    unfold cutPacket
    rw [length_take, Nat.min_eq_left (by omega)]
  rw [hcut, Nat.add_sub_cancel_left, Nat.mod_eq_of_lt (by omega), take_take,
    Nat.min_eq_left (by omega)]
  unfold cutPacket
  rw [drop_take, Nat.add_sub_cancel_left, take_take, Nat.min_self]

theorem ofPacket_cutPacket (packet : Octets) (m : Nat) :
    Dnsheader.ofPacket (cutPacket packet m) = Dnsheader.ofPacket packet := by
  have htwo : ∀ off, off ≤ 10 → ((cutPacket packet m).drop off).take 2 = (packet.drop off).take 2 := by
    intro off hoff
    unfold cutPacket
    rw [drop_take, take_take, Nat.min_eq_left (by omega)]
  have hflags : (cutPacket packet m).getD 2 0 = packet.getD 2 0 := by
    unfold cutPacket
    rw [getD_eq_getElem?_getD, getD_eq_getElem?_getD, getElem?_take, if_pos (by omega)]
  unfold Dnsheader.ofPacket
  rw [hflags, htwo 4 (by omega), htwo 6 (by omega), htwo 8 (by omega), htwo 10 (by omega)]

/-- A packet that is accepted with all its records. -/
structure Accepted (types : TypeMap) (packet : Octets) (p : MOADNSParser) : Prop where
  parsed : MOADNSParser.init types packet = .ok p
  whole : p.d_answers.length = (Dnsheader.ofPacket packet).recordCount

/-- How a packet is accepted: its questions and all its records are parsed. -/
theorem Accepted.loops {types : TypeMap} {packet : Octets} {p : MOADNSParser}
    (h : Accepted types packet p) :
    ¬packet.length < 12 ∧
      ¬((Dnsheader.ofPacket packet).opcode ≠ 0 ∧ (Dnsheader.ofPacket packet).opcode ≠ 4) ∧
      ∃ q, readQuestions (packetContent packet) (Dnsheader.ofPacket packet).qdcount.toNat
          (([], 0, 0), 0) = .ok q ∧
        parseRecords types (packetContent packet) (Dnsheader.ofPacket packet).place
          (Dnsheader.ofPacket packet).recordCount 0 q.2 = (p.d_answers, none) := by
  obtain ⟨hparsed, hwhole⟩ := h
  unfold MOADNSParser.init at hparsed
  dsimp only at hparsed
  split at hparsed
  next => cases hparsed
  next hlen =>
    split at hparsed
    next => cases hparsed
    next hopcode =>
      split at hparsed
      next => cases hparsed
      next => cases hparsed
      next q hq =>
        refine ⟨hlen, hopcode, q, hq, ?_⟩
        split at hparsed
        next answers hrecords =>
          cases hparsed
          exact hrecords
        next answers hrecords =>
          -- a truncated packet has fewer records than announced
          have hlt := @length_parseRecords types (packetContent packet)
            (Dnsheader.ofPacket packet).place (Dnsheader.ofPacket packet).recordCount 0 q.2
            (by rw [hrecords]; simp)
          rw [hrecords] at hlt
          split at hparsed
          next =>
            cases hparsed
            exact absurd hwhole (Nat.ne_of_lt hlt)
          next => cases hparsed
        next => cases hparsed

/-- The packet is accepted with all its records, it has the TC bit, its records are framed, and
no name points ahead. Its questions end at `start`. -/
structure WellFormed (types : TypeMap) (packet : Octets) (p : MOADNSParser) (start : Nat) : Prop
    extends Accepted types packet p where
  truncated : (Dnsheader.ofPacket packet).tc = true
  questions_end : questionsEnd (packetContent packet) (Dnsheader.ofPacket packet).qdcount.toNat 0 =
    some start
  questions : QuestionsPointBack (packetContent packet) (Dnsheader.ofPacket packet).qdcount.toNat 0 =
    true
  records : RecordsWellFormed types (packetContent packet) (Dnsheader.ofPacket packet).recordCount
    start = true

/-- The packet that is cut after `m` octets of its content is accepted, with the records that are
complete in it, and its header counts these. -/
def ParsedAsFar (types : TypeMap) (packet : Octets) (p : MOADNSParser) (m : Nat) : Prop :=
  ∃ p', MOADNSParser.init types (cutPacket packet m) = .ok p' ∧
    p'.d_answers = completeIn m p.d_answers ∧ CountsMatch p'

/-- The cut hits no record where it hurts. -/
def CutSafely (types : TypeMap) (packet : Octets) (start m : Nat) : Prop :=
  SafeCut types (packetContent packet) m (Dnsheader.ofPacket packet).recordCount start = true

section Cutting

variable {types : TypeMap} {packet : Octets} {p : MOADNSParser} {start m : Nat}

/-- What `init` makes of the packet that is cut behind its questions. -/
theorem WellFormed.init_cutPacket (h : WellFormed types packet p start) (hstart : start ≤ m)
    (hle : m ≤ (packetContent packet).length) :
    ∃ q : (Octets × UInt16 × UInt16) × UInt16, q.2.toNat = start ∧
      parseRecords types (packetContent packet) (Dnsheader.ofPacket packet).place
          (Dnsheader.ofPacket packet).recordCount 0 q.2 = (p.d_answers, none) ∧
      MOADNSParser.init types (cutPacket packet m) =
        match parseRecords types ((packetContent packet).take m) (Dnsheader.ofPacket packet).place
          (Dnsheader.ofPacket packet).recordCount 0 q.2 with
        | (answers, none) => .ok
          ⟨Dnsheader.ofPacket packet, q.1.1, q.1.2.1, q.1.2.2, answers, (packetContent packet).take m⟩
        | (answers, some .outOfRange) => .ok
          ⟨(Dnsheader.ofPacket packet).truncate answers.length, q.1.1, q.1.2.1, q.1.2.2, answers,
            (packetContent packet).take m⟩
        | (_, some e) => .error e := by
  have hsize := length_packetContent packet
  obtain ⟨hlen, hopcode, q, hq, hrecords⟩ := h.toAccepted.loops
  have hqstart : q.2.toNat = start := by
    have hend := readQuestions_ok hsize hq
    rw [show ((([], 0, 0), 0) : (Octets × UInt16 × UInt16) × UInt16).2.toNat = 0 from rfl,
      h.questions_end] at hend
    exact (some.inj hend).symm
  refine ⟨q, hqstart, hrecords, ?_⟩
  have hqcut := (readQuestions_take hsize hq h.questions (hqstart ▸ hstart)).1
  have hcutlen : ¬(cutPacket packet m).length < 12 := by
    unfold cutPacket
    rw [length_take]
    omega
  unfold MOADNSParser.init
  rw [ofPacket_cutPacket, packetContent_cutPacket hlen hle, if_neg hcutlen, if_neg hopcode, hqcut]
  rw [h.truncated]
  rfl

/-- The records that are complete are all records, or fewer. -/
theorem completeIn_eq_iff {m : Nat} {answers : List (DNSRecord × UInt16)} :
    completeIn m answers = answers ↔ (completeIn m answers).length = answers.length :=
  ⟨congrArg List.length, (filter_sublist (l := answers)).eq_of_length⟩

/-- **Truncated packets.** A well-formed packet with the TC bit that is cut behind its questions
is parsed as far as it goes if and only if the cut is neither behind the header of an AAAA record
and before its end, nor right behind a record that ends in an empty rest. -/
theorem truncated_parse_iff (hreg : Registered types) (h : WellFormed types packet p start)
    (hstart : start ≤ m) (hle : m ≤ (packetContent packet).length) :
    ParsedAsFar types packet p m ↔ CutSafely types packet start m := by
  have hsize := length_packetContent packet
  obtain ⟨q, hq, hrecords, hinit⟩ := h.init_cutPacket hstart hle
  have hwf := h.records
  rw [← hq] at hwf
  unfold CutSafely
  constructor
  · rintro ⟨p', hp', hanswers, -⟩
    by_contra hbad
    rw [Bool.not_eq_true, ← hq] at hbad
    rw [hinit] at hp'
    rcases parseRecords_unsafeCut hsize hreg hrecords hwf hle hbad with hthrow | hshort
    · -- the parser throws
      split at hp'
      next answers heq =>
        rw [heq] at hthrow
        cases hthrow
      next answers heq =>
        rw [heq] at hthrow
        cases hthrow
      next => cases hp'
    · -- a record that is there is missing
      have hfew : p'.d_answers.length < (completeIn m p.d_answers).length := by
        split at hp'
        next answers heq =>
          cases hp'
          rwa [heq] at hshort
        next answers heq =>
          cases hp'
          rwa [heq] at hshort
        next => cases hp'
      exact absurd (congrArg List.length hanswers) (Nat.ne_of_lt hfew)
  · intro hsafe
    rw [← hq] at hsafe hstart
    have hcut := parseRecords_safeCut hsize hreg hrecords hwf hstart hle hsafe
    have hplaces := @places_parseRecords types ((packetContent packet).take m)
      (Dnsheader.ofPacket packet).place (Dnsheader.ofPacket packet).recordCount 0 q.2
    rw [hcut, ← range_eq_range'] at hplaces
    have hcount : (completeIn m p.d_answers).length ≤ (Dnsheader.ofPacket packet).recordCount := by
      rw [← h.whole]
      exact length_filter_le _ _
    rw [hcut] at hinit
    by_cases hall : completeIn m p.d_answers = p.d_answers
    · -- only octets behind the last record are cut off
      rw [if_pos hall] at hinit
      refine ⟨_, hinit, rfl, countsMatch_of_places hcount hplaces ?_⟩
      rw [if_pos (by rw [hall, h.whole])]
    · rw [if_neg hall] at hinit
      refine ⟨_, hinit, rfl, countsMatch_of_places hcount hplaces ?_⟩
      rw [if_neg fun heq => hall (completeIn_eq_iff.mpr (heq.trans h.whole.symm))]

end Cutting

/-- A truncated reply to `. A`, with the addresses 192.0.2.1 and 2001:db8::1 of `.`. -/
def truncatedReply : Octets :=
  [0, 0, 0x82, 0, 0, 1, 0, 2, 0, 0, 0, 0] ++
    [0, 0, 1, 0, 1] ++
    [0, 0, 1, 0, 1, 0, 0, 0, 60, 0, 4, 192, 0, 2, 1] ++
    [0, 0, 28, 0, 1, 0, 0, 0, 60, 0, 16,
      0x20, 1, 0xd, 0xb8, 0, 0, 0, 0, 0, 0, 0, 0, 0, 0, 0, 1]

theorem truncatedReply_wellFormed :
    ∃ p, WellFormed reportAllTypes truncatedReply p 5 := by
  have haccepted : (MOADNSParser.init reportAllTypes truncatedReply).toOption.any
      (fun p => p.d_answers.length == (Dnsheader.ofPacket truncatedReply).recordCount) = true := by
    decide
  obtain ⟨p, hp, hlen⟩ := (any_eq_true _ _).mp haccepted
  exact ⟨p, ⟨eq_ok_of_toOption hp, beq_iff_eq.mp hlen⟩, by decide, by decide,
    by decide, by decide⟩

theorem reportAllTypes_registered : Registered reportAllTypes :=
  fun _ ht => mem_append_left _ ht

/-- Cut inside the header of its second record, the reply is parsed as far as it goes. -/
theorem truncatedReply_parsed :
    ∃ p, WellFormed reportAllTypes truncatedReply p 5 ∧
      ParsedAsFar reportAllTypes truncatedReply p 25 := by
  obtain ⟨p, hp⟩ := truncatedReply_wellFormed
  exact ⟨p, hp, (truncated_parse_iff reportAllTypes_registered hp (by decide) (by decide)).mpr
    (by unfold CutSafely; decide)⟩

/-- **A cut address.** Cut behind four octets of the address in its second record, the reply is
not accepted: the parser throws. -/
theorem truncatedReply_throws :
    ∃ p, WellFormed reportAllTypes truncatedReply p 5 ∧
      MOADNSParser.init reportAllTypes (cutPacket truncatedReply 35) =
        .error (.moadns "Attempt to copy outside of packet") ∧
      ¬ParsedAsFar reportAllTypes truncatedReply p 35 := by
  obtain ⟨p, hp⟩ := truncatedReply_wellFormed
  have hthrow : MOADNSParser.init reportAllTypes (cutPacket truncatedReply 35) =
      .error (.moadns "Attempt to copy outside of packet") := by
    decide
  refine ⟨p, hp, hthrow, ?_⟩
  rintro ⟨p', hp', -⟩
  cases hp'

end PowerDNS
