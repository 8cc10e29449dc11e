import PowerDNS.Packet.PacketAging
import PowerDNS.Packet.TornNames
import PowerDNS.Packet.UnknownRecords

/-!
# The octets behind the fields of a record

A record class reads its content field by field. Where the last field is the rest of the record, the octets of the
fields are the rdata, one behind the other: a number with so many octets, a name with its labels or a pointer, a blob
with its length in front of it (`rawFields_of_mastermake`).
-/

namespace PowerDNS

open List

/-! ### From one position to another -/

/-- The octets `raw` stand in the packet from `frompos` up to `d_pos`. -/
def Spans (content : Octets) (frompos : UInt16) (raw : Octets) (d_pos : UInt16) : Prop :=
  content.drop frompos.toNat = raw ++ content.drop d_pos.toNat ∧ d_pos.toNat = frompos.toNat + raw.length

section Spanning

variable {content : Octets} {frompos d_pos : UInt16} {raw : Octets}

theorem Spans.append {d_pos' : UInt16} {raw' : Octets} (h : Spans content frompos raw d_pos)
    (h' : Spans content d_pos raw' d_pos') : Spans content frompos (raw ++ raw') d_pos' := by
  refine ⟨by rw [h.1, h'.1, append_assoc], ?_⟩
  rw [h'.2, h.2, length_append, Nat.add_assoc]

theorem Spans.take (h : Spans content frompos raw d_pos) :
    (content.drop frompos.toNat).take raw.length = raw := by
  rw [h.1, take_left]

/-- The slice that begins at a position. -/
theorem spans_of_take {n : Nat} (hraw : raw = (content.drop frompos.toNat).take n)
    (hpos : d_pos.toNat = frompos.toNat + n) (hlength : raw.length = n) : Spans content frompos raw d_pos := by
  refine ⟨?_, by rw [hpos, hlength]⟩
  rw [hraw, hpos, ← drop_drop, take_append_drop]

theorem spans_readOctets (hsize : content.length ≤ 65535) {n : Nat} {r : Octets × UInt16}
    (h : readOctets content n frompos = .ok r) : Spans content frompos r.1 r.2 ∧ r.1.length = n := by
  obtain ⟨hraw, hpos⟩ := readOctets_ok hsize h
  have hlength := UnknownRecordContent.length_readOctets h
  exact ⟨spans_of_take hraw hpos hlength, hlength⟩

/-- One octet. -/
theorem spans_contentAt (hsize : content.length ≤ 65535) {c : UInt8} (h : contentAt content frompos = .ok c) :
    Spans content frompos [c] (frompos + 1) := by
  have hlt := contentAt_lt h
  have hget := (List.getElem?_eq_some_iff.mp (contentAt_ok h)).2
  have hpos := toNat_succ hsize hlt
  refine ⟨?_, hpos⟩
  rw [hpos, drop_eq_getElem_cons hlt, hget]
  rfl

/-- **The octets of a name**, up to where the reader goes on. -/
theorem spans_rawLabels (hsize : content.length ≤ 65535) {fuel recurs : Nat} {r : List Octets × UInt16}
    (h : rawLabels content fuel frompos recurs = .ok r) : ∃ raw, RawName r.1 raw ∧ Spans content frompos raw r.2 := by
  induction fuel generalizing frompos recurs r with
  | zero => cases h
  | succ fuel ih =>
    rw [rawLabels] at h
    split at h
    next => cases h
    next =>
      obtain ⟨labellen, hlen, h⟩ := bind_ok h
      have hhead := spans_contentAt hsize hlen
      split at h
      next hzero =>
        cases h
        rw [hzero] at hhead
        exact ⟨[0], .whole, hhead⟩
      next hzero =>
        split at h
        next hptr =>
          obtain ⟨lo, hlo, h⟩ := bind_ok h
          obtain ⟨rest, -, h⟩ := bind_ok h
          cases h
          have hpointer := hhead.append (spans_contentAt hsize hlo)
          rw [UInt16.add_assoc] at hpointer
          exact ⟨[labellen, lo], @RawName.pointed _ [] labellen lo (forall_mem_nil _) ((and_c0_iff _).mp hptr),
            hpointer⟩
        next hptr =>
          obtain ⟨l, hl, h⟩ := bind_ok h
          obtain ⟨rest, hrest, h⟩ := bind_ok h
          cases h
          rw [readRawOctets_eq] at hl
          obtain ⟨hspans, hlength⟩ := spans_readOctets hsize hl
          obtain ⟨raw, hraw, hbehind⟩ := ih hrest
          have hwhole := (hhead.append hspans).append hbehind
          have hfirst : labellen = UInt8.ofNat l.1.length := by rw [hlength, UInt8.ofNat_toNat]
          have hle := hptr
          rw [and_c0_iff, UInt8.le_iff_toNat_le] at hle
          have hmax : (192 : UInt8).toNat = 192 := rfl
          refine ⟨_, ?_, hwhole⟩
          rw [hfirst]
          cases hraw with
          | whole => exact .whole
          | @pointed front hi lo hfront hhi =>
            have hfront' : [UInt8.ofNat l.1.length] ++ l.1 ++ (labelOctets front ++ [hi, lo]) =
                labelOctets (l.1 :: front) ++ [hi, lo] := by
              rw [labelOctets_cons, ← append_assoc, append_assoc [_]]
              rfl
            rw [hfront']
            refine @RawName.pointed _ (l.1 :: front) hi lo (forall_mem_cons.mpr ⟨⟨?_, ?_⟩, hfront⟩) hhi
            · intro hnil
              rw [hnil] at hlength
              exact hzero (UInt8.toNat_inj.mp hlength.symm)
            · omega

end Spanning

/-! ### Fields -/

/-- A field, what is read for it, and its octets. -/
inductive RawField : Field → FieldValue → Octets → Prop
  | int {n : Nat} {raw : Octets} (hlength : raw.length = n) : RawField (.int n) (.int (beNat raw)) raw
  | label {ls : List Octets} {raw : Octets} (hls : ∀ l ∈ ls, l ≠ [] ∧ l.length ≤ 191) (hraw : RawName ls raw) :
      RawField .label (.octets (readText [] ls)) raw
  | sizedBlob {blob : Octets} (hlength : blob.length < 256) :
      RawField (.sizedBlob 1) (.octets blob) (UInt8.ofNat blob.length :: blob)
  | restBlob {blob : Octets} : RawField .restBlob (.octets blob) blob

/-- Fields one behind the other. -/
inductive RawFields : List Field → List FieldValue → Octets → Prop
  | nil : RawFields [] [] []
  | cons {f : Field} {fs : List Field} {v : FieldValue} {vs : List FieldValue} {raw raws : Octets}
      (hfirst : RawField f v raw) (hrest : RawFields fs vs raws) : RawFields (f :: fs) (v :: vs) (raw ++ raws)

namespace RawFields

variable {fs : List Field} {values : List FieldValue} {raw : Octets}

/-! What the first field is. -/

theorem int_cons {n : Nat} (h : RawFields (.int n :: fs) values raw) : ∃ (octets : Octets) (vs : List FieldValue)
    (raws : Octets), octets.length = n ∧ RawFields fs vs raws ∧ values = .int (beNat octets) :: vs ∧
      raw = octets ++ raws := by
  cases h with
  | cons hfirst hrest =>
    cases hfirst with
    | int hlength => exact ⟨_, _, _, hlength, hrest, rfl, rfl⟩

theorem label_cons (h : RawFields (.label :: fs) values raw) : ∃ (ls : List Octets) (octets : Octets)
    (vs : List FieldValue) (raws : Octets), (∀ l ∈ ls, l ≠ [] ∧ l.length ≤ 191) ∧ RawName ls octets ∧
      RawFields fs vs raws ∧ values = .octets (readText [] ls) :: vs ∧ raw = octets ++ raws := by
  cases h with
  | cons hfirst hrest =>
    cases hfirst with
    | label hls hraw => exact ⟨_, _, _, _, hls, hraw, hrest, rfl, rfl⟩

theorem sizedBlob_cons (h : RawFields (.sizedBlob 1 :: fs) values raw) : ∃ (blob : Octets) (vs : List FieldValue)
    (raws : Octets), blob.length < 256 ∧ RawFields fs vs raws ∧ values = .octets blob :: vs ∧
      raw = [UInt8.ofNat blob.length] ++ (blob ++ raws) := by
  cases h with
  | cons hfirst hrest =>
    cases hfirst with
    | sizedBlob hlength => exact ⟨_, _, _, hlength, hrest, rfl, rfl⟩

theorem restBlob_only (h : RawFields [.restBlob] values raw) : values = [.octets raw] := by
  cases h with
  | cons hfirst hrest =>
    cases hfirst with
    | restBlob =>
      cases hrest with
      | nil => rw [append_nil]

end RawFields

/-- The fields that are looked at here. -/
def Field.isRaw : Field → Bool
  | .int _ | .label | .sizedBlob 1 | .restBlob => true
  | _ => false

section Reading

variable {content : Octets} {w : RecordWindow} {d_pos : UInt16}

/-- The rest of the record reaches to its end. -/
theorem spans_restBlob (hsize : content.length ≤ 65535) (hlen : w.d_recordlen ≠ 0) {r : Octets × UInt16}
    (h : xfrRestBlob content w d_pos = .ok r) : Spans content d_pos r.1 r.2 ∧ r.2.toNat = w.stop := by
  unfold xfrRestBlob at h
  rw [if_pos hlen] at h
  obtain ⟨blob, hblob, h⟩ := bind_ok h
  cases h
  obtain ⟨hfirst, hle, hstop⟩ := contentRange_ok hblob
  have hend : (w.d_startrecordpos + w.d_recordlen).toNat = w.stop := toNat_add (by
    change w.stop < 65536
    omega)
  have hslice : blob = (content.drop d_pos.toNat).take (w.stop - d_pos.toNat) := by
    unfold contentRange at hblob
    rw [if_neg (by omega), if_neg (by omega)] at hblob
    exact (Except.ok.inj hblob).symm
  refine ⟨spans_of_take hslice ?_ ?_, hend⟩
  · dsimp only
    omega
  · rw [hslice, length_take, length_drop]
    omega

theorem spans_sizedBlob (hsize : content.length ≤ 65535) {length : Nat} {r : Octets × UInt16}
    (h : xfrSizedBlob content length d_pos = .ok r) : Spans content d_pos r.1 r.2 ∧ r.1.length = length := by
  unfold xfrSizedBlob at h
  split at h
  next hne =>
    obtain ⟨blob, hblob, h⟩ := bind_ok h
    cases h
    obtain ⟨hfirst, hle, hstop⟩ := contentRange_ok hblob
    have hof : (UInt16.ofNat length).toNat = length := by
      rw [UInt16.toNat_ofNat']
      omega
    have hslice : blob = (content.drop d_pos.toNat).take length := by
      unfold contentRange at hblob
      rw [if_neg (by omega), if_neg (by omega), Nat.add_sub_cancel_left] at hblob
      exact (Except.ok.inj hblob).symm
    have hlength : blob.length = length := by
      rw [hslice, length_take, length_drop]
      omega
    refine ⟨spans_of_take hslice ?_ hlength, hlength⟩
    rw [toNat_add (by omega), hof]
  next hzero =>
    cases h
    exact ⟨⟨rfl, rfl⟩, (not_not.mp hzero).symm⟩

/-- **A field and its octets.** Of a record without octets nothing is the rest. -/
theorem rawField_of_readField (hsize : content.length ≤ 65535) {f : Field} {v : FieldValue × UInt16}
    (hraw : f.isRaw = true) (h : readField content w d_pos f = .ok v) : ∃ raw, RawField f v.1 raw ∧
      (w.d_recordlen ≠ 0 → Spans content d_pos raw v.2 ∧ (f = .restBlob → v.2.toNat = w.stop)) ∧
      (w.d_recordlen = 0 → f = .restBlob → v.1 = .octets []) := by
  cases f with
  | int n =>
    obtain ⟨r, hr, h⟩ := bind_ok h
    cases h
    obtain ⟨hspans, hlength⟩ := spans_readOctets hsize hr
    exact ⟨r.1, .int hlength, fun _ => ⟨hspans, fun heq => nomatch heq⟩, fun _ heq => nomatch heq⟩
  | label =>
    obtain ⟨r, hr, h⟩ := bind_ok h
    cases h
    unfold getLabel at hr
    rw [getLabelFromContent_eq] at hr
    cases hlabels : rawLabels content labelFuel d_pos 0 with
    | error e =>
      rw [hlabels] at hr
      cases hr
    | ok labels =>
      rw [hlabels] at hr
      cases hr
      obtain ⟨raw, hname, hspans⟩ := spans_rawLabels hsize hlabels
      exact ⟨raw, .label (length_rawLabels hlabels) hname, fun _ => ⟨hspans, fun heq => nomatch heq⟩,
        fun _ heq => nomatch heq⟩
  | restBlob =>
    obtain ⟨r, hr, h⟩ := bind_ok h
    cases h
    refine ⟨r.1, .restBlob, fun hlen => ?_, fun hzero _ => ?_⟩
    · obtain ⟨hspans, hstop⟩ := spans_restBlob hsize hlen hr
      exact ⟨hspans, fun _ => hstop⟩
    · unfold xfrRestBlob at hr
      rw [if_neg (not_not.mpr hzero)] at hr
      cases hr
      rfl
  | sizedBlob n =>
    obtain rfl : n = 1 := by
      unfold Field.isRaw at hraw
      split at hraw <;> grind
    obtain ⟨len, hr, h⟩ := bind_ok h
    obtain ⟨r, hblob, h⟩ := bind_ok h
    cases h
    obtain ⟨hspans, hone⟩ := spans_readOctets hsize hr
    obtain ⟨hbehind, hlength⟩ := spans_sizedBlob hsize hblob
    obtain ⟨c, hc⟩ := length_eq_one_iff.mp hone
    rw [hc] at hspans hlength
    have hvalue : r.1.length = c.toNat := by
      rw [hlength]
      exact Nat.zero_add _
    have hfirst : c = UInt8.ofNat r.1.length := by rw [hvalue, UInt8.ofNat_toNat]
    have hwhole := hspans.append hbehind
    rw [hfirst] at hwhole
    exact ⟨_, .sizedBlob (hvalue ▸ c.toNat_lt), fun _ => ⟨hwhole, fun heq => nomatch heq⟩, fun _ heq => nomatch heq⟩
  | text multi => cases hraw
  | copyTo len => cases hraw
  | copyAll => cases hraw

theorem rawFields_of_readFields (hsize : content.length ≤ 65535) {fs : List Field} {r : List FieldValue × UInt16}
    (hraw : fs.all Field.isRaw = true) (h : readFields content w fs d_pos = .ok r) : ∃ raw, RawFields fs r.1 raw ∧
      (w.d_recordlen ≠ 0 → Spans content d_pos raw r.2 ∧ (fs.getLast? = some .restBlob → r.2.toNat = w.stop)) ∧
      (w.d_recordlen = 0 → fs.getLast? = some .restBlob → r.1.getLast? = some (.octets [])) := by
  induction fs generalizing d_pos r with
  | nil =>
    cases h
    exact ⟨[], .nil, fun _ => ⟨⟨rfl, rfl⟩, fun hlast => nomatch hlast⟩, fun _ hlast => nomatch hlast⟩
  | cons f fs ih =>
    obtain ⟨v, hv, h⟩ := bind_ok h
    obtain ⟨vs, hvs, h⟩ := bind_ok h
    cases h
    rw [all_cons, Bool.and_eq_true] at hraw
    obtain ⟨raw, hfirst, hlong, hzero⟩ := rawField_of_readField hsize hraw.1 hv
    obtain ⟨raws, hrest, hlongs, hzeros⟩ := ih hraw.2 hvs
    refine ⟨raw ++ raws, .cons hfirst hrest, fun hlen => ⟨(hlong hlen).1.append (hlongs hlen).1, fun hlast => ?_⟩,
      fun hlen hlast => ?_⟩
    · cases fs with
      | nil =>
        cases hvs
        exact (hlong hlen).2 (Option.some.inj hlast)
      | cons f' fs => exact (hlongs hlen).2 hlast
    · cases fs with
      | nil =>
        cases hvs
        exact congrArg some (hzero hlen (Option.some.inj hlast))
      | cons f' fs =>
        have hbehind := hzeros hlen hlast
        rw [getLast?_cons, hbehind]
        rfl

/-- **The rdata of a record are the octets of its fields**, when its last field is what is left of it. -/
theorem rawFields_of_mastermake (hsize : content.length ≤ 65535) {types : TypeMap} {ah : DnsRecordHeader}
    (hraw : (types.makerOf ah.d_class ah.d_type).fields.all Field.isRaw = true)
    (hlast : (types.makerOf ah.d_class ah.d_type).fields.getLast? = some .restBlob) {r : List FieldValue × UInt16}
    (h : mastermake types content ah d_pos = .ok r) : ∃ raw,
      RawFields (types.makerOf ah.d_class ah.d_type).fields r.1 raw ∧
      (types.makerOf ah.d_class ah.d_type).contentCheck r.1 = none ∧
      (ah.d_clen ≠ 0 → raw = (content.drop d_pos.toNat).take ah.d_clen.toNat) ∧
      (ah.d_clen = 0 → r.1.getLast? = some (.octets [])) := by
  unfold mastermake at h
  dsimp only at h
  split at h
  next => cases h
  next =>
    obtain ⟨vs, hvs, h⟩ := bind_ok h
    split at h
    next => cases h
    next hcheck =>
      cases h
      obtain ⟨raw, hfields, hlong, hzero⟩ := rawFields_of_readFields hsize hraw hvs
      refine ⟨raw, hfields, hcheck, fun hlen => ?_, fun hlen => hzero hlen hlast⟩
      obtain ⟨hspans, hstop⟩ := hlong hlen
      have hlength : raw.length = ah.d_clen.toNat := by
        have hend := hstop hlast
        rw [hspans.2] at hend
        exact Nat.add_left_cancel hend
      rw [← hlength, hspans.take]

end Reading

end PowerDNS
