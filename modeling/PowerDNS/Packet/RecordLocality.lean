import PowerDNS.Packet.DecodeEncode
import PowerDNS.Packet.Truncation

/-!
# What the content of a record depends on

The readers of record content work on the whole packet. How far they go is a matter of the octets they find,
and only some of them look at where the rdata ends. So a content may depend on octets behind its record.

A content is *local* (`LocalRecord`) when every packet with the same octets in the rdata, and the same octets
where the compression pointers lead, gives the same content or the same failure. `record_local_iff` says that
this is so when every field that is read ends within the rdata, and when the reader is not asked for the rest
of an rdata of which nothing is left (`RecordFits`). Where the pointers lead back and the content is read,
nothing else will do: such a packet, cut off behind the record, is not read in the same way.

The second condition is about `xfrBlob`, which takes the address of the first octet of the rest even when
there is none, and so asks for an octet behind the record.
-/

namespace PowerDNS

open List Option UInt8 UInt16 Bool

/-! ### The octets that a record refers to -/

/-- The positions that `getLabelFromContent` looks at. -/
def labelReads (content : Octets) : Nat → UInt16 → Nat → List Nat
  | 0, _, _ => []
  | fuel + 1, frompos, recurs =>
    if recurs > 10 then []
    else frompos.toNat ::
      match contentAt content frompos with
      | .error _ => []
      | .ok labellen =>
        if labellen = 0 then []
        else if labellen &&& 0xc0 = 0xc0 then
          (frompos + 1).toNat ::
            match contentAt content (frompos + 1) with
            | .error _ => []
            | .ok lo =>
              labelReads content fuel (256 * (labellen &&& 0x3f).toUInt16 + lo.toUInt16 - 12) (recurs + 1)
        else
          (List.range labellen.toNat).map (fun i => (frompos + 1 + UInt16.ofNat i).toNat) ++
            match readRawOctets content labellen.toNat (frompos + 1) with
            | .error _ => []
            | .ok l => labelReads content fuel l.2 recurs

/-- The positions that the pointer of a name leads to. -/
def pointedAt (content : Octets) : Nat → UInt16 → List Nat
  | 0, _ => []
  | fuel + 1, frompos =>
    match contentAt content frompos with
    | .error _ => []
    | .ok labellen =>
      if labellen = 0 then []
      else if labellen &&& 0xc0 = 0xc0 then
        match contentAt content (frompos + 1) with
        | .error _ => []
        | .ok lo => labelReads content fuel (256 * (labellen &&& 0x3f).toUInt16 + lo.toUInt16 - 12) 1
      else
        match readRawOctets content labellen.toNat (frompos + 1) with
        | .error _ => []
        | .ok l => pointedAt content fuel l.2

/-- The positions that the pointers of the names among some fields lead to. -/
def fieldsPointedAt (content : Octets) (w : RecordWindow) : List Field → UInt16 → List Nat
  | [], _ => []
  | f :: fs, d_pos =>
    (if f = .label then pointedAt content labelFuel d_pos else []) ++
      match readField content w d_pos f with
      | .error _ => []
      | .ok v => fieldsPointedAt content w fs v.2

section Local

variable (types : TypeMap) (content : Octets) (ah : DnsRecordHeader) (d_pos : UInt16)

/-- The octets in the packet that the compression pointers of a record refer to, by their positions. -/
def recordPointedAt : List Nat :=
  fieldsPointedAt content ⟨d_pos, ah.d_clen⟩ (types.makerOf ah.d_class ah.d_type).fields d_pos

/-- Two packets have the same octets from `first` to `last`. -/
def SameWithin (content content' : Octets) (first last : Nat) : Prop :=
  ∀ p, first ≤ p → p < last → content'[p]? = content[p]?

/-- The content of a record, or the failure to read it, is settled by the rdata and the octets that its
pointers refer to. -/
def LocalRecord : Prop :=
  ∀ content' : Octets, content'.length ≤ 65535 →
    SameWithin content content' d_pos.toNat (d_pos.toNat + ah.d_clen.toNat) →
    (∀ p ∈ recordPointedAt types content ah d_pos, content'[p]? = content[p]?) →
    (mastermake types content' ah d_pos).map Prod.fst = (mastermake types content ah d_pos).map Prod.fst

/-- The readers that take the address of an octet even when there is none to be read. -/
def takesAddress (w : RecordWindow) : Field → Bool
  | .restBlob => w.d_recordlen != 0
  | .copyTo _ => true
  | _ => false

/-- A field ends within the rdata; and where an address is taken, something is left of the rdata. -/
def FieldFits (w : RecordWindow) (d_pos : UInt16) (f : Field) : Prop :=
  (∃ n, fieldSize content w.d_recordlen.toNat w.stop d_pos.toNat f = some n ∧ d_pos.toNat + n ≤ w.stop) ∧
    (takesAddress w f = true → d_pos.toNat < w.stop)

/-- Every field fits, as far as fields are read. -/
def FieldsFit (w : RecordWindow) : List Field → UInt16 → Prop
  | [], _ => True
  | f :: fs, d_pos =>
    FieldFits content w d_pos f ∧ ∀ v, readField content w d_pos f = .ok v → FieldsFit w fs v.2

/-- **Records that fit**: once the check of its length is passed, every field of a record does. -/
def RecordFits : Prop :=
  (types.makerOf ah.d_class ah.d_type).recordCheck ah.d_clen = none →
    FieldsFit content ⟨d_pos, ah.d_clen⟩ (types.makerOf ah.d_class ah.d_type).fields d_pos

end Local

/-! ### Reading the same octets -/

section Same

variable {content content' : Octets} {first last : Nat}

theorem SameWithin.mono (h : SameWithin content content' first last) {first' last' : Nat}
    (hfirst : first ≤ first') (hlast : last' ≤ last) : SameWithin content content' first' last' :=
  fun p hp hp' => h p (hfirst.trans hp) (hp'.trans_le hlast)

variable {d_pos : UInt16}

theorem contentAt_same (h : content'[d_pos.toNat]? = content[d_pos.toNat]?) :
    contentAt content' d_pos = contentAt content d_pos := by
  unfold contentAt
  rw [h]

/-- Octets that are the same, in a packet that holds them. -/
theorem SameWithin.length_le (h : SameWithin content content' first last) (hlt : first < last)
    (hlast : last ≤ content.length) : last ≤ content'.length := by
  have hget := h (last - 1) (by omega) (by omega)
  rw [getElem?_eq_getElem (by omega : last - 1 < content.length)] at hget
  have hbound := (List.getElem?_eq_some_iff.mp hget).1
  omega

theorem toNat_succ_lt {last : Nat} (hlast : last ≤ 65535) (h : d_pos.toNat < last) :
    (d_pos + 1).toNat = d_pos.toNat + 1 :=
  toNat_add (show d_pos.toNat + 1 < 65536 by omega)

/-- The octets of a label, by their positions. -/
theorem readRawOctets_reads {n : Nat} {frompos : UInt16}
    (h : ∀ i < n, content'[(frompos + UInt16.ofNat i).toNat]? = content[(frompos + UInt16.ofNat i).toNat]?) :
    readRawOctets content' n frompos = readRawOctets content n frompos := by
  induction n generalizing frompos with
  | zero => rfl
  | succ n ih =>
    have hhead := h 0 (Nat.succ_pos n)
    rw [show frompos + UInt16.ofNat 0 = frompos from add_zero frompos] at hhead
    have hrest : readRawOctets content' n (frompos + 1) = readRawOctets content n (frompos + 1) := by
      refine ih fun i hi => ?_
      have hnext := h (i + 1) (Nat.succ_lt_succ hi)
      rwa [Nat.add_comm, UInt16.ofNat_add, ← UInt16.add_assoc] at hnext
    rw [readRawOctets, readRawOctets, contentAt_same hhead, hrest]

theorem readRawOctets_pos {n : Nat} {frompos : UInt16} {r : Octets × UInt16}
    (h : readRawOctets content n frompos = .ok r) : r.2 = frompos + UInt16.ofNat n := by
  induction n generalizing frompos r with
  | zero =>
    cases h
    exact (add_zero frompos).symm
  | succ n ih =>
    obtain ⟨c, -, h⟩ := bind_ok h
    obtain ⟨rest, hrest, h⟩ := bind_ok h
    cases h
    rw [Nat.add_comm n, UInt16.ofNat_add, ← UInt16.add_assoc]
    change rest.2 = frompos + 1 + UInt16.ofNat n
    exact ih hrest

theorem readRawOctets_same (hlast : last ≤ 65535) {n : Nat} {frompos : UInt16}
    (hin : frompos.toNat + n ≤ last) (h : SameWithin content content' frompos.toNat last) :
    readRawOctets content' n frompos = readRawOctets content n frompos := by
  refine readRawOctets_reads fun i hi => ?_
  have hnat : (UInt16.ofNat i).toNat = i := by
    rw [UInt16.toNat_ofNat']
    omega
  rw [toNat_add (by omega), hnat]
  exact h _ (Nat.le_add_right _ _) (by omega)

theorem readOctets_same (hlast : last ≤ 65535) {n : Nat} (hin : d_pos.toNat + n ≤ last)
    (h : SameWithin content content' d_pos.toNat last) :
    readOctets content' n d_pos = readOctets content n d_pos := by
  rw [← readRawOctets_eq, ← readRawOctets_eq]
  exact readRawOctets_same hlast hin h

/-- A name, by the positions that are looked at. -/
theorem rawLabels_reads {fuel : Nat} {frompos : UInt16} {recurs : Nat}
    (h : ∀ p ∈ labelReads content fuel frompos recurs, content'[p]? = content[p]?) :
    rawLabels content' fuel frompos recurs = rawLabels content fuel frompos recurs := by
  induction fuel generalizing frompos recurs with
  | zero => rfl
  | succ fuel ih =>
    rw [labelReads] at h
    rw [rawLabels, rawLabels]
    split
    next => rfl
    next hrecurs =>
      rw [if_neg hrecurs] at h
      obtain ⟨hhead, h⟩ := forall_mem_cons.mp h
      rw [contentAt_same hhead]
      cases hlen : contentAt content frompos with
      | error e => rfl
      | ok labellen =>
        simp only [hlen] at h
        simp only [bind, Except.bind]
        split
        next => rfl
        next hzero =>
          rw [if_neg hzero] at h
          split
          next hptr =>
            rw [if_pos hptr] at h
            obtain ⟨hlo, h⟩ := forall_mem_cons.mp h
            rw [contentAt_same hlo]
            cases hlook : contentAt content (frompos + 1) with
            | error e => rfl
            | ok lo =>
              simp only [hlook] at h
              simp only [ih h]
          next hptr =>
            rw [if_neg hptr] at h
            obtain ⟨hlabel, h⟩ := forall_mem_append.mp h
            rw [readRawOctets_reads fun i hi => hlabel _ (mem_map.mpr ⟨i, mem_range.mpr hi, rfl⟩)]
            cases hread : readRawOctets content labellen.toNat (frompos + 1) with
            | error e => rfl
            | ok l =>
              simp only [hread] at h
              simp only [ih h]

theorem length_of_nameSizeFrom {skip n : Nat} {l : Octets} (h : nameSizeFrom skip l = some n) :
    skip ≤ l.length := by
  induction skip generalizing l n with
  | zero => exact Nat.zero_le _
  | succ skip ih =>
    cases l with
    | nil => cases h
    | cons c t =>
      obtain ⟨k, hk, -⟩ := map_eq_some_iff.mp h
      exact Nat.succ_le_succ (ih hk)

/-- **A name, by the octets it takes and those its pointer leads to.** -/
theorem rawLabels_same (hlast : last ≤ content.length) (hsize : content.length ≤ 65535) {fuel n : Nat}
    {frompos : UInt16} (hn : nameSize content frompos.toNat = some n) (hin : frompos.toNat + n ≤ last)
    (h : SameWithin content content' frompos.toNat last)
    (hpointed : ∀ p ∈ pointedAt content fuel frompos, content'[p]? = content[p]?) :
    rawLabels content' fuel frompos 0 = rawLabels content fuel frompos 0 := by
  induction fuel generalizing frompos n with
  | zero => rfl
  | succ fuel ih =>
    have hlt : frompos.toNat < content.length := by
      by_contra hnot
      unfold nameSize at hn
      rw [drop_eq_nil_of_le (Nat.not_lt.mp hnot)] at hn
      cases hn
    have hdrop := drop_eq_getElem_cons hlt
    have hget : contentAt content frompos = .ok content[frompos.toNat] := by
      unfold contentAt
      rw [getElem?_eq_getElem hlt]
    generalize content[frompos.toNat] = c at hdrop hget
    have hsize' : nameSizeFrom 0 (c :: content.drop (frompos.toNat + 1)) = some n := by
      rw [← hdrop]
      exact hn
    rw [nameSizeFrom] at hsize'
    rw [pointedAt, hget] at hpointed
    have hpos : 0 < n := by
      split at hsize'
      · cases hsize'
        exact Nat.one_pos
      · split at hsize'
        · split at hsize'
          · cases hsize'
          · cases hsize'
            exact Nat.two_pos
        · obtain ⟨k, -, rfl⟩ := map_eq_some_iff.mp hsize'
          exact Nat.succ_pos k
    have hsucc := toNat_succ_lt (show last ≤ 65535 by omega) (show frompos.toNat < last by omega)
    rw [rawLabels, rawLabels, contentAt_same (h _ (Nat.le_refl _) (by omega)), hget]
    simp only [bind, Except.bind]
    dsimp only at hpointed
    split
    next => rfl
    next =>
      split
      next => rfl
      next hzero =>
        rw [if_neg hzero] at hsize' hpointed
        split
        next hptr =>
          -- the two octets of a pointer belong to the name
          rw [if_pos hptr] at hpointed
          rw [if_pos ((and_c0_iff c).mp hptr)] at hsize'
          split at hsize'
          next => cases hsize'
          next =>
            obtain rfl := some.inj hsize'
            rw [contentAt_same (h (frompos + 1).toNat (by omega) (by omega))]
            cases hlook : contentAt content (frompos + 1) with
            | error e => rfl
            | ok lo =>
              rw [hlook] at hpointed
              simp only [rawLabels_reads hpointed]
        next hptr =>
          rw [if_neg hptr] at hpointed
          have hnot : ¬192 ≤ c := fun hle => hptr ((and_c0_iff c).mpr hle)
          rw [if_neg hnot] at hsize'
          obtain ⟨k, hk, rfl⟩ := map_eq_some_iff.mp hsize'
          have hlabel := length_of_nameSizeFrom hk
          rw [nameSizeFrom_skip hlabel, drop_drop] at hk
          obtain ⟨n', hn', rfl⟩ := map_eq_some_iff.mp hk
          rw [readRawOctets_same (show last ≤ 65535 by omega) (by omega) (h.mono (by omega) (Nat.le_refl _))]
          cases hread : readRawOctets content c.toNat (frompos + 1) with
          | error e => rfl
          | ok l =>
            rw [hread] at hpointed
            have hend : l.2.toNat = frompos.toNat + 1 + c.toNat := by
              have hnat : (UInt16.ofNat c.toNat).toNat = c.toNat := by
                rw [UInt16.toNat_ofNat']
                omega
              rw [readRawOctets_pos hread, toNat_add (by omega), hnat, hsucc]
            have hrest := @ih n' l.2 (by rw [hend]; exact hn') (by omega) (h.mono (by omega) (Nat.le_refl _))
              hpointed
            simp only [hrest]

/-- A range of octets that are there. -/
theorem contentRange_same {a b : Nat} (hlast : last ≤ content.length) (ha : a < last) (hb : b ≤ last)
    (h : SameWithin content content' a last) : contentRange content' a b = contentRange content a b := by
  have hlast' := h.length_le ha hlast
  unfold contentRange
  rw [if_neg (show ¬(content'.length ≤ a ∨ content'.length ≤ b - 1) by omega),
    if_neg (show ¬(content.length ≤ a ∨ content.length ≤ b - 1) by omega)]
  split
  · rfl
  · refine congrArg Except.ok (ext_getElem? fun i => ?_)
    rw [getElem?_take, getElem?_take]
    split
    next hi =>
      rw [getElem?_drop, getElem?_drop]
      exact h (a + i) (Nat.le_add_right _ _) (by omega)
    next => rfl

/-- One string of a text. -/
theorem textOctets_same (hstop : last ≤ content.length) (hsize : content.length ≤ 65535) {d_pos : UInt16}
    {len : UInt8} (hin : d_pos.toNat + (1 + len.toNat) ≤ last)
    (h : SameWithin content content' d_pos.toNat last) :
    textOctets content' (d_pos + 1) len = textOctets content (d_pos + 1) len ∧
      (d_pos + 1 + len.toUInt16).toNat = d_pos.toNat + (1 + len.toNat) := by
  have hsucc := toNat_succ_lt (show last ≤ 65535 by omega) (show d_pos.toNat < last by omega)
  constructor
  · unfold textOctets
    split
    next => rfl
    next hzero =>
      have hpos : 0 < len.toNat := Nat.pos_of_ne_zero fun h0 => hzero (UInt8.toNat_inj.mp h0)
      exact contentRange_same hstop (by omega) (by omega) (h.mono (by omega) (Nat.le_refl _))
  · rw [toNat_add (by rw [toNat_toUInt16]; omega), hsucc, toNat_toUInt16]
    omega

/-- The strings of a text that ends in time. -/
theorem getTextFrom_same (hstop : last ≤ content.length) (hsize : content.length ≤ 65535) {multi : Bool}
    {fuel enough n : Nat} {d_pos : UInt16} (ret : Octets)
    (hn : if multi then textsSize content last enough d_pos.toNat = some n
      else fieldSize content 0 last d_pos.toNat (.text false) = some n)
    (hin : d_pos.toNat + n ≤ last) (h : SameWithin content content' d_pos.toNat last) :
    getTextFrom content' last multi fuel d_pos ret = getTextFrom content last multi fuel d_pos ret := by
  induction fuel generalizing enough n d_pos ret with
  | zero => rfl
  | succ fuel ih =>
    rw [getTextFrom, getTextFrom]
    split
    next hlt =>
      rw [contentAt_same (h _ (Nat.le_refl _) hlt)]
      have hthere : d_pos.toNat < content.length := by omega
      have hget : content[d_pos.toNat]? = some content[d_pos.toNat] := getElem?_eq_getElem hthere
      generalize content[d_pos.toNat] = len at hget
      have hlen : contentAt content d_pos = .ok len := by
        unfold contentAt
        rw [hget]
      rw [hlen]
      simp only [bind, Except.bind]
      cases multi with
      | false =>
        rw [if_neg Bool.false_ne_true, fieldSize, if_pos hlt, hget] at hn
        obtain rfl := some.inj hn
        rw [(textOctets_same hstop hsize hin h).1]
        simp only [false_eq_true, if_false]
      | true =>
        cases enough with
        | zero =>
          cases hn
        | succ enough =>
          rw [if_pos rfl, textsSize, if_pos hlt, hget] at hn
          have hnext : (textsSize content last enough (d_pos.toNat + (1 + len.toNat))).bind
              (fun k => some (1 + len.toNat + k)) = some n := hn
          obtain ⟨k, hk, hnext⟩ := bind_eq_some_iff.mp hnext
          obtain rfl := some.inj hnext
          obtain ⟨hval, hend⟩ := @textOctets_same _ content' _ hstop hsize d_pos len (by omega) h
          rw [hval]
          have hrest := fun ret => @ih enough k (d_pos + 1 + len.toUInt16) ret
            (by rw [if_pos rfl, hend]; exact hk) (by omega) (h.mono (by omega) (Nat.le_refl _))
          simp only [hrest]
    next => rfl

/-- **A field that fits** is read from the rdata, and where its pointers lead. -/
theorem readField_same {w : RecordWindow} (hstop : w.stop ≤ content.length) (hsize : content.length ≤ 65535)
    {f : Field} (hfits : FieldFits content w d_pos f)
    (h : SameWithin content content' d_pos.toNat w.stop)
    (hpointed : f = .label → ∀ p ∈ pointedAt content labelFuel d_pos, content'[p]? = content[p]?) :
    readField content' w d_pos f = readField content w d_pos f := by
  obtain ⟨⟨n, hn, hin⟩, haddress⟩ := hfits
  have hlast : w.stop ≤ 65535 := hstop.trans hsize
  cases f with
  | int k =>
    obtain rfl := Option.some.inj hn
    rw [readField, readField, readOctets_same hlast hin h]
  | label =>
    have hlabels := rawLabels_same hstop hsize hn hin h (hpointed rfl)
    rw [readField, readField]
    unfold getLabel
    rw [getLabelFromContent_eq, getLabelFromContent_eq, hlabels]
  | text multi =>
    rw [readField, readField]
    unfold getText
    cases multi with
    | false =>
      rw [@getTextFrom_same content content' w.stop hstop hsize false textFuel 0 n d_pos []
        (by rw [if_neg Bool.false_ne_true]; exact hn) hin h]
    | true =>
      rw [@getTextFrom_same content content' w.stop hstop hsize true textFuel _ n d_pos []
        (by rw [if_pos rfl]; exact hn) hin h]
  | restBlob =>
    rw [readField, readField]
    unfold xfrRestBlob
    split
    next hlen =>
      rw [contentRange_same hstop (haddress (bne_iff_ne.mpr hlen)) (Nat.le_refl _) h]
    next => rfl
  | sizedBlob k =>
    obtain rfl := Option.some.inj hn
    rw [readField, readField, readOctets_same hlast (by omega) h]
    cases hlen : readOctets content k d_pos with
    | error e => rfl
    | ok len =>
      obtain ⟨hoctets, hend⟩ := readOctets_ok hsize hlen
      rw [← hoctets] at hin
      simp only [bind, Except.bind]
      have hblob : xfrSizedBlob content' (beNat len.1) len.2 = xfrSizedBlob content (beNat len.1) len.2 := by
        unfold xfrSizedBlob
        split
        next hne =>
          rw [contentRange_same hstop (by omega) (by omega) (h.mono (by omega) (Nat.le_refl _))]
        next => rfl
      rw [hblob]
  | copyTo len =>
    obtain rfl := Option.some.inj hn
    have hlt := haddress rfl
    have hstop' := h.length_le hlt hstop
    rw [readField, readField]
    unfold copyRecordTo
    rw [if_neg (by omega), if_neg (by omega), contentAt_same (h _ (Nat.le_refl _) hlt)]
    have hoctets : (content'.drop d_pos.toNat).take len = (content.drop d_pos.toNat).take len := by
      refine ext_getElem? fun i => ?_
      rw [getElem?_take, getElem?_take]
      split
      next hi =>
        rw [getElem?_drop, getElem?_drop]
        exact h _ (Nat.le_add_right _ _) (by omega)
      next => rfl
    rw [hoctets]
  | copyAll =>
    obtain rfl := Option.some.inj hn
    rw [readField, readField, readOctets_same hlast hin h]

theorem readFields_same {w : RecordWindow} (hstop : w.stop ≤ content.length) (hsize : content.length ≤ 65535)
    {fs : List Field} (hin : d_pos.toNat ≤ w.stop) (hfits : FieldsFit content w fs d_pos)
    (h : SameWithin content content' d_pos.toNat w.stop)
    (hpointed : ∀ p ∈ fieldsPointedAt content w fs d_pos, content'[p]? = content[p]?) :
    readFields content' w fs d_pos = readFields content w fs d_pos := by
  induction fs generalizing d_pos with
  | nil => rfl
  | cons f fs ih =>
    obtain ⟨hfirst, hrest⟩ := hfits
    obtain ⟨hhere, hlater⟩ := forall_mem_append.mp hpointed
    have hfield := readField_same hstop hsize hfirst h fun hlabel => by
      rw [if_pos hlabel] at hhere
      exact hhere
    rw [readFields, readFields, hfield]
    cases hread : readField content w d_pos f with
    | error e => rfl
    | ok v =>
      rw [hread] at hlater
      -- the next field begins further on in the rdata
      obtain ⟨n, hn, hend⟩ := readField_ok hsize hin hread
      obtain ⟨⟨n', hn', hle⟩, -⟩ := hfirst
      rw [hn] at hn'
      obtain rfl := some.inj hn'
      have hnext := ih (show v.2.toNat ≤ w.stop by omega) (hrest v hread) (h.mono (by omega) (Nat.le_refl _))
        hlater
      simp only [bind, Except.bind, hnext]

end Same

/-! ### Reading up to the end of the record -/

section Cut

variable {content : Octets} {w : RecordWindow}

/-- A field that is read from the packet, and from the packet up to the end of the record, fits. -/
theorem fieldFits_of_take (hstop : w.stop ≤ content.length) (hsize : content.length ≤ 65535) {d_pos : UInt16}
    {f : Field} {v v' : FieldValue × UInt16} (hin : d_pos.toNat ≤ w.stop)
    (hv : readField content w d_pos f = .ok v) (hv' : readField (content.take w.stop) w d_pos f = .ok v') :
    FieldFits content w d_pos f ∧ v'.2 = v.2 ∧ v.2.toNat ≤ w.stop := by
  have hlength : (content.take w.stop).length = w.stop := by
    rw [length_take, Nat.min_eq_left hstop]
  have hstart : w.d_startrecordpos.toNat ≤ w.stop := Nat.le_add_right _ _
  have hend := readField_end_le (by omega) (by omega : w.d_startrecordpos.toNat ≤ (content.take w.stop).length)
    (by omega) hv'
  have hsame : v'.2 = v.2 := by
    by_cases hcopy : ∃ len, f = .copyTo len
    · obtain ⟨len, rfl⟩ := hcopy
      -- both go on behind the copy
      have hmove : ∀ {packet : Octets} {v : FieldValue × UInt16},
          readField packet w d_pos (.copyTo len) = .ok v → v.2 = d_pos + UInt16.ofNat len := by
        intro packet v h
        obtain ⟨r, hr, h⟩ := bind_ok h
        cases h
        unfold copyRecordTo at hr
        split at hr
        next => cases hr
        next =>
          obtain ⟨_, _, hr⟩ := bind_ok hr
          cases hr
          rfl
      rw [hmove hv, hmove hv']
    · rw [not_exists] at hcopy
      have hwhole := (cut_readField content w.stop w d_pos hcopy).eq_of_ok hv'
      rw [hv] at hwhole
      rw [Except.ok.inj hwhole]
  rw [hsame, hlength] at hend
  refine ⟨⟨?_, fun haddress => ?_⟩, hsame, hend⟩
  · obtain ⟨n, hn, hpos⟩ := readField_ok hsize hin hv
    exact ⟨n, hn, by omega⟩
  · cases f with
    | restBlob =>
      obtain ⟨r, hr, -⟩ := bind_ok hv'
      unfold xfrRestBlob at hr
      rw [if_pos (bne_iff_ne.mp haddress)] at hr
      obtain ⟨blob, hblob, -⟩ := bind_ok hr
      exact hlength ▸ (contentRange_ok hblob).1
    | copyTo len =>
      obtain ⟨r, hr, -⟩ := bind_ok hv'
      unfold copyRecordTo at hr
      split at hr
      next => cases hr
      next =>
        obtain ⟨c, hc, -⟩ := bind_ok hr
        exact hlength ▸ contentAt_lt hc
    | int k => cases haddress
    | label => cases haddress
    | text multi => cases haddress
    | sizedBlob k => cases haddress
    | copyAll => cases haddress

theorem fieldsFit_of_take (hstop : w.stop ≤ content.length) (hsize : content.length ≤ 65535) {fs : List Field}
    {d_pos : UInt16} {r r' : List FieldValue × UInt16} (hin : d_pos.toNat ≤ w.stop)
    (hr : readFields content w fs d_pos = .ok r)
    (hr' : readFields (content.take w.stop) w fs d_pos = .ok r') : FieldsFit content w fs d_pos := by
  induction fs generalizing d_pos r r' with
  | nil => trivial
  | cons f fs ih =>
    obtain ⟨v, hv, hr⟩ := bind_ok hr
    obtain ⟨vs, hvs, -⟩ := bind_ok hr
    obtain ⟨v', hv', hr'⟩ := bind_ok hr'
    obtain ⟨vs', hvs', -⟩ := bind_ok hr'
    obtain ⟨hfits, hsame, hend⟩ := fieldFits_of_take hstop hsize hin hv hv'
    refine ⟨hfits, fun v'' hv'' => ?_⟩
    rw [hv] at hv''
    obtain rfl := Except.ok.inj hv''
    rw [hsame] at hvs'
    exact ih hend hvs hvs'

end Cut

section Records

variable {types : TypeMap} {content : Octets} {ah : DnsRecordHeader} {d_pos : UInt16}

/-- **Locality of record parsing**, for every type and every rdata in a packet: a record that fits is local.
When it is read, and its pointers do not lead beyond it, it is local only if it fits. -/
theorem record_local_iff (hsize : content.length ≤ 65535)
    (hrdata : d_pos.toNat + ah.d_clen.toNat ≤ content.length) :
    (RecordFits types content ah d_pos → LocalRecord types content ah d_pos) ∧
      ((∃ r, mastermake types content ah d_pos = .ok r) →
        (∀ p ∈ recordPointedAt types content ah d_pos, p < d_pos.toNat + ah.d_clen.toNat) →
        (LocalRecord types content ah d_pos ↔ RecordFits types content ah d_pos)) := by
  have hlocal : RecordFits types content ah d_pos → LocalRecord types content ah d_pos := by
    intro hfits content' _ hsame hpointed
    unfold mastermake
    dsimp only
    cases hcheck : (types.makerOf ah.d_class ah.d_type).recordCheck ah.d_clen with
    | some text => rfl
    | none =>
      have hstop : RecordWindow.stop ⟨d_pos, ah.d_clen⟩ ≤ content.length := hrdata
      rw [readFields_same hstop hsize (Nat.le_add_right _ _) (hfits hcheck) hsame hpointed]
  refine ⟨hlocal, fun ⟨r, hr⟩ hback => ⟨fun h hcheck => ?_, hlocal⟩⟩
  -- the packet up to the end of the record
  have htake : (mastermake types (content.take (d_pos.toNat + ah.d_clen.toNat)) ah d_pos).map Prod.fst =
      (mastermake types content ah d_pos).map Prod.fst := by
    refine h _ ?_ ?_ ?_
    · rw [length_take]
      omega
    · intro p _ hp
      rw [getElem?_take, if_pos hp]
    · intro p hp
      rw [getElem?_take, if_pos (hback p hp)]
  rw [hr] at htake
  cases hr' : mastermake types (content.take (d_pos.toNat + ah.d_clen.toNat)) ah d_pos with
  | error e =>
    rw [hr'] at htake
    cases htake
  | ok r' =>
    exact fieldsFit_of_take (show RecordWindow.stop ⟨d_pos, ah.d_clen⟩ ≤ content.length from hrdata) hsize
      (Nat.le_add_right _ _) (mastermake_ok hr).2.1 (mastermake_ok hr').2.1

/-- The mail exchanger `a.`, by a pointer to octets in front of the record. -/
theorem exchanger_local :
    LocalRecord reportAllTypes [1, 97, 0, 0, 5, 0xc0, 0x0c] ⟨QType.MX, 1, 0, 4⟩ 3 := by
  refine (record_local_iff (by decide) (by decide)).1 fun _ => ?_
  refine ⟨⟨⟨2, rfl, by decide⟩, nofun⟩, fun v hv => ?_⟩
  obtain rfl := Except.ok.inj hv
  exact ⟨⟨⟨2, by decide, by decide⟩, nofun⟩, fun _ _ => trivial⟩

/-- A key record without a key is read when an octet follows it, and not at the end of a packet. -/
theorem empty_key_not_local : ¬ LocalRecord reportAllTypes [1, 0, 3, 5, 0] ⟨QType.DNSKEY, 1, 0, 4⟩ 0 := by
  intro h
  have hsame : SameWithin [1, 0, 3, 5, 0] [1, 0, 3, 5] (0 : UInt16).toNat
      ((0 : UInt16).toNat + (4 : UInt16).toNat) := by
    intro p _ hp
    exact (getElem?_append_left (show p < ([1, 0, 3, 5] : Octets).length from hp)).symm
  have hequal := h [1, 0, 3, 5] (by decide) hsame (by decide)
  exact absurd hequal (by decide)

end Records

end PowerDNS
