import PowerDNS.Packet.DecodeEncode
import PowerDNS.Packet.FramedWriting
import PowerDNS.Packet.Truncation
import PowerDNS.Recursor.LWRes

/-!
# EDNS options on the wire

An OPT record says in its class how large a UDP packet may be, in its TTL the flags, and in its rdata has the
options: a code and a length of two octets each, and the value. `addOpt` writes them, and `getEDNSOpts` takes
them from the last record of a packet that was parsed.

`getData` puts the octets of a code and of a length together as signed ones, the first one 255 times. What
comes back is what was written for codes and lengths below 128, and for no others (`pair_be16`). So the
options of a packet are read as they were written exactly if all of their codes and lengths are so small:
`edns_options_iff`. The size and the flags always come back, and no octet is looked at that is not in the
rdata.
-/

namespace PowerDNS

open CompressedName List

/-! ### Options -/

/-- Two octets as `getData` puts them together. -/
def optionPair (hi lo : UInt8) : UInt16 := UInt16.ofInt (0xff * hi.toInt8.toInt + lo.toInt8.toInt)

/-- An option as `addOpt` writes it. -/
def optionOctets (o : UInt16 × Octets) : Octets := be16 o.1 ++ be16 (UInt16.ofNat o.2.length) ++ o.2

/-- An option that is read as it is written. -/
def SmallOption (o : UInt16 × Octets) : Prop := o.1 < 128 ∧ o.2.length < 128

instance (o : UInt16 × Octets) : Decidable (SmallOption o) :=
  inferInstanceAs (Decidable (o.1 < 128 ∧ o.2.length < 128))

/-- `getData` with every access checked: `none` for an octet that is not there, and if the loop does not end
within so many turns. -/
def getDataWithin (d_data : Octets) : ℕ → ℕ → Option (List (UInt16 × Octets))
  | 0, pos => if d_data.length < 4 + pos then some [] else none
  | fuel + 1, pos =>
    if d_data.length < 4 + pos then some []
    else do
      let code := optionPair (← d_data[pos]?) (← d_data[pos + 1]?)
      let len := optionPair (← d_data[pos + 2]?) (← d_data[pos + 3]?)
      if d_data.length < pos + 4 + len.toNat then some []
      else do
        let field := (d_data.drop (pos + 4)).take len.toNat
        if field.length = len.toNat then some ((code, field) :: (← getDataWithin d_data fuel (pos + 4 + len.toNat)))
        else none

/-- One turn of the loop. -/
theorem getData_succ (d_data : Octets) (fuel pos : ℕ) :
    getData d_data (fuel + 1) pos =
      if d_data.length < 4 + pos then []
      else
        let code := optionPair (d_data.getD pos 0) (d_data.getD (pos + 1) 0)
        let len := optionPair (d_data.getD (pos + 2) 0) (d_data.getD (pos + 3) 0)
        if d_data.length < pos + 4 + len.toNat then []
        else (code, (d_data.drop (pos + 4)).take len.toNat) :: getData d_data fuel (pos + 4 + len.toNat) :=
  rfl

/-- **`getData` stays within the rdata**, and the loop ends. -/
theorem getDataWithin_eq (d_data : Octets) {fuel pos : ℕ} (hfuel : d_data.length < 4 + pos + 4 * fuel) :
    getDataWithin d_data fuel pos = some (getData d_data fuel pos) := by
  induction fuel generalizing pos with
  | zero => exact if_pos hfuel
  | succ fuel ih =>
    rw [getDataWithin, getData_succ]
    split
    · rfl
    · have hget (i : ℕ) (hi : i < 4) : d_data[pos + i]? = some (d_data.getD (pos + i) 0) := by
        rw [getD_eq_getElem?_getD, getElem?_eq_getElem (by omega), Option.getD_some]
      rw [show d_data[pos]? = some (d_data.getD pos 0) from hget 0 (by decide), hget 1 (by decide),
        hget 2 (by decide), hget 3 (by decide)]
      dsimp only [bind, Option.bind]
      split
      · rfl
      · rw [ih (by omega), if_pos (by rw [length_take, length_drop]; omega)]

/-- A signed octet. -/
theorem toInt_toInt8 (c : UInt8) :
    c.toInt8.toInt = if c.toNat < 128 then (c.toNat : Int) else (c.toNat : Int) - 256 := by
  have hlt : c.toNat < 256 := c.toNat_lt
  have hbmod : c.toInt8.toInt = (c.toNat : Int).bmod 256 := BitVec.toInt_eq_toNat_bmod c.toBitVec
  rw [hbmod, Int.bmod_def]
  split <;> split <;> omega

/-- **A number in two octets** is put together again if it is less than 128. -/
theorem pair_be16 (v : UInt16) : optionPair (v >>> 8).toUInt8 v.toUInt8 = v ↔ v < 128 := by
  have hhi : (v >>> 8).toUInt8.toNat = v.toNat / 256 := by
    have hlt := v.toNat_lt
    rw [UInt16.toNat_toUInt8, UInt16.toNat_shiftRight, show (8 : UInt16).toNat % 16 = 8 from rfl,
      Nat.shiftRight_eq_div_pow]
    omega
  have hlo : v.toUInt8.toNat = v.toNat % 256 := UInt16.toNat_toUInt8 v
  have hpair : ((optionPair (v >>> 8).toUInt8 v.toUInt8).toNat : Int) =
      (0xff * (v >>> 8).toUInt8.toInt8.toInt + v.toUInt8.toInt8.toInt) % 65536 := by
    unfold optionPair UInt16.ofInt
    rw [UInt16.toNat_ofNat']
    omega
  rw [← UInt16.toNat_inj, UInt16.lt_iff_toNat_lt, show (128 : UInt16).toNat = 128 from rfl]
  rw [toInt_toInt8, toInt_toInt8, hhi, hlo] at hpair
  split at hpair <;> split at hpair <;> omega

theorem length_optionOctets (o : UInt16 × Octets) : (optionOctets o).length = 4 + o.2.length := by
  unfold optionOctets
  rw [length_append]
  rfl

/-- What the loop finds where an option stands. -/
theorem getData_option (pre : Octets) (o : UInt16 × Octets) (rest : Octets) (fuel : ℕ) :
    getData (pre ++ (optionOctets o ++ rest)) (fuel + 1) pre.length =
      let code := optionPair (o.1 >>> 8).toUInt8 o.1.toUInt8
      let len := optionPair (UInt16.ofNat o.2.length >>> 8).toUInt8 (UInt16.ofNat o.2.length).toUInt8
      if (o.2 ++ rest).length < len.toNat then []
      else (code, (o.2 ++ rest).take len.toNat) ::
        getData (pre ++ (optionOctets o ++ rest)) fuel (pre.length + 4 + len.toNat) := by
  have hget (i : ℕ) : (pre ++ (optionOctets o ++ rest)).getD (pre.length + i) 0 =
      (optionOctets o ++ rest).getD i 0 := by
    rw [getD_eq_getElem?_getD, getElem?_append_right (Nat.le_add_right _ _), Nat.add_sub_cancel_left,
      getD_eq_getElem?_getD]
  have hdrop : (pre ++ (optionOctets o ++ rest)).drop (pre.length + 4) = o.2 ++ rest := by
    rw [drop_append, drop_eq_nil_of_le (Nat.le_add_right _ _), Nat.add_sub_cancel_left]
    rfl
  have hlength : (pre ++ (optionOctets o ++ rest)).length = pre.length + 4 + (o.2 ++ rest).length := by
    rw [length_append, length_append, length_optionOctets, length_append]
    omega
  rw [getData_succ, if_neg (by omega), hdrop, hlength,
    show (pre ++ (optionOctets o ++ rest)).getD pre.length 0 = (o.1 >>> 8).toUInt8 from hget 0,
    show (pre ++ (optionOctets o ++ rest)).getD (pre.length + 1) 0 = o.1.toUInt8 from hget 1,
    show (pre ++ (optionOctets o ++ rest)).getD (pre.length + 2) 0 =
      (UInt16.ofNat o.2.length >>> 8).toUInt8 from hget 2,
    show (pre ++ (optionOctets o ++ rest)).getD (pre.length + 3) 0 =
      (UInt16.ofNat o.2.length).toUInt8 from hget 3]
  simp only [Nat.add_lt_add_iff_left]

/-- **The options come back** if they are all small, and otherwise others do: at the first one that is not, the
code or the length of the value differs, or the loop ends. -/
theorem getData_options {options : List (UInt16 × Octets)} (hlen : ∀ o ∈ options, o.2.length < 65536)
    (pre : Octets) {fuel : ℕ} (hfuel : options.length ≤ fuel) :
    getData (pre ++ options.flatMap optionOctets) fuel pre.length = options ↔
      ∀ o ∈ options, SmallOption o := by
  induction options generalizing pre fuel with
  | nil =>
    refine iff_of_true ?_ (forall_mem_nil _)
    rw [flatMap_nil, append_nil]
    cases fuel with
    | zero => rfl
    | succ fuel => exact if_pos (by omega)
  | cons o options ih =>
    obtain ⟨hlen, hrest⟩ := forall_mem_cons.mp hlen
    obtain ⟨fuel, rfl⟩ := Nat.exists_eq_succ_of_ne_zero (by rw [length_cons] at hfuel; omega : fuel ≠ 0)
    rw [length_cons, Nat.add_le_add_iff_right] at hfuel
    rw [flatMap_cons, getData_option, forall_mem_cons]
    have hofNat : (UInt16.ofNat o.2.length).toNat = o.2.length := by
      exact Nat.mod_eq_of_lt hlen
    have hlt : UInt16.ofNat o.2.length < 128 ↔ o.2.length < 128 := by
      rw [UInt16.lt_iff_toNat_lt, hofNat]
      rfl
    dsimp only
    constructor
    · intro heq
      split at heq
      · cases heq
      · rename_i hroom
        obtain ⟨hoption, htail⟩ := List.cons.inj heq
        obtain ⟨hcode, hvalue⟩ := Prod.mk.inj hoption
        -- the value has the length that was read
        have hpair : optionPair (UInt16.ofNat o.2.length >>> 8).toUInt8 (UInt16.ofNat o.2.length).toUInt8 =
            UInt16.ofNat o.2.length := by
          have hvalue := congrArg List.length hvalue
          rw [length_take, Nat.min_eq_left (Nat.le_of_not_lt hroom)] at hvalue
          rw [← UInt16.toNat_inj, hvalue, hofNat]
        refine ⟨⟨(pair_be16 _).mp hcode, hlt.mp ((pair_be16 _).mp hpair)⟩, ?_⟩
        rw [hpair, hofNat] at htail
        apply (ih hrest (pre ++ optionOctets o) hfuel).mp
        rw [append_assoc, length_append, length_optionOctets, ← Nat.add_assoc]
        exact htail
    · rintro ⟨⟨hcode, hshort⟩, hsmall⟩
      rw [(pair_be16 _).mpr hcode, (pair_be16 _).mpr (hlt.mpr hshort), hofNat,
        if_neg (by rw [length_append]; omega), take_left]
      have htail := (ih hrest (pre ++ optionOctets o) hfuel).mpr hsmall
      rw [append_assoc, length_append, length_optionOctets, ← Nat.add_assoc] at htail
      rw [htail]

/-! ### Reading a packet with more behind it -/

section Append

variable {types : TypeMap} {content : Octets} (rest : Octets)

/-- What is read from the front of a packet is read from all of it. -/
theorem eq_of_cut {α : Type} {f : Octets → Except ReadError α} {a : α}
    (hcut : Cut (f ((content ++ rest).take content.length)) (f (content ++ rest)))
    (h : f content = .ok a) : f (content ++ rest) = .ok a := by
  rw [take_left] at hcut
  exact hcut.eq_of_ok h

theorem readField_append {w : RecordWindow} {d_pos : UInt16} {f : Field} {v : FieldValue × UInt16}
    (h : readField content w d_pos f = .ok v) : readField (content ++ rest) w d_pos f = .ok v := by
  by_cases hcopy : ∀ len, f ≠ .copyTo len
  · exact @eq_of_cut content rest _ (fun content => readField content w d_pos f) v
      (cut_readField _ _ w d_pos hcopy) h
  · simp only [not_forall, not_not] at hcopy
    obtain ⟨len, rfl⟩ := hcopy
    -- the copy is within the front
    obtain ⟨r, hr, hv⟩ := bind_ok h
    have hcopied : copyRecordTo (content ++ rest) len d_pos = .ok r := by
      unfold copyRecordTo at hr ⊢
      split at hr
      · cases hr
      · rename_i hin
        obtain ⟨c, hc, hr⟩ := bind_ok hr
        have hc' := @eq_of_cut content rest _ (fun content => contentAt content d_pos) c (cut_contentAt _ _ _) hc
        rw [if_neg (by rw [length_append]; omega), hc']
        rw [← hr]
        dsimp only [bind, Except.bind]
        rw [drop_append_of_le_length (by omega),
          take_append_of_le_length (by rw [length_drop]; omega)]
    change (copyRecordTo (content ++ rest) len d_pos >>= fun r => pure (FieldValue.octets r.1, r.2)) = _
    rw [hcopied]
    exact hv

theorem readFields_append {w : RecordWindow} {fs : List Field} {d_pos : UInt16}
    {v : List FieldValue × UInt16} (h : readFields content w fs d_pos = .ok v) :
    readFields (content ++ rest) w fs d_pos = .ok v := by
  induction fs generalizing d_pos v with
  | nil => exact h
  | cons f fs ih =>
    obtain ⟨first, hfirst, h⟩ := bind_ok h
    obtain ⟨others, hothers, h⟩ := bind_ok h
    unfold readFields
    rw [readField_append rest hfirst]
    dsimp only [bind, Except.bind]
    rw [ih hothers]
    exact h

theorem parseRecord_append {place : RecordPlace} {d_pos : UInt16} {r : DNSRecord × UInt16}
    (h : parseRecord types content place d_pos = .ok r) :
    parseRecord types (content ++ rest) place d_pos = .ok r := by
  obtain ⟨label, hlabel, h⟩ := bind_ok h
  obtain ⟨header, hheader, h⟩ := bind_ok h
  obtain ⟨v, hv, h⟩ := bind_ok h
  have hlabel := @eq_of_cut content rest _ (fun content => getLabel content d_pos) _ (cut_getLabel _ _ _) hlabel
  have hheader := @eq_of_cut content rest _ (fun content => readOctets content 10 label.2) _
    (cut_readOctets _ _ _ _) hheader
  have hv := mastermake_of_readFields hv (readFields_append rest (mastermake_ok hv).2.1)
  unfold parseRecord
  rw [hlabel]
  dsimp only [bind, Except.bind]
  rw [hheader]
  dsimp only
  rw [hv]
  exact h

/-- Where the records end. -/
def recordsEnd (d_pos : UInt16) (answers : List (DNSRecord × UInt16)) : UInt16 :=
  answers.getLast?.elim d_pos Prod.snd

/-- **One more record**, behind those that are read. -/
theorem parseRecords_append {place : ℕ → RecordPlace} {left n : ℕ} {d_pos : UInt16}
    {answers : List (DNSRecord × UInt16)} {r : DNSRecord × UInt16}
    (h : parseRecords types content place left n d_pos = (answers, none))
    (hlast : parseRecord types (content ++ rest) (place (n + left)) (recordsEnd d_pos answers) = .ok r) :
    parseRecords types (content ++ rest) place (left + 1) n d_pos = (answers ++ [r], none) := by
  induction left generalizing n d_pos answers with
  | zero =>
    obtain ⟨rfl, -⟩ := Prod.mk.inj h
    rw [parseRecords, show parseRecord types (content ++ rest) (place n) d_pos = .ok r from hlast]
    rfl
  | succ left ih =>
    obtain ⟨first, others, rfl, hfirst, hothers⟩ := parseRecords_cons h
    have hend : recordsEnd d_pos (first :: others) = recordsEnd first.2 others := by
      unfold recordsEnd
      rw [getLast?_cons]
      cases others.getLast? <;> rfl
    rw [hend, show n + (left + 1) = n + 1 + left by omega] at hlast
    rw [parseRecords, parseRecord_append rest hfirst]
    dsimp only
    rw [ih hothers hlast]
    rfl

theorem readQuestions_append {n : ℕ} {q q' : (Octets × UInt16 × UInt16) × UInt16}
    (h : readQuestions content n q = .ok q') : readQuestions (content ++ rest) n q = .ok q' := by
  induction n generalizing q with
  | zero => exact h
  | succ n ih =>
    obtain ⟨qname, hqname, h⟩ := bind_ok h
    obtain ⟨qtype, hqtype, h⟩ := bind_ok h
    obtain ⟨qclass, hqclass, h⟩ := bind_ok h
    have hqname := @eq_of_cut content rest _ (fun content => getLabel content q.2) _ (cut_getLabel _ _ _) hqname
    have hqtype := @eq_of_cut content rest _ (fun content => readOctets content 2 qname.2) _
      (cut_readOctets _ _ _ _) hqtype
    have hqclass := @eq_of_cut content rest _ (fun content => readOctets content 2 qtype.2) _
      (cut_readOctets _ _ _ _) hqclass
    rw [readQuestions, hqname]
    dsimp only [bind, Except.bind]
    rw [hqtype]
    dsimp only
    rw [hqclass]
    exact ih h

end Append

/-! ### Reading the OPT record -/

/-- The flags as `addOpt` puts them into the TTL. -/
def optTTL (extRCode : UInt8) (z : UInt16) : UInt32 := UInt32.ofNat (2 ^ 24 * extRCode.toNat + z.toNat)

/-- The record that `addOpt` writes. -/
def optRecord (udpsize : UInt16) (extRCode : UInt8) (z : UInt16) (options : List (UInt16 × Octets))
    (owner : Octets) : StartedRecord where
  qtype := QType.OPT
  ttl := optTTL extRCode z
  qclass := udpsize
  place := .ADDITIONAL
  owner := owner
  rdata := options.flatMap optionOctets

/-- The root, or a pointer to the question. -/
def OptOwner (owner : Octets) : Prop := owner = [0] ∨ owner = [0xc0, 0x0c]

/-- Wherever the owner stands, it is read as a name, with the position behind it. -/
theorem exists_getLabel_opt {ls : List Octets} (hls : ∀ l ∈ ls, IsLabel l) {more owner : Octets}
    (howner : OptOwner owner)
    (hsize : (wireLabels ls ++ more).length + owner.length ≤ 65535) :
    ∃ label, ∀ rest, getLabel (wireLabels ls ++ more ++ (owner ++ rest))
        (UInt16.ofNat (wireLabels ls ++ more).length) =
      .ok (label, UInt16.ofNat ((wireLabels ls ++ more).length + owner.length)) := by
  unfold getLabel
  rcases howner with rfl | rfl
  · refine ⟨readText [] [], ?_⟩
    intro rest
    have hroot := @rawLabels_wireLabels (wireLabels ls ++ more) rest [] labelFuel 0
      (forall_mem_nil _)
      (by change _ + 1 ≤ _; change _ + 1 ≤ _ at hsize; omega) (by decide) (Nat.zero_le _)
    rw [getLabelFromContent_eq, show [0] ++ rest = wireLabels [] ++ rest from rfl, hroot]
    rfl
  · refine ⟨readText [] ls, ?_⟩
    intro rest
    change _ + 2 ≤ _ at hsize
    rw [length_append] at hsize
    have hcount : ls.length < labelFuel - 1 := by
      have hle := length_le_labelOctets ls
      rw [wireLabels_eq, length_append] at hsize
      unfold labelFuel
      omega
    -- the pointer leads to the question, at the beginning
    have hquestion := @rawLabels_wireLabels [] (more ++ ([0xc0, 0x0c] ++ rest)) ls (labelFuel - 1) 1
      (fun l hl => ⟨(hls l hl).1, (hls l hl).2.trans (by decide)⟩) (by rw [length_nil]; omega) hcount
      (by decide)
    rw [nil_append, ← append_assoc (wireLabels ls)] at hquestion
    have hhi := @contentAt_append (wireLabels ls ++ more) 0xc0 (0x0c :: rest) (by rw [length_append]; omega)
    have hlo := @contentAt_append (wireLabels ls ++ more ++ [0xc0]) 0x0c rest (by
      rw [length_append, length_append, length_singleton]
      omega)
    rw [← ofNat_length_succ, append_assoc (wireLabels ls ++ more)] at hlo
    have hpointer := rawLabels_pointer (Nat.zero_le 10) hhi (by decide) hlo hquestion
    rw [getLabelFromContent_eq, show labelFuel = labelFuel - 1 + 1 from rfl]
    change (rawLabels (wireLabels ls ++ more ++ 0xc0 :: 0x0c :: rest) _ _ 0).map _ = _
    have hbehind : UInt16.ofNat ((wireLabels ls ++ more).length + [(0xc0 : UInt8), 0x0c].length) =
        UInt16.ofNat (wireLabels ls ++ more).length + 2 := UInt16.ofNat_add _ _
    rw [hpointer, hbehind]
    rfl

/-- The class of OPT records has been reported. -/
def ReportsOPT (types : TypeMap) : Prop :=
  types.find? (fun t => t.1 == (1, QType.OPT)) = some ((1, QType.OPT), OPTRecordContent)

theorem ReportsOPT.makerOf {types : TypeMap} (h : ReportsOPT types) (d_class : UInt16) :
    types.makerOf d_class QType.OPT = OPTRecordContent := by
  unfold TypeMap.makerOf
  rw [if_pos rfl]
  dsimp only
  rw [h]

theorem reportAllTypes_reportsOPT : ReportsOPT reportAllTypes := by
  rfl

theorem ReportsOPT.any {types : TypeMap} (h : ReportsOPT types) :
    types.any (fun t => t.1 == (1, QType.OPT)) = true := by
  rw [any_eq_true]
  exact ⟨_, mem_of_find?_eq_some h, by decide⟩

/-- The header of a record. -/
theorem ofOctets_header (qtype qclass : UInt16) (ttl : UInt32) (clen : UInt16) :
    DnsRecordHeader.ofOctets (be16 qtype ++ be16 qclass ++ be32 ttl ++ be16 clen) =
      ⟨qtype, qclass, ttl, clen⟩ := by
  have h16 (v : UInt16) : UInt16.ofNat (beNat (be16 v)) = v := by rw [beNat_be16, UInt16.ofNat_toNat]
  have h32 (v : UInt32) : UInt32.ofNat (beNat (be32 v)) = v := by rw [beNat_be32, UInt32.ofNat_toNat]
  change DnsRecordHeader.mk (UInt16.ofNat (beNat (be16 qtype))) (UInt16.ofNat (beNat (be16 qclass)))
    (UInt32.ofNat (beNat (be32 ttl))) (UInt16.ofNat (beNat (be16 clen))) = _
  rw [h16, h16, h32, h16]

/-- The rest of a record at the end of a packet. -/
theorem xfrRestBlob_end {front rdata : Octets} (hsize : (front ++ rdata).length ≤ 65535) :
    xfrRestBlob (front ++ rdata) ⟨UInt16.ofNat front.length, UInt16.ofNat rdata.length⟩
      (UInt16.ofNat front.length) = .ok (rdata, UInt16.ofNat (front ++ rdata).length) := by
  rw [length_append] at hsize ⊢
  have hfront : (UInt16.ofNat front.length).toNat = front.length := by
    rw [UInt16.toNat_ofNat', Nat.mod_eq_of_lt (by omega)]
  have hrdata : (UInt16.ofNat rdata.length).toNat = rdata.length := by
    rw [UInt16.toNat_ofNat', Nat.mod_eq_of_lt (by omega)]
  have hend : UInt16.ofNat front.length + UInt16.ofNat rdata.length =
      UInt16.ofNat (front.length + rdata.length) := (UInt16.ofNat_add _ _).symm
  unfold xfrRestBlob
  dsimp only
  rw [hend]
  by_cases hempty : rdata = []
  · rw [if_neg (by rw [hempty]; decide), hempty]
    rfl
  · have hpos : 0 < rdata.length := length_pos_of_ne_nil hempty
    have hne : UInt16.ofNat rdata.length ≠ 0 := by
      intro h
      have hzero := congrArg UInt16.toNat h
      rw [hrdata] at hzero
      exact Nat.ne_of_gt hpos hzero
    have hrange : contentRange (front ++ rdata) front.length (front.length + rdata.length) = .ok rdata := by
      unfold contentRange
      rw [if_neg (by rw [length_append]; omega), if_neg (by omega), drop_left,
        Nat.add_sub_cancel_left, take_length]
    unfold RecordWindow.stop
    rw [if_pos hne, hfront, hrdata, hrange]
    rfl

/-- **The OPT record is read** at the end of a packet whose question, which its owner may point to, is read. -/
theorem parseRecord_opt {types : TypeMap} (hopt : ReportsOPT types) {content owner : Octets} (place : RecordPlace)
    {udpsize : UInt16} {extRCode : UInt8} {z : UInt16} {options : List (UInt16 × Octets)}
    {label : Octets} (hlabel : ∀ rest, getLabel (content ++ (owner ++ rest)) (UInt16.ofNat content.length) =
      .ok (label, UInt16.ofNat (content.length + owner.length)))
    (hsize : (content ++ (optRecord udpsize extRCode z options owner).frame).length ≤ 65535) :
    ∃ r : DNSRecord × UInt16, parseRecord types (content ++ (optRecord udpsize extRCode z options owner).frame) place
        (UInt16.ofNat content.length) = .ok r ∧
      r.1.d_type = QType.OPT ∧ r.1.d_class = udpsize ∧ r.1.d_ttl = optTTL extRCode z ∧
      r.1.d_content = [.octets (options.flatMap optionOctets)] := by
  generalize hrdata : options.flatMap optionOctets = rdata
  have hheaderLength : (be16 QType.OPT ++ be16 udpsize ++ be32 (optTTL extRCode z) ++
      be16 (UInt16.ofNat rdata.length)).length = 10 := rfl
  generalize hheader : be16 QType.OPT ++ be16 udpsize ++ be32 (optTTL extRCode z) ++
    be16 (UInt16.ofNat rdata.length) = header at hheaderLength
  have hframe : (optRecord udpsize extRCode z options owner).frame = owner ++ (header ++ rdata) := by
    unfold StartedRecord.frame optRecord
    rw [hrdata, ← hheader]
    simp only [append_assoc]
  rw [hframe] at hsize ⊢
  have hall : content ++ (owner ++ (header ++ rdata)) = (content ++ owner ++ header) ++ rdata := by
    simp only [append_assoc]
  have hlength : (content ++ owner ++ header).length = content.length + owner.length + 10 := by
    rw [length_append, length_append, hheaderLength]
  have hoctets : readOctets (content ++ (owner ++ (header ++ rdata))) 10
      (UInt16.ofNat (content.length + owner.length)) =
        .ok (header, UInt16.ofNat (content ++ owner ++ header).length) := by
    have hread := @readOctets_append (content ++ owner) header rdata (by
      rw [length_append, hheaderLength]
      simp only [length_append, hheaderLength] at hsize
      omega)
    rw [hheaderLength, length_append, append_assoc] at hread
    rw [hlength]
    exact hread
  have hmade : mastermake types (content ++ (owner ++ (header ++ rdata)))
      ⟨QType.OPT, udpsize, optTTL extRCode z, UInt16.ofNat rdata.length⟩
      (UInt16.ofNat (content ++ owner ++ header).length) =
        .ok ([.octets rdata], UInt16.ofNat (content ++ (owner ++ (header ++ rdata))).length) := by
    rw [hall] at hsize ⊢
    have hblob := xfrRestBlob_end hsize
    unfold mastermake
    rw [hopt.makerOf]
    change (readFields _ _ [.restBlob] _ >>= _) = _
    have hfields : readFields (content ++ owner ++ header ++ rdata)
        ⟨UInt16.ofNat (content ++ owner ++ header).length, UInt16.ofNat rdata.length⟩ [.restBlob]
        (UInt16.ofNat (content ++ owner ++ header).length) =
          .ok ([.octets rdata], UInt16.ofNat (content ++ owner ++ header ++ rdata).length) := by
      rw [readFields, readField, hblob]
      rfl
    rw [hfields]
    rfl
  refine ⟨({ d_label := label, d_type := QType.OPT, d_class := udpsize, d_ttl := optTTL extRCode z,
             d_clen := UInt16.ofNat rdata.length, d_place := place, d_content := [.octets rdata] },
      UInt16.ofNat (content ++ (owner ++ (header ++ rdata))).length), ?_, rfl, rfl, rfl, rfl⟩
  unfold parseRecord
  rw [hlabel]
  dsimp only [bind, Except.bind]
  rw [hoctets]
  dsimp only
  rw [← hheader, ofOctets_header, hheader, hmade]
  rfl

/-! ### Reading the packet -/

/-- `EDNSOpts`. -/
structure EDNSOpts where
  d_packetsize : UInt16
  d_extRCode : UInt8
  d_version : UInt8
  d_Z : UInt16
  d_options : List (UInt16 × Octets)
  deriving DecidableEq

/-- `getEDNSOpts(mdp, eo)`, all of it. The octets of the TTL are an `EDNS0Record`. -/
def MOADNSParser.ednsOpts (types : TypeMap) (mdp : MOADNSParser) : Option EDNSOpts := do
  let d_options ← getEDNSOpts types mdp
  let r ← mdp.d_answers.getLast?
  some {
    d_packetsize := r.1.d_class
    d_extRCode := (r.1.d_ttl >>> 24).toUInt8
    d_version := (r.1.d_ttl >>> 16).toUInt8
    d_Z := r.1.d_ttl.toUInt16
    d_options }

/-- What is found in a packet that is parsed. -/
def ednsOf (types : TypeMap) (packet : Octets) : Option EDNSOpts :=
  match MOADNSParser.init types packet with
  | .error _ => none
  | .ok mdp => mdp.ednsOpts types

/-- The packet is parsed without an exception, and its last record is read to its end. -/
structure ReadToEnd (types : TypeMap) (packet : Octets) : Prop where
  opcode : (Dnsheader.ofPacket packet).opcode = 0 ∨ (Dnsheader.ofPacket packet).opcode = 4
  read : ∃ q answers,
    readQuestions (packetContent packet) (Dnsheader.ofPacket packet).qdcount.toNat (([], 0, 0), 0) = .ok q ∧
      parseRecords types (packetContent packet) (Dnsheader.ofPacket packet).place
        (Dnsheader.ofPacket packet).recordCount 0 q.2 = (answers, none) ∧
      (recordsEnd q.2 answers).toNat = (packetContent packet).length

theorem ofPacket_layout (opcode : UInt8) (question : Octets) (rs : List StartedRecord) :
    Dnsheader.ofPacket (layout opcode question rs) =
      ⟨(opcode &&& 15) <<< 3, 1, UInt16.ofNat (sectionCount rs .ANSWER),
        UInt16.ofNat (sectionCount rs .AUTHORITY), UInt16.ofNat (sectionCount rs .ADDITIONAL)⟩ := by
  have h16 (v : UInt16) : UInt16.ofNat (beNat (be16 v)) = v := by rw [beNat_be16, UInt16.ofNat_toNat]
  change Dnsheader.mk ((opcode &&& 15) <<< 3) 1 (UInt16.ofNat (beNat (be16 _))) (UInt16.ofNat (beNat (be16 _)))
    (UInt16.ofNat (beNat (be16 _))) = _
  rw [h16, h16, h16]

theorem packetContent_layout {opcode : UInt8} {question : Octets} {rs : List StartedRecord}
    (hsize : (layout opcode question rs).length ≤ 65535) :
    packetContent (layout opcode question rs) = question ++ rs.flatMap StartedRecord.frame := by
  have hlength := ResponseRun.length_layout opcode question rs
  unfold packetContent
  rw [Nat.mod_eq_of_lt (by omega), show (layout opcode question rs).drop 12 =
    question ++ rs.flatMap StartedRecord.frame from rfl]
  exact take_of_length_le (by rw [length_append]; omega)

/-- One more record in the last section adds one to its count, and to nothing else. -/
theorem ofPacket_layout_opt {opcode : UInt8} {question : Octets} {rs : List StartedRecord} {r : StartedRecord}
    (hplace : r.place = .ADDITIONAL) (hcount : sectionCount rs .ADDITIONAL < 65535) :
    (Dnsheader.ofPacket (layout opcode question (rs ++ [r]))).place =
        (Dnsheader.ofPacket (layout opcode question rs)).place ∧
      (Dnsheader.ofPacket (layout opcode question (rs ++ [r]))).recordCount =
        (Dnsheader.ofPacket (layout opcode question rs)).recordCount + 1 ∧
      (Dnsheader.ofPacket (layout opcode question (rs ++ [r]))).arcount ≠ 0 := by
  have hsame (place : WriterPlace) (hne : r.place ≠ place) :
      sectionCount (rs ++ [r]) place = sectionCount rs place := by
    rw [sectionCount_append, if_neg hne]
  have hmore : sectionCount (rs ++ [r]) .ADDITIONAL = sectionCount rs .ADDITIONAL + 1 := by
    rw [sectionCount_append, if_pos hplace]
  have hcount' : (UInt16.ofNat (sectionCount rs .ADDITIONAL + 1)).toNat =
      (UInt16.ofNat (sectionCount rs .ADDITIONAL)).toNat + 1 := by
    rw [UInt16.toNat_ofNat', UInt16.toNat_ofNat']
    omega
  rw [ofPacket_layout, ofPacket_layout, hsame .ANSWER (by rw [hplace]; decide),
    hsame .AUTHORITY (by rw [hplace]; decide), hmore]
  refine ⟨rfl, ?_, ?_⟩
  · unfold Dnsheader.recordCount
    dsimp only
    omega
  · intro hzero
    have hzero : (UInt16.ofNat (sectionCount rs .ADDITIONAL + 1)).toNat = 0 := congrArg UInt16.toNat hzero
    omega

variable {types : TypeMap} {opcode : UInt8} {ls : List Octets} {asked owner : Octets} {rs : List StartedRecord}
  {udpsize : UInt16} {extRCode : UInt8} {z : UInt16} {options : List (UInt16 × Octets)}

/-- A packet all of whose records can be parsed. -/
theorem init_ok {types : TypeMap} {packet : Octets} (hlong : ¬ packet.length < 12)
    (hopcode : (Dnsheader.ofPacket packet).opcode = 0 ∨ (Dnsheader.ofPacket packet).opcode = 4)
    {qr : (Octets × UInt16 × UInt16) × UInt16} {answers : List (DNSRecord × UInt16)}
    (hquestions : readQuestions (packetContent packet) (Dnsheader.ofPacket packet).qdcount.toNat
      (([], 0, 0), 0) = .ok qr)
    (hrecords : parseRecords types (packetContent packet) (Dnsheader.ofPacket packet).place
      (Dnsheader.ofPacket packet).recordCount 0 qr.2 = (answers, none)) :
    ∃ mdp, MOADNSParser.init types packet = .ok mdp ∧ mdp.d_answers = answers ∧
      mdp.d_header = Dnsheader.ofPacket packet := by
  unfold MOADNSParser.init
  rw [if_neg hlong, if_neg fun h => hopcode.elim h.1 h.2, hquestions]
  dsimp only
  rw [hrecords]
  exact ⟨_, rfl, rfl, rfl⟩

/-- **The packet with the OPT record is parsed**, and that record is the last one. -/
theorem init_opt (hopt : ReportsOPT types) (hls : ∀ l ∈ ls, IsLabel l) (howner : OptOwner owner)
    (hfront : ReadToEnd types (layout opcode (wireLabels ls ++ asked) rs))
    (hcount : sectionCount rs .ADDITIONAL < 65535)
    (hsize : (layout opcode (wireLabels ls ++ asked)
      (rs ++ [optRecord udpsize extRCode z options owner])).length ≤ 65535) :
    ∃ mdp r, MOADNSParser.init types (layout opcode (wireLabels ls ++ asked)
        (rs ++ [optRecord udpsize extRCode z options owner])) = .ok mdp ∧
      mdp.d_header.arcount ≠ 0 ∧ mdp.d_answers.getLast? = some r ∧
      r.1.d_type = QType.OPT ∧ r.1.d_class = udpsize ∧ r.1.d_ttl = optTTL extRCode z ∧
      r.1.d_content = [.octets (options.flatMap optionOctets)] := by
  generalize hrecord : optRecord udpsize extRCode z options owner = record at hsize ⊢
  have hplace : record.place = .ADDITIONAL := by rw [← hrecord]; rfl
  have hsize' := hsize
  rw [ResponseRun.length_layout_append] at hsize'
  have hcontent := packetContent_layout (show (layout opcode (wireLabels ls ++ asked) rs).length ≤ 65535 by omega)
  have hcontent' := packetContent_layout hsize
  rw [flatMap_append, flatMap_singleton, ← append_assoc] at hcontent'
  generalize hc : wireLabels ls ++ asked ++ rs.flatMap StartedRecord.frame = content at hcontent hcontent'
  have hlengths : content.length + record.frame.length ≤ 65535 := by
    have hlength := ResponseRun.length_layout opcode (wireLabels ls ++ asked) (rs ++ [record])
    rw [flatMap_append, flatMap_singleton] at hlength
    rw [← hc]
    simp only [length_append] at hlength ⊢
    omega
  obtain ⟨hsame, hmore, hadditional⟩ :=
    @ofPacket_layout_opt opcode (wireLabels ls ++ asked) rs record hplace hcount
  obtain ⟨q, answers, hquestions, hrecords, hend⟩ := hfront.read
  rw [hcontent] at hquestions hrecords hend
  -- the record is read where the others end
  have hframe : record.frame.length = owner.length + 10 + record.rdata.length := by
    rw [ResponseRun.length_frame, ← hrecord]
    rfl
  obtain ⟨label, hlabel⟩ := @exists_getLabel_opt ls hls (asked ++ rs.flatMap StartedRecord.frame) owner howner (by
    rw [← append_assoc, hc]
    omega)
  rw [← append_assoc, hc] at hlabel
  obtain ⟨r, hr, htype, hclass, httl, hvalues⟩ := @parseRecord_opt types hopt content owner
    ((Dnsheader.ofPacket (layout opcode (wireLabels ls ++ asked) rs)).place
      (0 + (Dnsheader.ofPacket (layout opcode (wireLabels ls ++ asked) rs)).recordCount))
    udpsize extRCode z options label hlabel (by rw [hrecord, length_append]; exact hlengths)
  rw [hrecord] at hr
  have hbehind : recordsEnd q.2 answers = UInt16.ofNat content.length := by
    rw [← UInt16.toNat_inj, hend, UInt16.toNat_ofNat', Nat.mod_eq_of_lt (by omega)]
  have hparsed := parseRecords_append record.frame hrecords (by rw [hbehind]; exact hr)
  have hopcode := hfront.opcode
  obtain ⟨mdp, hinit, hanswers, hparsedHeader⟩ := @init_ok types
    (layout opcode (wireLabels ls ++ asked) (rs ++ [record])) (by
      rw [ResponseRun.length_layout]
      omega) hopcode q (answers ++ [r]) (by rw [hcontent']; exact readQuestions_append _ hquestions)
    (by rw [hcontent', hsame, hmore]; exact hparsed)
  refine ⟨mdp, r, hinit, ?_, ?_, htype, hclass, httl, hvalues⟩
  · rw [hparsedHeader]
    exact hadditional
  · rw [hanswers, getLast?_concat]

/-- The flags come back as they were put into the TTL. -/
theorem optTTL_parts (extRCode : UInt8) (z : UInt16) :
    (optTTL extRCode z >>> 24).toUInt8 = extRCode ∧ (optTTL extRCode z >>> 16).toUInt8 = 0 ∧
      (optTTL extRCode z).toUInt16 = z := by
  have hext := extRCode.toNat_lt
  have hz := z.toNat_lt
  have httl : (optTTL extRCode z).toNat = 2 ^ 24 * extRCode.toNat + z.toNat := by
    unfold optTTL
    rw [UInt32.toNat_ofNat', Nat.mod_eq_of_lt (by omega)]
  refine ⟨?_, ?_, ?_⟩
  · rw [← UInt8.toNat_inj, UInt32.toNat_toUInt8, UInt32.toNat_shiftRight, httl,
      show (24 : UInt32).toNat % 32 = 24 from rfl, Nat.shiftRight_eq_div_pow]
    omega
  · rw [← UInt8.toNat_inj, UInt32.toNat_toUInt8, UInt32.toNat_shiftRight, httl,
      show (16 : UInt32).toNat % 32 = 16 from rfl, Nat.shiftRight_eq_div_pow]
    change _ = 0
    omega
  · rw [← UInt16.toNat_inj, UInt32.toNat_toUInt16, httl]
    omega

theorem length_le_optionOctets (options : List (UInt16 × Octets)) :
    options.length ≤ (options.flatMap optionOctets).length := by
  induction options with
  | nil => exact Nat.zero_le _
  | cons o options ih =>
    rw [flatMap_cons, length_append, length_optionOctets, length_cons]
    omega

theorem length_of_mem_options {o : UInt16 × Octets} (h : o ∈ options) :
    o.2.length ≤ (options.flatMap optionOctets).length := by
  induction options with
  | nil => cases h
  | cons o' options ih =>
    rw [flatMap_cons, length_append, length_optionOctets]
    rcases mem_cons.mp h with rfl | h
    · omega
    · have hle := ih h
      omega

/-- **What is found of an OPT record** that is the last one: the size and the flags as they were written, and
the options if they are small. -/
theorem ednsOf_opt_iff (hopt : ReportsOPT types) (hls : ∀ l ∈ ls, IsLabel l) (howner : OptOwner owner)
    (hfront : ReadToEnd types (layout opcode (wireLabels ls ++ asked) rs))
    (hcount : sectionCount rs .ADDITIONAL < 65535)
    (hsize : (layout opcode (wireLabels ls ++ asked)
      (rs ++ [optRecord udpsize extRCode z options owner])).length ≤ 65535) :
    ednsOf types (layout opcode (wireLabels ls ++ asked)
        (rs ++ [optRecord udpsize extRCode z options owner])) = some ⟨udpsize, extRCode, 0, z, options⟩ ↔
      ∀ o ∈ options, SmallOption o := by
  obtain ⟨mdp, r, hinit, harcount, hlast, htype, hclass, httl, hvalues⟩ :=
    init_opt hopt hls howner hfront hcount hsize
  have hrdata : (options.flatMap optionOctets).length ≤ 65535 := by
    rw [ResponseRun.length_layout_append] at hsize
    have hle : (optRecord udpsize extRCode z options owner).rdata.length ≤ 65535 := by omega
    exact hle
  have hoptions : getEDNSOpts types mdp = some (getData (options.flatMap optionOctets)
      (options.flatMap optionOctets).length 0) := by
    unfold getEDNSOpts
    rw [if_neg harcount, hlast]
    dsimp only
    rw [if_neg (not_not.mpr htype), hopt.any, hvalues]
    rfl
  have hedns : ednsOf types (layout opcode (wireLabels ls ++ asked)
      (rs ++ [optRecord udpsize extRCode z options owner])) = some ⟨udpsize, extRCode, 0, z,
        getData (options.flatMap optionOctets) (options.flatMap optionOctets).length 0⟩ := by
    unfold ednsOf
    rw [hinit]
    dsimp only
    unfold MOADNSParser.ednsOpts
    rw [hoptions, hlast]
    dsimp only [bind, Option.bind]
    rw [hclass, httl, (optTTL_parts extRCode z).1, (optTTL_parts extRCode z).2.1, (optTTL_parts extRCode z).2.2]
  have hdata := @getData_options options (fun o ho => by have hle := length_of_mem_options ho; omega) []
    _ (length_le_optionOctets options)
  rw [hedns, Option.some.injEq, EDNSOpts.mk.injEq, ← hdata]
  exact ⟨fun h => h.2.2.2.2, fun h => ⟨rfl, rfl, rfl, rfl, h⟩⟩

/-! ### Writing the packet -/

open GuardedRun DNSPacketWriter RecordRun

/-- The owner of an OPT record. -/
def rootName : Name := { labels := [], dotted := false, wf := forall_mem_nil _ }

/-- The root is written as a pointer if the question has the same text, and else as it is. -/
theorem writeOwner_root {w : DNSPacketWriter} (hrecord : w.d_record = []) :
    ∃ owner, OptOwner owner ∧ w.writeOwner rootName.text = some { w with d_content := w.d_content ++ owner } := by
  unfold writeOwner
  split
  · exact ⟨[0xc0, 0x0c], .inr rfl, rfl⟩
  · refine ⟨[0], .inl rfl, ?_⟩
    have hroot : w.xfrLabel rootName.text true = some { w with d_record := [0] } := by
      have hparts : w.xfrLabel rootName.text true = some { w with d_record := w.d_record ++ [0] } := rfl
      rw [hparts, hrecord]
      rfl
    rw [hroot]
    change some { w with d_content := w.d_content ++ [0], d_record := [] } = _
    rw [← hrecord]

/-- Blobs go to the record that is open. -/
theorem run_xfrBlobs {s : RecordRun} {rs : List StartedRecord} {r : StartedRecord}
    (hstarted : s.started = rs ++ [r]) (options : List (UInt16 × Octets)) :
    run RecordRun.step (some s) (options.map fun o => .xfrBlob (optionOctets o)) = some
      { writer := { s.writer with d_record := s.writer.d_record ++ options.flatMap optionOctets }
        started := rs ++ [{ r with rdata := r.rdata ++ options.flatMap optionOctets }] } := by
  induction options generalizing s r with
  | nil =>
    simp only [map_nil, run_nil, flatMap_nil, append_nil]
    rw [← hstarted]
  | cons o options ih =>
    have hstep : RecordRun.step (some s) (.xfrBlob (optionOctets o)) = some
        { writer := s.writer.xfrBlob (optionOctets o)
          started := rs ++ [{ r with rdata := r.rdata ++ optionOctets o }] } := by
      have hdrop : (s.writer.d_record ++ optionOctets o).drop s.writer.d_record.length = optionOctets o :=
        drop_left
      change some (RecordRun.mk (s.writer.xfrBlob (optionOctets o))
        (addRdata ((s.writer.d_record ++ optionOctets o).drop s.writer.d_record.length) s.started)) = _
      rw [hdrop, hstarted, addRdata_append]
    rw [map_cons, run_cons, hstep, ih rfl, flatMap_cons]
    simp only [xfrBlob, append_assoc]

theorem step_commit (s : RecordRun) : RecordRun.step (some s) .commit =
    s.writer.commit.bind fun w => some { s with writer := w } := rfl

/-- **`addOpt` and `commit`** behind records that are framed: one more frame. -/
theorem run_addOpt {question : Octets} {s : RecordRun} {before : DNSPacketWriter}
    (hflush : s.writer.flush = some before) (hrecord : before.d_record = [])
    (hframed : AllFramed opcode question before.d_content s.started) (udpsize : UInt16) (extRCode : UInt8)
    (z : UInt16) (options : List (UInt16 × Octets)) :
    ∃ t owner, run RecordRun.step (some s) (addOpt udpsize extRCode z options ++ [.commit]) = some t ∧
      OptOwner owner ∧ t.writer.d_content =
        layout opcode question (s.started ++ [optRecord udpsize extRCode z options owner]) := by
  let told : DNSPacketWriter := { before with
    d_recordqtype := QType.OPT
    d_recordqclass := udpsize
    d_recordttl := optTTL extRCode z
    d_recordplace := .ADDITIONAL
    d_stuff := 0 }
  obtain ⟨owner, howner, hwritten⟩ := @writeOwner_root told hrecord
  let opened : DNSPacketWriter := { told with
    d_content := before.d_content ++ owner
    d_stuff := 10
    d_sor := (before.d_content ++ owner).length + 10 }
  have hstart : s.writer.startRecord rootName.text QType.OPT (optTTL extRCode z) udpsize .ADDITIONAL =
      some opened := by
    unfold DNSPacketWriter.startRecord
    rw [hflush]
    change (writeOwner told rootName.text >>= _) = _
    rw [hwritten]
    rfl
  have hfirst : RecordRun.step (some s)
      (.startRecord rootName QType.OPT (optTTL extRCode z) udpsize .ADDITIONAL) =
        some { writer := opened, started := s.started ++ [optRecord udpsize extRCode z [] owner] } := by
    have hbegun : startedBy before opened = optRecord udpsize extRCode z [] owner := by
      have hdrop : (before.d_content ++ owner).drop before.d_content.length = owner := drop_left
      change StartedRecord.mk QType.OPT (optTTL extRCode z) udpsize .ADDITIONAL
        ((before.d_content ++ owner).drop before.d_content.length) [] = _
      rw [hdrop]
      rfl
    have hstep : RecordRun.step (some s)
        (.startRecord rootName QType.OPT (optTTL extRCode z) udpsize .ADDITIONAL) =
          (s.writer.startRecord rootName.text QType.OPT (optTTL extRCode z) udpsize .ADDITIONAL).bind fun w =>
            s.writer.flush.bind fun flushed =>
              some { writer := w, started := s.started ++ [startedBy flushed w] } := rfl
    rw [hstep, hstart, Option.bind_some, hflush, Option.bind_some, hbegun]
  have hblobs := @run_xfrBlobs { writer := opened, started := s.started ++ [optRecord udpsize extRCode z [] owner] }
    s.started (optRecord udpsize extRCode z [] owner) rfl options
  obtain ⟨w, hw, hcontent, -⟩ := @commit_writing opcode question
    { opened with d_record := opened.d_record ++ options.flatMap optionOctets } s.started
    (optRecord udpsize extRCode z options owner) rfl (by
      rw [hrecord]
      rfl) ⟨rfl, rfl, rfl, rfl⟩ (by
      change before.d_content ++ owner = _
      rw [hframed.content]
      rfl)
  refine ⟨{ writer := w, started := s.started ++ [optRecord udpsize extRCode z options owner] }, owner, ?_,
    howner, hcontent⟩
  rw [run_append]
  change run RecordRun.step (run RecordRun.step (RecordRun.step (some s) (.startRecord rootName QType.OPT
    (optTTL extRCode z) udpsize .ADDITIONAL)) (options.map fun o => .xfrBlob (optionOctets o))) [.commit] = _
  rw [hfirst, hblobs, run_cons, run_nil]
  rw [step_commit, show DNSPacketWriter.commit _ = some w from hw, Option.bind_some]
  rfl

/-- The packet of a run, as it is when the next record is started. -/
def contentBefore (s : Option RecordRun) : Octets :=
  ((s.bind fun s => s.writer.flush).map DNSPacketWriter.d_content).getD []

/-- The packet of a run. -/
def contentOf (s : Option RecordRun) : Octets := (s.map fun s => s.writer.d_content).getD []

/-- A packet with a question and nothing else is read to its end. -/
theorem question_readToEnd (types : TypeMap) {opcode : UInt8} (hopcode : opcode &&& 15 = 0 ∨ opcode &&& 15 = 4)
    (qname : Name) (qtype qclass : UInt16)
    (hsize : (layout opcode (question qname qtype qclass) []).length ≤ 65535) :
    ReadToEnd types (layout opcode (question qname qtype qclass) []) := by
  have hlength := ResponseRun.length_layout opcode (question qname qtype qclass) []
  have hcontent := packetContent_layout hsize
  rw [flatMap_nil, append_nil] at hcontent
  have hquestion : question qname qtype qclass = wireLabels qname.labels ++ (be16 qtype ++ be16 qclass) := by
    unfold question
    rw [append_assoc]
  rw [hquestion, length_append] at hlength
  have hfour : (be16 qtype ++ be16 qclass).length = 4 := rfl
  have hwire : (wireLabels qname.labels).length = (labelOctets qname.labels).length + 1 := by
    rw [wireLabels_eq, length_append]
    rfl
  rw [hquestion] at hsize
  have hcount : qname.labels.length < labelFuel := by
    have hle := length_le_labelOctets qname.labels
    unfold labelFuel
    omega
  have hname := @rawLabels_wireLabels [] (be16 qtype ++ be16 qclass) qname.labels labelFuel 0
    (fun l hl => ⟨(qname.wf l hl).1, (qname.wf l hl).2.trans (by decide)⟩) (by rw [length_nil]; omega) hcount
    (Nat.zero_le _)
  rw [nil_append, length_nil, Nat.zero_add] at hname
  have htype := @readOctets_append (wireLabels qname.labels) (be16 qtype) (be16 qclass) (by
    change _ + 2 ≤ _
    omega)
  have hclass := @readOctets_append (wireLabels qname.labels ++ be16 qtype) (be16 qclass) [] (by
    rw [length_append]
    change _ + 2 + 2 ≤ _
    omega)
  rw [append_nil, append_assoc, length_append] at hclass
  refine ⟨?_, ((readText [] qname.labels, UInt16.ofNat (beNat (be16 qtype)), UInt16.ofNat (beNat (be16 qclass))),
    UInt16.ofNat ((wireLabels qname.labels).length + 2 + 2)), [], ?_, ?_, ?_⟩
  · rw [ofPacket_layout]
    rcases hopcode with h | h
    · rw [h]
      exact .inl rfl
    · rw [h]
      exact .inr rfl
  · rw [hcontent, ofPacket_layout, hquestion]
    change readQuestions _ 1 _ = _
    have hlabel : getLabel (wireLabels qname.labels ++ (be16 qtype ++ be16 qclass)) 0 =
        .ok (readText [] qname.labels, UInt16.ofNat (wireLabels qname.labels).length) := by
      unfold getLabel
      rw [getLabelFromContent_eq]
      change (rawLabels _ _ (UInt16.ofNat 0) 0).map _ = _
      rw [hname]
      rfl
    rw [readQuestions, hlabel]
    dsimp only [bind, Except.bind]
    rw [show readOctets _ 2 (UInt16.ofNat (wireLabels qname.labels).length) = _ from htype]
    dsimp only
    rw [show readOctets _ 2 (UInt16.ofNat ((wireLabels qname.labels).length + (be16 qtype).length)) = _ from hclass]
    rfl
  · rw [ofPacket_layout]
    rfl
  · rw [hcontent, hquestion, length_append, hfour]
    change (UInt16.ofNat _).toNat = _
    rw [UInt16.toNat_ofNat', Nat.mod_eq_of_lt (by omega)]

/-- The packet in front of the first record has the question only. -/
theorem contentBefore_start (qname : Name) (qtype qclass : UInt16) (opcode : UInt8) (d_sor : ℕ) :
    contentBefore (start qname qtype qclass opcode d_sor) = layout opcode (question qname qtype qclass) [] := by
  obtain ⟨s, hs, hinv⟩ := start_inv qname qtype qclass opcode d_sor
  obtain ⟨hstarted, hstuff⟩ := start_eq hs
  cases hinv with
  | idle stuff record framed =>
    unfold contentBefore
    rw [hs, Option.bind_some, show s.writer.flush = some s.writer from if_neg (not_not.mpr record)]
    rw [hstarted] at framed
    exact framed.content
  | writing rs r started =>
    rw [hstarted] at started
    exact absurd started.symm (append_ne_nil_of_right_ne_nil _ (cons_ne_nil _ _))

/-- **EDNS options.** Behind a question, and records that are framed and read to their end, an OPT record is
written. In the packet that results, if its length has 16 bits, the size and the flags are found, and the options
as they were written exactly if all codes and lengths are less than 128. And whatever the rdata of an OPT record,
it is read within its bounds. -/
theorem edns_options_iff {types : TypeMap} (hopt : ReportsOPT types) (qname : Name) (qtype qclass : UInt16)
    (opcode : UInt8) (d_sor : ℕ) (ops : List WriteOp) (udpsize : UInt16) (extRCode : UInt8) (z : UInt16)
    (options : List (UInt16 × Octets))
    (hguard : Guarded RecordRun.step KeepsFraming (start qname qtype qclass opcode d_sor)
      (ops ++ (addOpt udpsize extRCode z options ++ [.commit])))
    (hfront : ReadToEnd types
      (contentBefore (run RecordRun.step (start qname qtype qclass opcode d_sor) ops)))
    (hfit : (contentOf (run RecordRun.step (start qname qtype qclass opcode d_sor)
      (ops ++ (addOpt udpsize extRCode z options ++ [.commit])))).length ≤ 65535) :
    (ednsOf types (contentOf (run RecordRun.step (start qname qtype qclass opcode d_sor)
        (ops ++ (addOpt udpsize extRCode z options ++ [.commit])))) =
          some ⟨udpsize, extRCode, 0, z, options⟩ ↔ ∀ o ∈ options, SmallOption o) ∧
      ∀ d_data, getDataWithin d_data d_data.length 0 = some (getData d_data d_data.length 0) := by
  refine ⟨?_, fun d_data => getDataWithin_eq d_data (by omega)⟩
  rw [guarded_append] at hguard
  obtain ⟨hops, hlast⟩ := hguard
  obtain ⟨s, hs, hinv⟩ := run_invariant keepsFraming_step (start_inv qname qtype qclass opcode d_sor) hops
  rw [hs] at hlast hfront
  -- the first call of `addOpt` commits what is pending
  obtain ⟨hrdata, hlen, hroom⟩ := hlast.1 s rfl
  obtain ⟨before, hflush, hrecord, hframed⟩ := flush_framed hinv hrdata hlen
  obtain ⟨t, owner, ht, howner, hcontent⟩ := run_addOpt hflush hrecord hframed udpsize extRCode z options
  have hbefore : contentBefore (some s) = before.d_content := by
    unfold contentBefore
    rw [Option.bind_some, hflush]
    rfl
  have hafter : contentOf (some t) = t.writer.d_content := rfl
  rw [hbefore, hframed.content] at hfront
  rw [run_append, hs, ht, hafter, hcontent] at hfit ⊢
  have hquestion : question qname qtype qclass = wireLabels qname.labels ++ (be16 qtype ++ be16 qclass) := by
    unfold question
    rw [append_assoc]
  rw [hquestion] at hfront hfit ⊢
  exact ednsOf_opt_iff hopt qname.wf howner hfront hroom hfit

theorem edns_options_of_a_query :
    (ednsOf reportAllTypes (contentOf (run RecordRun.step (start questionName QType.A 1 0 0)
        ([] ++ (addOpt 1200 0 0x8000 [(5, ascii "ping"), (3, [])] ++ [.commit])))) =
          some ⟨1200, 0, 0, 0x8000, [(5, ascii "ping"), (3, [])]⟩ ↔
        ∀ o ∈ [((5 : UInt16), ascii "ping"), (3, [])], SmallOption o) ∧
      ∀ d_data, getDataWithin d_data d_data.length 0 = some (getData d_data d_data.length 0) :=
  edns_options_iff reportAllTypes_reportsOPT questionName QType.A 1 0 0 [] 1200 0 0x8000 [(5, ascii "ping"), (3, [])]
    (by decide)
    (by
      rw [run_nil, contentBefore_start]
      exact question_readToEnd reportAllTypes (.inl rfl) _ _ _ (by decide))
    (by decide)

/-- The code 128 is read as 65408, and of a value of 200 octets, which counts as 65480, nothing is found. -/
theorem large_options_lost :
    ednsOf reportAllTypes (contentOf (run RecordRun.step (start questionName QType.A 1 0 0)
        (addOpt 1200 0 0 [(128, [1])] ++ [.commit]))) = some ⟨1200, 0, 0, 0, [(65408, [1])]⟩ ∧
      ednsOf reportAllTypes (contentOf (run RecordRun.step (start questionName QType.A 1 0 0)
        (addOpt 1200 0 0 [(3, List.replicate 200 97)] ++ [.commit]))) = some ⟨1200, 0, 0, 0, []⟩ := by
  decide +kernel

end PowerDNS
