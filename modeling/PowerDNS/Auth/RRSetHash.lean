import Mathlib.Algebra.Order.BigOperators.Group.List
import PowerDNS.Packet.RecordClasses

/-!
# What is hashed for a signature

`getSHA1HashForRRSET` puts the octets together that are signed: the fields of the RRSIG up to the signature,
and the records in the order of their rdata, each behind the name in lower case. Which octets these are does
not depend on the order the records come in (`toHash_perm`), nor on the letter case of the name
(`toHash_qname`).

The rdata is that of `serialize("", true)`, which does not compress names but keeps their letters. For the
types whose names a validator turns to lower case, the octets are those it hashes only when there is nothing
to turn: `toHash_canonical_iff`.
-/

namespace PowerDNS

open CompressedName List UInt8 Bool

/-! ### The code -/

/-- What is appended for a record. -/
def hashedRecord (qname : Octets) (rrc : RRSIGContent) (rdata : Octets) : Octets :=
  toLower (simpleCompress qname) ++ be16 rrc.d_type ++ be16 1 ++ be32 rrc.d_originalttl ++
    be16 (UInt16.ofNat rdata.length) ++ rdata

/-- `serialize("", true)`, with no octets for a content that cannot be serialised. -/
def RecordContent.rdata (content : RecordContent) : Octets := (content.serialize [] true).getD []

/-- `sort` with `sharedDNSSECCompare`. Which of two records with the same rdata comes first makes no
difference for the octets; where a content cannot be serialised, nothing will be hashed. -/
def sortRRSET (signRecords : List RecordContent) : List RecordContent :=
  signRecords.insertionSort fun a b => a.rdata ≤ b.rdata

/-- The loop over the sorted records. -/
def hashRecords (qname : Octets) (rrc : RRSIGContent) : List RecordContent → Option Octets
  | [] => some []
  | add :: signRecords => do
    let rdata ← add.serialize [] true
    let rest ← hashRecords qname rrc signRecords
    some (hashedRecord qname rrc rdata ++ rest)

/-- `toHash` of `getSHA1HashForRRSET`; `none` if an exception is thrown before it is complete. -/
def toHash (qname : Octets) (rrc : RRSIGContent) (signRecords : List RecordContent) : Option Octets := do
  let start ← (RecordContent.RRSIG rrc).serialize [] true
  let records ← hashRecords qname rrc (sortRRSET signRecords)
  -- chop off the end
  some (start.take (start.length - rrc.d_signature.length) ++ records)

/-! ### Letter case -/

/-- `isalpha`. -/
def isLetter (c : UInt8) : Bool := (65 ≤ c && c ≤ 90) || (97 ≤ c && c ≤ 122)

/-- An upper case letter. -/
def isUpper (c : UInt8) : Bool := 65 ≤ c && c ≤ 90

/-- Letters in upper case. -/
def toUpper (s : Octets) : Octets := s.map fun c => if 97 ≤ c ∧ c ≤ 122 then c - 32 else c

/-- The types whose names have a canonical form in lower case, as far as there are classes for them. -/
def canonicalTypes : List UInt16 :=
  [QType.NS, QType.CNAME, QType.SOA, QType.MR, QType.PTR, QType.MX, QType.RP, QType.AFSDB, QType.SRV,
    QType.NAPTR, 36, QType.RRSIG, QType.NSEC]

namespace RecordContent

/-- The names in the rdata. -/
def names (content : RecordContent) : List Octets := content.calls.filterMap WriterCall.label?

/-- The names are changed when the type is one of these. -/
def mapCanonical (f : Octets → Octets) (content : RecordContent) : RecordContent :=
  if content.d_qtype ∈ canonicalTypes then content.mapLabels f else content

/-- The same content, but for the case of letters in such names. -/
def CaseVariant (a b : RecordContent) : Prop := b.mapCanonical toLower = a.mapCanonical toLower

instance (a b : RecordContent) : Decidable (a.CaseVariant b) :=
  inferInstanceAs (Decidable (b.mapCanonical toLower = a.mapCanonical toLower))

end RecordContent

/-- **The octets are those of every variant** of the name, the records and their order. -/
def Canonical (qname : Octets) (rrc : RRSIGContent) (signRecords : List RecordContent) : Prop :=
  ∀ qname' permuted signRecords', toLower qname' = toLower qname → permuted.Perm signRecords →
    List.Forall₂ RecordContent.CaseVariant permuted signRecords' →
      toHash qname' rrc signRecords' = toHash qname rrc signRecords

/-- There are no letters in names that have a canonical form. -/
def Caseless (signRecords : List RecordContent) : Prop :=
  ∀ content ∈ signRecords, content.d_qtype ∈ canonicalTypes → ∀ name ∈ content.names,
    ∀ c ∈ name, isLetter c = false

/-- Nothing is hashed: the RRSIG or a record cannot be serialised. -/
def Unserialisable (rrc : RRSIGContent) (signRecords : List RecordContent) : Prop :=
  (RecordContent.RRSIG rrc).serialize [] true = none ∨
    ∃ content ∈ signRecords, content.serialize [] true = none

/-! ### Any order -/

section Order

variable {qname : Octets} {rrc : RRSIGContent} {l l' : List RecordContent}

theorem perm_sortRRSET (l : List RecordContent) : (sortRRSET l).Perm l := perm_insertionSort _ l

theorem sorted_sortRRSET (l : List RecordContent) :
    (sortRRSET l).Pairwise fun a b => a.rdata ≤ b.rdata := by
  exact pairwise_insertionSort _ l

/-- Sorting makes the rdata of permutations the same. -/
theorem rdata_sortRRSET (h : (l.map RecordContent.rdata).Perm (l'.map RecordContent.rdata)) :
    (sortRRSET l).map RecordContent.rdata = (sortRRSET l').map RecordContent.rdata := by
  refine List.Perm.eq_of_pairwise (fun a b _ _ hab hba => List.le_antisymm hab hba) ?_ ?_ ?_
  · exact pairwise_map.mpr (sorted_sortRRSET l)
  · exact pairwise_map.mpr (sorted_sortRRSET l')
  · exact ((perm_sortRRSET l).map _).trans (h.trans ((perm_sortRRSET l').map _).symm)

/-- What the loop appends when every record can be serialised. -/
theorem hashRecords_eq (h : ∀ content ∈ l, content.serialize [] true ≠ none) :
    hashRecords qname rrc l = some ((l.map RecordContent.rdata).flatMap (hashedRecord qname rrc)) := by
  induction l with
  | nil => rfl
  | cons content l ih =>
    obtain ⟨hcontent, hrest⟩ := forall_mem_cons.mp h
    obtain ⟨rdata, hrdata⟩ := Option.ne_none_iff_exists'.mp hcontent
    have hget : content.rdata = rdata := by
      unfold RecordContent.rdata
      rw [hrdata, Option.getD_some]
    rw [hashRecords, hrdata, ih hrest, map_cons, flatMap_cons, hget]
    rfl

theorem hashRecords_none (h : ∃ content ∈ l, content.serialize [] true = none) :
    hashRecords qname rrc l = none := by
  induction l with
  | nil =>
    obtain ⟨content, hmem, -⟩ := h
    cases hmem
  | cons content l ih =>
    rw [hashRecords]
    cases hcontent : content.serialize [] true with
    | none => rfl
    | some rdata =>
      obtain ⟨other, hmem, hnone⟩ := h
      rcases mem_cons.mp hmem with rfl | hmem
      · rw [hcontent] at hnone
        cases hnone
      · rw [ih ⟨other, hmem, hnone⟩]
        rfl

/-- The octets, when all can be serialised. -/
theorem toHash_eq {start : Octets} (hstart : (RecordContent.RRSIG rrc).serialize [] true = some start)
    (h : ∀ content ∈ l, content.serialize [] true ≠ none) :
    toHash qname rrc l = some (start.take (start.length - rrc.d_signature.length) ++
      ((sortRRSET l).map RecordContent.rdata).flatMap (hashedRecord qname rrc)) := by
  unfold toHash
  rw [hstart, hashRecords_eq fun content hmem => h content ((perm_sortRRSET l).mem_iff.mp hmem)]
  rfl

theorem toHash_none (h : Unserialisable rrc l) : toHash qname rrc l = none := by
  unfold toHash
  rcases h with h | ⟨content, hmem, h⟩
  · rw [h]
    rfl
  · rw [hashRecords_none ⟨content, (perm_sortRRSET l).mem_iff.mpr hmem, h⟩]
    cases (RecordContent.RRSIG rrc).serialize [] true <;> rfl

/-- Either nothing is hashed, or all can be serialised. -/
theorem serialised_or (rrc : RRSIGContent) (l : List RecordContent) : Unserialisable rrc l ∨
    ∃ start, (RecordContent.RRSIG rrc).serialize [] true = some start ∧
      ∀ content ∈ l, content.serialize [] true ≠ none := by
  cases hstart : (RecordContent.RRSIG rrc).serialize [] true with
  | none => exact .inl (.inl hstart)
  | some start =>
    by_cases h : ∃ content ∈ l, content.serialize [] true = none
    · exact .inl (.inr h)
    · exact .inr ⟨start, rfl, fun content hmem hnone => h ⟨content, hmem, hnone⟩⟩

/-- **The order of the records makes no difference.** -/
theorem toHash_perm (qname : Octets) (rrc : RRSIGContent) (h : l.Perm l') :
    toHash qname rrc l = toHash qname rrc l' := by
  rcases serialised_or rrc l with hnone | ⟨start, hstart, hall⟩
  · have hnone' : Unserialisable rrc l' :=
      hnone.imp_right fun ⟨content, hmem, hcontent⟩ => ⟨content, h.mem_iff.mp hmem, hcontent⟩
    rw [toHash_none hnone, toHash_none hnone']
  · rw [toHash_eq hstart hall, toHash_eq hstart fun content hmem => hall content (h.mem_iff.mpr hmem),
      rdata_sortRRSET (h.map _)]

end Order

/-! ### Any case of the name -/

section Owner

variable {qname qname' : Octets}

theorem dnsTolower_injective_dot {c d : UInt8} (h : dnsTolower c = dnsTolower d) : c = dot ↔ d = dot := by
  rw [← dnsTolower_eq_dot c, h, dnsTolower_eq_dot]

/-- The tokens of a name lie where those of a variant lie. -/
theorem vstringtokFrom_toLower (h : toLower qname' = toLower qname) (pos : Nat) (start : Option Nat) :
    vstringtokFrom pos start qname' = vstringtokFrom pos start qname := by
  induction qname' generalizing qname pos start with
  | nil =>
    obtain rfl : qname = [] := (toLower_eq_nil qname).mp h.symm
    rfl
  | cons c t ih =>
    obtain ⟨d, s, rfl⟩ : ∃ d s, qname = d :: s := by
      cases qname with
      | nil => cases h
      | cons d s => exact ⟨d, s, rfl⟩
    rw [toLower_cons, toLower_cons, List.cons.injEq] at h
    have hdot := dnsTolower_injective_dot h.1
    cases start with
    | none =>
      rw [vstringtokFrom, vstringtokFrom]
      by_cases hc : c = dot
      · rw [if_pos hc, if_pos (hdot.mp hc), ih h.2]
      · rw [if_neg hc, if_neg (mt hdot.mpr hc), ih h.2]
    | some start =>
      rw [vstringtokFrom, vstringtokFrom]
      by_cases hc : c = dot
      · rw [if_pos hc, if_pos (hdot.mp hc), ih h.2]
      · rw [if_neg hc, if_neg (mt hdot.mpr hc), ih h.2]

theorem toLower_rawPart (h : toLower qname' = toLower qname) (i : Nat × Nat) :
    toLower (rawPart qname' i) = toLower (rawPart qname i) := by
  unfold rawPart toLower at *
  rw [map_take, map_drop, map_append, h, map_take, map_drop, map_append]

theorem toLower_simpleCompressParts (h : toLower qname' = toLower qname) (is : List (Nat × Nat)) :
    toLower (simpleCompressParts qname' [] is) = toLower (simpleCompressParts qname [] is) := by
  induction is with
  | nil => rfl
  | cons i is ih =>
    rw [simpleCompressParts, simpleCompressParts, if_neg (fun hroot => hroot.1 rfl),
      if_neg (fun hroot => hroot.1 rfl), toLower_append, toLower_append, toLower_cons, toLower_cons,
      toLower_rawPart h, ih]

/-- **The letter case of the name makes no difference.** -/
theorem hashedRecord_qname (h : toLower qname' = toLower qname) (rrc : RRSIGContent) :
    hashedRecord qname' rrc = hashedRecord qname rrc := by
  funext rdata
  unfold hashedRecord simpleCompress
  rw [vstringtokFrom_toLower h, toLower_simpleCompressParts h]

theorem toHash_qname (h : toLower qname' = toLower qname) (rrc : RRSIGContent) (l : List RecordContent) :
    toHash qname' rrc l = toHash qname rrc l := by
  rcases serialised_or rrc l with hnone | ⟨start, hstart, hall⟩
  · rw [toHash_none hnone, toHash_none hnone]
  · rw [toHash_eq hstart hall, toHash_eq hstart hall, hashedRecord_qname h]

end Owner

/-! ### Names in lower case -/

/-- The octets of a string, added up. -/
def octetSum (s : Octets) : Nat := (s.map UInt8.toNat).sum

theorem octetSum_append (s t : Octets) : octetSum (s ++ t) = octetSum s + octetSum t := by
  unfold octetSum
  rw [map_append, sum_append]

theorem octetSum_cons (c : UInt8) (s : Octets) : octetSum (c :: s) = c.toNat + octetSum s := rfl

/-- What is added when upper case letters are turned to lower case. -/
theorem toNat_dnsTolower (c : UInt8) : (dnsTolower c).toNat = c.toNat + if isUpper c then 32 else 0 := by
  unfold dnsTolower isUpper
  by_cases h : 65 ≤ c ∧ c ≤ 90
  · have hle : c.toNat ≤ 90 := le_iff_toNat_le.mp h.2
    rw [if_pos h, if_pos (by rw [decide_eq_true h.1, decide_eq_true h.2]; rfl), UInt8.toNat_add]
    change (c.toNat + 32) % 256 = c.toNat + 32
    omega
  · rw [if_neg h, if_neg]
    · rfl
    · rw [and_eq_true, decide_eq_true_iff, decide_eq_true_iff]
      exact h

namespace LabelToken

/-- The token with its letter in lower case. -/
def lower : LabelToken → LabelToken
  | plain c => plain (dnsTolower c)
  | escaped c => escaped (dnsTolower c)
  | dangling => dangling

end LabelToken

/-- Two strings of octets, or none at all, of the same length, and what the second has more. -/
def LoweredBy (n : Nat) (a b : Option Octets) : Prop :=
  (a = none ∧ b = none) ∨
    ∃ o o', a = some o ∧ b = some o' ∧ o'.length = o.length ∧ octetSum o' = octetSum o + 32 * n

section Lowered

variable {l : List LabelToken}

theorem raw_lower (tok : LabelToken) : tok.lower.raw.length = tok.raw.length := by
  cases tok <;> rfl

theorem length_rawLabel_lower (l : List LabelToken) :
    (rawLabel (l.map LabelToken.lower)).length = (rawLabel l).length := by
  induction l with
  | nil => rfl
  | cons tok l ih =>
    change (tok.lower.raw ++ rawLabel (l.map LabelToken.lower)).length = (tok.raw ++ rawLabel l).length
    rw [length_append, length_append, ih, raw_lower]

theorem scanLabels_dangling (lpos : Nat) (cur : List LabelToken) :
    scanLabels lpos cur [backslash] = [(lpos, cur ++ [.dangling])] := by
  exact if_pos rfl

/-- The labels of a text in lower case are its labels in lower case. -/
theorem scanLabels_toLower (lpos : Nat) (cur : List LabelToken) (t : Octets) :
    scanLabels lpos (cur.map LabelToken.lower) (toLower t) =
      (scanLabels lpos cur t).map fun s => (s.1, s.2.map LabelToken.lower) := by
  induction lpos, cur, t using scanLabels.induct with
  | case1 lpos => rfl
  | case2 lpos cur hne =>
    unfold scanLabels
    rw [if_neg hne]
    exact if_neg (mt map_eq_nil_iff.mp hne)
  | case3 lpos cur =>
    rw [toLower_cons, (dnsTolower_eq_backslash backslash).mpr rfl, toLower_nil, scanLabels_dangling,
      scanLabels_dangling, map_singleton, map_append]
    rfl
  | case4 lpos cur d t ih =>
    rw [toLower_cons, toLower_cons, (dnsTolower_eq_backslash backslash).mpr rfl, scanLabels_escape,
      scanLabels_escape, ← ih, map_append]
    rfl
  | case5 lpos cur t _ ih =>
    rw [toLower_cons, (dnsTolower_eq_dot dot).mpr rfl, scanLabels_dot, scanLabels_dot, map_cons, ← ih,
      length_rawLabel_lower]
    rfl
  | case6 lpos cur c t hback hdot ih =>
    rw [toLower_cons, scanLabels_octet (mt (dnsTolower_eq_dot c).mp hdot)
      (mt (dnsTolower_eq_backslash c).mp hback), scanLabels_octet hdot hback, ← ih, map_append]
    rfl

theorem textLabels_toLower (text : Octets) :
    textLabels (toLower text) = (textLabels text).map fun s => (s.1, s.2.map LabelToken.lower) := by
  unfold textLabels
  by_cases hroot : text = [dot]
  · rw [hroot]
    rfl
  · have hlower : toLower text ≠ [dot] := by
      intro h
      obtain ⟨c, rfl⟩ : ∃ c, text = [c] := length_eq_one_iff.mp (by rw [← length_toLower, h]; rfl)
      exact hroot (by rw [(dnsTolower_eq_dot c).mp (List.cons.inj h).1])
    rw [if_neg hroot, if_neg hlower]
    exact scanLabels_toLower 0 [] text

/-- Every letter of the text is in one of its labels. -/
theorem sum_upper_scanLabels (lpos : Nat) (cur : List LabelToken) (t : Octets) :
    ((scanLabels lpos cur t).map fun s => (rawLabel s.2).countP isUpper).sum =
      (rawLabel cur).countP isUpper + t.countP isUpper := by
  induction lpos, cur, t using scanLabels.induct with
  | case1 lpos => rfl
  | case2 lpos cur hne =>
    unfold scanLabels
    rw [if_neg hne]
    simp
  | case3 lpos cur =>
    unfold scanLabels
    rw [if_pos rfl, map_singleton, sum_singleton, rawLabel_append, countP_append]
    rfl
  | case4 lpos cur d t ih =>
    have hback : isUpper backslash = false := by decide
    rw [scanLabels_escape, ih, rawLabel_append, countP_append, Nat.add_assoc, countP_cons,
      countP_cons, hback]
    change _ + ([backslash, d].countP isUpper + _) = _
    rw [countP_cons, countP_cons, hback, countP_nil]
    omega
  | case5 lpos cur t _ ih =>
    have hdot : isUpper dot = false := by decide
    rw [scanLabels_dot, map_cons, sum_cons, ih, countP_cons, hdot]
    change _ + (0 + _) = _
    rw [Nat.zero_add]
    rfl
  | case6 lpos cur c t hback hdot ih =>
    rw [scanLabels_octet hdot hback, ih, rawLabel_append, countP_append, Nat.add_assoc, countP_cons]
    change _ + ([c].countP isUpper + _) = _
    rw [countP_cons, countP_nil, Nat.zero_add, Nat.add_comm (List.countP isUpper t)]

/-- What the writer leaves of a token, in lower case. -/
theorem kept_lower (tok : LabelToken) : tok.lower.kept.length = tok.kept.length ∧
    octetSum tok.lower.kept = octetSum tok.kept + 32 * tok.raw.countP isUpper := by
  cases tok with
  | dangling => exact ⟨rfl, rfl⟩
  | plain c =>
    refine ⟨rfl, ?_⟩
    change (dnsTolower c).toNat + 0 = (c.toNat + 0) + 32 * [c].countP isUpper
    rw [toNat_dnsTolower, countP_cons, countP_nil]
    split <;> omega
  | escaped c =>
    have hraw : (LabelToken.escaped c).raw.countP isUpper = if isUpper c then 1 else 0 := by
      change [backslash, c].countP isUpper = _
      rw [countP_cons, countP_cons, countP_nil]
      have hback : isUpper backslash = false := by decide
      rw [hback, Nat.zero_add]
      rfl
    have hlower := toNat_dnsTolower c
    rw [hraw]
    change (if dnsTolower c = dot ∨ dnsTolower c = backslash then [dnsTolower c]
        else [backslash, dnsTolower c]).length =
          (if c = dot ∨ c = backslash then [c] else [backslash, c]).length ∧
      octetSum (if dnsTolower c = dot ∨ dnsTolower c = backslash then [dnsTolower c]
        else [backslash, dnsTolower c]) =
          octetSum (if c = dot ∨ c = backslash then [c] else [backslash, c]) + 32 * _
    have hsame : (dnsTolower c = dot ∨ dnsTolower c = backslash) ↔ c = dot ∨ c = backslash := by
      rw [dnsTolower_eq_dot, dnsTolower_eq_backslash]
    by_cases hc : c = dot ∨ c = backslash
    · rw [if_pos hc, if_pos (hsame.mpr hc)]
      refine ⟨rfl, ?_⟩
      rw [octetSum_cons, octetSum_cons, hlower]
      split <;> omega
    · rw [if_neg hc, if_neg (mt hsame.mp hc)]
      refine ⟨rfl, ?_⟩
      simp only [octetSum_cons]
      rw [hlower]
      split <;> omega

theorem keptLabel_lower (l : List LabelToken) :
    (keptLabel (l.map LabelToken.lower)).length = (keptLabel l).length ∧
      octetSum (keptLabel (l.map LabelToken.lower)) =
        octetSum (keptLabel l) + 32 * (rawLabel l).countP isUpper := by
  induction l with
  | nil => exact ⟨rfl, rfl⟩
  | cons tok l ih =>
    obtain ⟨hlength, hsum⟩ := ih
    obtain ⟨htok, htoksum⟩ := kept_lower tok
    change (tok.lower.kept ++ keptLabel (l.map LabelToken.lower)).length = (tok.kept ++ keptLabel l).length ∧
      octetSum (tok.lower.kept ++ keptLabel (l.map LabelToken.lower)) =
        octetSum (tok.kept ++ keptLabel l) + 32 * (tok.raw ++ rawLabel l).countP isUpper
    rw [length_append, length_append, octetSum_append, octetSum_append, countP_append, hlength,
      htok, hsum, htoksum]
    exact ⟨rfl, by omega⟩

theorem keptOctets_lower (ls : List (List LabelToken)) :
    (keptOctets (ls.map (List.map LabelToken.lower))).length = (keptOctets ls).length ∧
      octetSum (keptOctets (ls.map (List.map LabelToken.lower))) =
        octetSum (keptOctets ls) + 32 * (ls.map fun l => (rawLabel l).countP isUpper).sum := by
  induction ls with
  | nil => exact ⟨rfl, rfl⟩
  | cons l ls ih =>
    obtain ⟨hlength, hsum⟩ := ih
    obtain ⟨hl, hlsum⟩ := keptLabel_lower l
    rw [map_cons, keptOctets_cons, keptOctets_cons, length_append, length_append,
      length_cons, length_cons, octetSum_append, octetSum_append, octetSum_cons, octetSum_cons,
      map_cons, sum_cons, hlength, hl, hsum, hlsum]
    exact ⟨rfl, by omega⟩

/-- **A name in lower case**: the same octets but for its letters. -/
theorem canonicalName_toLower (text : Octets) :
    LoweredBy (text.countP isUpper) (canonicalName text) (canonicalName (toLower text)) := by
  have hlabels : (textLabels (toLower text)).map Prod.snd =
      ((textLabels text).map Prod.snd).map (List.map LabelToken.lower) := by
    rw [textLabels_toLower, map_map, map_map]
    rfl
  have hback : backslash ∈ toLower text ↔ backslash ∈ text := by
    unfold toLower
    rw [mem_map]
    constructor
    · rintro ⟨c, hc, heq⟩
      rwa [(dnsTolower_eq_backslash c).mp heq] at hc
    · exact fun h => ⟨backslash, h, by decide⟩
  have hsum : (((textLabels text).map Prod.snd).map fun l => (rawLabel l).countP isUpper).sum =
      text.countP isUpper := by
    unfold textLabels
    split
    next hroot => rw [hroot]; decide
    next =>
      have hscan := sum_upper_scanLabels 0 [] text
      rw [map_map]
      exact hscan.trans (Nat.zero_add _)
  obtain ⟨hlength, hoctets⟩ := keptOctets_lower ((textLabels text).map Prod.snd)
  have hlong : (∃ l ∈ ((textLabels text).map Prod.snd).map (List.map LabelToken.lower),
      255 < (keptLabel l).length) ↔ ∃ l ∈ (textLabels text).map Prod.snd, 255 < (keptLabel l).length := by
    constructor
    · rintro ⟨l, hl, hlt⟩
      obtain ⟨l', hl', rfl⟩ := mem_map.mp hl
      exact ⟨l', hl', by rw [(keptLabel_lower l').1] at hlt; exact hlt⟩
    · rintro ⟨l, hl, hlt⟩
      exact ⟨l.map LabelToken.lower, mem_map_of_mem hl, by rw [(keptLabel_lower l).1]; exact hlt⟩
  unfold canonicalName
  rw [hlabels]
  by_cases h : backslash ∈ text ∧ ∃ l ∈ (textLabels text).map Prod.snd, 255 < (keptLabel l).length
  · rw [if_pos h, if_pos ⟨hback.mpr h.1, hlong.mpr h.2⟩]
    exact .inl ⟨rfl, rfl⟩
  · rw [if_neg h, if_neg fun h' => h ⟨hback.mp h'.1, hlong.mp h'.2⟩]
    refine .inr ⟨_, _, rfl, rfl, ?_, ?_⟩
    · rw [length_append, length_append, hlength]
    · rw [octetSum_append, octetSum_append, hoctets]
      omega

end Lowered

/-! ### Contents in lower case -/

namespace LoweredBy

variable {a b : Option Octets} {n : Nat}

theorem none_iff (h : LoweredBy n a b) : b = none ↔ a = none := by
  rcases h with ⟨rfl, rfl⟩ | ⟨o, o', rfl, rfl, -⟩
  · exact Iff.rfl
  · exact ⟨nofun, nofun⟩

theorem refl (a : Option Octets) : LoweredBy 0 a a := by
  cases a with
  | none => exact .inl ⟨rfl, rfl⟩
  | some o => exact .inr ⟨o, o, rfl, rfl, rfl, rfl⟩

theorem getD (h : LoweredBy n a b) (ha : a ≠ none) :
    (b.getD []).length = (a.getD []).length ∧ octetSum (b.getD []) = octetSum (a.getD []) + 32 * n := by
  rcases h with ⟨rfl, -⟩ | ⟨o, o', rfl, rfl, hlength, hsum⟩
  · exact absurd rfl ha
  · exact ⟨hlength, hsum⟩

end LoweredBy

/-- The upper case letters in the name of a call. -/
def WriterCall.uppers (call : WriterCall) : Nat := (call.label?.map (List.countP isUpper)).getD 0

/-- The upper case letters in the names of a content. -/
def RecordContent.uppers (content : RecordContent) : Nat :=
  if content.d_qtype ∈ canonicalTypes then (content.calls.map WriterCall.uppers).sum else 0

theorem octets_toLower (call : WriterCall) :
    LoweredBy call.uppers call.octets (call.mapLabel toLower).octets := by
  cases call with
  | xfrLabel label compress => exact canonicalName_toLower label
  | _ => exact LoweredBy.refl _

theorem callsOctets_toLower (calls : List WriterCall) : LoweredBy (calls.map WriterCall.uppers).sum
    (callsOctets calls) (callsOctets (calls.map (WriterCall.mapLabel toLower))) := by
  induction calls with
  | nil => exact LoweredBy.refl _
  | cons call calls ih =>
    rw [map_cons, map_cons, callsOctets, callsOctets, sum_cons]
    rcases octets_toLower call with ⟨hcall, hlower⟩ | ⟨o, o', hcall, hlower, hlength, hsum⟩
    · rw [hcall, hlower]
      exact .inl ⟨rfl, rfl⟩
    · rw [hcall, hlower]
      rcases ih with ⟨hrest, hlower'⟩ | ⟨r, r', hrest, hlower', hlength', hsum'⟩
      · rw [hrest, hlower']
        exact .inl ⟨rfl, rfl⟩
      · rw [hrest, hlower']
        refine .inr ⟨_, _, rfl, rfl, ?_, ?_⟩
        · rw [length_append, length_append, hlength, hlength']
        · rw [octetSum_append, octetSum_append, hsum, hsum']
          omega

namespace RecordContent

variable {content : RecordContent}

theorem d_qtype_mapCanonical (f : Octets → Octets) (content : RecordContent) :
    (content.mapCanonical f).d_qtype = content.d_qtype := by
  unfold mapCanonical
  split
  next => exact d_qtype_mapLabels f content
  next => rfl

theorem mapLabels_mapLabels (f g : Octets → Octets) (content : RecordContent) :
    (content.mapLabels f).mapLabels g = content.mapLabels (g ∘ f) := by
  cases content <;> rfl

theorem mapCanonical_mapCanonical (f g : Octets → Octets) (content : RecordContent) :
    (content.mapCanonical f).mapCanonical g = content.mapCanonical (g ∘ f) := by
  have htype := d_qtype_mapCanonical f content
  unfold mapCanonical at htype ⊢
  by_cases h : content.d_qtype ∈ canonicalTypes
  · rw [if_pos h] at htype
    rw [if_pos h, htype, if_pos h, if_pos h, mapLabels_mapLabels]
  · rw [if_neg h, if_neg h, if_neg h]

theorem serialize_toLower (content : RecordContent) : LoweredBy content.uppers (content.serialize [] true)
    ((content.mapCanonical toLower).serialize [] true) := by
  unfold uppers mapCanonical
  split
  next =>
    rw [serialize_canonic, serialize_canonic, calls_mapLabels]
    exact callsOctets_toLower content.calls
  next => exact LoweredBy.refl _

theorem mem_names {name : Octets} :
    name ∈ content.names ↔ ∃ call ∈ content.calls, call.label? = some name := mem_filterMap

theorem names_mapLabels (f : Octets → Octets) (content : RecordContent) :
    (content.mapLabels f).names = content.names.map f := by
  unfold names
  rw [calls_mapLabels, filterMap_map, map_filterMap]
  refine filterMap_congr fun call _ => ?_
  cases call <;> rfl

/-- A content whose names stay as they are stays as it is. -/
theorem mapLabels_eq_self {f : Octets → Octets} (h : ∀ name ∈ content.names, f name = name) :
    content.mapLabels f = content := by
  cases content <;> simp_all [names, calls, mapLabels, WriterCall.label?, RRSIGContent.calls,
    NSECContent.calls]

end RecordContent

/-! ### The octets of a variant -/

section Variants

variable {qname : Octets} {rrc : RRSIGContent} {l : List RecordContent}

/-- The records alone, added up: their order plays no part. -/
theorem octetSum_sorted (qname : Octets) (rrc : RRSIGContent) (l : List RecordContent) :
    octetSum (((sortRRSET l).map RecordContent.rdata).flatMap (hashedRecord qname rrc)) =
      (l.map fun content => octetSum (hashedRecord qname rrc content.rdata)).sum := by
  have hflat : ∀ rdatas : List Octets, octetSum (rdatas.flatMap (hashedRecord qname rrc)) =
      (rdatas.map fun rdata => octetSum (hashedRecord qname rrc rdata)).sum := by
    intro rdatas
    induction rdatas with
    | nil => rfl
    | cons rdata rdatas ih => rw [flatMap_cons, octetSum_append, ih, map_cons, sum_cons]
  rw [hflat, map_map]
  exact ((perm_sortRRSET l).map _).sum_eq

theorem octetSum_hashedRecord {rdata rdata' : Octets} {n : Nat} (hlength : rdata'.length = rdata.length)
    (hsum : octetSum rdata' = octetSum rdata + 32 * n) : octetSum (hashedRecord qname rrc rdata') =
      octetSum (hashedRecord qname rrc rdata) + 32 * n := by
  unfold hashedRecord
  rw [hlength, octetSum_append _ rdata', octetSum_append _ rdata, hsum, Nat.add_assoc]

/-- **What letters in names change**: with all names in lower case, the octets add up to more. -/
theorem octetSum_toLower (hserial : ∀ content ∈ l, content.serialize [] true ≠ none) :
    octetSum (((sortRRSET (l.map (RecordContent.mapCanonical toLower))).map RecordContent.rdata).flatMap
      (hashedRecord qname rrc)) =
    octetSum (((sortRRSET l).map RecordContent.rdata).flatMap (hashedRecord qname rrc)) +
      32 * (l.map RecordContent.uppers).sum := by
  rw [octetSum_sorted, octetSum_sorted, map_map]
  induction l with
  | nil => rfl
  | cons content l ih =>
    obtain ⟨hcontent, hrest⟩ := forall_mem_cons.mp hserial
    obtain ⟨hlength, hsum⟩ := content.serialize_toLower.getD hcontent
    have hhead : octetSum (hashedRecord qname rrc (content.mapCanonical toLower).rdata) =
        octetSum (hashedRecord qname rrc content.rdata) + 32 * content.uppers :=
      octetSum_hashedRecord hlength hsum
    simp only [map_cons, sum_cons]
    rw [ih hrest, Function.comp_apply, hhead]
    omega

/-- Turning names to other case makes a variant. -/
theorem caseVariant_mapCanonical {f : Octets → Octets} (hf : ∀ s, toLower (f s) = toLower s)
    (content : RecordContent) : content.CaseVariant (content.mapCanonical f) := by
  unfold RecordContent.CaseVariant
  rw [RecordContent.mapCanonical_mapCanonical]
  exact congrArg (fun g => content.mapCanonical g) (funext hf)

theorem forall₂_mapCanonical {f : Octets → Octets} (hf : ∀ s, toLower (f s) = toLower s)
    (l : List RecordContent) : List.Forall₂ RecordContent.CaseVariant l (l.map (RecordContent.mapCanonical f)) := by
  rw [forall₂_map_right_iff]
  exact forall₂_same.mpr fun content _ => caseVariant_mapCanonical hf content

/-- Whether a content can be serialised does not depend on the case of its names. -/
theorem serialize_none_congr {a b : RecordContent} (h : a.CaseVariant b) :
    b.serialize [] true = none ↔ a.serialize [] true = none := by
  rw [← b.serialize_toLower.none_iff, h, a.serialize_toLower.none_iff]

theorem toLower_toUpper (s : Octets) : toLower (toUpper s) = toLower s := by
  unfold toLower toUpper
  rw [map_map]
  refine map_congr_left fun c _ => ?_
  unfold dnsTolower
  grind

/-- A letter turned up is an upper case letter. -/
theorem isUpper_raised {c : UInt8} (h : isLetter c = true) :
    isUpper (if 97 ≤ c ∧ c ≤ 122 then c - 32 else c) = true := by
  unfold isLetter at h
  unfold isUpper
  rw [or_eq_true, and_eq_true, and_eq_true] at h
  simp only [decide_eq_true_eq, le_iff_toNat_le] at h
  simp only [and_eq_true, decide_eq_true_eq, le_iff_toNat_le]
  change (65 ≤ c.toNat ∧ c.toNat ≤ 90) ∨ (97 ≤ c.toNat ∧ c.toNat ≤ 122) at h
  change 65 ≤ (if 97 ≤ c.toNat ∧ c.toNat ≤ 122 then c - 32 else c).toNat ∧
    (if 97 ≤ c.toNat ∧ c.toNat ≤ 122 then c - 32 else c).toNat ≤ 90
  by_cases hlow : 97 ≤ c.toNat ∧ c.toNat ≤ 122
  · have hsub : (c - 32).toNat = c.toNat - 32 :=
      UInt8.toNat_sub_of_le c 32 (UInt8.le_iff_toNat_le.mpr (le_trans (by decide) hlow.1))
    rw [if_pos hlow, hsub]
    omega
  · rw [if_neg hlow]
    omega

/-- Only the octet itself becomes an octet that is no letter. -/
theorem eq_of_dnsTolower {c d : UInt8} (hd : isLetter d = false) (h : dnsTolower c = dnsTolower d) :
    c = d := by
  have hnat := congrArg UInt8.toNat h
  rw [toNat_dnsTolower, toNat_dnsTolower] at hnat
  unfold isLetter at hd
  unfold isUpper at hnat
  rw [Bool.or_eq_false_iff, Bool.and_eq_false_iff, Bool.and_eq_false_iff] at hd
  simp only [decide_eq_false_iff_not, UInt8.le_iff_toNat_le] at hd
  simp only [Bool.and_eq_true, decide_eq_true_eq, UInt8.le_iff_toNat_le] at hnat
  change (¬ 65 ≤ d.toNat ∨ ¬ d.toNat ≤ 90) ∧ (¬ 97 ≤ d.toNat ∨ ¬ d.toNat ≤ 122) at hd
  change c.toNat + (if 65 ≤ c.toNat ∧ c.toNat ≤ 90 then 32 else 0) =
    d.toNat + (if 65 ≤ d.toNat ∧ d.toNat ≤ 90 then 32 else 0) at hnat
  refine UInt8.toNat_inj.mp ?_
  split at hnat <;> split at hnat <;> omega

theorem isUpper_toUpper {s : Octets} {c : UInt8} (hc : c ∈ s) (hletter : isLetter c = true) :
    0 < (toUpper s).countP isUpper := by
  rw [countP_pos_iff]
  exact ⟨_, mem_map_of_mem hc, isUpper_raised hletter⟩

/-- Where there is a letter, its content has one more upper case letter when all are turned up. -/
theorem uppers_toUpper {content : RecordContent} (htype : content.d_qtype ∈ canonicalTypes) {name : Octets}
    (hname : name ∈ content.names) {c : UInt8} (hc : c ∈ name) (hletter : isLetter c = true) :
    0 < (content.mapCanonical toUpper).uppers := by
  unfold RecordContent.uppers
  rw [RecordContent.d_qtype_mapCanonical, if_pos htype]
  have hmap : content.mapCanonical toUpper = content.mapLabels toUpper := if_pos htype
  have hupper : toUpper name ∈ (content.mapLabels toUpper).names := by
    rw [RecordContent.names_mapLabels]
    exact mem_map_of_mem hname
  obtain ⟨call, hcall, hlabel⟩ := RecordContent.mem_names.mp hupper
  have hpos : 0 < call.uppers := by
    unfold WriterCall.uppers
    rw [hlabel]
    exact isUpper_toUpper hc hletter
  rw [hmap]
  exact Nat.lt_of_lt_of_le hpos (single_le_sum (fun _ _ => Nat.zero_le _) _ (mem_map_of_mem hcall))

/-- A content without letters has no other variant. -/
theorem eq_of_caseVariant {a b : RecordContent} (h : a.CaseVariant b)
    (hcaseless : a.d_qtype ∈ canonicalTypes → ∀ name ∈ a.names, ∀ c ∈ name, isLetter c = false) : b = a := by
  have hplain : ∀ s t : Octets, (∀ c ∈ t, isLetter c = false) → toLower s = toLower t → s = t := by
    intro s t ht heq
    induction s generalizing t with
    | nil => exact ((toLower_eq_nil t).mp heq.symm).symm
    | cons c s ih =>
      cases t with
      | nil => cases heq
      | cons d t =>
        obtain ⟨hd, ht⟩ := forall_mem_cons.mp ht
        rw [toLower_cons, toLower_cons, List.cons.injEq] at heq
        rw [eq_of_dnsTolower hd heq.1, ih t ht heq.2]
  have htype : b.d_qtype = a.d_qtype := by
    rw [← RecordContent.d_qtype_mapCanonical toLower b, h, RecordContent.d_qtype_mapCanonical]
  unfold RecordContent.CaseVariant RecordContent.mapCanonical at h
  rw [htype] at h
  by_cases hmem : a.d_qtype ∈ canonicalTypes
  · rw [if_pos hmem, if_pos hmem] at h
    have hself : ∀ s : Octets, (∀ c ∈ s, isLetter c = false) → toLower s = s := fun s hs =>
      hplain (toLower s) s hs (toLower_toLower s)
    have ha : a.mapLabels toLower = a :=
      RecordContent.mapLabels_eq_self fun name hname => hself name (hcaseless hmem name hname)
    -- the names of the variant have no letters either
    have hb : b.mapLabels toLower = b := by
      refine RecordContent.mapLabels_eq_self fun name hname => ?_
      have hlower : toLower name ∈ a.names := by
        rw [← ha, ← h, RecordContent.names_mapLabels]
        exact mem_map_of_mem hname
      rw [hplain name (toLower name) (hcaseless hmem _ hlower) (toLower_toLower name).symm, toLower_toLower]
    rw [← hb, h, ha]
  · rwa [if_neg hmem, if_neg hmem] at h

/-- **What is hashed is canonical when there are no letters to turn to lower case**, or when nothing is
hashed at all. -/
theorem toHash_canonical_iff (qname : Octets) (rrc : RRSIGContent) (signRecords : List RecordContent) :
    Canonical qname rrc signRecords ↔ Caseless signRecords ∨ Unserialisable rrc signRecords := by
  constructor
  · intro hcanonical
    rcases serialised_or rrc signRecords with hnone | ⟨start, hstart, hserial⟩
    · exact .inr hnone
    refine .inl fun content hcontent htype name hname c hc => ?_
    by_contra hletter
    rw [not_eq_false] at hletter
    -- the records with all letters up, and with all letters down
    have hup := hcanonical qname _ _ rfl (List.Perm.refl _) (forall₂_mapCanonical toLower_toUpper signRecords)
    have hdown := hcanonical qname _ _ rfl (List.Perm.refl _) (forall₂_mapCanonical toLower_toLower signRecords)
    have hlower : signRecords.map (RecordContent.mapCanonical toLower) =
        (signRecords.map (RecordContent.mapCanonical toUpper)).map (RecordContent.mapCanonical toLower) := by
      rw [map_map]
      refine map_congr_left fun other _ => ?_
      rw [Function.comp_apply, RecordContent.mapCanonical_mapCanonical]
      exact congrArg (fun g => other.mapCanonical g) (funext fun s => (toLower_toUpper s).symm)
    have hserialUp : ∀ other ∈ signRecords.map (RecordContent.mapCanonical toUpper),
        other.serialize [] true ≠ none := by
      intro other hother
      obtain ⟨record, hrecord, rfl⟩ := mem_map.mp hother
      exact mt (serialize_none_congr (caseVariant_mapCanonical toLower_toUpper record)).mp (hserial record hrecord)
    have hserialDown : ∀ other ∈ signRecords.map (RecordContent.mapCanonical toLower),
        other.serialize [] true ≠ none := by
      intro other hother
      obtain ⟨record, hrecord, rfl⟩ := mem_map.mp hother
      exact mt (serialize_none_congr (caseVariant_mapCanonical toLower_toLower record)).mp (hserial record hrecord)
    rw [← hdown, toHash_eq hstart hserialUp, toHash_eq hstart hserialDown, Option.some.injEq,
      append_cancel_left_eq, hlower] at hup
    have hsum := @octetSum_toLower qname rrc _ hserialUp
    rw [← hup] at hsum
    have hpos := uppers_toUpper htype hname hc hletter
    have hle : (content.mapCanonical toUpper).uppers ≤
        ((signRecords.map (RecordContent.mapCanonical toUpper)).map RecordContent.uppers).sum :=
      single_le_sum (fun _ _ => Nat.zero_le _) _ (mem_map_of_mem (mem_map_of_mem hcontent))
    omega
  · rintro (hcaseless | hnone) qname' permuted signRecords' hqname hperm hvariants
    · have hsame : permuted = signRecords' := by
        have hcaseless' : Caseless permuted := fun content hmem => hcaseless content (hperm.mem_iff.mp hmem)
        clear hperm
        induction hvariants with
        | nil => rfl
        | @cons a b as bs hab _ ih =>
          rw [eq_of_caseVariant hab (hcaseless' a mem_cons_self),
            ih fun content hmem => hcaseless' content (mem_cons_of_mem a hmem)]
      rw [← hsame, toHash_qname hqname, toHash_perm qname rrc hperm]
    · have hnone' : Unserialisable rrc signRecords' := by
        refine hnone.imp_right fun ⟨content, hmem, hcontent⟩ => ?_
        obtain ⟨other, hother, hvariant⟩ : ∃ other ∈ signRecords', content.CaseVariant other := by
          obtain ⟨i, hi, rfl⟩ := getElem_of_mem (hperm.mem_iff.mpr hmem)
          have hlength := hvariants.length_eq
          exact ⟨signRecords'[i], getElem_mem _, hvariants.get hi (hlength ▸ hi)⟩
        exact ⟨other, hother, (serialize_none_congr hvariant).mpr hcontent⟩
      rw [toHash_none hnone, toHash_none hnone']

end Variants

/-- The fields of a signature over mail exchangers. -/
def exchangerRRSIG : RRSIGContent :=
  { d_type := QType.MX, d_algorithm := 5, d_labels := 2, d_originalttl := 3600, d_sigexpire := 1263513600,
    d_siginception := 1262304000, d_tag := 0, d_signer := ascii "example.com", d_signature := [] }

/-- **The host of a mail exchanger keeps its capital.** A validator turns it to lower case. -/
theorem capital_hashed :
    ¬ Canonical (ascii "example.com") exchangerRRSIG [.MX 10 (ascii "Mail.example.com")] := by
  intro h
  have hlower : (RecordContent.MX 10 (ascii "Mail.example.com")).CaseVariant
      (.MX 10 (ascii "mail.example.com")) := by decide +kernel
  have hsame := h _ _ _ rfl (List.Perm.refl _) (List.Forall₂.cons hlower List.Forall₂.nil)
  exact absurd hsame (by decide +kernel)

end PowerDNS
