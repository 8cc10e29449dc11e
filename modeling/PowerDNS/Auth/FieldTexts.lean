import PowerDNS.Auth.ZoneParser
import PowerDNS.Base.Base32
import PowerDNS.Base.Base64
import PowerDNS.Packet.SignatureTimes
import PowerDNS.Packet.TypeBitmaps

/-!
# Types, blobs and hashes as fields of a text

The DNSSEC records have fields of their own in a text: the name of a type, a blob in base64, in hexadecimal
digits, or in base32hex. `RecordTextWriter` puts a blank in front of each field but the first, and
`RecordTextReader` skips white space in front of a field, but wants something behind it.

So a field with nothing in it is lost: the reader takes the next one in its place, or throws when there is
none. And the name of a type that nobody has registered is `#` and its number, which `TypeToNumber` does not
know. What is not empty and registered comes back, a hash only when its octets come in groups of five.
-/

namespace PowerDNS

open OrderedUnique List

/-! ### Names of types -/

/-- `DNSRecordContent::getNamemap()`: the names of the types by class and type, as `regist` has put them
there. They are words that a text can have as a field, and a word stands for one type only. -/
structure Namemap where
  entries : List ((UInt16 × UInt16) × Octets)
  word : ∀ e ∈ entries, e.2 ≠ [] ∧ e.2.length < 256 ∧ e.2.head? ≠ some 35 ∧ ∀ c ∈ e.2, dnsIsspace c = false
  single : ∀ e ∈ entries, ∀ f ∈ entries, pdnsIequals e.2 f.2 = true → e.1.2 = f.1.2

namespace Namemap

/-- `DNSRecordContent::NumberToType(num)`, of class 1. -/
def NumberToType (namemap : Namemap) (num : UInt16) : Octets :=
  match namemap.entries.lookup (1, num) with
  | none => 35 :: decimal num.toNat
  | some name => name

/-- The map in its order, as `DNSRecordContent::TypeToNumber` goes through it. -/
def names (namemap : Namemap) : List (UInt16 × Octets) := namemap.entries.map fun e => (e.1.2, e.2)

/-- The type has a name. -/
def Registered (namemap : Namemap) (num : UInt16) : Prop := (namemap.entries.lookup (1, num)).isSome = true

instance (namemap : Namemap) (num : UInt16) : Decidable (namemap.Registered num) :=
  inferInstanceAs (Decidable (_ = true))

/-- All of the types have names. -/
def AllRegistered (namemap : Namemap) (types : List UInt16) : Prop := ∀ type ∈ types, namemap.Registered type

instance (namemap : Namemap) (types : List UInt16) : Decidable (namemap.AllRegistered types) :=
  List.decidableBAll _ _

/-- The names that `reportAllTypes` registers, in the order of the map. -/
def reportedNames : List ((UInt16 × UInt16) × Octets) :=
  [((1, 1), "A"), ((1, 2), "NS"), ((1, 5), "CNAME"), ((1, 6), "SOA"), ((1, 12), "PTR"), ((1, 13), "HINFO"),
    ((1, 15), "MX"), ((1, 16), "TXT"), ((1, 17), "RP"), ((1, 18), "AFSDB"), ((1, 25), "KEY"), ((1, 28), "AAAA"),
    ((1, 29), "LOC"), ((1, 33), "SRV"), ((1, 35), "NAPTR"), ((1, 37), "CERT"), ((1, 41), "OPT"), ((1, 43), "DS"),
    ((1, 44), "SSHFP"), ((1, 46), "RRSIG"), ((1, 47), "NSEC"), ((1, 48), "DNSKEY"), ((1, 50), "NSEC3"),
    ((1, 51), "NSEC3PARAM"), ((1, 99), "SPF"), ((1, 255), "ANY"), ((3, 16), "TXT"), ((255, 250), "TSIG")].map
      fun e => (e.1, ascii e.2)

theorem word_of_reported {e : (UInt16 × UInt16) × Octets} (h : e ∈ reportedNames) :
    e.2 ≠ [] ∧ e.2.length < 256 ∧ e.2.head? ≠ some 35 ∧ ∀ c ∈ e.2, dnsIsspace c = false := by
  have hall : ∀ e ∈ reportedNames, e.2 ≠ [] ∧ e.2.length < 256 ∧ e.2.head? ≠ some 35 ∧
      e.2.all (fun c => !dnsIsspace c) = true := by decide
  obtain ⟨hne, hlength, hhash, hplain⟩ := hall e h
  exact ⟨hne, hlength, hhash, fun c hc => (Bool.not_eq_true' _).mp (all_eq_true.mp hplain c hc)⟩

/-- These are such names. -/
def reported : Namemap where
  entries := reportedNames
  word := fun _ => word_of_reported
  single := by decide

end Namemap

/-! ### Writing -/

namespace RecordTextWriter

/-- `xfrType(val)`. -/
def xfrType (namemap : Namemap) (d_string : Octets) (val : UInt16) : Octets :=
  (if d_string = [] then [] else d_string ++ [32]) ++ namemap.NumberToType val

/-- `xfrBlob(val)`. -/
def xfrBlob (d_string val : Octets) : Octets :=
  (if d_string = [] then [] else d_string ++ [32]) ++ Base64Encode val

/-- `xfrHexBlob(val)`. -/
def xfrHexBlob (d_string val : Octets) : Octets :=
  (if d_string = [] then [] else d_string ++ [32]) ++ val.flatMap hexOctet

/-- `xfrBase32HexBlob(val)`; `memory` is what the memory has behind the value. -/
def xfrBase32HexBlob (memory : Nat → UInt8) (d_string val : Octets) : Octets :=
  (if d_string = [] then [] else d_string ++ [32]) ++ toBase32Hex memory val

end RecordTextWriter

/-! ### Reading

The readers give the value and what is left of the text; nothing stands for what they throw. -/

/-- `isbase64`. -/
def isbase64 (c : UInt8) : Bool :=
  dnsIsspace c || (48 ≤ c && c ≤ 57) || (97 ≤ c && c ≤ 122) || (65 ≤ c && c ≤ 90) || c == 43 || c == 47 || c == 61

/-- `HEXDecode`. -/
def HEXDecode (text : Octets) : Option Octets := if text.length % 2 ≠ 0 then none else hexOctets text

namespace RecordTextReader

/-- `xfr8BitInt(val)`. -/
def xfr8BitInt (d_string : Octets) : Option (Nat × Octets) :=
  match xfr32BitInt d_string with
  | .error _ => none
  | .ok (tmp, rest) => if tmp % 2 ^ 8 ≠ tmp then none else some (tmp, rest)

/-- What `xfrType`, `xfrHexBlob` and `xfrBase32HexBlob` begin with: the octets up to the next white space. -/
def word (d_string : Octets) : Option (Octets × Octets) :=
  match skipSpaces d_string with
  | .error _ => none
  | .ok rest => some (rest.takeWhile fun c => !dnsIsspace c, rest.dropWhile fun c => !dnsIsspace c)

/-- `xfrType(val)`. -/
def xfrType (namemap : Namemap) (d_string : Octets) : Option (UInt16 × Octets) := do
  let tmp ← word d_string
  let val ← ZoneParserTNG.TypeToNumber namemap.names tmp.1
  some (val, tmp.2)

/-- `xfrHexBlob(val)`. -/
def xfrHexBlob (d_string : Octets) : Option (Octets × Octets) := do
  let tmp ← word d_string
  let val ← HEXDecode tmp.1
  some (val, tmp.2)

/-- `xfrBase32HexBlob(val)`. -/
def xfrBase32HexBlob (d_string : Octets) : Option (Octets × Octets) := do
  let tmp ← word d_string
  some (fromBase32Hex tmp.1, tmp.2)

/-- `xfrBlob(val)`. -/
def xfrBlob (d_string : Octets) : Option (Octets × Octets) := do
  let rest ← (skipSpaces d_string).toOption
  let tmp := (rest.takeWhile isbase64).filter (· ≠ 32)
  -- the -1 is not looked at, but none of these characters leads to it: `decode_isbase64`
  let val ← (B64Decode tmp []).toOption
  some (val, rest.dropWhile isbase64)

/-- `while(!eof()) { xfrType(type); d_set.insert(type); }`. A word takes an octet of the text at least. -/
def typesFrom (namemap : Namemap) : Nat → TypeSet → Octets → Option TypeSet
  | _, d_set, [] => some d_set
  | 0, d_set, _ => some d_set
  | left + 1, d_set, d_string => do
    let type ← xfrType namemap d_string
    typesFrom namemap left (d_set.insert type.1) type.2

/-- The types up to the end of the text. -/
def types (namemap : Namemap) (d_string : Octets) : Option TypeSet :=
  typesFrom namemap d_string.length Table.empty d_string

end RecordTextReader

/-! ### Words -/

section Words

variable {body behind : Octets}

/-- White space in front of a field does not matter. -/
theorem skipSpaces_blank (d_string : Octets) :
    RecordTextReader.skipSpaces (32 :: d_string) = RecordTextReader.skipSpaces d_string := by
  unfold RecordTextReader.skipSpaces
  rw [dropWhile_cons_of_pos (by decide)]

theorem skipSpaces_body (hne : body ≠ []) (hbody : ∀ c ∈ body, dnsIsspace c = false) :
    RecordTextReader.skipSpaces (body ++ behind) = .ok (body ++ behind) := by
  obtain ⟨c, t, rfl⟩ := exists_cons_of_ne_nil hne
  exact skipSpaces_of_head (hbody c mem_cons_self)

/-- A word is read up to the blank behind it. -/
theorem word_append (hne : body ≠ []) (hbody : ∀ c ∈ body, dnsIsspace c = false)
    (hbehind : behind = [] ∨ behind.head? = some 32) :
    RecordTextReader.word (body ++ behind) = some (body, behind) := by
  have hinside : ∀ c ∈ body, (fun c => !dnsIsspace c) c = true := by
    intro c hc
    dsimp only
    rw [hbody c hc]
    rfl
  have hstop : behind.takeWhile (fun c => !dnsIsspace c) = [] ∧
      behind.dropWhile (fun c => !dnsIsspace c) = behind := by
    cases behind with
    | nil => exact ⟨rfl, rfl⟩
    | cons c behind =>
      obtain rfl : c = 32 := Option.some.inj (hbehind.resolve_left (cons_ne_nil _ _))
      exact ⟨rfl, rfl⟩
  unfold RecordTextReader.word
  rw [skipSpaces_body hne hbody]
  dsimp only
  rw [takeWhile_append_of_pos hinside, dropWhile_append_of_pos hinside, hstop.1, hstop.2, append_nil]

end Words

/-! ### Fields behind one another -/

section Behind

theorem word_blank (d_string : Octets) : RecordTextReader.word (32 :: d_string) = RecordTextReader.word d_string := by
  unfold RecordTextReader.word
  rw [skipSpaces_blank]

theorem xfrHexBlob_blank (d_string : Octets) :
    RecordTextReader.xfrHexBlob (32 :: d_string) = RecordTextReader.xfrHexBlob d_string := by
  unfold RecordTextReader.xfrHexBlob
  rw [word_blank]

theorem xfrBase32HexBlob_blank (d_string : Octets) :
    RecordTextReader.xfrBase32HexBlob (32 :: d_string) = RecordTextReader.xfrBase32HexBlob d_string := by
  unfold RecordTextReader.xfrBase32HexBlob
  rw [word_blank]

theorem xfrBlob_blank (d_string : Octets) :
    RecordTextReader.xfrBlob (32 :: d_string) = RecordTextReader.xfrBlob d_string := by
  unfold RecordTextReader.xfrBlob
  rw [skipSpaces_blank]

theorem xfrLabel_blank (d_zone d_string : Octets) :
    RecordTextReader.xfrLabel d_zone (32 :: d_string) = RecordTextReader.xfrLabel d_zone d_string := by
  unfold RecordTextReader.xfrLabel
  rw [skipSpaces_blank]

/-! Numbers and times with another field behind them. -/

theorem read_first16 (v : UInt16) (rest : Octets) :
    RecordTextReader.xfr16BitInt (decimal v.toNat ++ 32 :: rest) = .ok (v.toNat, 32 :: rest) := by
  have hlt := v.toNat_lt
  have hread : RecordTextReader.xfr32BitInt (decimal v.toNat ++ 32 :: rest) = .ok (v.toNat, 32 :: rest) :=
    xfr32BitInt_decimal (hlt.trans (by decide)) [] (.inr rfl)
  unfold RecordTextReader.xfr16BitInt
  rw [hread]
  exact if_neg (not_not.mpr (Nat.mod_eq_of_lt hlt))

theorem read_first8 (v : UInt8) (rest : Octets) :
    RecordTextReader.xfr8BitInt (decimal v.toNat ++ 32 :: rest) = some (v.toNat, 32 :: rest) := by
  have hlt := v.toNat_lt
  have hread : RecordTextReader.xfr32BitInt (decimal v.toNat ++ 32 :: rest) = .ok (v.toNat, 32 :: rest) :=
    xfr32BitInt_decimal (hlt.trans (by decide)) [] (.inr rfl)
  unfold RecordTextReader.xfr8BitInt
  rw [hread]
  exact if_neg (not_not.mpr (Nat.mod_eq_of_lt hlt))

theorem read_32 (v : UInt32) (rest : Octets) :
    RecordTextReader.xfr32BitInt (32 :: (decimal v.toNat ++ 32 :: rest)) = .ok (v.toNat, 32 :: rest) := by
  have hread : RecordTextReader.xfr32BitInt (decimal v.toNat ++ 32 :: rest) = .ok (v.toNat, 32 :: rest) :=
    xfr32BitInt_decimal v.toNat_lt [] (.inr rfl)
  exact hread

theorem read_16 (v : UInt16) (rest : Octets) :
    RecordTextReader.xfr16BitInt (32 :: (decimal v.toNat ++ 32 :: rest)) = .ok (v.toNat, 32 :: rest) := by
  have hread := read_first16 v rest
  exact hread

theorem read_8 (v : UInt8) (rest : Octets) :
    RecordTextReader.xfr8BitInt (32 :: (decimal v.toNat ++ 32 :: rest)) = some (v.toNat, 32 :: rest) := by
  have hread := read_first8 v rest
  exact hread

theorem read_time (t : UInt32) (rest : Octets) :
    RecordTextReader.xfrTime [] (32 :: (RecordTextWriter.xfrTime [] t ++ 32 :: rest)) =
      .ok (some t, 32 :: rest) := by
  have hread : RecordTextReader.xfrTime [] (RecordTextWriter.xfrTime [] t ++ 32 :: rest) = .ok (some t, 32 :: rest) :=
    xfrTime_written t [] [] (.inr rfl)
  exact hread

end Behind

/-! ### Types -/

namespace Namemap

variable {namemap : Namemap} {num : UInt16}

theorem mem_of_lookup {name : Octets} (h : namemap.entries.lookup (1, num) = some name) :
    ((1, num), name) ∈ namemap.entries := by
  generalize namemap.entries = entries at h
  induction entries with
  | nil => cases h
  | cons e entries ih =>
    rw [lookup_cons] at h
    split at h
    next heq =>
      obtain rfl := Option.some.inj h
      rw [eq_of_beq heq]
      exact mem_cons_self
    next => exact mem_cons_of_mem _ (ih h)

/-- The name of a type is a word. -/
theorem word_NumberToType (namemap : Namemap) (num : UInt16) : namemap.NumberToType num ≠ [] ∧
    (namemap.NumberToType num).length < 256 ∧ ∀ c ∈ namemap.NumberToType num, dnsIsspace c = false := by
  unfold NumberToType
  split
  next =>
    refine ⟨cons_ne_nil _ _, ?_, forall_mem_cons.mpr ⟨by decide, fun c hc => ?_⟩⟩
    · have hlt := num.toNat_lt
      have hdigits := @length_decimal_le num.toNat 5 (by decide) (by omega)
      rw [length_cons]
      omega
    · have hdigit := decimal_digits _ c hc
      unfold dnsIsspace
      grind
  next name hname =>
    obtain ⟨hne, hlength, -, hplain⟩ := namemap.word _ (mem_of_lookup hname)
    exact ⟨hne, hlength, hplain⟩

theorem TypeToNumber_NumberToType (h : namemap.Registered num) :
    ZoneParserTNG.TypeToNumber namemap.names (namemap.NumberToType num) = some num := by
  obtain ⟨name, hname⟩ := Option.isSome_iff_exists.mp h
  have hmem := mem_of_lookup hname
  have htext : namemap.NumberToType num = name := by
    unfold NumberToType
    rw [hname]
  have hsame : pdnsIequals name name = true := (pdnsIequals_iff name name).mpr rfl
  rw [htext]
  unfold ZoneParserTNG.TypeToNumber
  cases hfind : namemap.names.find? fun i => pdnsIequals i.2 name with
  | none =>
    -- the entry itself would be found
    exact absurd hsame (find?_eq_none.mp hfind (num, name) (mem_map_of_mem hmem))
  | some i =>
    obtain ⟨e, he, rfl⟩ := mem_map.mp (mem_of_find?_eq_some hfind)
    have hequal := find?_some hfind
    exact congrArg some (namemap.single e he _ hmem hequal)

/-- The name of a type without a name is none. -/
theorem TypeToNumber_unregistered (h : ¬ namemap.Registered num) :
    ZoneParserTNG.TypeToNumber namemap.names (namemap.NumberToType num) = none := by
  have htext : namemap.NumberToType num = 35 :: decimal num.toNat := by
    unfold NumberToType
    rw [Option.not_isSome_iff_eq_none.mp h]
  unfold ZoneParserTNG.TypeToNumber
  rw [Option.map_eq_none_iff, find?_eq_none, htext]
  intro i hi hequal
  obtain ⟨e, he, rfl⟩ := mem_map.mp hi
  obtain ⟨hne, -, hhash, -⟩ := namemap.word e he
  obtain ⟨c, t, hcons⟩ := exists_cons_of_ne_nil hne
  rw [hcons, pdnsIequals_iff, toLower_cons, toLower_cons] at hequal
  have hlower : dnsTolower c = 35 := (List.cons.inj hequal).1
  have hc : c = 35 := by
    unfold dnsTolower at hlower
    split at hlower <;> grind
  exact hhash (by rw [hcons, hc]; rfl)

end Namemap

section Types

variable {namemap : Namemap} {num : UInt16} {behind : Octets}

theorem read_xfrType (h : namemap.Registered num) (hbehind : behind = [] ∨ behind.head? = some 32) :
    RecordTextReader.xfrType namemap (namemap.NumberToType num ++ behind) = some (num, behind) := by
  obtain ⟨hne, -, hplain⟩ := namemap.word_NumberToType num
  unfold RecordTextReader.xfrType
  rw [word_append hne hplain hbehind, Option.bind_eq_bind, Option.bind_some]
  rw [Namemap.TypeToNumber_NumberToType h]
  rfl

theorem read_xfrType_unregistered (h : ¬ namemap.Registered num) (hbehind : behind = [] ∨ behind.head? = some 32) :
    RecordTextReader.xfrType namemap (namemap.NumberToType num ++ behind) = none := by
  obtain ⟨hne, -, hplain⟩ := namemap.word_NumberToType num
  unfold RecordTextReader.xfrType
  rw [word_append hne hplain hbehind, Option.bind_eq_bind, Option.bind_some]
  rw [Namemap.TypeToNumber_unregistered h]
  rfl

/-- The types of an NSEC or NSEC3 record in its text. -/
def typesText (namemap : Namemap) (d_set : List UInt16) : Octets :=
  d_set.flatMap fun type => 32 :: namemap.NumberToType type

theorem typesText_behind (namemap : Namemap) (d_set : List UInt16) :
    typesText namemap d_set = [] ∨ (typesText namemap d_set).head? = some 32 := by
  cases d_set with
  | nil => exact .inl rfl
  | cons type d_set => exact .inr rfl

theorem length_le_typesText (namemap : Namemap) (d_set : List UInt16) :
    d_set.length ≤ (typesText namemap d_set).length := by
  induction d_set with
  | nil => exact Nat.zero_le _
  | cons type d_set ih =>
    unfold typesText at ih ⊢
    rw [flatMap_cons, length_append, length_cons, length_cons]
    omega

/-- The loop over the types: it gets to the end when all of them have names. -/
theorem typesFrom_typesText (types : List UInt16) {left : Nat} (hleft : types.length ≤ left) (d_set : TypeSet) :
    RecordTextReader.typesFrom namemap left d_set (typesText namemap types) =
      if namemap.AllRegistered types then some (types.foldl (fun d_set type => d_set.insert type) d_set)
      else none := by
  induction types generalizing left d_set with
  | nil =>
    cases left <;> rfl
  | cons type types ih =>
    obtain ⟨left, rfl⟩ : ∃ n, left = n + 1 := Nat.exists_eq_succ_of_ne_zero (Nat.ne_of_gt (by
      rw [length_cons] at hleft
      omega))
    have hskip : RecordTextReader.xfrType namemap (typesText namemap (type :: types)) =
        RecordTextReader.xfrType namemap (namemap.NumberToType type ++ typesText namemap types) := rfl
    change (RecordTextReader.xfrType namemap (typesText namemap (type :: types))).bind _ = _
    rw [hskip]
    by_cases htype : namemap.Registered type
    · rw [read_xfrType htype (typesText_behind namemap types), Option.bind_some]
      rw [ih (Nat.le_of_succ_le_succ hleft), foldl_cons]
      refine if_congr ?_ rfl rfl
      unfold Namemap.AllRegistered
      rw [forall_mem_cons, and_iff_right htype]
    · rw [read_xfrType_unregistered htype (typesText_behind namemap types), Option.bind_none]
      exact (if_neg fun hall => htype (hall type mem_cons_self)).symm

/-- **The types come back** when all of them have names, and else the text is no good. -/
theorem read_types (namemap : Namemap) (types : List UInt16) :
    RecordTextReader.types namemap (typesText namemap types) =
      if namemap.AllRegistered types then
        some (types.foldl (fun d_set type => d_set.insert type) Table.empty)
      else none :=
  typesFrom_typesText types (length_le_typesText namemap types) Table.empty

/-- A set of types is what is made of its types. -/
theorem foldl_insert_items (d_set : TypeSet) :
    d_set.items.foldl (fun d_set type => d_set.insert type) Table.empty = d_set := by
  refine typeSet_ext fun t => ?_
  rw [mem_foldl_insert, or_iff_left (Table.not_mem_empty t)]
  exact Iff.rfl

end Types

/-! ### Blobs -/

section Blobs

variable {val behind : Octets}

theorem hexOctet_plain {c : UInt8} (h : c ∈ val.flatMap hexOctet) : dnsIsspace c = false := by
  have hdigit : ∀ n < 16, dnsIsspace (hexDigit n) = false := by decide
  obtain ⟨d, -, hd⟩ := mem_flatMap.mp h
  have hlt := d.toNat_lt
  obtain rfl | rfl := mem_pair.mp hd
  · exact hdigit _ (by omega)
  · exact hdigit _ (by omega)

theorem length_hexOctets {text out : Octets} (h : hexOctets text = some out) : out.length = text.length / 2 := by
  induction text using List.twoStepInduction generalizing out with
  | nil =>
    obtain rfl := Option.some.inj h
    rfl
  | singleton a =>
    obtain rfl := Option.some.inj h
    rw [length_nil, length_singleton]
  | cons_cons a b rest ih _ =>
    obtain ⟨hi, -, h⟩ := Option.bind_eq_some_iff.mp h
    obtain ⟨lo, -, h⟩ := Option.bind_eq_some_iff.mp h
    obtain ⟨more, hmore, h⟩ := Option.bind_eq_some_iff.mp h
    obtain rfl := Option.some.inj h
    rw [length_cons, ih hmore, length_cons, length_cons]
    omega

/-- A word has something in it. -/
theorem word_ne_nil {text : Octets} {tmp : Octets × Octets} (h : RecordTextReader.word text = some tmp) :
    tmp.1 ≠ [] := by
  unfold RecordTextReader.word RecordTextReader.skipSpaces at h
  have hhead := head?_dropWhile_not dnsIsspace text
  cases hdrop : text.dropWhile dnsIsspace with
  | nil =>
    rw [hdrop] at h
    cases h
  | cons c rest =>
    rw [hdrop] at h hhead
    obtain rfl := Option.some.inj h
    rw [takeWhile_cons_of_pos]
    · exact cons_ne_nil _ _
    · rw [Bool.not_eq_true']
      exact hhead

/-- A blob that is read from a word of moderate length has octets, and its length fits an octet. -/
theorem length_xfrHexBlob {text : Octets} {val : Octets × Octets} (h : RecordTextReader.xfrHexBlob text = some val)
    (hword : ∀ tmp, RecordTextReader.word text = some tmp → tmp.1.length < 512) :
    val.1 ≠ [] ∧ val.1.length < 256 := by
  obtain ⟨tmp, htmp, h⟩ := Option.bind_eq_some_iff.mp h
  obtain ⟨out, hout, h⟩ := Option.bind_eq_some_iff.mp h
  obtain rfl := Option.some.inj h
  have hlt := hword tmp htmp
  have hpos := length_pos_of_ne_nil (word_ne_nil htmp)
  unfold HEXDecode at hout
  split at hout
  next => cases hout
  next heven =>
    have hlength := length_hexOctets hout
    change out ≠ [] ∧ out.length < 256
    exact ⟨ne_nil_of_length_pos (by omega), by omega⟩

/-- A blob in hexadecimal digits comes back when there is something in it. -/
theorem read_xfrHexBlob (hne : val ≠ []) (hbehind : behind = [] ∨ behind.head? = some 32) :
    RecordTextReader.xfrHexBlob (val.flatMap hexOctet ++ behind) = some (val, behind) := by
  have hlength := length_flatMap_hexOctet val
  have hpos := length_pos_of_ne_nil hne
  have hdigits : val.flatMap hexOctet ≠ [] := ne_nil_of_length_pos (by omega)
  unfold RecordTextReader.xfrHexBlob
  rw [word_append hdigits (fun c hc => hexOctet_plain hc) hbehind, Option.bind_eq_bind, Option.bind_some]
  unfold HEXDecode
  rw [hlength, if_neg (by omega), hexOctets_flatMap]
  rfl

theorem length_toBase32Hex (memory : Nat → UInt8) (val : Octets) :
    (toBase32Hex memory val).length = 8 * ((val.length + 4) / 5) := by
  have hblock (s : Nat → UInt8) (todo : Int) : (base32Block s todo).length = 8 := by
    have hstuffing : stuffing todo ≤ 8 := by
      unfold stuffing
      split_ifs <;> decide
    unfold base32Block
    rw [length_append, length_map, length_range, length_replicate]
    omega
  unfold toBase32Hex
  rw [length_flatMap, map_congr_left fun k _ => hblock _ _, map_const', sum_replicate,
    length_range', Nat.mul_comm]
  rfl

theorem toBase32Hex_plain {memory : Nat → UInt8} {c : UInt8} (h : c ∈ toBase32Hex memory val) :
    dnsIsspace c = false := by
  have hdigit : ∀ q < 32, dnsIsspace (base32hex.getD q 0) = false := by decide
  obtain ⟨k, -, hc⟩ := mem_flatMap.mp h
  obtain hc | hc := mem_append.mp hc
  · obtain ⟨n, -, rfl⟩ := mem_map.mp hc
    exact hdigit _ (extract_bits_lt _ _)
  · rw [eq_of_mem_replicate hc]
    decide

/-- A hash is read, when there is one; what comes of it is up to base32hex. -/
theorem read_xfrBase32HexBlob (memory : Nat → UInt8) (hne : val ≠ [])
    (hbehind : behind = [] ∨ behind.head? = some 32) :
    RecordTextReader.xfrBase32HexBlob (toBase32Hex memory val ++ behind) =
      some (fromBase32Hex (toBase32Hex memory val), behind) := by
  have hlength := length_toBase32Hex memory val
  have hpos := length_pos_of_ne_nil hne
  have hdigits : toBase32Hex memory val ≠ [] := ne_nil_of_length_pos (by omega)
  unfold RecordTextReader.xfrBase32HexBlob
  rw [word_append hdigits (fun c hc => toBase32Hex_plain hc) hbehind]
  rfl

theorem digit_isbase64 {c : UInt8} {w : Nat} (h : base64Digit c = some w) :
    isbase64 c = true ∧ dnsIsspace c = false := by
  have hall : ∀ n < 256, (base64Digit (UInt8.ofNat n)).isSome = true →
      isbase64 (UInt8.ofNat n) = true ∧ dnsIsspace (UInt8.ofNat n) = false := by decide +kernel
  have hc := hall c.toNat c.toNat_lt
  rw [UInt8.ofNat_toNat] at hc
  exact hc (by rw [h]; rfl)

/-- A valid text has no white space, and no character that ends a blob. -/
theorem base64Text_isbase64 {text octets : Octets} (h : Base64Text text octets) :
    ∀ c ∈ text, isbase64 c = true ∧ dnsIsspace c = false := by
  have hpad : isbase64 61 = true ∧ dnsIsspace 61 = false := by decide
  induction h with
  | empty => exact forall_mem_nil _
  | one ha hb =>
    simp only [forall_mem_cons]
    exact ⟨digit_isbase64 ha, digit_isbase64 hb, hpad, hpad, forall_mem_nil _⟩
  | two ha hb hc =>
    simp only [forall_mem_cons]
    exact ⟨digit_isbase64 ha, digit_isbase64 hb, digit_isbase64 hc, hpad, forall_mem_nil _⟩
  | three ha hb hc hd hrest ih =>
    simp only [forall_mem_cons]
    exact ⟨digit_isbase64 ha, digit_isbase64 hb, digit_isbase64 hc, digit_isbase64 hd, ih⟩

theorem xfrBlob_eq {d_string rest : Octets} (hskip : RecordTextReader.skipSpaces d_string = .ok rest)
    (hdecode : B64Decode ((rest.takeWhile isbase64).filter (· ≠ 32)) [] = .ok val) :
    RecordTextReader.xfrBlob d_string = some (val, rest.dropWhile isbase64) := by
  have hok {α β : Type} (r : α) : (Except.ok r : Except β α).toOption = some r := rfl
  unfold RecordTextReader.xfrBlob
  rw [hskip, hok, Option.bind_eq_bind, Option.bind_some]
  dsimp only
  rw [hdecode, hok, Option.bind_some]

/-- A blob in base64 comes back when there is something in it, and it is the last field. -/
theorem read_xfrBlob (hne : val ≠ []) (hshort : val.length < 2 ^ 29) :
    RecordTextReader.xfrBlob (Base64Encode val) = some (val, []) := by
  have hplain := base64Text_isbase64 (base64Text_encode val)
  have hlength := length_Base64Encode val
  have hpos := length_pos_of_ne_nil hne
  have htext : Base64Encode val ≠ [] := ne_nil_of_length_pos (by omega)
  have hskip := @skipSpaces_body (Base64Encode val) [] htext fun c hc => (hplain c hc).2
  rw [append_nil] at hskip
  have htake : (Base64Encode val).takeWhile isbase64 = Base64Encode val :=
    takeWhile_eq_self_iff.mpr fun c hc => (hplain c hc).1
  have hdrop : (Base64Encode val).dropWhile isbase64 = [] := dropWhile_eq_nil_iff.mpr fun c hc => (hplain c hc).1
  -- there are no blanks to erase
  have herase : (Base64Encode val).filter (fun c => decide (c ≠ 32)) = Base64Encode val := by
    refine filter_eq_self.mpr fun c hc => decide_eq_true ?_
    rintro rfl
    exact absurd (hplain 32 hc).2 (by decide)
  have hdecode := (decode_encode_iff val).mpr (by omega)
  rw [xfrBlob_eq hskip (by rw [htake, herase, hdecode]), hdrop]

end Blobs

end PowerDNS
