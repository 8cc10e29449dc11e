import PowerDNS.Lib.EscapedText
import PowerDNS.Packet.DecodeEncode

/-!
# Character-strings as texts: TXT records

A TXT record is read from a packet into a text, `getText`: each string between quotes, with a backslash
in front of quotes and backslashes. `RecordTextWriter::xfrText` passes the text on, `RecordTextReader`
takes it apart and puts it together again, and `DNSPacketWriter::xfrText` has it tokenized by boost and
writes the tokens, in pieces of 255 octets.

The four were written independently of each other. `strings_survive` says that the octets come out as
they went in.
-/

namespace PowerDNS

open EscapedText List

/-- What makes the code give up. -/
inductive TextError
  /-- "missing field at the end of record content". -/
  | missingField
  /-- "Data field in DNS should start with quote". -/
  | startWithQuote
  /-- "Data field in DNS should end on a quote". -/
  | endOnQuote
  /-- `escaped_list_error`. -/
  | escapedList
  /-- What reading the packet comes to. -/
  | read (e : ReadError)
  deriving DecidableEq

/-! ### `RecordTextWriter` and `RecordTextReader` -/

/-- `dns_isspace`. -/
def dnsIsspace (c : UInt8) : Bool := c == 32 || c == 9 || c == 13 || c == 10

/-- `isalnum`. -/
def isAlnum (c : UInt8) : Bool := (48 ≤ c && c ≤ 57) || (65 ≤ c && c ≤ 90) || (97 ≤ c && c ≤ 122)

namespace RecordTextWriter

/-- `xfrText(val)`. -/
def xfrText (d_string val : Octets) : Octets := (if d_string = [] then [] else d_string ++ [32]) ++ val

end RecordTextWriter

namespace RecordTextReader

/-- `skipSpaces`, on what is left of the text. -/
def skipSpaces (rest : Octets) : Except TextError Octets :=
  match rest.dropWhile dnsIsspace with
  | [] => .error .missingField
  | c :: rest => .ok (c :: rest)

/-- `xfrText(val, multi)`, with what is left of the text behind the field; every string takes a unit of
fuel. -/
def xfrTextFrom (multi : Bool) : Nat → Octets → Octets → Except TextError (Octets × Octets)
  | 0, val, rest => .ok (val, rest)
  | _ + 1, val, [] => .ok (val, [])
  | fuel + 1, val, c :: rest =>
    let val := if val = [] then [] else val ++ [32]
    match skipSpaces (c :: rest) with
    | .error e => .error e
    | .ok [] => .error .missingField
    | .ok (c :: rest) =>
      if c ≠ 34 then
        -- special case 'plenus' - without quotes
        if (c :: rest).all isAlnum then .ok (val ++ [34] ++ (c :: rest) ++ [34], [])
        else .error .startWithQuote
      else
        match takeQuoted backslash 34 rest with
        | none => .error .endOnQuote
        | some (text, rest) =>
          let val := val ++ [34] ++ text ++ [34]
          if multi then xfrTextFrom multi fuel val rest else .ok (val, rest)

def xfrText (multi : Bool) (d_string : Octets) : Except TextError (Octets × Octets) :=
  xfrTextFrom multi (d_string.length + 1) [] d_string

end RecordTextReader

/-! ### `DNSPacketWriter::xfrText` -/

/-- The tokens of `escaped_list_separator('\\', ' ', '"')`: whether it is in quotes, and the token so
far. -/
def escapedList : Bool → Octets → Octets → Except TextError (List Octets)
  | _, tok, [] => .ok [tok]
  | bInQuote, tok, c :: rest =>
    if c = backslash then
      match rest with
      | [] => .error .escapedList
      | d :: rest =>
        if d = 110 then escapedList bInQuote (tok ++ [10]) rest
        else if d = 34 ∨ d = 32 ∨ d = backslash then escapedList bInQuote (tok ++ [d]) rest
        else .error .escapedList
    else if c = 32 then
      if bInQuote then escapedList bInQuote (tok ++ [c]) rest
      else (escapedList false [] rest).map fun toks => tok :: toks
    else if c = 34 then escapedList (!bInQuote) tok rest
    else escapedList bInQuote (tok ++ [c]) rest

/-- The tokens of a text; an empty text has none. -/
def tokens (text : Octets) : Except TextError (List Octets) :=
  if text = [] then .ok [] else escapedList false [] text

/-- A token in the packet, in pieces of at most 255 octets. -/
def textPieces (tok : Octets) : Octets :=
  if tok = [] then [0]
  else (List.range ((tok.length + 254) / 255)).flatMap fun k =>
    let piece := (tok.drop (255 * k)).take 255
    UInt8.ofNat piece.length :: piece

/-- `DNSPacketWriter::xfrText(text)`: the octets that are added to the record. -/
def packetText (text : Octets) : Except TextError Octets :=
  (tokens text).map fun toks => if toks = [] then [0] else toks.flatMap textPieces

/-! ### There and back -/

/-- What `TXTRecordContent` does with a record of a packet: it is read, and put into a text; that text
is read, and put into a packet. -/
def throughText (content : Octets) (w : RecordWindow) : Except TextError Octets :=
  match getText content w true w.d_startrecordpos with
  | .error e => .error (.read e)
  | .ok (d_text, _) =>
    match RecordTextReader.xfrText true (RecordTextWriter.xfrText [] d_text) with
    | .error e => .error e
    | .ok (d_text, _) => packetText d_text

/-- Strings in a packet, each behind its length. -/
def wireStrings (strings : List Octets) : Octets := strings.flatMap fun s => UInt8.ofNat s.length :: s

/-- A string as a text. -/
def quoted (s : Octets) : Octets := 34 :: (txtEscape s ++ [34])

/-- Strings as a text, each behind a blank. -/
def spaced (strings : List Octets) : Octets := strings.flatMap fun s => 32 :: quoted s

section Reading

variable {strings : List Octets} {s val behind pre : Octets}

theorem txtEscape_cons_of_pos {c : UInt8} (h : c = 34 ∨ c = backslash) (s : Octets) :
    txtEscape (c :: s) = backslash :: c :: txtEscape s :=
  @escapeWith_cons_of_pos _ backslash c (fun c => c = 34 ∨ c = backslash) _ s h

theorem txtEscape_cons_of_neg {c : UInt8} (h : ¬ (c = 34 ∨ c = backslash)) (s : Octets) :
    txtEscape (c :: s) = c :: txtEscape s :=
  @escapeWith_cons_of_neg _ backslash c (fun c => c = 34 ∨ c = backslash) _ s h

/-- A string of a packet. -/
theorem textOctets_append (hs : s.length ≤ 255)
    (hsize : (pre ++ s ++ behind).length ≤ 65535) :
    textOctets (pre ++ s ++ behind) (UInt16.ofNat pre.length) (UInt8.ofNat s.length) = .ok s := by
  have hlen : (UInt8.ofNat s.length).toNat = s.length := by
    rw [UInt8.toNat_ofNat', Nat.mod_eq_of_lt (by omega)]
  unfold textOctets
  by_cases hzero : UInt8.ofNat s.length = 0
  · have hnil : s.length = 0 := by
      rw [← hlen, hzero]
      rfl
    rw [if_pos hzero, length_eq_zero_iff.mp hnil]
  · have hpos : 0 < s.length := by
      refine Nat.pos_of_ne_zero fun h0 => hzero ?_
      rw [h0]
      rfl
    rw [length_append, length_append] at hsize
    rw [if_neg hzero, hlen, UInt16.toNat_ofNat', Nat.mod_eq_of_lt (by omega)]
    unfold contentRange
    rw [if_neg, if_neg, Nat.add_sub_cancel_left, append_assoc, drop_left, take_left]
    · omega
    · rw [length_append, length_append]
      omega

/-- One turn of the loop of `getText`. -/
theorem getTextFrom_cons {stop : Nat} (hs : s.length ≤ 255) (hstop : pre.length < stop)
    (hsize : (pre ++ UInt8.ofNat s.length :: s ++ behind).length ≤ 65535) (fuel : Nat) :
    getTextFrom (pre ++ UInt8.ofNat s.length :: s ++ behind) stop true (fuel + 1)
        (UInt16.ofNat pre.length) val =
      getTextFrom (pre ++ UInt8.ofNat s.length :: s ++ behind) stop true fuel
        (UInt16.ofNat (pre ++ UInt8.ofNat s.length :: s).length)
        ((if val = [] then [] else val ++ [32]) ++ quoted s) := by
  have hlength : pre.length + (s.length + 1) + behind.length ≤ 65535 := by
    rw [length_append, length_append, length_cons] at hsize
    exact hsize
  have hlen : contentAt (pre ++ UInt8.ofNat s.length :: s ++ behind) (UInt16.ofNat pre.length) =
      .ok (UInt8.ofNat s.length) := by
    rw [append_assoc]
    exact contentAt_append _ _ (by omega)
  have htext : textOctets (pre ++ UInt8.ofNat s.length :: s ++ behind) (UInt16.ofNat pre.length + 1)
      (UInt8.ofNat s.length) = .ok s := by
    have hsplit : pre ++ UInt8.ofNat s.length :: s = pre ++ [UInt8.ofNat s.length] ++ s := by
      rw [append_assoc]
      rfl
    rw [ofNat_length_succ pre (UInt8.ofNat s.length), hsplit]
    exact textOctets_append hs (by rwa [← hsplit])
  have hpos : UInt16.ofNat pre.length + 1 + (UInt8.ofNat s.length).toUInt16 =
      UInt16.ofNat (pre ++ UInt8.ofNat s.length :: s).length := by
    refine UInt16.toNat_inj.mp ?_
    rw [UInt16.toNat_add, UInt16.toNat_add, UInt8.toNat_toUInt16, UInt16.toNat_ofNat',
      UInt16.toNat_ofNat', UInt8.toNat_ofNat', length_append, length_cons]
    change ((pre.length % 65536 + 1) % 65536 + s.length % 256) % 65536 = _
    omega
  rw [getTextFrom, if_pos (by rw [UInt16.toNat_ofNat', Nat.mod_eq_of_lt (by omega)]; exact hstop), hlen]
  change (textOctets _ _ _ >>= _) = _
  rw [htext, ← hpos]
  change getTextFrom _ _ _ _ _ ((if val = [] then [] else val ++ [32]) ++ [34] ++ txtEscape s ++ [34]) = _
  rw [append_assoc _ (txtEscape s), append_assoc _ [34]]
  rfl

/-- Strings of a packet behind a text that has some already. -/
theorem getTextFrom_strings (hstrings : ∀ s ∈ strings, s.length ≤ 255)
    (hsize : (pre ++ wireStrings strings ++ behind).length ≤ 65535) (hval : val ≠ []) {fuel : Nat}
    (hfuel : strings.length < fuel) :
    getTextFrom (pre ++ wireStrings strings ++ behind) (pre ++ wireStrings strings).length true fuel
        (UInt16.ofNat pre.length) val =
      .ok (val ++ spaced strings, UInt16.ofNat (pre ++ wireStrings strings).length) := by
  obtain ⟨fuel, rfl⟩ := Nat.exists_eq_succ_of_ne_zero (Nat.ne_of_gt (Nat.zero_lt_of_lt hfuel))
  induction strings generalizing pre val fuel with
  | nil =>
    have hnil : pre ++ wireStrings [] = pre := append_nil pre
    rw [hnil, length_append] at hsize
    rw [hnil, getTextFrom, if_neg]
    · exact congrArg (fun text => Except.ok (text, UInt16.ofNat pre.length)) (append_nil val).symm
    · rw [UInt16.toNat_ofNat', Nat.mod_eq_of_lt (by omega)]
      exact Nat.lt_irrefl _
  | cons s strings ih =>
    have hs := hstrings s mem_cons_self
    have hwire : pre ++ wireStrings (s :: strings) ++ behind =
        pre ++ UInt8.ofNat s.length :: s ++ (wireStrings strings ++ behind) := by
      change pre ++ ((UInt8.ofNat s.length :: s) ++ wireStrings strings) ++ behind = _
      simp only [append_assoc]
    have hfront : pre ++ wireStrings (s :: strings) =
        pre ++ UInt8.ofNat s.length :: s ++ wireStrings strings := by
      rw [append_assoc]
      rfl
    have hstop : pre.length < (pre ++ wireStrings (s :: strings)).length := by
      rw [length_append]
      exact Nat.lt_add_of_pos_right (Nat.succ_pos _)
    obtain ⟨fuel, rfl⟩ := Nat.exists_eq_succ_of_ne_zero
      (Nat.ne_of_gt (Nat.lt_of_lt_of_le (Nat.succ_pos strings.length) (Nat.le_of_lt_succ hfuel)))
    rw [hwire] at hsize ⊢
    rw [getTextFrom_cons hs hstop hsize, if_neg hval, ← append_assoc, hfront]
    rw [ih (fun t ht => hstrings t (mem_cons_of_mem s ht)) (by rw [append_assoc]; exact hsize)
      (by simp) fuel (Nat.lt_of_succ_lt_succ hfuel)]
    refine congrArg (fun text => Except.ok (text, _)) ?_
    change val ++ [32] ++ quoted s ++ spaced strings = val ++ (32 :: quoted s ++ spaced strings)
    simp only [append_assoc, cons_append, nil_append]

/-- **What `getText` makes of the strings** of a record. -/
theorem getText_strings (hstrings : ∀ s ∈ strings, s.length ≤ 255) {first : Octets}
    (hfirst : first.length ≤ 255)
    (hsize : (pre ++ wireStrings (first :: strings) ++ behind).length ≤ 65535) :
    ∃ d_pos, getText (pre ++ wireStrings (first :: strings) ++ behind)
      ⟨UInt16.ofNat pre.length, UInt16.ofNat (wireStrings (first :: strings)).length⟩ true
      (UInt16.ofNat pre.length) = .ok (quoted first ++ spaced strings, d_pos) := by
  have hwire : pre ++ wireStrings (first :: strings) ++ behind =
      pre ++ UInt8.ofNat first.length :: first ++ (wireStrings strings ++ behind) := by
    change pre ++ ((UInt8.ofNat first.length :: first) ++ wireStrings strings) ++ behind = _
    simp only [append_assoc]
  have hwindow : RecordWindow.stop
      ⟨UInt16.ofNat pre.length, UInt16.ofNat (wireStrings (first :: strings)).length⟩ =
        (pre ++ UInt8.ofNat first.length :: first ++ wireStrings strings).length := by
    have hfront : pre ++ UInt8.ofNat first.length :: first ++ wireStrings strings =
        pre ++ wireStrings (first :: strings) := by
      rw [append_assoc]
      rfl
    rw [length_append, length_append] at hsize
    rw [hfront, length_append]
    change (UInt16.ofNat _).toNat + (UInt16.ofNat _).toNat = _
    rw [UInt16.toNat_ofNat', UInt16.toNat_ofNat', Nat.mod_eq_of_lt (by omega),
      Nat.mod_eq_of_lt (by omega)]
  have hfuel : strings.length < 65536 := by
    have hle : ∀ strings : List Octets, strings.length ≤ (wireStrings strings).length := by
      intro strings
      induction strings with
      | nil => exact Nat.le_refl 0
      | cons t strings ih =>
        change strings.length + 1 ≤ ((UInt8.ofNat t.length :: t) ++ wireStrings strings).length
        rw [length_append, length_cons]
        omega
    have hlength := hle strings
    rw [hwire, length_append, length_append] at hsize
    rw [length_append] at hsize
    omega
  rw [hwire] at hsize ⊢
  unfold getText
  rw [hwindow, show textFuel = 65536 + 1 from rfl, getTextFrom_cons hfirst _ hsize]
  · change ∃ d_pos, getTextFrom _ _ _ _ _ (quoted first) = _
    rw [← append_assoc]
    refine ⟨_, getTextFrom_strings hstrings ?_ (cons_ne_nil _ _) hfuel⟩
    rwa [append_assoc]
  · rw [length_append, length_append, length_cons]
    omega

end Reading

/-! ### The text -/

section Text

variable {strings : List Octets} {s val rest : Octets}

/-- One string is read, as it is. -/
theorem takeQuoted_txtEscape (s rest : Octets) :
    takeQuoted backslash 34 (txtEscape s ++ 34 :: rest) = some (txtEscape s, rest) :=
  @takeQuoted_escapeWith _ _ backslash 34 (fun c => c = 34 ∨ c = backslash) _ (Or.inr rfl) (Or.inl rfl)
    (by decide) s rest

/-- One turn of the loop of `RecordTextReader::xfrText`, with a blank in front of the string or not. -/
theorem xfrTextFrom_quoted {front : Octets} (hfront : front = [] ∨ front = [32]) (fuel : Nat) :
    RecordTextReader.xfrTextFrom true (fuel + 1) val (front ++ quoted s ++ rest) =
      RecordTextReader.xfrTextFrom true fuel ((if val = [] then [] else val ++ [32]) ++ quoted s) rest := by
  have hquoted : quoted s ++ rest = 34 :: (txtEscape s ++ 34 :: rest) := by
    change 34 :: (txtEscape s ++ [34] ++ rest) = _
    rw [append_assoc]
    rfl
  have hskip : ∀ c rest', front ++ quoted s ++ rest = c :: rest' →
      RecordTextReader.skipSpaces (c :: rest') = .ok (34 :: (txtEscape s ++ 34 :: rest)) := by
    intro c rest' h
    rw [← h, append_assoc, hquoted]
    rcases hfront with rfl | rfl <;> rfl
  cases htext : front ++ quoted s ++ rest with
  | nil =>
    rw [append_assoc, hquoted] at htext
    exact absurd htext (by simp)
  | cons c rest' =>
    rw [RecordTextReader.xfrTextFrom, hskip c rest' htext]
    change (match takeQuoted backslash 34 (txtEscape s ++ 34 :: rest) with
      | none => Except.error TextError.endOnQuote
      | some (text, rest) => _) = _
    rw [takeQuoted_txtEscape]
    change RecordTextReader.xfrTextFrom true fuel
      ((if val = [] then [] else val ++ [32]) ++ [34] ++ txtEscape s ++ [34]) rest = _
    rw [append_assoc _ (txtEscape s), append_assoc _ [34]]
    rfl

theorem xfrTextFrom_spaced (hval : val ≠ []) {fuel : Nat} (hfuel : strings.length < fuel) :
    RecordTextReader.xfrTextFrom true fuel val (spaced strings) = .ok (val ++ spaced strings, []) := by
  obtain ⟨fuel, rfl⟩ := Nat.exists_eq_succ_of_ne_zero (Nat.ne_of_gt (Nat.zero_lt_of_lt hfuel))
  induction strings generalizing val fuel with
  | nil => exact congrArg (fun text => Except.ok (text, [])) (append_nil val).symm
  | cons s strings ih =>
    obtain ⟨fuel, rfl⟩ := Nat.exists_eq_succ_of_ne_zero
      (Nat.ne_of_gt (Nat.lt_of_lt_of_le (Nat.succ_pos strings.length) (Nat.le_of_lt_succ hfuel)))
    change RecordTextReader.xfrTextFrom true _ val ([32] ++ quoted s ++ spaced strings) = _
    rw [xfrTextFrom_quoted (Or.inr rfl), if_neg hval, ih (by simp) fuel (Nat.lt_of_succ_lt_succ hfuel)]
    refine congrArg (fun text => Except.ok (text, [])) ?_
    change val ++ [32] ++ quoted s ++ spaced strings = val ++ (32 :: quoted s ++ spaced strings)
    simp only [append_assoc, cons_append, nil_append]

/-- **The text is read as it was written.** -/
theorem xfrText_quoted (first : Octets) (strings : List Octets) :
    RecordTextReader.xfrText true (quoted first ++ spaced strings) =
      .ok (quoted first ++ spaced strings, []) := by
  have hfuel : strings.length < (quoted first ++ spaced strings).length := by
    have hle : ∀ strings : List Octets, strings.length ≤ (spaced strings).length := by
      intro strings
      induction strings with
      | nil => exact Nat.le_refl 0
      | cons t strings ih =>
        change strings.length + 1 ≤ ((32 :: quoted t) ++ spaced strings).length
        rw [length_append, length_cons]
        omega
    have hlength := hle strings
    rw [length_append, quoted, length_cons]
    omega
  unfold RecordTextReader.xfrText
  rw [← nil_append (quoted first), xfrTextFrom_quoted (Or.inl rfl)]
  exact xfrTextFrom_spaced (cons_ne_nil _ _) hfuel

theorem escapedList_quote (bInQuote : Bool) (tok rest : Octets) :
    escapedList bInQuote tok (34 :: rest) = escapedList (!bInQuote) tok rest := by
  rw [escapedList.eq_def]
  rfl

theorem escapedList_blank (tok rest : Octets) :
    escapedList false tok (32 :: rest) = (escapedList false [] rest).map fun toks => tok :: toks := by
  rw [escapedList.eq_def]
  rfl

theorem escapedList_escaped {c : UInt8} (h : c = 34 ∨ c = backslash) (bInQuote : Bool)
    (tok rest : Octets) : escapedList bInQuote tok (backslash :: c :: rest) =
      escapedList bInQuote (tok ++ [c]) rest := by
  rcases h with rfl | rfl <;> rfl

theorem escapedList_plain {c : UInt8} (h : ¬ (c = 34 ∨ c = backslash)) (tok rest : Octets) :
    escapedList true tok (c :: rest) = escapedList true (tok ++ [c]) rest := by
  rw [not_or] at h
  rw [escapedList.eq_def]
  by_cases hblank : c = 32
  · rw [hblank]
    rfl
  · exact (if_neg h.2).trans ((if_neg hblank).trans (if_neg h.1))

/-- In quotes, a string is one piece of a token. -/
theorem escapedList_txtEscape (tok s rest : Octets) :
    escapedList true tok (txtEscape s ++ rest) = escapedList true (tok ++ s) rest := by
  induction s generalizing tok with
  | nil => rw [append_nil, txtEscape, flatMap_nil, nil_append]
  | cons c s ih =>
    by_cases hspecial : c = 34 ∨ c = backslash
    · rw [txtEscape_cons_of_pos hspecial, cons_append, cons_append,
        escapedList_escaped hspecial, ih, append_assoc]
      rfl
    · rw [txtEscape_cons_of_neg hspecial, cons_append, escapedList_plain hspecial, ih,
        append_assoc]
      rfl

/-- **The tokens are the strings.** -/
theorem escapedList_quoted (first : Octets) (strings : List Octets) :
    escapedList false [] (quoted first ++ spaced strings) = .ok (first :: strings) := by
  have hfirst : ∀ first rest : Octets,
      escapedList false [] (quoted first ++ rest) = escapedList false first rest := by
    intro first rest
    rw [quoted, cons_append, escapedList_quote, append_assoc, Bool.not_false,
      escapedList_txtEscape, cons_append, escapedList_quote]
    rfl
  induction strings generalizing first with
  | nil =>
    rw [hfirst]
    exact escapedList.eq_1 false first
  | cons s strings ih =>
    rw [hfirst]
    change escapedList false first (32 :: (quoted s ++ spaced strings)) = _
    rw [escapedList_blank, ih]
    rfl

/-- A string of at most 255 octets is one piece. -/
theorem textPieces_eq (hs : s.length ≤ 255) : textPieces s = UInt8.ofNat s.length :: s := by
  unfold textPieces
  by_cases hnil : s = []
  · rw [if_pos hnil, hnil]
    rfl
  · have hpos := length_pos_of_ne_nil hnil
    have hone : (s.length + 254) / 255 = 1 := by omega
    rw [if_neg hnil, hone, range_one, flatMap_singleton]
    rw [Nat.mul_zero, drop_zero, take_of_length_le hs]

theorem packetText_quoted {first : Octets} (hfirst : first.length ≤ 255)
    (hstrings : ∀ s ∈ strings, s.length ≤ 255) :
    packetText (quoted first ++ spaced strings) = .ok (wireStrings (first :: strings)) := by
  unfold packetText tokens
  rw [if_neg (fun h => absurd h (by simp [quoted])), escapedList_quoted]
  refine congrArg Except.ok (flatMap_congr fun s hs => textPieces_eq ?_)
  rcases mem_cons.mp hs with rfl | hs
  · exact hfirst
  · exact hstrings s hs

end Text

/-- **Strings survive**: for any strings, with any octets, in a packet with anything around them. -/
theorem strings_survive (strings : List Octets) (hne : strings ≠ [])
    (hstrings : ∀ s ∈ strings, s.length ≤ 255) (before behind : Octets)
    (hsize : (before ++ wireStrings strings ++ behind).length ≤ 65535) :
    throughText (before ++ wireStrings strings ++ behind)
      ⟨UInt16.ofNat before.length, UInt16.ofNat (wireStrings strings).length⟩ =
        .ok (wireStrings strings) := by
  obtain ⟨first, strings, rfl⟩ := exists_cons_of_ne_nil hne
  have hfirst := hstrings first mem_cons_self
  have hrest := fun s hs => hstrings s (mem_cons_of_mem first hs)
  obtain ⟨d_pos, hread⟩ := getText_strings hrest hfirst hsize
  unfold throughText
  rw [hread]
  change (match RecordTextReader.xfrText true (quoted first ++ spaced strings) with
    | .error e => Except.error e
    | .ok (d_text, _) => packetText d_text) = _
  rw [xfrText_quoted]
  exact packetText_quoted hfirst hrest

/-- A quote, a backslash, a blank and an octet that is no character, and an empty string. -/
theorem quote_and_backslash_survive :
    throughText (ascii "abc" ++ wireStrings [[34, 92, 32, 0], []] ++ ascii "d") ⟨3, 6⟩ =
      .ok [4, 34, 92, 32, 0, 0] :=
  strings_survive [[34, 92, 32, 0], []] (by decide) (by decide) (ascii "abc") (ascii "d") (by decide)

end PowerDNS
