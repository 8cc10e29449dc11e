import Mathlib.Data.Nat.Digits.Lemmas
import PowerDNS.Base.Record

/-!
# Serialised resource records

The query cache keeps a record as a text: seven fields separated by `|`, names and contents
with a backslash in front of every `|` and `\`, the type by its name, numbers in decimal
(`DNSResourceRecord::serialize`, `qtype.cc`). `unSerialize` reads the text back into a record
and leaves the other fields of that record alone.

`unSerialize_serialize` says which records survive: the type must be one that has a name, and
the two fields that go through `atoi` must fit an `int`. Class, wildcard name, section and
`auth` are not written at all.
-/

namespace PowerDNS

open List UInt8 Bool

/-- The separator `|`. -/
abbrev pipe : UInt8 := 124

/-! ### Numbers -/

/-- A number as `ostream` writes it. -/
def decimal (n : Nat) : Octets :=
  if n = 0 then [48] else ((Nat.digits 10 n).map fun d => UInt8.ofNat (48 + d)).reverse

/-- A signed number as `ostream` writes it. -/
def itoa : Int → Octets
  | .ofNat n => decimal n
  | .negSucc n => 45 :: decimal (n + 1)

/-- The digits at the start of a text, added to what was read before them. -/
def readDigits : Nat → Octets → Nat
  | acc, [] => acc
  | acc, c :: t => if 48 ≤ c ∧ c ≤ 57 then readDigits (acc * 10 + (c.toNat - 48)) t else acc

/-- Conversion to a 32 bits `int`. -/
def toInt32 (x : Int) : Int := x.bmod (2 ^ 32)

/-- `isdigit`. -/
def isDigit (c : UInt8) : Bool := 48 ≤ c && c ≤ 57

/-- `isspace`. -/
def isSpace (c : UInt8) : Bool := c == 32 || (9 ≤ c && c ≤ 13)

/-- `atoi`: white space, a sign, digits; what `strtol` reads is cut down to an `int`. -/
def atoi (s : Octets) : Int :=
  match s.dropWhile isSpace with
  | [] => 0
  | c :: t =>
    if c = 45 then toInt32 (-(readDigits 0 t : Int))
    else if c = 43 then toInt32 (readDigits 0 t)
    else toInt32 (readDigits 0 (c :: t))

theorem isDigit_iff {c : UInt8} : isDigit c = true ↔ 48 ≤ c ∧ c ≤ 57 := by
  unfold isDigit
  rw [and_eq_true, decide_eq_true_iff, decide_eq_true_iff]

/-- The octets of decimal numbers. -/
theorem decimal_digits (n : Nat) : ∀ c ∈ decimal n, 48 ≤ c ∧ c ≤ 57 := by
  intro c hc
  unfold decimal at hc
  split at hc
  · rw [mem_singleton.mp hc]
    decide
  · rw [mem_reverse] at hc
    obtain ⟨d, hd, rfl⟩ := mem_map.mp hc
    have hlt : d < 10 := Nat.digits_lt_base (by decide) hd
    interval_cases d <;> decide

theorem itoa_octets (x : Int) : ∀ c ∈ itoa x, c = 45 ∨ (48 ≤ c ∧ c ≤ 57) := by
  intro c hc
  cases x with
  | ofNat n => exact .inr (decimal_digits n c hc)
  | negSucc n =>
    rcases mem_cons.mp hc with rfl | hc
    · exact .inl rfl
    · exact .inr (decimal_digits (n + 1) c hc)

theorem decimal_ne_nil (n : Nat) : decimal n ≠ [] := by
  unfold decimal
  split
  · exact cons_ne_nil _ _
  · next h =>
    rw [ne_eq, reverse_eq_nil_iff, map_eq_nil_iff]
    exact Nat.digits_ne_nil_iff_ne_zero.mpr h

/-- Reading digits in order is evaluating them by Horner's rule. -/
theorem readDigits_map (acc : Nat) (ds : List Nat) (h : ∀ d ∈ ds, d < 10) :
    readDigits acc (ds.map fun d => UInt8.ofNat (48 + d)) =
      ds.foldl (fun acc d => acc * 10 + d) acc := by
  induction ds generalizing acc with
  | nil => rfl
  | cons d ds ih =>
    have hd : d < 10 := h d mem_cons_self
    have hval : (UInt8.ofNat (48 + d)).toNat = 48 + d := by
      exact Nat.mod_eq_of_lt (by omega)
    have hrange : 48 ≤ UInt8.ofNat (48 + d) ∧ UInt8.ofNat (48 + d) ≤ 57 := by
      rw [le_iff_toNat_le, le_iff_toNat_le, hval]
      change 48 ≤ 48 + d ∧ 48 + d ≤ 57
      omega
    rw [map_cons, readDigits, if_pos hrange, hval, Nat.add_sub_cancel_left,
      foldl_cons]
    exact ih _ fun e he => h e (mem_cons_of_mem d he)

theorem readDigits_append {x : UInt8} (hx : ¬ (48 ≤ x ∧ x ≤ 57)) (acc : Nat) (t rest : Octets) :
    readDigits acc (t ++ x :: rest) = readDigits acc t := by
  induction t generalizing acc with
  | nil => exact if_neg hx
  | cons c t ih =>
    rw [cons_append, readDigits, readDigits]
    split
    · exact ih _
    · rfl

theorem readDigits_decimal (n : Nat) : readDigits 0 (decimal n) = n := by
  unfold decimal
  split
  · next h => rw [h]; rfl
  · rw [← map_reverse, readDigits_map]
    · rw [foldl_reverse]
      calc (Nat.digits 10 n).foldr (fun d acc => acc * 10 + d) 0
          = (Nat.digits 10 n).foldr (fun d acc => d + 10 * acc) 0 := by
            congr 1
            funext d acc
            rw [Nat.mul_comm, Nat.add_comm]
        _ = Nat.ofDigits 10 (Nat.digits 10 n) := by
            rw [Nat.ofDigits_eq_foldr]
            rfl
        _ = n := Nat.ofDigits_digits 10 n
    · intro d hd
      exact Nat.digits_lt_base (by decide) (mem_reverse.mp hd)

theorem toInt32_of_range {x : Int} (h : -2 ^ 31 ≤ x) (h' : x < 2 ^ 31) : toInt32 x = x := by
  exact Int.bmod_eq_of_le (by simpa using h) (by simpa using h')

/-- `atoi` of a written number is the number cut down to an `int`. -/
theorem atoi_itoa (x : Int) : atoi (itoa x) = toInt32 x := by
  cases x with
  | ofNat n =>
    obtain ⟨c, t, hc⟩ := exists_cons_of_ne_nil (decimal_ne_nil n)
    have hrange := decimal_digits n c (hc ▸ mem_cons_self)
    have hspace : isSpace c = false := by
      simp only [isSpace, or_eq_false_iff, and_eq_false_iff]
      grind
    have hsign : c ≠ 45 ∧ c ≠ 43 := by grind
    change atoi (decimal n) = _
    unfold atoi
    rw [hc, dropWhile_cons_of_neg (by rw [hspace]; decide)]
    dsimp only
    rw [if_neg hsign.1, if_neg hsign.2, ← hc, readDigits_decimal]
    rfl
  | negSucc n =>
    change atoi (45 :: decimal (n + 1)) = _
    unfold atoi
    rw [dropWhile_cons_of_neg (by decide)]
    dsimp only
    rw [if_pos rfl, readDigits_decimal]
    rfl

/-! ### Types -/

/-- `QType::names`, in the order of the insertions. -/
def typeNames : List (Octets × UInt16) :=
  [("A", 1), ("NS", 2), ("CNAME", 5), ("SOA", 6), ("MR", 9), ("PTR", 12), ("HINFO", 13),
   ("MX", 15), ("TXT", 16), ("RP", 17), ("AFSDB", 18), ("SIG", 24), ("KEY", 25), ("AAAA", 28),
   ("LOC", 29), ("SRV", 33), ("CERT", 37), ("A6", 38), ("NAPTR", 35), ("DS", 43), ("SSHFP", 44),
   ("RRSIG", 46), ("NSEC", 47), ("DNSKEY", 48), ("NSEC3", 50), ("NSEC3PARAM", 51), ("SPF", 99),
   ("IXFR", 251), ("AXFR", 252), ("ANY", 255), ("URL", 256), ("MBOXFW", 257), ("CURL", 258),
   ("ADDR", 259)].map fun n => (ascii n.1, n.2)

/-- `QType::getName`. The code is kept as a `short int`. -/
def getName (code : UInt16) : Octets :=
  match typeNames.find? fun n => n.2 = code with
  | some n => n.1
  | none => 35 :: itoa code.toInt16.toInt

/-- `QType::chartocode`. -/
def chartocode (p : Octets) : UInt16 :=
  match typeNames.find? fun n => n.1 = p with
  | some n => n.2
  | none => 0

/-- The type has a name of its own, or is the 0 that unknown names stand for. -/
def NamedType (code : UInt16) : Prop := code = 0 ∨ ∃ n ∈ typeNames, n.2 = code

instance (code : UInt16) : Decidable (NamedType code) := inferInstanceAs (Decidable (_ ∨ _))

theorem chartocode_getName {code : UInt16} (h : NamedType code) :
    chartocode (getName code) = code := by
  rcases h with rfl | ⟨n, hn, rfl⟩
  · decide
  · revert n
    decide

/-! ### Fields -/

/-- `DNSResourceRecord::escape`. -/
def escape : Octets → Octets
  | [] => []
  | c :: t => if c = pipe ∨ c = backslash then backslash :: c :: escape t else c :: escape t

/-- The inner loop of `unSerialize`: one field, and what follows its separator. A backslash
at the very end stands for itself. -/
def readChunk : Octets → Octets × Octets
  | [] => ([], [])
  | [c] => if c = pipe then ([], []) else ([c], [])
  | c :: d :: t =>
    if c = backslash then (d :: (readChunk t).1, (readChunk t).2)
    else if c = pipe then ([], d :: t)
    else (c :: (readChunk (d :: t)).1, (readChunk (d :: t)).2)

theorem pipe_ne_backslash : pipe ≠ backslash := by decide

/-- A field that is followed by a separator is read back. -/
theorem readChunk_escape_pipe (s rest : Octets) :
    readChunk (escape s ++ pipe :: rest) = (s, rest) := by
  induction s with
  | nil =>
    cases rest with
    | nil => rfl
    | cons d t => simp [escape, readChunk, pipe_ne_backslash]
  | cons c s ih =>
    unfold escape
    by_cases hc : c = pipe ∨ c = backslash
    · rw [if_pos hc]
      simp [readChunk, ih]
    · -- an ordinary octet; something follows it in any case
      rw [if_neg hc]
      obtain ⟨d, t, hd⟩ : ∃ d t, escape s ++ pipe :: rest = d :: t :=
        exists_cons_of_ne_nil (by simp)
      rw [cons_append, hd, readChunk, if_neg (fun e => hc (.inr e)),
        if_neg (fun e => hc (.inl e)), ← hd, ih]

/-- The last field has no separator after it. -/
theorem readChunk_escape_end (s : Octets) : readChunk (escape s) = (s, []) := by
  induction s with
  | nil => rfl
  | cons c s ih =>
    unfold escape
    by_cases hc : c = pipe ∨ c = backslash
    · rw [if_pos hc]
      simp [readChunk, ih]
    · rw [if_neg hc]
      cases hs : escape s with
      | nil =>
        rw [hs] at ih
        obtain rfl : s = [] := (congrArg Prod.fst ih).symm
        rw [readChunk, if_neg (fun e => hc (.inl e))]
      | cons d t =>
        rw [readChunk, if_neg (fun e => hc (.inr e)), if_neg (fun e => hc (.inl e)), ← hs, ih]

/-- A text without separators and backslashes is written as it is. -/
theorem escape_of_plain {s : Octets} (h : ∀ c ∈ s, c ≠ pipe ∧ c ≠ backslash) : escape s = s := by
  induction s with
  | nil => rfl
  | cons c s ih =>
    obtain ⟨hpipe, hback⟩ := h c mem_cons_self
    rw [escape, if_neg (not_or.mpr ⟨hpipe, hback⟩),
      ih fun d hd => h d (mem_cons_of_mem c hd)]

theorem decimal_plain (n : Nat) : ∀ c ∈ decimal n, c ≠ pipe ∧ c ≠ backslash := by
  intro c hc
  obtain ⟨hlo, hhi⟩ := decimal_digits n c hc
  constructor <;> grind

theorem itoa_plain (x : Int) : ∀ c ∈ itoa x, c ≠ pipe ∧ c ≠ backslash := by
  intro c hc
  rcases itoa_octets x c hc with rfl | hdigit
  · decide
  · constructor <;> grind

theorem getName_plain (code : UInt16) : ∀ c ∈ getName code, c ≠ pipe ∧ c ≠ backslash := by
  intro c hc
  unfold getName at hc
  split at hc
  · next n hn =>
    have hmem := mem_of_find?_eq_some hn
    have hall : ∀ n ∈ typeNames, n.1.all (fun c => c ≠ pipe ∧ c ≠ backslash) = true := by decide
    exact of_decide_eq_true (all_eq_true.mp (hall n hmem) c hc)
  · rcases mem_cons.mp hc with rfl | hc
    · decide
    · exact itoa_plain _ c hc

/-! ### Records -/

/-- `DNSResourceRecord::serialize`. -/
def serialize (rr : TextRR) : Octets :=
  escape rr.qname ++ pipe :: getName rr.qtype ++ pipe :: escape rr.content ++
    pipe :: decimal rr.ttl.toNat ++ pipe :: decimal rr.priority.toNat ++
    pipe :: itoa rr.domain_id ++ pipe :: itoa rr.last_modified

/-- `DNSResourceRecord::unSerialize`: reads the seven fields into `rr`. -/
def unSerialize (rr : TextRR) (source : Octets) : TextRR :=
  let f₀ := readChunk source
  let f₁ := readChunk f₀.2
  let f₂ := readChunk f₁.2
  let f₃ := readChunk f₂.2
  let f₄ := readChunk f₃.2
  let f₅ := readChunk f₄.2
  let f₆ := readChunk f₅.2
  { rr with
    qname := f₀.1
    qtype := chartocode f₁.1
    content := f₂.1
    ttl := UInt32.ofInt (atoi f₃.1)
    priority := UInt16.ofInt (atoi f₄.1)
    domain_id := atoi f₅.1
    last_modified := atoi f₆.1 }

/-- The fields of the record that are written can be read back: the type has a name, and the
signed numbers fit an `int`. -/
structure Serialisable (rr : TextRR) : Prop where
  qtype : NamedType rr.qtype
  domain_id : -2 ^ 31 ≤ rr.domain_id ∧ rr.domain_id < 2 ^ 31
  last_modified : -2 ^ 31 ≤ rr.last_modified ∧ rr.last_modified < 2 ^ 31

theorem serialize_ne_nil (rr : TextRR) : serialize rr ≠ [] := by
  unfold serialize
  simp

/-- A TTL survives, whatever `atoi` makes of it on the way: both conversions are modulo
2^32. -/
theorem ofInt_atoi_ttl (x : UInt32) : UInt32.ofInt (atoi (decimal x.toNat)) = x := by
  rw [show atoi (decimal x.toNat) = toInt32 (x.toNat : Int) from atoi_itoa (Int.ofNat x.toNat)]
  unfold toInt32 UInt32.ofInt
  have hlt := x.toNat_lt
  have hmod : ((x.toNat : Int).bmod (2 ^ 32) % 2 ^ 32).toNat = x.toNat := by
    rw [show (2 : Int) ^ 32 = ((2 ^ 32 : Nat) : Int) by norm_cast, Int.bmod_emod]
    omega
  rw [hmod]
  exact UInt32.ofNat_toNat

theorem ofInt_atoi_priority (x : UInt16) : UInt16.ofInt (atoi (decimal x.toNat)) = x := by
  rw [show atoi (decimal x.toNat) = toInt32 (x.toNat : Int) from atoi_itoa (Int.ofNat x.toNat)]
  have hlt := x.toNat_lt
  rw [toInt32_of_range (by omega) (by omega)]
  have hmod : ((x.toNat : Int) % 2 ^ 16).toNat = x.toNat := by omega
  unfold UInt16.ofInt
  rw [hmod]
  exact UInt16.ofNat_toNat

/-- Every field is an escaped one, the plain ones trivially so. -/
theorem serialize_eq (rr : TextRR) :
    serialize rr = escape rr.qname ++ pipe :: (escape (getName rr.qtype) ++ pipe ::
      (escape rr.content ++ pipe :: (escape (decimal rr.ttl.toNat) ++ pipe ::
        (escape (decimal rr.priority.toNat) ++ pipe :: (escape (itoa rr.domain_id) ++ pipe ::
          escape (itoa rr.last_modified)))))) := by
  rw [escape_of_plain (getName_plain rr.qtype), escape_of_plain (decimal_plain rr.ttl.toNat),
    escape_of_plain (decimal_plain rr.priority.toNat), escape_of_plain (itoa_plain rr.domain_id),
    escape_of_plain (itoa_plain rr.last_modified)]
  simp [serialize]

/-- **Reading back.** The record read from the text has the seven fields of the record that
was written, and the other fields of the record it is read into. -/
theorem unSerialize_serialize (slot : TextRR) {rr : TextRR} (h : Serialisable rr) :
    unSerialize slot (serialize rr) =
      { rr with qclass := slot.qclass, wildcardname := slot.wildcardname,
                d_place := slot.d_place, auth := slot.auth } := by
  unfold unSerialize
  rw [serialize_eq]
  simp only [readChunk_escape_pipe, readChunk_escape_end]
  rw [chartocode_getName h.qtype, ofInt_atoi_ttl, ofInt_atoi_priority, atoi_itoa, atoi_itoa,
    toInt32_of_range h.domain_id.1 h.domain_id.2,
    toInt32_of_range h.last_modified.1 h.last_modified.2]

end PowerDNS
