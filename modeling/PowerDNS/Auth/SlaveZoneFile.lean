import PowerDNS.Auth.BindCursor
import PowerDNS.Auth.ZoneParser

/-!
# The file of a slave zone: `startTransaction`, `feedRecord`

The records of a transferred zone are written to a file, one line for each, with owners relative to the zone.
The file is then read by `ZoneParserTNG` like any other, and the records go through `insert`.

-/

namespace PowerDNS

open ZoneParserTNG List Option

namespace Bind2Backend

/-! ### The code -/

/-- `stripDomainSuffix`; `none` is the result `false`. -/
def stripDomainSuffix (qname domain : Octets) : Option Octets :=
  if !endsOn qname domain then none
  else if toLower qname = toLower domain then some [64]
  else if qname.getD (qname.length - domain.length - 1) 0 ≠ dot then none
  else some (qname.take (qname.length - domain.length - 1))

/-- The content of a record as it is written. -/
def writtenContent (domain : Octets) (r : TextRR) : Octets :=
  if r.qtype = QType.MX ∨ r.qtype = QType.CNAME ∨ r.qtype = QType.NS then
    (stripDomainSuffix r.content domain).getD (r.content ++ [dot])
  else r.content

/-- The fields in front of a content: the priority of a MX or SRV record. -/
def writtenPrio (r : TextRR) : Octets :=
  if r.qtype = QType.MX ∨ r.qtype = QType.SRV then decimal r.priority.toNat ++ [9] else []

/-- `feedRecord`: the line that is written; `none` is the exception for out-of-zone data. -/
def feedRecord (domain : Octets) (r : TextRR) : Option Octets :=
  (stripDomainSuffix r.qname domain).map fun qname =>
    qname ++ 9 :: decimal r.ttl.toNat ++ 9 :: getName r.qtype ++ 9 :: writtenPrio r ++ writtenContent domain r ++
      [newline]

/-- What `startTransaction` writes. -/
def header (domain nowTime : Octets) : Octets :=
  ascii "; Written by PowerDNS, don't edit!" ++ newline ::
    (ascii "; Zone '" ++ domain ++ ascii "' retrieved from master " ++ newline ::
      (ascii "; at " ++ nowTime ++ [newline]))

/-- The file of a zone. -/
def writtenFile (domain nowTime : Octets) (rs : List TextRR) : Option Octets :=
  (rs.mapM (feedRecord domain)).map fun lines => header domain nowTime ++ lines.flatten

/-- `queueReload`, as far as it reads the file: the records that `get` gives, which all go into one
`DNSResourceRecord`, and then through `insert`. `none` is that this does not come to an end. -/
def readBack (env : Surroundings) (turns : Nat) (domain file : Octets) : Option (Except Unit (List Bind2DNSRecord)) :=
  let rr : TextRR := { qtype := 0, qname := [], wildcardname := [], content := [], ttl := 0 }
  (readAll env turns
    { d_zonename := toCanonic [] domain, d_filestates := [{ d_text := file, d_filename := [] }] } rr).map fun r =>
      match r.2, insertAll domain r.1 with
      | none, .ok records => .ok records
      | _, _ => .error ()

/-! ### The condition -/

/-- A zone's name, as the configuration has it. -/
structure ZoneName (domain : Octets) : Prop where
  octet : ∀ c ∈ domain, c ≠ newline ∧ c ≠ 0
  head : domain.head? ≠ some dot ∧ ∀ c ∈ domain.head?, isSpace c = false
  last : domain.getLast? ≠ some dot
  not_at : domain ≠ [64]
  no_paren : findUnquoted 40 false false (domain ++ [dot]) = domain.length + 1

/-- **When an owner survives**, for the name `q` that is written: it is one token, it is none that starts a
comment, a command or a line without an owner, and it comes back from `labelReverse`. -/
structure OwnerKept (domain qname q : Octets) : Prop where
  octet : ∀ c ∈ q, c ∉ delimiters ∧ c ≠ 0
  head : ∃ c ∈ q.head?, c ≠ 59 ∧ c ≠ 36 ∧ isSpace c = false
  /-- Only the apex is written as `@`. -/
  apex : q = [64] → toLower qname = toLower domain
  below : q ≠ [64] → domain ≠ [] ∧ q.getLast? ≠ some dot ∧ Reversible (toLower q)

instance (domain : Octets) : Decidable (ZoneName domain) :=
  haveI : Decidable (∀ c ∈ domain, c ≠ newline ∧ c ≠ 0) := List.decidableBAll _ _
  haveI : Decidable (∀ c ∈ domain.head?, isSpace c = false) := Option.decidableForallMem _
  decidable_of_iff ((∀ c ∈ domain, c ≠ newline ∧ c ≠ 0) ∧
      (domain.head? ≠ some dot ∧ ∀ c ∈ domain.head?, isSpace c = false) ∧ domain.getLast? ≠ some dot ∧
      domain ≠ [64] ∧ findUnquoted 40 false false (domain ++ [dot]) = domain.length + 1)
    ⟨fun h => ⟨h.1, h.2.1, h.2.2.1, h.2.2.2.1, h.2.2.2.2⟩,
      fun h => ⟨h.octet, h.head, h.last, h.not_at, h.no_paren⟩⟩

instance (domain qname q : Octets) : Decidable (OwnerKept domain qname q) :=
  haveI : Decidable (∀ c ∈ q, c ∉ delimiters ∧ c ≠ 0) := List.decidableBAll _ _
  haveI : Decidable (∃ c ∈ q.head?, c ≠ 59 ∧ c ≠ 36 ∧ isSpace c = false) := Option.decidableExistsMem _
  decidable_of_iff ((∀ c ∈ q, c ∉ delimiters ∧ c ≠ 0) ∧
      (∃ c ∈ q.head?, c ≠ 59 ∧ c ≠ 36 ∧ isSpace c = false) ∧ (q = [64] → toLower qname = toLower domain) ∧
      (q ≠ [64] → domain ≠ [] ∧ q.getLast? ≠ some dot ∧ Reversible (toLower q)))
    ⟨fun h => ⟨h.1, h.2.1, h.2.2.1, h.2.2.2⟩, fun h => ⟨h.octet, h.head, h.apex, h.below⟩⟩

/-- **When a text is read back as the content of a line**: it is in the line, does not start or end with what
is trimmed, and has no comment and no parenthesis; its last octet is not an escaping backslash. -/
structure TextKept (c : Octets) : Prop where
  octet : ∀ x ∈ c, x ≠ newline ∧ x ≠ 0
  head : ∃ x ∈ c.head?, isSpace x = false
  last : ∀ x ∈ c.getLast?, isSpace x = false ∧ x ≠ 26
  no_comment : findUnquoted 59 false false c = c.length
  no_paren : findUnquoted 40 false false c = c.length

instance (c : Octets) : Decidable (TextKept c) :=
  haveI : Decidable (∀ x ∈ c, x ≠ newline ∧ x ≠ 0) := List.decidableBAll _ _
  haveI : Decidable (∃ x ∈ c.head?, isSpace x = false) := Option.decidableExistsMem _
  haveI : Decidable (∀ x ∈ c.getLast?, isSpace x = false ∧ x ≠ 26) := Option.decidableForallMem _
  decidable_of_iff ((∀ x ∈ c, x ≠ newline ∧ x ≠ 0) ∧ (∃ x ∈ c.head?, isSpace x = false) ∧
      (∀ x ∈ c.getLast?, isSpace x = false ∧ x ≠ 26) ∧ findUnquoted 59 false false c = c.length ∧
      findUnquoted 40 false false c = c.length)
    ⟨fun h => ⟨h.1, h.2.1, h.2.2.1, h.2.2.2.1, h.2.2.2.2⟩,
      fun h => ⟨h.octet, h.head, h.last, h.no_comment, h.no_paren⟩⟩

/-- The first token of a content is not taken for the class, or is the whole content. -/
def NotClass (c : Octets) : Prop :=
  ∀ first ∈ (stringtokOn c delimiters).head?, pdnsIequals first (ascii "IN") = true →
    (stringtokOn c delimiters).length = 1

instance (c : Octets) : Decidable (NotClass c) := inferInstanceAs (Decidable (∀ _ ∈ _, _ → _))

/-- **When a name is completed to what it was**, for the text `c` that is written: it was not taken to be in
the zone, it is that of the zone, or it does not look like a full name. -/
def NameKept (domain content c : Octets) : Prop :=
  stripDomainSuffix content domain = none ∨ (c = [64] ∧ toLower content = toLower domain) ∨
    (c ≠ [64] ∧ domain ≠ [] ∧ c.getLast? ≠ some dot)

instance (domain content c : Octets) : Decidable (NameKept domain content c) :=
  inferInstanceAs (Decidable (_ ∨ _ ∨ _))

/-- The content of a SOA record: full names, and numbers as they are printed, with single blanks. -/
structure SOAText (c : Octets) : Prop where
  spaced : joinWith 32 (stringtokOn c delimiters) = c
  not_at : c ≠ [64]
  names : 2 ≤ (stringtokOn c delimiters).length →
    ∀ name ∈ (stringtokOn c delimiters).take 2, name.getLast? = some dot
  times : ∀ time ∈ (stringtokOn c delimiters).drop 2,
    (makeTTLFromZone time).map (fun n => decimal n.toNat) = some time

instance (c : Octets) : Decidable (SOAText c) :=
  decidable_of_iff (joinWith 32 (stringtokOn c delimiters) = c ∧ c ≠ [64] ∧
      (2 ≤ (stringtokOn c delimiters).length →
        ∀ name ∈ (stringtokOn c delimiters).take 2, name.getLast? = some dot) ∧
      ∀ time ∈ (stringtokOn c delimiters).drop 2,
        (makeTTLFromZone time).map (fun n => decimal n.toNat) = some time)
    ⟨fun h => ⟨h.1, h.2.1, h.2.2.1, h.2.2.2⟩,
      fun h => ⟨h.spaced, h.not_at, h.names, h.times⟩⟩

/-- **When a content is left alone**, as the type has it. Only names in NS, CNAME and MX records are completed
to what they were; that of an AFSDB record loses its last dot, or gets the name of the zone behind it, so it is
left alone only in the root zone. -/
def ContentKept (domain : Octets) (r : TextRR) (c : Octets) : Prop :=
  if r.qtype = QType.MX then
    NameKept domain r.content c ∧ (stripDomainSuffix r.content domain ≠ none → ∀ x ∈ c, x ∉ delimiters)
  else if r.qtype = QType.NS ∨ r.qtype = QType.CNAME then NameKept domain r.content c
  else if r.qtype = QType.PTR ∨ r.qtype = QType.SRV then c.getLast? = some dot
  else if r.qtype = QType.SOA then SOAText c
  else c ≠ [64] ∧ (r.qtype = QType.AFSDB → domain = [] ∧ c.getLast? ≠ some dot)

instance (domain : Octets) (r : TextRR) (c : Octets) : Decidable (ContentKept domain r c) :=
  inferInstanceAs (Decidable (ite _ _ (ite _ _ (ite _ _ (ite _ _ _)))))

/-- **When a record survives.** -/
structure Survives (namemap : List (UInt16 × Octets)) (domain : Octets) (r : TextRR) : Prop where
  owner : ∃ q, stripDomainSuffix r.qname domain = some q ∧ OwnerKept domain r.qname q
  type : TypeToNumber namemap (getName r.qtype) = some r.qtype
  priority : r.qtype ≠ QType.MX → r.qtype ≠ QType.SRV →
    r.priority = 0 ∧ NotClass (writtenContent domain r)
  text : TextKept (writtenContent domain r)
  content : ContentKept domain r (writtenContent domain r)

instance (namemap : List (UInt16 × Octets)) (domain : Octets) (r : TextRR) :
    Decidable (Survives namemap domain r) :=
  decidable_of_iff ((∃ q ∈ stripDomainSuffix r.qname domain, OwnerKept domain r.qname q) ∧
      TypeToNumber namemap (getName r.qtype) = some r.qtype ∧
      (r.qtype ≠ QType.MX → r.qtype ≠ QType.SRV → r.priority = 0 ∧ NotClass (writtenContent domain r)) ∧
      TextKept (writtenContent domain r) ∧ ContentKept domain r (writtenContent domain r))
    ⟨fun h => ⟨h.1, h.2.1, h.2.2.1, h.2.2.2.1, h.2.2.2.2⟩,
      fun h => ⟨h.owner, h.type, h.priority, h.text, h.content⟩⟩

/-- A record of the zone is the same as one that was transferred. Names may differ in case. -/
structure SameRecord (domain : Octets) (r : TextRR) (bdr : Bind2DNSRecord) : Prop where
  owner : toLower (bdr.owner domain) = toLower r.qname
  qtype : bdr.qtype = r.qtype
  content : if r.qtype = QType.CNAME ∨ r.qtype = QType.MX ∨ r.qtype = QType.NS ∨ r.qtype = QType.AFSDB then
      toLower bdr.content = toLower r.content
    else bdr.content = r.content
  ttl : bdr.ttl = r.ttl
  priority : bdr.priority = r.priority

instance (domain : Octets) (r : TextRR) (bdr : Bind2DNSRecord) : Decidable (SameRecord domain r bdr) :=
  decidable_of_iff (toLower (bdr.owner domain) = toLower r.qname ∧ bdr.qtype = r.qtype ∧
      (if r.qtype = QType.CNAME ∨ r.qtype = QType.MX ∨ r.qtype = QType.NS ∨ r.qtype = QType.AFSDB then
        toLower bdr.content = toLower r.content
      else bdr.content = r.content) ∧ bdr.ttl = r.ttl ∧ bdr.priority = r.priority)
    ⟨fun h => ⟨h.1, h.2.1, h.2.2.1, h.2.2.2.1, h.2.2.2.2⟩,
      fun h => ⟨h.owner, h.qtype, h.content, h.ttl, h.priority⟩⟩

/-- **The round trip**: what was written is read back, to the last record and without an error. -/
def RoundTrips (env : Surroundings) (domain nowTime : Octets) (rs : List TextRR) : Prop :=
  ∃ file records turns, writtenFile domain nowTime rs = some file ∧
    readBack env turns domain file = some (.ok records) ∧ List.Forall₂ (SameRecord domain) rs records

/-! ### What is written -/

section Written

variable {domain qname q t content : Octets} {r : TextRR}

/-- A name that is stripped is that of the zone, or ends in it behind a dot. -/
theorem stripDomainSuffix_eq_some (h : stripDomainSuffix qname domain = some q) :
    (q = [64] ∧ toLower qname = toLower domain) ∨
      (domain ≠ [] → toLower qname = toLower q ++ dot :: toLower domain) := by
  unfold stripDomainSuffix at h
  split at h
  · cases h
  next hends =>
    split at h
    next hsame => exact .inl ⟨(some.inj h).symm, hsame⟩
    next hother =>
      split at h
      · cases h
      · obtain rfl := some.inj h
        refine .inr fun hroot => ?_
        have hafter : endsOnAfterDot qname domain = true := by
          have hci : ciEqual qname domain = false := by
            rw [← Bool.not_eq_true, ciEqual_iff]
            exact hother
          simpa [endsOn, hroot, hci] using hends
        obtain ⟨t, hcut, -, ht⟩ := (endsOnAfterDot_iff _ _).mp hafter
        calc toLower qname
            = toLower (qname.take (qname.length - domain.length - 1) ++ dot :: t) := congrArg toLower hcut
          _ = _ := by rw [toLower_append, toLower_cons, ht]; rfl

theorem canonic_dot (t : Octets) : canonic (t ++ [dot]) = toLower t := by
  have hlower : toLower (t ++ [dot]) = toLower t ++ [dot] := toLower_append t [dot]
  unfold canonic
  rw [hlower, if_pos (by simp), dropLast_concat]

/-- The name that the parser has for the zone. -/
theorem toCanonic_zone (h : ZoneName domain) : toCanonic [] domain = domain ++ [dot] := by
  have hlast : isCanonical domain = false := by
    exact beq_false_of_ne h.last
  unfold toCanonic
  rw [if_neg h.not_at, hlast]
  rfl

theorem toCanonic_full {zone : Octets} (hlast : t.getLast? = some dot) : toCanonic zone t = t := by
  have hat : t ≠ [64] := by
    rintro rfl
    exact absurd hlast (by decide)
  unfold toCanonic isCanonical
  rw [if_neg hat, if_pos (by simp [hlast])]

theorem toCanonic_relative (h : ZoneName domain) (hat : t ≠ [64]) (hlast : t.getLast? ≠ some dot)
    (hroot : domain ≠ []) : toCanonic (domain ++ [dot]) t = (t ++ dot :: domain) ++ [dot] := by
  have hhead : (domain ++ [dot]).head? ≠ some dot := by
    rw [head?_append_of_ne_nil _ hroot]
    exact h.head.1
  unfold toCanonic isCanonical
  rw [if_neg hat, if_neg (by simpa using hlast), if_pos ⟨by simp, hhead⟩, append_assoc]
  rfl

/-- A name that is kept is completed to itself. -/
theorem completed_name (hzone : ZoneName domain)
    (hkept : NameKept domain content ((stripDomainSuffix content domain).getD (content ++ [dot]))) :
    canonic (toCanonic (domain ++ [dot]) ((stripDomainSuffix content domain).getD (content ++ [dot]))) =
      toLower content := by
  cases hstrip : stripDomainSuffix content domain with
  | none =>
    rw [getD_none, toCanonic_full (by simp)]
    exact canonic_dot content
  | some c =>
    rw [hstrip, getD_some] at hkept
    rw [getD_some]
    rcases hkept with hnone | ⟨rfl, hsame⟩ | ⟨hat, hroot, hlast⟩
    · rw [hstrip] at hnone
      cases hnone
    · rw [hsame]
      exact canonic_dot domain
    · rw [toCanonic_relative hzone hat hlast hroot, canonic_dot, toLower_append, toLower_cons]
      exact (((stripDomainSuffix_eq_some hstrip).resolve_left fun h => hat h.1) hroot).symm

/-- The owner that is read is the one that was written. -/
theorem relativeName_ownerName (hzone : ZoneName domain) (hstrip : stripDomainSuffix qname domain = some q)
    (hkept : OwnerKept domain qname q) :
    ∃ x, relativeName domain (ownerName (domain ++ [dot]) q) = some x ∧
      toLower (dotConcat (labelReverse (labelReverse x)) domain) = toLower qname := by
  by_cases hat : q = [64]
  · refine ⟨[], ?_, by rw [hkept.apex hat]; exact congrArg toLower (dotConcat_nil domain)⟩
    unfold ownerName relativeName
    rw [if_pos hat, canonic_dot]
    split
    next hroot => rw [hroot]; rfl
    next => rw [if_pos (toLower_toLower domain)]
  · obtain ⟨hroot, hlast, hreverse⟩ := hkept.below hat
    have hne : toLower q ≠ [] := by
      obtain ⟨c, hc, -⟩ := hkept.head
      intro hnil
      rw [(toLower_eq_nil q).mp hnil] at hc
      cases hc
    have hname : ownerName (domain ++ [dot]) q = (q ++ dot :: domain) ++ [dot] := by
      have hhead : (domain ++ [dot]).head? ≠ some dot := by
        rw [head?_append_of_ne_nil _ hroot]
        exact hzone.head.1
      unfold ownerName isCanonical
      rw [if_neg hat, if_neg (by simpa using hlast), if_pos (.inr hhead), append_assoc]
      rfl
    have hlower : toLower (q ++ dot :: domain) = toLower q ++ dot :: toLower domain := by
      rw [toLower_append, toLower_cons]
      rfl
    have hlength : (toLower domain).length = domain.length := length_map _
    refine ⟨toLower q, ?_, ?_⟩
    · unfold relativeName
      rw [hname, canonic_dot, toLower_toLower, hlower]
      rw [if_neg hroot, if_neg fun h => ?_, if_pos ?_]
      · congr 1
        rw [show (toLower q ++ dot :: toLower domain).length - (domain.length + 1) = (toLower q).length by
          simp [hlength]]
        exact take_left
      · simp only [length_append, length_cons, hlength]
        omega
      · have := congrArg List.length h
        simp only [length_append, length_cons] at this
        omega
    · rw [hreverse, dotConcat, if_neg (not_or.mpr ⟨hne, hroot⟩), toLower_append, toLower_cons, toLower_toLower]
      exact (((stripDomainSuffix_eq_some hstrip).resolve_left fun h => hat h.1) hroot).symm

theorem getName_octet (code : UInt16) : ∀ c ∈ getName code, c ∉ delimiters ∧ c ≠ 59 ∧ c ≠ 0 := by
  unfold getName
  split
  · next n hfind =>
    have hall : ∀ n ∈ typeNames, n.1.all (fun c => c ∉ delimiters ∧ c ≠ 59 ∧ c ≠ 0) = true := by decide +kernel
    have hplain := all_eq_true.mp (hall n (mem_of_find?_eq_some hfind))
    exact fun c hc => of_decide_eq_true (hplain c hc)
  · intro c hc
    rcases mem_cons.mp hc with rfl | hc
    · decide
    · have hoctet := itoa_octets code.toInt16.toInt c hc
      unfold delimiters newline
      grind

theorem getName_not_class (code : UInt16) :
    getName code ≠ [] ∧ pdnsIequals (getName code) (ascii "IN") = false := by
  unfold getName
  split
  · next n hfind =>
    have hall : ∀ n ∈ typeNames, n.1 ≠ [] ∧ pdnsIequals n.1 (ascii "IN") = false := by decide +kernel
    exact hall n (mem_of_find?_eq_some hfind)
  · refine ⟨cons_ne_nil _ _, ?_⟩
    rw [← Bool.not_eq_true, pdnsIequals_iff]
    intro h
    have hhead := congrArg List.head? h
    rw [toLower_cons, head?_cons] at hhead
    revert hhead
    decide

end Written

/-! ### One line -/

section Line

variable {env : Surroundings} {domain c tail : Octets} {r : TextRR} {s : Parser}

theorem decimal_octet (n : Nat) :
    ∀ c ∈ decimal n, c ∉ delimiters ∧ c ≠ 59 ∧ c ≠ 40 ∧ c ≠ backslash ∧ c ≠ 34 ∧ isSpace c = false ∧
      ZoneParserTNG.isDigit c = true := by
  intro c hc
  have hdigit := decimal_digits n c hc
  unfold delimiters newline backslash isSpace ZoneParserTNG.isDigit
  grind

theorem not_class_decimal (n : Nat) : pdnsIequals (decimal n) (ascii "IN") = false := by
  rw [← Bool.not_eq_true, pdnsIequals_iff]
  intro h
  obtain ⟨c, t, hcons⟩ := exists_cons_of_ne_nil (decimal_ne_nil n)
  have hdigit := decimal_digits n c (hcons ▸ mem_cons_self)
  rw [hcons, toLower_cons] at h
  have hhead : dnsTolower c = 105 := (List.cons.inj h).1
  unfold dnsTolower at hhead
  split at hhead <;> grind

theorem isTimeSpec_decimal (n : Nat) : isTimeSpec (decimal n) = true := by
  have hall : ∀ t : Octets, t ≠ [] → (∀ c ∈ t, ZoneParserTNG.isDigit c = true) → isTimeSpec t = true := by
    intro t hne ht
    induction t with
    | nil => exact absurd rfl hne
    | cons c t ih =>
      have hc := ht c mem_cons_self
      cases t with
      | nil => simp [isTimeSpec, hc]
      | cons d t =>
        have hlater := ih (cons_ne_nil d t) fun c' hc' => ht c' (mem_cons_of_mem c hc')
        simp [isTimeSpec, hc, hlater]
  exact hall _ (decimal_ne_nil n) fun c hc => (decimal_octet n c hc).2.2.2.2.2.2

theorem makeTTLFromZone_decimal (ttl : UInt32) : makeTTLFromZone (decimal ttl.toNat) = some ttl := by
  have hlast := getLast?_eq_some_getLast (decimal_ne_nil ttl.toNat)
  have hdigit := (decimal_octet _ _ (getLast_mem (decimal_ne_nil ttl.toNat))).2.2.2.2.2.2
  unfold makeTTLFromZone
  rw [hlast]
  dsimp only
  rw [if_pos hdigit, ofInt_atoi_ttl]

/-- The TTL and the type are read, and what comes behind them begins a new part. -/
theorem readFields_typed (htype : TypeToNumber env.namemap (getName r.qtype) = some r.qtype) (ttl : UInt32)
    (t₁ t₂ : Octets) (parts : List Part) :
    readFields env s { ttl } (⟨decimal r.ttl.toNat, t₁⟩ :: ⟨getName r.qtype, t₂⟩ :: parts) =
      readFields env s { ttl := r.ttl, haveTTL := true, qtype := some r.qtype, tail := t₂ } parts := by
  have hsemi : 59 ∉ decimal r.ttl.toNat := fun h => (decimal_octet _ _ h).2.1 rfl
  have hsemi' : 59 ∉ getName r.qtype := fun h => (getName_octet _ _ h).2.1 rfl
  rw [readFields]
  rw [if_neg (not_or.mpr ⟨decimal_ne_nil _, hsemi⟩), if_neg (by rw [not_class_decimal]; exact Bool.false_ne_true),
    if_pos (by simp [isTimeSpec_decimal]), timeOf, makeTTLFromZone_decimal]
  change readFields env s _ (⟨getName r.qtype, t₂⟩ :: parts) = _
  rw [readFields]
  rw [if_neg (not_or.mpr ⟨(getName_not_class r.qtype).1, hsemi'⟩),
    if_neg (by rw [(getName_not_class r.qtype).2]; exact Bool.false_ne_true), if_neg (by simp),
    if_neg (by simp), htype]

/-- Behind the type is the content. -/
theorem readFields_content {fields : Fields} (hTTL : fields.haveTTL = true) (htype : fields.qtype.isSome = true)
    (hhead : ∃ x ∈ tail.head?, isSpace x = false) (hclass : NotClass tail) :
    readFields env s fields (vstringtok tail) = .ok { fields with tail } := by
  obtain ⟨x, hx, hspace⟩ := hhead
  obtain ⟨rest, rfl⟩ : ∃ rest, tail = x :: rest := head?_eq_some_iff.mp hx
  have hdelimiter : x ∉ delimiters := by
    intro hmem
    simp only [delimiters, mem_cons, not_mem_nil, or_false] at hmem
    rcases hmem with rfl | rfl | rfl <;> exact absurd hspace (by decide)
  obtain ⟨t, ts, htok⟩ := @vstringtok_cons rest x hdelimiter
  have htokens := map_text_vstringtok (x :: rest)
  rw [htok, map_cons] at htokens
  rw [htok, readFields]
  split
  · rfl
  · split
    next hin =>
      -- the class is skipped only when it is the whole content
      have hlength := hclass _ (by rw [← htokens]; rfl) hin
      rw [← htokens, length_cons, length_map] at hlength
      rw [length_eq_zero_iff.mp (Nat.succ.inj hlength)]
      rfl
    next => rw [if_neg (by simp [hTTL])]

/-- A content without comments and parentheses is taken as it is. -/
theorem readContent_plain (hzone : s.d_zonename = domain ++ [dot]) (hname : ZoneName domain) (htail : TextKept tail) :
    readContent s tail = .ok (if tail = [64] then domain ++ [dot] else tail, s) := by
  have htrim : trim (chopComment tail) = tail := by
    rw [chopComment_of_none htail.no_comment]
    refine trim_of_plain (fun d hd => ?_) fun d hd => (htail.last d hd).1
    obtain ⟨x, hx, hspace⟩ := htail.head
    rw [hx] at hd
    exact some.inj hd ▸ hspace
  unfold readContent
  rw [htrim]
  dsimp only
  have hfind : findUnquoted 40 false false (if tail = [64] then domain ++ [dot] else tail) =
      (if tail = [64] then domain ++ [dot] else tail).length := by
    split
    · rw [hname.no_paren, length_append]
      rfl
    · exact htail.no_paren
  rw [hzone, findAndElide_of_none hfind]

/-- A priority in front of a content changes nothing about it. -/
theorem textKept_prio (n : Nat) (hc : TextKept c) : TextKept (decimal n ++ 9 :: c) := by
  obtain ⟨x, hx, hspace⟩ := hc.head
  obtain ⟨rest, rfl⟩ : ∃ rest, c = x :: rest := head?_eq_some_iff.mp hx
  have hfind : ∀ d : UInt8, d = 59 ∨ d = 40 → findUnquoted d false false (x :: rest) = (x :: rest).length →
      findUnquoted d false false (decimal n ++ 9 :: x :: rest) = (decimal n ++ 9 :: x :: rest).length := by
    intro d hd hnone
    have hplain : ∀ e ∈ decimal n ++ [9], e ≠ backslash ∧ e ≠ 34 ∧ e ≠ d := by
      intro e he
      rcases mem_append.mp he with he | he
      · have := decimal_octet n e he
        rcases hd with rfl | rfl
        · exact ⟨this.2.2.2.1, this.2.2.2.2.1, this.2.1⟩
        · exact ⟨this.2.2.2.1, this.2.2.2.2.1, this.2.2.1⟩
      · rw [mem_singleton.mp he]
        rcases hd with rfl | rfl <;> decide
    have hsplit : decimal n ++ 9 :: x :: rest = (decimal n ++ [9]) ++ x :: rest := by simp
    rw [hsplit, findUnquoted_append hplain, hnone, ← length_append]
  obtain ⟨y, t, hcons⟩ := exists_cons_of_ne_nil (decimal_ne_nil n)
  refine ⟨fun e he => ?_, ⟨y, by rw [hcons]; rfl, (decimal_octet n y (hcons ▸ mem_cons_self)).2.2.2.2.2.1⟩,
    fun e he => hc.last e ?_, hfind 59 (.inl rfl) hc.no_comment, hfind 40 (.inr rfl) hc.no_paren⟩
  · rcases mem_append.mp he with he | he
    · have hdigit := decimal_digits n e he
      grind
    · rcases mem_cons.mp he with rfl | he
      · decide
      · exact hc.octet e he
  · rwa [getLast?_append_of_ne_nil _ (cons_ne_nil _ _), getLast?_cons_cons] at he

theorem notClass_prio (n : Nat) (c : Octets) : NotClass (decimal n ++ 9 :: c) := by
  intro first hfirst hin
  have htok := @vstringtok_append (decimal n) c 9 (fun d hd => (decimal_octet n d hd).1) (decimal_ne_nil n)
    (by decide)
  rw [← map_text_vstringtok, htok, map_cons, head?_cons, mem_some_iff] at hfirst
  rw [← hfirst, not_class_decimal] at hin
  cases hin

end Line

/-! ### One content -/

section Content

variable {domain c name : Octets} {r : TextRR} {s : Parser}

theorem mem_delimiters_of_no_token (h : stringtokOn c delimiters = []) : ∀ x ∈ c, x ∈ delimiters := by
  induction c with
  | nil => exact fun x hx => absurd hx not_mem_nil
  | cons d c ih =>
    by_cases hd : d ∈ delimiters
    · intro x hx
      unfold stringtokOn at h
      rw [stringtokOnLoop, if_pos hd, if_pos rfl] at h
      rcases mem_cons.mp hx with rfl | hx
      · exact hd
      · exact ih h x hx
    · exact absurd h (stringtokOn_ne_nil hd)

/-- The only token of a text that neither starts nor ends with a delimiter is the text. -/
theorem eq_of_one_token (hhead : ∃ x ∈ c.head?, x ∉ delimiters) (hlast : ∀ x ∈ c.getLast?, x ∉ delimiters)
    (h : stringtokOn c delimiters = [name]) : name = c := by
  obtain ⟨x, hx, hx'⟩ := hhead
  have hne : c ≠ [] := by
    rintro rfl
    cases hx
  cases hdrop : c.dropWhile (· ∉ delimiters) with
  | nil =>
    have hall : ∀ y ∈ c, y ∉ delimiters := fun y hy => by
      simpa using dropWhile_eq_nil_iff.mp hdrop y hy
    rw [stringtokOn_token hall hne] at h
    exact (List.cons.inj h).1.symm
  | cons d rest =>
    exfalso
    have hsplit : c = c.takeWhile (· ∉ delimiters) ++ d :: rest := by
      rw [← hdrop]
      exact takeWhile_append_dropWhile.symm
    have hd : d ∈ delimiters := by
      have hnot := head?_dropWhile_not (fun y => decide (y ∉ delimiters)) c
      rw [hdrop] at hnot
      simpa using hnot
    have htake : ∀ y ∈ c.takeWhile (· ∉ delimiters), y ∉ delimiters := fun y hy => by
      simpa using mem_takeWhile_imp hy
    have hfirst : c.takeWhile (· ∉ delimiters) ≠ [] := by
      obtain ⟨rest', rfl⟩ : ∃ rest', c = x :: rest' := head?_eq_some_iff.mp hx
      rw [takeWhile_cons_of_pos (by simpa using hx')]
      exact cons_ne_nil _ _
    rw [hsplit, stringtokOn_append hd, stringtokOn_token htake hfirst] at h
    have hnone : stringtokOn rest delimiters = [] := (List.cons.inj h).2
    -- so the text ends with a delimiter
    have hmem : ∀ y ∈ d :: rest, y ∈ delimiters := fun y hy => by
      rcases mem_cons.mp hy with rfl | hy
      · exact hd
      · exact mem_delimiters_of_no_token hnone y hy
    have hend := getLast?_eq_some_getLast (cons_ne_nil d rest)
    refine hlast _ ?_ (hmem _ (getLast_mem (cons_ne_nil d rest)))
    rw [hsplit, getLast?_append_of_ne_nil _ (cons_ne_nil _ _)]
    exact hend

theorem not_delimiter_of_not_space {x : UInt8} (h : isSpace x = false) : x ∉ delimiters := by
  intro hmem
  simp only [delimiters, mem_cons, not_mem_nil, or_false] at hmem
  rcases hmem with rfl | rfl | rfl <;> exact absurd h (by decide)

theorem TextKept.eq_of_one_token (hc : TextKept c) (h : stringtokOn c delimiters = [name]) : name = c := by
  obtain ⟨x, hx, hspace⟩ := hc.head
  exact Bind2Backend.eq_of_one_token ⟨x, hx, not_delimiter_of_not_space hspace⟩
    (fun y hy => not_delimiter_of_not_space (hc.last y hy).1) h

/-- The number in front of a content. -/
theorem atoi_prio {x : UInt8} (hx : ¬ (48 ≤ x ∧ x ≤ 57)) (priority : UInt16) (rest : Octets) :
    UInt16.ofInt (atoi (decimal priority.toNat ++ x :: rest)) = priority := by
  obtain ⟨c, t, hcons⟩ := exists_cons_of_ne_nil (decimal_ne_nil priority.toNat)
  have hdigit := decimal_digits _ c (hcons ▸ mem_cons_self)
  have hspace := (decimal_octet _ c (hcons ▸ mem_cons_self)).2.2.2.2.2.1
  have hread : atoi (decimal priority.toNat ++ x :: rest) = atoi (decimal priority.toNat) := by
    have hstop : ¬ isSpace c = true := by rw [hspace]; exact Bool.false_ne_true
    unfold atoi
    rw [hcons, cons_append, dropWhile_cons_of_neg hstop, dropWhile_cons_of_neg hstop]
    dsimp only
    rw [if_neg (by grind), if_neg (by grind), if_neg (by grind), if_neg (by grind), ← cons_append,
      readDigits_append hx]
  rw [hread, ofInt_atoi_priority]

/-- The content behind the number. -/
theorem withoutPrio_prio {x : UInt8} (hx : x = 32 ∨ x = 9) (n : Nat) {rest : Octets}
    (hrest : ∃ y ∈ rest.head?, isSpace y = false) : withoutPrio (decimal n ++ x :: rest) = rest := by
  obtain ⟨y, hy, hspace⟩ := hrest
  obtain ⟨rest, rfl⟩ : ∃ rest', rest = y :: rest' := head?_eq_some_iff.mp hy
  have hdigit : ∀ c ∈ decimal n, isDigit c = true := fun c hc => (decimal_octet n c hc).2.2.2.2.2.2
  have hdrop : (decimal n ++ x :: y :: rest).dropWhile isDigit = x :: y :: rest := by
    rw [dropWhile_append_of_pos hdigit, dropWhile_cons_of_neg (by rcases hx with rfl | rfl <;> decide)]
  unfold withoutPrio
  dsimp only
  rw [hdrop, if_neg (cons_ne_nil _ _), dropWhile_cons_of_pos (by rcases hx with rfl | rfl <;> rfl),
    dropWhile_cons_of_neg (by rw [hspace]; exact Bool.false_ne_true)]

/-- The parser is where it was, its default TTL apart. -/
def SamePlace (s s' : Parser) : Prop :=
  s'.d_zonename = s.d_zonename ∧ s'.d_templateparts = s.d_templateparts ∧ s'.d_filestates = s.d_filestates

theorem soaTimes_printed {parts : List Octets}
    (h : ∀ time ∈ parts, (makeTTLFromZone time).map (fun n => decimal n.toNat) = some time) :
    ∃ times, soaTimes s parts = .ok times ∧ times.map (fun time => decimal time.toNat) = parts := by
  induction parts with
  | nil => exact ⟨[], rfl, rfl⟩
  | cons part parts ih =>
    obtain ⟨times, htimes, hprinted⟩ := ih fun time htime => h time (mem_cons_of_mem part htime)
    obtain ⟨n, hn, hprint⟩ := map_eq_some_iff.mp (h part mem_cons_self)
    refine ⟨n :: times, ?_, by rw [map_cons, hprint, hprinted]⟩
    rw [soaTimes, timeOf, hn, htimes]
    rfl

/-- A SOA record is read as it was written. -/
theorem completeContent_soa (hc : SOAText c) :
    ∃ s', completeContent s QType.SOA c = .ok (c, s') ∧ SamePlace s s' := by
  unfold completeContent
  have hspaced := hc.spaced
  have hnames := hc.names
  have htimes := hc.times
  match htok : stringtokOn c delimiters with
  | [] =>
    rw [htok] at hspaced
    rw [← hspaced]
    exact ⟨s, rfl, rfl, rfl, rfl⟩
  | [part] =>
    rw [htok] at hspaced
    rw [← hspaced]
    exact ⟨s, rfl, rfl, rfl, rfl⟩
  | mname :: rname :: parts =>
    rw [htok] at hspaced hnames htimes
    obtain ⟨times, hread, hprinted⟩ := @soaTimes_printed s parts htimes
    have hm := hnames (by simp) mname (by simp)
    have hr := hnames (by simp) rname (by simp)
    have htext : joinWith 32 (mname :: rname :: times.map fun time => decimal time.toNat) = c := by
      rw [hprinted, hspaced]
    dsimp only
    rw [hread, toCanonic_full hm, toCanonic_full hr]
    refine ⟨_, congrArg (fun text => Except.ok (text, _)) htext, ?_⟩
    split
    · split
      · exact ⟨rfl, rfl, rfl⟩
      · exact ⟨rfl, rfl, rfl⟩
    · exact ⟨rfl, rfl, rfl⟩

/-- What `insert` makes of a content is that of the record that was written. -/
def StoredAs (r : TextRR) (content : Octets) : Prop :=
  (if r.qtype = QType.CNAME ∨ r.qtype = QType.MX ∨ r.qtype = QType.NS ∨ r.qtype = QType.AFSDB then
    canonic (if r.qtype = QType.MX ∨ r.qtype = QType.SRV then withoutPrio content else content) = toLower r.content
  else (if r.qtype = QType.MX ∨ r.qtype = QType.SRV then withoutPrio content else content) = r.content) ∧
  (r.qtype = QType.MX ∨ r.qtype = QType.SRV → UInt16.ofInt (atoi content) = r.priority)

section Types

variable (hzone : ZoneName domain) (hs : s.d_zonename = domain ++ [dot])
  (htext : TextKept (writtenContent domain r)) (hcontent : ContentKept domain r (writtenContent domain r))
include htext hcontent

include hzone hs in
/-- A MX record. -/
theorem completeContent_mx (hmx : r.qtype = QType.MX) :
    ∃ content, completeContent s QType.MX (decimal r.priority.toNat ++ 9 :: writtenContent domain r) = .ok (content, s) ∧
      StoredAs r content := by
  have hwritten : writtenContent domain r = (stripDomainSuffix r.content domain).getD (r.content ++ [dot]) :=
    if_pos (.inl hmx)
  rw [ContentKept, if_pos hmx] at hcontent
  obtain ⟨hkept, hone⟩ := hcontent
  have htokens : stringtokOn (decimal r.priority.toNat ++ 9 :: writtenContent domain r) delimiters =
      decimal r.priority.toNat :: stringtokOn (writtenContent domain r) delimiters := by
    rw [stringtokOn_append (by decide), stringtokOn_token (fun c hc => (decimal_octet _ c hc).1) (decimal_ne_nil _)]
    rfl
  have hstored : ∀ content, (∃ x rest, (x = 32 ∨ x = 9) ∧ content = decimal r.priority.toNat ++ x :: rest ∧
      (∃ y ∈ rest.head?, isSpace y = false) ∧ canonic rest = toLower r.content) → StoredAs r content := by
    rintro content ⟨x, rest, hx, rfl, hhead, hcanonic⟩
    unfold StoredAs
    rw [if_pos (.inr (.inl hmx)), if_pos (.inl hmx), withoutPrio_prio hx _ hhead]
    exact ⟨hcanonic, fun _ => atoi_prio (by rcases hx with rfl | rfl <;> decide) r.priority rest⟩
  unfold completeContent
  rw [if_pos rfl, htokens, hs]
  match htok : stringtokOn (writtenContent domain r) delimiters with
  | [name] =>
    -- one name, which is completed
    obtain rfl := htext.eq_of_one_token htok
    refine ⟨_, rfl, hstored _ ⟨32, _, .inl rfl, rfl, ?_, ?_⟩⟩
    · obtain ⟨x, hx, hspace⟩ := htext.head
      obtain ⟨rest, hcons⟩ : ∃ rest, writtenContent domain r = x :: rest := head?_eq_some_iff.mp hx
      unfold toCanonic
      rw [hcons]
      split
      · by_cases hroot : domain = []
        · exact ⟨dot, by rw [hroot]; rfl, by decide⟩
        · obtain ⟨y, t, hdomain⟩ := exists_cons_of_ne_nil hroot
          exact ⟨y, by rw [hdomain]; rfl, hzone.head.2 y (by rw [hdomain]; rfl)⟩
      · split
        · exact ⟨x, rfl, hspace⟩
        · exact ⟨x, rfl, hspace⟩
    · rw [hwritten] at hkept ⊢
      exact completed_name hzone hkept
  | [] =>
    obtain ⟨x, hx, hspace⟩ := htext.head
    obtain ⟨rest, hcons⟩ : ∃ rest, writtenContent domain r = x :: rest := head?_eq_some_iff.mp hx
    exact absurd (hcons ▸ htok) (stringtokOn_ne_nil (not_delimiter_of_not_space hspace))
  | first :: second :: more =>
    -- several tokens are left as they are, so the name was not stripped
    have hnone : stripDomainSuffix r.content domain = none := by
      by_contra hne
      have hlength := congrArg List.length htok
      have hcontent_ne : writtenContent domain r ≠ [] := by
        obtain ⟨x, hx, -⟩ := htext.head
        intro hnil
        rw [hnil] at hx
        cases hx
      rw [stringtokOn_token (hone hne) hcontent_ne] at hlength
      simp at hlength
    refine ⟨_, rfl, hstored _ ⟨9, _, .inr rfl, rfl, htext.head, ?_⟩⟩
    rw [hwritten, hnone]
    exact canonic_dot r.content

omit htext in
include hzone hs in
/-- A NS or CNAME record. -/
theorem completeContent_name (hname : r.qtype = QType.NS ∨ r.qtype = QType.CNAME) :
    ∃ content, completeContent s r.qtype
        (if writtenContent domain r = [64] then domain ++ [dot] else writtenContent domain r) = .ok (content, s) ∧
      StoredAs r content := by
  have hmx : r.qtype ≠ QType.MX := by rcases hname with h | h <;> rw [h] <;> decide
  have hsrv : r.qtype ≠ QType.SRV := by rcases hname with h | h <;> rw [h] <;> decide
  have hwritten : writtenContent domain r = (stripDomainSuffix r.content domain).getD (r.content ++ [dot]) :=
    if_pos (.inr hname.symm)
  rw [ContentKept, if_neg hmx, if_pos hname] at hcontent
  have hsame : toCanonic (domain ++ [dot])
      (if writtenContent domain r = [64] then domain ++ [dot] else writtenContent domain r) =
      toCanonic (domain ++ [dot]) (writtenContent domain r) := by
    split
    next hat => rw [toCanonic_full (by simp), hat, toCanonic, if_pos rfl]
    next => rfl
  unfold completeContent
  rw [if_neg hmx, if_pos (by tauto), hs, hsame]
  refine ⟨_, rfl, ?_, fun h => absurd h (not_or.mpr ⟨hmx, hsrv⟩)⟩
  rw [if_pos (by tauto), if_neg (not_or.mpr ⟨hmx, hsrv⟩), hwritten]
  rw [hwritten] at hcontent
  exact completed_name hzone hcontent

/-- A PTR or SRV record, whose name is written in full. -/
theorem completeContent_full (hfull : r.qtype = QType.PTR ∨ r.qtype = QType.SRV) :
    ∃ content, completeContent s r.qtype (writtenPrio r ++ writtenContent domain r) = .ok (content, s) ∧
      StoredAs r content := by
  have hmx : r.qtype ≠ QType.MX := by rcases hfull with h | h <;> rw [h] <;> decide
  have hnames : ¬ (r.qtype = QType.CNAME ∨ r.qtype = QType.MX ∨ r.qtype = QType.NS ∨ r.qtype = QType.AFSDB) := by
    rcases hfull with h | h <;> rw [h] <;> decide
  have hwritten : writtenContent domain r = r.content := if_neg (by tauto)
  rw [ContentKept, if_neg hmx, if_neg (by tauto), if_pos hfull] at hcontent
  have hlast : (writtenPrio r ++ writtenContent domain r).getLast? = some dot := by
    rw [getLast?_append, hcontent]
    rfl
  unfold completeContent StoredAs
  rw [if_neg hmx, if_pos (by tauto), toCanonic_full hlast]
  refine ⟨_, rfl, ?_⟩
  rw [if_neg hnames]
  rcases hfull with hptr | hsrv
  · have hprio : ¬ (r.qtype = QType.MX ∨ r.qtype = QType.SRV) := by rw [hptr]; decide
    unfold writtenPrio
    rw [if_neg hprio, if_neg hprio, hwritten]
    exact ⟨rfl, fun h => absurd h hprio⟩
  · unfold writtenPrio
    rw [if_pos (.inr hsrv), if_pos (.inr hsrv), append_assoc, hwritten]
    rw [hwritten] at htext
    exact ⟨withoutPrio_prio (.inr rfl) _ htext.head, fun _ => atoi_prio (by decide) r.priority r.content⟩

include hzone hs in
/-- **A content that is kept** is completed to what `insert` makes the content of the record of. -/
theorem completeContent_kept :
    ∃ content s', completeContent s r.qtype
        (if writtenPrio r ++ writtenContent domain r = [64] then domain ++ [dot]
          else writtenPrio r ++ writtenContent domain r) = .ok (content, s') ∧
      SamePlace s s' ∧ StoredAs r content := by
  by_cases hmx : r.qtype = QType.MX
  · obtain ⟨content, hread, hstored⟩ := completeContent_mx hzone hs htext hcontent hmx
    have hprio : writtenPrio r ++ writtenContent domain r = decimal r.priority.toNat ++ 9 :: writtenContent domain r := by
      unfold writtenPrio
      rw [if_pos (.inl hmx), append_assoc]
      rfl
    have hat : ∀ t : Octets, decimal r.priority.toNat ++ 9 :: t ≠ [64] := by
      intro t h
      obtain ⟨c, rest, hcons⟩ := exists_cons_of_ne_nil (decimal_ne_nil r.priority.toNat)
      rw [hcons] at h
      simp at h
    rw [hprio, if_neg (hat _), hmx]
    exact ⟨content, s, hread, ⟨rfl, rfl, rfl⟩, hstored⟩
  by_cases hfull : r.qtype = QType.PTR ∨ r.qtype = QType.SRV
  · obtain ⟨content, hread, hstored⟩ := @completeContent_full domain r s htext hcontent hfull
    have hat : writtenPrio r ++ writtenContent domain r ≠ [64] := by
      rw [ContentKept, if_neg hmx, if_neg (by rcases hfull with h | h <;> rw [h] <;> decide), if_pos hfull] at hcontent
      intro h
      have hlast := congrArg List.getLast? h
      rw [getLast?_append, hcontent, some_or] at hlast
      exact absurd hlast (by decide)
    rw [if_neg hat]
    exact ⟨content, s, hread, ⟨rfl, rfl, rfl⟩, hstored⟩
  have hprio : ¬ (r.qtype = QType.MX ∨ r.qtype = QType.SRV) := by tauto
  have hnone : writtenPrio r = [] := if_neg hprio
  rw [hnone, nil_append]
  by_cases hname : r.qtype = QType.NS ∨ r.qtype = QType.CNAME
  · obtain ⟨content, hread, hstored⟩ := completeContent_name hzone hs hcontent hname
    exact ⟨content, s, hread, ⟨rfl, rfl, rfl⟩, hstored⟩
  have hwritten : writtenContent domain r = r.content := if_neg (by tauto)
  rw [ContentKept, if_neg hmx, if_neg hname, if_neg hfull] at hcontent
  rw [hwritten] at hcontent ⊢
  unfold StoredAs
  by_cases hsoa : r.qtype = QType.SOA
  · rw [if_pos hsoa] at hcontent
    obtain ⟨s', hread, hplace⟩ := @completeContent_soa r.content s hcontent
    rw [if_neg hcontent.not_at, hsoa]
    exact ⟨r.content, s', hread, hplace, rfl, fun h => absurd h (by decide)⟩
  · rw [if_neg hsoa] at hcontent
    obtain ⟨hat, hafsdb⟩ := hcontent
    rw [if_neg hat, completeContent, if_neg hmx]
    by_cases htype : r.qtype = QType.AFSDB
    · -- in the root zone the dot that is put behind is the one that `insert` takes away
      obtain ⟨rfl, hlast⟩ := hafsdb htype
      have hcomplete : toCanonic s.d_zonename r.content = r.content ++ [dot] := by
        have hnot : isCanonical r.content = false := beq_false_of_ne hlast
        unfold toCanonic
        rw [if_neg hat, hnot, hs]
        rfl
      rw [if_pos (.inr (.inr (.inr (.inr htype)))), hcomplete]
      refine ⟨r.content ++ [dot], s, rfl, ⟨rfl, rfl, rfl⟩, ?_, fun h => absurd h hprio⟩
      rw [if_pos (.inr (.inr (.inr htype))), if_neg hprio]
      exact canonic_dot r.content
    · rw [if_neg (by tauto), if_neg hsoa]
      refine ⟨r.content, s, rfl, ⟨rfl, rfl, rfl⟩, ?_, fun h => absurd h hprio⟩
      rw [if_neg (by tauto), if_neg hprio]

end Types

end Content

/-! ### The file -/

section File

variable {env : Surroundings} {domain line rest text : Octets} {r : TextRR} {s : Parser}

/-- The parser is at this text of its only file, and in the zone. -/
structure Reading (domain text : Octets) (s : Parser) : Prop where
  zonename : s.d_zonename = domain ++ [dot]
  no_template : s.d_templateparts = []
  file : ∃ f, s.d_filestates = [f] ∧ f.d_text = text

/-- The next line is read. -/
theorem turn_line (hs : Reading domain (line ++ newline :: rest) s) (hnewline : newline ∉ line) (hzero : 0 ∉ line)
    (rr : TextRR) :
    ∃ s', turn env s rr = readTurn env s' rr ∧ Reading domain rest s' ∧ s'.d_line = line ++ [newline] := by
  obtain ⟨hzone, hparts, f, hfiles, htext⟩ := hs
  have htemplate : getTemplateLine env s = none := if_pos (.inl hparts)
  have hline : getLine s = some { s with
      d_line := line ++ [newline]
      d_filestates := [{ f with d_text := rest, d_lineno := f.d_lineno + 1 }] } := by
    unfold getLine
    rw [hfiles, readLine, htext, stringfgets_line hnewline hzero]
  have hturn : turn env s rr = readTurn env { s with
      d_line := line ++ [newline]
      d_filestates := [{ f with d_text := rest, d_lineno := f.d_lineno + 1 }] } rr := by
    unfold turn
    rw [htemplate]
    rw [hline]
  exact ⟨_, hturn, ⟨hzone, hparts, _, rfl, rfl⟩, rfl⟩

theorem rdropWhile_cons {α : Type} {p : α → Bool} {x : α} (hx : p x = false) (l : List α) :
    ∃ l', (x :: l).rdropWhile p = x :: l' := by
  obtain ⟨dropped, hdropped⟩ := rdropWhile_prefix p (l := x :: l)
  match hresult : (x :: l).rdropWhile p with
  | [] =>
    have hall := rdropWhile_eq_nil_iff.mp hresult x mem_cons_self
    rw [hx] at hall
    cases hall
  | y :: l' =>
    rw [hresult] at hdropped
    exact ⟨l', by rw [(List.cons.inj hdropped).1]⟩

/-- **A comment** is passed over. -/
theorem turn_comment (hs : Reading domain (59 :: line ++ newline :: rest) s) (hnewline : newline ∉ line)
    (hzero : 0 ∉ line) (rr : TextRR) : ∃ s', turn env s rr = .ok (.again s') ∧ Reading domain rest s' := by
  obtain ⟨s', hturn, hs', hline⟩ := @turn_line env _ _ _ _ hs (by simpa using ⟨by decide, hnewline⟩)
    (by simpa using hzero) rr
  obtain ⟨text, htext⟩ := @rdropWhile_cons _ (fun c => decide (c ∈ ([32, 13, newline, 26] : Octets))) 59 (by decide)
    (line ++ [newline])
  obtain ⟨t, ts, htok⟩ := @vstringtok_cons text 59 (by decide)
  refine ⟨{ s' with d_line := 59 :: text }, ?_, ⟨hs'.zonename, hs'.no_template, hs'.file⟩⟩
  rw [hturn]
  unfold readTurn
  rw [hline, cons_append, htext]
  dsimp only
  rw [htok]
  exact if_pos rfl

/-- The fields behind the owner of a line. -/
def writtenFields (domain : Octets) (r : TextRR) : Octets :=
  decimal r.ttl.toNat ++ 9 :: getName r.qtype ++ 9 :: (writtenPrio r ++ writtenContent domain r)

/-- A record of the parser, after a line with this owner was read. -/
abbrev readAs (domain q content : Octets) (r rr : TextRR) : TextRR :=
  { rr with
    qname := ownerName (domain ++ [dot]) q, qtype := r.qtype, ttl := r.ttl, content, d_place := .ANSWER }

section Record

variable {namemap : List (UInt16 × Octets)} {q : Octets}

theorem Survives.textKept (h : Survives namemap domain r) : TextKept (writtenPrio r ++ writtenContent domain r) := by
  unfold writtenPrio
  split
  · rw [append_assoc]
    exact textKept_prio r.priority.toNat h.text
  · exact h.text

theorem Survives.notClass (h : Survives namemap domain r) : NotClass (writtenPrio r ++ writtenContent domain r) := by
  unfold writtenPrio
  split
  · rw [append_assoc]
    exact notClass_prio r.priority.toNat _
  next hprio =>
    rw [not_or] at hprio
    exact (h.priority hprio.1 hprio.2).2

/-- The fields of a line are read back. -/
theorem readRecord_written (h : Survives env.namemap domain r) (hzone : ZoneName domain)
    (hs : s.d_zonename = domain ++ [dot]) (rr : TextRR) (q : Octets) :
    ∃ content s', readRecord env s rr q (vstringtok (writtenFields domain r)) =
        .ok (.got (readAs domain q content r rr) s') ∧
      SamePlace s s' ∧ StoredAs r content := by
  have htokens : vstringtok (writtenFields domain r) =
      ⟨decimal r.ttl.toNat, writtenFields domain r⟩ ::
        ⟨getName r.qtype, getName r.qtype ++ 9 :: (writtenPrio r ++ writtenContent domain r)⟩ ::
          vstringtok (writtenPrio r ++ writtenContent domain r) := by
    unfold writtenFields
    rw [append_assoc, cons_append,
      vstringtok_append (fun c hc => (decimal_octet _ c hc).1) (decimal_ne_nil _) (by decide),
      vstringtok_append (fun c hc => (getName_octet _ c hc).1) (getName_not_class _).1 (by decide)]
  obtain ⟨content, s', hcompleted, hplace, hstored⟩ := completeContent_kept
    (s := { s with d_prevqname := ownerName s.d_zonename q }) hzone hs h.text h.content
  refine ⟨content, s', ?_, hplace, hstored⟩
  have hfields : readFields env { s with d_prevqname := ownerName s.d_zonename q } { ttl := s.d_defaultttl }
        (vstringtok (writtenFields domain r)) =
      .ok { ttl := r.ttl, haveTTL := true, qtype := some r.qtype,
            tail := writtenPrio r ++ writtenContent domain r } := by
    rw [htokens, readFields_typed h.type]
    exact readFields_content rfl rfl h.textKept.head h.notClass
  have hread := readContent_plain (s := { s with d_prevqname := ownerName s.d_zonename q }) hs hzone h.textKept
  unfold readRecord
  rw [if_neg (by rw [htokens]; exact cons_ne_nil _ _), hfields]
  dsimp only [bind, Except.bind]
  rw [hread]
  dsimp only
  rw [hcompleted, hs]
  rfl

theorem feedRecord_eq_some (h : feedRecord domain r = some line) :
    ∃ q, stripDomainSuffix r.qname domain = some q ∧ line = q ++ 9 :: writtenFields domain r ++ [newline] := by
  obtain ⟨q, hq, rfl⟩ := map_eq_some_iff.mp h
  exact ⟨q, hq, by simp [writtenFields]⟩

theorem Survives.fields_octet (h : Survives namemap domain r) :
    ∀ c ∈ writtenFields domain r, c ≠ newline ∧ c ≠ 0 := by
  have hdelimiter : ∀ c : UInt8, c ∉ delimiters → c ≠ newline := by
    rintro c hc rfl
    exact hc (by decide)
  intro c hc
  unfold writtenFields at hc
  rw [append_assoc, mem_append, cons_append, mem_cons, mem_append, mem_cons] at hc
  rcases hc with hc | rfl | hc | rfl | hc
  · exact ⟨hdelimiter c (decimal_octet _ c hc).1, by
      rintro rfl
      have := decimal_digits _ _ hc
      grind⟩
  · decide
  · exact ⟨hdelimiter c (getName_octet _ c hc).1, (getName_octet _ c hc).2.2⟩
  · decide
  · exact h.textKept.octet c hc

theorem trimmed_line {l : Octets} (hlast : ∀ y ∈ l.getLast?, isSpace y = false ∧ y ≠ 26) :
    ((l ++ [newline]).rdropWhile fun c => c ∈ ([32, 13, newline, 26] : Octets)) = l := by
  rw [rdropWhile_concat, if_pos (by decide), rdropWhile_eq_self_iff]
  intro hne hmem
  obtain ⟨hspace, hsub⟩ := hlast _ (getLast?_eq_some_getLast hne)
  have hall : ∀ y : UInt8, y ∈ ([32, 13, newline, 26] : Octets) → isSpace y = true ∨ y = 26 := by
    intro y hy
    simp only [mem_cons, not_mem_nil, or_false] at hy
    rcases hy with rfl | rfl | rfl | rfl <;> decide
  rcases hall _ (of_decide_eq_true hmem) with hy | hy
  · rw [hspace] at hy
    cases hy
  · exact hsub hy

theorem Survives.fields_last (h : Survives namemap domain r) (front : Octets) :
    ∀ y ∈ (front ++ 9 :: writtenFields domain r).getLast?, isSpace y = false ∧ y ≠ 26 := by
  obtain ⟨z, hz, -⟩ := h.textKept.head
  have hne : writtenPrio r ++ writtenContent domain r ≠ [] := by
    intro hnil
    rw [hnil] at hz
    cases hz
  have hsplit : front ++ 9 :: writtenFields domain r =
      (front ++ 9 :: (decimal r.ttl.toNat ++ 9 :: getName r.qtype ++ [9])) ++
        (writtenPrio r ++ writtenContent domain r) := by
    simp [writtenFields]
  intro y hy
  rw [hsplit, getLast?_append_of_ne_nil _ hne] at hy
  exact h.textKept.last y hy

/-- The line of a record gives the record. -/
theorem turn_written (h : Survives env.namemap domain r) (hzone : ZoneName domain)
    (hq : stripDomainSuffix r.qname domain = some q)
    (hs : Reading domain (q ++ 9 :: writtenFields domain r ++ newline :: rest) s) (rr : TextRR) :
    ∃ content s', turn env s rr = .ok (.got (readAs domain q content r rr) s') ∧
      Reading domain rest s' ∧ StoredAs r content := by
  obtain ⟨q', hq', howner⟩ := h.owner
  obtain rfl : q = q' := some.inj (hq.symm.trans hq')
  obtain ⟨x, hx, hcomment, hdollar, hspace⟩ := howner.head
  obtain ⟨t, rfl⟩ : ∃ t, q = x :: t := head?_eq_some_iff.mp hx
  have hoctet : ∀ c ∈ (x :: t) ++ 9 :: writtenFields domain r, c ≠ newline ∧ c ≠ 0 := by
    intro c hc
    rcases mem_append.mp hc with hc | hc
    · refine ⟨?_, (howner.octet c hc).2⟩
      rintro rfl
      exact (howner.octet _ hc).1 (by decide)
    · rcases mem_cons.mp hc with rfl | hc
      · decide
      · exact h.fields_octet c hc
  obtain ⟨s₁, hturn, hs₁, hline⟩ := @turn_line env _ _ _ _ hs (fun hmem => (hoctet _ hmem).1 rfl)
    (fun hmem => (hoctet _ hmem).2 rfl) rr
  -- nothing but the newline is trimmed off the line
  have htrim := trimmed_line (h.fields_last (x :: t))
  rw [← hline] at htrim
  have htokens : vstringtok ((x :: t) ++ 9 :: writtenFields domain r) =
      ⟨x :: t, (x :: t) ++ 9 :: writtenFields domain r⟩ :: vstringtok (writtenFields domain r) :=
    vstringtok_append (fun c hc => (howner.octet c hc).1) (cons_ne_nil x t) (by decide)
  obtain ⟨content, s', hread, hplace, hstored⟩ := @readRecord_written env _ _
    { s₁ with d_line := (x :: t) ++ 9 :: writtenFields domain r } h hzone hs₁.zonename rr (x :: t)
  refine ⟨content, s', ?_, ?_, hstored⟩
  · rw [hturn]
    unfold readTurn
    rw [htrim]
    dsimp only
    rw [htokens]
    dsimp only
    have hnot : ∀ (d : UInt8) (l : Octets), x ≠ d → ¬ (x :: l).head? = some d :=
      fun d l hd heq => hd (some.inj heq)
    rw [if_neg (hnot 59 _ hcomment), cons_append, if_neg (hnot 36 _ hdollar), if_neg (by simp [hspace])]
    exact hread
  · obtain ⟨hname, hparts, hfiles⟩ := hplace
    exact ⟨hname.trans hs₁.zonename, hparts.trans hs₁.no_template, hfiles ▸ hs₁.file⟩

/-- What is read goes into the zone as the record that was written. -/
theorem newRecord_written (h : Survives namemap domain r) (hzone : ZoneName domain)
    (hq : stripDomainSuffix r.qname domain = some q) {content : Octets} (hstored : StoredAs r content)
    {rr : TextRR} (hprio : rr.priority = 0) :
    ∃ bdr, newRecord domain (readAs domain q content r rr) = .ok bdr ∧ SameRecord domain r bdr := by
  obtain ⟨q', hq', howner⟩ := h.owner
  obtain rfl : q = q' := some.inj (hq.symm.trans hq')
  obtain ⟨x, hx, hname⟩ := relativeName_ownerName hzone hq howner
  obtain ⟨hcontent, hpriority⟩ := hstored
  unfold newRecord
  rw [hx]
  refine ⟨_, rfl, hname, rfl, ?_, rfl, ?_⟩
  · dsimp only
    split at hcontent
    next htype =>
      rw [if_pos htype, if_pos htype, hcontent]
      exact toLower_toLower r.content
    next htype => rw [if_neg htype, if_neg htype, hcontent]
  · dsimp only
    split
    next hhas => exact hpriority hhas
    next hhas =>
      rw [not_or] at hhas
      rw [hprio, (h.priority hhas.1 hhas.2).1]

end Record

theorem turn_ended (hs : Reading domain [] s) (rr : TextRR) : turn env s rr = .ok .ended := by
  obtain ⟨-, hparts, f, hfiles, htext⟩ := hs
  have htemplate : getTemplateLine env s = none := if_pos (.inl hparts)
  have hline : getLine s = none := by
    unfold getLine
    rw [hfiles, readLine, htext]
    rfl
  unfold turn
  rw [htemplate]
  rw [hline]

theorem mapM_feedRecord_cons {rs : List TextRR} {lines : List Octets}
    (h : (r :: rs).mapM (feedRecord domain) = some lines) :
    ∃ l ls, feedRecord domain r = some l ∧ rs.mapM (feedRecord domain) = some ls ∧ lines = l :: ls := by
  rw [mapM_cons] at h
  obtain ⟨l, hl, h⟩ := bind_eq_some_iff.mp h
  obtain ⟨ls, hls, h⟩ := bind_eq_some_iff.mp h
  exact ⟨l, ls, hl, hls, (some.inj h).symm⟩

theorem mapM_feedRecord {rs : List TextRR} (h : ∀ r ∈ rs, ∃ l, feedRecord domain r = some l) :
    ∃ lines, rs.mapM (feedRecord domain) = some lines := by
  induction rs with
  | nil => exact ⟨[], rfl⟩
  | cons r rs ih =>
    obtain ⟨l, hl⟩ := h r mem_cons_self
    obtain ⟨ls, hls⟩ := ih fun r' hr' => h r' (mem_cons_of_mem r hr')
    exact ⟨l :: ls, by rw [mapM_cons, hl, hls]; rfl⟩

/-- The lines of records give the records. -/
theorem readAll_written (hzone : ZoneName domain) {rs : List TextRR} {lines : List Octets}
    (hrs : ∀ r ∈ rs, Survives env.namemap domain r) (hlines : rs.mapM (feedRecord domain) = some lines)
    (hs : Reading domain lines.flatten s) (rr : TextRR) (hprio : rr.priority = 0) :
    ∃ rrs records, readAll env (rs.length + 1) s rr = some (rrs, none) ∧ insertAll domain rrs = .ok records ∧
      List.Forall₂ (SameRecord domain) rs records := by
  induction rs generalizing lines s rr with
  | nil =>
    obtain rfl := some.inj hlines
    refine ⟨[], [], ?_, rfl, List.Forall₂.nil⟩
    rw [readAll, turn_ended hs]
  | cons r rs ih =>
    obtain ⟨l, ls, hl, hls, rfl⟩ := mapM_feedRecord_cons hlines
    obtain ⟨q, hq, rfl⟩ := feedRecord_eq_some hl
    have hr := hrs r mem_cons_self
    rw [flatten_cons, append_assoc] at hs
    obtain ⟨content, s', hturn, hs', hstored⟩ := turn_written hr hzone hq hs rr
    obtain ⟨bdr, hnew, hsame⟩ := newRecord_written hr hzone hq hstored hprio
    obtain ⟨rrs, records, hread, hinsert, hall⟩ := ih (fun r' hr' => hrs r' (mem_cons_of_mem r hr')) hls hs'
      (readAs domain q content r rr) hprio
    refine ⟨readAs domain q content r rr :: rrs, bdr :: records, ?_, ?_, List.Forall₂.cons hsame hall⟩
    · rw [length_cons, readAll, hturn]
      dsimp only
      rw [hread]
      rfl
    · rw [insertAll, hnew, hinsert]
      rfl

end File

/-! ### The whole file -/

section Whole

variable {env : Surroundings} {domain nowTime : Octets} {rs : List TextRR} {s : Parser}

/-- The header is passed over. -/
theorem readAll_header (hzone : ZoneName domain) (hnow : ∀ c ∈ nowTime, c ≠ newline ∧ c ≠ 0) {rest : Octets}
    (hs : Reading domain (header domain nowTime ++ rest) s) (rr : TextRR) :
    ∃ s', Reading domain rest s' ∧ ∀ turns, readAll env (turns + 3) s rr = readAll env turns s' rr := by
  have hplain : ∀ l : Octets, (∀ c ∈ l, c ≠ newline ∧ c ≠ 0) → newline ∉ l ∧ 0 ∉ l :=
    fun l hl => ⟨fun h => (hl _ h).1 rfl, fun h => (hl _ h).2 rfl⟩
  have happend : ∀ l₁ l₂ : Octets, (∀ c ∈ l₁, c ≠ newline ∧ c ≠ 0) → (∀ c ∈ l₂, c ≠ newline ∧ c ≠ 0) →
      ∀ c ∈ l₁ ++ l₂, c ≠ newline ∧ c ≠ 0 :=
    fun l₁ l₂ h₁ h₂ c hc => (mem_append.mp hc).elim (h₁ c) (h₂ c)
  have hfirst := hplain (ascii " Written by PowerDNS, don't edit!") (by decide +kernel)
  have hsecond := hplain (ascii " Zone '" ++ domain ++ ascii "' retrieved from master ")
    (happend _ _ (happend _ _ (by decide +kernel) hzone.octet) (by decide +kernel))
  have hthird := hplain (ascii " at " ++ nowTime) (happend _ _ (by decide +kernel) hnow)
  have htext : header domain nowTime ++ rest =
      59 :: ascii " Written by PowerDNS, don't edit!" ++ newline ::
        (59 :: (ascii " Zone '" ++ domain ++ ascii "' retrieved from master ") ++ newline ::
          (59 :: (ascii " at " ++ nowTime) ++ newline :: rest)) := by
    unfold header
    simp only [append_assoc, cons_append, nil_append]
    rfl
  rw [htext] at hs
  obtain ⟨s₁, hturn₁, hs₁⟩ := @turn_comment env _ _ _ _ hs hfirst.1 hfirst.2 rr
  obtain ⟨s₂, hturn₂, hs₂⟩ := @turn_comment env _ _ _ _ hs₁ hsecond.1 hsecond.2 rr
  obtain ⟨s₃, hturn₃, hs₃⟩ := @turn_comment env _ _ _ _ hs₂ hthird.1 hthird.2 rr
  refine ⟨s₃, hs₃, fun turns => ?_⟩
  rw [readAll, hturn₁]
  dsimp only
  rw [readAll, hturn₂]
  dsimp only
  rw [readAll, hturn₃]

/-- **Records that survive** are read back as they were transferred, whatever other files there are. -/
theorem roundTrips_of_survives (hzone : ZoneName domain) (hnow : ∀ c ∈ nowTime, c ≠ newline ∧ c ≠ 0)
    (hrs : ∀ r ∈ rs, Survives env.namemap domain r) : RoundTrips env domain nowTime rs := by
  have hfed : ∀ r ∈ rs, ∃ l, feedRecord domain r = some l := fun r hr => by
    obtain ⟨q, hq, -⟩ := (hrs r hr).owner
    exact ⟨_, by rw [feedRecord, hq]; rfl⟩
  obtain ⟨lines, hlines⟩ := mapM_feedRecord hfed
  obtain ⟨s, hs, hheader⟩ := @readAll_header env domain nowTime
    { d_zonename := toCanonic [] domain
      d_filestates := [{ d_text := header domain nowTime ++ lines.flatten, d_filename := [] }] } hzone hnow
    lines.flatten ⟨toCanonic_zone hzone, rfl, _, rfl, rfl⟩
    { qtype := 0, qname := [], wildcardname := [], content := [], ttl := 0 }
  obtain ⟨rrs, records, hread, hinsert, hall⟩ := readAll_written hzone hrs hlines hs
    { qtype := 0, qname := [], wildcardname := [], content := [], ttl := 0 } rfl
  refine ⟨header domain nowTime ++ lines.flatten, records, rs.length + 1 + 3, ?_, ?_, hall⟩
  · rw [writtenFile, hlines]
    rfl
  · unfold readBack
    dsimp only
    rw [hheader, hread]
    dsimp only [Option.map]
    rw [hinsert]

end Whole

/-! ### What any file gives -/

section AnyFile

variable {env : Surroundings} {domain nowTime : Octets} {rs : List TextRR} {s s' : Parser} {rr rr' : TextRR}

theorem readFields_qtype {fields fields' : Fields} {parts : List Part} {qtype : UInt16}
    (h : readFields env s fields parts = .ok fields') (hqtype : fields'.qtype = some qtype) :
    fields.qtype = some qtype ∨ ∃ name, TypeToNumber env.namemap name = some qtype := by
  induction parts generalizing fields with
  | nil =>
    obtain rfl := Except.ok.inj h
    exact .inl hqtype
  | cons p parts ih =>
    unfold readFields at h
    dsimp only at h
    split at h
    · obtain rfl := Except.ok.inj h
      exact .inl hqtype
    · split at h
      · -- the class: the type is as it was
        have hlater := ih h
        exact hlater
      · split at h
        · cases htime : timeOf s p.text with
          | error e =>
            rw [htime] at h
            cases h
          | ok ttl =>
            rw [htime] at h
            have hlater := @ih { fields with ttl, haveTTL := true, tail := p.tail } h
            exact hlater
        · split at h
          · obtain rfl := Except.ok.inj h
            exact .inl hqtype
          · split at h
            next number hnumber =>
              rcases ih h with hfound | hfound
              · obtain rfl := some.inj hfound
                exact .inr ⟨p.text, hnumber⟩
              · exact .inr hfound
            next => cases h

/-- What `get` leaves in a record that it gives: it never sets the priority. -/
def Given (env : Surroundings) (rr rr' : TextRR) : Prop :=
  rr'.priority = rr.priority ∧ ∃ name, TypeToNumber env.namemap name = some rr'.qtype

theorem readRecord_given {q : Octets} {parts : List Part} (h : readRecord env s rr q parts = .ok (.got rr' s')) :
    Given env rr rr' := by
  unfold readRecord at h
  dsimp only at h
  split at h
  · cases h
  · cases hfields : readFields env { s with d_prevqname := ownerName s.d_zonename q } { ttl := s.d_defaultttl }
        parts with
    | error e =>
      rw [hfields] at h
      cases h
    | ok fields =>
      rw [hfields] at h
      dsimp only [bind, Except.bind] at h
      split at h
      · cases h
      next qtype hqtype =>
        split at h
        · cases h
        · split at h
          · cases h
          · injection h with h
            injection h with hrr
            rw [← hrr]
            rcases readFields_qtype hfields hqtype with hnone | hfound
            · cases hnone
            · exact ⟨rfl, hfound⟩

theorem readTurn_given (h : readTurn env s rr = .ok (.got rr' s')) : Given env rr rr' := by
  unfold readTurn at h
  dsimp only at h
  split at h
  · cases h
  · split at h
    · cases h
    · split at h
      · cases hcommand : command env
            { s with d_line := s.d_line.rdropWhile fun c => c ∈ ([32, 13, newline, 26] : Octets) } _ _ with
        | error e =>
          rw [hcommand] at h
          cases h
        | ok s =>
          rw [hcommand] at h
          cases h
      · split at h
        · exact readRecord_given h
        · exact readRecord_given h

theorem turn_given (h : turn env s rr = .ok (.got rr' s')) : Given env rr rr' := by
  unfold turn at h
  split at h
  · exact readTurn_given h
  · split at h
    · exact readTurn_given h
    · cases h

theorem readAll_given {turns : Nat} {rrs : List TextRR} {e : Option ZoneError}
    (h : readAll env turns s rr = some (rrs, e)) : ∀ rr' ∈ rrs, Given env rr rr' := by
  induction turns generalizing s rr rrs e with
  | zero => cases h
  | succ turns ih =>
    unfold readAll at h
    split at h
    · injection h with h
      injection h with hrrs
      rw [← hrrs]
      exact fun rr' hrr' => absurd hrr' not_mem_nil
    · injection h with h
      injection h with hrrs
      rw [← hrrs]
      exact fun rr' hrr' => absurd hrr' not_mem_nil
    · exact ih h
    next rr₁ s₁ hturn =>
      obtain ⟨⟨rrs', e'⟩, hlater, hall⟩ := map_eq_some_iff.mp h
      injection hall with hrrs
      have hfirst := turn_given hturn
      intro rr' hrr'
      rw [← hrrs] at hrr'
      rcases mem_cons.mp hrr' with rfl | hrr'
      · exact hfirst
      · exact ⟨(ih hlater rr' hrr').1.trans hfirst.1, (ih hlater rr' hrr').2⟩

theorem insertAll_given {rrs : List TextRR} {records : List Bind2DNSRecord} {turns : Nat}
    (hread : readAll env turns s rr = some (rrs, none)) (hinsert : insertAll domain rrs = .ok records)
    {bdr : Bind2DNSRecord} (hbdr : bdr ∈ records) :
    (∃ name, TypeToNumber env.namemap name = some bdr.qtype) ∧
      (bdr.qtype ≠ QType.MX → bdr.qtype ≠ QType.SRV → bdr.priority = rr.priority) := by
  obtain ⟨rr', hrr', hnew⟩ := (insertAll_ok hinsert).2 bdr hbdr
  obtain ⟨hprio, htype⟩ := readAll_given hread rr' hrr'
  unfold newRecord at hnew
  split at hnew
  · cases hnew
  · injection hnew with hnew
    rw [← hnew]
    exact ⟨htype, fun hmx hsrv => (if_neg (not_or.mpr ⟨hmx, hsrv⟩)).trans hprio⟩

/-- **What a round trip needs**, whatever other files there are: a record outside of the zone is not written,
and a type that is not registered and a priority of another type than MX and SRV are not read. -/
theorem needed_of_roundTrips (h : RoundTrips env domain nowTime rs) {r : TextRR} (hr : r ∈ rs) :
    (∃ q, stripDomainSuffix r.qname domain = some q) ∧ (∃ name, TypeToNumber env.namemap name = some r.qtype) ∧
      (r.qtype ≠ QType.MX → r.qtype ≠ QType.SRV → r.priority = 0) := by
  obtain ⟨file, records, turns, hfile, hread, hall⟩ := h
  refine ⟨?_, ?_⟩
  · obtain ⟨lines, hlines, -⟩ := map_eq_some_iff.mp hfile
    clear hfile hread hall
    induction rs generalizing lines with
    | nil => exact absurd hr not_mem_nil
    | cons r' rs ih =>
      obtain ⟨l, ls, hl, hls, -⟩ := mapM_feedRecord_cons hlines
      rcases mem_cons.mp hr with rfl | hr
      · obtain ⟨q, hq, -⟩ := feedRecord_eq_some hl
        exact ⟨q, hq⟩
      · exact ih hr ls hls
  · obtain ⟨i, hi, rfl⟩ := mem_iff_getElem.mp hr
    have hsame := hall.get hi (hall.length_eq ▸ hi)
    have hbdr : records.get ⟨i, hall.length_eq ▸ hi⟩ ∈ records := get_mem _ _
    obtain ⟨⟨rrs, e⟩, hrrs, hresult⟩ := map_eq_some_iff.mp hread
    dsimp only at hresult
    split at hresult
    next inserted _ hinsert =>
      obtain rfl := Except.ok.inj hresult
      obtain ⟨htype, hprio⟩ := insertAll_given hrrs hinsert hbdr
      rw [hsame.qtype] at htype hprio
      rw [hsame.priority] at hprio
      exact ⟨htype, hprio⟩
    next => cases hresult

end AnyFile

/-! ### Slave zones -/

section SlaveZone

variable {env : Surroundings} {domain nowTime : Octets} {rs : List TextRR}

/-- **Slave zone files.** Records that survive are read back as they were transferred, whatever other files
there are; a record outside of the zone, a type without a number and a lost priority leave no round trip. -/
theorem slaveZone_roundTrips (hzone : ZoneName domain) (hnow : ∀ c ∈ nowTime, c ≠ newline ∧ c ≠ 0) :
    ((∀ r ∈ rs, Survives env.namemap domain r) → RoundTrips env domain nowTime rs) ∧
      (RoundTrips env domain nowTime rs → ∀ r ∈ rs, (∃ q, stripDomainSuffix r.qname domain = some q) ∧
        (∃ name, TypeToNumber env.namemap name = some r.qtype) ∧
        (r.qtype ≠ QType.MX → r.qtype ≠ QType.SRV → r.priority = 0)) :=
  ⟨roundTrips_of_survives hzone hnow, fun h _ hr => needed_of_roundTrips h hr⟩

/-- Some registered types, and no other files. -/
def exampleSurroundings : Surroundings where
  file := fun _ => none
  namemap := [(1, "A"), (2, "NS"), (5, "CNAME"), (6, "SOA"), (12, "PTR"), (15, "MX"), (16, "TXT"), (18, "AFSDB"),
    (28, "AAAA"), (33, "SRV")].map fun n => (n.1, ascii n.2)
  snprintf := fun _ _ => []

/-- A zone in the form that survives. -/
def exampleTransfer : List TextRR :=
  [exampleRR "example.com" QType.SOA "ns.example.com. hostmaster.example.com. 1 10800 3600 604800 3600",
    exampleRR "example.com" QType.NS "ns.example.com",
    exampleRR "sub.example.com" QType.NS "ns.example.org",
    { exampleRR "Example.com" QType.MX "mail.example.com" with priority := 10 },
    exampleRR "www.example.com" QType.A "192.0.2.1",
    exampleRR "www.example.com" QType.TXT "\"a;b (c\"",
    { exampleRR "_sip._tcp.example.com" QType.SRV "0 5060 sip.example.com." with priority := 5 }]

theorem exampleTransfer_roundTrips :
    ((∀ r ∈ exampleTransfer, Survives exampleSurroundings.namemap (ascii "example.com") r) →
        RoundTrips exampleSurroundings (ascii "example.com") (ascii "now") exampleTransfer) ∧
      (∀ r ∈ exampleTransfer, Survives exampleSurroundings.namemap (ascii "example.com") r) ∧
      RoundTrips exampleSurroundings (ascii "example.com") (ascii "now") exampleTransfer := by
  have hall : ∀ r ∈ exampleTransfer, Survives exampleSurroundings.namemap (ascii "example.com") r := by
    decide +kernel
  have hzone := @slaveZone_roundTrips exampleSurroundings (ascii "example.com") (ascii "now") exampleTransfer
    (by decide +kernel) (by decide +kernel)
  exact ⟨hzone.1, hall, hzone.1 hall⟩

/-- What is read from a file does not depend on the number of turns. -/
theorem not_roundTrips (file : Octets) {turns : Nat} {result : Except Unit (List Bind2DNSRecord)}
    (hfile : writtenFile domain nowTime rs = some file) (hread : readBack env turns domain file = some result)
    (h : ∀ records, result = .ok records → ¬ List.Forall₂ (SameRecord domain) rs records) :
    ¬ RoundTrips env domain nowTime rs := by
  rintro ⟨file', records, turns', hfile', hread', hall⟩
  obtain rfl := some.inj (hfile.symm.trans hfile')
  obtain ⟨r, hr, hresult⟩ := map_eq_some_iff.mp hread
  obtain ⟨r', hr', hresult'⟩ := map_eq_some_iff.mp hread'
  have hsame : r = r' := by
    have hmore := readAll_mono hr turns'
    rw [Nat.add_comm, readAll_mono hr' turns] at hmore
    exact (some.inj hmore).symm
  rw [hsame, hresult'] at hresult
  exact h records hresult.symm hall

end SlaveZone

/-- The file of one record of `example.com`. -/
def exampleWritten (r : TextRR) : Octets :=
  header (ascii "example.com") (ascii "now") ++ ((feedRecord (ascii "example.com") r).getD [])

/-- A comment is lost, a dollar starts a command, the name of an AFSDB record loses its dot, and that of a PTR
record that has none is taken to be in the zone. -/
theorem unreadable_records :
    ¬ RoundTrips exampleSurroundings (ascii "example.com") (ascii "now")
        [exampleRR ";x.example.com" QType.A "192.0.2.1"] ∧
    ¬ RoundTrips exampleSurroundings (ascii "example.com") (ascii "now")
        [exampleRR "$x.example.com" QType.A "192.0.2.1"] ∧
    ¬ RoundTrips exampleSurroundings (ascii "example.com") (ascii "now")
        [exampleRR "example.com" QType.AFSDB "1 host.example.org."] ∧
    ¬ RoundTrips exampleSurroundings (ascii "example.com") (ascii "now")
        [exampleRR "1.example.com" QType.PTR "host.example.org"] := by
  have hfailed : ∀ r : TextRR, ∀ result, feedRecord (ascii "example.com") r ≠ none →
      readBack exampleSurroundings 10 (ascii "example.com") (exampleWritten r) = some result →
      (∀ records, result = .ok records → ¬ List.Forall₂ (SameRecord (ascii "example.com")) [r] records) →
      ¬ RoundTrips exampleSurroundings (ascii "example.com") (ascii "now") [r] := by
    intro r result hline hread h
    obtain ⟨line, hline⟩ := ne_none_iff_exists'.mp hline
    refine not_roundTrips (exampleWritten r) ?_ hread h
    unfold writtenFile exampleWritten
    rw [mapM_cons, hline]
    simp
  refine ⟨hfailed _ (.ok []) (by decide +kernel) (by decide +kernel) ?_,
    hfailed _ (.error ()) (by decide +kernel) (by decide +kernel) ?_,
    hfailed _ (.ok [⟨[], ascii "1 host.example.org", 3600, QType.AFSDB, 0, false⟩])
      (by decide +kernel) (by decide +kernel) ?_,
    hfailed _ (.ok [⟨ascii "1", ascii "host.example.org.example.com.", 3600, QType.PTR, 0, false⟩])
      (by decide +kernel) (by decide +kernel) ?_⟩
  · intro records h
    obtain rfl := Except.ok.inj h
    decide
  · intro records h
    cases h
  · intro records h
    obtain rfl := Except.ok.inj h
    decide
  · intro records h
    obtain rfl := Except.ok.inj h
    decide

end Bind2Backend

end PowerDNS
