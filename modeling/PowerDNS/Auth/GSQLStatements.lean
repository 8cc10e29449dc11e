import Mathlib.Data.List.TakeWhile
import PowerDNS.Base.Serialize
import PowerDNS.Lib.LiteralText

/-!
# The statements of the SQL backends

`GSQLBackend` puts its statements together with `snprintf`, from formats that are configured and values
that come from questions, transferred records and notifications. Texts go through `sqlEscape` first. All
statements are made in a buffer of 1024 octets, and what `snprintf` returns is not looked at.

What a statement is meant to say is the format with the values in it (`meant`). `says_what_was_meant_iff`
tells when the database reads just that. The escaping is right for all texts. But a statement that does
not fit the buffer is cut, possibly inside of a number at its end, texts are cut at a NUL, and an
unsigned number from 2^31 on is written as a negative one.
-/

namespace PowerDNS

open LiteralText List

/-- The octets `'`, `%`, `s` and `d`. -/
abbrev quote : UInt8 := 39
abbrev percent : UInt8 := 37
abbrev conversionS : UInt8 := 115
abbrev conversionD : UInt8 := 100

/-! ### `snprintf` -/

/-- A number that is printed with `%d`: an `int`, or an unsigned one of the same size. -/
inductive Number
  | int (n : Int)
  | uint (n : UInt32)
  deriving DecidableEq

/-- What `%d` makes of it. -/
def Number.printed : Number → Octets
  | .int n => itoa n
  | .uint n => itoa (toInt32 n.toNat)

/-- The number in decimal. -/
def Number.meant : Number → Octets
  | .int n => itoa n
  | .uint n => decimal n.toNat

/-- An argument of `snprintf`. -/
inductive Arg
  | str (s : Octets)
  | num (n : Number)
  deriving DecidableEq

/-- `c_str()`, for a function that takes the text up to the first NUL. -/
def cString (s : Octets) : Octets := s.takeWhile fun c => c != 0

/-- A format with its arguments in place. There are none for a conversion other than `%s`, `%d` and
`%%`, and where the argument is missing or of the other kind: there anything may happen. -/
def pieces : Octets → List Arg → Option (List (Piece UInt8 Octets Number))
  | [], _ => some []
  | c :: format, args =>
    if c ≠ percent then (pieces format args).map (.char c :: ·)
    else
      match format with
      | [] => none
      | k :: format =>
        if k = percent then (pieces format args).map (.char percent :: ·)
        else
          match args with
          | [] => none
          | .str s :: args =>
            if k = conversionS then (pieces format args).map (.text s :: ·) else none
          | .num n :: args =>
            if k = conversionD then (pieces format args).map (.number n :: ·) else none

/-- `snprintf(output, size, format, ...)`: the text in the buffer. -/
def snprintf (size : Nat) (format : Octets) (args : List Arg) : Option Octets :=
  (pieces (cString format) args).map fun ps => (render cString Number.printed ps).take (size - 1)

/-! ### The backend -/

/-- `GSQLBackend::sqlEscape`. -/
def sqlEscape (name : Octets) : Octets :=
  EscapedText.escapeWith backslash (fun c => c = quote ∨ c = backslash) name

/-- `GSQLBackend`: the formats. -/
structure GSQLBackend where
  d_noWildCardNoIDQuery : Octets
  d_noWildCardIDQuery : Octets
  d_wildCardNoIDQuery : Octets
  d_wildCardIDQuery : Octets
  d_noWildCardANYNoIDQuery : Octets
  d_noWildCardANYIDQuery : Octets
  d_wildCardANYNoIDQuery : Octets
  d_wildCardANYIDQuery : Octets
  d_InsertSlaveZoneQuery : Octets
  d_InsertRecordQuery : Octets
  d_setOrderAuthQuery : Octets

/-- `sizeof(output)-1`. -/
def outputSize : Nat := 1023

namespace GSQLBackend

/-- The format that `lookup` takes. -/
def lookupFormat (d : GSQLBackend) (qtype : UInt16) (qname : Octets) (domain_id : Int) : Octets :=
  if qtype ≠ QType.ANY then
    if domain_id < 0 then
      if qname.head? = some percent then d.d_wildCardNoIDQuery else d.d_noWildCardNoIDQuery
    else if qname.head? ≠ some percent then d.d_noWildCardIDQuery else d.d_wildCardIDQuery
  else if domain_id < 0 then
    if qname.head? = some percent then d.d_wildCardANYNoIDQuery else d.d_noWildCardANYNoIDQuery
  else if qname.head? ≠ some percent then d.d_noWildCardANYIDQuery else d.d_wildCardANYIDQuery

/-- `lookup(qtype, qname, pkt_p, domain_id)`: the statement. -/
def lookup (d : GSQLBackend) (qtype : UInt16) (qname : Octets) (domain_id : Int) : Option Octets :=
  let lcqname := toLower qname
  let format := d.lookupFormat qtype qname domain_id
  if qtype ≠ QType.ANY then
    if domain_id < 0 then
      snprintf outputSize format [.str (sqlEscape (getName qtype)), .str (sqlEscape lcqname)]
    else
      snprintf outputSize format
        [.str (sqlEscape (getName qtype)), .str (sqlEscape lcqname), .num (.int domain_id)]
  else if domain_id < 0 then snprintf outputSize format [.str (sqlEscape lcqname)]
  else snprintf outputSize format [.str (sqlEscape lcqname), .num (.int domain_id)]

/-- `updateDNSSECOrderAndAuthAbsolute(domain_id, qname, ordername, auth)`: the statement. -/
def updateDNSSECOrderAndAuthAbsolute (d : GSQLBackend) (domain_id : UInt32) (qname ordername : Octets)
    (auth : Bool) : Option Octets :=
  snprintf outputSize d.d_setOrderAuthQuery
    [.str (sqlEscape ordername), .num (.int auth.toNat), .str (sqlEscape qname), .num (.uint domain_id)]

/-- `createSlaveDomain(ip, domain, account)`: the statement. -/
def createSlaveDomain (d : GSQLBackend) (ip domain account : Octets) : Option Octets :=
  snprintf outputSize d.d_InsertSlaveZoneQuery
    [.str (sqlEscape domain), .str (sqlEscape ip), .str (sqlEscape account)]

/-- `feedRecord(r)`: the statement. -/
def feedRecord (d : GSQLBackend) (r : TextRR) : Option Octets :=
  snprintf outputSize d.d_InsertRecordQuery
    [.str (sqlEscape r.content), .num (.uint r.ttl), .num (.int r.priority.toNat),
      .str (sqlEscape (getName r.qtype)), .num (.int r.domain_id), .str (toLower (sqlEscape r.qname))]

end GSQLBackend

/-- What the backend is asked to do. -/
inductive Statement
  | lookup (qtype : UInt16) (qname : Octets) (domain_id : Int)
  | updateDNSSECOrderAndAuthAbsolute (domain_id : UInt32) (qname ordername : Octets) (auth : Bool)
  | createSlaveDomain (ip domain account : Octets)
  | feedRecord (r : TextRR)

namespace Statement

/-- The statement that is sent. -/
def sent (d : GSQLBackend) : Statement → Option Octets
  | .lookup qtype qname domain_id => d.lookup qtype qname domain_id
  | .updateDNSSECOrderAndAuthAbsolute domain_id qname ordername auth =>
    d.updateDNSSECOrderAndAuthAbsolute domain_id qname ordername auth
  | .createSlaveDomain ip domain account => d.createSlaveDomain ip domain account
  | .feedRecord r => d.feedRecord r

/-- The format that is configured for it. -/
def format (d : GSQLBackend) : Statement → Octets
  | .lookup qtype qname domain_id => d.lookupFormat qtype qname domain_id
  | .updateDNSSECOrderAndAuthAbsolute _ _ _ _ => d.d_setOrderAuthQuery
  | .createSlaveDomain _ _ _ => d.d_InsertSlaveZoneQuery
  | .feedRecord _ => d.d_InsertRecordQuery

/-- The values it is about, as they are: names in lower case where they are stored and looked up. -/
def values : Statement → List Arg
  | .lookup qtype qname domain_id =>
    (if qtype ≠ QType.ANY then [.str (getName qtype)] else []) ++ [.str (toLower qname)] ++
      if domain_id < 0 then [] else [.num (.int domain_id)]
  | .updateDNSSECOrderAndAuthAbsolute domain_id qname ordername auth =>
    [.str ordername, .num (.int auth.toNat), .str qname, .num (.uint domain_id)]
  | .createSlaveDomain ip domain account => [.str domain, .str ip, .str account]
  | .feedRecord r =>
    [.str r.content, .num (.uint r.ttl), .num (.int r.priority.toNat), .str (getName r.qtype),
      .num (.int r.domain_id), .str (toLower r.qname)]

/-- The configured format in full, with the values in place. -/
def inPlace (d : GSQLBackend) (st : Statement) : Option (List (Piece UInt8 Octets Number)) :=
  pieces (cString (st.format d)) st.values

/-- What the statement is to say: every text is the value of a literal, or a part of one. -/
def meant (d : GSQLBackend) (st : Statement) : Option (List (Sym UInt8)) :=
  (st.inPlace d).bind (meaning backslash quote id Number.meant .code)

/-- **The statement says what was meant** to a database that reads literals in single quotes with
backslash escapes. -/
def SaysWhatWasMeant (d : GSQLBackend) (st : Statement) : Prop :=
  ∃ syms text, st.meant d = some syms ∧ st.sent d = some text ∧ read backslash quote .code text = some syms

end Statement

/-! ### Numbers and texts in a statement -/

/-- Numbers need no escape, and there is no NUL in them. -/
theorem plain_of_number {c : UInt8} (h : c = 45 ∨ (48 ≤ c ∧ c ≤ 57)) :
    c ≠ quote ∧ c ≠ backslash ∧ c ≠ 0 := by
  refine ⟨?_, ?_, ?_⟩ <;> grind

theorem Number.printed_octets (n : Number) : ∀ c ∈ n.printed, c = 45 ∨ (48 ≤ c ∧ c ≤ 57) := by
  cases n with
  | int n => exact itoa_octets n
  | uint n => exact itoa_octets (toInt32 n.toNat)

/-- An unsigned number from 2^31 on is printed with a sign. -/
theorem Number.printed_eq (n : Number) :
    (n.printed = n.meant ∧ ∀ k, n = .uint k → k.toNat < 2 ^ 31) ∨
      (∃ k, n = .uint k ∧ ¬ k.toNat < 2 ^ 31) ∧
        ∃ a v b w, n.meant = a :: v ∧ n.printed = b :: w ∧ a ≠ b := by
  cases n with
  | int n => exact .inl ⟨rfl, fun k hk => by cases hk⟩
  | uint n =>
    have hlt := n.toNat_lt
    by_cases hsmall : n.toNat < 2 ^ 31
    · left
      refine ⟨?_, fun k hk => Number.uint.inj hk ▸ hsmall⟩
      change itoa (toInt32 n.toNat) = decimal n.toNat
      rw [toInt32_of_range (by omega) (by omega)]
      rfl
    · right
      refine ⟨⟨n, rfl, hsmall⟩, ?_⟩
      obtain ⟨a, v, hmeant⟩ := exists_cons_of_ne_nil (decimal_ne_nil n.toNat)
      have hdigit := decimal_digits n.toNat a (hmeant ▸ mem_cons_self)
      have hneg : toInt32 n.toNat = Int.negSucc (2 ^ 32 - n.toNat - 1) := by
        unfold toInt32
        rw [Int.bmod_def, Int.negSucc_eq]
        omega
      have hprinted : itoa (toInt32 n.toNat) = 45 :: decimal (2 ^ 32 - n.toNat - 1 + 1) :=
        congrArg itoa hneg
      refine ⟨a, v, 45, _, hmeant, hprinted, ?_⟩
      rintro rfl
      exact absurd hdigit.1 (by decide)

theorem sqlEscape_cons (c : UInt8) (v : Octets) :
    sqlEscape (c :: v) = (if c = quote ∨ c = backslash then [backslash, c] else [c]) ++ sqlEscape v := rfl

theorem cString_cons {c : UInt8} (hc : c ≠ 0) (v : Octets) : cString (c :: v) = c :: cString v :=
  takeWhile_cons_of_pos (bne_iff_ne.mpr hc)

/-- A text is cut at the same place before and after it is escaped. -/
theorem cString_sqlEscape (v : Octets) : cString (sqlEscape v) = sqlEscape (cString v) := by
  induction v with
  | nil => rfl
  | cons c v ih =>
    by_cases hc : c = 0
    · rw [hc]
      rfl
    · rw [cString_cons hc, sqlEscape_cons, sqlEscape_cons, ← ih]
      split
      · change cString (backslash :: c :: sqlEscape v) = _
        rw [cString_cons (by decide), cString_cons hc]
        rfl
      · change cString (c :: sqlEscape v) = _
        rw [cString_cons hc]
        rfl

theorem cString_eq_self {v : Octets} (h : 0 ∉ v) : cString v = v :=
  takeWhile_eq_self_iff.mpr fun _ hc => bne_iff_ne.mpr fun h0 => h (h0 ▸ hc)

theorem zero_notMem_cString (v : Octets) : 0 ∉ cString v :=
  fun h => bne_iff_ne.mp (mem_takeWhile_imp (p := fun c => c != 0) h) rfl

/-- Escapes have no case. -/
theorem toLower_sqlEscape (v : Octets) : toLower (sqlEscape v) = sqlEscape (toLower v) := by
  induction v with
  | nil => rfl
  | cons c v ih =>
    rw [sqlEscape_cons, toLower_append, ih, toLower_cons, sqlEscape_cons]
    by_cases hc : c = quote ∨ c = backslash
    · have hkept : dnsTolower c = c := by
        rcases hc with rfl | rfl <;> rfl
      rw [hkept, if_pos hc, toLower_cons, toLower_cons, hkept]
      rfl
    · have hother : ¬ (dnsTolower c = quote ∨ dnsTolower c = backslash) := by
        simp only [dnsTolower] at hc ⊢
        grind
      rw [if_neg hc, if_neg hother]
      rfl

/-! ### The text of a statement -/

/-- An argument as it is given to `snprintf`. -/
def Arg.escaped : Arg → Arg
  | .str s => .str (sqlEscape s)
  | .num n => .num n

theorem map_render_cons {p p' : Piece UInt8 Octets Number} {txt txt' : Octets → Octets}
    {num : Number → Octets} {x y : Option (List (Piece UInt8 Octets Number))}
    (hp : render txt num [p] = render txt' num [p']) (h : x.map (render txt num) = y.map (render txt' num)) :
    (x.map (p :: ·)).map (render txt num) = (y.map (p' :: ·)).map (render txt' num) := by
  have hcons : ∀ (f : Octets → Octets) (p : Piece UInt8 Octets Number) (z : Option (List _)),
      (z.map (p :: ·)).map (render f num) = (z.map (render f num)).map (render f num [p] ++ ·) := by
    intro f p z
    rw [Option.map_map, Option.map_map]
    refine congrArg (fun g => Option.map g z) (funext fun ps => ?_)
    change render f num ([p] ++ ps) = _
    exact flatMap_append
  rw [hcons, hcons, h, hp]

section Pieces

variable {c k : UInt8} {format : Octets} {args : List Arg}

theorem pieces_char (hc : c ≠ percent) (format : Octets) (args : List Arg) :
    pieces (c :: format) args = (pieces format args).map (.char c :: ·) := by
  rw [pieces.eq_def]
  exact if_pos hc

theorem pieces_none (hk : k ≠ percent) (hs : ∀ s args', args = .str s :: args' → k ≠ conversionS)
    (hn : ∀ n args', args = .num n :: args' → k ≠ conversionD) :
    pieces (percent :: k :: format) args = none := by
  rw [pieces.eq_def]
  refine (if_neg (not_not.mpr rfl)).trans ((if_neg hk).trans ?_)
  cases args with
  | nil => rfl
  | cons a args =>
    cases a with
    | str s => exact if_neg (hs s args rfl)
    | num n => exact if_neg (hn n args rfl)

/-- Escaped texts stand where the texts are to stand. -/
theorem render_pieces_escaped (format : Octets) (args : List Arg) :
    (pieces format (args.map Arg.escaped)).map (render cString Number.printed) =
      (pieces format args).map (render (fun v => sqlEscape (cString v)) Number.printed) := by
  induction format, args using pieces.induct with
  | case1 args => rfl
  | case2 c format args hc ih =>
    rw [pieces_char hc, pieces_char hc]
    exact map_render_cons rfl ih
  | case3 c args hc =>
    obtain rfl := not_not.mp hc
    rfl
  | case4 c args hc format ih =>
    obtain rfl := not_not.mp hc
    exact map_render_cons rfl ih
  | case5 c hc k format hk =>
    obtain rfl := not_not.mp hc
    have hnone : pieces (percent :: k :: format) [] = none :=
      pieces_none hk (fun _ _ h => by cases h) fun _ _ h => by cases h
    rw [map_nil, hnone]
    rfl
  | case6 c hc format s args hs ih =>
    obtain rfl := not_not.mp hc
    refine map_render_cons ?_ ih
    change cString (sqlEscape s) ++ [] = sqlEscape (cString s) ++ []
    rw [cString_sqlEscape]
  | case7 c hc k format hk s args hs =>
    obtain rfl := not_not.mp hc
    have hnone : ∀ t args', pieces (percent :: k :: format) (.str t :: args') = none := fun t args' =>
      pieces_none hk (fun _ _ _ => hs) fun _ _ h => by cases h
    rw [map_cons, Arg.escaped, hnone, hnone]
    rfl
  | case8 c hc format n args hn ih =>
    obtain rfl := not_not.mp hc
    exact map_render_cons rfl ih
  | case9 c hc k format hk n args hn =>
    obtain rfl := not_not.mp hc
    have hnone : ∀ args', pieces (percent :: k :: format) (.num n :: args') = none := fun args' =>
      pieces_none hk (fun _ _ h => by cases h) fun _ _ _ => hn
    rw [map_cons, Arg.escaped, hnone, hnone]
    rfl

/-- The characters of a text are those of its format. -/
theorem char_of_mem_pieces {ps : List (Piece UInt8 Octets Number)} (h : pieces format args = some ps)
    {x : UInt8} (hx : .char x ∈ ps) : x ∈ format := by
  have hstep : ∀ {z : Option (List (Piece UInt8 Octets Number))} {p : Piece UInt8 Octets Number}
      {ps : List (Piece UInt8 Octets Number)} {whole : Octets}, z.map (p :: ·) = some ps → .char x ∈ ps →
      (p = .char x → x ∈ whole) → (∀ {ps'}, z = some ps' → .char x ∈ ps' → x ∈ whole) → x ∈ whole := by
    intro z p ps whole hz hx hfirst hlater
    obtain ⟨ps', hps', rfl⟩ := Option.map_eq_some_iff.mp hz
    exact (mem_cons.mp hx).elim (fun heq => hfirst heq.symm) (hlater hps')
  induction format, args using pieces.induct generalizing ps with
  | case1 args =>
    obtain rfl := Option.some.inj h
    cases hx
  | case2 c format args hc ih =>
    rw [pieces_char hc] at h
    refine hstep h hx (fun heq => ?_) fun hps' hx' => mem_cons_of_mem c (ih hps' hx')
    rw [Piece.char.inj heq]
    exact mem_cons_self
  | case3 c args hc =>
    obtain rfl := not_not.mp hc
    cases h
  | case4 c args hc format ih =>
    obtain rfl := not_not.mp hc
    refine hstep h hx (fun heq => ?_) fun hps' hx' =>
      mem_cons_of_mem _ (mem_cons_of_mem _ (ih hps' hx'))
    rw [← Piece.char.inj heq]
    exact mem_cons_self
  | case5 c hc k format hk =>
    obtain rfl := not_not.mp hc
    rw [pieces_none hk (fun _ _ heq => by cases heq) fun _ _ heq => by cases heq] at h
    cases h
  | case6 c hc format s args hs ih =>
    obtain rfl := not_not.mp hc
    exact hstep h hx (fun heq => by cases heq) fun hps' hx' =>
      mem_cons_of_mem _ (mem_cons_of_mem _ (ih hps' hx'))
  | case7 c hc k format hk s args hs =>
    obtain rfl := not_not.mp hc
    rw [pieces_none hk (fun _ _ _ => hs) fun _ _ heq => by cases heq] at h
    cases h
  | case8 c hc format n args hn ih =>
    obtain rfl := not_not.mp hc
    exact hstep h hx (fun heq => by cases heq) fun hps' hx' =>
      mem_cons_of_mem _ (mem_cons_of_mem _ (ih hps' hx'))
  | case9 c hc k format hk n args hn =>
    obtain rfl := not_not.mp hc
    rw [pieces_none hk (fun _ _ heq => by cases heq) fun _ _ _ => hn] at h
    cases h

end Pieces

namespace Statement

variable {d : GSQLBackend} {st : Statement}

/-- Every statement is made in the same way from its format and its values. -/
theorem sent_eq (d : GSQLBackend) (st : Statement) :
    st.sent d = snprintf outputSize (st.format d) (st.values.map Arg.escaped) := by
  cases st with
  | lookup qtype qname domain_id =>
    change d.lookup qtype qname domain_id = snprintf outputSize (d.lookupFormat qtype qname domain_id) _
    unfold GSQLBackend.lookup values
    dsimp only
    by_cases hany : qtype ≠ QType.ANY
    · rw [if_pos hany, if_pos hany]
      split <;> rfl
    · rw [if_neg hany, if_neg hany]
      split <;> rfl
  | updateDNSSECOrderAndAuthAbsolute domain_id qname ordername auth => rfl
  | createSlaveDomain ip domain account => rfl
  | feedRecord r =>
    change snprintf _ _ _ = snprintf _ _ _
    rw [toLower_sqlEscape]
    rfl

/-- The statement is cut where the buffer ends. -/
theorem sent_inPlace (d : GSQLBackend) (st : Statement) : st.sent d = (st.inPlace d).map fun ps =>
    (render (fun v => sqlEscape (cString v)) Number.printed ps).take (outputSize - 1) := by
  rw [sent_eq]
  unfold snprintf inPlace
  have hrender := render_pieces_escaped (cString (st.format d)) st.values
  have hcut : ∀ (x : Option (List (Piece UInt8 Octets Number))) (txt : Octets → Octets),
      x.map (fun ps => (render txt Number.printed ps).take (outputSize - 1)) =
        (x.map (render txt Number.printed)).map (List.take (outputSize - 1)) := by
    intro x txt
    rw [Option.map_map]
    rfl
  rw [hcut, hcut, hrender]

/-- **Statements that say what was meant**: the format takes its values, the texts inside of literals;
there is no NUL in the texts, and no unsigned number from 2^31 on; and all of it fits. -/
structure Sayable (d : GSQLBackend) (st : Statement) (ps : List (Piece UInt8 Octets Number)) : Prop where
  inPlace_eq : st.inPlace d = some ps
  inLiterals : ∃ syms, meaning backslash quote (fun _ => []) (fun _ => []) .code ps = some syms
  noNul : ∀ v, .text v ∈ ps → 0 ∉ v
  small : ∀ n, .number (.uint n) ∈ ps → n.toNat < 2 ^ 31
  fits : (render sqlEscape Number.meant ps).length ≤ outputSize - 1

variable {ps : List (Piece UInt8 Octets Number)}

/-- Numbers that are printed as they are meant. -/
theorem printed_eq_meant
    (h : ∀ n, .number (.uint n) ∈ ps → n.toNat < 2 ^ 31) {n : Number} (hn : .number n ∈ ps) :
    n.printed = n.meant := by
  rcases n.printed_eq with ⟨heq, -⟩ | ⟨⟨k, rfl, hlarge⟩, -⟩
  · exact heq
  · exact absurd (h k hn) hlarge

theorem render_congr {txt txt' : Octets → Octets}
    {num num' : Number → Octets} (htxt : ∀ v, .text v ∈ ps → txt v = txt' v)
    (hnum : ∀ n, .number n ∈ ps → num n = num' n) : render txt num ps = render txt' num' ps := by
  refine flatMap_congr fun p hp => ?_
  cases p with
  | char c => rfl
  | text v => exact htxt v hp
  | number n => exact hnum n hp

theorem saysWhatWasMeant_of_sayable (h : st.Sayable d ps) :
    st.SaysWhatWasMeant d := by
  obtain ⟨syms, hsyms⟩ := h.inLiterals
  obtain ⟨meant, hmeant⟩ := exists_meaning hsyms id Number.meant
  have htext : render (fun v => sqlEscape (cString v)) Number.printed ps = render sqlEscape Number.meant ps :=
    render_congr (fun v hv => congrArg sqlEscape (cString_eq_self (h.noNul v hv)))
      fun n hn => printed_eq_meant h.small hn
  refine ⟨meant, render sqlEscape Number.meant ps, ?_, ?_, ?_⟩
  · unfold Statement.meant
    rw [h.inPlace_eq]
    exact hmeant
  · rw [sent_inPlace, h.inPlace_eq, Option.map_some, htext, take_of_length_le h.fits]
  · refine read_render (.inr rfl) (.inl rfl) (by decide) (fun n hn c hc => ?_) hmeant
    have hplain := plain_of_number (n.printed_octets c (printed_eq_meant h.small hn ▸ hc))
    exact ⟨hplain.1, hplain.2.1⟩

/-- What is read in the beginning of a text is the beginning of what the text means. The rest is empty
only if there is none. -/
theorem sayable_of_saysWhatWasMeant (h : st.SaysWhatWasMeant d) : ∃ ps, st.Sayable d ps := by
  obtain ⟨syms, text, hmeant, hsent, hread⟩ := h
  obtain ⟨ps, hps, hmeant⟩ := Option.bind_eq_some_iff.mp hmeant
  rw [sent_inPlace, hps] at hsent
  obtain rfl := Option.some.inj hsent
  -- the whole text, of which the one sent is the beginning
  obtain ⟨syms', hmeant'⟩ := exists_meaning hmeant cString Number.printed
  have hwhole : read backslash quote .code (render (fun v => sqlEscape (cString v)) Number.printed ps) =
      some syms' := by
    refine read_render (.inr rfl) (.inl rfl) (by decide) (fun n _ c hc => ?_) hmeant'
    have hplain := plain_of_number (n.printed_octets c hc)
    exact ⟨hplain.1, hplain.2.1⟩
  have hsplit := take_append_drop (outputSize - 1)
    (render (fun v => sqlEscape (cString v)) Number.printed ps)
  rw [← hsplit, read_append hread, Option.map_eq_some_iff] at hwhole
  obtain ⟨rest, hrest, rfl⟩ := hwhole
  -- nothing that is sent has a NUL in it
  have hclean : ∀ v, .text v ∈ ps → 0 ∉ v := by
    intro v hv h0
    have hmem := mem_append_left rest (value_mem_meaning hmeant hv h0)
    rcases char_of_mem_meaning hmeant' hmem rfl with hc | ⟨w, -, hw⟩ | ⟨n, -, hn⟩
    · exact zero_notMem_cString _ (char_of_mem_pieces hps hc)
    · exact zero_notMem_cString w hw
    · exact (plain_of_number (n.printed_octets 0 hn)).2.2 rfl
  have hcString : ∀ v, .text v ∈ ps → cString v = id v := fun v hv => cString_eq_self (hclean v hv)
  rw [meaning_congr hcString fun n _ => rfl] at hmeant'
  have hparts : ∀ n : Number, n.meant = n.printed ∨
      ∃ a v b w, n.meant = a :: v ∧ n.printed = b :: w ∧ a ≠ b :=
    fun n => n.printed_eq.imp (fun h => h.1.symm) And.right
  obtain ⟨rfl, hsame⟩ := meaning_prefix (fun n _ => hparts n) hmeant hmeant'
  refine ⟨ps, hps, exists_meaning hmeant _ _, hclean, fun n hn => ?_, ?_⟩
  · rcases (Number.uint n).printed_eq with ⟨-, hsmall⟩ | ⟨-, a, v, b, w, ha, hb, hab⟩
    · exact hsmall n rfl
    · rw [hsame _ hn, hb] at ha
      exact absurd (List.cons.inj ha).1.symm hab
  · have htext : render (fun v => sqlEscape (cString v)) Number.printed ps =
        render sqlEscape Number.meant ps :=
      render_congr (fun v hv => congrArg sqlEscape (hcString v hv)) fun n hn => (hsame n hn).symm
    by_contra hlong
    have hdrop : (render (fun v => sqlEscape (cString v)) Number.printed ps).drop (outputSize - 1) ≠ [] := by
      rw [htext]
      exact fun hnil => hlong (drop_eq_nil_iff.mp hnil)
    exact read_ne_nil hdrop hrest rfl

/-- **When a statement says what was meant.** -/
theorem says_what_was_meant_iff (d : GSQLBackend) (st : Statement) :
    st.SaysWhatWasMeant d ↔ ∃ ps, st.Sayable d ps :=
  ⟨sayable_of_saysWhatWasMeant, fun ⟨_, h⟩ => saysWhatWasMeant_of_sayable h⟩

end Statement

/-! ### A statement about another zone -/

/-- The formats that are configured for MySQL when nothing else is. -/
def mysqlFormats : GSQLBackend where
  d_noWildCardNoIDQuery :=
    ascii "select content,ttl,prio,type,domain_id,name from records where type='%s' and name='%s'"
  d_noWildCardIDQuery :=
    ascii "select content,ttl,prio,type,domain_id,name from records where type='%s' and name='%s' and domain_id=%d"
  d_wildCardNoIDQuery :=
    ascii "select content,ttl,prio,type,domain_id,name from records where type='%s' and name like '%s'"
  d_wildCardIDQuery :=
    ascii "select content,ttl,prio,type,domain_id,name from records where type='%s' and name like '%s' and domain_id='%d'"
  d_noWildCardANYNoIDQuery :=
    ascii "select content,ttl,prio,type,domain_id,name from records where name='%s'"
  d_noWildCardANYIDQuery :=
    ascii "select content,ttl,prio,type,domain_id,name from records where name='%s' and domain_id=%d"
  d_wildCardANYNoIDQuery :=
    ascii "select content,ttl,prio,type,domain_id,name from records where name like '%s'"
  d_wildCardANYIDQuery :=
    ascii "select content,ttl,prio,type,domain_id,name from records where name like '%s' and domain_id='%d'"
  d_InsertSlaveZoneQuery :=
    ascii "insert into domains (type,name,master,account) values('SLAVE','%s','%s','%s')"
  d_InsertRecordQuery :=
    ascii "insert into records (content,ttl,prio,type,domain_id,name) values ('%s',%d,%d,'%s',%d,'%s')"
  d_setOrderAuthQuery :=
    ascii "update records set ordername='%s',auth=%d where name='%s' and domain_id='%d'"

/-- A name of four labels, of 63, 63, 63 and 41 backslashes, as a text. -/
def backslashName : Octets :=
  List.replicate 126 backslash ++ dot :: List.replicate 126 backslash ++
    dot :: List.replicate 126 backslash ++ dot :: List.replicate 82 backslash

/-- The addresses of that name in zone 12 are looked for in zone 1: the statement is cut behind the first
digit. -/
theorem shortened_id :
    (Statement.lookup QType.A backslashName 12).sent mysqlFormats =
        (Statement.lookup QType.A backslashName 1).sent mysqlFormats ∧
      (Statement.lookup QType.A backslashName 1).SaysWhatWasMeant mysqlFormats ∧
      ¬ (Statement.lookup QType.A backslashName 12).SaysWhatWasMeant mysqlFormats := by
  have hother : (Statement.lookup QType.A backslashName 1).meant mysqlFormats =
      ((Statement.lookup QType.A backslashName 1).sent mysqlFormats).bind (read backslash quote .code) := by
    decide +kernel
  have hmeant : (Statement.lookup QType.A backslashName 12).meant mysqlFormats ≠
      ((Statement.lookup QType.A backslashName 12).sent mysqlFormats).bind (read backslash quote .code) := by
    decide +kernel
  refine ⟨by decide +kernel, ?_, ?_⟩
  · have hsome : ((Statement.lookup QType.A backslashName 1).meant mysqlFormats).isSome := by decide +kernel
    obtain ⟨syms, hsyms⟩ := Option.isSome_iff_exists.mp hsome
    obtain ⟨text, hsent, hread⟩ := Option.bind_eq_some_iff.mp (hother.symm.trans hsyms)
    exact ⟨syms, text, hsyms, hsent, hread⟩
  · rintro ⟨syms, text, hsyms, hsent, hread⟩
    refine hmeant ?_
    rw [hsyms, hsent]
    exact hread.symm

end PowerDNS
